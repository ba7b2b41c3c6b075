/-!
# Scanning text

Cutting, stripping and trimming lists of characters.  Each function comes with the equation between
its result and the text it was given.
-/

namespace ApiGateway.Text

/-- Remove a leading text, if it is there. -/
def strip? : List Char → List Char → Option (List Char)
  | [], text => some text
  | _ :: _, [] => none
  | a :: lead, b :: text => if a = b then strip? lead text else none

theorem strip?_eq_some_iff {lead text rest : List Char} :
    strip? lead text = some rest ↔ text = lead ++ rest := by
  induction lead generalizing text with
  | nil => simp [strip?, eq_comm]
  | cons a lead ih =>
    cases text with
    | nil => simp [strip?]
    | cons b text =>
      by_cases hsame : a = b
      · subst hsame; simp [strip?, ih]
      · simp [strip?, hsame, Ne.symm hsame]

theorem strip?_append (lead rest : List Char) : strip? lead (lead ++ rest) = some rest :=
  strip?_eq_some_iff.2 rfl

/-- Remove a trailing text, if it is there. -/
def stripEnd? (trail text : List Char) : Option (List Char) :=
  (strip? trail.reverse text.reverse).map List.reverse

/-- The text before the first `mark`, and the text after it. -/
def cut? (mark : Char) : List Char → Option (List Char × List Char)
  | [] => none
  | c :: text =>
    if c = mark then some ([], text)
    else (cut? mark text).map fun (before, after) => (c :: before, after)

theorem cut?_eq_some_iff {mark : Char} {text before after : List Char} :
    cut? mark text = some (before, after) ↔ mark ∉ before ∧ text = before ++ mark :: after := by
  induction text generalizing before after with
  | nil => simp [cut?]
  | cons c text ih =>
    by_cases hsame : c = mark
    · subst hsame
      cases before with
      | nil => simp [cut?]
      | cons d before => simp [cut?]; grind
    · cases before with
      | nil => simp [cut?, hsame]
      | cons d before =>
        simp only [cut?, hsame, if_false, Option.map_eq_some_iff, Prod.exists, ih]
        constructor
        · rintro ⟨b, a, ⟨habsent, rfl⟩, heq⟩
          simp only [Prod.mk.injEq, List.cons.injEq] at heq
          obtain ⟨⟨rfl, rfl⟩, rfl⟩ := heq
          exact ⟨by simp [habsent, Ne.symm hsame], rfl⟩
        · rintro ⟨habsent, heq⟩
          simp only [List.cons_append, List.cons.injEq] at heq
          obtain ⟨rfl, rfl⟩ := heq
          exact ⟨before, after, ⟨fun hinside => habsent (List.mem_cons_of_mem _ hinside), rfl⟩, rfl⟩

theorem cut?_eq_none_iff {mark : Char} {text : List Char} : cut? mark text = none ↔ mark ∉ text := by
  induction text with
  | nil => simp [cut?]
  | cons c text ih =>
    by_cases hsame : c = mark
    · simp [cut?, hsame]
    · simp [cut?, hsame, ih, Ne.symm hsame]

theorem cut?_length {mark : Char} {text before after : List Char}
    (hfound : cut? mark text = some (before, after)) : after.length < text.length := by
  rw [cut?_eq_some_iff] at hfound
  simp only [hfound.2, List.length_append, List.length_cons]
  omega

/-- Split at every `mark`; a text without it is one piece. -/
def splitAll (mark : Char) : List Char → List (List Char)
  | [] => [[]]
  | c :: text =>
    if c = mark then [] :: splitAll mark text
    else match splitAll mark text with
      | [] => [[c]]
      | piece :: pieces => (c :: piece) :: pieces

theorem splitAll_ne_nil (mark : Char) (text : List Char) : splitAll mark text ≠ [] := by
  cases text with
  | nil => simp [splitAll]
  | cons c text =>
    simp only [splitAll]
    split
    · simp
    · split <;> simp

theorem intercalate_splitAll (mark : Char) (text : List Char) :
    [mark].intercalate (splitAll mark text) = text := by
  induction text with
  | nil => simp [splitAll]
  | cons c text ih =>
    simp only [splitAll]
    split
    · next hsame =>
      subst hsame
      cases pieces : splitAll c text with
      | nil => exact absurd pieces (splitAll_ne_nil c text)
      | cons piece rest => rw [pieces] at ih; simp_all
    · cases pieces : splitAll mark text with
      | nil => exact absurd pieces (splitAll_ne_nil mark text)
      | cons piece rest =>
        rw [pieces] at ih
        cases rest <;> simp_all

/-- Drop the characters at the end for which `drop` holds. -/
def trimEnd (drop : Char → Bool) (text : List Char) : List Char :=
  (text.reverse.dropWhile drop).reverse

/-- Drop the characters at both ends for which `drop` holds. -/
def trim (drop : Char → Bool) (text : List Char) : List Char :=
  trimEnd drop (text.dropWhile drop)

theorem trimEnd_append_dropped (drop : Char → Bool) (text : List Char) :
    trimEnd drop text ++ (text.reverse.takeWhile drop).reverse = text := by
  rw [trimEnd, ← List.reverse_append, List.takeWhile_append_dropWhile, List.reverse_reverse]

/-- Join the pieces with a separator between neighbours. -/
def join (separator : String) (pieces : List String) : String :=
  .ofList (separator.toList.intercalate (pieces.map String.toList))

end ApiGateway.Text
