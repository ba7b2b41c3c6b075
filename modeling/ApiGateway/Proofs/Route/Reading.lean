import ApiGateway.Proofs.Route.Symbol

/-!
# Templates as the index reads them

The route index reads any text as a template: a colon starts a parameter and an asterisk a remainder,
each reaching to the next slash, whatever their names are.  Here is the list of signs that is read from a
text, and the paths that such a list spells out.
-/

namespace ApiGateway.Route

inductive Sign where
  | char (c : Char)
  /-- The rest of a segment. -/
  | param
  /-- All that follows. -/
  | remainder
  deriving DecidableEq, Repr

namespace Sign

def ofMark (mark : Char) : Sign :=
  if mark = ':' then .param else .remainder

/-- The signs of a text; the names of wildcards do not count. -/
def read (text : List Char) : List Sign :=
  match text with
  | [] => []
  | c :: rest => if isWild c then ofMark c :: read (segmentEnd rest).2 else .char c :: read rest
termination_by text.length
decreasing_by
  · have := segmentEnd_length rest
    simp only [List.length_cons]
    omega
  · simp

def chars (text : List Char) : List Sign :=
  text.map .char

@[simp]
theorem chars_nil : chars [] = [] := rfl

@[simp]
theorem chars_cons (c : Char) (text : List Char) : chars (c :: text) = .char c :: chars text := rfl

@[simp]
theorem chars_append (left right : List Char) : chars (left ++ right) = chars left ++ chars right :=
  List.map_append

@[simp]
theorem read_nil : read [] = [] := by
  rw [read]

theorem read_cons_of_plain {c : Char} (hplain : isWild c = false) (rest : List Char) :
    read (c :: rest) = .char c :: read rest := by
  rw [read, hplain, if_neg Bool.false_ne_true]

theorem read_cons_of_wild {c : Char} (hwild : isWild c = true) (rest : List Char) :
    read (c :: rest) = ofMark c :: read (segmentEnd rest).2 := by
  rw [read, if_pos hwild]

/-- Plain text in front of a template stands for itself. -/
theorem read_append {text : List Char} (hplain : ∀ c ∈ text, isWild c = false) (rest : List Char) :
    read (text ++ rest) = chars text ++ read rest := by
  induction text with
  | nil => rfl
  | cons c text ih =>
      rw [List.cons_append, read_cons_of_plain (hplain c (.head text)),
        ih fun d hd => hplain d (.tail c hd)]
      rfl

theorem read_of_plain {text : List Char} (hplain : ∀ c ∈ text, isWild c = false) :
    read text = chars text := by
  simpa using read_append hplain []

end Sign

/-! ## The first wildcard -/

/-- A text without a wildcard is plain. -/
theorem plain_of_firstWild?_eq_none {text : List Char} (hnone : firstWild? text = none) :
    ∀ c ∈ text, isWild c = false := by
  induction text with
  | nil => simp
  | cons c text ih =>
      rw [firstWild?] at hnone
      split at hnone
      · cases hnone
      · next hplain =>
        rw [Option.map_eq_none_iff] at hnone
        intro d hd
        rcases List.mem_cons.mp hd with rfl | htail
        · simpa using hplain
        · exact ih hnone d htail

/-- What stands before the first wildcard is plain, and the wildcard reaches to the end of its segment. -/
theorem firstWild?_eq_some {text before name after : List Char} {mark : Char}
    (hsome : firstWild? text = some (before, mark, name, after)) :
    (∀ c ∈ before, isWild c = false) ∧ isWild mark = true ∧
      ∃ rest, text = before ++ mark :: rest ∧ segmentEnd rest = (name, after) := by
  induction text generalizing before with
  | nil => cases hsome
  | cons c text ih =>
      rw [firstWild?] at hsome
      split at hsome
      · next hwild =>
        cases hsome
        exact ⟨by simp, hwild, text, rfl, rfl⟩
      · next hplain =>
        obtain ⟨⟨inner, found⟩, hinner, heq⟩ := Option.map_eq_some_iff.mp hsome
        cases heq
        obtain ⟨hbefore, hwild, rest, rfl, hend⟩ := ih hinner
        refine ⟨fun d hd => ?_, hwild, rest, rfl, hend⟩
        rcases List.mem_cons.mp hd with rfl | htail
        · simpa using hplain
        · exact hbefore d htail

theorem Sign.read_of_firstWild?_eq_some {text before name after : List Char} {mark : Char}
    (hsome : firstWild? text = some (before, mark, name, after)) :
    read text = chars before ++ ofMark mark :: read after := by
  obtain ⟨hplain, hwild, rest, rfl, hend⟩ := firstWild?_eq_some hsome
  rw [read_append hplain, read_cons_of_wild hwild, hend]

theorem firstWild?_cons_of_wild {c : Char} (hwild : isWild c = true) (rest : List Char) :
    firstWild? (c :: rest) = some ([], c, segmentEnd rest) := by
  rw [firstWild?, if_pos hwild]

theorem parameterNames_of_none {text : List Char} {count : Nat} (hnone : firstWild? text = none) :
    parameterNames text count = .ok [] := by
  rw [parameterNames]
  split
  · rfl
  · next hsome =>
    rw [hnone] at hsome
    cases hsome

theorem parameterNames_of_some {text before name after : List Char} {mark : Char} {count : Nat}
    (hsome : firstWild? text = some (before, mark, name, after)) :
    parameterNames text count =
      if name.any isWild then .error .crowdedSegment
      else if name = [] then .error .unnamedParameter
      else if mark = ':' then
        if count < parameterLimit then (parameterNames after (count + 1)).map (name :: ·)
        else .error .tooManyParameters
      else (parameterNames after count).map (name :: ·) := by
  rw [parameterNames]
  split
  · next hnone =>
    rw [hsome] at hnone
    cases hnone
  · next hfound =>
    rw [hsome] at hfound
    cases hfound
    rfl

/-- A segment has no slash, and behind it the text ends or goes on with one. -/
theorem segmentEnd_cases (text : List Char) :
    '/' ∉ (segmentEnd text).1 ∧
      ((segmentEnd text).2 = [] ∨ ∃ rest, (segmentEnd text).2 = '/' :: rest) := by
  induction text with
  | nil => exact ⟨by simp [segmentEnd], Or.inl rfl⟩
  | cons c text ih =>
      by_cases heq : c = '/'
      · subst heq
        exact ⟨by simp [segmentEnd], Or.inr ⟨text, by simp [segmentEnd]⟩⟩
      · simpa [segmentEnd, heq, Ne.symm heq] using ih

/-! ## Paths -/

/-- The signs spell out the path with these texts in the places of the wildcards: a parameter stands for
the rest of a segment, a remainder for the rest of the path. -/
inductive Sign.Spells : List Sign → List Char → List (List Char) → Prop where
  | nil : Spells [] [] []
  | char {signs : List Sign} {path : List Char} {texts : List (List Char)} (c : Char)
      (hrest : Spells signs path texts) : Spells (.char c :: signs) (c :: path) texts
  | param {signs : List Sign} {text path : List Char} {texts : List (List Char)} (htext : '/' ∉ text)
      (hends : path = [] ∨ path.head? = some '/') (hrest : Spells signs path texts) :
      Spells (.param :: signs) (text ++ path) (text :: texts)
  | remainder (text : List Char) : Spells [.remainder] text [text]

namespace Sign

theorem Spells.chars_append {signs : List Sign} {path : List Char} {texts : List (List Char)}
    (text : List Char) (hrest : Spells signs path texts) :
    Spells (chars text ++ signs) (text ++ path) texts := by
  induction text with
  | nil => exact hrest
  | cons c text ih => exact .char c ih

/-- A parameter at the end stands for the last segment. -/
theorem Spells.last {text : List Char} (htext : '/' ∉ text) : Spells [.param] text [text] := by
  have hparam : Spells [.param] (text ++ []) [text] := .param htext (Or.inl rfl) .nil
  rwa [List.append_nil] at hparam

/-- What starts with a character spells out paths that start with it. -/
theorem Spells.head? {c : Char} {signs : List Sign} {path : List Char} {texts : List (List Char)}
    (hspells : Spells (.char c :: signs) path texts) : path.head? = some c := by
  cases hspells
  rfl

end Sign

end ApiGateway.Route
