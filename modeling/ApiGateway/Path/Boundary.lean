import ApiGateway.Text.Scan

/-!
# Leading path segments

A leading text counts only up to a segment boundary.  `continues` is the test used when a documented
path loses its longest ignored lead, `exchange?` the exchange of one lead for another on a concrete
path.
-/

namespace ApiGateway.Path

/-- The path equals the lead, or goes on with a slash after it. -/
def continues (path lead : List Char) : Bool :=
  match Text.strip? lead path with
  | some [] => true
  | some (c :: _) => c == '/'
  | none => false

theorem continues_iff {path lead : List Char} :
    continues path lead = true ↔ path = lead ∨ ∃ rest, path = lead ++ '/' :: rest := by
  cases hstrip : Text.strip? lead path with
  | none =>
    have habsent : ∀ rest, path ≠ lead ++ rest := fun rest hpath => by
      rw [Text.strip?_eq_some_iff.2 hpath] at hstrip; simp at hstrip
    simp only [continues, hstrip, Bool.false_eq_true, false_iff, not_or, not_exists]
    exact ⟨fun hpath => habsent [] (by simpa using hpath), fun rest => habsent _⟩
  | some rest =>
    have hpath := Text.strip?_eq_some_iff.1 hstrip
    subst hpath
    cases rest with
    | nil => simp only [List.append_nil] at hstrip; simp [continues, hstrip]
    | cons c rest => simp [continues, hstrip]

/-- The longer of two leads, the later one if they are equally long. -/
def longer (best : Option (List Char)) (lead : List Char) : Option (List Char) :=
  match best with
  | none => some lead
  | some known => if known.length ≤ lead.length then some lead else some known

/-- The longest lead that the path continues; of equally long ones the last. -/
def longest? (leads : List (List Char)) (path : List Char) : Option (List Char) :=
  leads.foldl (fun best lead => if continues path lead then longer best lead else best) none

/-- A text that follows a lead, put behind a slash unless it is empty or has one. -/
def slashed : List Char → List Char
  | [] => []
  | c :: rest => if c = '/' then c :: rest else '/' :: c :: rest

/-- Drop all trailing slashes. -/
def withoutTrailingSlashes (path : List Char) : List Char :=
  Text.trimEnd (· == '/') path

/-- Exchange the lead `source` for `target`, if the path has it up to a segment boundary. -/
def exchange? (path source target : List Char) : Option (List Char) :=
  match Text.strip? source path with
  | none => none
  | some rest =>
    if rest = [] ∨ rest.head? = some '/' ∨ source.getLast? = some '/' then
      match withoutTrailingSlashes target ++ slashed rest with
      | [] => some ['/']
      | moved => some moved
    else none

end ApiGateway.Path
