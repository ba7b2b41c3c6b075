import ApiGateway.Proofs.Path.Segments
import ApiGateway.Route.Table

/-!
# Templates as symbols

To the route index a template is a list of symbols: characters, and parameters that stand for the
rest of a segment.  Here are the text of such a list as the index reads it, the paths it fits, the
order in which lists that fit one path are preferred, and how all three look on whole segments.
-/

namespace ApiGateway.Route

inductive Symbol where
  | char (c : Char)
  | param
  deriving DecidableEq, Repr

namespace Symbol

/-- The text of symbols, the parameters numbered from `position`. -/
def render (position : Nat) : List Symbol → List Char
  | [] => []
  | .char c :: rest => c :: render position rest
  | .param :: rest => ':' :: Path.Template.indexName position ++ render (position + 1) rest

def chars (text : List Char) : List Symbol :=
  text.map .char

@[simp]
theorem chars_nil : chars [] = [] := rfl

@[simp]
theorem chars_cons (c : Char) (text : List Char) : chars (c :: text) = .char c :: chars text := rfl

@[simp]
theorem chars_append (left right : List Char) :
    chars (left ++ right) = chars left ++ chars right :=
  List.map_append

@[simp]
theorem render_chars_append (position : Nat) (text : List Char) (rest : List Symbol) :
    render position (chars text ++ rest) = text ++ render position rest := by
  induction text with
  | nil => rfl
  | cons c text ih => simp [render, ih]

/-- The texts that the parameters stand for in a path, if the symbols fit it.  At the end of a path
nothing is left for a parameter to stand for. -/
def match? : List Symbol → List Char → Option (List (List Char))
  | [], [] => some []
  | [], _ :: _ => none
  | _ :: _, [] => none
  | .char c :: rest, d :: path => if c = d then match? rest path else none
  | .param :: rest, d :: path =>
    (match? rest (segmentEnd (d :: path)).2).map ((segmentEnd (d :: path)).1 :: ·)

/-- Where two lists of symbols differ first, the left has a character and the right a parameter. -/
def Leads : List Symbol → List Symbol → Prop
  | .char _ :: _, .param :: _ => True
  | .char c :: left, .char d :: right => c = d ∧ Leads left right
  | .param :: left, .param :: right => Leads left right
  | _, _ => False

@[simp]
theorem match?_chars_append (text path : List Char) (rest : List Symbol) :
    match? (chars text ++ rest) (text ++ path) = match? rest path := by
  induction text with
  | nil => rfl
  | cons c text ih => simpa [match?] using ih

/-- Literal text fits only paths that start with it. -/
theorem match?_chars_append_isSome {text path : List Char} {rest : List Symbol}
    (hfits : (match? (chars text ++ rest) path).isSome) : ∃ tail, path = text ++ tail := by
  induction text generalizing path with
  | nil => exact ⟨path, rfl⟩
  | cons c text ih =>
      cases path with
      | nil => simp [match?] at hfits
      | cons d path =>
          simp only [chars_cons, List.cons_append, match?] at hfits
          split at hfits
          · next heq =>
            obtain ⟨tail, rfl⟩ := ih hfits
            exact ⟨tail, by simp [heq]⟩
          · cases hfits

theorem leads_chars_append (text : List Char) (left right : List Symbol) :
    Leads (chars text ++ left) (chars text ++ right) ↔ Leads left right := by
  induction text with
  | nil => rfl
  | cons c text ih => simpa [Leads] using ih

/-! ## Lists that the index can hold -/

/-- No character of the list starts a wildcard, each parameter ends its segment, and no slash ends
the list. -/
structure IsNeat (symbols : List Symbol) : Prop where
  plain : ∀ c, .char c ∈ symbols → isWild c = false
  segmentEnds : ∀ before rest, symbols = before ++ .param :: rest →
    rest = [] ∨ rest.head? = some (.char '/')
  ends : symbols.getLast? ≠ some (.char '/')

/-- What is left of a neat list is neat. -/
theorem IsNeat.suffix (before : List Symbol) {rest : List Symbol} (hneat : IsNeat (before ++ rest)) :
    IsNeat rest where
  plain c hmem := hneat.plain c (List.mem_append_right before hmem)
  segmentEnds inner tail heq := by
    apply hneat.segmentEnds (before ++ inner) tail
    rw [heq, List.append_assoc]
  ends hlast := by
    apply hneat.ends
    rw [List.getLast?_append, hlast]
    rfl

theorem IsNeat.tail {symbol : Symbol} {rest : List Symbol} (hneat : IsNeat (symbol :: rest)) :
    IsNeat rest :=
  IsNeat.suffix [symbol] hneat

/-- A list is literal text, or literal text followed by a parameter and a shorter list. -/
@[elab_as_elim]
theorem paramInduction {motive : List Symbol → Prop} (chars : ∀ text, motive (chars text))
    (param : ∀ text rest, motive rest → motive (Symbol.chars text ++ .param :: rest))
    (symbols : List Symbol) : motive symbols := by
  -- The text read so far is put in front, so that a character only moves over to it.
  have hlead : ∀ lead, motive (Symbol.chars lead ++ symbols) := by
    induction symbols with
    | nil =>
        intro lead
        rw [List.append_nil]
        exact chars lead
    | cons symbol rest ih =>
        intro lead
        cases symbol with
        | char c => simpa using ih (lead ++ [c])
        | param => exact param lead rest (ih [])
  exact hlead []

end Symbol

/-! ## How the index reads the text of a list -/

theorem mem_indexName {c : Char} {position : Nat} (hmem : c ∈ Path.Template.indexName position) :
    c = 'p' ∨ c.isDigit := by
  rw [Path.Template.indexName, Nat.toList_repr] at hmem
  rcases List.mem_cons.mp hmem with rfl | hdigit
  · exact Or.inl rfl
  · exact Or.inr (Nat.isDigit_of_mem_toDigits (by decide) (by decide) hdigit)

theorem indexName_injective {left right : Nat}
    (heq : Path.Template.indexName left = Path.Template.indexName right) : left = right := by
  simp only [Path.Template.indexName, Nat.toList_repr, List.cons.injEq, true_and] at heq
  rw [← @Nat.ofDigitChars_ten_toDigits left, heq, Nat.ofDigitChars_ten_toDigits]

theorem slash_not_mem_indexName (position : Nat) : '/' ∉ Path.Template.indexName position := by
  intro hmem
  rcases mem_indexName hmem with h | h <;> exact absurd h (by decide)

theorem not_any_isWild_indexName (position : Nat) :
    (Path.Template.indexName position).any isWild = false := by
  rw [List.any_eq_false]
  intro c hmem hwild
  simp only [isWild, Bool.or_eq_true, beq_iff_eq] at hwild
  rcases mem_indexName hmem with rfl | hdigit
  · exact absurd hwild (by decide)
  · rcases hwild with rfl | rfl <;> exact absurd hdigit (by decide)

/-- A segment reaches to the end or to the next slash. -/
theorem segmentEnd_append_of_slash {text rest : List Char} (hslash : '/' ∉ text)
    (hrest : rest = [] ∨ ∃ tail, rest = '/' :: tail) : segmentEnd (text ++ rest) = (text, rest) := by
  have hall : ∀ c ∈ text, (c != '/') = true := by
    intro c hc
    simpa using fun heq : c = '/' => hslash (heq ▸ hc)
  rw [segmentEnd, List.takeWhile_append_of_pos hall, List.dropWhile_append_of_pos hall]
  rcases hrest with rfl | ⟨tail, rfl⟩ <;> simp

theorem firstWild?_eq_none {text : List Char} (hplain : ∀ c ∈ text, isWild c = false) :
    firstWild? text = none := by
  induction text with
  | nil => rfl
  | cons c text ih =>
      have hrest := ih fun d hd => hplain d (.tail c hd)
      simp [firstWild?, hplain c (.head text), hrest]

theorem firstWild?_append {text rest before name after : List Char} {mark : Char}
    (hplain : ∀ c ∈ text, isWild c = false)
    (hrest : firstWild? rest = some (before, mark, name, after)) :
    firstWild? (text ++ rest) = some (text ++ before, mark, name, after) := by
  induction text with
  | nil => exact hrest
  | cons c text ih =>
      have htail := ih fun d hd => hplain d (.tail c hd)
      simp [firstWild?, hplain c (.head text), htail]

/-- Where two texts part they differ. -/
theorem head_ne_of_shared {left right common l r : List Char} {c d : Char}
    (hshared : shared left right = (common, c :: l, d :: r)) : c ≠ d := by
  fun_induction shared left right generalizing common with
  | case1 b left right inner l' r' hinner ih =>
      cases hshared
      exact ih hinner
  | case2 a left b right hne =>
      cases hshared
      exact hne
  | case3 left right hshape =>
      cases hshared
      exact absurd rfl (hshape c l d r rfl)

namespace Symbol

/-- After a parameter a neat list ends or goes on with a slash. -/
theorem IsNeat.after_param (before : List Symbol) {rest : List Symbol}
    (hneat : IsNeat (before ++ .param :: rest)) : rest = [] ∨ ∃ tail, rest = .char '/' :: tail := by
  rcases hneat.segmentEnds before rest rfl with rfl | hhead
  · exact Or.inl rfl
  · cases rest with
    | nil => cases hhead
    | cons symbol tail =>
        cases hhead
        exact Or.inr ⟨tail, rfl⟩

theorem IsNeat.render_after_param {before rest : List Symbol} (position : Nat)
    (hneat : IsNeat (before ++ .param :: rest)) :
    render position rest = [] ∨ ∃ tail, render position rest = '/' :: tail := by
  rcases IsNeat.after_param before hneat with rfl | ⟨tail, rfl⟩
  · exact Or.inl rfl
  · exact Or.inr ⟨render position tail, rfl⟩

theorem IsNeat.plain_chars {text : List Char} (rest : List Symbol)
    (hneat : IsNeat (chars text ++ rest)) : ∀ c ∈ text, isWild c = false := fun c hc =>
  hneat.plain c (List.mem_append_left rest (List.mem_map_of_mem hc))

@[simp]
theorem render_chars (position : Nat) (text : List Char) : render position (chars text) = text := by
  simpa [render] using render_chars_append position text []

/-- Literal text has no wildcard. -/
theorem IsNeat.firstWild?_chars {text : List Char} (hneat : IsNeat (chars text)) :
    firstWild? text = none :=
  firstWild?_eq_none (IsNeat.plain_chars [] (by simpa using hneat))

/-- The first wildcard of a neat list is its first parameter. -/
theorem IsNeat.firstWild?_param (text : List Char) {rest : List Symbol} (position : Nat)
    (hneat : IsNeat (chars text ++ .param :: rest)) :
    firstWild? (render position (chars text ++ .param :: rest)) =
      some (text, ':', Path.Template.indexName position, render (position + 1) rest) := by
  have hmark : firstWild? (render position (.param :: rest)) =
      some ([], ':', Path.Template.indexName position, render (position + 1) rest) := by
    simp only [render, List.cons_append, firstWild?]
    rw [if_pos (by decide), segmentEnd_append_of_slash (slash_not_mem_indexName position)
      (hneat.render_after_param (position + 1))]
  rw [render_chars_append, firstWild?_append (hneat.plain_chars _) hmark, List.append_nil]

theorem IsNeat.firstWild?_mark {rest : List Symbol} (position : Nat)
    (hneat : IsNeat (.param :: rest)) :
    firstWild? (render position (.param :: rest)) =
      some ([], ':', Path.Template.indexName position, render (position + 1) rest) :=
  IsNeat.firstWild?_param [] position hneat

def arity (symbols : List Symbol) : Nat :=
  symbols.count .param

theorem arity_chars (text : List Char) : arity (chars text) = 0 := by
  simp [arity, chars, List.count_eq_zero]

theorem arity_param (text : List Char) (rest : List Symbol) :
    arity (chars text ++ .param :: rest) = arity rest + 1 := by
  have hchars := arity_chars text
  simp only [arity, List.count_append, List.count_cons_self] at hchars ⊢
  omega

/-- The names under which the index holds the parameters of a list. -/
def indexNames (position count : Nat) : List (List Char) :=
  (List.range' position count).map Path.Template.indexName

/-- A neat list without too many parameters has no fault, and its parameters are numbered. -/
theorem IsNeat.parameterNames_render {symbols : List Symbol} (position : Nat)
    (hneat : IsNeat symbols) (hlimit : position + arity symbols ≤ parameterLimit) :
    parameterNames (render position symbols) position =
      .ok (indexNames position (arity symbols)) := by
  induction symbols using paramInduction generalizing position with
  | chars text =>
      have hnone := hneat.firstWild?_chars
      rw [render_chars, arity_chars, parameterNames]
      split
      · rfl
      · next hsome => rw [hnone] at hsome; cases hsome
  | param text rest ih =>
      have hfirst := IsNeat.firstWild?_param text position hneat
      have htail : IsNeat rest := (IsNeat.suffix _ hneat).tail
      rw [arity_param] at hlimit
      have hrest := ih (position + 1) htail (by omega)
      rw [arity_param, parameterNames]
      split
      · next hnone => rw [hnone] at hfirst; cases hfirst
      · next mark name after hsome =>
        rw [hsome] at hfirst
        cases hfirst
        have hname : Path.Template.indexName position ≠ [] := List.cons_ne_nil _ _
        simp only [not_any_isWild_indexName, Bool.false_eq_true, if_false, if_neg hname, if_true]
        rw [if_pos (show position < parameterLimit by omega), hrest]
        rfl

/-- A neat list with too many parameters is refused for that. -/
theorem IsNeat.parameterNames_render_crowded {symbols : List Symbol} {position : Nat}
    (hneat : IsNeat symbols) (hposition : position ≤ parameterLimit)
    (hcrowded : parameterLimit < position + arity symbols) :
    parameterNames (render position symbols) position = .error .tooManyParameters := by
  induction symbols using paramInduction generalizing position with
  | chars text =>
      rw [arity_chars] at hcrowded
      omega
  | param text rest ih =>
      have hfirst := IsNeat.firstWild?_param text position hneat
      have htail : IsNeat rest := (IsNeat.suffix _ hneat).tail
      rw [arity_param] at hcrowded
      rw [parameterNames]
      split
      · next hnone => rw [hnone] at hfirst; cases hfirst
      · next mark name after hsome =>
        rw [hsome] at hfirst
        cases hfirst
        have hname : Path.Template.indexName position ≠ [] := List.cons_ne_nil _ _
        simp only [not_any_isWild_indexName, Bool.false_eq_true, if_false, if_neg hname, if_true]
        split
        · next hroom =>
          rw [ih htail hroom (by omega)]
          rfl
        · rfl

/-- What a node's text shares with the text of a list is literal text of the list. -/
theorem eq_chars_append_of_shared {label common left right : List Char} {symbols : List Symbol}
    {position : Nat} (hplain : ∀ c ∈ label, isWild c = false)
    (hshared : shared label (render position symbols) = (common, left, right)) :
    ∃ rest, symbols = chars common ++ rest ∧ right = render position rest := by
  induction label generalizing symbols common with
  | nil =>
      cases hshared
      exact ⟨symbols, rfl, rfl⟩
  | cons c label ih =>
      cases symbols with
      | nil =>
          cases hshared
          exact ⟨[], rfl, rfl⟩
      | cons symbol rest =>
          cases symbol with
          | param =>
              have hne : c ≠ ':' := by
                rintro rfl
                exact absurd (hplain ':' (.head label)) (by decide)
              simp only [render, List.cons_append, shared, if_neg hne] at hshared
              cases hshared
              exact ⟨.param :: rest, rfl, rfl⟩
          | char d =>
              by_cases heq : c = d
              · subst heq
                cases hinner : shared label (render position rest) with
                | mk inner sides =>
                    simp only [render, shared, if_true, hinner] at hshared
                    cases hshared
                    obtain ⟨tail, rfl, hright⟩ := ih (fun e he => hplain e (.tail c he)) hinner
                    exact ⟨tail, rfl, hright⟩
              · simp only [render, shared, if_neg heq] at hshared
                cases hshared
                exact ⟨.char d :: rest, rfl, rfl⟩

end Symbol

end ApiGateway.Route
