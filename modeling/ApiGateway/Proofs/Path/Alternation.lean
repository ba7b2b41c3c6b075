import ApiGateway.Proofs.Path.Filling

/-!
# The alternation of a template

Read from the left, a template is literal text and parts in braces by turns.  A part reaches from the
first opening brace to the next closing one, and from an opening brace that is never closed on all text
is literal.  Each text is spelled by exactly one such alternation, every scan from part to part visits
its parts, and the three views of a template are what comes of them: the literal pieces joined by empty
braces, the literal pieces joined by numbered names, and the inner texts.
-/

namespace ApiGateway.Path.Template

/-! ## The next part -/

/-- The next part in braces: the text in front of it, the text inside, and the text behind it. -/
def nextPart? (text : List Char) : Option (List Char × List Char × List Char) :=
  (Text.cut? '{' text).bind fun (lead, rest) =>
    (Text.cut? '}' rest).map fun (inner, after) => (lead, inner, after)

theorem nextPart?_eq_some_iff {text lead inner after : List Char} :
    nextPart? text = some (lead, inner, after) ↔
      '{' ∉ lead ∧ '}' ∉ inner ∧ text = lead ++ '{' :: inner ++ '}' :: after := by
  simp only [nextPart?, Option.bind_eq_some_iff, Option.map_eq_some_iff, Prod.exists, Prod.mk.injEq,
    Text.cut?_eq_some_iff]
  constructor
  · rintro ⟨_, _, ⟨hlead, rfl⟩, _, _, ⟨hinner, rfl⟩, rfl, rfl, rfl⟩
    exact ⟨hlead, hinner, by simp⟩
  · rintro ⟨hlead, hinner, rfl⟩
    exact ⟨lead, inner ++ '}' :: after, ⟨hlead, by simp⟩, inner, after, ⟨hinner, rfl⟩, rfl, rfl, rfl⟩

/-- Only the first opening brace decides whether a closing one stands behind an opening one. -/
theorem braces_sublist_iff {lead : List Char} (rest : List Char) (hlead : '{' ∉ lead) :
    ['{', '}'].Sublist (lead ++ '{' :: rest) ↔ '}' ∈ rest := by
  induction lead with
  | nil => rw [List.nil_append, List.cons_sublist_cons, List.singleton_sublist]
  | cons c lead ih =>
      rw [List.mem_cons, not_or] at hlead
      rw [List.cons_append, List.sublist_cons_iff, ih hlead.2]
      refine or_iff_left ?_
      rintro ⟨_, heq, -⟩
      exact hlead.1 (List.cons.inj heq).1

/-- There is a next part unless no closing brace stands behind an opening one. -/
theorem nextPart?_eq_none_iff {text : List Char} :
    nextPart? text = none ↔ ¬ ['{', '}'].Sublist text := by
  cases hcut : Text.cut? '{' text with
  | none =>
      have habsent := Text.cut?_eq_none_iff.mp hcut
      simp only [nextPart?, hcut, Option.bind_none, true_iff]
      exact fun hsub => habsent (hsub.subset (.head _))
  | some found =>
      obtain ⟨lead, rest⟩ := found
      obtain ⟨hlead, rfl⟩ := Text.cut?_eq_some_iff.mp hcut
      rw [braces_sublist_iff rest hlead, ← Text.cut?_eq_none_iff, nextPart?, hcut]
      exact Option.map_eq_none_iff

theorem nextPart?_length {text lead inner after : List Char}
    (hnext : nextPart? text = some (lead, inner, after)) : after.length < text.length := by
  obtain ⟨-, -, rfl⟩ := nextPart?_eq_some_iff.mp hnext
  simp only [List.length_append, List.length_cons]
  omega

/-! ## Scans -/

/-- One way through a text from part to part: `visit` changes the state at each part, given the text in
front of it and the text inside, and the text behind the last part is left. -/
def scan {State : Type} (visit : State → List Char → List Char → State) (state : State)
    (text : List Char) : State × List Char :=
  match _found : nextPart? text with
  | none => (state, text)
  | some (lead, inner, after) => scan visit (visit state lead inner) after
termination_by text.length
decreasing_by exact nextPart?_length _found

section

variable {State : Type} (visit : State → List Char → List Char → State) (state : State)

theorem scan_of_none {text : List Char} (hnone : nextPart? text = none) :
    scan visit state text = (state, text) := by
  rw [scan]
  split
  · rfl
  · next hsome => cases hnone.symm.trans hsome

/-- One step of a scan: the part is visited, and the scan goes on behind it. -/
theorem scan_of_some {text lead inner after : List Char}
    (hsome : nextPart? text = some (lead, inner, after)) :
    scan visit state text = scan visit (visit state lead inner) after := by
  rw [scan]
  split
  · next hnone => cases hsome.symm.trans hnone
  · next hother =>
    cases hsome.symm.trans hother
    rfl

end

/-- At a part, the text in front of it is put out, and for the part the mark of its number. -/
def replacing (mark : Nat → List Char) : List Char × Nat → List Char → List Char → List Char × Nat
  | (out, position), lead, _ => (out ++ lead ++ mark position, position + 1)

def replaced (mark : Nat → List Char) (text : List Char) : List Char :=
  (scan (replacing mark) ([], 0) text).1.1 ++ (scan (replacing mark) ([], 0) text).2

def collecting (collected : List (List Char)) (_lead inner : List Char) : List (List Char) :=
  collected ++ [inner]

def collected (text : List Char) : List (List Char) :=
  (scan collecting [] text).1

/-! ## Alternations -/

/-- Pieces joined by marks, which are numbered from the left. -/
def joinedBy (mark : Nat → List Char) (position : Nat) : List (List Char) → List Char
  | [] => []
  | [tail] => tail
  | lead :: next :: rest => lead ++ mark position ++ joinedBy mark (position + 1) (next :: rest)

theorem joinedBy_const (separator : List Char) (position : Nat) (pieces : List (List Char)) :
    joinedBy (fun _ => separator) position pieces = separator.intercalate pieces := by
  fun_induction joinedBy (fun _ => separator) position pieces with
  | case1 => rfl
  | case2 => simp
  | case3 position lead next rest ih => rw [ih, List.intercalate_cons_cons]

/-- Literal pieces and parts by turns.  A literal piece in front of a part does not open another one, an
inner text does not close its part early, and no part is left in the last literal piece. -/
inductive Alternation where
  | last (tail : List Char) (hopen : ¬ ['{', '}'].Sublist tail)
  | part (lead inner : List Char) (hlead : '{' ∉ lead) (hinner : '}' ∉ inner) (behind : Alternation)

namespace Alternation

def text : Alternation → List Char
  | last tail _ => tail
  | part lead inner _ _ behind => lead ++ '{' :: inner ++ '}' :: behind.text

/-- The literal pieces, empty ones among them. -/
def literals : Alternation → List (List Char)
  | last tail _ => [tail]
  | part lead _ _ _ behind => lead :: behind.literals

def inners : Alternation → List (List Char)
  | last _ _ => []
  | part _ inner _ _ behind => inner :: behind.inners

/-- The parts stand between the literal pieces. -/
theorem length_literals (source : Alternation) : source.literals.length = source.inners.length + 1 := by
  induction source with
  | last tail hopen => rfl
  | part lead inner hlead hinner behind ih => exact congrArg (· + 1) ih

theorem joinedBy_literals_part {lead inner : List Char} {hlead : '{' ∉ lead} {hinner : '}' ∉ inner}
    (behind : Alternation) (mark : Nat → List Char) (position : Nat) :
    joinedBy mark position (part lead inner hlead hinner behind).literals =
      lead ++ mark position ++ joinedBy mark (position + 1) behind.literals := by
  cases behind with
  | last tail hopen => rfl
  | part next name hnext hname rest => rfl

/-! ### Forgotten inner texts -/

/-- The alternation with all inner texts empty. -/
def forget : Alternation → Alternation
  | last tail hopen => last tail hopen
  | part lead _ hlead _ behind => part lead [] hlead List.not_mem_nil behind.forget

theorem literals_forget (source : Alternation) : source.forget.literals = source.literals := by
  induction source with
  | last tail hopen => rfl
  | part lead inner hlead hinner behind ih => exact congrArg (lead :: ·) ih

theorem inners_forget (source : Alternation) :
    source.forget.inners = List.replicate source.inners.length [] := by
  induction source with
  | last tail hopen => rfl
  | part lead inner hlead hinner behind ih => exact congrArg ([] :: ·) ih

/-- Without its inner texts, an alternation spells its literal pieces joined by empty braces. -/
theorem text_forget (source : Alternation) (position : Nat) :
    source.forget.text = joinedBy (fun _ => ['{', '}']) position source.literals := by
  induction source generalizing position with
  | last tail hopen => rfl
  | part lead inner hlead hinner behind ih =>
      rw [joinedBy_literals_part, ← ih, forget, text, List.append_assoc, List.append_assoc]
      rfl

/-! ### Visited parts -/

/-- What a scan makes of the parts, from the left, and the literal piece behind them. -/
def visits {State : Type} (visit : State → List Char → List Char → State) (state : State) :
    Alternation → State × List Char
  | last tail _ => (state, tail)
  | part lead inner _ _ behind => behind.visits visit (visit state lead inner)

/-- What is put out before a part stays in front of what is put out behind it. -/
theorem visits_replacing (mark : Nat → List Char) (out : List Char) (position : Nat)
    (source : Alternation) :
    (source.visits (replacing mark) (out, position)).1.1 ++
        (source.visits (replacing mark) (out, position)).2 =
      out ++ joinedBy mark position source.literals := by
  induction source generalizing out position with
  | last tail hopen => rfl
  | part lead inner hlead hinner behind ih =>
      rw [visits, replacing, ih, joinedBy_literals_part, List.append_assoc, List.append_assoc,
        List.append_assoc]

theorem visits_collecting (collected : List (List Char)) (source : Alternation) :
    (source.visits collecting collected).1 = collected ++ source.inners := by
  induction source generalizing collected with
  | last tail hopen => exact (List.append_nil collected).symm
  | part lead inner hlead hinner behind ih =>
      rw [visits, collecting, ih, inners, List.append_assoc, List.singleton_append]

/-! ### Pieces -/

def pieces : Alternation → List Piece
  | last tail _ => tail.map .literal
  | part lead inner _ _ behind => lead.map .literal ++ .named inner :: behind.pieces

theorem renderFrom_pieces (mark : Nat → List Char) (position : Nat) (source : Alternation) :
    renderFrom (fun position _ => mark position) position source.pieces =
      joinedBy mark position source.literals := by
  induction source generalizing position with
  | last tail hopen =>
      rw [pieces, ← List.append_nil (tail.map _), renderFrom_literals, renderFrom, List.append_nil]
      rfl
  | part lead inner hlead hinner behind ih =>
      rw [pieces, renderFrom_literals, renderFrom, ih, joinedBy_literals_part, List.append_assoc]

theorem filterMap_pieces (source : Alternation) : source.pieces.filterMap name? = source.inners := by
  have hliterals (text : List Char) : (text.map Piece.literal).filterMap name? = [] := by
    rw [List.filterMap_map]
    exact List.filterMap_eq_nil_iff.mpr fun _ _ => rfl
  induction source with
  | last tail hopen => exact hliterals tail
  | part lead inner hlead hinner behind ih =>
      rw [pieces, List.filterMap_append, hliterals, List.nil_append, inners, ← ih]
      rfl

end Alternation

/-! ## The alternation of a text -/

/-- The alternation of the parts that are found one after another, from the left. -/
def alternation (text : List Char) : Alternation :=
  match hnext : nextPart? text with
  | none => .last text (nextPart?_eq_none_iff.mp hnext)
  | some (lead, inner, after) =>
    have hpart := nextPart?_eq_some_iff.mp hnext
    .part lead inner hpart.1 hpart.2.1 (alternation after)
termination_by text.length
decreasing_by exact nextPart?_length hnext

theorem text_alternation (source : List Char) : (alternation source).text = source := by
  fun_induction alternation source with
  | case1 source hnone => rfl
  | case2 source lead inner after hsome hpart ih =>
      rw [Alternation.text, ih]
      exact hpart.2.2.symm

theorem alternation_text (source : Alternation) : alternation source.text = source := by
  induction source with
  | last tail hopen =>
      have hnone : nextPart? tail = none := nextPart?_eq_none_iff.mpr hopen
      rw [Alternation.text, alternation]
      split
      · rfl
      · next hsome => cases hnone.symm.trans hsome
  | part lead inner hlead hinner behind ih =>
      have hfound : nextPart? (lead ++ '{' :: inner ++ '}' :: behind.text) =
          some (lead, inner, behind.text) := nextPart?_eq_some_iff.mpr ⟨hlead, hinner, rfl⟩
      rw [Alternation.text, alternation]
      split
      · next hnone => cases hfound.symm.trans hnone
      · next hsome =>
        cases hfound.symm.trans hsome
        rw [ih]

/-- Every text is spelled by one alternation. -/
theorem text_eq_iff {source : Alternation} {text : List Char} :
    source.text = text ↔ source = alternation text := by
  constructor
  · rintro rfl
    exact (alternation_text source).symm
  · rintro rfl
    exact text_alternation text

/-- Whatever a scan does at the parts, they are those of the one alternation. -/
theorem scan_eq_visits {State : Type} (visit : State → List Char → List Char → State) (state : State)
    (text : List Char) : scan visit state text = (alternation text).visits visit state := by
  fun_induction alternation text generalizing state with
  | case1 text hnone => exact scan_of_none visit state hnone
  | case2 text lead inner after hsome hpart ih =>
      rw [scan_of_some visit state hsome]
      exact ih (visit state lead inner)

theorem replaced_eq_joinedBy (mark : Nat → List Char) (text : List Char) :
    replaced mark text = joinedBy mark 0 (alternation text).literals := by
  rw [replaced, scan_eq_visits, Alternation.visits_replacing, List.nil_append]

theorem collected_eq_inners (text : List Char) : collected text = (alternation text).inners := by
  rw [collected, scan_eq_visits, Alternation.visits_collecting, List.nil_append]

/-- Text in which no part is closed has literal pieces only. -/
theorem pieces_of_not_sublist {text : List Char} (hopen : ¬ ['{', '}'].Sublist text) :
    pieces text = text.map Piece.literal := by
  induction text with
  | nil => simp [pieces]
  | cons c text ih =>
      have hliteral : pieces (c :: text) = .literal c :: pieces text := by
        rw [pieces]
        split
        · next hbrace =>
          rw [hbrace, List.cons_sublist_cons, List.singleton_sublist] at hopen
          split
          · next hcut => cases (Text.cut?_eq_none_iff.mpr hopen).symm.trans hcut
          · rfl
        · rfl
      rw [hliteral, ih fun hsub => hopen (hsub.cons c), List.map_cons]

theorem pieces_text (source : Alternation) : pieces source.text = source.pieces := by
  induction source with
  | last tail hopen => exact pieces_of_not_sublist hopen
  | part lead inner hlead hinner behind ih =>
      rw [Alternation.text, List.append_assoc, pieces_append _ hlead, pieces_variable _ hinner, ih]
      rfl

/-- Character by character, the same parts are found as from part to part. -/
theorem pieces_eq_alternation (text : List Char) : pieces text = (alternation text).pieces := by
  rw [← pieces_text, text_alternation]

/-! ## The views -/

theorem key_eq_joinedBy (text : List Char) :
    key text = joinedBy (fun _ => ['{', '}']) 0 (alternation text).literals := by
  rw [key, pieces_eq_alternation, Alternation.renderFrom_pieces]

def indexMark (position : Nat) : List Char :=
  (":p" ++ toString position).toList

theorem indexText_eq_joinedBy (text : List Char) :
    indexText text = joinedBy indexMark 0 (alternation text).literals := by
  have hmark : indexMark = fun position => ':' :: indexName position := by
    funext position
    simp [indexMark, indexName]
  rw [indexText, pieces_eq_alternation, Alternation.renderFrom_pieces, hmark]

theorem names_eq_inners (text : List Char) : names text = (alternation text).inners := by
  rw [names, pieces_eq_alternation, Alternation.filterMap_pieces]

/-- The alternation of the key is that of the template without its inner texts. -/
theorem alternation_key (text : List Char) : alternation (key text) = (alternation text).forget := by
  rw [key_eq_joinedBy, ← Alternation.text_forget, alternation_text]

theorem literals_key (text : List Char) :
    (alternation (key text)).literals = (alternation text).literals := by
  rw [alternation_key, Alternation.literals_forget]

/-- The index reads the key of a template as it reads the template. -/
theorem indexText_key (text : List Char) : indexText (key text) = indexText text := by
  rw [indexText_eq_joinedBy, indexText_eq_joinedBy, literals_key]

theorem key_eq_key_iff {left right : List Char} :
    key left = key right ↔ (alternation left).literals = (alternation right).literals := by
  constructor
  · intro heq
    rw [← literals_key left, heq, literals_key]
  · intro heq
    rw [key_eq_joinedBy, key_eq_joinedBy, heq]

/-- Every text is spelled by exactly one alternation.  Its key and its text for the route index are what
a scan puts out when it replaces the parts, which is the literal pieces joined by empty braces and by
numbered names, and its variable names are what a scan collects, which is the inner texts.  The key has
itself for a key, the same text for the route index, and as many names, all empty.  Texts have one key,
and then one text for the route index, if and only if they have the same literal pieces and as many
parts. -/
theorem views_of_alternation (text : List Char) :
    (∀ source : Alternation, source.text = text ↔ source = alternation text) ∧
    (key text = replaced (fun _ => ['{', '}']) text ∧
      key text = ['{', '}'].intercalate (alternation text).literals) ∧
    (indexText text = replaced indexMark text ∧
      indexText text = joinedBy indexMark 0 (alternation text).literals) ∧
    (names text = collected text ∧ names text = (alternation text).inners ∧
      (names text).length + 1 = (alternation text).literals.length) ∧
    (key (key text) = key text ∧ indexText (key text) = indexText text ∧
      names (key text) = List.replicate (names text).length []) ∧
    ∀ other,
      (key text = key other ↔
        (alternation text).literals = (alternation other).literals ∧
          (alternation text).inners.length = (alternation other).inners.length) ∧
      (key text = key other → indexText text = indexText other) := by
  refine ⟨fun source => text_eq_iff, ⟨?_, ?_⟩, ⟨?_, indexText_eq_joinedBy text⟩,
    ⟨?_, names_eq_inners text, ?_⟩, ⟨?_, indexText_key text, ?_⟩, fun other => ⟨?_, ?_⟩⟩
  · rw [key_eq_joinedBy, replaced_eq_joinedBy]
  · rw [key_eq_joinedBy, joinedBy_const]
  · rw [indexText_eq_joinedBy, replaced_eq_joinedBy]
  · rw [names_eq_inners, collected_eq_inners]
  · rw [names_eq_inners, Alternation.length_literals]
  · rw [key_eq_key_iff, literals_key]
  · rw [names_eq_inners, names_eq_inners, alternation_key, Alternation.inners_forget]
  · rw [key_eq_key_iff, iff_self_and]
    intro hliterals
    have hlength := congrArg List.length hliterals
    rwa [Alternation.length_literals, Alternation.length_literals, Nat.add_right_cancel_iff] at hlength
  · intro hkey
    rw [indexText_eq_joinedBy, indexText_eq_joinedBy, key_eq_key_iff.mp hkey]

/-- An inner text may hold an opening brace, and one that is never closed is literal. -/
example :
    key ['é', '{', 'a', '{', 'b', '}', '{', '}', 'é', '{', 'c'] =
        ['é', '{', '}', '{', '}', 'é', '{', 'c'] ∧
      names ['é', '{', 'a', '{', 'b', '}', '{', '}', 'é', '{', 'c'] = [['a', '{', 'b'], []] := by
  decide +kernel

end ApiGateway.Path.Template
