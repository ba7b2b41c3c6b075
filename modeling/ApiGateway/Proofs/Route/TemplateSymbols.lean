import ApiGateway.Proofs.Route.Symbol

/-!
# Symbols of well-formed templates

The pieces of a well-formed template are those of its segments, one behind the other.  So its symbols
are a list that the index can hold, they fit a path exactly when the template does, and they lead
others exactly when its segments do.
-/

namespace ApiGateway

open Route (Symbol)

namespace Path

def Piece.symbol : Piece → Symbol
  | .literal c => .char c
  | .named _ => .param

namespace Template

def symbols (template : List Char) : List Symbol :=
  (pieces template).map Piece.symbol

theorem renderFrom_indexName (position : Nat) (source : List Piece) :
    renderFrom (fun position _ => ':' :: indexName position) position source =
      Symbol.render position (source.map Piece.symbol) := by
  induction source generalizing position with
  | nil => rfl
  | cons piece rest ih =>
      cases piece with
      | literal c => simp [renderFrom, Piece.symbol, Symbol.render, ih]
      | named name => simp [renderFrom, Piece.symbol, Symbol.render, ih]

theorem indexText_eq_render (template : List Char) :
    indexText template = Symbol.render 0 (symbols template) :=
  renderFrom_indexName 0 (pieces template)

theorem renderFrom_braces_eq {left right : List Piece} (i j : Nat)
    (heq : left.map Piece.symbol = right.map Piece.symbol) :
    renderFrom (fun _ _ => ['{', '}']) i left = renderFrom (fun _ _ => ['{', '}']) j right := by
  induction left generalizing right i j with
  | nil =>
      have hnil : right = [] := List.map_eq_nil_iff.mp heq.symm
      rw [hnil]
      rfl
  | cons piece left ih =>
      cases right with
      | nil => cases heq
      | cons other right =>
          rw [List.map_cons, List.map_cons, List.cons.injEq] at heq
          obtain ⟨hhead, htail⟩ := heq
          cases piece with
          | literal c =>
              cases other with
              | literal d =>
                  cases hhead
                  exact congrArg (c :: ·) (ih i j htail)
              | named name => cases hhead
          | named name =>
              cases other with
              | literal d => cases hhead
              | named other => exact congrArg ('{' :: '}' :: ·) (ih (i + 1) (j + 1) htail)

/-- Templates with the same symbols have the same key. -/
theorem key_eq_of_symbols_eq {left right : List Char} (heq : symbols left = symbols right) :
    key left = key right :=
  renderFrom_braces_eq 0 0 heq

/-! ## Pieces of segments -/

theorem pieces_append {text : List Char} (rest : List Char) (hplain : '{' ∉ text) :
    pieces (text ++ rest) = text.map Piece.literal ++ pieces rest := by
  induction text with
  | nil => rfl
  | cons c text ih =>
      rw [List.mem_cons, not_or] at hplain
      rw [List.cons_append, pieces, if_neg (Ne.symm hplain.1), ih hplain.2]
      rfl

theorem pieces_variable {name : List Char} (rest : List Char) (hname : '}' ∉ name) :
    pieces ('{' :: name ++ '}' :: rest) = .named name :: pieces rest := by
  have hcut : Text.cut? '}' (name ++ '}' :: rest) = some (name, rest) :=
    Text.cut?_eq_some_iff.mpr ⟨hname, rfl⟩
  rw [List.cons_append, pieces, if_pos rfl]
  split
  · next hsome =>
    rw [hcut] at hsome
    cases hsome
    rfl
  · next hnone =>
    rw [hcut] at hnone
    cases hnone

namespace Segment

def pieces : Segment → List Piece
  | .literal text => text.map .literal
  | .named name => [.named name]

def symbols : Segment → List Symbol
  | .literal text => Symbol.chars text
  | .named _ => [.param]

/-- A well-formed segment that is in one piece between two slashes. -/
def IsSound (segment : Segment) : Prop :=
  segment.IsWellFormed ∧ '/' ∉ segment.text

theorem IsWellFormed.brace_not_mem {text : List Char} (hwell : (literal text).IsWellFormed) :
    '{' ∉ text := fun hmem => hwell.2 '{' hmem (by decide)

end Segment

def segmentSymbols (source : List Segment) : List Symbol :=
  source.flatMap fun segment => .char '/' :: segment.symbols

@[simp]
theorem segmentSymbols_cons (segment : Segment) (rest : List Segment) :
    segmentSymbols (segment :: rest) = .char '/' :: (segment.symbols ++ segmentSymbols rest) := rfl

/-- The pieces of a template are those of its segments. -/
theorem pieces_joined {source : List Segment} (hwell : ∀ segment ∈ source, segment.IsWellFormed) :
    pieces (joined (source.map Segment.text)) =
      source.flatMap fun segment => .literal '/' :: segment.pieces := by
  induction source with
  | nil => simp [pieces]
  | cons segment rest ih =>
      have htail := ih fun other hother => hwell other (.tail segment hother)
      have hslash : ∀ text, pieces ('/' :: text) = .literal '/' :: pieces text := fun text =>
        @pieces_append ['/'] text (by decide)
      rw [List.map_cons, joined_cons, List.cons_append, hslash, List.flatMap_cons]
      cases segment with
      | literal text =>
          have hbrace := Segment.IsWellFormed.brace_not_mem (hwell _ (.head rest))
          rw [Segment.text, pieces_append _ hbrace, htail]
          rfl
      | named name =>
          have hname := (hwell _ (.head rest)).2
          have hshape : (Segment.named name).text ++ joined (rest.map Segment.text) =
              '{' :: name ++ '}' :: joined (rest.map Segment.text) := by simp [Segment.text]
          rw [hshape, pieces_variable _ hname, htail]
          rfl

theorem map_symbol_segments (source : List Segment) :
    (source.flatMap fun segment => .literal '/' :: segment.pieces).map Piece.symbol =
      segmentSymbols source := by
  induction source with
  | nil => rfl
  | cons segment rest ih =>
      rw [List.flatMap_cons, List.map_append, ih]
      cases segment with
      | literal text => simp [Segment.pieces, Segment.symbols, Piece.symbol, Symbol.chars]
      | named name => rfl

theorem filterMap_name?_segments (source : List Segment) :
    (source.flatMap fun segment => .literal '/' :: segment.pieces).filterMap name? =
      source.filterMap Segment.name? := by
  induction source with
  | nil => rfl
  | cons segment rest ih =>
      rw [List.flatMap_cons, List.filterMap_append, ih]
      cases segment with
      | literal text =>
          have hnone : text.filterMap (name? ∘ Piece.literal) = [] :=
            List.filterMap_eq_nil_iff.mpr fun c _ => rfl
          simp [Segment.pieces, Segment.name?, name?, List.filterMap_cons, List.filterMap_map, hnone]
      | named name => rfl

namespace IsSegmented

variable {template : List Char}

theorem isSound (hsegmented : IsSegmented template) :
    ∀ segment ∈ segments template, segment.IsSound := by
  intro segment hsegment
  refine ⟨hsegmented.2 segment hsegment, ?_⟩
  obtain ⟨text, htext, rfl⟩ := List.mem_map.mp hsegment
  rw [Segment.text_ofText]
  exact slash_not_mem_of_mem_segments htext

theorem pieces_eq (hsegmented : IsSegmented template) :
    pieces template = (segments template).flatMap fun segment => .literal '/' :: segment.pieces := by
  rw [← pieces_joined hsegmented.2, joined_text_segments hsegmented.1.1]

theorem symbols_eq (hsegmented : IsSegmented template) :
    symbols template = segmentSymbols (segments template) := by
  rw [symbols, hsegmented.pieces_eq, map_symbol_segments]

theorem names_eq (hsegmented : IsSegmented template) :
    names template = (segments template).filterMap Segment.name? := by
  rw [names, hsegmented.pieces_eq, filterMap_name?_segments]

end IsSegmented

/-! ## Neat lists of symbols -/

theorem segmentSymbols_eq_nil_or_cons (source : List Segment) :
    segmentSymbols source = [] ∨ (segmentSymbols source).head? = some (.char '/') := by
  cases source with
  | nil => exact Or.inl rfl
  | cons segment rest => exact Or.inr rfl

theorem arity_segmentSymbols (source : List Segment) :
    Symbol.arity (segmentSymbols source) = (source.filterMap Segment.name?).length := by
  induction source with
  | nil => rfl
  | cons segment rest ih =>
      cases segment with
      | literal text =>
          have hchars := Symbol.arity_chars text
          simp only [Symbol.arity] at ih hchars ⊢
          simp [Segment.symbols, Segment.name?, hchars, ih, List.filterMap_cons]
      | named name =>
          simp only [Symbol.arity] at ih ⊢
          simp [Segment.symbols, Segment.name?, ih]

theorem isWild_eq_false_of_mem_segmentSymbols {source : List Segment}
    (hsound : ∀ segment ∈ source, segment.IsSound) {c : Char}
    (hmem : .char c ∈ segmentSymbols source) : Route.isWild c = false := by
  rw [segmentSymbols, List.mem_flatMap] at hmem
  obtain ⟨segment, hsegment, hc⟩ := hmem
  rcases List.mem_cons.mp hc with heq | hinside
  · cases heq
    rfl
  · cases segment with
    | named name => simp [Segment.symbols] at hinside
    | literal text =>
        simp only [Segment.symbols, Symbol.chars, List.mem_map, Symbol.char.injEq, exists_eq_right]
          at hinside
        have hmarks := (hsound _ hsegment).1.2 c hinside
        simp only [Segment.marks, List.mem_cons, List.not_mem_nil, or_false, not_or] at hmarks
        simp [Route.isWild, hmarks]

/-- A parameter of a template ends its segment. -/
theorem segmentEnds_segmentSymbols {source : List Segment} {before rest : List Symbol}
    (heq : segmentSymbols source = before ++ .param :: rest) :
    rest = [] ∨ rest.head? = some (.char '/') := by
  induction source generalizing before with
  | nil => simp [segmentSymbols] at heq
  | cons segment source ih =>
      rw [segmentSymbols_cons] at heq
      cases before with
      | nil => cases heq
      | cons symbol before =>
          rw [List.cons_append, List.cons.injEq] at heq
          have htail := heq.2
          cases segment with
          | literal text =>
              rcases List.append_eq_append_iff.mp htail with ⟨middle, rfl, hrest⟩ | ⟨middle, hchars, hrest⟩
              · exact ih hrest
              · cases middle with
                | nil => exact @ih [] hrest.symm
                | cons first middle =>
                    rw [List.cons_append, List.cons.injEq] at hrest
                    have hmem : Symbol.param ∈ Symbol.chars text := by
                      rw [show Symbol.chars text = _ from hchars, hrest.1]
                      simp
                    simp [Symbol.chars] at hmem
          | named name =>
              cases before with
              | nil =>
                  simp only [Segment.symbols, List.cons_append, List.nil_append,
                    List.cons.injEq, true_and] at htail
                  rw [← htail]
                  exact segmentSymbols_eq_nil_or_cons source
              | cons symbol before =>
                  simp only [Segment.symbols, List.cons_append, List.nil_append,
                    List.cons.injEq] at htail
                  exact ih htail.2

theorem Segment.symbols_getLast? {segment : Segment} (hsound : segment.IsSound) :
    ∃ last, segment.symbols.getLast? = some last ∧ last ≠ .char '/' := by
  cases segment with
  | named name => exact ⟨.param, rfl, by simp⟩
  | literal text =>
      obtain ⟨⟨hne, -⟩, hslash⟩ := hsound
      refine ⟨.char (text.getLast hne), ?_, ?_⟩
      · rw [Segment.symbols, Symbol.chars, List.getLast?_map, List.getLast?_eq_some_getLast hne]
        rfl
      · intro heq
        have hlast : text.getLast hne = '/' := Symbol.char.inj heq
        exact hslash (hlast ▸ List.getLast_mem hne)

theorem segmentSymbols_getLast?_ne {source : List Segment}
    (hsound : ∀ segment ∈ source, segment.IsSound) :
    (segmentSymbols source).getLast? ≠ some (.char '/') := by
  induction source with
  | nil => simp [segmentSymbols]
  | cons segment rest ih =>
      have htail := ih fun other hother => hsound other (.tail segment hother)
      obtain ⟨last, hlast, hne⟩ := Segment.symbols_getLast? (hsound segment (.head rest))
      have hcons : segmentSymbols (segment :: rest) =
          [.char '/'] ++ segment.symbols ++ segmentSymbols rest := rfl
      rw [hcons, List.getLast?_append, List.getLast?_append, hlast]
      cases hrest : (segmentSymbols rest).getLast? with
      | none => simpa using hne
      | some other => simpa [hrest] using htail

theorem IsSegmented.isNeat {template : List Char} (hsegmented : IsSegmented template) :
    Symbol.IsNeat (symbols template) := by
  rw [hsegmented.symbols_eq]
  exact {
    plain := fun c hmem => isWild_eq_false_of_mem_segmentSymbols hsegmented.isSound hmem
    segmentEnds := fun before rest heq => segmentEnds_segmentSymbols heq
    ends := segmentSymbols_getLast?_ne hsegmented.isSound }

theorem IsSegmented.arity_eq {template : List Char} (hsegmented : IsSegmented template) :
    Symbol.arity (symbols template) = ((segments template).filterMap Segment.name?).length := by
  rw [hsegmented.symbols_eq, arity_segmentSymbols]

/-- What a well-formed template has beside its segments is few enough variables. -/
theorem isWellFormed_iff {template : List Char} : IsWellFormed template ↔
    IsSegmented template ∧ Symbol.arity (symbols template) ≤ Route.parameterLimit := by
  constructor
  · intro hwell
    exact ⟨hwell.isSegmented, hwell.isSegmented.arity_eq ▸ hwell.2.2⟩
  · rintro ⟨hsegmented, harity⟩
    exact ⟨hsegmented.1, hsegmented.2, hsegmented.arity_eq ▸ harity⟩

/-! ## Fitting paths -/

/-- The path segments that stand in the places of variables. -/
def passed (source : List Segment) (path : List (List Char)) : List (List Char) :=
  (source.zip path).filterMap fun pair => pair.1.name?.map fun _ => pair.2

/-- Literal text between slashes fits exactly itself. -/
theorem match?_chars_segment {text segment : List Char} {rest : List Symbol} {path : List Char}
    (hrest : rest = [] ∨ rest.head? = some (.char '/'))
    (hpath : path = [] ∨ ∃ tail, path = '/' :: tail)
    (htext : '/' ∉ text) (hsegment : '/' ∉ segment) :
    Symbol.match? (Symbol.chars text ++ rest) (segment ++ path) =
      if segment = text then Symbol.match? rest path else none := by
  induction text generalizing segment with
  | nil =>
      cases segment with
      | nil => rfl
      | cons c segment =>
          have hc : '/' ≠ c := fun heq => hsegment (heq ▸ .head segment)
          rcases hrest with rfl | hhead
          · rfl
          · cases rest with
            | nil => cases hhead
            | cons symbol rest =>
                simp only [List.head?_cons, Option.some.injEq] at hhead
                subst hhead
                simp [Symbol.match?, hc]
  | cons d text ih =>
      rw [List.mem_cons, not_or] at htext
      cases segment with
      | nil =>
          rcases hpath with rfl | ⟨tail, rfl⟩
          · rfl
          · simp [Symbol.match?, Ne.symm htext.1]
      | cons c segment =>
          rw [List.mem_cons, not_or] at hsegment
          by_cases heq : d = c
          · subst heq
            simpa [Symbol.match?] using ih htext.2 hsegment.2
          · simp [Symbol.match?, heq, Ne.symm heq]

/-- The symbols of segments fit a path exactly if the segments accept its segments in turn. -/
theorem match?_segmentSymbols {source : List Segment} {path : List (List Char)}
    (hsound : ∀ segment ∈ source, segment.IsSound) (hpath : ∀ text ∈ path, text ≠ [] ∧ '/' ∉ text)
    (texts : List (List Char)) :
    Symbol.match? (segmentSymbols source) (joined path) = some texts ↔
      List.Forall₂ Segment.Accepts source path ∧ texts = passed source path := by
  induction source generalizing path texts with
  | nil =>
      cases path with
      | nil => simp [segmentSymbols, Symbol.match?, passed, eq_comm]
      | cons text path => simp [segmentSymbols, Symbol.match?]
  | cons segment source ih =>
      cases path with
      | nil => simp [Symbol.match?]
      | cons text path =>
          obtain ⟨hne, hslash⟩ := hpath text (.head path)
          have htail := @ih path (fun other hother => hsound other (.tail segment hother))
            (fun other hother => hpath other (.tail text hother))
          have hstep : Symbol.match? (segmentSymbols (segment :: source)) (joined (text :: path)) =
              Symbol.match? (segment.symbols ++ segmentSymbols source) (text ++ joined path) := by
            simp [Symbol.match?]
          rw [hstep, List.forall₂_cons]
          cases segment with
          | literal literal =>
              have hliteral : '/' ∉ literal := (hsound _ (.head source)).2
              rw [Segment.symbols, match?_chars_segment (segmentSymbols_eq_nil_or_cons source)
                (joined_eq_nil_or_cons path) hliteral hslash]
              by_cases heq : text = literal
              · simp [heq, Segment.Accepts, htail, passed, Segment.name?]
              · simp [heq, Segment.Accepts]
          | named name =>
              have hend := Route.segmentEnd_append_of_slash hslash (joined_eq_nil_or_cons path)
              have hpassed : passed (.named name :: source) (text :: path) =
                  text :: passed source path := rfl
              obtain ⟨c, text, rfl⟩ := List.exists_cons_of_ne_nil hne
              rw [List.cons_append] at hend ⊢
              simp only [Segment.symbols, List.singleton_append, Symbol.match?, hend,
                Option.map_eq_some_iff, htail, Segment.Accepts, true_and, hpassed]
              constructor
              · rintro ⟨inner, ⟨hfits, rfl⟩, rfl⟩
                exact ⟨hfits, rfl⟩
              · rintro ⟨hfits, rfl⟩
                exact ⟨_, ⟨hfits, rfl⟩, rfl⟩

/-- Of two lists of segments that accept one path, the left leads if its symbols do. -/
theorem leads_of_leads_segmentSymbols {left right : List Segment} {path : List (List Char)}
    (hright : ∀ segment ∈ right, segment.IsSound)
    (hfitsLeft : List.Forall₂ Segment.Accepts left path)
    (hfitsRight : List.Forall₂ Segment.Accepts right path)
    (hleads : Symbol.Leads (segmentSymbols left) (segmentSymbols right)) : Leads left right := by
  induction hfitsLeft generalizing right with
  | nil =>
      cases hfitsRight
      exact hleads
  | @cons segment text left path haccepts _ ih =>
      cases hfitsRight with
      | @cons other _ right _ hother hrest =>
          rw [segmentSymbols_cons, segmentSymbols_cons] at hleads
          have hbehind := hleads.2
          have htail : Symbol.Leads (segmentSymbols left) (segmentSymbols right) → Leads left right :=
            ih (fun segment hsegment => hright segment (.tail other hsegment)) hrest
          cases segment with
          | literal literal =>
              cases other with
              | named name => trivial
              | literal otherText =>
                  have heq : literal = otherText := haccepts.symm.trans hother
                  subst heq
                  exact ⟨rfl, htail ((Symbol.leads_chars_append literal _ _).mp hbehind)⟩
          | named name =>
              cases other with
              | named otherName => exact htail hbehind
              | literal otherText =>
                  have hne := (hright _ (.head right)).1.1
                  cases otherText with
                  | nil => exact absurd rfl hne
                  | cons c otherText => exact hbehind.elim

end Template

end Path

end ApiGateway
