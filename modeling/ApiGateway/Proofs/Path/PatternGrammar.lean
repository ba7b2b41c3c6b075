import ApiGateway.Proofs.Path.Patterns
import Mathlib.Data.List.Forall2

/-!
# The grammar of patterns

A pattern spells a row of tokens, each of which takes as many characters as it can, and it spells one if
and only if its braces are closed.  The patterns of a list accept a path without line feeds if and only
if the path is put together of texts that the tokens of one of them stand for.
-/

namespace ApiGateway.Path

namespace Pattern

/-! ## Closed braces -/

/-- Read from the left past whole parts in braces, each opening brace has a closing one. -/
inductive IsClosed : List Char → Prop where
  | nil : IsClosed []
  | plain {c : Char} {rest : List Char} (hplain : c ≠ '{') (hrest : IsClosed rest) : IsClosed (c :: rest)
  | part {name rest : List Char} (hname : '}' ∉ name) (hrest : IsClosed rest) :
      IsClosed ('{' :: name ++ '}' :: rest)

theorem isClosed_cons_iff {c : Char} {rest : List Char} (hplain : c ≠ '{') :
    IsClosed (c :: rest) ↔ IsClosed rest := by
  constructor
  · intro hclosed
    cases hclosed with
    | plain _ hrest => exact hrest
    | part _ _ => exact absurd rfl hplain
  · exact IsClosed.plain hplain

/-- Behind an opening brace, the closed text goes on after the first closing one. -/
theorem isClosed_brace_iff {rest : List Char} :
    IsClosed ('{' :: rest) ↔ ∃ name after, Text.cut? '}' rest = some (name, after) ∧ IsClosed after := by
  constructor
  · intro hclosed
    cases hclosed with
    | plain hplain _ => exact absurd rfl hplain
    | part hname hrest => exact ⟨_, _, Text.cut?_eq_some_iff.mpr ⟨hname, rfl⟩, hrest⟩
  · rintro ⟨name, after, hcut, hafter⟩
    obtain ⟨hname, rfl⟩ := Text.cut?_eq_some_iff.mp hcut
    exact .part hname hafter

/-- A pattern has tokens if and only if its braces are closed. -/
theorem isSome_tokens?_iff {pattern : List Char} : (tokens? pattern).isSome = true ↔ IsClosed pattern := by
  fun_induction tokens? pattern with
  | case1 => exact ⟨fun _ => .nil, fun _ => rfl⟩
  | case2 rest ih =>
      rw [Option.isSome_map, ih, isClosed_cons_iff (by decide), isClosed_cons_iff (by decide),
        isClosed_cons_iff (by decide)]
  | case3 rest ih =>
      rw [Option.isSome_map, ih, isClosed_cons_iff (by decide), isClosed_cons_iff (by decide)]
  | case4 rest _ ih => rw [Option.isSome_map, ih, isClosed_cons_iff (by decide)]
  | case5 rest ih => rw [Option.isSome_map, ih, isClosed_cons_iff (by decide)]
  | case6 rest name after hcut _ _ _ _ ih =>
      rw [Option.isSome_map, ih, isClosed_brace_iff]
      constructor
      · exact fun hafter => ⟨name, after, hcut, hafter⟩
      · rintro ⟨_, _, hother, hclosed⟩
        cases hcut.symm.trans hother
        exact hclosed
  | case7 rest hcut =>
      rw [isClosed_brace_iff]
      constructor
      · intro hsome
        cases hsome
      · rintro ⟨_, _, hother, -⟩
        cases hcut.symm.trans hother
  | case8 c rest _ _ _ _ hbrace ih => rw [Option.isSome_map, ih, isClosed_cons_iff hbrace]

instance (pattern : List Char) : Decidable (IsClosed pattern) :=
  decidable_of_iff _ isSome_tokens?_iff

/-! ## Spelling -/

/-- The tokens that a pattern spells.  Two stars are one token, also with a slash in front of them, and a
character that means nothing else stands for itself. -/
inductive Spells : List Char → List Token → Prop where
  | nil : Spells [] []
  | slashStars {rest : List Char} {tokens : List Token} (hrest : Spells rest tokens) :
      Spells ('/' :: '*' :: '*' :: rest) (.below :: tokens)
  | stars {rest : List Char} {tokens : List Token} (hrest : Spells rest tokens) :
      Spells ('*' :: '*' :: rest) (.anything :: tokens)
  | star {rest : List Char} {tokens : List Token} (hsingle : rest.head? ≠ some '*')
      (hrest : Spells rest tokens) : Spells ('*' :: rest) (.within :: tokens)
  | question {rest : List Char} {tokens : List Token} (hrest : Spells rest tokens) :
      Spells ('?' :: rest) (.one :: tokens)
  | braces {name rest : List Char} {tokens : List Token} (hname : '}' ∉ name)
      (hrest : Spells rest tokens) : Spells ('{' :: name ++ '}' :: rest) (.segment :: tokens)
  | plain {c : Char} {rest : List Char} {tokens : List Token} (hplain : c ∉ ['*', '?', '{'])
      (hslash : c = '/' → ¬ ['*', '*'] <+: rest) (hrest : Spells rest tokens) :
      Spells (c :: rest) (.literal c :: tokens)

theorem tokens?_braces {name : List Char} (rest : List Char) (hname : '}' ∉ name) :
    tokens? ('{' :: name ++ '}' :: rest) = (tokens? rest).map (.segment :: ·) := by
  have hcut : Text.cut? '}' (name ++ '}' :: rest) = some (name, rest) :=
    Text.cut?_eq_some_iff.mpr ⟨hname, rfl⟩
  rw [List.cons_append, tokens?, if_pos rfl]
  · split
    · next before after hfound =>
      cases hcut.symm.trans hfound
      rfl
    · next hnone => cases hcut.symm.trans hnone
  all_goals simp

theorem tokens?_of_spells {pattern : List Char} {tokens : List Token} (hspells : Spells pattern tokens) :
    tokens? pattern = some tokens := by
  induction hspells with
  | nil => rw [tokens?]
  | slashStars _ ih => rw [tokens?, ih, Option.map_some]
  | stars _ ih => rw [tokens?, ih, Option.map_some]
  | star hsingle _ ih =>
      rw [tokens?, ih, Option.map_some]
      rintro rest rfl
      exact hsingle rfl
  | question _ ih => rw [tokens?, ih, Option.map_some]
  | braces hname _ ih => rw [tokens?_braces _ hname, ih, Option.map_some]
  | plain hplain hslash _ ih => rw [tokens?_cons_literal hplain hslash, ih, Option.map_some]

theorem spells_of_tokens? {pattern : List Char} {tokens : List Token}
    (htokens : tokens? pattern = some tokens) : Spells pattern tokens := by
  fun_induction Pattern.tokens? pattern generalizing tokens with
  | case1 =>
      cases htokens
      exact .nil
  | case2 rest ih =>
      obtain ⟨behind, hbehind, rfl⟩ := Option.map_eq_some_iff.mp htokens
      exact .slashStars (ih hbehind)
  | case3 rest ih =>
      obtain ⟨behind, hbehind, rfl⟩ := Option.map_eq_some_iff.mp htokens
      exact .stars (ih hbehind)
  | case4 rest hstar ih =>
      obtain ⟨behind, hbehind, rfl⟩ := Option.map_eq_some_iff.mp htokens
      refine .star (fun hhead => ?_) (ih hbehind)
      obtain ⟨after, rfl⟩ := List.head?_eq_some_iff.mp hhead
      exact hstar after rfl
  | case5 rest ih =>
      obtain ⟨behind, hbehind, rfl⟩ := Option.map_eq_some_iff.mp htokens
      exact .question (ih hbehind)
  | case6 rest name after hcut _ _ _ _ ih =>
      obtain ⟨behind, hbehind, rfl⟩ := Option.map_eq_some_iff.mp htokens
      obtain ⟨hname, rfl⟩ := Text.cut?_eq_some_iff.mp hcut
      exact .braces hname (ih hbehind)
  | case7 rest hcut => cases htokens
  | case8 c rest hslash _ hstar hquestion hbrace ih =>
      obtain ⟨behind, hbehind, rfl⟩ := Option.map_eq_some_iff.mp htokens
      refine .plain ?_ ?_ (ih hbehind)
      · simp only [List.mem_cons, List.not_mem_nil, or_false, not_or]
        exact ⟨hstar, hquestion, hbrace⟩
      · rintro hc ⟨after, rfl⟩
        exact hslash after hc rfl

/-- Reading a pattern finds the tokens that it spells. -/
theorem tokens?_eq_some_iff {pattern : List Char} {tokens : List Token} :
    tokens? pattern = some tokens ↔ Spells pattern tokens :=
  ⟨spells_of_tokens?, tokens?_of_spells⟩

/-- A pattern spells one row of tokens at most. -/
theorem Spells.unique {pattern : List Char} {left right : List Token} (hleft : Spells pattern left)
    (hright : Spells pattern right) : left = right :=
  Option.some.inj ((tokens?_of_spells hleft).symm.trans (tokens?_of_spells hright))

/-- A pattern can be read if and only if it starts with a slash and spells tokens. -/
theorem parse_eq_ok_iff {source : String} {tokens : List Token} :
    parse source = .ok tokens ↔ source.toList.head? = some '/' ∧ Spells source.toList tokens := by
  rw [← tokens?_eq_some_iff, parse]
  split
  · next hhead =>
    split
    · next found hfound => simp [hhead, hfound]
    · next hnone => simp [hnone]
  · next hhead => simp [hhead]

/-- A rooted pattern spells tokens if and only if its braces are closed. -/
theorem exists_parse_iff {source : String} :
    (∃ tokens, parse source = .ok tokens) ↔
      source.toList.head? = some '/' ∧ IsClosed source.toList := by
  simp only [parse_eq_ok_iff, exists_and_left, ← tokens?_eq_some_iff, ← Option.isSome_iff_exists,
    isSome_tokens?_iff]

/-! ## Texts of tokens -/

/-- The texts that a token stands for in a path without line feeds. -/
def Token.Means : Token → List Char → Prop
  | below, text => text = [] ∨ text.head? = some '/'
  | anything, _ => True
  | within, text => '/' ∉ text
  | one, text => text.length = 1 ∧ '/' ∉ text
  | segment, text => text ≠ [] ∧ '/' ∉ text
  | literal c, text => text = [c]

instance : (token : Token) → (text : List Char) → Decidable (token.Means text)
  | .below, _ => inferInstanceAs (Decidable (_ ∨ _))
  | .anything, _ => inferInstanceAs (Decidable True)
  | .within, _ => inferInstanceAs (Decidable (¬ _))
  | .one, _ => inferInstanceAs (Decidable (_ ∧ _))
  | .segment, _ => inferInstanceAs (Decidable (_ ∧ _))
  | .literal c, text => inferInstanceAs (Decidable (text = [c]))

/-- The path is put together of texts of the tokens, in their order. -/
def Splits (tokens : List Token) (path : List Char) : Prop :=
  ∃ parts, List.Forall₂ Token.Means tokens parts ∧ parts.flatten = path

/-- Without line feeds, a token accepts the texts that it stands for. -/
theorem Token.accepts_iff_means {token : Token} {text : List Char} (hline : '\n' ∉ text) :
    token.Accepts text ↔ token.Means text := by
  cases token with
  | below =>
      constructor
      · rintro (rfl | ⟨rest, rfl, -⟩)
        · exact Or.inl rfl
        · exact Or.inr rfl
      · rintro (rfl | hhead)
        · exact Or.inl rfl
        · obtain ⟨rest, rfl⟩ := List.head?_eq_some_iff.mp hhead
          exact Or.inr ⟨rest, rfl, forall_isPlain_iff.mpr fun hrest => hline (.tail '/' hrest)⟩
  | anything => exact ⟨fun _ => trivial, fun _ => forall_isPlain_iff.mpr hline⟩
  | within => exact forall_isInside_iff
  | one =>
      rw [Means, List.length_eq_one_iff, ← forall_isInside_iff]
      constructor
      · rintro ⟨c, rfl, hinside⟩
        exact ⟨⟨c, rfl⟩, fun d hd => List.mem_singleton.mp hd ▸ hinside⟩
      · rintro ⟨⟨c, rfl⟩, hinside⟩
        exact ⟨c, rfl, hinside c (.head [])⟩
  | segment => exact and_congr_right fun _ => forall_isInside_iff
  | literal c => exact Iff.rfl

/-- Without line feeds, a path can be cut if and only if it can be put together. -/
theorem cuts_iff_splits {tokens : List Token} {path : List Char} (hline : '\n' ∉ path) :
    Cuts tokens path ↔ Splits tokens path := by
  constructor
  · intro hcuts
    induction hcuts with
    | nil => exact ⟨[], .nil, rfl⟩
    | cons haccepts _ ih =>
        rw [List.mem_append, not_or] at hline
        obtain ⟨parts, hmeans, rfl⟩ := ih hline.2
        exact ⟨_ :: parts, .cons ((Token.accepts_iff_means hline.1).mp haccepts) hmeans, rfl⟩
  · rintro ⟨parts, hmeans, rfl⟩
    induction hmeans with
    | nil => exact .nil
    | cons hpart _ ih =>
        rw [List.flatten_cons, List.mem_append, not_or] at hline
        exact .cons ((Token.accepts_iff_means hline.1).mpr hpart) (ih hline.2)

end Pattern

/-! ## Lists of patterns -/

namespace Patterns

theorem exists_parse_iff {sources : List String} :
    (∃ patterns, parse sources = .ok patterns) ↔
      ∀ source ∈ sources, ∃ tokens, Pattern.parse source = .ok tokens := by
  constructor
  · rintro ⟨patterns, hparse⟩ source hsource
    obtain ⟨tokens, -, hread⟩ := mem_tokens_of_parse hparse hsource
    exact ⟨tokens, hread⟩
  · intro hall
    have htokens : ∃ tokens : List (List Pattern.Token),
        sources.map Pattern.parse = tokens.map .ok := by
      induction sources with
      | nil => exact ⟨[], rfl⟩
      | cons source rest ih =>
          obtain ⟨own, hown⟩ := hall source (.head rest)
          obtain ⟨others, hothers⟩ := ih fun other hother => hall other (.tail source hother)
          exact ⟨own :: others, by rw [List.map_cons, hown, hothers, List.map_cons]⟩
    obtain ⟨tokens, hmap⟩ := htokens
    exact ⟨⟨sources, tokens⟩, parse_eq_ok_iff.mpr ⟨rfl, hmap⟩⟩

/-- Patterns can be read if and only if each starts with a slash and closes its braces.  They accept a
path without line feeds if and only if the path is put together of texts that the tokens of one of them
stand for. -/
theorem accept_iff_splits (sources : List String) :
    ((∃ patterns, parse sources = .ok patterns) ↔
        ∀ source ∈ sources, source.toList.head? = some '/' ∧ Pattern.IsClosed source.toList) ∧
      ∀ patterns, parse sources = .ok patterns → ∀ path : String, '\n' ∉ path.toList →
        (patterns.accept path = true ↔ ∃ source ∈ sources, ∃ tokens,
          Pattern.Spells source.toList tokens ∧ Pattern.Splits tokens path.toList) := by
  refine ⟨?_, fun patterns hparse path hline => ?_⟩
  · simp only [exists_parse_iff, Pattern.exists_parse_iff]
  · rw [accept, List.any_eq_true]
    constructor
    · rintro ⟨tokens, htokens, haccepts⟩
      obtain ⟨source, hsource, hread⟩ := (mem_tokens_iff hparse).mp htokens
      have hcuts := Pattern.accepts_iff.mp haccepts
      exact ⟨source, hsource, tokens, (Pattern.parse_eq_ok_iff.mp hread).2,
        (Pattern.cuts_iff_splits hline).mp hcuts⟩
    · rintro ⟨source, hsource, tokens, hspells, hsplits⟩
      obtain ⟨own, hown, hread⟩ := mem_tokens_of_parse hparse hsource
      obtain rfl : own = tokens := (Pattern.parse_eq_ok_iff.mp hread).2.unique hspells
      exact ⟨own, hown, Pattern.accepts_iff.mpr ((Pattern.cuts_iff_splits hline).mpr hsplits)⟩

/-- A script below a user is accepted, cut at the tokens of the first pattern. -/
theorem accept_iff_splits_users :
    ∃ patterns, parse ["/users/{id}/*.j?", "/files/**"] = .ok patterns ∧
      patterns.accept "/users/7/report.js" = true := by
  obtain ⟨hexists, haccept⟩ := accept_iff_splits ["/users/{id}/*.j?", "/files/**"]
  obtain ⟨patterns, hparse⟩ := hexists.mpr (by decide +kernel)
  refine ⟨patterns, hparse, (haccept patterns hparse _ (by decide)).mpr ⟨_, .head _, ?_⟩⟩
  refine ⟨"/users/".toList.map .literal ++
    [.segment, .literal '/', .within, .literal '.', .literal 'j', .one],
    Pattern.tokens?_eq_some_iff.mp (by decide +kernel), ?_⟩
  exact ⟨["/", "u", "s", "e", "r", "s", "/", "7", "/", "report", ".", "j", "s"].map String.toList,
    by decide, by decide⟩

end Patterns

end ApiGateway.Path
