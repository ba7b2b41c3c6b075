import ApiGateway.Path.Pattern

/-!
# Paths that a pattern accepts

What is left of a path behind the tokens of a pattern is computed one token at a time.  A path is accepted
if and only if it can be cut into texts that the tokens stand for.
-/

namespace ApiGateway.Path

namespace Pattern

/-! ## Remainders -/

namespace Token

theorem mem_rests_below {text rest : List Char} :
    rest ∈ below.rests text ↔ ∃ part, below.Accepts part ∧ text = part ++ rest := by
  by_cases hslash : text.head? = some '/'
  · obtain ⟨behind, rfl⟩ : ∃ behind, text = '/' :: behind := by
      cases text with
      | nil => cases hslash
      | cons c behind => exact ⟨behind, congrArg (· :: behind) (Option.some.inj hslash)⟩
    have hrests : below.rests ('/' :: behind) = ('/' :: behind) :: dropSome isPlain behind := rfl
    rw [hrests, List.mem_cons, mem_dropSome]
    constructor
    · rintro (rfl | ⟨part, rfl, hplain⟩)
      · exact ⟨[], Or.inl rfl, rfl⟩
      · exact ⟨'/' :: part, Or.inr ⟨part, rfl, hplain⟩, rfl⟩
    · rintro ⟨part, rfl | ⟨inner, rfl, hplain⟩, hwhole⟩
      · exact Or.inl hwhole.symm
      · exact Or.inr ⟨inner, (List.cons.inj hwhole).2, hplain⟩
  · have hrests : below.rests text = [text] := by
      unfold rests
      split
      all_goals simp_all
    rw [hrests, List.mem_singleton]
    constructor
    · rintro rfl
      exact ⟨[], Or.inl rfl, rfl⟩
    · rintro ⟨part, rfl | ⟨inner, rfl, -⟩, rfl⟩
      · rfl
      · exact absurd rfl hslash

/-- What is left of a text behind a token is what follows a text that the token stands for. -/
theorem mem_rests {token : Token} {text rest : List Char} :
    rest ∈ token.rests text ↔ ∃ part, token.Accepts part ∧ text = part ++ rest := by
  cases token with
  | below => exact mem_rests_below
  | anything =>
      cases text <;> simp only [rests, mem_dropSome, Accepts, and_comm]
  | within =>
      cases text <;> simp only [rests, mem_dropSome, Accepts, and_comm]
  | one =>
      cases text with
      | nil =>
          refine ⟨fun hrest => (List.not_mem_nil hrest).elim, ?_⟩
          rintro ⟨part, ⟨c, rfl, -⟩, hwhole⟩
          cases hwhole
      | cons c text =>
          have hrests : rest ∈ one.rests (c :: text) ↔ isInside c = true ∧ rest = text := by
            simp only [rests]
            split <;> simp_all
          rw [hrests]
          constructor
          · rintro ⟨hinside, rfl⟩
            exact ⟨[c], ⟨c, rfl, hinside⟩, rfl⟩
          · rintro ⟨part, ⟨d, rfl, hinside⟩, hwhole⟩
            obtain ⟨rfl, rfl⟩ := List.cons.inj hwhole
            exact ⟨hinside, rfl⟩
  | segment =>
      cases text with
      | nil =>
          refine ⟨fun hrest => (List.not_mem_nil hrest).elim, ?_⟩
          rintro ⟨part, ⟨hne, -⟩, hwhole⟩
          exact absurd (List.append_eq_nil_iff.mp hwhole.symm).1 hne
      | cons c text =>
          have hrests : rest ∈ segment.rests (c :: text) ↔
              isInside c = true ∧ rest ∈ dropSome isInside text := by
            simp only [rests]
            split <;> simp_all
          rw [hrests, mem_dropSome]
          constructor
          · rintro ⟨hinside, part, rfl, hpart⟩
            exact ⟨c :: part, ⟨List.cons_ne_nil c part, List.forall_mem_cons.mpr ⟨hinside, hpart⟩⟩, rfl⟩
          · rintro ⟨part, ⟨hne, hpart⟩, hwhole⟩
            cases part with
            | nil => exact absurd rfl hne
            | cons d part =>
                obtain ⟨rfl, rfl⟩ := List.cons.inj hwhole
                obtain ⟨hinside, hpart⟩ := List.forall_mem_cons.mp hpart
                exact ⟨hinside, part, rfl, hpart⟩
  | literal c =>
      cases text with
      | nil =>
          refine ⟨fun hrest => (List.not_mem_nil hrest).elim, ?_⟩
          rintro ⟨part, rfl, hwhole⟩
          cases hwhole
      | cons d text =>
          have hrests : rest ∈ (literal c).rests (d :: text) ↔ c = d ∧ rest = text := by
            simp only [rests]
            split <;> simp_all
          rw [hrests]
          constructor
          · rintro ⟨rfl, rfl⟩
            exact ⟨[c], rfl, rfl⟩
          · rintro ⟨part, rfl, hwhole⟩
            obtain ⟨rfl, rfl⟩ := List.cons.inj hwhole
            exact ⟨rfl, rfl⟩

end Token

theorem mem_remainders {tokens : List Token} {texts : List (List Char)} {rest : List Char} :
    rest ∈ remainders tokens texts ↔
      ∃ text ∈ texts, ∃ part, Cuts tokens part ∧ text = part ++ rest := by
  induction tokens generalizing texts with
  | nil =>
      constructor
      · exact fun hrest => ⟨rest, hrest, [], .nil, rfl⟩
      · rintro ⟨text, htext, part, hcuts, rfl⟩
        cases hcuts
        exact htext
  | cons token tokens ih =>
      rw [remainders, List.foldl_cons, ← remainders, ih]
      simp only [List.mem_eraseDups, List.mem_flatMap, Token.mem_rests]
      constructor
      · rintro ⟨behind, ⟨text, htext, part, haccepts, rfl⟩, others, hcuts, rfl⟩
        exact ⟨_, htext, part ++ others, .cons haccepts hcuts, (List.append_assoc _ _ _).symm⟩
      · rintro ⟨text, htext, whole, hcuts, rfl⟩
        cases hcuts with
        | @cons _ _ part others haccepts hcuts =>
            exact ⟨others ++ rest, ⟨_, htext, part, haccepts, List.append_assoc _ _ _⟩, others, hcuts, rfl⟩

/-- A path is accepted if and only if it can be cut into texts of the tokens. -/
theorem accepts_iff {tokens : List Token} {path : List Char} :
    accepts tokens path = true ↔ Cuts tokens path := by
  rw [accepts, List.contains_iff_mem, mem_remainders]
  simp only [List.mem_singleton, List.append_nil, exists_eq_left]
  constructor
  · rintro ⟨part, hcuts, rfl⟩
    exact hcuts
  · exact fun hcuts => ⟨path, hcuts, rfl⟩

/-! ## Literal text -/

def IsLiteral (text : List Char) : Prop :=
  '*' ∉ text ∧ '?' ∉ text ∧ '{' ∉ text

instance (text : List Char) : Decidable (IsLiteral text) :=
  inferInstanceAs (Decidable (_ ∧ _))

/-- A character that means nothing here stands for itself. -/
theorem tokens?_cons_literal {c : Char} {rest : List Char} (hplain : c ∉ ['*', '?', '{'])
    (hslash : c = '/' → ¬ ['*', '*'] <+: rest) :
    tokens? (c :: rest) = (tokens? rest).map (.literal c :: ·) := by
  rw [tokens?.eq_def]
  split <;> simp_all

/-- Literal text in front of a pattern is read one character at a time. -/
theorem tokens?_append {text rest : List Char} (hliteral : IsLiteral text)
    (hrest : rest.head? ≠ some '*') :
    tokens? (text ++ rest) = (tokens? rest).map (text.map .literal ++ ·) := by
  induction text with
  | nil => simp
  | cons c text ih =>
      obtain ⟨hstar, hone, hbrace⟩ := hliteral
      simp only [List.mem_cons, not_or] at hstar hone hbrace
      have hplain : c ∉ ['*', '?', '{'] := by
        simp only [List.mem_cons, List.not_mem_nil, or_false, not_or]
        exact ⟨Ne.symm hstar.1, Ne.symm hone.1, Ne.symm hbrace.1⟩
      have hnext : ¬ ['*', '*'] <+: text ++ rest := by
        cases text with
        | nil =>
            rintro ⟨behind, rfl⟩
            exact hrest rfl
        | cons d text =>
            intro hstars
            exact hstar.2 ((List.cons_prefix_cons.mp hstars).1 ▸ .head text)
      rw [List.cons_append, tokens?_cons_literal hplain fun _ => hnext,
        ih ⟨hstar.2, hone.2, hbrace.2⟩, Option.map_map]
      rfl

theorem cuts_literals_append {text : List Char} {tokens : List Token} {path : List Char} :
    Cuts (text.map .literal ++ tokens) path ↔ ∃ rest, path = text ++ rest ∧ Cuts tokens rest := by
  induction text generalizing path with
  | nil => simp
  | cons c text ih =>
      constructor
      · intro hcuts
        cases hcuts with
        | @cons _ _ part behind haccepts hcuts =>
            obtain ⟨rest, rfl, hrest⟩ := ih.mp hcuts
            obtain rfl : part = [c] := haccepts
            exact ⟨rest, rfl, hrest⟩
      · rintro ⟨rest, rfl, hrest⟩
        have haccepts : (Token.literal c).Accepts [c] := rfl
        have hcuts := Cuts.cons haccepts (ih.mpr ⟨rest, rfl, hrest⟩)
        exact hcuts

theorem cuts_singleton {token : Token} {path : List Char} : Cuts [token] path ↔ token.Accepts path := by
  constructor
  · intro hcuts
    cases hcuts with
    | @cons _ _ part behind haccepts hcuts =>
        cases hcuts
        rwa [List.append_nil]
  · intro haccepts
    rw [← List.append_nil path]
    exact .cons haccepts .nil

theorem forall_bne_iff {mark : Char} {text : List Char} :
    (∀ c ∈ text, (c != mark) = true) ↔ mark ∉ text := by
  simp only [bne_iff_ne]
  exact ⟨fun hnone hmem => hnone mark hmem rfl, fun hnot c hc heq => hnot (heq ▸ hc)⟩

theorem forall_isPlain_iff {text : List Char} : (∀ c ∈ text, isPlain c = true) ↔ '\n' ∉ text :=
  forall_bne_iff

theorem forall_isInside_iff {text : List Char} : (∀ c ∈ text, isInside c = true) ↔ '/' ∉ text :=
  forall_bne_iff

/-- A literal path with all that is below it is accepted, but for line feeds below it. -/
theorem accepts_below_iff {text path : List Char} :
    accepts (text.map .literal ++ [.below]) path = true ↔
      path = text ∨ ∃ rest, path = text ++ '/' :: rest ∧ '\n' ∉ rest := by
  rw [accepts_iff, cuts_literals_append]
  simp only [cuts_singleton, Token.Accepts, forall_isPlain_iff]
  constructor
  · rintro ⟨rest, rfl, rfl | ⟨inner, rfl, hline⟩⟩
    · exact Or.inl (List.append_nil text)
    · exact Or.inr ⟨inner, rfl, hline⟩
  · rintro (rfl | ⟨inner, rfl, hline⟩)
    · exact ⟨[], (List.append_nil path).symm, Or.inl rfl⟩
    · exact ⟨_, rfl, Or.inr ⟨inner, rfl, hline⟩⟩

/-- The tokens of a literal path and all that is below it. -/
theorem parse_below {text : String} (hhead : text.toList.head? = some '/') (hliteral : IsLiteral text.toList) :
    parse (text ++ "/**") = .ok (text.toList.map .literal ++ [.below]) := by
  have hwhole : (text ++ "/**").toList = text.toList ++ ['/', '*', '*'] := String.toList_append
  have hrooted : (text ++ "/**").toList.head? = some '/' := by
    rw [hwhole, List.head?_append, hhead]
    rfl
  have hbelow : tokens? ['/', '*', '*'] = some [.below] := by
    simp [tokens?]
  rw [parse, if_pos hrooted, hwhole, tokens?_append hliteral (by decide), hbelow]
  rfl

end Pattern

namespace Patterns

theorem exists_of_bind_eq_ok {ε α β : Type} {first : Except ε α} {next : α → Except ε β} {result : β}
    (hbind : (first >>= next) = .ok result) : ∃ value, first = .ok value ∧ next value = .ok result := by
  cases first with
  | error problem => cases hbind
  | ok value => exact ⟨value, rfl, hbind⟩

/-- A list of patterns can be read if and only if each of them can, and each gives its own tokens. -/
theorem mapM_parse_eq_ok_iff {sources : List String} {tokens : List (List Pattern.Token)} :
    sources.mapM Pattern.parse = .ok tokens ↔ sources.map Pattern.parse = tokens.map .ok := by
  induction sources generalizing tokens with
  | nil =>
      constructor
      · intro hread
        cases hread
        rfl
      · intro hmap
        rw [List.map_eq_nil_iff.mp hmap.symm]
        rfl
  | cons source rest ih =>
      rw [List.mapM_cons, List.map_cons]
      constructor
      · intro hread
        obtain ⟨own, hown, hread⟩ := exists_of_bind_eq_ok hread
        obtain ⟨others, hothers, hread⟩ := exists_of_bind_eq_ok hread
        cases hread
        rw [hown, ih.mp hothers, List.map_cons]
      · intro hmap
        cases tokens with
        | nil => cases hmap
        | cons own others =>
            obtain ⟨hown, hothers⟩ := List.cons.inj hmap
            rw [hown, ih.mpr hothers]
            rfl

theorem parse_eq_ok_iff {sources : List String} {patterns : Patterns} :
    parse sources = .ok patterns ↔
      patterns.sources = sources ∧ sources.map Pattern.parse = patterns.tokens.map .ok := by
  rw [← mapM_parse_eq_ok_iff, parse]
  cases sources.mapM Pattern.parse with
  | error problem =>
      constructor
      · intro hparse
        cases hparse
      · rintro ⟨-, hmap⟩
        cases hmap
  | ok tokens =>
      constructor
      · intro hparse
        cases hparse
        exact ⟨rfl, rfl⟩
      · rintro ⟨rfl, hmap⟩
        cases hmap
        rfl

/-- The lists of tokens that are looked through are those of the sources. -/
theorem mem_tokens_iff {sources : List String} {patterns : Patterns}
    (hparse : parse sources = .ok patterns) {tokens : List Pattern.Token} :
    tokens ∈ patterns.tokens ↔ ∃ source ∈ sources, Pattern.parse source = .ok tokens := by
  have hmap := (parse_eq_ok_iff.mp hparse).2
  have hmem : tokens ∈ patterns.tokens ↔ Except.ok tokens ∈ sources.map Pattern.parse := by
    simp [hmap]
  rw [hmem, List.mem_map]

theorem mem_tokens_of_parse {sources : List String} {patterns : Patterns}
    (hparse : parse sources = .ok patterns) {source : String} (hsource : source ∈ sources) :
    ∃ tokens ∈ patterns.tokens, Pattern.parse source = .ok tokens := by
  have hown : Pattern.parse source ∈ patterns.tokens.map .ok := by
    rw [← (parse_eq_ok_iff.mp hparse).2]
    exact List.mem_map_of_mem hsource
  obtain ⟨tokens, htokens, hread⟩ := List.mem_map.mp hown
  exact ⟨tokens, htokens, hread.symm⟩

end Patterns

end ApiGateway.Path
