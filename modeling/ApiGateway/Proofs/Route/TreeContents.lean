import ApiGateway.Proofs.Route.Symbol

/-!
# What a tree holds

A tree holds leaves under lists of symbols.  In a regular tree, whose nodes have plain texts and
whose branches are told apart by their first characters, a search ends at the leaf of the leading
list that fits the path, and misses only if none does.
-/

namespace ApiGateway.Route

variable {α : Type}

mutual

/-- The tree holds a leaf under a list of symbols. -/
def Tree.Has : Tree α → List Symbol → Leaf α → Prop
  | .node label leaf branches wild, symbols, last =>
    ∃ rest, symbols = Symbol.chars label ++ rest ∧
      ((rest = [] ∧ leaf = some last) ∨ branches.Has rest last ∨ wild.Has rest last)

def Branches.Has : Branches α → List Symbol → Leaf α → Prop
  | .nil, _, _ => False
  | .cons _ child rest, symbols, last => child.Has symbols last ∨ rest.Has symbols last

def Wild.Has : Wild α → List Symbol → Leaf α → Prop
  | .none, _, _ => False
  | .segment leaf, symbols, last => symbols = [.param] ∧ leaf = some last
  | .through leaf next, symbols, last =>
    (symbols = [.param] ∧ leaf = some last) ∨ ∃ rest, symbols = .param :: rest ∧ next.Has rest last
  | .remainder _, _, _ => False

end

/-- What a node holds, less its own text. -/
def Below (leaf : Option (Leaf α)) (branches : Branches α) (wild : Wild α) (rest : List Symbol)
    (last : Leaf α) : Prop :=
  (rest = [] ∧ leaf = some last) ∨ branches.Has rest last ∨ wild.Has rest last

theorem Tree.has_node {label : List Char} {leaf : Option (Leaf α)} {branches : Branches α}
    {wild : Wild α} {symbols : List Symbol} {last : Leaf α} :
    (Tree.node label leaf branches wild).Has symbols last ↔
      ∃ rest, symbols = Symbol.chars label ++ rest ∧ Below leaf branches wild rest last :=
  Iff.rfl

def Tree.label : Tree α → List Char
  | .node label _ _ _ => label

def Branches.heads : Branches α → List Char
  | .nil => []
  | .cons first _ rest => first :: rest.heads

mutual

/-- Texts are plain, no template ends in a slash, branches differ in their first characters, and
parameters end their segments. -/
def Tree.IsRegular : Tree α → Prop
  | .node label leaf branches wild =>
    (∀ c ∈ label, isWild c = false) ∧ (leaf.isSome → label.getLast? ≠ some '/') ∧
      branches.IsRegular ∧ wild.IsRegular

def Branches.IsRegular : Branches α → Prop
  | .nil => True
  | .cons first child rest =>
    child.label.head? = some first ∧ child.IsRegular ∧ first ∉ rest.heads ∧ rest.IsRegular

def Wild.IsRegular : Wild α → Prop
  | .none => True
  | .segment leaf => leaf.isSome
  | .through _ next => next.label.head? = some '/' ∧ next.IsRegular
  | .remainder _ => False

end

/-! ## First symbols -/

/-- What a node holds starts with the node's text. -/
theorem Tree.Has.head {tree : Tree α} {symbols : List Symbol} {leaf : Leaf α} {first : Char}
    (hhas : tree.Has symbols leaf) (hlabel : tree.label.head? = some first) :
    ∃ rest, symbols = .char first :: rest := by
  cases tree with
  | node label old branches wild =>
      obtain ⟨rest, rfl, -⟩ := hhas
      cases label with
      | nil => cases hlabel
      | cons c label =>
          cases hlabel
          exact ⟨Symbol.chars label ++ rest, rfl⟩

theorem Branches.Has.head {branches : Branches α} {symbols : List Symbol} {leaf : Leaf α}
    (hregular : branches.IsRegular) (hhas : branches.Has symbols leaf) :
    ∃ first rest, first ∈ branches.heads ∧ symbols = .char first :: rest := by
  match branches with
  | .nil => exact hhas.elim
  | .cons first child rest =>
      rcases hhas with hchild | hrest
      · obtain ⟨tail, heq⟩ := hchild.head hregular.1
        exact ⟨first, tail, .head _, heq⟩
      · obtain ⟨other, tail, hmem, heq⟩ := Branches.Has.head hregular.2.2.2 hrest
        exact ⟨other, tail, .tail first hmem, heq⟩

theorem Wild.Has.head {wild : Wild α} {symbols : List Symbol} {leaf : Leaf α}
    (hhas : wild.Has symbols leaf) : ∃ rest, symbols = .param :: rest := by
  match wild with
  | .none => exact hhas.elim
  | .segment _ => exact ⟨[], hhas.1⟩
  | .through _ _ =>
      rcases hhas with ⟨heq, -⟩ | ⟨rest, heq, -⟩
      · exact ⟨[], heq⟩
      · exact ⟨rest, heq⟩
  | .remainder _ => exact hhas.elim

/-! ## Search -/

/-- The right result of a search among what is held: the leaf of a list that fits the path and leads
all others that do, or nothing if none fits. -/
inductive Answers (has : List Symbol → Leaf α → Prop) (path : List Char) : Search α → Prop where
  | found {symbols : List Symbol} {leaf : Leaf α} {texts : List (List Char)}
      (hhas : has symbols leaf) (hfits : Symbol.match? symbols path = some texts)
      (hleads : ∀ other last, has other last → (Symbol.match? other path).isSome →
        other = symbols ∨ Symbol.Leads symbols other) :
      Answers has path (.found leaf texts)
  | missed (hnone : ∀ symbols leaf, has symbols leaf → Symbol.match? symbols path = none) :
      Answers has path .missed

/-- Below a parameter no single slash ends a template. -/
theorem Tree.IsRegular.wantsSlash_eq_false {tree : Tree α} (hregular : tree.IsRegular)
    (hlabel : tree.label.head? = some '/') : tree.wantsSlash = false := by
  match tree with
  | .node label leaf branches wild =>
      obtain ⟨-, hleaf, -⟩ := hregular
      cases label with
      | nil => cases hlabel
      | cons c label =>
          cases hlabel
          cases label with
          | cons d label => rfl
          | nil =>
              cases leaf with
              | none => rfl
              | some held => exact absurd rfl (hleaf rfl)

theorem eq_append_of_segmentEnd {path text after : List Char} (hend : segmentEnd path = (text, after)) :
    path = text ++ after := by
  rw [← segmentEnd_append path, hend]

/-- A path that does not end in a slash is never down to one. -/
theorem Search.fail_eq_missed {path : List Char} (hends : path.getLast? ≠ some '/') :
    (Search.fail path : Search α) = .missed := by
  rw [Search.fail, if_neg]
  rintro rfl
  exact hends rfl

/-- A text with a different first character is fitted by no branch. -/
theorem Branches.Has.match?_eq_none {branches : Branches α} {symbols : List Symbol} {leaf : Leaf α}
    {c : Char} {path : List Char} (hregular : branches.IsRegular) (habsent : c ∉ branches.heads)
    (hhas : branches.Has symbols leaf) : Symbol.match? symbols (c :: path) = none := by
  obtain ⟨first, rest, hmem, rfl⟩ := hhas.head hregular
  have hne : first ≠ c := fun heq => habsent (heq ▸ hmem)
  simp [Symbol.match?, hne]

theorem Branches.not_mem_heads_of_search? {branches : Branches α} {c : Char} {path : List Char}
    (hnone : branches.search? (c :: path) = none) : c ∉ branches.heads := by
  match branches with
  | .nil => simp [Branches.heads]
  | .cons first child rest =>
      rw [Branches.search?] at hnone
      split at hnone
      · cases hnone
      · next hne =>
        rw [Branches.heads, List.mem_cons, not_or]
        refine ⟨fun heq => hne (by simp [heq]), Branches.not_mem_heads_of_search? hnone⟩

namespace Answers

variable {has wide : List Symbol → Leaf α → Prop} {path : List Char} {result : Search α}

/-- Lists that do not fit the path make no difference. -/
theorem extend (hanswers : Answers has path result)
    (hsub : ∀ symbols leaf, has symbols leaf → wide symbols leaf)
    (hrest : ∀ symbols leaf, wide symbols leaf →
      has symbols leaf ∨ Symbol.match? symbols path = none) : Answers wide path result := by
  cases hanswers with
  | found hhas hfits hleads =>
      refine .found (hsub _ _ hhas) hfits fun other last hother hsome => ?_
      rcases hrest other last hother with hold | hnone
      · exact hleads other last hold hsome
      · rw [hnone] at hsome
        cases hsome
  | missed hnone =>
      refine .missed fun symbols leaf hwide => ?_
      rcases hrest symbols leaf hwide with hold | hnone'
      · exact hnone symbols leaf hold
      · exact hnone'

/-- What is right for the rest of a path is right for the path behind a common text. -/
theorem behind (label : List Char) (hanswers : Answers has path result) :
    Answers (fun symbols leaf => ∃ rest, symbols = Symbol.chars label ++ rest ∧ has rest leaf)
      (label ++ path) result := by
  cases hanswers with
  | @found symbols leaf texts hhas hfits hleads =>
      refine .found ⟨symbols, rfl, hhas⟩ (by rw [Symbol.match?_chars_append, hfits]) ?_
      rintro other last ⟨rest, rfl, hrest⟩ hsome
      rw [Symbol.match?_chars_append] at hsome
      rcases hleads rest last hrest hsome with rfl | hlead
      · exact Or.inl rfl
      · exact Or.inr ((Symbol.leads_chars_append label _ _).mpr hlead)
  | missed hnone =>
      refine .missed ?_
      rintro symbols leaf ⟨rest, rfl, hrest⟩
      rw [Symbol.match?_chars_append]
      exact hnone rest leaf hrest

section Node

variable {leaf : Option (Leaf α)} {branches : Branches α} {wild : Wild α}

/-- Behind the text of a node nothing is left: only the node's own leaf fits. -/
theorem atEnd {label : List Char} (hregular : branches.IsRegular)
    (hends : (label ++ []).getLast? ≠ some '/') :
    Answers (Below leaf branches wild) [] (.ofLeaf leaf [] (.fail (label ++ []))) := by
  have honly : ∀ rest last, branches.Has rest last ∨ wild.Has rest last →
      Symbol.match? rest [] = none := by
    rintro rest last (hhas | hhas)
    · obtain ⟨first, tail, -, rfl⟩ := hhas.head hregular
      rfl
    · obtain ⟨tail, rfl⟩ := hhas.head
      rfl
  cases leaf with
  | some held =>
      refine .found (Or.inl ⟨rfl, rfl⟩) rfl ?_
      rintro other last (⟨rfl, -⟩ | hhas) hsome
      · exact Or.inl rfl
      · rw [honly other last hhas] at hsome
        cases hsome
  | none =>
      rw [Search.ofLeaf, Search.fail_eq_missed hends]
      refine .missed ?_
      rintro rest last (⟨-, hheld⟩ | hhas)
      · cases hheld
      · exact honly rest last hhas

/-- If no branch fits, the wildcard decides. -/
theorem ofWild (leaf : Option (Leaf α)) {c : Char} {path : List Char} {result : Search α}
    (hanswers : Answers wild.Has (c :: path) result)
    (hnone : ∀ rest last, branches.Has rest last → Symbol.match? rest (c :: path) = none) :
    Answers (Below leaf branches wild) (c :: path) result := by
  refine hanswers.extend (fun rest last hhas => Or.inr (Or.inr hhas)) ?_
  rintro rest last (⟨rfl, -⟩ | hhas | hhas)
  · exact Or.inr rfl
  · exact Or.inr (hnone rest last hhas)
  · exact Or.inl hhas

/-- What is found in a branch leads all that the wildcard holds. -/
theorem ofBranch {c : Char} {path : List Char} {last : Leaf α} {texts : List (List Char)}
    (hregular : branches.IsRegular) (hanswers : Answers branches.Has (c :: path) (.found last texts)) :
    Answers (Below leaf branches wild) (c :: path) (.found last texts) := by
  cases hanswers with
  | @found symbols _ _ hhas hfits hleads =>
      refine .found (Or.inr (Or.inl hhas)) hfits ?_
      rintro other held (⟨rfl, -⟩ | hbranch | hwild) hsome
      · cases hsome
      · exact hleads other held hbranch hsome
      · obtain ⟨first, tail, -, rfl⟩ := hhas.head hregular
        obtain ⟨rest, rfl⟩ := hwild.head
        exact Or.inr trivial

end Node

section Parameter

variable {leaf : Option (Leaf α)} {c : Char} {path text : List Char}

/-- At the end of a path a parameter stands for the last segment, and no longer list fits. -/
theorem atSegmentEnd (hend : segmentEnd (c :: path) = (text, []))
    (hown : ∀ held, leaf = some held → has [.param] held)
    (hothers : ∀ symbols last, has symbols last →
      (symbols = [.param] ∧ leaf = some last) ∨ Symbol.match? symbols (c :: path) = none) :
    Answers has (c :: path) (.ofLeaf leaf [c :: path] .missed) := by
  have hwhole := eq_append_of_segmentEnd hend
  rw [List.append_nil] at hwhole
  subst hwhole
  cases leaf with
  | some held =>
      refine .found (hown held rfl) (by simp [Symbol.match?, hend]) ?_
      intro other last hother hsome
      rcases hothers other last hother with ⟨heq, -⟩ | hnone
      · exact Or.inl heq
      · rw [hnone] at hsome
        cases hsome
  | none =>
      refine .missed fun symbols last hhas => ?_
      rcases hothers symbols last hhas with ⟨-, hheld⟩ | hnone
      · cases hheld
      · exact hnone

/-- Before the end of a path a parameter stands for one segment, and what follows it decides. -/
theorem passing {next : Tree α} {d : Char} {after : List Char}
    (hend : segmentEnd (c :: path) = (text, d :: after)) (hanswers : Answers next.Has (d :: after) result) :
    Answers (Wild.through leaf next).Has (c :: path) (result.passing text) := by
  have hshort : Symbol.match? [.param] (c :: path) = none := by
    simp [Symbol.match?, hend]
  have hlong : ∀ rest, Symbol.match? (.param :: rest) (c :: path) =
      (Symbol.match? rest (d :: after)).map (text :: ·) := by
    intro rest
    simp [Symbol.match?, hend]
  cases hanswers with
  | @found symbols held texts hhas hfits hleads =>
      refine .found (Or.inr ⟨symbols, rfl, hhas⟩) (by rw [hlong, hfits]; rfl) ?_
      rintro other last (⟨rfl, -⟩ | ⟨rest, rfl, hrest⟩) hsome
      · rw [hshort] at hsome
        cases hsome
      · rw [hlong, Option.isSome_map] at hsome
        rcases hleads rest last hrest hsome with rfl | hlead
        · exact Or.inl rfl
        · exact Or.inr hlead
  | missed hnone =>
      refine .missed ?_
      rintro symbols last (⟨rfl, -⟩ | ⟨rest, rfl, hrest⟩)
      · exact hshort
      · rw [hlong, hnone rest last hrest]
        rfl

end Parameter

end Answers

theorem getLast?_ne_of_append {label : List Char} {c d : Char} {path : List Char}
    (hends : (label ++ c :: path).getLast? ≠ some d) : (c :: path).getLast? ≠ some d := by
  rw [List.getLast?_append_of_ne_nil label (List.cons_ne_nil c path)] at hends
  exact hends

mutual

/-- A search in a regular tree gives the right result for every path that does not end in a slash. -/
theorem Tree.search_answers (tree : Tree α) {path : List Char} (hregular : tree.IsRegular)
    (hends : path.getLast? ≠ some '/') : Answers tree.Has path (tree.search path) := by
  match tree with
  | .node label leaf branches wild =>
      obtain ⟨-, hleaf, hbranches, hwild⟩ := hregular
      rw [Tree.search]
      cases hstrip : Text.strip? label path with
      | none =>
          have hmissed : ∀ symbols last, (Tree.node label leaf branches wild).Has symbols last →
              Symbol.match? symbols path = none := by
            rintro symbols last ⟨rest, rfl, -⟩
            by_contra hsome
            obtain ⟨tail, rfl⟩ := Symbol.match?_chars_append_isSome (Option.isSome_iff_ne_none.mpr hsome)
            rw [Text.strip?_append] at hstrip
            cases hstrip
          have hnot : ¬ (label = path ++ ['/'] ∧ leaf.isSome) := by
            rintro ⟨rfl, hsome⟩
            exact hleaf hsome (by simp)
          simp only [if_neg hnot, Search.fail_eq_missed hends]
          exact .missed hmissed
      | some tail =>
          rw [Text.strip?_eq_some_iff] at hstrip
          subst hstrip
          refine (@Answers.behind _ (Below leaf branches wild) _ _ label ?_)
          cases tail with
          | nil => exact Answers.atEnd hbranches hends
          | cons c rest =>
              have hbelow := getLast?_ne_of_append hends
              have hwildAnswers := Wild.search_answers wild hwild hbelow
              cases hsearch : branches.search? (c :: rest) with
              | none =>
                  have habsent := Branches.not_mem_heads_of_search? hsearch
                  simp only [hsearch]
                  exact hwildAnswers.ofWild leaf fun _ _ hhas => hhas.match?_eq_none hbranches habsent
              | some result =>
                  have hbranchAnswers := Branches.search?_answers branches hbranches hbelow hsearch
                  cases hbranchAnswers with
                  | found hhas hfits hleads =>
                      simp only [hsearch]
                      exact (Answers.found hhas hfits hleads).ofBranch hbranches
                  | missed hnone =>
                      have horElse := hwildAnswers.ofWild leaf hnone
                      cases wild with
                      | none =>
                          rw [Wild.search, Search.fail_eq_missed hbelow] at horElse
                          simpa [hsearch, Wild.isNone] using horElse
                      | segment _ => simpa [hsearch, Wild.isNone] using horElse
                      | through _ _ => simpa [hsearch, Wild.isNone] using horElse
                      | remainder _ => exact hwild.elim

theorem Branches.search?_answers (branches : Branches α) {path : List Char} {result : Search α}
    (hregular : branches.IsRegular) (hends : path.getLast? ≠ some '/')
    (hsearch : branches.search? path = some result) : Answers branches.Has path result := by
  match branches with
  | .nil => cases hsearch
  | .cons first child rest =>
      obtain ⟨hlabel, hchild, habsent, hrest⟩ := hregular
      rw [Branches.search?] at hsearch
      split at hsearch
      · next hhead =>
        cases hsearch
        refine (Tree.search_answers child hchild hends).extend (fun _ _ hhas => Or.inl hhas) ?_
        rintro symbols leaf (hhas | hhas)
        · exact Or.inl hhas
        · cases path with
          | nil => cases hhead
          | cons c path =>
              cases hhead
              exact Or.inr (hhas.match?_eq_none hrest habsent)
      · next hhead =>
        refine (Branches.search?_answers rest hrest hends hsearch).extend
          (fun _ _ hhas => Or.inr hhas) ?_
        rintro symbols leaf (hhas | hhas)
        · obtain ⟨tail, rfl⟩ := hhas.head hlabel
          cases path with
          | nil => exact Or.inr rfl
          | cons c path =>
              have hne : first ≠ c := fun heq => hhead (by rw [heq]; rfl)
              exact Or.inr (by simp [Symbol.match?, hne])
        · exact Or.inl hhas

theorem Wild.search_answers (wild : Wild α) {c : Char} {path : List Char} (hregular : wild.IsRegular)
    (hends : (c :: path).getLast? ≠ some '/') :
    Answers wild.Has (c :: path) (wild.search (c :: path)) := by
  match wild with
  | .none =>
      rw [Wild.search, Search.fail_eq_missed hends]
      exact .missed fun _ _ hhas => hhas.elim
  | .remainder _ => exact hregular.elim
  | .segment leaf =>
      obtain ⟨held, rfl⟩ := Option.isSome_iff_exists.mp hregular
      rw [Wild.search]
      cases hend : segmentEnd (c :: path) with
      | mk text after =>
          cases after with
          | nil =>
              have hlast : Answers (Wild.segment (some held)).Has (c :: path)
                  (.ofLeaf (some held) [c :: path] .missed) :=
                Answers.atSegmentEnd hend (fun held heq => ⟨rfl, heq⟩) fun symbols last hhas => Or.inl hhas
              exact hlast
          | cons d after =>
              have hrest : d :: after ≠ ['/'] := by
                intro heq
                rw [eq_append_of_segmentEnd hend, heq] at hends
                simp at hends
              simp only [if_neg hrest]
              refine .missed ?_
              rintro symbols last ⟨rfl, -⟩
              simp [Symbol.match?, hend]
  | .through leaf next =>
      obtain ⟨hlabel, hnext⟩ := hregular
      rw [Wild.search]
      cases hend : segmentEnd (c :: path) with
      | mk text after =>
          cases after with
          | nil =>
              simp only [hnext.wantsSlash_eq_false hlabel]
              refine Answers.atSegmentEnd hend (fun held heq => Or.inl ⟨rfl, heq⟩) ?_
              rintro symbols last (hown | ⟨rest, rfl, hhas⟩)
              · exact Or.inl hown
              · obtain ⟨tail, rfl⟩ := hhas.head hlabel
                exact Or.inr (by simp [Symbol.match?, hend])
          | cons d after =>
              have hbelow := getLast?_ne_of_append (eq_append_of_segmentEnd hend ▸ hends)
              exact (Tree.search_answers next hnext hbelow).passing hend

end

end ApiGateway.Route
