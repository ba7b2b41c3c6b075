import ApiGateway.Proofs.Route.TreeContents

/-!
# Adding to a tree

A list of symbols that a regular tree does not hold yet can always be added: the tree stays regular
and holds one leaf more.
-/

namespace ApiGateway.Route

variable {α : Type} {symbols rest : List Symbol}

open ApiGateway.Route.Symbol (IsNeat render chars)

theorem Symbol.IsNeat.chars_getLast? {text : List Char} (hneat : IsNeat (chars text)) :
    text.getLast? ≠ some '/' := by
  intro hlast
  apply hneat.ends
  rw [chars, List.getLast?_map, hlast]
  rfl

def HasOnly (has : List Symbol → Leaf α → Prop) (symbols : List Symbol) (leaf : Leaf α) : Prop :=
  ∀ other last, has other last ↔ other = symbols ∧ last = leaf

def HasMore (old has : List Symbol → Leaf α → Prop) (symbols : List Symbol) (leaf : Leaf α) : Prop :=
  ∀ other last, has other last ↔ (other = symbols ∧ last = leaf) ∨ old other last

/-! ## New nodes -/

theorem plant_literal {text : List Char} (leaf : Leaf α) (old : Option (Leaf α)) (route : List Char)
    (hnone : firstWild? text = none) :
    plant leaf old route text = (.node text (some leaf) .nil .none, none) := by
  rw [plant]
  split
  · rfl
  · next hsome =>
    rw [hnone] at hsome
    cases hsome

/-- A text with a parameter becomes a node for what stands before it, and the wildcard below. -/
theorem plant_wild {text before name after tail : List Char} (leaf : Leaf α) (old : Option (Leaf α))
    (route : List Char) (hfirst : firstWild? text = some (before, ':', name, after))
    (hmark : firstWild? tail = some ([], ':', name, after)) :
    plant leaf old route text =
      (.node before old .nil (hang leaf route tail).1, (hang leaf route tail).2) := by
  rw [plant, hang, hmark]
  split
  · next hnone =>
    rw [hfirst] at hnone
    cases hnone
  · next hsome =>
    rw [hfirst] at hsome
    cases hsome
    simp only [if_true]
    split <;> rfl

/-- The tree is regular, holds one list, and starts with the list's first character. -/
structure IsPlanted (tree : Tree α) (symbols : List Symbol) (leaf : Leaf α) : Prop where
  regular : tree.IsRegular
  only : HasOnly tree.Has symbols leaf
  label : ∀ first tail, symbols = .char first :: tail → tree.label.head? = some first

structure IsHung (wild : Wild α) (symbols : List Symbol) (leaf : Leaf α) : Prop where
  regular : wild.IsRegular
  only : HasOnly wild.Has symbols leaf

theorem IsPlanted.ofChars {text : List Char} {leaf : Leaf α} (hneat : IsNeat (chars text)) :
    IsPlanted (.node text (some leaf) .nil .none) (chars text) leaf where
  regular := ⟨IsNeat.plain_chars [] (by simpa using hneat),
    fun _ => hneat.chars_getLast?, trivial, trivial⟩
  only other last := by simp [Tree.Has, Branches.Has, Wild.Has, eq_comm]
  label first tail heq := by
    cases text with
    | nil => cases heq
    | cons c text =>
        cases heq
        rfl

theorem IsPlanted.ofWild {text : List Char} {wild : Wild α} {leaf : Leaf α}
    (hplain : ∀ c ∈ text, isWild c = false) (hwild : IsHung wild (.param :: rest) leaf) :
    IsPlanted (.node text none .nil wild) (chars text ++ .param :: rest) leaf where
  regular := ⟨hplain, by simp, trivial, hwild.regular⟩
  only other last := by
    constructor
    · rintro ⟨tail, rfl, ⟨-, hheld⟩ | hhas | hhas⟩
      · cases hheld
      · exact hhas.elim
      · obtain ⟨rfl, rfl⟩ := (hwild.only tail last).mp hhas
        exact ⟨rfl, rfl⟩
    · rintro ⟨rfl, rfl⟩
      exact ⟨_, rfl, Or.inr (Or.inr ((hwild.only _ _).mpr ⟨rfl, rfl⟩))⟩
  label first tail heq := by
    cases text with
    | nil => cases heq
    | cons c text =>
        cases heq
        rfl

theorem IsHung.segment (leaf : Leaf α) : IsHung (.segment (some leaf)) [.param] leaf where
  regular := rfl
  only other last := by simp [Wild.Has, eq_comm]

theorem IsHung.through {tree : Tree α} {leaf : Leaf α} {tail : List Symbol}
    (hnext : IsPlanted tree (.char '/' :: tail) leaf) :
    IsHung (.through none tree) (.param :: .char '/' :: tail) leaf where
  regular := ⟨hnext.label '/' tail rfl, hnext.regular⟩
  only other last := by
    constructor
    · rintro (⟨-, hheld⟩ | ⟨rest, rfl, hhas⟩)
      · cases hheld
      · obtain ⟨rfl, rfl⟩ := (hnext.only rest last).mp hhas
        exact ⟨rfl, rfl⟩
    · rintro ⟨rfl, rfl⟩
      exact Or.inr ⟨_, rfl, (hnext.only _ _).mpr ⟨rfl, rfl⟩⟩

/-- If what follows a parameter can be planted, the parameter can be hung below a node. -/
theorem hang_isHung_of_plant (before : List Symbol) (position : Nat)
    (hneat : IsNeat (before ++ .param :: rest)) (leaf : Leaf α) (route : List Char)
    (hplant : ∃ tree, plant leaf none route (render (position + 1) rest) = (tree, none) ∧
      IsPlanted tree rest leaf) :
    ∃ wild, hang leaf route (render position (.param :: rest)) = (wild, none) ∧
      IsHung wild (.param :: rest) leaf := by
  have hmark := (IsNeat.suffix _ hneat).firstWild?_mark position
  rcases IsNeat.after_param before hneat with rfl | ⟨tail, rfl⟩
  · refine ⟨.segment (some leaf), ?_, .segment leaf⟩
    rw [hang, hmark]
    rfl
  · obtain ⟨tree, hgrown, hplanted⟩ := hplant
    refine ⟨.through none tree, ?_, .through hplanted⟩
    rw [hang, hmark]
    rw [render] at hgrown
    simp only [render, if_true, reduceCtorEq, if_false, hgrown]

/-- The tree planted for a neat list holds this list and nothing else. -/
theorem plant_isPlanted (hneat : IsNeat symbols) (leaf : Leaf α) (route : List Char)
    (position : Nat) :
    ∃ tree, plant leaf none route (render position symbols) = (tree, none) ∧
      IsPlanted tree symbols leaf := by
  induction symbols using Symbol.paramInduction generalizing position with
  | chars text =>
      rw [Symbol.render_chars]
      exact ⟨_, plant_literal leaf none route hneat.firstWild?_chars, .ofChars hneat⟩
  | param text rest ih =>
      have hrest := ih (IsNeat.suffix _ hneat).tail (position + 1)
      obtain ⟨wild, hhang, hhung⟩ := hang_isHung_of_plant _ position hneat leaf route hrest
      have hmark := (IsNeat.suffix _ hneat).firstWild?_mark position
      refine ⟨.node text none .nil wild, ?_, .ofWild (hneat.plain_chars _) hhung⟩
      rw [plant_wild leaf none route (hneat.firstWild?_param _ position) hmark, hhang]

theorem hang_isHung (position : Nat) (hneat : IsNeat (.param :: rest)) (leaf : Leaf α)
    (route : List Char) :
    ∃ wild, hang leaf route (render position (.param :: rest)) = (wild, none) ∧
      IsHung wild (.param :: rest) leaf :=
  hang_isHung_of_plant [] position hneat leaf route
    (plant_isPlanted hneat.tail leaf route (position + 1))

/-! ## What changes in a node -/

theorem Branches.heads_push (branches : Branches α) (first : Char) (child : Tree α) :
    (branches.push first child).heads = branches.heads ++ [first] := by
  match branches with
  | .nil => rfl
  | .cons other tree rest =>
      rw [Branches.push, Branches.heads, Branches.heads, Branches.heads_push rest first child]
      rfl

theorem Branches.has_push (branches : Branches α) (first : Char) (child : Tree α)
    (other : List Symbol) (last : Leaf α) :
    (branches.push first child).Has other last ↔ branches.Has other last ∨ child.Has other last := by
  match branches with
  | .nil => simp [Branches.push, Branches.Has]
  | .cons head tree rest =>
      rw [Branches.push, Branches.Has, Branches.Has, Branches.has_push rest, or_assoc]

theorem Branches.IsRegular.push {branches : Branches α} {first : Char} {child : Tree α}
    (hregular : branches.IsRegular) (habsent : first ∉ branches.heads)
    (hlabel : child.label.head? = some first) (hchild : child.IsRegular) :
    (branches.push first child).IsRegular := by
  match branches with
  | .nil => exact ⟨hlabel, hchild, by simp [Branches.heads], trivial⟩
  | .cons head tree rest =>
      obtain ⟨hhead, htree, hfresh, hrest⟩ := hregular
      rw [Branches.heads, List.mem_cons, not_or] at habsent
      refine ⟨hhead, htree, ?_, hrest.push habsent.2 hlabel hchild⟩
      rw [Branches.heads_push, List.mem_append, List.mem_singleton, not_or]
      exact ⟨hfresh, Ne.symm habsent.1⟩

namespace HasMore

variable {old has : List Symbol → Leaf α → Prop} {leaf : Leaf α} {branches grown : Branches α}
  {wild changed : Wild α} {here : Option (Leaf α)} {child : Tree α} {c : Char}

/-- What changes behind a common text changes behind it alone. -/
theorem behind (label : List Char) (hmore : HasMore old has rest leaf) :
    HasMore (fun symbols last => ∃ tail, symbols = chars label ++ tail ∧ old tail last)
      (fun symbols last => ∃ tail, symbols = chars label ++ tail ∧ has tail last)
      (chars label ++ rest) leaf := by
  intro other last
  constructor
  · rintro ⟨tail, rfl, hhas⟩
    rcases (hmore tail last).mp hhas with ⟨rfl, rfl⟩ | hold
    · exact Or.inl ⟨rfl, rfl⟩
    · exact Or.inr ⟨tail, rfl, hold⟩
  · rintro (⟨rfl, rfl⟩ | ⟨tail, rfl, hold⟩)
    · exact ⟨rest, rfl, (hmore rest last).mpr (Or.inl ⟨rfl, rfl⟩)⟩
    · exact ⟨tail, rfl, (hmore tail last).mpr (Or.inr hold)⟩

theorem leafHere : HasMore (Below none branches wild) (Below (some leaf) branches wild) [] leaf := by
  intro other last
  simp only [Below, Option.some.injEq, reduceCtorEq, and_false, false_or, eq_comm (a := leaf)]

theorem inBranches (hmore : HasMore branches.Has grown.Has rest leaf) :
    HasMore (Below here branches wild) (Below here grown wild) rest leaf := by
  intro other last
  rw [Below, Below, hmore other last]
  tauto

theorem inWild (hmore : HasMore wild.Has changed.Has rest leaf) :
    HasMore (Below here branches wild) (Below here branches changed) rest leaf := by
  intro other last
  rw [Below, Below, hmore other last]
  tauto

theorem inPushed (hplanted : IsPlanted child rest leaf) :
    HasMore branches.Has (branches.push c child).Has rest leaf := by
  intro other last
  rw [Branches.has_push, hplanted.only other last, or_comm]

/-- A node cut in two holds what it did, and a leaf at the cut. -/
theorem leafAtCut :
    HasMore child.Has (Below (some leaf) (.cons c child .nil) .none) [] leaf := by
  intro other last
  simp only [Below, Branches.Has, Wild.Has, or_false, Option.some.injEq, eq_comm (a := leaf)]

theorem wildAtCut (hhung : IsHung wild rest leaf) :
    HasMore child.Has (Below none (.cons c child .nil) wild) rest leaf := by
  intro other last
  rw [Below, Branches.Has, Branches.Has, hhung.only other last]
  simp only [reduceCtorEq, and_false, false_or, or_comm]

theorem branchAtCut {d : Char} {planted : Tree α} (hplanted : IsPlanted planted rest leaf) :
    HasMore child.Has (Below none ((Branches.cons c child .nil).push d planted) .none) rest leaf := by
  intro other last
  rw [Below, Branches.has_push, hplanted.only other last, Branches.Has, Branches.Has, Wild.Has]
  simp only [reduceCtorEq, and_false, false_or, or_comm]

/-- A parameter that ended here goes on. -/
theorem afterSegment (hplanted : IsPlanted child rest leaf) :
    HasMore (Wild.segment here).Has (Wild.through here child).Has (.param :: rest) leaf := by
  intro other last
  rw [Wild.Has, Wild.Has]
  constructor
  · rintro (hheld | ⟨tail, rfl, hhas⟩)
    · exact Or.inr hheld
    · obtain ⟨rfl, rfl⟩ := (hplanted.only tail last).mp hhas
      exact Or.inl ⟨rfl, rfl⟩
  · rintro (⟨rfl, rfl⟩ | hheld)
    · exact Or.inr ⟨_, rfl, (hplanted.only _ _).mpr ⟨rfl, rfl⟩⟩
    · exact Or.inl hheld

/-- A parameter that went on ends here as well. -/
theorem leafBefore :
    HasMore (Wild.through none child).Has (Wild.through (some leaf) child).Has [.param] leaf := by
  intro other last
  simp only [Wild.Has, Option.some.injEq, reduceCtorEq, and_false, false_or, eq_comm (a := leaf)]

theorem inNext {next : Tree α} (hmore : HasMore child.Has next.Has rest leaf) :
    HasMore (Wild.through here child).Has (Wild.through here next).Has (.param :: rest) leaf := by
  intro other last
  rw [Wild.Has, Wild.Has]
  constructor
  · rintro (hheld | ⟨tail, rfl, hhas⟩)
    · exact Or.inr (Or.inl hheld)
    · rcases (hmore tail last).mp hhas with ⟨rfl, rfl⟩ | hold
      · exact Or.inl ⟨rfl, rfl⟩
      · exact Or.inr (Or.inr ⟨tail, rfl, hold⟩)
  · rintro (⟨rfl, rfl⟩ | hheld | ⟨tail, rfl, hold⟩)
    · exact Or.inr ⟨_, rfl, (hmore _ _).mpr (Or.inl ⟨rfl, rfl⟩)⟩
    · exact Or.inl hheld
    · exact Or.inr ⟨tail, rfl, (hmore tail last).mpr (Or.inr hold)⟩

end HasMore

/-! ## Grafting -/

theorem shared_head? {left right : List Char} {first : Char} (hleft : left.head? = some first)
    (hright : right.head? = some first) : (shared left right).1.head? = some first := by
  cases left with
  | nil => cases hleft
  | cons c left =>
      cases right with
      | nil => cases hright
      | cons d right =>
          cases hleft
          cases hright
          simp [shared]

/-- A node keeps its first character. -/
theorem Tree.label_graft {tree : Tree α} {first : Char} (leaf : Leaf α) (route text : List Char)
    (hlabel : tree.label.head? = some first) (htext : text.head? = some first) :
    (tree.graft leaf route text).1.label.head? = some first := by
  cases tree with
  | node label old branches wild =>
      have hcommon : (shared label text).1.head? = some first := shared_head? hlabel htext
      rw [Tree.graft.eq_def]
      simp only
      generalize shared label text = parts at hcommon
      obtain ⟨common, left, right⟩ := parts
      cases left with
      | cons c left =>
          cases right with
          | nil => exact hcommon
          | cons d right =>
              simp only
              split <;> exact hcommon
      | nil =>
          cases right with
          | nil => cases old <;> exact hlabel
          | cons d right =>
              simp only
              split
              · exact hlabel
              · split <;> exact hlabel

/-- Text that starts with a wildcard goes to no branch. -/
theorem Branches.graft?_eq_none {branches : Branches α} {d : Char} (leaf : Leaf α)
    (route text : List Char) (habsent : d ∉ branches.heads) :
    branches.graft? leaf route (d :: text) = none := by
  match branches with
  | .nil => rfl
  | .cons first child rest =>
      rw [Branches.heads, List.mem_cons, not_or] at habsent
      rw [Branches.graft?, List.head?_cons, if_neg (by simpa using habsent.1),
        Branches.graft?_eq_none leaf route text habsent.2]
      rfl

/-- No branch starts with a wildcard mark. -/
theorem Branches.IsRegular.isWild_eq_false {branches : Branches α} (hregular : branches.IsRegular)
    {d : Char} (hmem : d ∈ branches.heads) : isWild d = false := by
  match branches with
  | .nil => cases hmem
  | .cons first child rest =>
      obtain ⟨hlabel, hchild, -, hrest⟩ := hregular
      rcases List.mem_cons.mp hmem with rfl | hmem
      · cases child with
        | node label _ _ _ => exact hchild.1 d (List.mem_of_mem_head? hlabel)
      · exact hrest.isWild_eq_false hmem

def Tree.GraftsTo (tree : Tree α) (result : Grown α) (symbols : List Symbol) (leaf : Leaf α) : Prop :=
  ∃ grown, result = (grown, none) ∧ grown.IsRegular ∧ HasMore tree.Has grown.Has symbols leaf

/-- The lower part of a node that is cut in two. -/
theorem Tree.IsRegular.cut {common left : List Char} {c : Char} {old : Option (Leaf α)}
    {branches : Branches α} {wild : Wild α}
    (hregular : (Tree.node (common ++ c :: left) old branches wild).IsRegular) :
    (Branches.cons c (.node (c :: left) old branches wild) .nil).IsRegular := by
  obtain ⟨hplain, hleaf, hbranches, hwild⟩ := hregular
  rw [List.getLast?_append_of_ne_nil common (List.cons_ne_nil c left)] at hleaf
  refine ⟨rfl, ⟨fun d hd => hplain d (List.mem_append_right common hd), hleaf, hbranches, hwild⟩, ?_,
    trivial⟩
  simp [Branches.heads]

/-- What a whole node holds is what its lower part holds, behind the common text. -/
theorem HasMore.ofLower (common : List Char) {left : List Char} {old : Option (Leaf α)}
    {branches : Branches α} {wild : Wild α} {leaf : Leaf α} {has : List Symbol → Leaf α → Prop}
    (hmore : HasMore (Tree.node left old branches wild).Has has rest leaf) :
    HasMore (Tree.node (common ++ left) old branches wild).Has
      (fun symbols last => ∃ tail, symbols = chars common ++ tail ∧ has tail last)
      (chars common ++ rest) leaf := by
  intro other last
  rw [hmore.behind common other last]
  simp only [Tree.has_node, Symbol.chars_append, List.append_assoc]
  apply or_congr_right
  constructor
  · rintro ⟨tail, rfl, inner, rfl, hinner⟩
    exact ⟨inner, rfl, hinner⟩
  · rintro ⟨inner, rfl, hinner⟩
    exact ⟨_, rfl, inner, rfl, hinner⟩

/-- A list that parts from the text of a node cuts the node in two. -/
theorem Tree.graft_cut {common left : List Char} {c : Char} {old : Option (Leaf α)}
    {branches : Branches α} {wild : Wild α} {leaf : Leaf α} (position : Nat) (route : List Char)
    (hregular : (Tree.node (common ++ c :: left) old branches wild).IsRegular)
    (hneat : IsNeat (chars common ++ rest))
    (hshared : shared (common ++ c :: left) (render position (chars common ++ rest)) =
      (common, c :: left, render position rest)) :
    (Tree.node (common ++ c :: left) old branches wild).GraftsTo
      ((Tree.node (common ++ c :: left) old branches wild).graft leaf route
        (render position (chars common ++ rest))) (chars common ++ rest) leaf := by
  have hplain : ∀ d ∈ common, isWild d = false := hneat.plain_chars _
  have hbelow := hregular.cut
  rw [Tree.GraftsTo, Tree.graft.eq_def]
  simp only [hshared]
  cases rest with
  | nil =>
      have hends : common.getLast? ≠ some '/' :=
        IsNeat.chars_getLast? (by simpa using hneat)
      exact ⟨_, rfl, ⟨hplain, fun _ => hends, hbelow, trivial⟩, HasMore.leafAtCut.ofLower common⟩
  | cons symbol tail =>
      have hrest := IsNeat.suffix _ hneat
      cases symbol with
      | param =>
          obtain ⟨changed, hhang, hhung⟩ := hang_isHung position hrest leaf route
          rw [render, List.cons_append] at hhang
          refine ⟨.node common none (.cons c _ .nil) changed, ?_,
            ⟨hplain, by simp, hbelow, hhung.regular⟩, (HasMore.wildAtCut hhung).ofLower common⟩
          simp only [render, List.cons_append, isWild, beq_self_eq_true, Bool.true_or, if_true, hhang]
      | char d =>
          obtain ⟨planted, hplant, hplanted⟩ := plant_isPlanted hrest leaf route position
          have hwild : isWild d = false := hrest.plain d (.head tail)
          have hne : c ≠ d := head_ne_of_shared hshared
          rw [render] at hplant
          refine ⟨.node common none (.push d planted (.cons c _ .nil)) .none, ?_,
            ⟨hplain, by simp, ?_, trivial⟩, (HasMore.branchAtCut hplanted).ofLower common⟩
          · simp only [render, hwild, Bool.false_eq_true, if_false, hplant]
          · refine hbelow.push ?_ (hplanted.label d tail rfl) hplanted.regular
            simpa [Branches.heads] using Ne.symm hne

mutual

/-- A neat list that a regular tree does not hold can be grafted onto it. -/
theorem Tree.graft_hasMore (tree : Tree α) {symbols : List Symbol} (leaf : Leaf α) (position : Nat)
    (route : List Char) (hregular : tree.IsRegular) (hneat : IsNeat symbols)
    (habsent : ∀ last, ¬ tree.Has symbols last) :
    tree.GraftsTo (tree.graft leaf route (render position symbols)) symbols leaf := by
  match tree with
  | .node label old branches wild =>
      cases hshared : shared label (render position symbols) with
      | mk common sides =>
          obtain ⟨left, right⟩ := sides
          obtain ⟨rest, rfl, rfl⟩ := Symbol.eq_chars_append_of_shared hregular.1 hshared
          have hlabel := shared_left label (render position (chars common ++ rest))
          rw [hshared] at hlabel
          simp only at hlabel
          subst hlabel
          cases left with
          | cons c left => exact Tree.graft_cut position route hregular hneat hshared
          | nil =>
              simp only [List.append_nil] at *
              obtain ⟨hplain, hleaf, hbranches, hwild⟩ := hregular
              have hbelow : ∀ last, ¬ Below old branches wild rest last :=
                fun last hhas => habsent last ⟨rest, rfl, hhas⟩
              rw [Tree.GraftsTo, Tree.graft.eq_def]
              simp only [hshared]
              cases rest with
              | nil =>
                  have hends : common.getLast? ≠ some '/' :=
                    IsNeat.chars_getLast? (by simpa using hneat)
                  cases old with
                  | some held => exact absurd (Or.inl ⟨rfl, rfl⟩) (hbelow held)
                  | none =>
                      exact ⟨_, rfl, ⟨hplain, fun _ => hends, hbranches, hwild⟩,
                        HasMore.leafHere.behind common⟩
              | cons symbol tail =>
                  have hrest : IsNeat (symbol :: tail) := IsNeat.suffix _ hneat
                  cases symbol with
                  | param =>
                      have hnobranch : ':' ∉ branches.heads := fun hmem =>
                        absurd (hbranches.isWild_eq_false hmem) (by decide)
                      obtain ⟨changed, hgraft, hchanged, hmore⟩ :=
                        Wild.graft_hasMore wild leaf position route hwild hrest
                          fun last hhas => hbelow last (Or.inr (Or.inr hhas))
                      rw [render, List.cons_append] at hgraft
                      refine ⟨.node common old branches changed, ?_,
                        ⟨hplain, hleaf, hbranches, hchanged⟩, hmore.inWild.behind common⟩
                      have hnone := fun text => Branches.graft?_eq_none leaf route text hnobranch
                      simp only [render, List.cons_append, hnone, isWild, beq_self_eq_true,
                        Bool.true_or, if_true, hgraft]
                  | char d =>
                      have hnotWild : isWild d = false := hrest.plain d (.head tail)
                      by_cases hmem : d ∈ branches.heads
                      · obtain ⟨grown, hgraft, hgrown, hmore, -⟩ :=
                          Branches.graft?_hasMore branches leaf position route hbranches hrest hmem
                            fun last hhas => hbelow last (Or.inr (Or.inl hhas))
                        rw [render] at hgraft
                        refine ⟨.node common old grown wild, ?_, ⟨hplain, hleaf, hgrown, hwild⟩,
                          hmore.inBranches.behind common⟩
                        simp only [render, hgraft]
                      · obtain ⟨planted, hplant, hplanted⟩ := plant_isPlanted hrest leaf route position
                        rw [render] at hplant
                        have hpushed :=
                          hbranches.push hmem (hplanted.label d tail rfl) hplanted.regular
                        have hnone := fun text => Branches.graft?_eq_none leaf route text hmem
                        refine ⟨.node common old (branches.push d planted) wild, ?_,
                          ⟨hplain, hleaf, hpushed, hwild⟩,
                          (HasMore.inPushed hplanted).inBranches.behind common⟩
                        simp only [render, hnone, hnotWild, Bool.false_eq_true, if_false, hplant]

theorem Branches.graft?_hasMore (branches : Branches α) {d : Char} {tail : List Symbol} (leaf : Leaf α)
    (position : Nat) (route : List Char) (hregular : branches.IsRegular)
    (hneat : IsNeat (.char d :: tail)) (hmem : d ∈ branches.heads)
    (habsent : ∀ last, ¬ branches.Has (.char d :: tail) last) :
    ∃ grown, branches.graft? leaf route (render position (.char d :: tail)) = some (grown, none) ∧
      grown.IsRegular ∧ HasMore branches.Has grown.Has (.char d :: tail) leaf ∧
      grown.heads = branches.heads := by
  match branches with
  | .nil => cases hmem
  | .cons first child others =>
      obtain ⟨hlabel, hchild, hfresh, hothers⟩ := hregular
      rw [Branches.graft?.eq_def]
      by_cases heq : d = first
      · subst heq
        obtain ⟨grown, hgraft, hgrown, hmore⟩ := Tree.graft_hasMore child leaf position route
          hchild hneat fun last hhas => habsent last (Or.inl hhas)
        have hkept := Tree.label_graft leaf route (render position (.char d :: tail)) hlabel rfl
        rw [hgraft] at hkept
        refine ⟨.cons d grown others, ?_, ⟨hkept, hgrown, hfresh, hothers⟩, ?_, rfl⟩
        · simp only [render, List.head?_cons, if_true] at hgraft ⊢
          rw [hgraft]
        · intro other last
          rw [Branches.Has, Branches.Has, hmore other last, or_assoc]
      · have hinner : d ∈ others.heads := (List.mem_cons.mp hmem).resolve_left heq
        obtain ⟨grown, hgraft, hgrown, hmore, hheads⟩ := Branches.graft?_hasMore others leaf
          position route hothers hneat hinner fun last hhas => habsent last (Or.inr hhas)
        refine ⟨.cons first child grown, ?_, ⟨hlabel, hchild, hheads ▸ hfresh, hgrown⟩, ?_, ?_⟩
        · simp only [render, List.head?_cons, Option.some.injEq, if_neg heq] at hgraft ⊢
          rw [hgraft]
          rfl
        · intro other last
          rw [Branches.Has, Branches.Has, hmore other last]
          tauto
        · rw [Branches.heads, Branches.heads, hheads]

theorem Wild.graft_hasMore (wild : Wild α) {tail : List Symbol} (leaf : Leaf α) (position : Nat)
    (route : List Char) (hregular : wild.IsRegular) (hneat : IsNeat (.param :: tail))
    (habsent : ∀ last, ¬ wild.Has (.param :: tail) last) :
    ∃ changed, wild.graft leaf route (render position (.param :: tail)) = (changed, none) ∧
      changed.IsRegular ∧ HasMore wild.Has changed.Has (.param :: tail) leaf := by
  match wild with
  | .none =>
      obtain ⟨changed, hhang, hhung⟩ := hang_isHung position hneat leaf route
      refine ⟨changed, ?_, hhung.regular, ?_⟩
      · rw [Wild.graft, hhang]
      · intro other last
        rw [hhung.only other last, Wild.Has, or_false]
  | .segment old =>
      obtain ⟨held, rfl⟩ := Option.isSome_iff_exists.mp hregular
      have hmark := hneat.firstWild?_mark position
      rcases IsNeat.after_param [] hneat with rfl | ⟨tail, rfl⟩
      · exact absurd ⟨rfl, rfl⟩ (habsent held)
      · obtain ⟨planted, hplant, hplanted⟩ :=
          plant_isPlanted hneat.tail leaf route (position + 1)
        have hslash : render (position + 1) (.char '/' :: tail) = '/' :: render (position + 1) tail := rfl
        rw [hslash] at hplant hmark
        refine ⟨.through (some held) planted, ?_,
          ⟨hplanted.label '/' tail rfl, hplanted.regular⟩, .afterSegment hplanted⟩
        rw [Wild.graft, hmark]
        simp only [hplant]
  | .through old next =>
      obtain ⟨hlabel, hnext⟩ := hregular
      have hmark := hneat.firstWild?_mark position
      rcases IsNeat.after_param [] hneat with rfl | ⟨tail, rfl⟩
      · cases old with
        | some held => exact absurd (Or.inl ⟨rfl, rfl⟩) (habsent held)
        | none =>
            refine ⟨.through (some leaf) next, ?_, ⟨hlabel, hnext⟩, .leafBefore⟩
            rw [Wild.graft, hmark]
            rfl
      · have hkept := Tree.label_graft leaf route (render (position + 1) (.char '/' :: tail))
          hlabel rfl
        obtain ⟨grown, hgraft, hgrown, hmore⟩ := Tree.graft_hasMore next leaf (position + 1)
          route hnext hneat.tail fun last hhas => habsent last (Or.inr ⟨_, rfl, hhas⟩)
        rw [hgraft] at hkept
        have hslash : render (position + 1) (.char '/' :: tail) = '/' :: render (position + 1) tail := rfl
        rw [hslash] at hgraft hmark
        refine ⟨.through old grown, ?_, ⟨hkept, hgrown⟩, hmore.inNext⟩
        rw [Wild.graft.eq_def]
        simp only [hmark, hgraft]
  | .remainder _ => exact hregular.elim

end

end ApiGateway.Route
