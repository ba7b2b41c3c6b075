import ApiGateway.Proofs.Route.TreeEntries

/-!
# Which templates a tree takes

Two templates clash if the index cannot hold both: their signs are the same, or behind a common beginning a
remainder of one meets a wildcard of the other.  A tidy tree takes a further template, with its remainder in
place, exactly if it clashes with none of the tree's entries, and stays tidy.
-/

namespace ApiGateway.Route

variable {α : Type} {signs rest : List Sign} {leaf : Leaf α} {refusal : Option Refusal}

open ApiGateway.Route.Sign (read chars ofMark)

/-- The index cannot hold both. -/
def Clash : List Sign → List Sign → Prop
  | [], [] => True
  | .char c :: left, .char d :: right => c = d ∧ Clash left right
  | .param :: left, .param :: right => Clash left right
  | .param :: _, .remainder :: _ => True
  | .remainder :: _, .param :: _ => True
  | .remainder :: _, .remainder :: _ => True
  | _, _ => False

namespace Clash

theorem symm {left right : List Sign} (hclash : Clash left right) : Clash right left := by
  induction left generalizing right with
  | nil => cases right <;> simp_all [Clash]
  | cons sign left ih =>
      cases right with
      | nil => cases sign <;> exact hclash.elim
      | cons other right =>
          cases sign <;> cases other <;> simp_all [Clash]

theorem refl (signs : List Sign) : Clash signs signs := by
  induction signs with
  | nil => trivial
  | cons sign signs ih => cases sign <;> simp_all [Clash]

theorem nil_left {other : List Sign} (hclash : Clash [] other) : other = [] := by
  cases other with
  | nil => rfl
  | cons sign other => exact hclash.elim

/-- What clashes with a wildcard starts with one. -/
theorem wild_left {mark : Char} {left other : List Sign} (hclash : Clash (ofMark mark :: left) other) :
    ∃ right, other = .param :: right ∨ other = .remainder :: right := by
  cases other with
  | nil =>
      rw [ofMark] at hclash
      split at hclash <;> exact hclash.elim
  | cons sign right =>
      cases sign with
      | char d =>
          rw [ofMark] at hclash
          split at hclash <;> exact hclash.elim
      | param => exact ⟨right, Or.inl rfl⟩
      | remainder => exact ⟨right, Or.inr rfl⟩

/-- No wildcard can stand beside a remainder. -/
theorem remainder_right (mark : Char) (left right : List Sign) :
    Clash (ofMark mark :: left) (.remainder :: right) := by
  rw [ofMark]
  split <;> trivial

theorem chars_append (text : List Char) (left right : List Sign) :
    Clash (chars text ++ left) (chars text ++ right) ↔ Clash left right := by
  induction text with
  | nil => rfl
  | cons c text ih => exact (and_iff_right rfl).trans ih

end Clash

/-! ## Remainders -/

/-- Each asterisk starts a segment, which is the last. -/
def RemaindersPlaced (text : List Char) : Prop :=
  ∀ before rest, text = before ++ '*' :: rest →
    (before = [] ∨ before.getLast? = some '/') ∧ '/' ∉ rest

/-- It is enough to look at every place of the text. -/
theorem remaindersPlaced_iff {text : List Char} : RemaindersPlaced text ↔
    ∀ n < text.length, text[n]? = some '*' →
      (text.take n = [] ∨ (text.take n).getLast? = some '/') ∧ '/' ∉ text.drop (n + 1) := by
  constructor
  · intro hplaced n hn hmark
    rw [List.getElem?_eq_getElem hn, Option.some.injEq] at hmark
    refine hplaced _ _ ?_
    rw [← hmark, ← List.drop_eq_getElem_cons hn, List.take_append_drop]
  · rintro hplaces before rest rfl
    have hplace := hplaces before.length (by simp) (by simp)
    rwa [List.take_left, ← List.drop_drop, List.drop_left] at hplace

instance : DecidablePred RemaindersPlaced := fun _ => decidable_of_iff _ remaindersPlaced_iff.symm

theorem RemaindersPlaced.suffix {left right : List Char} (hplaced : RemaindersPlaced (left ++ right)) :
    RemaindersPlaced right := by
  rintro before rest rfl
  obtain ⟨hbefore, hrest⟩ := hplaced (left ++ before) rest (by rw [List.append_assoc])
  refine ⟨?_, hrest⟩
  cases before with
  | nil => exact Or.inl rfl
  | cons c before =>
      rw [List.getLast?_append_of_ne_nil left (List.cons_ne_nil c before)] at hbefore
      exact Or.inr (hbefore.resolve_left (by simp))

/-- Behind a wildcard, too, the remainders are in place. -/
theorem RemaindersPlaced.after (before : List Char) {rest name after : List Char} {mark : Char}
    (hplaced : RemaindersPlaced (before ++ mark :: rest)) (hend : segmentEnd rest = (name, after)) :
    RemaindersPlaced after := by
  rw [eq_append_of_segmentEnd hend, List.append_cons, ← List.append_assoc] at hplaced
  exact hplaced.suffix

/-- Nothing follows a remainder in place. -/
theorem segmentEnd_of_not_mem {text : List Char} (hslash : '/' ∉ text) : (segmentEnd text).2 = [] := by
  rcases (segmentEnd_cases text).2 with hnil | ⟨rest, hrest⟩
  · exact hnil
  · rw [← segmentEnd_append text, hrest] at hslash
    simp at hslash

/-! ## Tidy trees -/

mutual

/-- Branches differ in their first characters, and behind each parameter that goes on there are entries,
which start with a slash. -/
def Tree.IsTidy : Tree α → Prop
  | .node _ _ branches wild => branches.IsTidy ∧ wild.IsTidy

def Branches.IsTidy : Branches α → Prop
  | .nil => True
  | .cons first child rest =>
    child.label.head? = some first ∧ child.IsTidy ∧ first ∉ rest.heads ∧ rest.IsTidy

def Wild.IsTidy : Wild α → Prop
  | .none | .remainder _ => True
  | .segment leaf => leaf.isSome
  | .through _ next =>
    next.label.head? = some '/' ∧ (∃ signs leaf, next.HasEntry signs leaf) ∧ next.IsTidy

end

theorem Branches.isTidy_push {branches : Branches α} {first : Char} {child : Tree α}
    (htidy : branches.IsTidy) (habsent : first ∉ branches.heads)
    (hlabel : child.label.head? = some first) (hchild : child.IsTidy) :
    (branches.push first child).IsTidy := by
  match branches with
  | .nil => exact ⟨hlabel, hchild, by simp [Branches.heads], trivial⟩
  | .cons head tree rest =>
      obtain ⟨hhead, htree, hfresh, hrest⟩ := htidy
      rw [Branches.heads, List.mem_cons, not_or] at habsent
      refine ⟨hhead, htree, ?_, Branches.isTidy_push hrest habsent.2 hlabel hchild⟩
      rw [Branches.heads_push, List.mem_append, List.mem_singleton, not_or]
      exact ⟨hfresh, Ne.symm habsent.1⟩

theorem Tree.HasEntry.head {tree : Tree α} {first : Char} (hentry : tree.HasEntry signs leaf)
    (hlabel : tree.label.head? = some first) : ∃ tail, signs = .char first :: tail := by
  cases tree with
  | node label old branches wild =>
      obtain ⟨tail, rfl, -⟩ := hentry
      cases label with
      | nil => cases hlabel
      | cons c label =>
          cases hlabel
          exact ⟨chars label ++ tail, rfl⟩

theorem Branches.HasEntry.head {branches : Branches α} (hentry : branches.HasEntry signs leaf)
    (htidy : branches.IsTidy) : ∃ first ∈ branches.heads, ∃ tail, signs = .char first :: tail := by
  match branches with
  | .nil => exact hentry.elim
  | .cons first child others =>
      rcases hentry with hchild | hothers
      · exact ⟨first, .head _, hchild.head htidy.1⟩
      · obtain ⟨other, hmem, htail⟩ := Branches.HasEntry.head hothers htidy.2.2.2
        exact ⟨other, .tail first hmem, htail⟩

theorem Wild.HasEntry.head {wild : Wild α} (hentry : wild.HasEntry signs leaf) :
    ∃ tail, signs = .param :: tail ∨ signs = .remainder :: tail := by
  match wild with
  | .none => exact hentry.elim
  | .segment _ => exact ⟨[], Or.inl hentry.1⟩
  | .through _ _ =>
      rcases hentry with ⟨heq, -⟩ | ⟨tail, heq, -⟩
      · exact ⟨[], Or.inl heq⟩
      · exact ⟨tail, Or.inl heq⟩
  | .remainder _ => exact ⟨[], Or.inr hentry.1⟩

/-- What can be planted has an entry, and starts as its text does. -/
theorem plant_next {text : List Char} {c : Char} (leaf : Leaf α) (route : List Char)
    (hplain : isWild c = false) (htext : text.head? = some c)
    (htaken : (plant leaf none route text).2 = none) :
    (plant leaf none route text).1.label.head? = some c ∧
      ∃ signs last, (plant leaf none route text).1.HasEntry signs last := by
  obtain ⟨-, hgains⟩ := plant_gains leaf route text
  have hentry := (hgains (read text) leaf).mpr (Or.inl ⟨htaken, rfl, rfl⟩)
  refine ⟨(plant_label leaf route hplain htext).resolve_left fun hempty => ?_, _, _, hentry⟩
  rw [hempty, Tree.hasEntry_empty] at hentry
  exact hentry

/-- What goes on behind a wildcard starts with a slash. -/
theorem head?_of_segmentEnd {text name after : List Char} (hend : segmentEnd text = (name, after))
    (hafter : after ≠ []) : after.head? = some '/' := by
  obtain ⟨rest, hrest⟩ := (segmentEnd_cases text).2.resolve_left (by rw [hend]; exact hafter)
  rw [hend] at hrest
  exact congrArg List.head? hrest

/-- A template whose remainder is in place can be planted, and the tree is tidy. -/
theorem plant_settles {text : List Char} (leaf : Leaf α) {route : List Char}
    (hroute : route.head? = some '/') (hplaced : RemaindersPlaced text) :
    (plant leaf none route text).2 = none ∧ (plant leaf none route text).1.IsTidy := by
  rw [plant]
  split
  · exact ⟨rfl, trivial, trivial⟩
  · next before mark name after hsome =>
    obtain ⟨-, hwild, tail, rfl, hend⟩ := firstWild?_eq_some hsome
    split
    · split
      · exact ⟨rfl, trivial, rfl⟩
      · next hafter =>
        obtain ⟨htaken, htidy⟩ := plant_settles leaf hroute (hplaced.after before hend)
        obtain ⟨hlabel, hentry⟩ := plant_next leaf route rfl (head?_of_segmentEnd hend hafter) htaken
        exact ⟨htaken, trivial, hlabel, hentry, htidy⟩
    · next hne =>
      obtain rfl : mark = '*' := (eq_of_isWild hwild).resolve_left hne
      obtain ⟨hbefore, hslash⟩ := hplaced before tail rfl
      have hafter : after = [] := by rw [← segmentEnd_of_not_mem hslash, hend]
      rw [if_pos ⟨hafter, hbefore, fun hopen => hopen.2 hroute⟩]
      exact ⟨rfl, trivial, trivial⟩
termination_by text.length
decreasing_by exact firstWild?_length (by assumption)

theorem hang_settles {mark : Char} {text : List Char} (leaf : Leaf α) {route : List Char}
    (hmark : isWild mark = true) (hroute : route.head? = some '/')
    (hplaced : RemaindersPlaced (mark :: text)) :
    (hang leaf route (mark :: text)).2 = none ∧ (hang leaf route (mark :: text)).1.IsTidy := by
  rw [hang, firstWild?_cons_of_wild hmark]
  cases hend : segmentEnd text with
  | mk name after =>
      simp only
      split
      · split
        · exact ⟨rfl, rfl⟩
        · next hafter =>
          obtain ⟨htaken, htidy⟩ :=
            plant_settles leaf hroute (RemaindersPlaced.after [] hplaced hend)
          obtain ⟨hlabel, hentry⟩ := plant_next leaf route rfl (head?_of_segmentEnd hend hafter) htaken
          exact ⟨htaken, hlabel, hentry, htidy⟩
      · next hne =>
        obtain rfl : mark = '*' := (eq_of_isWild hmark).resolve_left hne
        have hafter : after = [] := by rw [← segmentEnd_of_not_mem (hplaced [] text rfl).2, hend]
        rw [if_pos ⟨hafter, fun hopen => hopen.2 hroute⟩]
        exact ⟨rfl, trivial⟩

/-! ## Grafting -/

inductive Decides (entry : List Sign → Leaf α → Prop) : Option Refusal → List Sign → Prop where
  | taken {signs : List Sign} (hclear : ∀ other last, entry other last → ¬ Clash signs other) :
      Decides entry none signs
  | refused {signs other : List Sign} {last : Leaf α} (hentry : entry other last)
      (hclash : Clash signs other) : Decides entry (some .conflict) signs

namespace Decides

variable {entry wide : List Sign → Leaf α → Prop} {here : Option (Leaf α)} {branches : Branches α}
  {wild : Wild α} {next : Tree α} {c : Char}

/-- More entries make no difference unless they clash. -/
theorem extend (hdecides : Decides entry refusal signs)
    (hsub : ∀ other last, entry other last → wide other last)
    (hrest : ∀ other last, wide other last → Clash signs other → entry other last) :
    Decides wide refusal signs := by
  cases hdecides with
  | taken hclear =>
      refine .taken fun other last hother hclash => ?_
      exact hclear other last (hrest other last hother hclash) hclash
  | refused hentry hclash => exact .refused (hsub _ _ hentry) hclash

theorem behind (text : List Char) (hdecides : Decides entry refusal rest) :
    Decides (Behind text entry) refusal (chars text ++ rest) := by
  cases hdecides with
  | taken hclear =>
      refine .taken ?_
      rintro other last ⟨tail, rfl, htail⟩ hclash
      exact hclear tail last htail ((Clash.chars_append text rest tail).mp hclash)
  | refused hentry hclash =>
      exact .refused ⟨_, rfl, hentry⟩ ((Clash.chars_append text rest _).mpr hclash)

/-- Literal text can clash only in a branch. -/
theorem inBranches (hdecides : Decides branches.HasEntry refusal (.char c :: rest)) :
    Decides (Within here branches wild) refusal (.char c :: rest) := by
  refine hdecides.extend (fun other last hother => Or.inr (Or.inl hother)) ?_
  rintro other last (⟨rfl, -⟩ | hbranch | hwild) hclash
  · exact hclash.elim
  · exact hbranch
  · obtain ⟨tail, rfl | rfl⟩ := hwild.head <;> exact hclash.elim

/-- A wildcard can clash only with the wildcard that is there. -/
theorem inWild {mark : Char} (htidy : branches.IsTidy)
    (hdecides : Decides wild.HasEntry refusal (ofMark mark :: rest)) :
    Decides (Within here branches wild) refusal (ofMark mark :: rest) := by
  refine hdecides.extend (fun other last hother => Or.inr (Or.inr hother)) ?_
  rintro other last (⟨rfl, -⟩ | hbranch | hwild) hclash
  · cases hclash.symm.nil_left
  · obtain ⟨first, -, tail, rfl⟩ := hbranch.head htidy
    obtain ⟨right, heq | heq⟩ := hclash.wild_left <;> cases heq
  · exact hwild

/-- A literal text that no branch starts with is taken. -/
theorem newBranch (htidy : branches.IsTidy) (habsent : c ∉ branches.heads) :
    Decides branches.HasEntry none (.char c :: rest) := by
  refine .taken fun other last hother hclash => ?_
  obtain ⟨first, hmem, tail, rfl⟩ := hother.head htidy
  exact habsent (hclash.1 ▸ hmem)

/-- A text is decided in the branch that it starts like. -/
theorem inChild {child : Tree α} (htidy : branches.IsTidy) (habsent : c ∉ branches.heads)
    (hdecides : Decides child.HasEntry refusal (.char c :: rest)) :
    Decides (Branches.cons c child branches).HasEntry refusal (.char c :: rest) := by
  refine hdecides.extend (fun other last hother => Or.inl hother) ?_
  rintro other last (hchild | hother) hclash
  · exact hchild
  · obtain ⟨first, hmem, tail, rfl⟩ := hother.head htidy
    exact absurd (hclash.1 ▸ hmem) habsent

theorem inOthers {child : Tree α} {first : Char} (hlabel : child.label.head? = some first)
    (hne : first ≠ c) (hdecides : Decides branches.HasEntry refusal (.char c :: rest)) :
    Decides (Branches.cons first child branches).HasEntry refusal (.char c :: rest) := by
  refine hdecides.extend (fun other last hother => Or.inr hother) ?_
  rintro other last (hchild | hother) hclash
  · obtain ⟨tail, rfl⟩ := hchild.head hlabel
    exact absurd hclash.1.symm hne
  · exact hother

/-- Where a template ends, it clashes only with another that ends there. -/
theorem leafHere (htidy : branches.IsTidy) : Decides (Within none branches wild) none [] := by
  refine .taken ?_
  rintro other last (⟨-, hheld⟩ | hbranch | hwild) hclash
  · cases hheld
  · obtain ⟨first, -, tail, rfl⟩ := hbranch.head htidy
    exact hclash
  · obtain ⟨tail, rfl | rfl⟩ := hwild.head <;> exact hclash

/-- A parameter that goes on clashes with none that ends here. -/
theorem afterSegment : Decides (Wild.segment here).HasEntry none (.param :: .char c :: rest) := by
  refine .taken ?_
  rintro other last ⟨rfl, -⟩ hclash
  exact hclash

/-- A parameter that ends clashes with none that goes on. -/
theorem leafBefore (hlabel : next.label.head? = some c) :
    Decides (Wild.through none next).HasEntry none [.param] := by
  refine .taken ?_
  rintro other last (⟨-, hheld⟩ | ⟨tail, rfl, htail⟩) hclash
  · cases hheld
  · obtain ⟨tail, rfl⟩ := htail.head hlabel
    exact hclash

theorem inNext (hdecides : Decides next.HasEntry refusal (.char c :: rest)) :
    Decides (Wild.through here next).HasEntry refusal (.param :: .char c :: rest) := by
  cases hdecides with
  | taken hclear =>
      refine .taken ?_
      rintro other last (⟨rfl, -⟩ | ⟨tail, rfl, htail⟩) hclash
      · exact hclash
      · exact hclear tail last htail hclash
  | refused hentry hclash => exact .refused (Or.inr ⟨_, rfl, hentry⟩) hclash

end Decides

/-- A tree stays tidy, and takes the template exactly if it clashes with no entry. -/
def Tree.Settles (tree : Tree α) (result : Grown α) (text : List Char) : Prop :=
  result.1.IsTidy ∧ Decides tree.HasEntry result.2 (read text)

/-- A template that parts from the text of a node is taken. -/
theorem Tree.graft_cut_settles {common left right : List Char} {c : Char} {old : Option (Leaf α)}
    {branches : Branches α} {wild : Wild α} (leaf : Leaf α) {route : List Char}
    (hroute : route.head? = some '/')
    (hplain : (Tree.node (common ++ c :: left) old branches wild).IsPlain)
    (htidy : (Tree.node (common ++ c :: left) old branches wild).IsTidy)
    (hplaced : RemaindersPlaced (common ++ right))
    (hshared : shared (common ++ c :: left) (common ++ right) = (common, c :: left, right)) :
    (Tree.node (common ++ c :: left) old branches wild).Settles
      ((Tree.node (common ++ c :: left) old branches wild).graft leaf route (common ++ right))
      (common ++ right) := by
  have hcommon : ∀ d ∈ common, isWild d = false := fun d hd =>
    hplain.1 d (List.mem_append_left _ hd)
  have hlower : (Branches.cons c (.node (c :: left) old branches wild) .nil).IsTidy :=
    ⟨rfl, htidy, List.not_mem_nil, trivial⟩
  rw [Tree.Settles, Sign.read_append hcommon, Tree.hasEntry_cut, Tree.graft.eq_def]
  simp only [hshared]
  cases right with
  | nil =>
      rw [Sign.read_nil]
      exact ⟨⟨hlower, trivial⟩, (Decides.leafHere hlower).behind common⟩
  | cons d right =>
      simp only
      split
      · next hmark =>
        obtain ⟨htaken, hhung⟩ := hang_settles leaf hmark hroute hplaced.suffix
        rw [htaken, Sign.read_cons_of_wild hmark]
        have hnone : Decides (Wild.none : Wild α).HasEntry none (ofMark d :: read (segmentEnd right).2) :=
          .taken fun _ _ hother => hother.elim
        exact ⟨⟨hlower, hhung⟩, (hnone.inWild hlower).behind common⟩
      · next hmark =>
        have hmark : isWild d = false := Bool.eq_false_iff.mpr hmark
        have habsent : d ∉ (Branches.cons c (.node (c :: left) old branches wild) .nil).heads := by
          simpa [Branches.heads] using (head_ne_of_shared hshared).symm
        obtain ⟨htaken, hplanted⟩ := plant_settles leaf hroute hplaced.suffix
        obtain ⟨hlabel, -⟩ := plant_next leaf route hmark rfl htaken
        rw [htaken, Sign.read_cons_of_plain hmark]
        exact ⟨⟨Branches.isTidy_push hlower habsent hlabel hplanted, trivial⟩,
          (Decides.newBranch hlower habsent).inBranches.behind common⟩

/-- The branches are left alone by a text that starts like none of them. -/
theorem Branches.not_mem_heads_of_graft? {branches : Branches α} {d : Char} {text route : List Char}
    (hnone : branches.graft? leaf route (d :: text) = none) : d ∉ branches.heads := by
  match branches with
  | .nil => exact List.not_mem_nil
  | .cons first child others =>
      rw [Branches.graft?] at hnone
      split at hnone
      · cases hnone
      · next hne =>
        rw [Option.map_eq_none_iff] at hnone
        rw [Branches.heads, List.mem_cons, not_or]
        exact ⟨fun heq => hne (by rw [heq]; rfl), Branches.not_mem_heads_of_graft? hnone⟩

theorem Tree.IsPlain.isWild_eq_false {tree : Tree α} {first : Char} (hplain : tree.IsPlain)
    (hlabel : tree.label.head? = some first) : isWild first = false := by
  cases tree with
  | node label old branches wild => exact hplain.1 first (List.mem_of_mem_head? hlabel)

mutual

/-- A tidy tree takes a template exactly if it clashes with none of its entries. -/
theorem Tree.graft_settles (tree : Tree α) (leaf : Leaf α) {route : List Char}
    (hroute : route.head? = some '/') (text : List Char) (hplain : tree.IsPlain) (htidy : tree.IsTidy)
    (hplaced : RemaindersPlaced text) : tree.Settles (tree.graft leaf route text) text := by
  match tree with
  | .node label old branches wild =>
      cases hshared : shared label text with
      | mk common sides =>
          obtain ⟨left, right⟩ := sides
          have hleft := shared_left label text
          have hright := shared_right label text
          simp only [hshared] at hleft hright
          subst hleft hright
          cases left with
          | cons c left => exact Tree.graft_cut_settles leaf hroute hplain htidy hplaced hshared
          | nil =>
              obtain ⟨hlabel, hplainBranches, hplainWild⟩ := hplain
              obtain ⟨hbranches, hwild⟩ := htidy
              simp only [List.append_nil] at *
              rw [Tree.Settles, Sign.read_append hlabel, Tree.graft.eq_def]
              simp only [hshared, Tree.hasEntry_node]
              cases right with
              | nil =>
                  rw [Sign.read_nil]
                  cases old with
                  | some held =>
                      have hheld : Within (some held) branches wild [] held := Or.inl ⟨rfl, rfl⟩
                      exact ⟨⟨hbranches, hwild⟩, (Decides.refused hheld (.refl [])).behind common⟩
                  | none => exact ⟨⟨hbranches, hwild⟩, (Decides.leafHere hbranches).behind common⟩
              | cons d right =>
                  simp only
                  cases hgraft : branches.graft? leaf route (d :: right) with
                  | some result =>
                      obtain ⟨grown, refusal⟩ := result
                      obtain ⟨hgrown, hmark, hdecides⟩ := Branches.graft?_settles branches leaf hroute
                        hplainBranches hbranches hplaced.suffix hgraft
                      rw [Sign.read_cons_of_plain hmark] at hdecides ⊢
                      exact ⟨⟨hgrown.1, hwild⟩, hdecides.inBranches.behind common⟩
                  | none =>
                      simp only
                      split
                      · next hmark =>
                        obtain ⟨hchanged, hdecides⟩ :=
                          Wild.graft_settles wild leaf hroute hmark right hplainWild hwild hplaced.suffix
                        rw [Sign.read_cons_of_wild hmark] at hdecides ⊢
                        exact ⟨⟨hbranches, hchanged⟩, (hdecides.inWild hbranches).behind common⟩
                      · next hmark =>
                        have hmark : isWild d = false := Bool.eq_false_iff.mpr hmark
                        have habsent := Branches.not_mem_heads_of_graft? hgraft
                        obtain ⟨htaken, hplanted⟩ := plant_settles leaf hroute hplaced.suffix
                        obtain ⟨hstart, -⟩ := plant_next leaf route hmark rfl htaken
                        rw [htaken, Sign.read_cons_of_plain hmark]
                        exact ⟨⟨Branches.isTidy_push hbranches habsent hstart hplanted, hwild⟩,
                          (Decides.newBranch hbranches habsent).inBranches.behind common⟩

theorem Branches.graft?_settles (branches : Branches α) (leaf : Leaf α) {route : List Char}
    (hroute : route.head? = some '/') {d : Char} {text : List Char} (hplain : branches.IsPlain)
    (htidy : branches.IsTidy) (hplaced : RemaindersPlaced (d :: text)) {grown : Branches α}
    {refusal : Option Refusal}
    (hgraft : branches.graft? leaf route (d :: text) = some (grown, refusal)) :
    (grown.IsTidy ∧ grown.heads = branches.heads) ∧ isWild d = false ∧
      Decides branches.HasEntry refusal (read (d :: text)) := by
  match branches with
  | .nil => cases hgraft
  | .cons first child others =>
      obtain ⟨hlabel, hchild, habsent, hothers⟩ := htidy
      rw [Branches.graft?.eq_def] at hgraft
      simp only at hgraft
      split at hgraft
      · next hhead =>
        cases hhead
        cases hgraft
        obtain ⟨hgrown, hdecides⟩ :=
          Tree.graft_settles child leaf hroute (d :: text) hplain.1 hchild hplaced
        have hmark := hplain.1.isWild_eq_false hlabel
        rw [Sign.read_cons_of_plain hmark] at hdecides ⊢
        exact ⟨⟨⟨Tree.label_graft leaf route _ hlabel rfl, hgrown, habsent, hothers⟩, rfl⟩, hmark,
          hdecides.inChild hothers habsent⟩
      · next hhead =>
        obtain ⟨⟨inner, reason⟩, hinner, heq⟩ := Option.map_eq_some_iff.mp hgraft
        cases heq
        obtain ⟨⟨hgrown, hheads⟩, hmark, hdecides⟩ :=
          Branches.graft?_settles others leaf hroute hplain.2 hothers hplaced hinner
        have hne : first ≠ d := fun heq => hhead (by rw [heq]; rfl)
        rw [Sign.read_cons_of_plain hmark] at hdecides ⊢
        rw [Branches.heads, Branches.heads, hheads]
        exact ⟨⟨⟨hlabel, hchild, hheads ▸ habsent, hgrown⟩, rfl⟩, hmark,
          hdecides.inOthers hlabel hne⟩

theorem Wild.graft_settles (wild : Wild α) (leaf : Leaf α) {route : List Char}
    (hroute : route.head? = some '/') {mark : Char} (hmark : isWild mark = true) (text : List Char)
    (hplain : wild.IsPlain) (htidy : wild.IsTidy) (hplaced : RemaindersPlaced (mark :: text)) :
    (wild.graft leaf route (mark :: text)).1.IsTidy ∧
      Decides wild.HasEntry (wild.graft leaf route (mark :: text)).2 (read (mark :: text)) := by
  match wild with
  | .none =>
      rw [Wild.graft.eq_def]
      obtain ⟨htaken, hhung⟩ := hang_settles leaf hmark hroute hplaced
      rw [htaken]
      exact ⟨hhung, .taken fun _ _ hother => hother.elim⟩
  | .remainder last =>
      rw [Wild.graft.eq_def, Sign.read_cons_of_wild hmark]
      have hlast : (Wild.remainder last).HasEntry [.remainder] last := ⟨rfl, rfl⟩
      exact ⟨trivial, .refused hlast (.remainder_right mark _ [])⟩
  | .segment old =>
      obtain ⟨held, rfl⟩ := Option.isSome_iff_exists.mp htidy
      have hheld : (Wild.segment (some held)).HasEntry [.param] held := ⟨rfl, rfl⟩
      rw [Wild.graft.eq_def, Sign.read_cons_of_wild hmark]
      simp only [firstWild?_cons_of_wild hmark]
      cases hend : segmentEnd text with
      | mk name after =>
          rcases eq_of_isWild hmark with rfl | rfl
          · cases after with
            | nil =>
                rw [Sign.read_nil]
                exact ⟨htidy, .refused hheld (.refl [.param])⟩
            | cons c after =>
                cases head?_of_segmentEnd hend (List.cons_ne_nil c after)
                obtain ⟨htaken, hnext⟩ :=
                  plant_settles leaf hroute (RemaindersPlaced.after [] hplaced hend)
                obtain ⟨hlabel, hentry⟩ := plant_next leaf route rfl rfl htaken
                rw [Sign.read_cons_of_plain rfl]
                simp only [htaken]
                exact ⟨⟨hlabel, hentry, hnext⟩, .afterSegment⟩
          · exact ⟨htidy, .refused hheld trivial⟩
  | .through old next =>
      obtain ⟨hlabel, ⟨signs, held, hentry⟩, hnext⟩ := htidy
      rw [Wild.graft.eq_def, Sign.read_cons_of_wild hmark]
      simp only [firstWild?_cons_of_wild hmark]
      cases hend : segmentEnd text with
      | mk name after =>
          rcases eq_of_isWild hmark with rfl | rfl
          · cases after with
            | nil =>
                rw [Sign.read_nil]
                cases old with
                | none => exact ⟨⟨hlabel, ⟨signs, held, hentry⟩, hnext⟩, .leafBefore hlabel⟩
                | some last =>
                    have hlast : (Wild.through (some last) next).HasEntry [.param] last :=
                      Or.inl ⟨rfl, rfl⟩
                    exact ⟨⟨hlabel, ⟨signs, held, hentry⟩, hnext⟩, .refused hlast (.refl [.param])⟩
            | cons c after =>
                cases head?_of_segmentEnd hend (List.cons_ne_nil c after)
                obtain ⟨hgrown, hdecides⟩ := Tree.graft_settles next leaf hroute ('/' :: after) hplain
                  hnext (RemaindersPlaced.after [] hplaced hend)
                obtain ⟨-, hgains⟩ := Tree.graft_gains next leaf route ('/' :: after) hplain
                rw [Sign.read_cons_of_plain rfl] at hdecides ⊢
                exact ⟨⟨Tree.label_graft leaf route _ hlabel rfl,
                  ⟨signs, held, (hgains signs held).mpr (Or.inr hentry)⟩, hgrown⟩, hdecides.inNext⟩
          · have hthrough : (Wild.through old next).HasEntry (.param :: signs) held :=
              Or.inr ⟨signs, rfl, hentry⟩
            exact ⟨⟨hlabel, ⟨signs, held, hentry⟩, hnext⟩, .refused hthrough trivial⟩

end

/-- A whole tree takes a template whose wildcards are named and in place exactly if it clashes with none of
the tree's entries, and stays tidy. -/
theorem Tree.IsGrounded.insert_settles {tree : Tree α} (hground : tree.IsGrounded) (htidy : tree.IsTidy)
    {text : List Char} {names : List (List Char)} (value : α) (htext : text.head? = some '/')
    (hplaced : RemaindersPlaced text) (hnames : parameterNames text 0 = .ok names) :
    tree.Settles (tree.insert text value) text := by
  rcases hground.open_or_slash with rfl | hlabel
  · rw [Tree.insert_empty value hnames, Tree.Settles, Tree.hasEntry_empty]
    obtain ⟨htaken, hplanted⟩ := plant_settles ⟨names, value⟩ htext hplaced
    rw [htaken]
    exact ⟨hplanted, .taken fun _ _ hother => hother.elim⟩
  · rw [Tree.insert_of_slash value hlabel hnames]
    exact tree.graft_settles ⟨names, value⟩ htext text hground.plain htidy hplaced

end ApiGateway.Route
