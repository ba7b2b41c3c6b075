import ApiGateway.Proofs.Route.Reading
import ApiGateway.Proofs.Route.TreeGrowth

/-!
# The entries of any tree

Whatever has been added to a tree, and also where an addition was refused half way, the tree has one entry
for each template that was taken, under the signs that are read from its text.  A search finds only
entries whose signs spell out the path.
-/

namespace ApiGateway.Route

variable {α : Type} {signs rest : List Sign} {leaf : Leaf α} {refusal : Option Refusal}

open ApiGateway.Route.Sign (read chars Spells)

mutual

def Tree.HasEntry : Tree α → List Sign → Leaf α → Prop
  | .node label leaf branches wild, signs, last =>
    ∃ rest, signs = Sign.chars label ++ rest ∧
      ((rest = [] ∧ leaf = some last) ∨ branches.HasEntry rest last ∨ wild.HasEntry rest last)

def Branches.HasEntry : Branches α → List Sign → Leaf α → Prop
  | .nil, _, _ => False
  | .cons _ child rest, signs, last => child.HasEntry signs last ∨ rest.HasEntry signs last

def Wild.HasEntry : Wild α → List Sign → Leaf α → Prop
  | .none, _, _ => False
  | .segment leaf, signs, last => signs = [.param] ∧ leaf = some last
  | .through leaf next, signs, last =>
    (signs = [.param] ∧ leaf = some last) ∨ ∃ rest, signs = .param :: rest ∧ next.HasEntry rest last
  | .remainder leaf, signs, last => signs = [.remainder] ∧ leaf = last

end

mutual

def Tree.IsPlain : Tree α → Prop
  | .node label _ branches wild =>
    (∀ c ∈ label, isWild c = false) ∧ branches.IsPlain ∧ wild.IsPlain

def Branches.IsPlain : Branches α → Prop
  | .nil => True
  | .cons _ child rest => child.IsPlain ∧ rest.IsPlain

def Wild.IsPlain : Wild α → Prop
  | .none | .segment _ | .remainder _ => True
  | .through _ next => next.IsPlain

end

/-- What was there before, and the new entry unless it was refused. -/
def Gains (old new : List Sign → Leaf α → Prop) (refusal : Option Refusal) (signs : List Sign)
    (leaf : Leaf α) : Prop :=
  ∀ other last, new other last ↔ (refusal = none ∧ other = signs ∧ last = leaf) ∨ old other last

def NoEntry (_ : List Sign) (_ : Leaf α) : Prop :=
  False

def Behind (text : List Char) (entry : List Sign → Leaf α → Prop) (signs : List Sign) (last : Leaf α) :
    Prop :=
  ∃ rest, signs = chars text ++ rest ∧ entry rest last

/-- What there is in a node, less its own text. -/
def Within (leaf : Option (Leaf α)) (branches : Branches α) (wild : Wild α) (rest : List Sign)
    (last : Leaf α) : Prop :=
  (rest = [] ∧ leaf = some last) ∨ branches.HasEntry rest last ∨ wild.HasEntry rest last

theorem Tree.hasEntry_node {label : List Char} {leaf : Option (Leaf α)} {branches : Branches α}
    {wild : Wild α} :
    (Tree.node label leaf branches wild).HasEntry = Behind label (Within leaf branches wild) := by
  funext signs last
  rfl

/-! ## How entries change -/

namespace Gains

variable {old new : List Sign → Leaf α → Prop} {here : Option (Leaf α)} {branches grown : Branches α}
  {wild changed : Wild α} {child next : Tree α} {c : Char}

/-- Nothing changes where an addition is refused. -/
theorem refused (reason : Refusal) (signs : List Sign) (leaf : Leaf α) :
    Gains old old (some reason) signs leaf := by
  simp [Gains]

/-- It does not matter how what was there before is told. -/
theorem congr {other : List Sign → Leaf α → Prop} (hgains : Gains old new refusal rest leaf)
    (hsame : ∀ signs last, other signs last ↔ old signs last) : Gains other new refusal rest leaf := by
  intro signs last
  rw [hgains signs last, hsame signs last]

theorem behind (text : List Char) (hgains : Gains old new refusal rest leaf) :
    Gains (Behind text old) (Behind text new) refusal (chars text ++ rest) leaf := by
  intro other last
  constructor
  · rintro ⟨tail, rfl, hnew⟩
    rcases (hgains tail last).mp hnew with ⟨hnone, rfl, rfl⟩ | hold
    · exact Or.inl ⟨hnone, rfl, rfl⟩
    · exact Or.inr ⟨tail, rfl, hold⟩
  · rintro (⟨hnone, rfl, rfl⟩ | ⟨tail, rfl, hold⟩)
    · exact ⟨rest, rfl, (hgains rest last).mpr (Or.inl ⟨hnone, rfl, rfl⟩)⟩
    · exact ⟨tail, rfl, (hgains tail last).mpr (Or.inr hold)⟩

theorem leafHere : Gains (Within none branches wild) (Within (some leaf) branches wild) none [] leaf := by
  intro other last
  simp only [Within, Option.some.injEq, reduceCtorEq, and_false, false_or, true_and,
    eq_comm (a := leaf)]

theorem inBranches (hgains : Gains branches.HasEntry grown.HasEntry refusal rest leaf) :
    Gains (Within here branches wild) (Within here grown wild) refusal rest leaf := by
  intro other last
  rw [Within, Within, hgains other last]
  tauto

theorem inWild (hgains : Gains wild.HasEntry changed.HasEntry refusal rest leaf) :
    Gains (Within here branches wild) (Within here branches changed) refusal rest leaf := by
  intro other last
  rw [Within, Within, hgains other last]
  tauto

/-- A parameter that ended here goes on. -/
theorem afterSegment (hgains : Gains NoEntry child.HasEntry refusal rest leaf) :
    Gains (Wild.segment here).HasEntry (Wild.through here child).HasEntry refusal (.param :: rest) leaf := by
  intro other last
  rw [Wild.HasEntry, Wild.HasEntry]
  constructor
  · rintro (hheld | ⟨tail, rfl, hentry⟩)
    · exact Or.inr hheld
    · obtain ⟨hnone, rfl, rfl⟩ := ((hgains tail last).mp hentry).resolve_right not_false
      exact Or.inl ⟨hnone, rfl, rfl⟩
  · rintro (⟨hnone, rfl, rfl⟩ | hheld)
    · exact Or.inr ⟨_, rfl, (hgains _ _).mpr (Or.inl ⟨hnone, rfl, rfl⟩)⟩
    · exact Or.inl hheld

/-- A parameter ends where none did. -/
theorem leafAtSegment :
    Gains (Wild.segment none).HasEntry (Wild.segment (some leaf)).HasEntry none [.param] leaf := by
  intro other last
  simp only [Wild.HasEntry, Option.some.injEq, reduceCtorEq, and_false, or_false, true_and,
    eq_comm (a := leaf)]

/-- A parameter that went on ends here as well. -/
theorem leafBefore :
    Gains (Wild.through none child).HasEntry (Wild.through (some leaf) child).HasEntry none [.param]
      leaf := by
  intro other last
  simp only [Wild.HasEntry, Option.some.injEq, reduceCtorEq, and_false, false_or, true_and,
    eq_comm (a := leaf)]

theorem inNext (hgains : Gains child.HasEntry next.HasEntry refusal rest leaf) :
    Gains (Wild.through here child).HasEntry (Wild.through here next).HasEntry refusal (.param :: rest)
      leaf := by
  intro other last
  rw [Wild.HasEntry, Wild.HasEntry]
  constructor
  · rintro (hheld | ⟨tail, rfl, hentry⟩)
    · exact Or.inr (Or.inl hheld)
    · rcases (hgains tail last).mp hentry with ⟨hnone, rfl, rfl⟩ | hold
      · exact Or.inl ⟨hnone, rfl, rfl⟩
      · exact Or.inr (Or.inr ⟨tail, rfl, hold⟩)
  · rintro (⟨hnone, rfl, rfl⟩ | hheld | ⟨tail, rfl, hold⟩)
    · exact Or.inr ⟨_, rfl, (hgains _ _).mpr (Or.inl ⟨hnone, rfl, rfl⟩)⟩
    · exact Or.inl hheld
    · exact Or.inr ⟨tail, rfl, (hgains tail last).mpr (Or.inr hold)⟩

end Gains

theorem Branches.hasEntry_push (branches : Branches α) (first : Char) (child : Tree α)
    (other : List Sign) (last : Leaf α) :
    (branches.push first child).HasEntry other last ↔
      child.HasEntry other last ∨ branches.HasEntry other last := by
  match branches with
  | .nil => simp [Branches.push, Branches.HasEntry]
  | .cons head tree rest =>
      rw [Branches.push, Branches.HasEntry, Branches.HasEntry, Branches.hasEntry_push rest, or_left_comm]

theorem Branches.isPlain_push {branches : Branches α} {first : Char} {child : Tree α}
    (hbranches : branches.IsPlain) (hchild : child.IsPlain) : (branches.push first child).IsPlain := by
  match branches with
  | .nil => exact ⟨hchild, trivial⟩
  | .cons head tree rest => exact ⟨hbranches.1, Branches.isPlain_push hbranches.2 hchild⟩

/-- A new branch brings its entries along. -/
theorem Gains.pushed {branches : Branches α} {c : Char} {child : Tree α}
    (hgains : Gains NoEntry child.HasEntry refusal rest leaf) :
    Gains branches.HasEntry (branches.push c child).HasEntry refusal rest leaf := by
  intro other last
  rw [Branches.hasEntry_push, hgains other last, NoEntry, or_false]

/-! ## New nodes -/

namespace Gains

variable {wild : Wild α} {next : Tree α}

theorem segment : Gains NoEntry (Wild.segment (some leaf)).HasEntry none [.param] leaf :=
  leafAtSegment.congr fun _ _ => by simp [Wild.HasEntry, NoEntry]

theorem through (hgains : Gains NoEntry next.HasEntry refusal rest leaf) :
    Gains NoEntry (Wild.through none next).HasEntry refusal (.param :: rest) leaf :=
  hgains.afterSegment.congr fun _ _ => by simp [Wild.HasEntry, NoEntry]

theorem remainder : Gains NoEntry (Wild.remainder leaf).HasEntry none [.remainder] leaf := by
  intro other last
  simp [Wild.HasEntry, NoEntry, eq_comm]

/-- A new node with a wildcard has the entries of the wildcard behind its text. -/
theorem node (text : List Char) (hgains : Gains NoEntry wild.HasEntry refusal rest leaf) :
    Gains NoEntry (Tree.node text none .nil wild).HasEntry refusal (chars text ++ rest) leaf := by
  have hinside : Gains (Within none .nil Wild.none) (Within none .nil wild) refusal rest leaf :=
    inWild hgains
  rw [Tree.hasEntry_node]
  exact (hinside.behind text).congr fun _ _ => by
    simp [Behind, Within, Branches.HasEntry, Wild.HasEntry, NoEntry]

theorem literal (text : List Char) :
    Gains NoEntry (Tree.node text (some leaf) .nil .none).HasEntry none (chars text) leaf := by
  have hinside : Gains (Within none .nil .none) (Within (some leaf) .nil .none) none [] leaf := leafHere
  rw [Tree.hasEntry_node, ← List.append_nil (chars text)]
  exact (hinside.behind text).congr fun _ _ => by
    simp [Behind, Within, Branches.HasEntry, Wild.HasEntry, NoEntry]

end Gains

theorem Sign.ofMark_of_ne {mark : Char} (hne : mark ≠ ':') : ofMark mark = .remainder :=
  if_neg hne

/-- A tree for one template, or an empty one if it was refused. -/
theorem plant_gains (leaf : Leaf α) (route text : List Char) :
    (plant leaf none route text).1.IsPlain ∧
      Gains NoEntry (plant leaf none route text).1.HasEntry (plant leaf none route text).2
        (read text) leaf := by
  rw [plant]
  split
  · next hnone =>
    have hplain := plain_of_firstWild?_eq_none hnone
    rw [Sign.read_of_plain hplain]
    exact ⟨⟨hplain, trivial, trivial⟩, .literal text⟩
  · next before mark name after hsome =>
    obtain ⟨hplain, -, -⟩ := firstWild?_eq_some hsome
    rw [Sign.read_of_firstWild?_eq_some hsome]
    split
    · next hmark =>
      subst hmark
      split
      · next hafter =>
        subst hafter
        rw [Sign.read_nil]
        exact ⟨⟨hplain, trivial, trivial⟩, Gains.segment.node before⟩
      · obtain ⟨hnext, hgains⟩ := plant_gains leaf route after
        exact ⟨⟨hplain, trivial, hnext⟩, hgains.through.node before⟩
    · next hmark =>
      rw [Sign.ofMark_of_ne hmark]
      split
      · next hplaced =>
        rw [hplaced.1, Sign.read_nil]
        exact ⟨⟨hplain, trivial, trivial⟩, Gains.remainder.node before⟩
      · exact ⟨⟨by simp, trivial, trivial⟩, (Gains.refused _ _ _).congr fun _ _ => by
          simp [Tree.HasEntry, Branches.HasEntry, Wild.HasEntry, NoEntry]⟩
termination_by text.length
decreasing_by exact firstWild?_length (by assumption)

theorem Wild.hasEntry_none : (Wild.none : Wild α).HasEntry = NoEntry := rfl

/-- A wildcard for one template, or none if it was refused. -/
theorem hang_gains (leaf : Leaf α) (route : List Char) {mark : Char} (hmark : isWild mark = true)
    (text : List Char) :
    (hang leaf route (mark :: text)).1.IsPlain ∧
      Gains Wild.none.HasEntry (hang leaf route (mark :: text)).1.HasEntry
        (hang leaf route (mark :: text)).2 (read (mark :: text)) leaf := by
  rw [hang, firstWild?_cons_of_wild hmark, Sign.read_cons_of_wild hmark, Wild.hasEntry_none]
  simp only
  split
  · next hcolon =>
    subst hcolon
    split
    · next hafter =>
      rw [hafter, Sign.read_nil]
      exact ⟨trivial, .segment⟩
    · obtain ⟨hnext, hgains⟩ := plant_gains leaf route (segmentEnd text).2
      exact ⟨hnext, hgains.through⟩
  · next hne =>
    rw [Sign.ofMark_of_ne hne]
    split
    · next hplaced =>
      rw [hplaced.1, Sign.read_nil]
      exact ⟨trivial, .remainder⟩
    · exact ⟨trivial, .refused _ _ _⟩

/-! ## Grafting -/

/-- The lower part of a node that is cut in two has what the node had, behind the text above the cut. -/
theorem Tree.hasEntry_cut (common left : List Char) (c : Char) (old : Option (Leaf α))
    (branches : Branches α) (wild : Wild α) :
    (Tree.node (common ++ c :: left) old branches wild).HasEntry =
      Behind common (Within none (.cons c (.node (c :: left) old branches wild) .nil) .none) := by
  funext signs last
  simp only [Tree.hasEntry_node, Behind, Within, Branches.HasEntry, Wild.HasEntry, or_false, reduceCtorEq,
    and_false, false_or, Sign.chars_append, List.append_assoc, eq_iff_iff]
  constructor
  · rintro ⟨rest, rfl, hwithin⟩
    exact ⟨_, rfl, rest, rfl, hwithin⟩
  · rintro ⟨_, rfl, rest, rfl, hwithin⟩
    exact ⟨rest, rfl, hwithin⟩

def Tree.GainsBy (tree : Tree α) (result : Grown α) (text : List Char) (leaf : Leaf α) : Prop :=
  result.1.IsPlain ∧ Gains tree.HasEntry result.1.HasEntry result.2 (read text) leaf

/-- A template that parts from the text of a node cuts the node in two. -/
theorem Tree.graft_cut_gains {common left right : List Char} {c : Char} {old : Option (Leaf α)}
    {branches : Branches α} {wild : Wild α} (leaf : Leaf α) (route : List Char)
    (hplain : (Tree.node (common ++ c :: left) old branches wild).IsPlain)
    (hshared : shared (common ++ c :: left) (common ++ right) = (common, c :: left, right)) :
    (Tree.node (common ++ c :: left) old branches wild).GainsBy
      ((Tree.node (common ++ c :: left) old branches wild).graft leaf route (common ++ right))
      (common ++ right) leaf := by
  obtain ⟨hlabel, hbranches, hwild⟩ := hplain
  have hcommon : ∀ d ∈ common, isWild d = false := fun d hd =>
    hlabel d (List.mem_append_left _ hd)
  have hlower : (Tree.node (c :: left) old branches wild).IsPlain :=
    ⟨fun d hd => hlabel d (List.mem_append_right _ hd), hbranches, hwild⟩
  rw [Tree.GainsBy, Sign.read_append hcommon, Tree.hasEntry_cut, Tree.graft.eq_def]
  simp only [hshared]
  cases right with
  | nil =>
      rw [Sign.read_nil]
      exact ⟨⟨hcommon, ⟨hlower, trivial⟩, trivial⟩, Gains.leafHere.behind common⟩
  | cons d right =>
      simp only
      split
      · next hmark =>
        obtain ⟨hhung, hgains⟩ := hang_gains leaf route hmark right
        exact ⟨⟨hcommon, ⟨hlower, trivial⟩, hhung⟩, hgains.inWild.behind common⟩
      · obtain ⟨hplanted, hgains⟩ := plant_gains leaf route (d :: right)
        exact ⟨⟨hcommon, ⟨hlower, hplanted, trivial⟩, trivial⟩,
          (Gains.pushed hgains).inBranches.behind common⟩

theorem eq_of_isWild {c : Char} (hwild : isWild c = true) : c = ':' ∨ c = '*' := by
  simpa [isWild] using hwild

mutual

/-- Adding a template to a tree brings one entry, or none if it is refused. -/
theorem Tree.graft_gains (tree : Tree α) (leaf : Leaf α) (route text : List Char)
    (hplain : tree.IsPlain) : tree.GainsBy (tree.graft leaf route text) text leaf := by
  match tree with
  | .node label old branches wild =>
      cases hshared : shared label text with
      | mk common sides =>
          obtain ⟨left, right⟩ := sides
          have hleft := shared_left label text
          have hright := shared_right label text
          simp only [hshared] at hleft hright
          subst hleft hright
          cases left with
          | cons c left => exact Tree.graft_cut_gains leaf route hplain hshared
          | nil =>
              obtain ⟨hlabel, hbranches, hwild⟩ := hplain
              simp only [List.append_nil] at *
              rw [Tree.GainsBy, Sign.read_append hlabel, Tree.graft.eq_def]
              simp only [hshared, Tree.hasEntry_node]
              cases right with
              | nil =>
                  rw [Sign.read_nil]
                  cases old with
                  | some held => exact ⟨⟨hlabel, hbranches, hwild⟩, .refused _ _ _⟩
                  | none => exact ⟨⟨hlabel, hbranches, hwild⟩, Gains.leafHere.behind common⟩
              | cons d right =>
                  simp only
                  cases hgraft : branches.graft? leaf route (d :: right) with
                  | some result =>
                      obtain ⟨grown, refusal⟩ := result
                      obtain ⟨hgrown, hgains⟩ :=
                        Branches.graft?_gains branches leaf route (d :: right) hbranches hgraft
                      exact ⟨⟨hlabel, hgrown, hwild⟩, hgains.inBranches.behind common⟩
                  | none =>
                      simp only
                      split
                      · next hmark =>
                        obtain ⟨hchanged, hgains⟩ := Wild.graft_gains wild leaf route hmark right hwild
                        exact ⟨⟨hlabel, hbranches, hchanged⟩, hgains.inWild.behind common⟩
                      · obtain ⟨hplanted, hgains⟩ := plant_gains leaf route (d :: right)
                        exact ⟨⟨hlabel, Branches.isPlain_push hbranches hplanted, hwild⟩,
                          (Gains.pushed hgains).inBranches.behind common⟩

theorem Branches.graft?_gains (branches : Branches α) (leaf : Leaf α) (route text : List Char)
    (hplain : branches.IsPlain) {grown : Branches α} {refusal : Option Refusal}
    (hgraft : branches.graft? leaf route text = some (grown, refusal)) :
    grown.IsPlain ∧ Gains branches.HasEntry grown.HasEntry refusal (read text) leaf := by
  match branches with
  | .nil => cases hgraft
  | .cons first child others =>
      obtain ⟨hchild, hothers⟩ := hplain
      rw [Branches.graft?.eq_def] at hgraft
      simp only at hgraft
      split at hgraft
      · cases hgraft
        obtain ⟨hgrown, hgains⟩ := Tree.graft_gains child leaf route text hchild
        refine ⟨⟨hgrown, hothers⟩, fun other last => ?_⟩
        rw [Branches.HasEntry, Branches.HasEntry, hgains other last, or_assoc]
      · obtain ⟨⟨inner, reason⟩, hinner, heq⟩ := Option.map_eq_some_iff.mp hgraft
        cases heq
        obtain ⟨hgrown, hgains⟩ := Branches.graft?_gains others leaf route text hothers hinner
        refine ⟨⟨hchild, hgrown⟩, fun other last => ?_⟩
        rw [Branches.HasEntry, Branches.HasEntry, hgains other last, or_left_comm]

theorem Wild.graft_gains (wild : Wild α) (leaf : Leaf α) (route : List Char) {mark : Char}
    (hmark : isWild mark = true) (text : List Char) (hplain : wild.IsPlain) :
    (wild.graft leaf route (mark :: text)).1.IsPlain ∧
      Gains wild.HasEntry (wild.graft leaf route (mark :: text)).1.HasEntry
        (wild.graft leaf route (mark :: text)).2 (read (mark :: text)) leaf := by
  match wild with
  | .none =>
      rw [Wild.graft.eq_def]
      exact hang_gains leaf route hmark text
  | .remainder last =>
      rw [Wild.graft.eq_def]
      exact ⟨trivial, .refused _ _ _⟩
  | .segment old =>
      rw [Wild.graft.eq_def, Sign.read_cons_of_wild hmark]
      simp only [firstWild?_cons_of_wild hmark]
      cases hend : segmentEnd text with
      | mk name after =>
          rcases eq_of_isWild hmark with rfl | rfl
          · cases after with
            | nil =>
                rw [Sign.read_nil]
                cases old with
                | none => exact ⟨trivial, .leafAtSegment⟩
                | some held => exact ⟨trivial, .refused _ _ _⟩
            | cons c after =>
                obtain ⟨hnext, hgains⟩ := plant_gains leaf route (c :: after)
                exact ⟨hnext, hgains.afterSegment⟩
          · exact ⟨trivial, .refused _ _ _⟩
  | .through old next =>
      rw [Wild.graft.eq_def, Sign.read_cons_of_wild hmark]
      simp only [firstWild?_cons_of_wild hmark]
      cases hend : segmentEnd text with
      | mk name after =>
          rcases eq_of_isWild hmark with rfl | rfl
          · cases after with
            | nil =>
                rw [Sign.read_nil]
                cases old with
                | none => exact ⟨hplain, .leafBefore⟩
                | some held => exact ⟨hplain, .refused _ _ _⟩
            | cons c after =>
                obtain ⟨hnext, hgains⟩ := Tree.graft_gains next leaf route (c :: after) hplain
                exact ⟨hnext, hgains.inNext⟩
          · exact ⟨hplain, .refused _ _ _⟩

end

/-! ## Whole trees -/

/-- A plain tree that is empty or starts with a slash. -/
structure Tree.IsGrounded (tree : Tree α) : Prop where
  plain : tree.IsPlain
  open_or_slash : tree = .empty ∨ tree.label.head? = some '/'

theorem Tree.isGrounded_empty : (Tree.empty : Tree α).IsGrounded where
  plain := ⟨by simp, trivial, trivial⟩
  open_or_slash := Or.inl rfl

theorem Tree.hasEntry_empty : (Tree.empty : Tree α).HasEntry = NoEntry := by
  funext signs last
  simp [Tree.empty, Tree.HasEntry, Branches.HasEntry, Wild.HasEntry, NoEntry]

/-- The tree for a text starts as the text does, or it is empty since the text was refused. -/
theorem plant_label {text : List Char} {c : Char} (leaf : Leaf α) (route : List Char)
    (hplain : isWild c = false) (htext : text.head? = some c) :
    (plant leaf none route text).1 = .empty ∨
      (plant leaf none route text).1.label.head? = some c := by
  rw [plant]
  split
  · exact Or.inr htext
  · next before mark name after hsome =>
    obtain ⟨-, hwild, rest, rfl, -⟩ := firstWild?_eq_some hsome
    have hbefore : before.head? = some c := by
      cases before with
      | nil =>
          cases htext
          rw [hplain] at hwild
          cases hwild
      | cons d before => exact htext
    split
    · split
      · exact Or.inr hbefore
      · exact Or.inr hbefore
    · split
      · exact Or.inr hbefore
      · exact Or.inl rfl

theorem Tree.insert_of_error {text : List Char} {reason : Refusal} (tree : Tree α) (value : α)
    (hnames : parameterNames text 0 = .error reason) : tree.insert text value = (tree, some reason) := by
  rw [Tree.insert, hnames]

theorem Tree.insert_empty {text : List Char} {names : List (List Char)} (value : α)
    (hnames : parameterNames text 0 = .ok names) :
    (Tree.empty : Tree α).insert text value = plant ⟨names, value⟩ none text text := by
  rw [Tree.insert, hnames]
  rfl

theorem Tree.insert_of_slash {tree : Tree α} {text : List Char} {names : List (List Char)} (value : α)
    (hlabel : tree.label.head? = some '/') (hnames : parameterNames text 0 = .ok names) :
    tree.insert text value = tree.graft ⟨names, value⟩ text text := by
  rw [Tree.insert, hnames]
  cases tree with
  | node label old branches wild =>
      cases label with
      | nil => cases hlabel
      | cons c label => rfl

/-- Adding a template to a whole tree brings one entry, or none if it is refused. -/
theorem Tree.IsGrounded.insert {tree : Tree α} (hground : tree.IsGrounded) {text : List Char} (value : α)
    (htext : text.head? = some '/') :
    (tree.insert text value).1.IsGrounded ∧
      ∀ signs last, (tree.insert text value).1.HasEntry signs last ↔
        ((tree.insert text value).2 = none ∧ signs = read text ∧
          parameterNames text 0 = .ok last.names ∧ last.value = value) ∨ tree.HasEntry signs last := by
  cases hnames : parameterNames text 0 with
  | error reason =>
      rw [tree.insert_of_error value hnames]
      exact ⟨hground, by simp⟩
  | ok names =>
      have hgains : (tree.insert text value).1.IsGrounded ∧
          Gains tree.HasEntry (tree.insert text value).1.HasEntry (tree.insert text value).2 (read text)
            ⟨names, value⟩ := by
        rcases hground.open_or_slash with rfl | hlabel
        · rw [Tree.insert_empty value hnames, Tree.hasEntry_empty]
          obtain ⟨hplain, hgains⟩ := plant_gains ⟨names, value⟩ text text
          exact ⟨⟨hplain, plant_label _ text rfl htext⟩, hgains⟩
        · rw [Tree.insert_of_slash value hlabel hnames]
          obtain ⟨hplain, hgains⟩ := tree.graft_gains ⟨names, value⟩ text text hground.plain
          exact ⟨⟨hplain, Or.inr (Tree.label_graft _ text text hlabel htext)⟩, hgains⟩
      refine ⟨hgains.1, fun signs last => ?_⟩
      rw [hgains.2 signs last, Except.ok.injEq, eq_comm (a := names), eq_comm (b := value)]
      cases last
      simp only [Leaf.mk.injEq]
      tauto

/-! ## Search -/

theorem Search.ofLeaf_eq_found {held : Option (Leaf α)} {texts found : List (List Char)}
    {otherwise : Search α} (hother : otherwise = .missed ∨ otherwise = .stopped)
    (hfound : Search.ofLeaf held texts otherwise = .found leaf found) :
    held = some leaf ∧ found = texts := by
  cases held with
  | some last =>
      cases hfound
      exact ⟨rfl, rfl⟩
  | none =>
      rw [Search.ofLeaf] at hfound
      rcases hother with rfl | rfl <;> cases hfound

theorem Search.fail_eq (path : List Char) :
    (Search.fail path : Search α) = .missed ∨ (Search.fail path : Search α) = .stopped := by
  rw [Search.fail]
  split
  · exact Or.inr rfl
  · exact Or.inl rfl

theorem Search.passing_eq_found {result : Search α} {text : List Char} {texts : List (List Char)}
    (hfound : result.passing text = .found leaf texts) :
    ∃ later, result = .found leaf later ∧ texts = text :: later := by
  cases result with
  | found last later =>
      cases hfound
      exact ⟨later, rfl, rfl⟩
  | missed => cases hfound
  | stopped => cases hfound

/-- The last segment of a path has no slash. -/
theorem slash_not_mem_of_segmentEnd {path text : List Char} (hend : segmentEnd path = (text, [])) :
    '/' ∉ path := by
  have hslash := (segmentEnd_cases path).1
  rwa [← segmentEnd_append path, hend, List.append_nil, ← congrArg Prod.fst hend]

mutual

/-- What a search finds is an entry whose signs spell out the path. -/
theorem Tree.search_spells (tree : Tree α) {path : List Char} {texts : List (List Char)}
    (hfound : tree.search path = .found leaf texts) :
    ∃ signs, tree.HasEntry signs leaf ∧ Spells signs path texts := by
  match tree with
  | .node label held branches wild =>
      rw [Tree.search] at hfound
      split at hfound
      · next hstrip =>
        obtain ⟨rfl, rfl⟩ := Search.ofLeaf_eq_found (Search.fail_eq path) hfound
        rw [Text.strip?_eq_some_iff] at hstrip
        subst hstrip
        exact ⟨chars label ++ [], ⟨[], rfl, Or.inl ⟨rfl, rfl⟩⟩, Spells.nil.chars_append label⟩
      · next c tail hstrip =>
        rw [Text.strip?_eq_some_iff] at hstrip
        subst hstrip
        have hbelow : ∃ signs, (branches.HasEntry signs leaf ∨ wild.HasEntry signs leaf) ∧
            Spells signs (c :: tail) texts := by
          split at hfound
          · obtain ⟨signs, hentry, hspells⟩ := Wild.search_spells wild hfound
            exact ⟨signs, Or.inr hentry, hspells⟩
          · split at hfound
            · cases hfound
            · obtain ⟨signs, hentry, hspells⟩ := Wild.search_spells wild hfound
              exact ⟨signs, Or.inr hentry, hspells⟩
          · next hbranch =>
            subst hfound
            obtain ⟨signs, hentry, hspells⟩ := Branches.search?_spells branches hbranch
            exact ⟨signs, Or.inl hentry, hspells⟩
        obtain ⟨signs, hentry, hspells⟩ := hbelow
        exact ⟨chars label ++ signs, ⟨signs, rfl, Or.inr hentry⟩, hspells.chars_append label⟩
      · split at hfound
        · cases hfound
        · rcases @Search.fail_eq α path with hfail | hfail <;> rw [hfail] at hfound <;> cases hfound

theorem Branches.search?_spells (branches : Branches α) {path : List Char} {texts : List (List Char)}
    (hfound : branches.search? path = some (.found leaf texts)) :
    ∃ signs, branches.HasEntry signs leaf ∧ Spells signs path texts := by
  match branches with
  | .nil => cases hfound
  | .cons first child rest =>
      rw [Branches.search?] at hfound
      split at hfound
      · obtain ⟨signs, hentry, hspells⟩ := Tree.search_spells child (Option.some.inj hfound)
        exact ⟨signs, Or.inl hentry, hspells⟩
      · obtain ⟨signs, hentry, hspells⟩ := Branches.search?_spells rest hfound
        exact ⟨signs, Or.inr hentry, hspells⟩

theorem Wild.search_spells (wild : Wild α) {path : List Char} {texts : List (List Char)}
    (hfound : wild.search path = .found leaf texts) :
    ∃ signs, wild.HasEntry signs leaf ∧ Spells signs path texts := by
  match wild with
  | .none =>
      rw [Wild.search] at hfound
      rcases @Search.fail_eq α path with hfail | hfail <;> rw [hfail] at hfound <;> cases hfound
  | .remainder last =>
      cases hfound
      exact ⟨[.remainder], ⟨rfl, rfl⟩, .remainder path⟩
  | .segment held =>
      rw [Wild.search] at hfound
      split at hfound
      · next hend =>
        obtain ⟨rfl, rfl⟩ := Search.ofLeaf_eq_found (Or.inr rfl) hfound
        exact ⟨[.param], ⟨rfl, rfl⟩, .last (slash_not_mem_of_segmentEnd hend)⟩
      · split at hfound <;> cases hfound
  | .through held next =>
      rw [Wild.search] at hfound
      split at hfound
      · next hend =>
        have hother : (if next.wantsSlash then Search.stopped else .missed : Search α) = .missed ∨
            (if next.wantsSlash then Search.stopped else .missed : Search α) = .stopped := by
          cases next.wantsSlash
          · exact Or.inl rfl
          · exact Or.inr rfl
        obtain ⟨rfl, rfl⟩ := Search.ofLeaf_eq_found hother hfound
        exact ⟨[.param], Or.inl ⟨rfl, rfl⟩, .last (slash_not_mem_of_segmentEnd hend)⟩
      · next text after _ hend =>
        obtain ⟨later, hlater, rfl⟩ := Search.passing_eq_found hfound
        obtain ⟨signs, hentry, hspells⟩ := Tree.search_spells next hlater
        obtain ⟨htext, hends⟩ := segmentEnd_cases path
        rw [hend] at htext hends
        refine ⟨.param :: signs, Or.inr ⟨signs, rfl, hentry⟩, ?_⟩
        rw [eq_append_of_segmentEnd hend]
        exact .param htext (hends.imp_right fun ⟨_, hrest⟩ => congrArg List.head? hrest) hspells

end

/-- What is found for a path is an entry whose signs spell out the path. -/
theorem Tree.find?_spells {tree : Tree α} {path : List Char} {value : α}
    {captured : List (List Char × List Char)} (hfound : tree.find? path = some (value, captured)) :
    ∃ signs leaf texts, tree.HasEntry signs leaf ∧ Spells signs path texts ∧ value = leaf.value ∧
      captured = leaf.names.zip texts := by
  rw [Tree.find?] at hfound
  split at hfound
  · next leaf texts hsearch =>
    cases hfound
    obtain ⟨signs, hentry, hspells⟩ := tree.search_spells hsearch
    exact ⟨signs, leaf, texts, hentry, hspells, rfl, rfl⟩
  · cases hfound

end ApiGateway.Route
