import ApiGateway.Route.Tree

/-!
# What a refused template leaves behind

A template is refused before the tree is touched, or at the place where it conflicts with another, or at a
remainder that is out of place.  Only in the last case can the tree have changed on the way.
-/

namespace ApiGateway.Route

variable {α : Type}

/-- What was refused left things as they were, unless a remainder is out of place. -/
inductive Keeps {β : Type} (old : β) : β × Option Refusal → Prop where
  | taken (new : β) : Keeps old (new, none)
  | kept (refusal : Refusal) : Keeps old (old, some refusal)
  | misplaced (new : β) : Keeps old (new, some .misplacedRemainder)

namespace Keeps

variable {β γ : Type} {old : β} {result : β × Option Refusal}

/-- What holds of a part holds of the whole. -/
theorem map (whole : β → γ) (hkeeps : Keeps old result) :
    Keeps (whole old) (whole result.1, result.2) := by
  cases hkeeps with
  | taken new => exact .taken _
  | kept refusal => exact .kept refusal
  | misplaced new => exact .misplaced _

/-- What can only be refused for a misplaced remainder keeps anything. -/
theorem ofNew (hresult : result.2 = none ∨ result.2 = some .misplacedRemainder) : Keeps old result := by
  obtain ⟨new, refusal⟩ := result
  rcases hresult with rfl | rfl
  · exact .taken new
  · exact .misplaced new

theorem eq_of_refused {refusal : Refusal} (hkeeps : Keeps old result) (hrefused : result.2 = some refusal)
    (hplaced : refusal ≠ .misplacedRemainder) : result.1 = old := by
  cases hkeeps with
  | taken new => cases hrefused
  | kept reason => rfl
  | misplaced new =>
      cases hrefused
      exact absurd rfl hplaced

end Keeps

/-- A new node is refused only for a misplaced remainder. -/
theorem plant_refusal (leaf : Leaf α) (old : Option (Leaf α)) (route text : List Char) :
    (plant leaf old route text).2 = none ∨
      (plant leaf old route text).2 = some .misplacedRemainder := by
  rw [plant]
  split
  · exact Or.inl rfl
  · next before mark name after hsome =>
    split
    · split
      · exact Or.inl rfl
      · exact plant_refusal leaf none route after
    · split
      · exact Or.inl rfl
      · exact Or.inr rfl
termination_by text.length
decreasing_by exact firstWild?_length (by assumption)

theorem hang_refusal (leaf : Leaf α) (route text : List Char) :
    (hang leaf route text).2 = none ∨ (hang leaf route text).2 = some .misplacedRemainder := by
  rw [hang]
  split
  · exact Or.inl rfl
  · split
    · split
      · exact Or.inl rfl
      · exact plant_refusal leaf none route _
    · split
      · exact Or.inl rfl
      · exact Or.inr rfl

mutual

/-- A tree that refuses a template is as before, unless a remainder is out of place. -/
theorem Tree.graft_keeps (tree : Tree α) (leaf : Leaf α) (route text : List Char) :
    Keeps tree (tree.graft leaf route text) := by
  match tree with
  | .node label old branches wild =>
      rw [Tree.graft.eq_def]
      simp only
      split
      · exact .taken _
      · next common c left d right hshared =>
        split
        · exact .ofNew (hang_refusal leaf route (d :: right))
        · exact .ofNew (plant_refusal leaf none route (d :: right))
      · cases old with
        | some held => exact .kept _
        | none => exact .taken _
      · next common d right hshared =>
        split
        · next grown refusal hgraft =>
          exact (Branches.graft?_keeps branches leaf route (d :: right) hgraft).map
            (Tree.node label old · wild)
        · split
          · exact (Wild.graft_keeps wild leaf route (d :: right)).map (Tree.node label old branches)
          · exact .ofNew (plant_refusal leaf none route (d :: right))

theorem Branches.graft?_keeps (branches : Branches α) (leaf : Leaf α) (route text : List Char)
    {result : Branches α × Option Refusal} (hgraft : branches.graft? leaf route text = some result) :
    Keeps branches result := by
  match branches with
  | .nil => cases hgraft
  | .cons first child others =>
      rw [Branches.graft?.eq_def] at hgraft
      simp only at hgraft
      split at hgraft
      · cases hgraft
        exact (Tree.graft_keeps child leaf route text).map (Branches.cons first · others)
      · obtain ⟨inner, hinner, rfl⟩ := Option.map_eq_some_iff.mp hgraft
        exact (Branches.graft?_keeps others leaf route text hinner).map (Branches.cons first child)

theorem Wild.graft_keeps (wild : Wild α) (leaf : Leaf α) (route text : List Char) :
    Keeps wild (wild.graft leaf route text) := by
  match wild with
  | .none => exact .ofNew (hang_refusal leaf route text)
  | .remainder last => exact .kept _
  | .segment old =>
      rw [Wild.graft.eq_def]
      simp only
      split
      · cases old with
        | some held => exact .kept _
        | none => exact .taken _
      · exact .ofNew (plant_refusal leaf none route _)
      · exact .kept _
  | .through old next =>
      rw [Wild.graft.eq_def]
      simp only
      split
      · cases old with
        | some held => exact .kept _
        | none => exact .taken _
      · exact (Tree.graft_keeps next leaf route _).map (Wild.through old)
      · exact .kept _

end

/-- The same for whole trees. -/
theorem Tree.insert_keeps (tree : Tree α) (text : List Char) (value : α) :
    Keeps tree (tree.insert text value) := by
  rw [Tree.insert]
  split
  · exact .kept _
  · next names hnames =>
    split
    · exact .ofNew (plant_refusal _ _ text text)
    · exact Tree.graft_keeps _ _ text text

end ApiGateway.Route
