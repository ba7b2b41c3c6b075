import ApiGateway.Json.Read
import ApiGateway.Yaml.Value

/-!
# The order of members

The members of every object in a value that is read stand in the order of their names, whether the value was
written as JSON or as YAML.  No name is there twice, however often it was written.
-/

namespace ApiGateway.Json

def AreSorted (members : List (String × Json)) : Prop :=
  (members.map Prod.fst).Pairwise (· < ·)

/-- The members of all objects in the value, at whatever depth, stand in the order of their names. -/
inductive IsOrdered : Json → Prop where
  | null : IsOrdered .null
  | bool (value : Bool) : IsOrdered (.bool value)
  | natural (value : Nat) : IsOrdered (.natural value)
  | negative (magnitude : Nat) : IsOrdered (.negative magnitude)
  | fraction (value : Decimal.Binary64) : IsOrdered (.fraction value)
  | string (value : String) : IsOrdered (.string value)
  | array {items : List Json} (hitems : ∀ item ∈ items, IsOrdered item) : IsOrdered (.array items)
  | object {members : List (String × Json)} (hsorted : AreSorted members)
      (hmembers : ∀ member ∈ members, IsOrdered member.2) : IsOrdered (.object members)

/-! ## Setting members -/

theorem eq_or_mem_of_mem_put {name : String} {value : Json} {known : List (String × Json)}
    {member : String × Json} (hmember : member ∈ put name value known) :
    member = (name, value) ∨ member ∈ known := by
  induction known with
  | nil => exact Or.inl (List.mem_singleton.mp hmember)
  | cons entry rest ih =>
      obtain ⟨other, old⟩ := entry
      rw [put] at hmember
      split at hmember
      · exact (List.mem_cons.mp hmember).imp_right (List.mem_cons_of_mem _)
      split at hmember
      · exact List.mem_cons.mp hmember
      · rcases List.mem_cons.mp hmember with rfl | hlater
        · exact Or.inr (.head _)
        · exact (ih hlater).imp_right (List.mem_cons_of_mem _)

theorem areSorted_cons {name : String} {value : Json} {rest : List (String × Json)} :
    AreSorted ((name, value) :: rest) ↔ (∀ member ∈ rest, name < member.1) ∧ AreSorted rest := by
  rw [AreSorted, List.map_cons, List.pairwise_cons, List.forall_mem_map]
  exact Iff.rfl

theorem areSorted_put (name : String) (value : Json) {known : List (String × Json)}
    (hsorted : AreSorted known) : AreSorted (put name value known) := by
  induction known with
  | nil => exact List.pairwise_singleton _ _
  | cons entry rest ih =>
      obtain ⟨other, old⟩ := entry
      obtain ⟨hleast, hrest⟩ := areSorted_cons.mp hsorted
      rw [put]
      split
      · next hname =>
        subst hname
        exact areSorted_cons.mpr ⟨hleast, hrest⟩
      split
      · next hless =>
        refine areSorted_cons.mpr ⟨?_, hsorted⟩
        rintro member (_ | ⟨_, hlater⟩)
        · exact hless
        · exact String.lt_trans hless (hleast member hlater)
      · next hname hless =>
        have hgreater : other < name := Classical.byContradiction fun hnot =>
          hname (String.le_antisymm (String.not_lt.mp hnot) (String.not_lt.mp hless))
        refine areSorted_cons.mpr ⟨fun member hmember => ?_, ih hrest⟩
        rcases eq_or_mem_of_mem_put hmember with rfl | hold
        · exact hgreater
        · exact hleast member hold

/-- However members are written, those of their object are in order. -/
theorem isOrdered_ofMembers {members : List (String × Json)}
    (hmembers : ∀ member ∈ members, member.2.IsOrdered) : (ofMembers members).IsOrdered := by
  suffices hset : ∀ known : List (String × Json), AreSorted known → (∀ member ∈ known, member.2.IsOrdered) →
      (Json.object (members.foldl (fun known member => put member.1 member.2 known) known)).IsOrdered by
    exact hset [] .nil fun member hnone => absurd hnone List.not_mem_nil
  -- What has been set before is in order, and stays so with every member that is set.
  induction members with
  | nil => exact fun known hsorted hknown => .object hsorted hknown
  | cons member rest ih =>
      intro known hsorted hknown
      obtain ⟨hvalue, hrest⟩ := List.forall_mem_cons.mp hmembers
      refine ih hrest _ (areSorted_put member.1 member.2 hsorted) fun other hother => ?_
      rcases eq_or_mem_of_mem_put hother with rfl | hold
      · exact hvalue
      · exact hknown other hold

/-! ## Values -/

mutual

/-- Ordering the members of all objects puts them in order. -/
theorem isOrdered_normal : ∀ value : Json, value.normal.IsOrdered
  | .null => .null
  | .bool value => .bool value
  | .natural value => .natural value
  | .negative magnitude => .negative magnitude
  | .fraction value => .fraction value
  | .string value => .string value
  | .array items => .array (isOrdered_normalItems items)
  | .object members => isOrdered_ofMembers (isOrdered_normalMembers members)

theorem isOrdered_normalItems : ∀ items : List Json, ∀ item ∈ normalItems items, item.IsOrdered
  | [] => fun _ hnone => absurd hnone List.not_mem_nil
  | item :: rest => List.forall_mem_cons.mpr ⟨isOrdered_normal item, isOrdered_normalItems rest⟩

theorem isOrdered_normalMembers : ∀ members : List (String × Json),
    ∀ member ∈ normalMembers members, member.2.IsOrdered
  | [] => fun _ hnone => absurd hnone List.not_mem_nil
  | (_, value) :: rest => List.forall_mem_cons.mpr ⟨isOrdered_normal value, isOrdered_normalMembers rest⟩

end

theorem isOrdered_read? {text : List Char} {value : Json} (hread : read? text = some value) :
    value.IsOrdered := by
  obtain ⟨written, -, rfl⟩ := Option.map_eq_some_iff.mp hread
  exact isOrdered_normal written

end ApiGateway.Json

namespace ApiGateway.Yaml

theorem isOrdered_reach {text : String} {value : Json} (hreach : reach text = .value value) :
    value.IsOrdered := by
  rw [reach] at hreach
  split at hreach
  · split at hreach
    · cases hreach
      rw [Json.ofInt]
      split
      · exact .natural _
      · exact .negative _
    · split at hreach <;> cases hreach
  · cases hreach

theorem isOrdered_fraction? {text : String} {value : Json} (hvalue : fraction? text = some value) :
    value.IsOrdered := by
  rw [fraction?] at hvalue
  split at hvalue
  · cases hvalue
    exact .null
  · dsimp only at hvalue
    split at hvalue
    · obtain ⟨number, -, rfl⟩ := Option.map_eq_some_iff.mp hvalue
      exact .fraction number
    · cases hvalue

theorem isOrdered_plainValue? {text : String} {value : Json} (hvalue : plainValue? text = some value) :
    value.IsOrdered := by
  rw [plainValue?] at hvalue
  split at hvalue
  · cases hvalue
    exact .null
  split at hvalue
  · cases hvalue
    exact .bool _
  · next hreach =>
    cases hvalue
    exact isOrdered_reach hreach
  · cases hvalue
  split at hvalue
  · cases hvalue
    exact .string _
  cases hfraction : fraction? text with
  | none =>
      rw [hfraction] at hvalue
      cases hvalue
      exact .string _
  | some number =>
      rw [hfraction] at hvalue
      cases hvalue
      exact isOrdered_fraction? hfraction

theorem isOrdered_taggedValue? {tag text : String} {value : Json}
    (hvalue : taggedValue? tag text = some value) : value.IsOrdered := by
  rw [taggedValue?] at hvalue
  split at hvalue
  · obtain ⟨flag, -, rfl⟩ := Option.map_eq_some_iff.mp hvalue
    exact .bool flag
  split at hvalue
  · split at hvalue
    · next hreach =>
      cases hvalue
      exact isOrdered_reach hreach
    · cases hvalue
  split at hvalue
  · exact isOrdered_fraction? hvalue
  split at hvalue
  · split at hvalue
    · cases hvalue
      exact .null
    · cases hvalue
  · cases hvalue
    exact .string _

theorem Scalar.isOrdered_value? {scalar : Scalar} {value : Json} (hvalue : scalar.value? = some value) :
    value.IsOrdered := by
  rw [Scalar.value?] at hvalue
  split at hvalue
  · split at hvalue
    · cases hvalue
    · exact isOrdered_taggedValue? hvalue
  · split at hvalue
    · exact isOrdered_plainValue? hvalue
    · cases hvalue
      exact .string _

namespace Node

mutual

theorem isOrdered_valueWithin? : ∀ (depth : Nat) (node : Node) {value : Json},
    valueWithin? depth node = some value → value.IsOrdered
  | depth, .scalar leaf, value, hvalue => Scalar.isOrdered_value? (by rwa [valueWithin?] at hvalue)
  | depth, .sequence tag items, value, hvalue => by
      rw [valueWithin?] at hvalue
      split at hvalue
      · cases hvalue
      · obtain ⟨values, hvalues, rfl⟩ := Option.map_eq_some_iff.mp hvalue
        exact .array (isOrdered_itemValues? (depth - 1) items hvalues)
  | depth, .mapping tag entries, value, hvalue => by
      rw [valueWithin?] at hvalue
      split at hvalue
      · cases hvalue
      · obtain ⟨members, hmembers, rfl⟩ := Option.map_eq_some_iff.mp hvalue
        exact Json.isOrdered_ofMembers (isOrdered_entryValues? (depth - 1) entries hmembers)

theorem isOrdered_itemValues? : ∀ (depth : Nat) (items : List Node) {values : List Json},
    itemValues? depth items = some values → ∀ value ∈ values, value.IsOrdered
  | depth, [], values, hvalues => by
      cases hvalues
      exact fun value hnone => absurd hnone List.not_mem_nil
  | depth, item :: items, values, hvalues => by
      rw [itemValues?] at hvalues
      obtain ⟨first, hfirst, hvalues⟩ := Option.bind_eq_some_iff.mp hvalues
      obtain ⟨later, hlater, hvalues⟩ := Option.bind_eq_some_iff.mp hvalues
      cases hvalues
      exact List.forall_mem_cons.mpr
        ⟨isOrdered_valueWithin? depth item hfirst, isOrdered_itemValues? depth items hlater⟩

theorem isOrdered_entryValues? : ∀ (depth : Nat) (entries : List (Node × Node))
    {members : List (String × Json)}, entryValues? depth entries = some members →
    ∀ member ∈ members, member.2.IsOrdered
  | depth, [], members, hmembers => by
      cases hmembers
      exact fun member hnone => absurd hnone List.not_mem_nil
  | depth, (.scalar key, node) :: entries, members, hmembers => by
      rw [entryValues?] at hmembers
      obtain ⟨first, hfirst, hmembers⟩ := Option.bind_eq_some_iff.mp hmembers
      obtain ⟨later, hlater, hmembers⟩ := Option.bind_eq_some_iff.mp hmembers
      cases hmembers
      exact List.forall_mem_cons.mpr
        ⟨isOrdered_valueWithin? depth node hfirst, isOrdered_entryValues? depth entries hlater⟩
  | depth, (.sequence tag items, node) :: entries, members, hmembers => by cases hmembers
  | depth, (.mapping tag inner, node) :: entries, members, hmembers => by cases hmembers

end

theorem isOrdered_value? {node : Node} {value : Json} (hvalue : node.value? = some value) :
    value.IsOrdered :=
  isOrdered_valueWithin? depthLimit node hvalue

end Node

end ApiGateway.Yaml
