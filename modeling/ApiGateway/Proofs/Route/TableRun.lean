import ApiGateway.Proofs.Route.IndexContents
import Mathlib.Data.List.Nodup

/-!
# Runs of the table

A run inserts routes and removes endpoints in any order.  In every run the slots have different keys
and hold only routes of their key.  If the templates are well-formed, no insertion is refused and the
index holds exactly the serving routes.
-/

namespace ApiGateway.Route

inductive Change where
  | insert (route : Route)
  | remove (endpoint : EndpointKey)
  deriving DecidableEq, Repr

namespace Table

def apply (table : Table) : Change → Table
  | .insert route => (table.insert route).1
  | .remove endpoint => (table.remove endpoint).1

def run (table : Table) (changes : List Change) : Table :=
  changes.foldl apply table

@[simp]
theorem run_nil (table : Table) : table.run [] = table := rfl

@[simp]
theorem run_cons (table : Table) (change : Change) (changes : List Change) :
    table.run (change :: changes) = (table.apply change).run changes := rfl

end Table

/-! ## Slots -/

/-- All routes of a slot, the serving one first. -/
def Slot.routes (slot : Slot) : List Route :=
  slot.serving :: slot.standby

def Table.held (table : Table) : List Route :=
  table.slots.flatMap Slot.routes

theorem Table.mem_held {table : Table} {route : Route} :
    route ∈ table.held ↔ ∃ slot ∈ table.slots, route ∈ slot.routes :=
  List.mem_flatMap

theorem Table.mem_held_of_mem_routes {table : Table} {route : Route} (hroute : route ∈ table.routes) :
    route ∈ table.held := by
  obtain ⟨slot, hslot, rfl⟩ := List.mem_map.mp hroute
  exact Table.mem_held.mpr ⟨slot, hslot, .head _⟩

namespace Slot

def ofRoutes? (key : SlotKey) : List Route → Option Slot
  | [] => none
  | serving :: standby => some ⟨key, serving, standby⟩

/-- What is left of a slot are the routes of other endpoints, in their order. -/
theorem discard_eq (endpoint : EndpointKey) (slot : Slot) :
    slot.discard endpoint = ofRoutes? slot.key (slot.routes.filter (·.endpoint != endpoint)) := by
  by_cases heq : slot.serving.endpoint = endpoint
  · simp only [discard, routes, List.filter_cons, heq, bne_self_eq_false, Bool.false_eq_true, if_true,
      if_false]
    cases slot.standby.filter (·.endpoint != endpoint) <;> rfl
  · simp [discard, heq, routes, ofRoutes?]

theorem ofRoutes?_eq_some {key : SlotKey} {routes : List Route} {slot : Slot}
    (hsome : ofRoutes? key routes = some slot) : slot.key = key ∧ slot.routes = routes := by
  cases routes with
  | nil => cases hsome
  | cons serving standby =>
      cases hsome
      exact ⟨rfl, rfl⟩

theorem receive_key (slot : Slot) (policy : CollisionPolicy) (route : Route) :
    (slot.receive policy route).1.key = slot.key := by
  cases policy <;> rfl

/-- A slot that receives a route loses none. -/
theorem routes_receive_perm (slot : Slot) (policy : CollisionPolicy) (route : Route) :
    (slot.receive policy route).1.routes.Perm (route :: slot.routes) := by
  cases policy with
  | reject =>
      have hmiddle : (slot.serving :: (slot.standby ++ [route])).Perm
          (route :: slot.serving :: slot.standby) :=
        List.perm_append_singleton route (slot.serving :: slot.standby)
      exact hmiddle
  | replace =>
      exact List.Perm.cons route (List.perm_append_singleton slot.serving slot.standby)

end Slot

namespace Table

/-- Removal takes out the routes of the endpoint and no others. -/
theorem held_remove (table : Table) (endpoint : EndpointKey) :
    (table.remove endpoint).1.held = table.held.filter (·.endpoint != endpoint) := by
  have hslots : ∀ slots : List Slot, (slots.filterMap (Slot.discard endpoint)).flatMap Slot.routes =
      (slots.flatMap Slot.routes).filter (·.endpoint != endpoint) := by
    intro slots
    induction slots with
    | nil => rfl
    | cons slot rest ih =>
        rw [List.flatMap_cons, List.filter_append, ← ih, List.filterMap_cons, Slot.discard_eq]
        cases slot.routes.filter (·.endpoint != endpoint) with
        | nil => rfl
        | cons serving standby => rfl
  rw [held, remove]
  split <;> exact hslots table.slots

/-- The slots have different keys and hold only routes of their key. -/
structure IsKeyed (table : Table) : Prop where
  keys : (table.slots.map (·.key)).Nodup
  held : ∀ slot ∈ table.slots, ∀ route ∈ slot.routes, slotKey route = slot.key

theorem IsKeyed.slot_eq {table : Table} (hkeyed : table.IsKeyed) {left right : Slot}
    (hleft : left ∈ table.slots) (hright : right ∈ table.slots) (hkey : left.key = right.key) :
    left = right :=
  List.inj_on_of_nodup_map hkeyed.keys hleft hright hkey

/-- Serving routes of one key are one route. -/
theorem IsKeyed.route_eq {table : Table} (hkeyed : table.IsKeyed) {left right : Route}
    (hleft : left ∈ table.routes) (hright : right ∈ table.routes)
    (hkey : slotKey left = slotKey right) : left = right := by
  obtain ⟨slot, hslot, rfl⟩ := List.mem_map.mp hleft
  obtain ⟨other, hother, rfl⟩ := List.mem_map.mp hright
  rw [hkeyed.held slot hslot _ (.head _), hkeyed.held other hother _ (.head _)] at hkey
  rw [hkeyed.slot_eq hslot hother hkey]

theorem IsKeyed.routes_keys {table : Table} (hkeyed : table.IsKeyed) :
    table.routes.map slotKey = table.slots.map (·.key) := by
  rw [routes, List.map_map]
  exact List.map_congr_left fun slot hslot => hkeyed.held slot hslot _ (.head _)

theorem isKeyed_empty (policy : CollisionPolicy) : (empty policy).IsKeyed where
  keys := List.nodup_nil
  held := by
    intro slot hslot
    cases hslot

/-! ## Insertion -/

/-- Settling one slot leaves the others where they are. -/
theorem settle_slots {slots : List Slot} {slot : Slot} (settled : Slot)
    (hkeys : (slots.map (·.key)).Nodup) (hslot : slot ∈ slots) :
    ∃ before after, slots = before ++ slot :: after ∧
      (slots.map fun other => if other.key = slot.key then settled else other) =
        before ++ settled :: after := by
  obtain ⟨before, after, rfl⟩ := List.append_of_mem hslot
  refine ⟨before, after, rfl, ?_⟩
  rw [List.map_append, List.map_cons, List.nodup_append, List.nodup_cons] at hkeys
  obtain ⟨-, ⟨hafter, -⟩, hbefore⟩ := hkeys
  have hkept : ∀ others : List Slot, (∀ other ∈ others, other.key ≠ slot.key) →
      (others.map fun other => if other.key = slot.key then settled else other) = others := by
    intro others hne
    refine (List.map_congr_left fun other hother => ?_).trans (List.map_id others)
    exact if_neg (hne other hother)
  rw [List.map_append, List.map_cons, if_pos rfl, hkept before, hkept after]
  · intro other hother heq
    exact hafter (heq ▸ List.mem_map_of_mem hother)
  · intro other hother heq
    exact hbefore other.key (List.mem_map_of_mem hother) slot.key (.head _) heq

theorem collide_slots (table : Table) (slot : Slot) (route : Route) :
    (table.collide slot route).1.slots = table.slots.map fun other =>
      if other.key = slot.key then (slot.receive table.policy route).1 else other := by
  cases hpolicy : table.policy <;> simp only [collide, hpolicy, reindex]

/-- A collision leaves the index and the serving routes as they are, or builds the index anew. -/
theorem collide_index (table : Table) (slot : Slot) (route : Route) :
    table.policy = .reject ∧ (table.collide slot route).1.index = table.index ∨
      (table.collide slot route).1.index = Index.ofRoutes (table.collide slot route).1.routes := by
  cases hpolicy : table.policy with
  | reject =>
      refine Or.inl ⟨rfl, ?_⟩
      simp only [collide, hpolicy]
  | replace =>
      refine Or.inr ?_
      simp only [collide, hpolicy, reindex, routes]

/-- What an insertion can do to a table. -/
inductive Inserts (table : Table) (route : Route) : Table × Except Refusal Insertion → Prop where
  /-- The slot of the route's key receives it; the index follows the serving routes. -/
  | settled {before after : List Slot} {slot : Slot} {changed : Table} {insertion : Insertion}
      (hslots : table.slots = before ++ slot :: after) (hkey : slot.key = slotKey route)
      (hchanged : changed.slots = before ++ (slot.receive table.policy route).1 :: after)
      (hindex : changed.index = table.index ∧ changed.routes = table.routes ∨
        changed.index = Index.ofRoutes changed.routes) :
      Inserts table route (changed, .ok insertion)
  /-- A slot of a new key is opened. -/
  | opened {changed : Table} (hfresh : ∀ slot ∈ table.slots, slot.key ≠ slotKey route)
      (hadd : table.index.add route = (changed.index, none))
      (hchanged : changed.slots = table.slots ++ [⟨slotKey route, route, []⟩]) :
      Inserts table route (changed, .ok .inserted)
  /-- The index does not take a template of a new key. -/
  | refused {changed : Table} {refusal : Refusal} {result : Except Refusal Insertion}
      (hfresh : ∀ slot ∈ table.slots, slot.key ≠ slotKey route)
      (hadd : table.index.add route = (changed.index, some refusal))
      (hchanged : changed.slots = table.slots) : Inserts table route (changed, result)

theorem IsKeyed.inserts {table : Table} (hkeyed : table.IsKeyed) (route : Route) :
    Inserts table route (table.insert route) := by
  rw [insert]
  cases hfind : table.slots.find? (·.key = slotKey route) with
  | some slot =>
      have hslot := List.mem_of_find?_eq_some hfind
      have hkey : slot.key = slotKey route := by simpa using List.find?_some hfind
      obtain ⟨before, after, hslots, hsettled⟩ :=
        settle_slots (slot.receive table.policy route).1 hkeyed.keys hslot
      rw [← collide_slots] at hsettled
      have hindex : (table.collide slot route).1.index = table.index ∧
          (table.collide slot route).1.routes = table.routes ∨
          (table.collide slot route).1.index = Index.ofRoutes (table.collide slot route).1.routes := by
        rcases table.collide_index slot route with ⟨hpolicy, hkept⟩ | hrebuilt
        · refine Or.inl ⟨hkept, ?_⟩
          rw [routes, routes, hsettled, hslots, hpolicy]
          simp [Slot.receive]
        · exact Or.inr hrebuilt
      exact .settled hslots hkey hsettled hindex
  | none =>
      have hfresh : ∀ slot ∈ table.slots, slot.key ≠ slotKey route := by
        simpa using List.find?_eq_none.mp hfind
      simp only [openSlot]
      cases hadd : table.index.add route with
      | mk index refusal =>
          cases refusal with
          | none => exact .opened hfresh hadd rfl
          | some refusal =>
              cases refusal <;> exact .refused hfresh hadd rfl

/-- An accepted route is held besides all that were held before; only the index can refuse one. -/
theorem Inserts.held_perm {table changed : Table} {route : Route} {result : Except Refusal Insertion}
    (hinserts : Inserts table route (changed, result)) :
    (∃ insertion, result = .ok insertion) ∧ changed.held.Perm (route :: table.held) ∨
      (∀ slot ∈ table.slots, slot.key ≠ slotKey route) ∧ (table.index.add route).2 ≠ none ∧
        changed.held = table.held := by
  cases hinserts with
  | settled hslots hkey hchanged hindex =>
      next before after slot insertion =>
      refine Or.inl ⟨⟨insertion, rfl⟩, ?_⟩
      rw [held, held, hslots, hchanged]
      simp only [List.flatMap_append, List.flatMap_cons]
      have hslot := slot.routes_receive_perm table.policy route
      exact ((hslot.append_right _).append_left _).trans List.perm_middle
  | opened hfresh hadd hchanged =>
      refine Or.inl ⟨⟨.inserted, rfl⟩, ?_⟩
      rw [held, held, hchanged, List.flatMap_append]
      exact List.perm_append_singleton route _
  | refused hfresh hadd hchanged =>
      refine Or.inr ⟨hfresh, ?_, ?_⟩
      · rw [hadd]
        exact Option.some_ne_none _
      · rw [held, held, hchanged]

/-- Insertion brings no route but its own into the table. -/
theorem IsKeyed.mem_held_insert {table : Table} (hkeyed : table.IsKeyed) {route other : Route}
    (hother : other ∈ (table.insert route).1.held) : other = route ∨ other ∈ table.held := by
  rcases (hkeyed.inserts route).held_perm with ⟨-, hperm⟩ | ⟨-, -, heq⟩
  · exact List.mem_cons.mp (hperm.mem_iff.mp hother)
  · exact Or.inr (heq ▸ hother)

theorem IsKeyed.insert {table : Table} (hkeyed : table.IsKeyed) (route : Route) :
    (table.insert route).1.IsKeyed := by
  cases hinsert : table.insert route with
  | mk changed result =>
      have hinserts := hkeyed.inserts route
      rw [hinsert] at hinserts
      cases hinserts with
      | settled hslots hkey hchanged hindex =>
          next before after slot insertion =>
          have hreceived := slot.receive_key table.policy route
          refine ⟨?_, ?_⟩
          · have hkeys := hkeyed.keys
            rw [hslots, List.map_append, List.map_cons] at hkeys
            rw [hchanged, List.map_append, List.map_cons, hreceived]
            exact hkeys
          · intro other hother held hheld
            rw [hchanged, List.mem_append, List.mem_cons] at hother
            rcases hother with hbefore | rfl | hafter
            · exact hkeyed.held other (by simp [hslots, hbefore]) held hheld
            · have hperm := (slot.routes_receive_perm table.policy route).mem_iff (a := held)
              rw [hreceived]
              rcases List.mem_cons.mp (hperm.mp hheld) with rfl | hold
              · exact hkey.symm
              · exact hkeyed.held slot (by simp [hslots]) held hold
            · exact hkeyed.held other (by simp [hslots, hafter]) held hheld
      | opened hfresh hadd hchanged =>
          refine ⟨?_, ?_⟩
          · rw [hchanged, List.map_append, List.nodup_append]
            refine ⟨hkeyed.keys, List.nodup_singleton _, ?_⟩
            rintro key hold other hnew rfl
            obtain ⟨slot, hslot, rfl⟩ := List.mem_map.mp hold
            exact hfresh slot hslot (List.mem_singleton.mp hnew)
          · intro other hother held hheld
            rw [hchanged, List.mem_append, List.mem_singleton] at hother
            rcases hother with hold | rfl
            · exact hkeyed.held other hold held hheld
            · rw [Slot.routes, List.mem_singleton] at hheld
              rw [hheld]
      | refused hfresh hadd hchanged =>
          exact ⟨by rw [hchanged]; exact hkeyed.keys, by rw [hchanged]; exact hkeyed.held⟩

/-! ## Removal -/

theorem remove_slots (table : Table) (endpoint : EndpointKey) :
    (table.remove endpoint).1.slots = table.slots.filterMap (Slot.discard endpoint) := by
  rw [remove]
  split <;> rfl

/-- Removal opens no slots. -/
theorem remove_keys_sublist (table : Table) (endpoint : EndpointKey) :
    ((table.remove endpoint).1.slots.map (·.key)).Sublist (table.slots.map (·.key)) := by
  rw [remove_slots]
  induction table.slots with
  | nil => exact .slnil
  | cons slot rest ih =>
      rw [List.filterMap_cons, List.map_cons]
      cases hdiscard : slot.discard endpoint with
      | none => exact ih.cons _
      | some left =>
          rw [Slot.discard_eq] at hdiscard
          rw [List.map_cons, (Slot.ofRoutes?_eq_some hdiscard).1]
          exact ih.cons_cons _

theorem IsKeyed.remove {table : Table} (hkeyed : table.IsKeyed) (endpoint : EndpointKey) :
    (table.remove endpoint).1.IsKeyed := by
  refine ⟨hkeyed.keys.sublist (table.remove_keys_sublist endpoint), ?_⟩
  intro left hleft route hroute
  rw [remove_slots] at hleft
  obtain ⟨slot, hslot, hdiscard⟩ := List.mem_filterMap.mp hleft
  rw [Slot.discard_eq] at hdiscard
  obtain ⟨hkey, hroutes⟩ := Slot.ofRoutes?_eq_some hdiscard
  rw [hroutes] at hroute
  rw [hkey]
  exact hkeyed.held slot hslot route (List.mem_of_mem_filter hroute)

/-- Removal leaves the index and the serving routes as they are, or builds the index anew. -/
theorem remove_index (table : Table) (endpoint : EndpointKey) :
    (table.remove endpoint).1.index = table.index ∧
        (table.remove endpoint).1.routes = table.routes ∨
      (table.remove endpoint).1.index = Index.ofRoutes (table.remove endpoint).1.routes := by
  rw [remove]
  split
  · exact Or.inr rfl
  · next hserving =>
    refine Or.inl ⟨rfl, ?_⟩
    rw [Bool.not_eq_true, List.any_eq_false] at hserving
    revert hserving
    simp only [routes]
    induction table.slots with
    | nil => exact fun _ => rfl
    | cons slot rest ih =>
        intro hserving
        have hother : slot.serving.endpoint ≠ endpoint := by simpa using hserving slot (.head rest)
        have hrest := ih fun other hmem => hserving other (.tail slot hmem)
        rw [List.filterMap_cons, Slot.discard, if_neg hother, List.map_cons, List.map_cons, hrest]

/-! ## Runs -/

/-- The slots have different keys, the templates are well-formed, and the index holds exactly the
serving routes. -/
structure IsSound (table : Table) : Prop where
  keyed : table.IsKeyed
  well : ∀ route ∈ table.held, IsWellFormed route
  index : table.index.Holds table.routes

theorem isSound_empty (policy : CollisionPolicy) : (empty policy).IsSound where
  keyed := isKeyed_empty policy
  well := by
    intro route hroute
    cases hroute
  index := Index.holds_nil

/-- An index that was built anew holds the serving routes. -/
theorem IsKeyed.holds_of_eq {table : Table} (hkeyed : table.IsKeyed)
    (hwell : ∀ route ∈ table.held, IsWellFormed route)
    (hindex : table.index = Index.ofRoutes table.routes) : table.index.Holds table.routes := by
  rw [hindex]
  refine Index.holds_ofRoutes (fun route hroute => hwell route (mem_held_of_mem_routes hroute)) ?_
  rw [hkeyed.routes_keys]
  exact hkeyed.keys

/-- The index takes a well-formed route of a new key. -/
theorem IsSound.add {table : Table} (hsound : table.IsSound) {route : Route}
    (hwell : IsWellFormed route) (hfresh : ∀ slot ∈ table.slots, slot.key ≠ slotKey route) :
    ∃ grown, table.index.add route = (grown, none) ∧ grown.Holds (table.routes ++ [route]) := by
  refine hsound.index.add hwell fun other hother hkey => ?_
  obtain ⟨slot, hslot, rfl⟩ := List.mem_map.mp hother
  rw [hsound.keyed.held slot hslot _ (.head _)] at hkey
  exact hfresh slot hslot hkey

/-- A sound table takes every well-formed route. -/
theorem IsSound.held_insert {table : Table} (hsound : table.IsSound) {route : Route}
    (hwell : IsWellFormed route) :
    (∃ insertion, (table.insert route).2 = .ok insertion) ∧
      (table.insert route).1.held.Perm (route :: table.held) := by
  rcases (hsound.keyed.inserts route).held_perm with htaken | ⟨hfresh, hrefused, -⟩
  · exact htaken
  · obtain ⟨grown, hgrown, -⟩ := hsound.add hwell hfresh
    exact absurd (congrArg Prod.snd hgrown) hrefused

theorem IsSound.insert {table : Table} (hsound : table.IsSound) {route : Route}
    (hwell : IsWellFormed route) : (table.insert route).1.IsSound := by
  have hkeyed := hsound.keyed.insert route
  have hheld : ∀ other ∈ (table.insert route).1.held, IsWellFormed other := by
    intro other hother
    rcases hsound.keyed.mem_held_insert hother with rfl | hold
    · exact hwell
    · exact hsound.well other hold
  refine ⟨hkeyed, hheld, ?_⟩
  have hinserts := hsound.keyed.inserts route
  cases hinsert : table.insert route with
  | mk changed result =>
      rw [hinsert] at hinserts hkeyed hheld
      cases hinserts with
      | settled hslots hkey hchanged hindex =>
          rcases hindex with ⟨hindex, hroutes⟩ | hindex
          · rw [hindex, hroutes]
            exact hsound.index
          · exact hkeyed.holds_of_eq hheld hindex
      | opened hfresh hadd hchanged =>
          obtain ⟨grown, hgrown, hholds⟩ := hsound.add hwell hfresh
          rw [hadd] at hgrown
          cases hgrown
          rw [routes, hchanged, List.map_append]
          exact hholds
      | refused hfresh hadd hchanged =>
          obtain ⟨grown, hgrown, -⟩ := hsound.add hwell hfresh
          rw [hadd] at hgrown
          cases hgrown

theorem IsSound.remove {table : Table} (hsound : table.IsSound) (endpoint : EndpointKey) :
    (table.remove endpoint).1.IsSound := by
  have hkeyed := hsound.keyed.remove endpoint
  have hheld : ∀ route ∈ (table.remove endpoint).1.held, IsWellFormed route := by
    intro route hroute
    rw [held_remove] at hroute
    exact hsound.well route (List.mem_of_mem_filter hroute)
  refine ⟨hkeyed, hheld, ?_⟩
  rcases table.remove_index endpoint with ⟨hindex, hroutes⟩ | hindex
  · rw [hindex, hroutes]
    exact hsound.index
  · exact hkeyed.holds_of_eq hheld hindex

end Table

def Change.IsWellFormed : Change → Prop
  | .insert route => Route.IsWellFormed route
  | .remove _ => True

namespace Table

theorem IsKeyed.apply {table : Table} (hkeyed : table.IsKeyed) (change : Change) :
    (table.apply change).IsKeyed := by
  cases change with
  | insert route => exact hkeyed.insert route
  | remove endpoint => exact hkeyed.remove endpoint

theorem IsSound.apply {table : Table} (hsound : table.IsSound) {change : Change}
    (hwell : change.IsWellFormed) : (table.apply change).IsSound := by
  cases change with
  | insert route => exact hsound.insert hwell
  | remove endpoint => exact hsound.remove endpoint

theorem IsSound.run {table : Table} (hsound : table.IsSound) {changes : List Change}
    (hwell : ∀ change ∈ changes, change.IsWellFormed) : (table.run changes).IsSound := by
  induction changes generalizing table with
  | nil => exact hsound
  | cons change rest ih =>
      rw [run_cons]
      exact ih (hsound.apply (hwell change (.head rest))) fun other hother =>
        hwell other (.tail change hother)

theorem IsKeyed.mem_held_apply {table : Table} (hkeyed : table.IsKeyed) {change : Change}
    {route : Route} (hroute : route ∈ (table.apply change).held) :
    .insert route = change ∨ route ∈ table.held := by
  cases change with
  | insert inserted =>
      rcases hkeyed.mem_held_insert hroute with rfl | hold
      · exact Or.inl rfl
      · exact Or.inr hold
  | remove endpoint =>
      rw [Table.apply, held_remove] at hroute
      exact Or.inr (List.mem_of_mem_filter hroute)

/-- A run brings in no routes but those that it inserts. -/
theorem IsKeyed.mem_held_run {table : Table} (hkeyed : table.IsKeyed) {changes : List Change}
    {route : Route} (hroute : route ∈ (table.run changes).held) :
    route ∈ table.held ∨ .insert route ∈ changes := by
  induction changes generalizing table with
  | nil => exact Or.inl hroute
  | cons change rest ih =>
      rcases ih (hkeyed.apply change) hroute with hheld | hlater
      · rcases hkeyed.mem_held_apply hheld with rfl | hold
        · exact Or.inr (.head rest)
        · exact Or.inl hold
      · exact Or.inr (.tail change hlater)

end Table

end ApiGateway.Route
