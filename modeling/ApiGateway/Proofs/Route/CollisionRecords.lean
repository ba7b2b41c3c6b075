import ApiGateway.Proofs.Path.Alternation
import ApiGateway.Proofs.Route.Retention

/-!
# Records of collisions

An insertion leaves one record if it is answered as a collision, and none otherwise.  The record names the
route that serves after the collision and the one that does not, as long as the two look the same to the
index; this holds for all routes of one key, and also where one template spells out what stands for a
variable of the other.  A route that conflicts with others in the index but looks like none of them is
recorded as if it had been kept in its own place.
-/

namespace ApiGateway.Route

/-- The index cannot tell the two routes apart. -/
def Collides (left right : Route) : Prop :=
  indexMethod left = indexMethod right ∧ indexText left = indexText right

/-- Routes of one key collide. -/
theorem collides_of_slotKey_eq {left right : Route} (hkey : slotKey left = slotKey right) :
    Collides left right := by
  simp only [slotKey, SlotKey.mk.injEq] at hkey
  obtain ⟨hmethod, htemplate⟩ := hkey
  refine ⟨hmethod, ?_⟩
  calc
    indexText left = Path.Template.indexText (Path.Template.key left.template.toList) :=
      (Path.Template.indexText_key _).symm
    _ = Path.Template.indexText (Path.Template.key right.template.toList) := by rw [htemplate]
    _ = indexText right := Path.Template.indexText_key _

def collisionOf (route : Route) (kept discarded : EndpointKey) (policy : CollisionPolicy) : Collision :=
  ⟨indexMethod route, route.template, kept, discarded, policy⟩

namespace Table

inductive Recorded (table : Table) (route : Route) : Table × Except Refusal Insertion → Prop where
  /-- There was no collision, and nothing is recorded. -/
  | silent {changed : Table} {result : Except Refusal Insertion}
      (hresult : result = .ok .inserted ∨ ∃ refusal, result = .error refusal)
      (hrecords : changed.collisions = table.collisions) : Recorded table route (changed, result)
  /-- The route that served goes on serving, and the new one is recorded as discarded. -/
  | rejected {changed : Table} {serving : Route} (hbefore : serving ∈ table.routes)
      (hafter : serving ∈ changed.routes) (hcollides : Collides serving route)
      (hrecords : changed.collisions =
        table.collisions ++ [collisionOf route serving.endpoint route.endpoint .reject]) :
      Recorded table route (changed, .ok .rejected)
  /-- The new route serves, and the one that served goes on standby and is recorded as discarded. -/
  | replaced {changed : Table} {slot : Slot} {displaced : Route} (hbefore : displaced ∈ table.routes)
      (hslot : slot ∈ changed.slots) (hserving : slot.serving = route)
      (hstandby : displaced ∈ slot.standby) (hcollides : Collides displaced route)
      (hrecords : changed.collisions =
        table.collisions ++ [collisionOf route route.endpoint displaced.endpoint .replace]) :
      Recorded table route (changed, .ok .replaced)
  /-- No serving route looks like the new one, which is recorded both as kept and as discarded. -/
  | unnamed {changed : Table} (halone : ∀ serving ∈ table.routes, ¬ Collides serving route)
      (hslots : changed.slots = table.slots)
      (hrecords : changed.collisions =
        table.collisions ++ [collisionOf route route.endpoint route.endpoint .reject]) :
      Recorded table route (changed, .ok .rejected)

/-! ## Looking up a text -/

/-- A slot is looked up by the text of the route that serves it. -/
theorem IsKeyed.slot_text {table : Table} (hkeyed : table.IsKeyed) {slot : Slot}
    (hslot : slot ∈ table.slots) :
    slot.key.method = indexMethod slot.serving ∧
      Path.Template.indexText slot.key.template = indexText slot.serving := by
  have hkey := hkeyed.held slot hslot slot.serving (.head _)
  rw [← hkey]
  exact ⟨rfl, Path.Template.indexText_key _⟩

/-- The endpoint that is found for the text of a route serves a route that collides with it. -/
theorem IsKeyed.servingText?_eq_some {table : Table} (hkeyed : table.IsKeyed) {route : Route}
    {endpoint : EndpointKey}
    (hfound : table.servingText? (indexMethod route) (indexText route) = some endpoint) :
    ∃ serving ∈ table.routes, serving.endpoint = endpoint ∧ Collides serving route := by
  rw [servingText?, Option.map_eq_some_iff] at hfound
  obtain ⟨slot, hfind, rfl⟩ := hfound
  have hslot := List.mem_of_find?_eq_some hfind
  have hlooks := List.find?_some hfind
  rw [decide_eq_true_iff] at hlooks
  obtain ⟨hmethod, htext⟩ := hkeyed.slot_text hslot
  refine ⟨slot.serving, List.mem_map_of_mem hslot, rfl, ?_, ?_⟩
  · rw [← hmethod, hlooks.1]
  · rw [← htext, hlooks.2]

/-- If no endpoint is found for the text of a route, no serving route collides with it. -/
theorem IsKeyed.servingText?_eq_none {table : Table} (hkeyed : table.IsKeyed) {route : Route}
    (hnone : table.servingText? (indexMethod route) (indexText route) = none) :
    ∀ serving ∈ table.routes, ¬ Collides serving route := by
  intro serving hserving hcollides
  obtain ⟨slot, hslot, rfl⟩ := List.mem_map.mp hserving
  obtain ⟨hmethod, htext⟩ := hkeyed.slot_text hslot
  rw [servingText?, Option.map_eq_none_iff, List.find?_eq_none] at hnone
  refine hnone slot hslot ?_
  rw [decide_eq_true_iff, hmethod, htext]
  exact hcollides

/-! ## Insertion -/

/-- The slot of the route's key settles the collision and records it. -/
theorem IsKeyed.recorded_collide {table : Table} (hkeyed : table.IsKeyed) {slot : Slot} {route : Route}
    (hslot : slot ∈ table.slots) (hkey : slot.key = slotKey route) :
    Recorded table route ((table.collide slot route).1, .ok (table.collide slot route).2) := by
  have hbefore : slot.serving ∈ table.routes := List.mem_map_of_mem hslot
  have hcollides : Collides slot.serving route :=
    collides_of_slotKey_eq ((hkeyed.held slot hslot _ (.head _)).trans hkey)
  have hmethod : slot.key.method = indexMethod route := by rw [hkey, slotKey]
  have hsettled : (slot.receive table.policy route).1 ∈ (table.collide slot route).1.slots := by
    rw [collide_slots]
    exact List.mem_map.mpr ⟨slot, hslot, if_pos rfl⟩
  cases hpolicy : table.policy with
  | reject =>
      have hanswer : (table.collide slot route).2 = .rejected := by simp only [collide, hpolicy]
      rw [hpolicy] at hsettled
      rw [hanswer]
      refine .rejected hbefore (List.mem_map.mpr ⟨_, hsettled, rfl⟩) hcollides ?_
      simp only [collide, hpolicy, Slot.receive, collisionOf, hmethod]
  | replace =>
      have hanswer : (table.collide slot route).2 = .replaced := by simp only [collide, hpolicy]
      rw [hpolicy] at hsettled
      rw [hanswer]
      refine .replaced hbefore hsettled rfl ?_ hcollides ?_
      · exact List.mem_append_right _ (.head _)
      · simp only [collide, hpolicy, reindex, Slot.receive, collisionOf, hmethod]

/-- A conflict in the index is recorded with the endpoint that serves the text of the route, if there is
one. -/
theorem IsKeyed.recorded_openSlot {table : Table} (hkeyed : table.IsKeyed) (route : Route) :
    Recorded table route (table.openSlot route) := by
  unfold openSlot
  cases hadd : table.index.add route with
  | mk index refusal =>
      cases refusal with
      | none => exact .silent (Or.inl rfl) rfl
      | some refusal =>
          cases refusal with
          | conflict =>
              cases hserving : table.servingText? (indexMethod route) (indexText route) with
              | none =>
                  refine .unnamed (hkeyed.servingText?_eq_none hserving) rfl ?_
                  have hchanged : ({ table with index } : Table).servingText? (indexMethod route)
                      (indexText route) = none := hserving
                  simp only [hchanged, Option.getD_none, collisionOf]
              | some endpoint =>
                  obtain ⟨serving, hmem, rfl, hcollides⟩ := hkeyed.servingText?_eq_some hserving
                  refine .rejected hmem hmem hcollides ?_
                  have hchanged : ({ table with index } : Table).servingText? (indexMethod route)
                      (indexText route) = some serving.endpoint := hserving
                  simp only [hchanged, Option.getD_some, collisionOf]
          | crowdedSegment => exact .silent (Or.inr ⟨_, rfl⟩) rfl
          | unnamedParameter => exact .silent (Or.inr ⟨_, rfl⟩) rfl
          | misplacedRemainder => exact .silent (Or.inr ⟨_, rfl⟩) rfl
          | tooManyParameters => exact .silent (Or.inr ⟨_, rfl⟩) rfl

theorem IsKeyed.recorded_insert {table : Table} (hkeyed : table.IsKeyed) (route : Route) :
    Recorded table route (table.insert route) := by
  unfold Table.insert
  cases hfind : table.slots.find? (·.key = slotKey route) with
  | none => exact hkeyed.recorded_openSlot route
  | some slot =>
      have hkey : slot.key = slotKey route := by simpa using List.find?_some hfind
      exact hkeyed.recorded_collide (List.mem_of_find?_eq_some hfind) hkey

/-- After every run, whatever the templates look like, an insertion that is answered as a collision leaves
exactly one record, and any other leaves none.  The record names as kept the route that serves afterwards
and as discarded the one that does not, and the two collide; except for a rejected route that collides
with no serving route, which takes both places of its record. -/
theorem recorded_run_insert (policy : CollisionPolicy) (changes : List Change) (route : Route) :
    Recorded ((empty policy).run changes) route (((empty policy).run changes).insert route) := by
  have hkeyed := (isKeyed_empty policy).run changes
  exact hkeyed.recorded_insert route

/-- The endpoint that a record names as kept need not serve: a route that conflicts in the index is
recorded in its own place. -/
theorem not_kept_serves : ¬ ∀ (policy : CollisionPolicy) (changes : List Change) (route : Route),
    (∀ other, .insert other ∈ changes ++ [.insert route] → other.template.toList.head? = some '/') →
    (((empty policy).run changes).insert route).2 = .ok .rejected →
    ∃ collision, (((empty policy).run changes).insert route).1.collisions =
        ((empty policy).run changes).collisions ++ [collision] ∧
      ∃ kept ∈ (((empty policy).run changes).insert route).1.routes, collision.kept = kept.endpoint := by
  intro hfaithful
  have hslashed : ∀ other, Change.insert other ∈ [.insert peopleRoute] ++ [.insert exportRoute] →
      other.template.toList.head? = some '/' := by
    intro other hother
    simp only [List.cons_append, List.nil_append, List.mem_cons, List.not_mem_nil, or_false,
      Change.insert.injEq] at hother
    rcases hother with rfl | rfl <;> rfl
  have hrejected : (((empty .reject).run [.insert peopleRoute]).insert exportRoute).2 =
      .ok .rejected := by
    decide +kernel
  obtain ⟨collision, hrecords, kept, hkept, hendpoint⟩ :=
    hfaithful .reject [.insert peopleRoute] exportRoute hslashed hrejected
  have hactual : (((empty .reject).run [.insert peopleRoute]).insert exportRoute).1.collisions =
      ((empty .reject).run [.insert peopleRoute]).collisions ++
        [collisionOf exportRoute exportRoute.endpoint exportRoute.endpoint .reject] := by
    decide +kernel
  have hroutes : (((empty .reject).run [.insert peopleRoute]).insert exportRoute).1.routes =
      [peopleRoute] := by
    decide +kernel
  rw [hactual, List.append_cancel_left_eq, List.singleton_inj] at hrecords
  rw [hroutes, List.mem_singleton] at hkept
  rw [← hrecords, hkept] at hendpoint
  exact absurd hendpoint (by decide)

end Table

end ApiGateway.Route
