import ApiGateway.Proofs.Route.TableRun
import Mathlib.Data.List.Induction

/-!
# Succession

The routes held under one key stand in a line, the serving route in front and the others behind it in
the order of their standby.  A run changes each line for itself: the index refuses no well-formed
template, so the line of a key is what the changes make of it in turn.  Under rejection it is the queue of
the routes that survive.  Under replacement the latest route serves until it is removed, and then the one
that was displaced first.
-/

namespace ApiGateway.Route

/-! ## Lines -/

/-- The line of a key once a further route has come to it, the serving route in front. -/
def CollisionPolicy.admit (policy : CollisionPolicy) (route : Route) : List Route → List Route
  | [] => [route]
  | serving :: standby =>
      match policy with
      | .reject => serving :: (standby ++ [route])
      | .replace => route :: (standby ++ [serving])

@[simp]
theorem CollisionPolicy.admit_nil (policy : CollisionPolicy) (route : Route) :
    policy.admit route [] = [route] := rfl

/-- Under rejection the line is a queue. -/
theorem CollisionPolicy.admit_reject (route : Route) (line : List Route) :
    reject.admit route line = line ++ [route] := by
  cases line <;> rfl

theorem Slot.routes_receive (slot : Slot) (policy : CollisionPolicy) (route : Route) :
    (slot.receive policy route).1.routes = policy.admit route slot.routes := by
  cases policy <;> rfl

theorem Slot.ofRoutes?_routes (slot : Slot) : ofRoutes? slot.key slot.routes = some slot := rfl

namespace Table

def slot? (table : Table) (key : SlotKey) : Option Slot :=
  table.slots.find? (·.key = key)

/-- The routes that are held under a key, the serving route in front. -/
def line (table : Table) (key : SlotKey) : List Route :=
  table.held.filter (slotKey · = key)

/-- There is a slot for the route, or the index takes a new one. -/
def Takes (table : Table) (route : Route) : Prop :=
  (table.slot? (slotKey route)).isSome ∨ (table.index.add route).2 = none

theorem slot?_eq_none_iff {table : Table} {key : SlotKey} :
    table.slot? key = none ↔ ∀ slot ∈ table.slots, slot.key ≠ key := by
  simp [slot?]

theorem not_takes {table : Table} {route : Route} (hnot : ¬ table.Takes route) :
    table.slot? (slotKey route) = none ∧ (table.index.add route).2 ≠ none := by
  unfold Takes at hnot
  rw [not_or, Bool.not_eq_true, Option.isSome_eq_false_iff, Option.isNone_iff_eq_none] at hnot
  exact hnot

theorem mem_of_slot? {table : Table} {key : SlotKey} {slot : Slot}
    (hslot : table.slot? key = some slot) : slot ∈ table.slots ∧ slot.key = key :=
  ⟨List.mem_of_find?_eq_some hslot, by simpa using List.find?_some hslot⟩

section

variable {table : Table} (hkeyed : table.IsKeyed)

include hkeyed

theorem IsKeyed.filter_routes {slot : Slot} (hslot : slot ∈ table.slots) (key : SlotKey) :
    slot.routes.filter (slotKey · = key) = if slot.key = key then slot.routes else [] := by
  have hkeys := hkeyed.held slot hslot
  by_cases heq : slot.key = key
  · rw [if_pos heq, List.filter_eq_self]
    intro route hroute
    exact decide_eq_true ((hkeys route hroute).trans heq)
  · rw [if_neg heq, List.filter_eq_nil_iff]
    intro route hroute hkey
    exact heq ((hkeys route hroute).symm.trans (of_decide_eq_true hkey))

theorem IsKeyed.line_eq_nil {key : SlotKey} (hfresh : ∀ slot ∈ table.slots, slot.key ≠ key) :
    table.line key = [] := by
  unfold line Table.held
  rw [List.filter_flatMap, List.flatMap_eq_nil_iff]
  intro slot hslot
  rw [hkeyed.filter_routes hslot, if_neg (hfresh slot hslot)]

/-- The line of a key with a slot are the routes of the slot. -/
theorem IsKeyed.line_eq {slot : Slot} (hslot : slot ∈ table.slots) :
    table.line slot.key = slot.routes := by
  obtain ⟨before, after, hslots⟩ := List.append_of_mem hslot
  have hkeys := hkeyed.keys
  rw [hslots, List.map_append, List.map_cons, List.nodup_append, List.nodup_cons] at hkeys
  obtain ⟨-, ⟨hafter, -⟩, hbefore⟩ := hkeys
  have hothers : ∀ others : List Slot, (∀ other ∈ others, other ∈ table.slots ∧ other.key ≠ slot.key) →
      others.flatMap (fun other => other.routes.filter (slotKey · = slot.key)) = [] := by
    intro others hother
    rw [List.flatMap_eq_nil_iff]
    intro other hmem
    rw [hkeyed.filter_routes (hother other hmem).1, if_neg (hother other hmem).2]
  unfold line Table.held
  rw [List.filter_flatMap, hslots, List.flatMap_append, List.flatMap_cons, hothers before,
    hothers after, hkeyed.filter_routes hslot, if_pos rfl, List.nil_append, List.append_nil]
  · intro other hother
    refine ⟨by simp [hslots, hother], fun heq => ?_⟩
    exact hafter (heq ▸ List.mem_map_of_mem hother)
  · intro other hother
    refine ⟨by simp [hslots, hother], fun heq => ?_⟩
    exact hbefore other.key (List.mem_map_of_mem hother) slot.key (.head _) heq

theorem IsKeyed.slot?_eq (key : SlotKey) : table.slot? key = Slot.ofRoutes? key (table.line key) := by
  cases hslot : table.slot? key with
  | none =>
      rw [hkeyed.line_eq_nil (slot?_eq_none_iff.mp hslot)]
      rfl
  | some slot =>
      obtain ⟨hmem, rfl⟩ := mem_of_slot? hslot
      rw [hkeyed.line_eq hmem, Slot.ofRoutes?_routes]

end

/-! ## Changes of a line -/

/-- A route that is taken joins the line of its key; the other lines stay. -/
theorem IsKeyed.line_insert {table : Table} (hkeyed : table.IsKeyed) {route : Route}
    (htakes : table.Takes route) (key : SlotKey) :
    (table.insert route).1.line key =
      if slotKey route = key then table.policy.admit route (table.line key) else table.line key := by
  have hchangedKeyed := hkeyed.insert route
  have hinserts := hkeyed.inserts route
  cases hinsert : table.insert route with
  | mk changed result =>
      rw [hinsert] at hinserts hchangedKeyed
      cases hinserts with
      | settled hslots hslotKey hchanged hindex =>
          next before after slot insertion =>
          have hold : slot ∈ table.slots := by simp [hslots]
          have hnew : (slot.receive table.policy route).1 ∈ changed.slots := by simp [hchanged]
          have hkept := slot.receive_key table.policy route
          by_cases hkey : slotKey route = key
          · have hline := hchangedKeyed.line_eq hnew
            rw [hkept, slot.routes_receive, ← hkeyed.line_eq hold, hslotKey, hkey] at hline
            rw [if_pos hkey, hline]
          · have hne : slot.key ≠ key := hslotKey ▸ hkey
            rw [if_neg hkey]
            unfold line Table.held
            rw [hslots, hchanged]
            simp only [List.flatMap_append, List.flatMap_cons, List.filter_append,
              hkeyed.filter_routes hold, hchangedKeyed.filter_routes hnew, hkept, if_neg hne]
      | opened hfresh hadd hchanged =>
          by_cases hkey : slotKey route = key
          · have hnew : (⟨slotKey route, route, []⟩ : Slot) ∈ changed.slots := by simp [hchanged]
            have hline := hchangedKeyed.line_eq hnew
            rw [if_pos hkey, hkeyed.line_eq_nil (hkey ▸ hfresh), CollisionPolicy.admit_nil, ← hkey]
            exact hline
          · rw [if_neg hkey]
            unfold line Table.held
            rw [hchanged, List.flatMap_append, List.filter_append]
            simp [Slot.routes, hkey]
      | refused hfresh hadd hchanged =>
          rcases htakes with hslot | hadded
          · rw [slot?_eq_none_iff.mpr hfresh] at hslot
            cases hslot
          · rw [hadd] at hadded
            cases hadded

/-- Removal takes the routes of the endpoint out of every line. -/
theorem line_remove (table : Table) (endpoint : EndpointKey) (key : SlotKey) :
    (table.remove endpoint).1.line key = (table.line key).filter (·.endpoint != endpoint) := by
  unfold line
  rw [held_remove, List.filter_filter, List.filter_filter]
  simp only [Bool.and_comm]

/-! ## Answers -/

@[simp]
theorem policy_insert (table : Table) (route : Route) :
    (table.insert route).1.policy = table.policy := by
  unfold insert
  split
  · cases hpolicy : table.policy <;> simp only [collide, hpolicy, reindex]
  · unfold openSlot
    simp only
    split <;> rfl

@[simp]
theorem policy_remove (table : Table) (endpoint : EndpointKey) :
    (table.remove endpoint).1.policy = table.policy := by
  unfold remove
  split <;> rfl

theorem policy_run (table : Table) (changes : List Change) :
    (table.run changes).policy = table.policy := by
  induction changes generalizing table with
  | nil => rfl
  | cons change rest ih =>
      rw [run_cons, ih]
      cases change with
      | insert route => exact policy_insert table route
      | remove endpoint => exact policy_remove table endpoint

end Table

def CollisionPolicy.answer : CollisionPolicy → Insertion
  | .reject => .rejected
  | .replace => .replaced

namespace Table

theorem insert_of_slot? {table : Table} {route : Route} {slot : Slot}
    (hslot : table.slot? (slotKey route) = some slot) :
    (table.insert route).2 = .ok table.policy.answer := by
  unfold slot? at hslot
  unfold insert
  simp only [hslot]
  cases hpolicy : table.policy <;> simp only [collide, hpolicy, CollisionPolicy.answer]

theorem IsSound.insert_of_slot?_eq_none {table : Table} (hsound : table.IsSound) {route : Route}
    (hwell : IsWellFormed route) (hslot : table.slot? (slotKey route) = none) :
    (table.insert route).2 = .ok .inserted := by
  obtain ⟨grown, hadd, -⟩ := hsound.add hwell (slot?_eq_none_iff.mp hslot)
  unfold slot? at hslot
  unfold Table.insert openSlot
  simp only [hslot, hadd]

/-- Removal tells whether the endpoint served a key. -/
theorem IsKeyed.remove_iff {table : Table} (hkeyed : table.IsKeyed) (endpoint : EndpointKey) :
    (table.remove endpoint).2 = true ↔
      ∃ key slot, table.slot? key = some slot ∧ slot.serving.endpoint = endpoint := by
  have hserves : (table.remove endpoint).2 = true ↔
      ∃ slot ∈ table.slots, slot.serving.endpoint = endpoint := by
    unfold Table.remove
    split <;> simp_all
  rw [hserves]
  constructor
  · rintro ⟨slot, hslot, hendpoint⟩
    exact ⟨slot.key, slot, by rw [hkeyed.slot?_eq, hkeyed.line_eq hslot, slot.ofRoutes?_routes], hendpoint⟩
  · rintro ⟨key, slot, hslot, hendpoint⟩
    exact ⟨slot, (mem_of_slot? hslot).1, hendpoint⟩

end Table

/-! ## Runs of a line -/

instance : (change : Change) → Decidable change.IsWellFormed
  | .insert route => inferInstanceAs (Decidable (IsWellFormed route))
  | .remove _ => inferInstanceAs (Decidable True)

def Change.advance (policy : CollisionPolicy) (key : SlotKey) (line : List Route) : Change → List Route
  | .insert route => if slotKey route = key then policy.admit route line else line
  | .remove endpoint => line.filter (·.endpoint != endpoint)

/-- The routes that are inserted and whose endpoints no later change removes, in the order of their
insertion. -/
def survivors : List Change → List Route
  | [] => []
  | .insert route :: rest =>
      if .remove route.endpoint ∈ rest then survivors rest else route :: survivors rest
  | .remove _ :: rest => survivors rest

namespace Table

/-- The index takes every well-formed route of a new key. -/
theorem IsSound.takes {table : Table} (hsound : table.IsSound) {route : Route}
    (hwell : IsWellFormed route) : table.Takes route := by
  cases hslot : table.slot? (slotKey route) with
  | some slot =>
      left
      rw [hslot]
      rfl
  | none =>
      right
      obtain ⟨grown, hadd, -⟩ := hsound.add hwell (slot?_eq_none_iff.mp hslot)
      rw [hadd]

theorem IsSound.line_apply {table : Table} (hsound : table.IsSound) {change : Change}
    (hwell : change.IsWellFormed) (key : SlotKey) :
    (table.apply change).line key = change.advance table.policy key (table.line key) := by
  cases change with
  | remove endpoint => exact line_remove table endpoint key
  | insert route =>
      exact hsound.keyed.line_insert (hsound.takes hwell) key

/-- The line of a key depends on the changes alone, and on no other key. -/
theorem IsSound.line_run {table : Table} (hsound : table.IsSound) {changes : List Change}
    (hwell : ∀ change ∈ changes, change.IsWellFormed) (key : SlotKey) :
    (table.run changes).line key =
      changes.foldl (Change.advance table.policy key) (table.line key) := by
  induction changes generalizing table with
  | nil => rfl
  | cons change rest ih =>
      have hchange := hwell change (.head rest)
      have hpolicy : (table.apply change).policy = table.policy := policy_run table [change]
      rw [run_cons, ih (hsound.apply hchange) fun other hother => hwell other (.tail change hother),
        hpolicy, hsound.line_apply hchange, List.foldl_cons]

/-- After a run from the empty table, the slot of a key is the line that the changes make. -/
theorem slot?_run (policy : CollisionPolicy) {changes : List Change}
    (hwell : ∀ change ∈ changes, change.IsWellFormed) (key : SlotKey) :
    ((empty policy).run changes).slot? key =
      Slot.ofRoutes? key (changes.foldl (Change.advance policy key) []) := by
  have hsound := isSound_empty policy
  rw [(hsound.run hwell).keyed.slot?_eq, hsound.line_run hwell]
  rfl

end Table

/-- Under rejection a line keeps the order of insertion. -/
theorem foldl_advance_reject (key : SlotKey) (line : List Route) (changes : List Change) :
    changes.foldl (Change.advance .reject key) line =
      line.filter (fun route => .remove route.endpoint ∉ changes) ++
        (survivors changes).filter (slotKey · = key) := by
  induction changes generalizing line with
  | nil => simp [survivors]
  | cons change rest ih =>
      rw [List.foldl_cons, ih]
      cases change with
      | insert route =>
          by_cases hkey : slotKey route = key <;> by_cases hremoved : .remove route.endpoint ∈ rest <;>
            simp [Change.advance, survivors, CollisionPolicy.admit_reject, hkey, hremoved]
      | remove endpoint =>
          have hkept : ∀ route ∈ line, (decide (.remove route.endpoint ∉ rest) && route.endpoint != endpoint) =
              decide (.remove route.endpoint ∉ .remove endpoint :: rest) := by
            intro route _
            rw [Bool.eq_iff_iff]
            simp [and_comm]
          rw [Change.advance, survivors, List.filter_filter, List.filter_congr hkept]

namespace Table

/-- Under rejection, the serving route of a key is the earliest that survives, the other survivors are on
standby in the order of their insertion, and a key without survivors has no slot.  A route is inserted
if its key has no slot and else rejected; removal tells whether the endpoint served a key. -/
theorem slot?_run_reject (changes : List Change)
    (hwell : ∀ change ∈ changes, change.IsWellFormed) :
    (∀ key, ((empty .reject).run changes).slot? key =
      Slot.ofRoutes? key ((survivors changes).filter (slotKey · = key))) ∧
    (∀ route, IsWellFormed route → (((empty .reject).run changes).insert route).2 =
      .ok (if ((empty .reject).run changes).slot? (slotKey route) = none then .inserted
        else .rejected)) ∧
    ∀ endpoint, (((empty .reject).run changes).remove endpoint).2 = true ↔
      ∃ key slot, ((empty .reject).run changes).slot? key = some slot ∧
        slot.serving.endpoint = endpoint := by
  have hsound := (isSound_empty .reject).run hwell
  refine ⟨?_, ?_, hsound.keyed.remove_iff⟩
  · intro key
    rw [slot?_run .reject hwell, foldl_advance_reject, List.filter_nil, List.nil_append]
  · intro route hroute
    cases hslot : ((empty .reject).run changes).slot? (slotKey route) with
    | none => exact hsound.insert_of_slot?_eq_none hroute hslot
    | some slot =>
        rw [insert_of_slot? hslot, policy_run]
        rfl

def reportRoute (template application : String) : Route :=
  ⟨application, [.path template, .method .get], [], "lb://" ++ application, application,
    ⟨application, .get, template⟩⟩

def alphaReport : Route := reportRoute "/reports/\x7bid\x7d" "alpha"

def betaReport : Route := reportRoute "/reports/\x7bname\x7d" "beta"

def gammaReport : Route := reportRoute "/reports/\x7bid\x7d" "gamma"

/-- Three applications offer the same path; the first one goes and comes back. -/
def returningChanges : List Change :=
  [.insert alphaReport, .insert betaReport, .insert gammaReport, .remove alphaReport.endpoint,
    .insert alphaReport]

theorem slot?_run_reject_reports :
    ((empty .reject).run returningChanges).slot? (slotKey alphaReport) =
      some ⟨slotKey alphaReport, betaReport, [gammaReport, alphaReport]⟩ := by
  rw [(slot?_run_reject returningChanges (by decide)).1]
  decide +kernel

end Table

/-! ## The latest route -/

theorem CollisionPolicy.admit_replace (route : Route) (line : List Route) :
    ∃ standby, replace.admit route line = route :: standby := by
  cases line with
  | nil => exact ⟨[], rfl⟩
  | cons serving standby => exact ⟨standby ++ [serving], rfl⟩

/-- A serving route serves on while it is not removed and no route of its key comes. -/
theorem foldl_advance_cons (policy : CollisionPolicy) {key : SlotKey} {serving : Route}
    (standby : List Route) {changes : List Change}
    (hlast : ∀ other, .insert other ∈ changes → slotKey other ≠ key)
    (hkept : .remove serving.endpoint ∉ changes) :
    ∃ left, changes.foldl (Change.advance policy key) (serving :: standby) = serving :: left := by
  induction changes generalizing standby with
  | nil => exact ⟨standby, rfl⟩
  | cons change rest ih =>
      rw [List.mem_cons, not_or] at hkept
      have hrest := fun standby => ih standby (fun other hother => hlast other (.tail change hother)) hkept.2
      cases change with
      | insert other =>
          rw [List.foldl_cons, Change.advance, if_neg (hlast other (.head rest))]
          exact hrest standby
      | remove endpoint =>
          have hne : (serving.endpoint != endpoint) = true := by
            rw [bne_iff_ne]
            exact fun heq => hkept.1 (heq ▸ rfl)
          rw [List.foldl_cons, Change.advance, List.filter_cons, if_pos hne]
          exact hrest _

/-- Under replacement, routes of one key are displaced in the order in which they come. -/
theorem foldl_admit_replace (routes : List Route) (last : Route) :
    (routes ++ [last]).foldl (fun line route => CollisionPolicy.replace.admit route line) [] =
      last :: routes := by
  induction routes using List.reverseRecOn generalizing last with
  | nil => rfl
  | append_singleton routes latest ih => rw [List.foldl_append, ih latest]; rfl

/-- A removal brings no template. -/
theorem Change.isWellFormed_of_mem_append_remove {changes : List Change}
    (hwell : ∀ change ∈ changes, change.IsWellFormed) (endpoint : EndpointKey) :
    ∀ change ∈ changes ++ [.remove endpoint], change.IsWellFormed := by
  intro change hchange
  rcases List.mem_append.mp hchange with hold | hremoval
  · exact hwell change hold
  · rw [List.mem_singleton.mp hremoval]
    trivial

namespace Table

/-- Under replacement, the latest route of a key serves until it is removed, whatever comes to other keys
and whatever leaves the line behind it.  When it is removed, the first on standby serves, if any is left. -/
theorem serving_run_replace (before after : List Change) (route : Route)
    (hwell : ∀ change ∈ before ++ .insert route :: after, change.IsWellFormed)
    (hlast : ∀ other, .insert other ∈ after → slotKey other ≠ slotKey route)
    (hkept : .remove route.endpoint ∉ after) :
    ∃ standby, ((empty .replace).run (before ++ .insert route :: after)).slot? (slotKey route) =
        some ⟨slotKey route, route, standby⟩ ∧
      ((empty .replace).run (before ++ .insert route :: after ++ [.remove route.endpoint])).slot?
        (slotKey route) = Slot.ofRoutes? (slotKey route) (standby.filter (·.endpoint != route.endpoint)) := by
  have hremoved := Change.isWellFormed_of_mem_append_remove hwell route.endpoint
  obtain ⟨waiting, hadmit⟩ := CollisionPolicy.admit_replace route
    (before.foldl (Change.advance .replace (slotKey route)) [])
  obtain ⟨standby, hline⟩ := foldl_advance_cons .replace waiting hlast hkept
  have hrun : (before ++ .insert route :: after).foldl (Change.advance .replace (slotKey route)) [] =
      route :: standby := by
    rw [List.foldl_append, List.foldl_cons, Change.advance, if_pos rfl, hadmit, hline]
  refine ⟨standby, ?_, ?_⟩
  · rw [slot?_run .replace hwell, hrun]
    rfl
  · rw [slot?_run .replace hremoved, List.foldl_append, hrun]
    simp [Change.advance]

/-- The last of three applications that offer the same path serves it, also when the second one goes. -/
theorem serving_run_replace_reports :
    ∃ standby, ((empty .replace).run [.insert alphaReport, .insert betaReport, .insert gammaReport,
        .remove betaReport.endpoint]).slot? (slotKey gammaReport) =
      some ⟨slotKey gammaReport, gammaReport, standby⟩ := by
  obtain ⟨standby, hserving, -⟩ := serving_run_replace [.insert alphaReport, .insert betaReport]
    [.remove betaReport.endpoint] gammaReport (by decide) (by simp) (by decide)
  exact ⟨standby, hserving⟩

/-- If the latest of several routes of one key goes, the one that came first serves, and not the one that
came before the latest. -/
theorem slot?_run_displaced (routes : List Route) (last : Route)
    (hwell : ∀ route ∈ routes ++ [last], IsWellFormed route)
    (hkeys : ∀ route ∈ routes, slotKey route = slotKey last)
    (hothers : ∀ route ∈ routes, route.endpoint ≠ last.endpoint) :
    ((empty .replace).run ((routes ++ [last]).map Change.insert ++ [Change.remove last.endpoint])).slot?
      (slotKey last) = Slot.ofRoutes? (slotKey last) routes := by
  have hinserted : ∀ change ∈ (routes ++ [last]).map Change.insert, change.IsWellFormed := by
    intro change hchange
    obtain ⟨route, hroute, rfl⟩ := List.mem_map.mp hchange
    exact hwell route hroute
  have hchanges := Change.isWellFormed_of_mem_append_remove hinserted last.endpoint
  have hline : ((routes ++ [last]).map Change.insert).foldl
      (Change.advance .replace (slotKey last)) [] = last :: routes := by
    rw [List.foldl_map, ← foldl_admit_replace routes last]
    refine List.foldl_ext _ _ _ ?_
    intro line route hroute
    rw [Change.advance, if_pos]
    rcases List.mem_append.mp hroute with hold | hlast
    · exact hkeys route hold
    · rw [List.mem_singleton.mp hlast]
  have hkept : routes.filter (·.endpoint != last.endpoint) = routes := by
    rw [List.filter_eq_self]
    intro route hroute
    exact bne_iff_ne.mpr (hothers route hroute)
  rw [slot?_run .replace hchanges, List.foldl_append, hline]
  simp [Change.advance, hkept]

/-- Three applications offer the same path, and the last one goes. -/
def displacingChanges : List Change :=
  [.insert alphaReport, .insert betaReport, .insert gammaReport, .remove gammaReport.endpoint]

/-- It is not always the latest survivor that serves: once the last of three routes of one key goes, the
first one serves. -/
theorem not_latest_serves : ¬ ∀ changes : List Change, (∀ change ∈ changes, change.IsWellFormed) →
    ∀ key slot, ((empty .replace).run changes).slot? key = some slot →
      ((survivors changes).filter (slotKey · = key)).getLast? = some slot.serving := by
  intro hlatest
  have hserving : ((empty .replace).run displacingChanges).slot? (slotKey gammaReport) =
      some ⟨slotKey gammaReport, alphaReport, [betaReport]⟩ :=
    slot?_run_displaced [alphaReport, betaReport] gammaReport (by decide) (by decide +kernel)
      (by decide)
  have hlast := hlatest displacingChanges (by decide) (slotKey gammaReport) _ hserving
  revert hlast
  decide +kernel

end Table

end ApiGateway.Route
