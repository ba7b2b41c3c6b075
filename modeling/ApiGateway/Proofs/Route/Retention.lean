import ApiGateway.Proofs.Route.Succession

/-!
# Retention

A route that comes to a slot, or for which one is opened, is held until its endpoint is removed, whatever
its template looks like and whatever else happens to the table.  A route of a new key that conflicts with
others in the index is answered as a collision, but it is not held.
-/

namespace ApiGateway.Route

namespace Table

/-! ## Insertion -/

/-- A route that is not taken is answered as a collision, if it is not refused with an error. -/
theorem rejected_of_not_takes {table : Table} {route : Route} {insertion : Insertion}
    (hnot : ¬ table.Takes route) (hanswered : (table.insert route).2 = .ok insertion) :
    insertion = .rejected := by
  obtain ⟨hslot, hrefused⟩ := not_takes hnot
  unfold slot? at hslot
  unfold insert openSlot at hanswered
  simp only [hslot] at hanswered
  split at hanswered
  · next hadd => exact absurd hadd hrefused
  · cases hanswered
    rfl
  · cases hanswered

/-- A route that is taken is held besides all others; one that is not leaves no trace among them. -/
theorem IsKeyed.held_insert {table : Table} (hkeyed : table.IsKeyed) (route : Route) :
    table.Takes route ∧ (table.insert route).1.held.Perm (route :: table.held) ∨
      ¬ table.Takes route ∧ (table.insert route).1.held = table.held := by
  by_cases htakes : table.Takes route
  · refine Or.inl ⟨htakes, ?_⟩
    rcases (hkeyed.inserts route).held_perm with ⟨-, hperm⟩ | ⟨hfresh, hrefused, -⟩
    · exact hperm
    · rcases htakes with hslot | hadd
      · rw [slot?_eq_none_iff.mpr hfresh] at hslot
        cases hslot
      · exact absurd hadd hrefused
  · refine Or.inr ⟨htakes, ?_⟩
    obtain ⟨hslot, hrefused⟩ := not_takes htakes
    have hfresh := slot?_eq_none_iff.mp hslot
    have hinserts := hkeyed.inserts route
    cases hinsert : table.insert route with
    | mk changed result =>
        rw [hinsert] at hinserts
        cases hinserts with
        | settled hslots hkey hchanged hindex => exact absurd hkey (hfresh _ (by simp [hslots]))
        | opened hnew hadd hchanged => exact absurd (congrArg Prod.snd hadd) hrefused
        | refused hnew hadd hchanged =>
            unfold Table.held
            rw [hchanged]

/-! ## Runs -/

theorem IsKeyed.run {table : Table} (hkeyed : table.IsKeyed) (changes : List Change) :
    (table.run changes).IsKeyed := by
  induction changes generalizing table with
  | nil => exact hkeyed
  | cons change rest ih => exact ih (hkeyed.apply change)

/-- A held route stays held while its endpoint is not removed. -/
theorem IsKeyed.mem_held_run_of_kept {table : Table} (hkeyed : table.IsKeyed) {route : Route}
    {changes : List Change} (hheld : route ∈ table.held) (hkept : .remove route.endpoint ∉ changes) :
    route ∈ (table.run changes).held := by
  induction changes generalizing table with
  | nil => exact hheld
  | cons change rest ih =>
      rw [List.mem_cons, not_or] at hkept
      refine ih (hkeyed.apply change) ?_ hkept.2
      cases change with
      | insert other =>
          rcases hkeyed.held_insert other with ⟨-, hperm⟩ | ⟨-, heq⟩
          · exact hperm.mem_iff.mpr (.tail other hheld)
          · exact heq ▸ hheld
      | remove endpoint =>
          unfold Table.apply
          rw [held_remove, List.mem_filter, bne_iff_ne]
          exact ⟨hheld, fun heq => hkept.1 (heq ▸ rfl)⟩

/-- A held route serves if no other route of its key is held. -/
theorem IsKeyed.mem_routes_of_alone {table : Table} (hkeyed : table.IsKeyed) {route : Route}
    (hheld : route ∈ table.held)
    (halone : ∀ other ∈ table.held, slotKey other = slotKey route → other = route) :
    route ∈ table.routes := by
  obtain ⟨slot, hslot, hmem⟩ := mem_held.mp hheld
  have hserving : slot.serving ∈ slot.routes := .head _
  have hkey : slotKey slot.serving = slotKey route := by
    rw [hkeyed.held slot hslot _ hserving, hkeyed.held slot hslot _ hmem]
  rw [← halone slot.serving (mem_held.mpr ⟨slot, hslot, hserving⟩) hkey]
  exact List.mem_map_of_mem hslot

/-- Whatever the templates look like, a route that is not refused with an error is held while its endpoint is
not removed, and it serves once no other route of its key is held.  The one exception is a route of a new
key that is rejected, for a conflict in the index: it is not held at all. -/
theorem held_run_of_answered (policy : CollisionPolicy) (before after : List Change) (route : Route)
    (insertion : Insertion)
    (hanswered : (((empty policy).run before).insert route).2 = .ok insertion)
    (hkept : .remove route.endpoint ∉ after) :
    route ∈ ((empty policy).run (before ++ .insert route :: after)).held ∧
        ((∀ other ∈ ((empty policy).run (before ++ .insert route :: after)).held,
            slotKey other = slotKey route → other = route) →
          route ∈ ((empty policy).run (before ++ .insert route :: after)).routes) ∨
      insertion = .rejected ∧ ((empty policy).run before).slot? (slotKey route) = none ∧
        (((empty policy).run before).insert route).1.held = ((empty policy).run before).held := by
  have hkeyed := (isKeyed_empty policy).run before
  rcases hkeyed.held_insert route with ⟨-, hperm⟩ | ⟨hnot, hsame⟩
  · left
    have hinserted : route ∈ (((empty policy).run before).insert route).1.held :=
      hperm.mem_iff.mpr (.head _)
    have hrun : (empty policy).run (before ++ .insert route :: after) =
        (((empty policy).run before).insert route).1.run after := List.foldl_append
    have hheld : route ∈ ((empty policy).run (before ++ .insert route :: after)).held := by
      rw [hrun]
      exact (hkeyed.insert route).mem_held_run_of_kept hinserted hkept
    exact ⟨hheld, ((isKeyed_empty policy).run _).mem_routes_of_alone hheld⟩
  · right
    exact ⟨rejected_of_not_takes hnot hanswered, (not_takes hnot).1, hsame⟩

def userRoute (application template : String) : Route :=
  ⟨application, [.path template, .method .get], [], "lb://" ++ application, application,
    ⟨application, .get, template⟩⟩

def peopleRoute : Route := userRoute "people" "/users/\x7bid\x7d"

def staffRoute : Route := userRoute "staff" "/users/\x7bname\x7d"

/-- The template has text behind its variable. -/
def exportRoute : Route := userRoute "export" "/users/\x7bid\x7d.json"

/-- A displaced route serves again once the other one goes. -/
theorem held_run_of_answered_users :
    (((empty .replace).run []).insert peopleRoute).2 = .ok .inserted ∧
      peopleRoute ∈ ((empty .replace).run
        [.insert peopleRoute, .insert staffRoute, .remove staffRoute.endpoint]).routes := by
  have hinserted : (((empty .replace).run []).insert peopleRoute).2 = .ok .inserted := by
    decide +kernel
  refine ⟨hinserted, ?_⟩
  rcases held_run_of_answered .replace [] [.insert staffRoute, .remove staffRoute.endpoint] peopleRoute
    .inserted hinserted (by decide) with ⟨-, hserves⟩ | ⟨hrejected, -⟩
  · exact hserves (by decide +kernel)
  · cases hrejected

/-- An answer that tells of a collision does not promise that the route is held: the index takes no text
behind a variable where another template has none. -/
theorem not_held_of_answered : ¬ ∀ (policy : CollisionPolicy) (before after : List Change)
    (route : Route) (insertion : Insertion),
    (∀ other, .insert other ∈ before ++ .insert route :: after →
      other.template.toList.head? = some '/') →
    (((empty policy).run before).insert route).2 = .ok insertion → .remove route.endpoint ∉ after →
    route ∈ ((empty policy).run (before ++ .insert route :: after)).held := by
  intro hretained
  have hslashed : ∀ other, Change.insert other ∈
      [.insert peopleRoute] ++ .insert exportRoute :: [.remove peopleRoute.endpoint] →
      other.template.toList.head? = some '/' := by
    intro other hother
    simp only [List.cons_append, List.nil_append, List.mem_cons, List.not_mem_nil, or_false,
      Change.insert.injEq, reduceCtorEq] at hother
    rcases hother with rfl | rfl <;> rfl
  have hrejected : (((empty .reject).run [.insert peopleRoute]).insert exportRoute).2 =
      .ok .rejected := by
    decide +kernel
  have hheld := hretained .reject [.insert peopleRoute] [.remove peopleRoute.endpoint] exportRoute
    .rejected hslashed hrejected (by decide)
  revert hheld
  decide +kernel

end Table

end ApiGateway.Route
