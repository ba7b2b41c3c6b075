import ApiGateway.Proofs.Route.Pipeline
import ApiGateway.Proofs.Route.TableRun
import ApiGateway.Route.Assembly

/-!
# Following endpoints

A table that follows endpoints holds routes made of endpoints that it has heard of and that have not
been lost, each under an identifier of its own.  If all of these have well-formed templates, it holds
one route for each of them.
-/

namespace ApiGateway.Route

/-- The path under which the gateway offers the endpoint is a well-formed template. -/
def IsWellTemplated (gateway : Settings.Gateway) (endpoint : Endpoint) : Prop :=
  Path.Template.IsWellFormed (externalTemplate gateway endpoint).toList

instance (gateway : Settings.Gateway) (endpoint : Endpoint) :
    Decidable (IsWellTemplated gateway endpoint) :=
  inferInstanceAs (Decidable (Path.Template.IsWellFormed _))

namespace Table

variable {gateway : Settings.Gateway} {routing : Settings.Routing}

structure Follows (gateway : Settings.Gateway) (routing : Settings.Routing) (table : Table)
    (heard : List Endpoint) : Prop where
  keyed : table.IsKeyed
  made : ∀ route ∈ table.held, ∃ endpoint ∈ heard, ∃ id,
    route = standardRoute gateway routing id endpoint

/-- One route is held for each of these endpoints, and no other. -/
structure Covers (gateway : Settings.Gateway) (routing : Settings.Routing) (table : Table)
    (heard : List Endpoint) : Prop where
  follows : table.Follows gateway routing heard
  sound : table.IsSound
  one : ∀ endpoint ∈ heard, ∃ id, table.held.filter (·.endpoint == endpoint.key) =
    [standardRoute gateway routing id endpoint]

theorem follow_found (table : Table) (id : String) (endpoint : Endpoint) :
    table.follow (standardPipeline gateway routing id) (.found endpoint) =
      (table.insert (standardRoute gateway routing id endpoint)).1 := by
  simp only [follow, assemble_standardPipeline]

theorem follow_lost (table : Table) (id : String) (key : EndpointKey) :
    table.follow (standardPipeline gateway routing id) (.lost key) = (table.remove key).1 := rfl

namespace Follows

theorem empty (policy : CollisionPolicy) : (Table.empty policy).Follows gateway routing [] where
  keyed := isKeyed_empty policy
  made := by
    intro route hroute
    cases hroute

theorem found {table : Table} {heard : List Endpoint} (hfollows : table.Follows gateway routing heard)
    (id : String) (endpoint : Endpoint) :
    (table.follow (standardPipeline gateway routing id) (.found endpoint)).Follows gateway routing
      (heard ++ [endpoint]) := by
  rw [follow_found]
  refine ⟨hfollows.keyed.insert _, fun route hroute => ?_⟩
  rcases hfollows.keyed.mem_held_insert hroute with rfl | hold
  · exact ⟨endpoint, by simp, id, rfl⟩
  · obtain ⟨other, hother, hmade⟩ := hfollows.made route hold
    exact ⟨other, List.mem_append_left _ hother, hmade⟩

theorem lost {table : Table} {heard : List Endpoint} (hfollows : table.Follows gateway routing heard)
    (id : String) (key : EndpointKey) :
    (table.follow (standardPipeline gateway routing id) (.lost key)).Follows gateway routing
      (heard.filter (·.key != key)) := by
  rw [follow_lost]
  refine ⟨hfollows.keyed.remove key, fun route hroute => ?_⟩
  rw [held_remove] at hroute
  obtain ⟨hold, hkept⟩ := List.mem_filter.mp hroute
  obtain ⟨endpoint, hendpoint, made, rfl⟩ := hfollows.made route hold
  exact ⟨endpoint, List.mem_filter.mpr ⟨hendpoint, hkept⟩, made, rfl⟩

/-- Nothing is held for a key that was not heard of. -/
theorem filter_eq_nil {table : Table} {heard : List Endpoint}
    (hfollows : table.Follows gateway routing heard) {key : EndpointKey}
    (hnew : ∀ other ∈ heard, other.key ≠ key) : table.held.filter (·.endpoint == key) = [] := by
  rw [List.filter_eq_nil_iff]
  intro route hroute hkey
  obtain ⟨endpoint, hendpoint, own, rfl⟩ := hfollows.made route hroute
  exact hnew endpoint hendpoint (by simpa using hkey)

end Follows

namespace Covers

theorem empty (policy : CollisionPolicy) : (Table.empty policy).Covers gateway routing [] where
  follows := .empty policy
  sound := isSound_empty policy
  one := by
    intro endpoint hendpoint
    cases hendpoint

theorem found {table : Table} {heard : List Endpoint} (hcovers : table.Covers gateway routing heard)
    (id : String) {endpoint : Endpoint} (hnew : ∀ other ∈ heard, other.key ≠ endpoint.key)
    (hwell : IsWellTemplated gateway endpoint) :
    (table.follow (standardPipeline gateway routing id) (.found endpoint)).Covers gateway routing
      (heard ++ [endpoint]) := by
  have hroute : IsWellFormed (standardRoute gateway routing id endpoint) := hwell
  have hfollows := hcovers.follows.found id endpoint
  obtain ⟨-, hperm⟩ := hcovers.sound.held_insert hroute
  rw [follow_found] at hfollows ⊢
  refine ⟨hfollows, hcovers.sound.insert hroute, fun other hother => ?_⟩
  rcases List.mem_append.mp hother with hold | hlast
  · obtain ⟨own, hone⟩ := hcovers.one other hold
    have hne : (endpoint.key == other.key) = false := beq_false_of_ne (hnew other hold).symm
    refine ⟨own, List.perm_singleton.mp ((hperm.filter _).trans ?_)⟩
    rw [List.filter_cons, standardRoute_endpoint, hne, if_neg Bool.false_ne_true, hone]
  · rw [List.mem_singleton] at hlast
    subst hlast
    refine ⟨id, List.perm_singleton.mp ((hperm.filter _).trans ?_)⟩
    rw [List.filter_cons, standardRoute_endpoint, beq_self_eq_true, if_pos rfl,
      hcovers.follows.filter_eq_nil hnew]

theorem lost {table : Table} {heard : List Endpoint} (hcovers : table.Covers gateway routing heard)
    (id : String) (key : EndpointKey) :
    (table.follow (standardPipeline gateway routing id) (.lost key)).Covers gateway routing
      (heard.filter (·.key != key)) := by
  have hfollows := hcovers.follows.lost id key
  rw [follow_lost] at hfollows ⊢
  refine ⟨hfollows, hcovers.sound.remove key, fun endpoint hendpoint => ?_⟩
  obtain ⟨hold, hne⟩ := List.mem_filter.mp hendpoint
  obtain ⟨own, hone⟩ := hcovers.one endpoint hold
  refine ⟨own, ?_⟩
  rw [held_remove, List.filter_filter, ← hone]
  refine List.filter_congr fun route _ => ?_
  by_cases hkey : route.endpoint = endpoint.key
  · rw [hkey, hne, Bool.and_true]
  · rw [beq_false_of_ne hkey, Bool.false_and]

end Covers

end Table

end ApiGateway.Route
