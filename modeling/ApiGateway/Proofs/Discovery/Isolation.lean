import ApiGateway.Proofs.Discovery.Course
import ApiGateway.Proofs.Named
import Mathlib.Data.List.Forall2

/-!
# Applications apart

Nothing that concerns one application changes what the collector holds and tells of another.  The part
of a course that belongs to an application is the course of the acts that concern it, as if there were
no others.  The orders in which its evictions tell their losses change that part in nothing but these
orders.
-/

namespace ApiGateway.Discovery

/-! ## What concerns an application -/

def EndpointEvent.applicationName : EndpointEvent → String
  | .found endpoint => endpoint.application.name
  | .lost key => key.application

namespace Collector

def only (collector : Collector) (name : String) : Collector :=
  { collector with
    endpoints := collector.endpoints.filter (·.application.name == name)
    live := collector.live.filter (· == name)
    collecting := collector.collecting.filter (· == name)
    documents := collector.documents.filter (·.1 == name) }

theorem mem_addEndpoints_events {collector : Collector} {endpoints : List Endpoint}
    {event : EndpointEvent} (hevent : event ∈ (collector.addEndpoints endpoints).2) :
    ∃ endpoint ∈ endpoints, event = .found endpoint := by
  induction endpoints generalizing collector with
  | nil => cases hevent
  | cons endpoint rest ih =>
      rcases List.mem_append.mp hevent with hfirst | hrest
      · change event ∈ (collector.addEndpoint endpoint).2 at hfirst
        rw [addEndpoint] at hfirst
        split at hfirst
        · cases hfirst
        · exact ⟨endpoint, .head rest, List.mem_singleton.mp hfirst⟩
      · obtain ⟨other, hother, rfl⟩ := ih hrest
        exact ⟨other, .tail endpoint hother, rfl⟩

namespace Collects

variable {collector : Collector} {application : Application} {fetched : Fetched}
  {after : Collector × List EndpointEvent}

end Collects

end Collector

namespace Course

/-! ## The part of a course that belongs to an application -/

def only (course : Course) (name : String) : Course where
  collector := course.collector.only name
  told := course.told.filter (·.applicationName == name)
  running := course.running.filter (·.application.name == name)
  ending := course.ending.filter (·.name == name)

end Course

/-! ## The order of losses -/

namespace EndpointEvent

/-- The same events, but for the order of losses with no find between them.  Where all events are about one
application, such losses are those of one eviction, which leaves nothing to lose before the next find. -/
inductive Alike : List EndpointEvent → List EndpointEvent → Prop where
  | nil : Alike [] []
  | found (endpoint : Endpoint) {left right : List EndpointEvent} (hrest : Alike left right) :
      Alike (.found endpoint :: left) (.found endpoint :: right)
  | losses {keys others : List EndpointKey} {left right : List EndpointEvent}
      (hperm : keys.Perm others) (hrest : Alike left right) :
      Alike (keys.map .lost ++ left) (others.map .lost ++ right)

namespace Alike

theorem refl (events : List EndpointEvent) : Alike events events := by
  induction events with
  | nil => exact .nil
  | cons event rest ih =>
      cases event with
      | found endpoint => exact .found endpoint ih
      | lost key => exact .losses (.refl [key]) ih

theorem append {left right more others : List EndpointEvent} (hfirst : Alike left right)
    (hnext : Alike more others) : Alike (left ++ more) (right ++ others) := by
  induction hfirst with
  | nil => exact hnext
  | found endpoint _ ih => exact .found endpoint ih
  | losses hperm _ ih =>
      rw [List.append_assoc, List.append_assoc]
      exact .losses hperm ih

theorem ofPerm {keys others : List EndpointKey} (hperm : keys.Perm others) :
    Alike (keys.map .lost) (others.map .lost) := by
  have halike := Alike.losses hperm .nil
  rwa [List.append_nil, List.append_nil] at halike

theorem filter {left right : List EndpointEvent} (halike : Alike left right)
    (keep : EndpointEvent → Bool) : Alike (left.filter keep) (right.filter keep) := by
  induction halike with
  | nil => exact .nil
  | found endpoint _ ih =>
      rw [List.filter_cons, List.filter_cons]
      split
      · exact .found endpoint ih
      · exact ih
  | losses hperm _ ih =>
      rw [List.filter_append, List.filter_append, List.filter_map, List.filter_map]
      exact .losses (hperm.filter _) ih

end Alike

end EndpointEvent

/-- The same act, but for the order in which losses are told. -/
inductive Act.Alike : Act → Act → Prop where
  | refl (act : Act) : Alike act act
  | hear (event : Event) (order other : LossOrder) : Alike (.hear event order) (.hear event other)
  | evict (name : String) (order other : LossOrder) : Alike (.evict name order) (.evict name other)

namespace Course

structure Alike (left right : Course) : Prop where
  collector : left.collector = right.collector
  told : EndpointEvent.Alike left.told right.told
  running : left.running = right.running
  ending : left.ending = right.ending

/-- What has been told does not matter to what an act does and tells. -/
theorem exists_step_told (course : Course) (act : Act) : ∃ events, ∀ told,
    ({ course with told } : Course).step act = { course.step act with told := told ++ events } := by
  cases act with
  | hear event order => exact ⟨(course.collector.handle event order).2.events, fun told => rfl⟩
  | evict name order => exact ⟨(course.collector.evict name order).2, fun told => rfl⟩
  | start application | ask application | release application =>
      refine ⟨[], fun told => ?_⟩
      simp only [step, List.append_nil]
      split <;> rfl
  | receive collection fetched =>
      by_cases hrunning : collection ∈ course.running
      · refine ⟨(course.collector.collect collection.application fetched).2.1, fun told => ?_⟩
        simp only [step, if_pos hrunning]
      · exact ⟨[], fun told => by simp only [step, if_neg hrunning, List.append_nil]⟩

namespace Alike

theorem refl (course : Course) : course.Alike course :=
  ⟨rfl, .refl course.told, rfl, rfl⟩

variable {left right : Course}

theorem step (halike : left.Alike right) {act other : Act} (hact : act.Alike other) :
    (left.step act).Alike (right.step other) := by
  obtain ⟨collector, told, running, ending⟩ := left
  obtain ⟨_, others, _, _⟩ := right
  obtain ⟨rfl, htold, rfl, rfl⟩ := halike
  have hlosses : ∀ name (order other : LossOrder), EndpointEvent.Alike
      (told ++ (collector.evict name order).2) (others ++ (collector.evict name other).2) :=
    fun name order other =>
      htold.append (.ofPerm ((order.perm _).trans (other.perm _).symm))
  cases hact with
  | refl act =>
      obtain ⟨events, hstep⟩ := exists_step_told ⟨collector, told, running, ending⟩ act
      have hright := hstep others
      have hleft := hstep told
      dsimp only at hleft hright
      rw [hleft, hright]
      exact ⟨rfl, htold.append (.refl events), rfl, rfl⟩
  | evict name order other => exact ⟨rfl, hlosses name order other, rfl, rfl⟩
  | hear event order other =>
      cases event with
      | lost application => exact ⟨rfl, hlosses application.name order other, rfl, rfl⟩
      | found application => exact ⟨rfl, htold.append (.refl _), rfl, rfl⟩
      | refreshed applications => exact ⟨rfl, htold.append (.refl _), rfl, rfl⟩

theorem run (halike : left.Alike right) {acts others : List Act}
    (hacts : List.Forall₂ Act.Alike acts others) : (left.run acts).Alike (right.run others) := by
  induction hacts generalizing left right with
  | nil => exact halike
  | cons hact _ ih => exact ih (halike.step hact)

end Alike

/-! ## Views -/

/-- What the collector holds and has told of an application. -/
structure View where
  endpoints : List Endpoint
  isLive : Bool
  isCollecting : Bool
  document? : Option Documented
  told : List EndpointEvent

def view (course : Course) (name : String) : View where
  endpoints := course.collector.endpoints.filter (·.application.name == name)
  isLive := course.collector.live.contains name
  isCollecting := course.collector.collecting.contains name
  document? := course.collector.documented? name
  told := course.told.filter (·.applicationName == name)

/-- The same view, but for the order in which the losses of each eviction have been told. -/
structure View.Alike (left right : View) : Prop where
  endpoints : left.endpoints = right.endpoints
  isLive : left.isLive = right.isLive
  isCollecting : left.isCollecting = right.isCollecting
  document? : left.document? = right.document?
  told : EndpointEvent.Alike left.told right.told

theorem Alike.view {left right : Course} (halike : left.Alike right) (name : String) :
    (left.view name).Alike (right.view name) := by
  have htold := halike.told.filter (·.applicationName == name)
  simp only [Course.view, halike.collector]
  exact ⟨rfl, rfl, rfl, rfl, htold⟩

end Course

end ApiGateway.Discovery
