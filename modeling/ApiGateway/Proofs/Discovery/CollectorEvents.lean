import ApiGateway.Discovery.Collector

/-!
# What the collector tells

The events that the collector tells account for every change of its endpoints, and the events that it
hears account for every change of its live applications.  A found endpoint is new by its key, and the
application of every collected endpoint is live.
-/

namespace ApiGateway.Discovery

/-! ## Events -/

/-- The live applications after an event, for a collector of this name. -/
def Event.replay (selfName : String) (live : List String) : Event → List String
  | .found application =>
      if application.name = selfName then live
      else if live.contains application.name then live
      else application.name :: live
  | .lost application => live.filter (· != application.name)
  | .refreshed _ => live

/-- The events lead from the endpoints before to those after: each endpoint found is good and new by
its key, and a lost key takes its endpoint out. -/
def Tells (good : Endpoint → Prop) :
    List Endpoint → List EndpointEvent → List Endpoint → Prop
  | before, [], after => before = after
  | before, .found endpoint :: events, after =>
      (good endpoint ∧ ∀ other ∈ before, other.key ≠ endpoint.key) ∧
        Tells good (before ++ [endpoint]) events after
  | before, .lost key :: events, after =>
      Tells good (before.filter (·.key != key)) events after

namespace Tells

variable {good : Endpoint → Prop}

theorem append {before between after : List Endpoint} {events more : List EndpointEvent}
    (hfirst : Tells good before events between) (hnext : Tells good between more after) :
    Tells good before (events ++ more) after := by
  induction events generalizing before with
  | nil =>
      cases hfirst
      exact hnext
  | cons event events ih =>
      cases event with
      | found endpoint => exact ⟨hfirst.1, ih hfirst.2⟩
      | lost key => exact @ih (before.filter (·.key != key)) hfirst

/-- Lost keys take out the endpoints with these keys. -/
theorem lost (before : List Endpoint) (keys : List EndpointKey) :
    Tells good before (keys.map .lost) (before.filter fun endpoint => !keys.contains endpoint.key) := by
  induction keys generalizing before with
  | nil => exact (List.filter_eq_self.mpr fun _ _ => rfl).symm
  | cons key keys ih =>
      have hrest := ih (before.filter (·.key != key))
      rw [List.filter_filter] at hrest
      have hsame : (fun endpoint : Endpoint => !(key :: keys).contains endpoint.key) =
          fun endpoint => !keys.contains endpoint.key && endpoint.key != key := by
        funext endpoint
        rw [List.contains_cons, Bool.not_or, Bool.and_comm, bne]
      rw [hsame]
      exact hrest

end Tells

namespace Collector

/-! ## Endpoints -/

variable {good : Endpoint → Prop}

theorem mem_keysOf {collector : Collector} {name : String} {key : EndpointKey} :
    key ∈ collector.keysOf name ↔ key ∈ collector.endpoints.map Endpoint.key ∧ key.application = name := by
  have hname : ∀ endpoint : Endpoint, endpoint.application.name = endpoint.key.application :=
    fun _ => rfl
  simp only [keysOf, List.mem_map, List.mem_filter, beq_iff_eq, hname]
  constructor
  · rintro ⟨endpoint, ⟨hmem, rfl⟩, rfl⟩
    exact ⟨⟨endpoint, hmem, rfl⟩, rfl⟩
  · rintro ⟨⟨endpoint, hmem, rfl⟩, rfl⟩
    exact ⟨endpoint, ⟨hmem, rfl⟩, rfl⟩

theorem evict_tells (collector : Collector) (name : String) (order : LossOrder) :
    Tells good collector.endpoints (collector.evict name order).2
      (collector.evict name order).1.endpoints := by
  have hlost := @Tells.lost good collector.endpoints (order.arrange (collector.keysOf name))
  have hkept : collector.endpoints.filter
        (fun endpoint => !(order.arrange (collector.keysOf name)).contains endpoint.key) =
      collector.endpoints.filter (·.application.name != name) := by
    refine List.filter_congr fun endpoint hendpoint => ?_
    have hkey : endpoint.key ∈ order.arrange (collector.keysOf name) ↔
        endpoint.application.name = name := by
      rw [(order.perm _).mem_iff, mem_keysOf]
      exact and_iff_right (List.mem_map_of_mem hendpoint)
    rw [Bool.eq_iff_iff]
    simp [hkey]
  rw [hkept] at hlost
  exact hlost

theorem addEndpoint_tells (collector : Collector) (endpoint : Endpoint)
    (hgood : ∀ other ∈ (collector.addEndpoint endpoint).1.endpoints, good other) :
    Tells good collector.endpoints (collector.addEndpoint endpoint).2
      (collector.addEndpoint endpoint).1.endpoints := by
  rw [addEndpoint] at hgood ⊢
  split at hgood
  · next hsame =>
    rw [if_pos hsame]
    exact rfl
  · next hnew =>
    rw [if_neg hnew]
    refine ⟨⟨hgood endpoint (by simp), fun other hother hkey => hnew ?_⟩, rfl⟩
    exact List.any_eq_true.mpr ⟨other, hother, Endpoint.same_iff.mpr hkey⟩

/-- Adding endpoints changes nothing else. -/
theorem addEndpoints_eq (collector : Collector) (endpoints : List Endpoint) :
    (collector.addEndpoints endpoints).1 =
      { collector with endpoints := (collector.addEndpoints endpoints).1.endpoints } := by
  induction endpoints generalizing collector with
  | nil => rfl
  | cons endpoint rest ih =>
      have hfirst : (collector.addEndpoint endpoint).1 =
          { collector with endpoints := (collector.addEndpoint endpoint).1.endpoints } := by
        rw [addEndpoint]
        split <;> rfl
      have hrest := ih (collector.addEndpoint endpoint).1
      rw [addEndpoints]
      rw [hrest]
      rw [hfirst]

/-- An endpoint that is there after others were added was there or is one of them. -/
theorem mem_addEndpoints {collector : Collector} {endpoints : List Endpoint} {endpoint : Endpoint}
    (hmem : endpoint ∈ (collector.addEndpoints endpoints).1.endpoints) :
    endpoint ∈ collector.endpoints ∨ endpoint ∈ endpoints := by
  induction endpoints generalizing collector with
  | nil => exact Or.inl hmem
  | cons first rest ih =>
      rcases @ih (collector.addEndpoint first).1 hmem with hfirst | hrest
      · rw [addEndpoint] at hfirst
        split at hfirst
        · exact Or.inl hfirst
        · rcases List.mem_append.mp hfirst with hold | hnew
          · exact Or.inl hold
          · exact Or.inr (List.mem_singleton.mp hnew ▸ .head rest)
      · exact Or.inr (.tail first hrest)

theorem subset_addEndpoints (collector : Collector) (endpoints : List Endpoint) :
    collector.endpoints ⊆ (collector.addEndpoints endpoints).1.endpoints := by
  induction endpoints generalizing collector with
  | nil => exact fun endpoint hmem => hmem
  | cons first rest ih =>
      intro endpoint hmem
      refine ih (collector.addEndpoint first).1 ?_
      rw [addEndpoint]
      split
      · exact hmem
      · exact List.mem_append_left _ hmem

theorem addEndpoints_tells (collector : Collector) {endpoints : List Endpoint}
    (hgood : ∀ other ∈ (collector.addEndpoints endpoints).1.endpoints, good other) :
    Tells good collector.endpoints (collector.addEndpoints endpoints).2
      (collector.addEndpoints endpoints).1.endpoints := by
  induction endpoints generalizing collector with
  | nil => exact rfl
  | cons first rest ih =>
      have hfirst := collector.addEndpoint_tells first fun other hother =>
        hgood other (subset_addEndpoints _ rest hother)
      exact hfirst.append (ih (collector.addEndpoint first).1 hgood)

/-- What was fetched either leaves the collector as it is, or brings in endpoints of its application,
which is live. -/
theorem collect_cases (collector : Collector) (application : Application) (fetched : Fetched) :
    (collector.collect application fetched).1 = collector ∧
        (collector.collect application fetched).2.1 = [] ∨
      application.name ∈ collector.live ∧
        ∃ endpoints documents, (∀ endpoint ∈ endpoints, endpoint.application = application) ∧
          (collector.collect application fetched).1 =
            { (collector.addEndpoints endpoints).1 with documents } ∧
          (collector.collect application fetched).2.1 = (collector.addEndpoints endpoints).2 := by
  cases fetched with
  | error failure => exact Or.inl ⟨rfl, rfl⟩
  | ok bytes =>
      rw [collect]
      simp only
      cases Document.read bytes with
      | error problem => exact Or.inl ⟨rfl, rfl⟩
      | ok document =>
          simp only [accept]
          split
          · next hlive =>
            refine Or.inr ⟨by simpa using hlive, _, _, fun endpoint hendpoint => ?_, rfl, rfl⟩
            have hdocumented := (List.mem_filter.mp hendpoint).1
            rw [Documented.endpoints, Document.endpoints] at hdocumented
            obtain ⟨operation, -, rfl⟩ := List.mem_map.mp hdocumented
            rfl
          · exact Or.inl ⟨rfl, rfl⟩

theorem collect_tells (collector : Collector) (application : Application) (fetched : Fetched)
    (hgood : ∀ other ∈ (collector.collect application fetched).1.endpoints, good other) :
    Tells good collector.endpoints (collector.collect application fetched).2.1
      (collector.collect application fetched).1.endpoints := by
  rcases collector.collect_cases application fetched with
    ⟨hsame, hevents⟩ | ⟨-, endpoints, documents, -, hcollector, hevents⟩
  · rw [hsame, hevents]
    exact rfl
  · rw [hcollector] at hgood ⊢
    rw [hevents]
    exact collector.addEndpoints_tells hgood

theorem collect_live (collector : Collector) (application : Application) (fetched : Fetched) :
    (collector.collect application fetched).1.live = collector.live ∧
      (collector.collect application fetched).1.selfName = collector.selfName := by
  rcases collector.collect_cases application fetched with
    ⟨hsame, -⟩ | ⟨-, endpoints, documents, -, hcollector, -⟩
  · rw [hsame]
    exact ⟨rfl, rfl⟩
  · rw [hcollector, addEndpoints_eq]
    exact ⟨rfl, rfl⟩

/-! ## Live applications -/

theorem track_eq (collector : Collector) (application : Application) :
    collector.track application =
      ({ collector with
          live := (Event.found application).replay collector.selfName collector.live },
        decide (application.name ≠ collector.selfName)) := by
  simp only [track, Event.replay]
  by_cases hself : application.name = collector.selfName
  · simp [hself]
  · by_cases hlive : application.name ∈ collector.live
    · simp [hself, hlive]
    · simp [hself, hlive]

/-- Starting a collection changes only which are under way. -/
theorem begin_eq (collector : Collector) (application : Application) :
    ∃ collecting, (collector.begin application).1 = { collector with collecting } := by
  rw [begin]
  split <;> exact ⟨_, rfl⟩

theorem beginLive_eq (collector : Collector) (applications : List Application) :
    ∃ collecting, (collector.beginLive applications).1 = { collector with collecting } := by
  induction applications generalizing collector with
  | nil => exact ⟨_, rfl⟩
  | cons application rest ih =>
      rw [beginLive]
      split
      · obtain ⟨collecting, hbegin⟩ : ∃ collecting, (collector.begin application).1 =
            { collector with collecting } := by
          rw [begin]
          split <;> exact ⟨_, rfl⟩
        obtain ⟨others, hothers⟩ := ih (collector.begin application).1
        refine ⟨others, ?_⟩
        simp only
        rw [hothers, hbegin]
      · exact ih collector

inductive Handles (collector : Collector) : Event → Collector × Reaction → Prop where
  | found {application : Application} {reaction : Reaction} (collecting : List String)
      (hquiet : reaction.events = []) :
      Handles collector (.found application)
        ({ collector with
            live := (Event.found application).replay collector.selfName collector.live, collecting },
          reaction)
  | refreshed {applications : List Application} {reaction : Reaction} (collecting : List String)
      (hquiet : reaction.events = []) :
      Handles collector (.refreshed applications) ({ collector with collecting }, reaction)
  | lost {application : Application} (order : LossOrder) :
      Handles collector (.lost application)
        ((collector.evict application.name order).1, ⟨[], (collector.evict application.name order).2⟩)

theorem handles (collector : Collector) (event : Event) (order : LossOrder) :
    Handles collector event (collector.handle event order) := by
  cases event with
  | lost application => exact .lost order
  | refreshed applications =>
      obtain ⟨collecting, hbegin⟩ := collector.beginLive_eq applications
      have hhandles : Handles collector (.refreshed applications)
          ({ collector with collecting }, ⟨(collector.beginLive applications).2, []⟩) :=
        .refreshed collecting rfl
      rw [← hbegin] at hhandles
      exact hhandles
  | found application =>
      rw [handle, track_eq]
      by_cases hself : application.name = collector.selfName
      · simp only [hself, ne_eq, not_true_eq_false, decide_false]
        exact .found collector.collecting rfl
      · simp only [ne_eq, hself, not_false_eq_true, decide_true]
        obtain ⟨collecting, hbegin⟩ := begin_eq
          { collector with
            live := (Event.found application).replay collector.selfName collector.live } application
        rw [hbegin]
        exact .found collecting rfl

theorem Handles.live {collector : Collector} {event : Event} {after : Collector × Reaction}
    (hhandles : Handles collector event after) :
    after.1.live = event.replay collector.selfName collector.live ∧
      after.1.selfName = collector.selfName := by
  cases hhandles with
  | found => exact ⟨rfl, rfl⟩
  | refreshed => exact ⟨rfl, rfl⟩
  | lost => exact ⟨rfl, rfl⟩

theorem Handles.tells {collector : Collector} {event : Event} {after : Collector × Reaction}
    (hhandles : Handles collector event after) :
    Tells good collector.endpoints after.2.events after.1.endpoints := by
  cases hhandles with
  | found collecting hquiet =>
      rw [hquiet]
      exact rfl
  | refreshed collecting hquiet =>
      rw [hquiet]
      exact rfl
  | lost order => exact collector.evict_tells _ order

def IsHoused (collector : Collector) : Prop :=
  ∀ endpoint ∈ collector.endpoints, endpoint.application.name ∈ collector.live

theorem IsHoused.handle {collector : Collector} (hhoused : collector.IsHoused) (event : Event)
    (order : LossOrder) : (collector.handle event order).1.IsHoused := by
  have hhandles := collector.handles event order
  revert hhandles
  cases collector.handle event order with
  | mk changed reaction =>
      intro hhandles endpoint hendpoint
      cases hhandles with
      | refreshed => exact hhoused endpoint hendpoint
      | @found application =>
          have hlive := hhoused endpoint hendpoint
          simp only [Event.replay]
          split
          · exact hlive
          · split
            · exact hlive
            · exact .tail application.name hlive
      | lost =>
          obtain ⟨hold, hname⟩ := List.mem_filter.mp hendpoint
          exact List.mem_filter.mpr ⟨hhoused endpoint hold, hname⟩

theorem IsHoused.collect {collector : Collector} (hhoused : collector.IsHoused)
    (application : Application) (fetched : Fetched) :
    (collector.collect application fetched).1.IsHoused := by
  rcases collector.collect_cases application fetched with
    ⟨hsame, -⟩ | ⟨hlive, endpoints, documents, hown, hcollector, -⟩
  · rw [hsame]
    exact hhoused
  · rw [hcollector, addEndpoints_eq]
    intro endpoint hendpoint
    rcases mem_addEndpoints hendpoint with hold | hnew
    · exact hhoused endpoint hold
    · rw [hown endpoint hnew]
      exact hlive

end Collector

end ApiGateway.Discovery
