import ApiGateway.Proofs.Discovery.Course
import ApiGateway.Proofs.Discovery.Turns
import Mathlib.Data.List.Nodup

/-!
# The account of a collector

What a collector has told is the whole account of its endpoints: replayed from nothing it gives the
collected ones, and an endpoint that is found again has been lost before.  All that is kept belongs to
live applications, and the gateway itself is never one of them.
-/

namespace ApiGateway.Discovery

/-! ## Events as an account -/

namespace EndpointEvent

def replay (endpoints : List Endpoint) : EndpointEvent → List Endpoint
  | .found endpoint => endpoints ++ [endpoint]
  | .lost key => endpoints.filter (·.key != key)

end EndpointEvent

theorem Tells.replay {good : Endpoint → Prop} {before after : List Endpoint}
    {events : List EndpointEvent} (htells : Tells good before events after) :
    events.foldl EndpointEvent.replay before = after := by
  induction events generalizing before with
  | nil => exact htells
  | cons event events ih =>
      cases event with
      | found endpoint => exact ih htells.2
      | lost key => exact @ih (before.filter (·.key != key)) htells

/-- An endpoint that is found is new by its key, so that the keys stay distinct. -/
theorem Tells.nodup {good : Endpoint → Prop} {before after : List Endpoint}
    {events : List EndpointEvent} (htells : Tells good before events after)
    (hdistinct : (before.map Endpoint.key).Nodup) : (after.map Endpoint.key).Nodup := by
  induction events generalizing before with
  | nil =>
      cases htells
      exact hdistinct
  | cons event events ih =>
      cases event with
      | found endpoint =>
          refine ih htells.2 ?_
          rw [List.map_append, List.nodup_append]
          refine ⟨hdistinct, List.nodup_singleton _, ?_⟩
          intro key hkey other hother
          obtain ⟨earlier, hearlier, rfl⟩ := List.mem_map.mp hkey
          rw [List.mem_singleton.mp hother]
          exact htells.1.2 earlier hearlier
      | lost key =>
          exact @ih (before.filter (·.key != key)) htells
            (hdistinct.sublist (List.filter_sublist.map Endpoint.key))

namespace Collector

/-! ## Turns of the endpoints -/

def keys (collector : Collector) : List EndpointKey :=
  collector.endpoints.map Endpoint.key

theorem addEndpoint_inTurn (collector : Collector) (endpoint : Endpoint) (key : EndpointKey) :
    InTurn (collector.keys.contains key)
      ((collector.addEndpoint endpoint).2.filterMap (·.turn? key))
      ((collector.addEndpoint endpoint).1.keys.contains key) := by
  rw [addEndpoint]
  split
  · exact rfl
  · next hnew =>
    have habsent : endpoint.key ∉ collector.keys := by
      intro hmem
      obtain ⟨other, hother, hkey⟩ := List.mem_map.mp hmem
      exact hnew (List.any_eq_true.mpr ⟨other, hother, Endpoint.same_iff.mpr hkey⟩)
    by_cases hkey : endpoint.key = key
    · subst hkey
      have hafter : ({ collector with endpoints := collector.endpoints ++ [endpoint] } :
          Collector).keys.contains endpoint.key = true := by
        simp [keys]
      have hbefore : collector.keys.contains endpoint.key = false := by
        simpa using habsent
      rw [hafter, hbefore]
      simp [EndpointEvent.turn?, InTurn]
    · simp [EndpointEvent.turn?, InTurn, keys, hkey, Ne.symm hkey]

theorem addEndpoints_inTurn (collector : Collector) (endpoints : List Endpoint) (key : EndpointKey) :
    InTurn (collector.keys.contains key)
      ((collector.addEndpoints endpoints).2.filterMap (·.turn? key))
      ((collector.addEndpoints endpoints).1.keys.contains key) := by
  induction endpoints generalizing collector with
  | nil => exact rfl
  | cons endpoint rest ih =>
      have hfirst := collector.addEndpoint_inTurn endpoint key
      have hrest := ih (collector.addEndpoint endpoint).1
      rw [addEndpoints]
      simp only [List.filterMap_append]
      exact hfirst.append hrest

theorem evict_inTurn {collector : Collector} (hdistinct : collector.keys.Nodup) (name : String)
    (order : LossOrder) (key : EndpointKey) :
    InTurn (collector.keys.contains key) ((collector.evict name order).2.filterMap (·.turn? key))
      ((collector.evict name order).1.keys.contains key) := by
  let lost := order.arrange (collector.keysOf name)
  have hperm : lost.Perm (collector.keysOf name) := order.perm _
  have hmem : key ∈ lost ↔ key ∈ collector.keys ∧ key.application = name :=
    hperm.mem_iff.trans mem_keysOf
  -- As the keys are distinct, no endpoint is lost twice by one eviction.
  have hnodup : lost.Nodup :=
    hperm.nodup_iff.mpr (hdistinct.sublist (List.filter_sublist.map Endpoint.key))
  have hkeys : (collector.evict name order).1.keys =
      collector.keys.filter (·.application != name) := by
    simp only [evict, keys, List.filter_map]
    rfl
  have hturns : (collector.evict name order).2.filterMap (·.turn? key) =
      (lost.filter (· == key)).map fun _ => false := by
    have hmap := turns_map id EndpointEvent.lost (EndpointEvent.turn? key) (fun _ => rfl) lost
    rwa [List.map_id] at hmap
  have hlost := @InTurn.ofNodup _ _ lost key (collector.keys.contains key) false hnodup
    fun hkey => by simpa using (hmem.mp hkey).1
  have hafter : (collector.evict name order).1.keys.contains key =
      if key ∈ lost then false else collector.keys.contains key := by
    rw [hkeys, Bool.eq_iff_iff]
    simp only [hmem, List.contains_iff_mem, List.mem_filter, bne_iff_ne, Bool.if_false_left,
      Bool.and_eq_true, Bool.not_eq_true', decide_eq_false_iff_not]
    tauto
  rw [hturns, hafter]
  exact hlost

theorem Handles.inTurn {collector : Collector} {event : Event} {after : Collector × Reaction}
    (hhandles : Handles collector event after) (hdistinct : collector.keys.Nodup) (key : EndpointKey) :
    InTurn (collector.keys.contains key) (after.2.events.filterMap (·.turn? key))
      (after.1.keys.contains key) := by
  cases hhandles with
  | found collecting hquiet =>
      rw [hquiet]
      exact rfl
  | refreshed collecting hquiet =>
      rw [hquiet]
      exact rfl
  | lost order => exact evict_inTurn hdistinct _ order key

theorem Collects.inTurn {collector : Collector} {application : Application} {fetched : Fetched}
    {after : Collector × List EndpointEvent} (hcollects : Collects collector application fetched after)
    (key : EndpointKey) :
    InTurn (collector.keys.contains key) (after.2.filterMap (·.turn? key))
      (after.1.keys.contains key) := by
  cases hcollects with
  | failed hunread => exact rfl
  | discarded hread hgone => exact rfl
  | @used bytes document hread hlive =>
      exact collector.addEndpoints_inTurn (collector.wanted application document) key

namespace Does

variable {collector : Collector} {after : Collector × List EndpointEvent}

theorem selfName_eq (hdoes : Does collector after) : after.1.selfName = collector.selfName := by
  cases hdoes with
  | hears event order => exact (collector.handles event order).live.2
  | collects application fetched => exact (collector.collect_live application fetched).2
  | tracks application => rw [track_eq]
  | marks collecting => rfl

theorem tells (hdoes : Does collector after) :
    Tells (fun _ => True) collector.endpoints after.2 after.1.endpoints := by
  cases hdoes with
  | hears event order => exact (collector.handles event order).tells
  | collects application fetched => exact collector.collect_tells application fetched fun _ _ => trivial
  | tracks application =>
      rw [track_eq]
      exact rfl
  | marks collecting => exact rfl

theorem inTurn (hdoes : Does collector after) (hdistinct : collector.keys.Nodup)
    (key : EndpointKey) :
    InTurn (collector.keys.contains key) (after.2.filterMap (·.turn? key))
      (after.1.keys.contains key) := by
  cases hdoes with
  | hears event order => exact (collector.handles event order).inTurn hdistinct key
  | collects application fetched => exact (collector.collects application fetched).inTurn key
  | tracks application =>
      rw [track_eq]
      exact rfl
  | marks collecting => exact rfl

end Does

/-! ## Live applications -/

/-- What is kept belongs to live applications, and the gateway itself is not one of them. -/
structure IsTidy (collector : Collector) : Prop where
  housed : collector.IsHoused
  documented : ∀ entry ∈ collector.documents,
    entry.2.application.name = entry.1 ∧ entry.1 ∈ collector.live
  foreign : collector.selfName ∉ collector.live

namespace IsTidy

variable {collector : Collector}

theorem track (htidy : collector.IsTidy) (application : Application) :
    (collector.track application).1.IsTidy := by
  have hlive := collector.mem_live_track application
  rw [track_eq] at hlive ⊢
  constructor
  · intro endpoint hendpoint
    exact (hlive _).mpr (Or.inl (htidy.housed endpoint hendpoint))
  · intro entry hentry
    obtain ⟨hname, hthere⟩ := htidy.documented entry hentry
    exact ⟨hname, (hlive _).mpr (Or.inl hthere)⟩
  · intro hself
    rcases (hlive _).mp hself with hold | ⟨hother, -⟩
    · exact htidy.foreign hold
    · exact hother rfl

theorem mark (htidy : collector.IsTidy) (collecting : List String) :
    ({ collector with collecting } : Collector).IsTidy :=
  ⟨htidy.housed, htidy.documented, htidy.foreign⟩

theorem evict (htidy : collector.IsTidy) (name : String) (order : LossOrder) :
    (collector.evict name order).1.IsTidy := by
  constructor
  · exact htidy.housed.handle (.lost ⟨name, ""⟩) order
  · intro entry hentry
    obtain ⟨hold, hname⟩ := List.mem_filter.mp hentry
    obtain ⟨hsame, hlive⟩ := htidy.documented entry hold
    exact ⟨hsame, List.mem_filter.mpr ⟨hlive, hname⟩⟩
  · intro hself
    exact htidy.foreign (List.mem_filter.mp hself).1

theorem handles (htidy : collector.IsTidy) {event : Event} {after : Collector × Reaction}
    (hhandles : Handles collector event after) : after.1.IsTidy := by
  cases hhandles with
  | @found application _ collecting hquiet =>
      have htracked := htidy.track application
      rw [track_eq] at htracked
      exact htracked.mark collecting
  | refreshed collecting hquiet => exact htidy.mark collecting
  | lost order => exact htidy.evict _ order

theorem collects (htidy : collector.IsTidy) {application : Application} {fetched : Fetched}
    {after : Collector × List EndpointEvent}
    (hcollects : Collects collector application fetched after) : after.1.IsTidy := by
  cases hcollects with
  | failed hunread => exact htidy
  | discarded hread hgone => exact htidy
  | used hread hlive =>
      constructor
      · intro endpoint hendpoint
        rcases mem_addEndpoints hendpoint with hold | hnew
        · exact htidy.housed endpoint hold
        · rw [applicationName_of_mem_wanted hnew]
          exact hlive
      · intro entry hentry
        rcases List.mem_cons.mp hentry with rfl | hold
        · exact ⟨rfl, hlive⟩
        · exact htidy.documented entry (List.mem_filter.mp hold).1
      · exact htidy.foreign

end IsTidy

theorem Does.isTidy {collector : Collector} {after : Collector × List EndpointEvent}
    (hdoes : Does collector after) (htidy : collector.IsTidy) : after.1.IsTidy := by
  cases hdoes with
  | hears event order => exact htidy.handles (collector.handles event order)
  | collects application fetched => exact htidy.collects (collector.collects application fetched)
  | tracks application => exact htidy.track application
  | marks collecting => exact htidy.mark collecting

end Collector

namespace Course

/-! ## Accounts along a course -/

/-- What was told leads from nothing to the collected endpoints, each of which is found and lost in
turn. -/
structure IsAccounted (course : Course) : Prop where
  tells : Tells (fun _ => True) [] course.told course.collector.endpoints
  inTurn : ∀ key, InTurn false (course.told.filterMap (·.turn? key))
    (course.collector.keys.contains key)
  tidy : course.collector.IsTidy

theorem isAccounted_start (selfName : String) (sieves : Sieves Endpoint) :
    (start selfName sieves).IsAccounted where
  tells := rfl
  inTurn := fun _ => rfl
  tidy := by
    constructor
    · intro endpoint hendpoint
      cases hendpoint
    · intro entry hentry
      cases hentry
    · exact List.not_mem_nil

theorem IsAccounted.step {course : Course} (haccounted : course.IsAccounted) (act : Act) :
    (course.step act).IsAccounted := by
  obtain ⟨after, hdoes, hcollector, htold⟩ := course.step_does act
  have hdistinct : course.collector.keys.Nodup := haccounted.tells.nodup List.nodup_nil
  constructor
  · rw [hcollector, htold]
    exact haccounted.tells.append hdoes.tells
  · intro key
    rw [hcollector, htold, List.filterMap_append]
    exact (haccounted.inTurn key).append (hdoes.inTurn hdistinct key)
  · rw [hcollector]
    exact hdoes.isTidy haccounted.tidy

theorem IsAccounted.run {course : Course} (haccounted : course.IsAccounted) (acts : List Act) :
    (course.run acts).IsAccounted := by
  induction acts generalizing course with
  | nil => exact haccounted
  | cons first rest ih => exact ih (haccounted.step first)

theorem selfName_run (course : Course) (acts : List Act) :
    (course.run acts).collector.selfName = course.collector.selfName := by
  induction acts generalizing course with
  | nil => rfl
  | cons first rest ih =>
      obtain ⟨after, hdoes, hcollector, -⟩ := course.step_does first
      rw [run_cons, ih, hcollector, hdoes.selfName_eq]

/-- At every moment the replay of all that was told gives the collected endpoints; the events of each
key find and lose its endpoint in turn, beginning with a find; and every collected endpoint and every
document belongs to a live application other than the gateway. -/
theorem run_accounted (selfName : String) (sieves : Sieves Endpoint) (acts : List Act) :
    let course := (start selfName sieves).run acts
    course.told.foldl EndpointEvent.replay [] = course.collector.endpoints ∧
      (∀ key, InTurn false (course.told.filterMap (·.turn? key))
        (course.collector.keys.contains key)) ∧
      (∀ endpoint ∈ course.collector.endpoints,
        endpoint.application.name ∈ course.collector.live ∧ endpoint.application.name ≠ selfName) ∧
      ∀ entry ∈ course.collector.documents, entry.2.application.name = entry.1 ∧
        entry.1 ∈ course.collector.live ∧ entry.1 ≠ selfName := by
  intro course
  have haccounted : course.IsAccounted := (isAccounted_start selfName sieves).run acts
  have hforeign : selfName ∉ course.collector.live := by
    have htidy := haccounted.tidy.foreign
    rwa [selfName_run] at htidy
  have hother : ∀ name ∈ course.collector.live, name ≠ selfName := by
    rintro name hlive rfl
    exact hforeign hlive
  refine ⟨haccounted.tells.replay, haccounted.inTurn, ?_, ?_⟩
  · intro endpoint hendpoint
    have hlive := haccounted.tidy.housed endpoint hendpoint
    exact ⟨hlive, hother _ hlive⟩
  · intro entry hentry
    obtain ⟨hname, hlive⟩ := haccounted.tidy.documented entry hentry
    exact ⟨hname, hlive, hother _ hlive⟩

/-- An application is collected, lost, and collected again. -/
def ordersActs : List Act :=
  [.hear (.found ⟨"orders", "lb://"⟩),
    .receive ⟨⟨"orders", "lb://"⟩, true, false⟩ (.ok ordersDocument), .release ⟨"orders", "lb://"⟩,
    .hear (.lost ⟨"orders", "lb://"⟩), .ask ⟨"orders", "lb://"⟩,
    .receive ⟨⟨"orders", "lb://"⟩, false, false⟩ (.ok ordersDocument)]

theorem run_accounted_orders :
    let endpoint : Endpoint := ⟨⟨"orders", "lb://"⟩, .get, "/orders", [], [], none⟩
    let course := (start "gateway" {}).run ordersActs
    endpoint ∈ course.collector.endpoints ∧
      course.told.filterMap (·.turn? endpoint.key) = [true, false, true] ∧
      course.told.foldl EndpointEvent.replay [] = [endpoint] ∧
      "orders" ∈ course.collector.live ∧ "orders" ≠ "gateway" := by
  intro endpoint course
  have hendpoints : course.collector.endpoints = [endpoint] := by decide +kernel
  have hmem : endpoint ∈ course.collector.endpoints := by
    rw [hendpoints]
    exact .head []
  obtain ⟨hreplay, -, hhoused, -⟩ := run_accounted "gateway" {} ordersActs
  exact ⟨hmem, by decide +kernel, hreplay.trans hendpoints, hhoused endpoint hmem⟩

end Course

end ApiGateway.Discovery
