import ApiGateway.Proofs.Discovery.Accounts
import Mathlib.Data.List.Induction

/-!
# Overtaken collections

What a collection has fetched is used if its application is live when it comes in, whenever the
collection was started.  So the loss of an application makes its collections under way useless only
until it is found again.
-/

namespace ApiGateway.Discovery

def Act.turn? (name : String) : Act → Option Bool
  | .hear event _ => event.turn? name
  | .ask application => (Event.found application).turn? name
  | .evict other _ => if other = name then some false else none
  | .start _ | .receive _ _ | .release _ => none

namespace Collector

/-! ## Collections that are started -/

theorem beginLive_started {collector : Collector} {applications : List Application}
    {started : Application} (hstarted : started ∈ (collector.beginLive applications).2) :
    started.name ∈ collector.live := by
  induction applications generalizing collector with
  | nil => cases hstarted
  | cons application rest ih =>
      rw [beginLive] at hstarted
      split at hstarted
      · next hlive =>
        rcases List.mem_append.mp hstarted with hfirst | hrest
        · rw [begin_started hfirst]
          simpa using hlive
        · obtain ⟨collecting, hbegin⟩ := collector.begin_eq application
          have hafter := ih hrest
          rwa [hbegin] at hafter
      · exact ih hstarted

theorem handle_started {collector : Collector} (hforeign : collector.selfName ∉ collector.live)
    {event : Event} {order : LossOrder} {started : Application}
    (hstarted : started ∈ (collector.handle event order).2.started) :
    started.name ≠ collector.selfName := by
  cases event with
  | lost application => cases hstarted
  | refreshed applications =>
      intro hself
      have hlive := beginLive_started hstarted
      rw [hself] at hlive
      exact hforeign hlive
  | found application =>
      rw [handle, track_eq] at hstarted
      by_cases hself : application.name = collector.selfName
      · simp [hself] at hstarted
      · simp only [ne_eq, hself, not_false_eq_true, decide_true] at hstarted
        rw [begin_started hstarted]
        exact hself

/-! ## Documents that come in -/

theorem Collects.of_gone {collector : Collector} {application : Application} {fetched : Fetched}
    {after : Collector × List EndpointEvent} (hcollects : Collects collector application fetched after)
    (hgone : application.name ∉ collector.live) : after = (collector, []) := by
  cases hcollects with
  | failed hunread => rfl
  | discarded hread hout => rfl
  | used hread hlive => exact absurd hlive hgone

theorem Collects.of_live {collector : Collector} {application : Application} {bytes : List UInt8}
    {document : Document} {after : Collector × List EndpointEvent}
    (hcollects : Collects collector application (.ok bytes) after)
    (hread : Document.read bytes = .ok document) (hlive : application.name ∈ collector.live) :
    after.1.documented? application.name = some ⟨application, document⟩ ∧
      after.1.endpoints =
        (collector.addEndpoints (collector.wanted application document)).1.endpoints := by
  cases hcollects with
  | failed hunread => exact absurd hread (hunread bytes document rfl)
  | discarded hother hgone => exact absurd hlive hgone
  | used hother hthere =>
      rw [hread] at hother
      cases hother
      exact ⟨List.lookup_cons_self, rfl⟩

/-- An endpoint that is added is there by its key. -/
theorem key_mem_addEndpoints (collector : Collector) {endpoints : List Endpoint} {endpoint : Endpoint}
    (hmem : endpoint ∈ endpoints) : endpoint.key ∈ (collector.addEndpoints endpoints).1.keys := by
  induction endpoints generalizing collector with
  | nil => cases hmem
  | cons first rest ih =>
      rcases List.mem_cons.mp hmem with rfl | hrest
      · have hfirst : endpoint.key ∈ (collector.addEndpoint endpoint).1.keys := by
          rw [addEndpoint]
          split
          · next hsame =>
            obtain ⟨other, hother, hkey⟩ := List.any_eq_true.mp hsame
            rw [← Endpoint.same_iff.mp hkey]
            exact List.mem_map_of_mem hother
          · simp [keys]
        exact List.map_subset Endpoint.key (subset_addEndpoints _ rest) hfirst
      · exact ih (collector.addEndpoint first).1 hrest

end Collector

namespace Course

/-! ## Lost and found again -/

def turns (name : String) (acts : List Act) : List Bool :=
  acts.filterMap (·.turn? name)

theorem run_snoc (course : Course) (acts : List Act) (act : Act) :
    course.run (acts ++ [act]) = (course.run acts).step act :=
  List.foldl_concat step course act acts

/-- To ask for an application is to track it, whether or not it is collected. -/
theorem step_ask_collector (course : Course) (application : Application) :
    (course.step (.ask application)).collector = (course.collector.track application).1 := by
  by_cases hself : application.name = course.collector.selfName
  · simp [step, Collector.track, hself]
  · simp [step, Collector.track_eq, hself]

/-- Who is live after a turn of finding or losing, or after none. -/
theorem mem_live_step {course : Course} (hforeign : course.collector.selfName ∉ course.collector.live)
    (act : Act) (name : String) :
    name ∈ (course.step act).collector.live ↔
      (act.turn? name = some true ∧ name ≠ course.collector.selfName) ∨
        (act.turn? name = none ∧ name ∈ course.collector.live) := by
  have hfinds : ∀ application : Application,
      name ∈ (course.collector.track application).1.live ↔
        (application.name = name ∧ name ≠ course.collector.selfName) ∨
          (application.name ≠ name ∧ name ∈ course.collector.live) := by
    intro application
    rw [Collector.mem_live_track]
    constructor
    · rintro (hlive | ⟨hother, hname⟩)
      · by_cases hname : application.name = name
        · refine Or.inl ⟨hname, ?_⟩
          rintro rfl
          exact hforeign hlive
        · exact Or.inr ⟨hname, hlive⟩
      · exact Or.inl ⟨hname, hother⟩
    · rintro (⟨hname, hother⟩ | ⟨-, hlive⟩)
      · exact Or.inr ⟨hother, hname⟩
      · exact Or.inl hlive
  cases act with
  | hear event order =>
      cases event with
      | found application =>
          have hlive := (course.collector.handles (.found application) order).live.1
          have htracked := hfinds application
          rw [Collector.track_eq] at htracked
          refine (iff_of_eq (congrArg (name ∈ ·) hlive)).trans ?_
          simpa [Act.turn?, Event.turn?] using htracked
      | lost application =>
          refine (Collector.mem_live_evict course.collector application.name name order).trans ?_
          simp [Act.turn?, Event.turn?, and_comm, eq_comm]
      | refreshed applications =>
          have hlive := (course.collector.handles (.refreshed applications) order).live.1
          refine (iff_of_eq (congrArg (name ∈ ·) hlive)).trans ?_
          simp [Act.turn?, Event.turn?, Event.replay]
  | evict other order =>
      refine (Collector.mem_live_evict course.collector other name order).trans ?_
      simp [Act.turn?, and_comm, eq_comm]
  | ask application =>
      rw [step_ask_collector, hfinds]
      simp [Act.turn?, Event.turn?]
  | start application =>
      rw [step]
      split
      · simp [Act.turn?]
      · obtain ⟨collecting, hbegin⟩ := course.collector.begin_eq application
        simp [hbegin, Act.turn?]
  | receive collection fetched =>
      rw [step]
      split
      · simp [(course.collector.collect_live collection.application fetched).1, Act.turn?]
      · simp [Act.turn?]
  | release application =>
      rw [step]
      split <;> simp [Act.turn?]

theorem mem_live_run (selfName : String) (sieves : Sieves Endpoint) (acts : List Act) (name : String) :
    name ∈ ((start selfName sieves).run acts).collector.live ↔
      name ≠ selfName ∧ (turns name acts).getLast? = some true := by
  induction acts using List.reverseRecOn with
  | nil => simp [start, turns]
  | append_singleton acts act ih =>
      have hself := selfName_run (start selfName sieves) acts
      have hforeign := ((isAccounted_start selfName sieves).run acts).tidy.foreign
      rw [run_snoc, mem_live_step hforeign, hself, ih, turns, turns, List.filterMap_append]
      cases hturn : act.turn? name with
      | none => simp [hturn]
      | some turn =>
          cases turn with
          | false => simp [hturn]
          | true => simp [hturn, start]

/-! ## Collections under way -/

theorem mem_overtake {name : String} {running : List Collection} {collection : Collection}
    (hmem : collection ∈ overtake name running) :
    collection ∈ running ∨ ∃ earlier ∈ running, earlier.application.name = name ∧
      collection = { earlier with overtaken := true } := by
  obtain ⟨earlier, hearlier, heq⟩ := List.mem_map.mp hmem
  split at heq
  · next hname => exact Or.inr ⟨earlier, hearlier, hname, heq.symm⟩
  · rw [← heq]
    exact Or.inl hearlier

theorem mem_markedOf {applications : List Application} {collection : Collection} :
    collection ∈ markedOf applications ↔
      ∃ application ∈ applications, collection = { application, marked := true } := by
  rw [markedOf, List.mem_map]
  exact exists_congr fun application => and_congr_right fun _ => eq_comm

/-- A collection under way was so before, or is now overtaken by a loss, or is new and not that of the
gateway. -/
theorem mem_running_step {course : Course}
    (hforeign : course.collector.selfName ∉ course.collector.live) {act : Act} {collection : Collection}
    (hmem : collection ∈ (course.step act).running) :
    collection ∈ course.running ∨
      (∃ earlier ∈ course.running, act.turn? earlier.application.name = some false ∧
        collection = { earlier with overtaken := true }) ∨
      collection.overtaken = false ∧ collection.application.name ≠ course.collector.selfName := by
  cases act with
  | hear event order =>
      rcases List.mem_append.mp hmem with hold | hnew
      · cases event with
        | found application => exact Or.inl hold
        | refreshed applications => exact Or.inl hold
        | lost application =>
            rcases mem_overtake hold with hkept | ⟨earlier, hearlier, hname, heq⟩
            · exact Or.inl hkept
            · exact Or.inr (Or.inl ⟨earlier, hearlier, by simp [Act.turn?, Event.turn?, hname], heq⟩)
      · obtain ⟨application, hstarted, rfl⟩ := mem_markedOf.mp hnew
        exact Or.inr (Or.inr ⟨rfl, Collector.handle_started hforeign hstarted⟩)
  | evict name order =>
      rcases mem_overtake hmem with hkept | ⟨earlier, hearlier, hname, heq⟩
      · exact Or.inl hkept
      · exact Or.inr (Or.inl ⟨earlier, hearlier, by simp [Act.turn?, hname], heq⟩)
  | start application =>
      rw [step] at hmem
      split at hmem
      · exact Or.inl hmem
      · next hother =>
        rcases List.mem_append.mp hmem with hold | hnew
        · exact Or.inl hold
        · obtain ⟨started, hstarted, rfl⟩ := mem_markedOf.mp hnew
          rw [Collector.begin_started hstarted]
          exact Or.inr (Or.inr ⟨rfl, hother⟩)
  | ask application =>
      rw [step, Collector.track_eq] at hmem
      by_cases hself : application.name = course.collector.selfName
      · simp only [hself, ne_eq, not_true_eq_false, decide_false] at hmem
        exact Or.inl hmem
      · simp only [ne_eq, hself, not_false_eq_true, decide_true] at hmem
        rcases List.mem_append.mp hmem with hold | hnew
        · exact Or.inl hold
        · rw [List.mem_singleton.mp hnew]
          exact Or.inr (Or.inr ⟨rfl, hself⟩)
  | receive other fetched =>
      rw [step] at hmem
      split at hmem
      · exact Or.inl (List.mem_of_mem_erase hmem)
      · exact Or.inl hmem
  | release application =>
      rw [step] at hmem
      split at hmem <;> exact Or.inl hmem

/-- A collection under way is not that of the gateway, and if it is overtaken, its application has been
lost. -/
theorem mem_running_run {selfName : String} {sieves : Sieves Endpoint} {acts : List Act}
    {collection : Collection} (hmem : collection ∈ ((start selfName sieves).run acts).running) :
    collection.application.name ≠ selfName ∧
      (collection.overtaken = true → false ∈ turns collection.application.name acts) := by
  induction acts using List.reverseRecOn generalizing collection with
  | nil => cases hmem
  | append_singleton acts act ih =>
      have hself : ((start selfName sieves).run acts).collector.selfName = selfName :=
        selfName_run (start selfName sieves) acts
      have hforeign := ((isAccounted_start selfName sieves).run acts).tidy.foreign
      rw [run_snoc] at hmem
      rw [turns, List.filterMap_append]
      rcases mem_running_step hforeign hmem with hold | ⟨earlier, hearlier, hlost, rfl⟩ | ⟨hnew, hother⟩
      · obtain ⟨hother, hovertaken⟩ := ih hold
        exact ⟨hother, fun hflag => List.mem_append_left _ (hovertaken hflag)⟩
      · refine ⟨(ih hearlier).1, fun _ => List.mem_append_right _ ?_⟩
        simp [hlost]
      · rw [hself] at hother
        refine ⟨hother, fun hflag => ?_⟩
        rw [hnew] at hflag
        cases hflag

/-! ## What comes in late -/

/-- The loss of its application overtakes a collection.  What the collection has fetched is then not
used as long as the application has not been found again; after that it is used as if it were new. -/
theorem receive_overtaken (selfName : String) (sieves : Sieves Endpoint) (acts : List Act)
    {collection : Collection} (fetched : Collector.Fetched)
    (hrunning : collection ∈ ((start selfName sieves).run acts).running)
    (hovertaken : collection.overtaken = true) :
    let course := (start selfName sieves).run acts
    let after := course.step (.receive collection fetched)
    let name := collection.application.name
    false ∈ turns name acts ∧
      ((turns name acts).getLast? = some false →
        after.collector = course.collector ∧ after.told = course.told) ∧
      ((turns name acts).getLast? = some true →
        ∀ bytes document, fetched = .ok bytes → Document.read bytes = .ok document →
          after.collector.documented? name = some ⟨collection.application, document⟩ ∧
            ∀ endpoint ∈ course.collector.wanted collection.application document,
              endpoint.key ∈ after.collector.keys) := by
  intro course after name
  obtain ⟨hother, hlost⟩ := mem_running_run hrunning
  have hlive := mem_live_run selfName sieves acts name
  have hcollector : after.collector =
      (course.collector.collect collection.application fetched).1 := by
    simp only [after, step]
    rw [if_pos hrunning]
  have htold : after.told =
      course.told ++ (course.collector.collect collection.application fetched).2.1 := by
    simp only [after, step]
    rw [if_pos hrunning]
  have hcollects := course.collector.collects collection.application fetched
  refine ⟨hlost hovertaken, ?_, ?_⟩
  · intro hlast
    have hgone : name ∉ course.collector.live := by
      rw [hlive, hlast]
      simp
    obtain ⟨hsame, hquiet⟩ := Prod.mk.inj (hcollects.of_gone hgone)
    rw [hcollector, htold, hsame, hquiet]
    exact ⟨rfl, List.append_nil _⟩
  · -- Liveness is all that is looked at: the collection counts although it was started before the loss.
    intro hlast bytes document hfetched hread
    have hthere : name ∈ course.collector.live := hlive.mpr ⟨hother, hlast⟩
    rw [hfetched] at hcollects hcollector
    obtain ⟨hdocument, hendpoints⟩ := hcollects.of_live hread hthere
    rw [hcollector]
    refine ⟨hdocument, ?_⟩
    intro endpoint hwanted
    rw [Collector.keys, hendpoints]
    exact Collector.key_mem_addEndpoints course.collector hwanted

def lostActs : List Act :=
  [.hear (.found ⟨"orders", "lb://"⟩), .hear (.lost ⟨"orders", "lb://"⟩)]

/-- An application is lost while it is collected, and found again before the collection ends. -/
def foundAgainActs : List Act :=
  lostActs ++ [.hear (.found ⟨"orders", "lb://"⟩)]

def ordersCollection : Collection :=
  ⟨⟨"orders", "lb://"⟩, true, true⟩

theorem receive_overtaken_orders :
    let lost := (start "gateway" {}).run lostActs
    let found := (start "gateway" {}).run foundAgainActs
    (ordersCollection ∈ lost.running ∧
        (lost.step (.receive ordersCollection (.ok ordersDocument))).told = lost.told) ∧
      ordersCollection ∈ found.running ∧
        ((found.step (.receive ordersCollection (.ok ordersDocument))).collector.documented?
          "orders").isSome = true := by
  intro lost found
  have hlost : ordersCollection ∈ lost.running := by decide +kernel
  have hfound : ordersCollection ∈ found.running := by decide +kernel
  obtain ⟨-, hdiscarded, -⟩ :=
    receive_overtaken "gateway" {} lostActs (.ok ordersDocument) hlost rfl
  obtain ⟨-, -, hused⟩ :=
    receive_overtaken "gateway" {} foundAgainActs (.ok ordersDocument) hfound rfl
  refine ⟨⟨hlost, (hdiscarded (by decide +kernel)).2⟩, hfound, ?_⟩
  cases hread : Document.read ordersDocument with
  | error problem =>
      have hreadable : (Document.read ordersDocument).toBool = true := by decide +kernel
      rw [hread] at hreadable
      cases hreadable
  | ok document =>
      have hdocument := (hused (by decide +kernel) ordersDocument document rfl hread).1
      exact Option.isSome_of_eq_some hdocument

/-- The loss of an application while it is collected does not rule out that what was fetched before is
used after it. -/
theorem not_discarded_of_overtaken : ¬ ∀ (selfName : String) (sieves : Sieves Endpoint)
    (events : List Event) (collection : Collection) (fetched : Collector.Fetched),
    let course := (start selfName sieves).run (events.map .hear)
    let after := course.step (.receive collection fetched)
    collection ∈ course.running → collection.overtaken = true →
      after.collector.endpoints = course.collector.endpoints ∧ after.told = course.told ∧
        after.collector.documents = course.collector.documents := by
  intro hdiscarded
  have horders := (hdiscarded "gateway" {}
    [.found ⟨"orders", "lb://"⟩, .lost ⟨"orders", "lb://"⟩, .found ⟨"orders", "lb://"⟩]
    ordersCollection (.ok ordersDocument) (by decide +kernel) rfl).2.1
  revert horders
  decide +kernel

end Course

end ApiGateway.Discovery
