import ApiGateway.Proofs.Discovery.CollectorEvents

/-!
# The course of a collector

A collector is called in any order: it hears of events, it is asked to collect or to evict an
application, and what collections have fetched comes in long after their start.  Nothing comes between
the parts of one act.  A course keeps what the collector has told and which collections are under way.
An act by which an application is lost comes with the order in which its endpoints are told lost, so that
what holds of all acts holds whatever this order is.
-/

namespace ApiGateway.Discovery

namespace Collector

/-! ## What was fetched -/

def wanted (collector : Collector) (application : Application) (document : Document) : List Endpoint :=
  (document.endpoints application).filter collector.sieves.allows

theorem applicationName_of_mem_wanted {collector : Collector} {application : Application}
    {document : Document} {endpoint : Endpoint}
    (hwanted : endpoint ∈ collector.wanted application document) :
    endpoint.application.name = application.name := by
  have hdocumented := (List.mem_filter.mp hwanted).1
  rw [Document.endpoints] at hdocumented
  obtain ⟨operation, -, rfl⟩ := List.mem_map.mp hdocumented
  rfl

/-- What becomes of what was fetched for an application. -/
inductive Collects (collector : Collector) (application : Application) :
    Fetched → Collector × List EndpointEvent → Prop where
  | failed {fetched : Fetched}
      (hunread : ∀ bytes document, fetched = .ok bytes → Document.read bytes ≠ .ok document) :
      Collects collector application fetched (collector, [])
  | discarded {bytes : List UInt8} {document : Document} (hread : Document.read bytes = .ok document)
      (hgone : application.name ∉ collector.live) :
      Collects collector application (.ok bytes) (collector, [])
  | used {bytes : List UInt8} {document : Document} (hread : Document.read bytes = .ok document)
      (hlive : application.name ∈ collector.live) :
      Collects collector application (.ok bytes)
        ({ collector with
            endpoints := (collector.addEndpoints (collector.wanted application document)).1.endpoints
            documents := (application.name, ⟨application, document⟩) ::
              collector.documents.filter (·.1 != application.name) },
          (collector.addEndpoints (collector.wanted application document)).2)

theorem collects (collector : Collector) (application : Application) (fetched : Fetched) :
    Collects collector application fetched
      ((collector.collect application fetched).1, (collector.collect application fetched).2.1) := by
  cases fetched with
  | error failure => exact .failed fun bytes document hfetched => nomatch hfetched
  | ok bytes =>
      rw [collect]
      simp only
      cases hread : Document.read bytes with
      | error problem =>
          refine .failed fun other document hfetched hother => ?_
          cases hfetched
          rw [hread] at hother
          cases hother
      | ok document =>
          simp only [accept, Documented.endpoints]
          split
          · next hlive =>
            rw [addEndpoints_eq]
            exact .used hread (by simpa using hlive)
          · next hgone => exact .discarded hread (by simpa using hgone)

/-! ## Live applications and their collections -/

theorem mem_live_track (collector : Collector) (application : Application) (name : String) :
    name ∈ (collector.track application).1.live ↔
      name ∈ collector.live ∨ name ≠ collector.selfName ∧ application.name = name := by
  rw [track]
  split
  · next hself =>
    refine ⟨Or.inl, ?_⟩
    rintro (hlive | ⟨hother, rfl⟩)
    · exact hlive
    · exact absurd hself hother
  · next hother =>
    split
    · next hlive =>
      refine ⟨Or.inl, ?_⟩
      rintro (hold | ⟨-, rfl⟩)
      · exact hold
      · simpa using hlive
    · rw [List.mem_cons]
      constructor
      · rintro (rfl | hold)
        · exact Or.inr ⟨hother, rfl⟩
        · exact Or.inl hold
      · rintro (hold | ⟨-, rfl⟩)
        · exact Or.inr hold
        · exact Or.inl rfl

theorem mem_live_evict (collector : Collector) (other name : String) (order : LossOrder) :
    name ∈ (collector.evict other order).1.live ↔ name ∈ collector.live ∧ name ≠ other := by
  rw [evict, List.mem_filter, bne_iff_ne]

theorem begin_started {collector : Collector} {application started : Application}
    (hstarted : started ∈ (collector.begin application).2) : started = application := by
  rw [begin] at hstarted
  split at hstarted
  · cases hstarted
  · exact List.mem_singleton.mp hstarted

inductive Does (collector : Collector) : Collector × List EndpointEvent → Prop where
  | hears (event : Event) (order : LossOrder) :
      Does collector ((collector.handle event order).1, (collector.handle event order).2.events)
  | collects (application : Application) (fetched : Fetched) :
      Does collector
        ((collector.collect application fetched).1, (collector.collect application fetched).2.1)
  | tracks (application : Application) : Does collector ((collector.track application).1, [])
  | marks (collecting : List String) : Does collector ({ collector with collecting }, [])

end Collector

/-! ## Acts -/

/-- A collection that waits for what it fetches. -/
structure Collection where
  application : Application
  /-- It was started on an event; its application is marked until the collection is over. -/
  marked : Bool
  /-- Its application has been lost since its start. -/
  overtaken : Bool := false
  deriving DecidableEq, Repr

structure Course where
  collector : Collector
  /-- What the collector has told. -/
  told : List EndpointEvent := []
  running : List Collection := []
  /-- The applications of marked collections that have what they fetched and are not over. -/
  ending : List Application := []

inductive Act where
  | hear (event : Event) (order : LossOrder := {})
  /-- A collection is started apart from its event: another act has come between the look whether the
  application is live and the start. -/
  | start (application : Application)
  /-- A caller has an application tracked and collected. -/
  | ask (application : Application)
  /-- What a collection has fetched comes in. -/
  | receive (collection : Collection) (fetched : Collector.Fetched)
  /-- A marked collection is over. -/
  | release (application : Application)
  | evict (name : String) (order : LossOrder := {})

namespace Course

def overtake (name : String) (running : List Collection) : List Collection :=
  running.map fun collection =>
    if collection.application.name = name then { collection with overtaken := true } else collection

def afterEvent (running : List Collection) : Event → List Collection
  | .lost application => overtake application.name running
  | .found _ | .refreshed _ => running

def markedOf (applications : List Application) : List Collection :=
  applications.map ({ application := ·, marked := true })

@[simp]
theorem markedOf_nil : markedOf [] = [] := rfl

/-- The course after one act.  The gateway itself is never collected, and only a collection that is
under way ends. -/
def step (course : Course) : Act → Course
  | .hear event order =>
      let (collector, reaction) := course.collector.handle event order
      { course with
        collector
        told := course.told ++ reaction.events
        running := afterEvent course.running event ++ markedOf reaction.started }
  | .start application =>
      if application.name = course.collector.selfName then course
      else
        let (collector, started) := course.collector.begin application
        { course with collector, running := course.running ++ markedOf started }
  | .ask application =>
      let (collector, tracked) := course.collector.track application
      if tracked then
        { course with collector, running := course.running ++ [{ application, marked := false }] }
      else course
  | .receive collection fetched =>
      if collection ∈ course.running then
        let (collector, events, _) := course.collector.collect collection.application fetched
        { collector
          told := course.told ++ events
          running := course.running.erase collection
          ending :=
            if collection.marked then course.ending ++ [collection.application] else course.ending }
      else course
  | .release application =>
      if application ∈ course.ending then
        let collecting := course.collector.collecting.filter (· != application.name)
        { course with
          collector := { course.collector with collecting }
          ending := course.ending.erase application }
      else course
  | .evict name order =>
      let (collector, events) := course.collector.evict name order
      { course with
        collector
        told := course.told ++ events
        running := overtake name course.running }

def run (course : Course) (acts : List Act) : Course :=
  acts.foldl step course

@[simp]
theorem run_nil (course : Course) : course.run [] = course := rfl

@[simp]
theorem run_cons (course : Course) (first : Act) (rest : List Act) :
    course.run (first :: rest) = (course.step first).run rest := rfl

def start (selfName : String) (sieves : Sieves Endpoint) : Course where
  collector := { selfName, sieves }

def ordersDocument : List UInt8 :=
  Text.utf8 "\x7b\"paths\":\x7b\"/orders\":\x7b\"get\":\x7b\x7d\x7d\x7d\x7d".toList

/-! ## Whole collections -/

/-- The end of a marked collection is the use of what it has fetched, and then its release. -/
theorem complete_eq_run (course : Course) {collection : Collection} (fetched : Collector.Fetched)
    (hrunning : collection ∈ course.running) (hmarked : collection.marked = true) :
    (course.run [.receive collection fetched, .release collection.application]).collector =
      (course.collector.complete collection.application fetched).1 := by
  simp [step, hrunning, hmarked, Collector.complete]

/-- To track an application and collect it at once is to ask for it and to receive what was fetched. -/
theorem collectNow_eq_run (course : Course) (application : Application) (fetched : Collector.Fetched)
    (hother : application.name ≠ course.collector.selfName) :
    (course.run [.ask application, .receive { application, marked := false } fetched]).collector =
      (course.collector.collectNow application fetched).1 := by
  simp [step, Collector.track_eq, Collector.collectNow, hother]

/-- Whatever an act does to the collector, what is told of it comes behind what was told before. -/
theorem step_does (course : Course) (act : Act) : ∃ after, Collector.Does course.collector after ∧
    (course.step act).collector = after.1 ∧ (course.step act).told = course.told ++ after.2 := by
  have hrests : Collector.Does course.collector (course.collector, []) :=
    .marks course.collector.collecting
  cases act with
  | hear event order => exact ⟨_, .hears event order, rfl, rfl⟩
  | evict name order => exact ⟨_, .hears (.lost ⟨name, ""⟩) order, rfl, rfl⟩
  | start application =>
      rw [step]
      split
      · exact ⟨_, hrests, rfl, (List.append_nil _).symm⟩
      · obtain ⟨collecting, hbegin⟩ := course.collector.begin_eq application
        exact ⟨_, .marks collecting, hbegin, (List.append_nil _).symm⟩
  | ask application =>
      simp only [step]
      split
      · exact ⟨_, .tracks application, rfl, (List.append_nil _).symm⟩
      · exact ⟨_, hrests, rfl, (List.append_nil _).symm⟩
  | receive collection fetched =>
      rw [step]
      split
      · exact ⟨_, .collects collection.application fetched, rfl, rfl⟩
      · exact ⟨_, hrests, rfl, (List.append_nil _).symm⟩
  | release application =>
      rw [step]
      split
      · exact ⟨_, .marks _, rfl, (List.append_nil _).symm⟩
      · exact ⟨_, hrests, rfl, (List.append_nil _).symm⟩

end Course

end ApiGateway.Discovery
