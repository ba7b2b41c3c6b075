import ApiGateway.Proofs.Discovery.Course
import Mathlib.Data.List.Nodup

/-!
# Collections in flight

An application is marked when a collection of it is started on an event, and the mark is taken away when
that collection is over.  The marks are those of the collections in flight at every moment, one at most for
each application, whatever the collections have fetched and whether their applications are lost and found
meanwhile.  So nothing keeps an application from being collected again.
-/

namespace ApiGateway.Discovery

namespace Collector

/-! ## Marks -/

/-- The marks that a collector gains are those of the collections that it starts. -/
structure Marks (before : Collector) (after : Collector × List Application) : Prop where
  perm : after.1.collecting.Perm (after.2.map (·.name) ++ before.collecting)
  nodup : before.collecting.Nodup → after.1.collecting.Nodup

theorem marks_none (collector : Collector) : Marks collector (collector, []) :=
  ⟨.refl _, id⟩

theorem Marks.append {before between after : Collector} {first others : List Application}
    (hfirst : Marks before (between, first)) (hothers : Marks between (after, others)) :
    Marks before (after, first ++ others) where
  perm := by
    have hswapped : (others.map (·.name) ++ (first.map (·.name) ++ before.collecting)).Perm
        ((first ++ others).map (·.name) ++ before.collecting) := by
      rw [List.map_append, ← List.append_assoc]
      exact List.perm_append_comm.append_right _
    exact (hothers.perm.trans (hfirst.perm.append_left _)).trans hswapped
  nodup := fun hdistinct => hothers.nodup (hfirst.nodup hdistinct)

variable (collector : Collector)

theorem marks_begin (application : Application) : Marks collector (collector.begin application) := by
  rw [begin]
  split
  · exact marks_none collector
  · next hnew => exact ⟨.refl _, fun hdistinct => List.nodup_cons.mpr ⟨by simpa using hnew, hdistinct⟩⟩

theorem marks_beginLive (applications : List Application) :
    Marks collector (collector.beginLive applications) := by
  induction applications generalizing collector with
  | nil => exact marks_none collector
  | cons application rest ih =>
      rw [beginLive]
      split
      · exact (collector.marks_begin application).append (ih (collector.begin application).1)
      · exact ih collector

theorem marks_handle (event : Event) (order : LossOrder) :
    Marks collector ((collector.handle event order).1, (collector.handle event order).2.started) := by
  cases event with
  | lost application => exact ⟨.refl _, id⟩
  | refreshed applications => exact collector.marks_beginLive applications
  | found application =>
      rw [handle, track_eq]
      by_cases hself : application.name = collector.selfName
      · simp only [hself, ne_eq, not_true_eq_false, decide_false]
        exact ⟨.refl _, id⟩
      · simp only [ne_eq, hself, not_false_eq_true, decide_true]
        have hmarks := marks_begin
          { collector with
            live := (Event.found application).replay collector.selfName collector.live } application
        exact ⟨hmarks.perm, hmarks.nodup⟩

/-! ## Collections that are called for -/

/-- An event names a live application.  One that is found is live from then on, unless it is the gateway. -/
def Calls (name : String) : Event → Prop
  | .found application => application.name = name ∧ name ≠ collector.selfName
  | .refreshed applications => name ∈ applications.map (·.name) ∧ name ∈ collector.live
  | .lost _ => False

theorem mem_started_begin (application : Application) (name : String) :
    name ∈ (collector.begin application).2.map (·.name) ↔
      application.name = name ∧ name ∉ collector.collecting := by
  rw [begin]
  split
  · next hmarked =>
    constructor
    · intro hstarted
      cases hstarted
    · rintro ⟨rfl, hnew⟩
      exact absurd (by simpa using hmarked) hnew
  · next hnew =>
    constructor
    · intro hstarted
      cases List.mem_singleton.mp hstarted
      exact ⟨rfl, by simpa using hnew⟩
    · rintro ⟨rfl, -⟩
      exact .head []

theorem mem_collecting_begin (application : Application) (name : String) :
    name ∈ (collector.begin application).1.collecting ↔
      application.name = name ∨ name ∈ collector.collecting := by
  rw [begin]
  split
  · next hmarked =>
    refine ⟨Or.inr, ?_⟩
    rintro (rfl | hold)
    · simpa using hmarked
    · exact hold
  · rw [List.mem_cons, eq_comm]

theorem mem_started_beginLive (applications : List Application) (name : String) :
    name ∈ (collector.beginLive applications).2.map (·.name) ↔
      (name ∈ applications.map (·.name) ∧ name ∈ collector.live) ∧ name ∉ collector.collecting := by
  induction applications generalizing collector with
  | nil => simp [beginLive]
  | cons application rest ih =>
      rw [beginLive, List.map_cons, List.mem_cons]
      split
      · next hlive =>
        obtain ⟨collecting, hbegin⟩ := collector.begin_eq application
        have hsame : (collector.begin application).1.live = collector.live := by rw [hbegin]
        simp only [List.map_append]
        rw [List.mem_append, mem_started_begin, ih, hsame, mem_collecting_begin]
        by_cases hname : name = application.name
        · subst hname
          have hlive : application.name ∈ collector.live := by simpa using hlive
          simp [hlive]
        · simp [hname, Ne.symm hname]
      · next hgone =>
        rw [ih]
        by_cases hname : name = application.name
        · subst hname
          have hgone : application.name ∉ collector.live := by simpa using hgone
          simp [hgone]
        · simp [hname]

/-- An event starts a collection of a name if it calls for one and none is marked. -/
theorem mem_started_handle (event : Event) (order : LossOrder) (name : String) :
    name ∈ (collector.handle event order).2.started.map (·.name) ↔
      collector.Calls name event ∧ name ∉ collector.collecting := by
  cases event with
  | lost application => simp [handle, Calls]
  | refreshed applications => exact collector.mem_started_beginLive applications name
  | found application =>
      rw [handle, track_eq]
      by_cases hself : application.name = collector.selfName
      · simp only [hself, ne_eq, not_true_eq_false, decide_false]
        constructor
        · intro hstarted
          cases hstarted
        · rintro ⟨⟨rfl, hother⟩, -⟩
          exact absurd hself hother
      · simp only [ne_eq, hself, not_false_eq_true, decide_true]
        rw [mem_started_begin]
        constructor
        · rintro ⟨rfl, hnew⟩
          exact ⟨⟨rfl, hself⟩, hnew⟩
        · rintro ⟨⟨hname, -⟩, hnew⟩
          exact ⟨hname, hnew⟩

theorem collect_collecting (application : Application) (fetched : Fetched) :
    (collector.collect application fetched).1.collecting = collector.collecting := by
  rcases collector.collect_cases application fetched with
    ⟨hsame, -⟩ | ⟨-, endpoints, documents, -, hcollector, -⟩
  · rw [hsame]
  · rw [hcollector, addEndpoints_eq]

end Collector

namespace Course

/-! ## Collections and their marks -/

def markedNames (running : List Collection) : List String :=
  (running.filter (·.marked)).map (·.application.name)

/-- The names of the collections that were started on events and are not over. -/
def inFlight (course : Course) : List String :=
  markedNames course.running ++ course.ending.map (·.name)

theorem markedNames_append (running others : List Collection) :
    markedNames (running ++ others) = markedNames running ++ markedNames others := by
  rw [markedNames, List.filter_append, List.map_append]
  rfl

theorem markedNames_markedOf (applications : List Application) :
    markedNames (markedOf applications) = applications.map (·.name) := by
  rw [markedNames, List.filter_eq_self.mpr]
  · rw [markedOf, List.map_map]
    rfl
  · intro collection hcollection
    obtain ⟨application, -, rfl⟩ := List.mem_map.mp hcollection
    rfl

theorem markedNames_overtake (name : String) (running : List Collection) :
    markedNames (overtake name running) = markedNames running := by
  have hkept : ∀ collection : Collection,
      (if collection.application.name = name then { collection with overtaken := true }
        else collection).marked = collection.marked ∧
      (if collection.application.name = name then { collection with overtaken := true }
        else collection).application = collection.application := by
    intro collection
    split <;> exact ⟨rfl, rfl⟩
  simp only [markedNames, overtake, List.filter_map, List.map_map, Function.comp_def, hkept]

theorem markedNames_afterEvent (running : List Collection) (event : Event) :
    markedNames (afterEvent running event) = markedNames running := by
  cases event with
  | found | refreshed => rfl
  | lost application => exact markedNames_overtake _ running

/-- A collection that is taken out takes its name along if it was marked. -/
theorem perm_markedNames {running : List Collection} {collection : Collection}
    (hrunning : collection ∈ running) :
    (markedNames running).Perm
      ((if collection.marked then [collection.application.name] else []) ++
        markedNames (running.erase collection)) := by
  have hperm := ((List.perm_cons_erase hrunning).filter (·.marked)).map (·.application.name)
  rw [List.filter_cons] at hperm
  split
  · next hmarked =>
    rw [if_pos hmarked] at hperm
    exact hperm
  · next hmarked =>
    rw [if_neg hmarked] at hperm
    exact hperm

/-- The marks are those of the collections in flight, and no application has two. -/
structure IsMarked (course : Course) : Prop where
  perm : course.collector.collecting.Perm course.inFlight
  nodup : course.collector.collecting.Nodup

theorem isMarked_start (selfName : String) (sieves : Sieves Endpoint) :
    (start selfName sieves).IsMarked :=
  ⟨.refl _, .nil⟩

namespace IsMarked

variable {course : Course}

/-- Collections are started, each with its mark. -/
theorem starts (hmarked : course.IsMarked) {collector : Collector} {started : List Application}
    (hmarks : Collector.Marks course.collector (collector, started)) {told : List EndpointEvent}
    {running : List Collection} (hrunning : markedNames running = markedNames course.running) :
    IsMarked { course with collector, told, running := running ++ markedOf started } where
  perm := by
    have hinFlight : (started.map (·.name) ++ course.inFlight).Perm
        (markedNames (running ++ markedOf started) ++ course.ending.map (·.name)) := by
      rw [markedNames_append, markedNames_markedOf, hrunning, inFlight, ← List.append_assoc]
      exact List.perm_append_comm.append_right _
    exact (hmarks.perm.trans (hmarked.perm.append_left _)).trans hinFlight
  nodup := hmarks.nodup hmarked.nodup

/-- What has been fetched comes in, and the mark stays until the collection is over. -/
theorem receives (hmarked : course.IsMarked) {collection : Collection}
    (hrunning : collection ∈ course.running) {collector : Collector}
    (hcollecting : collector.collecting = course.collector.collecting) (told : List EndpointEvent) :
    IsMarked
      { collector
        told
        running := course.running.erase collection
        ending :=
          if collection.marked then course.ending ++ [collection.application] else course.ending } where
  perm := by
    have hperm := (perm_markedNames hrunning).append_right (course.ending.map (·.name))
    refine (hcollecting ▸ hmarked.perm).trans (hperm.trans ?_)
    rw [inFlight]
    split
    · rw [List.map_append, List.append_assoc, ← List.append_assoc (markedNames _)]
      exact List.perm_append_comm
    · exact .refl _
  nodup := hcollecting ▸ hmarked.nodup

/-- A collection that is over takes its mark along, and no other has the same. -/
theorem releases (hmarked : course.IsMarked) {application : Application}
    (hending : application ∈ course.ending) :
    (course.step (.release application)).IsMarked ∧
      application.name ∉ (course.step (.release application)).inFlight := by
  have hperm : course.inFlight.Perm (application.name ::
      (markedNames course.running ++ (course.ending.erase application).map (·.name))) := by
    have hends := (List.perm_cons_erase hending).map (·.name)
    exact (hends.append_left _).trans List.perm_middle
  have hdistinct := (hmarked.perm.trans hperm).nodup_iff.mp hmarked.nodup
  obtain ⟨hfreed, -⟩ := List.nodup_cons.mp hdistinct
  rw [step, if_pos hending]
  refine ⟨⟨?_, hmarked.nodup.filter _⟩, hfreed⟩
  refine ((hmarked.perm.trans hperm).filter _).trans ?_
  rw [List.filter_cons_of_neg (by simp), List.filter_eq_self.mpr]
  · exact .refl _
  · intro other hother
    rw [bne_iff_ne]
    rintro rfl
    exact hfreed hother

theorem step (hmarked : course.IsMarked) (act : Act) : (course.step act).IsMarked := by
  cases act with
  | hear event order =>
      exact hmarked.starts (course.collector.marks_handle event order) (markedNames_afterEvent _ event)
  | start application =>
      rw [Course.step]
      split
      · exact hmarked
      · exact hmarked.starts (course.collector.marks_begin application) rfl
  | ask application =>
      rw [Course.step, Collector.track_eq]
      dsimp only
      split
      · have hunmarked : markedNames (course.running ++ [{ application, marked := false }]) =
            markedNames course.running := by
          rw [markedNames_append]
          exact List.append_nil _
        refine ⟨?_, hmarked.nodup⟩
        rw [inFlight, hunmarked]
        exact hmarked.perm
      · exact hmarked
  | receive collection fetched =>
      rw [Course.step]
      split
      · next hrunning => exact hmarked.receives hrunning (Collector.collect_collecting ..) _
      · exact hmarked
  | release application =>
      by_cases hending : application ∈ course.ending
      · exact (hmarked.releases hending).1
      · rw [Course.step, if_neg hending]
        exact hmarked
  | evict name order =>
      refine ⟨?_, hmarked.nodup⟩
      rw [inFlight, Course.step, markedNames_overtake]
      exact hmarked.perm

theorem run (hmarked : course.IsMarked) (acts : List Act) : (course.run acts).IsMarked := by
  induction acts generalizing course with
  | nil => exact hmarked
  | cons first rest ih => exact ih (hmarked.step first)

theorem mem_inFlight_iff (hmarked : course.IsMarked) (name : String) :
    name ∈ course.inFlight ↔ name ∈ course.collector.collecting :=
  hmarked.perm.mem_iff.symm

end IsMarked

/-! ## From the start of a collection to its end -/

variable {course : Course}

def Calls (course : Course) (name : String) : Act → Prop
  | .hear event _ => course.collector.Calls name event
  | .start application => application.name = name ∧ name ≠ course.collector.selfName
  | .ask _ | .receive _ _ | .release _ | .evict _ _ => False

def Ends (course : Course) (name : String) : Act → Prop
  | .release application => application ∈ course.ending ∧ application.name = name
  | .hear _ _ | .start _ | .ask _ | .receive _ _ | .evict _ _ => False

theorem mem_collecting_step (course : Course) (act : Act) (name : String) :
    name ∈ (course.step act).collector.collecting ↔
      (course.Calls name act ∨ name ∈ course.collector.collecting) ∧ ¬ course.Ends name act := by
  cases act with
  | hear event order =>
      rw [step, Calls, Ends]
      dsimp only
      rw [(course.collector.marks_handle event order).perm.mem_iff, List.mem_append,
        Collector.mem_started_handle]
      tauto
  | start application =>
      rw [step, Calls, Ends]
      split
      · next hself =>
        rw [← hself]
        tauto
      · next hother =>
        dsimp only
        rw [Collector.mem_collecting_begin]
        constructor
        · rintro (rfl | hold)
          · exact ⟨Or.inl ⟨rfl, hother⟩, id⟩
          · exact ⟨Or.inr hold, id⟩
        · rintro ⟨⟨hname, -⟩ | hold, -⟩
          · exact Or.inl hname
          · exact Or.inr hold
  | ask application =>
      rw [step, Collector.track_eq, Calls, Ends]
      dsimp only
      split <;> simp
  | receive collection fetched =>
      rw [step, Calls, Ends]
      split <;> simp [Collector.collect_collecting]
  | release application =>
      rw [step, Calls, Ends]
      split
      · next hending =>
        dsimp only
        rw [List.mem_filter, bne_iff_ne, ne_comm]
        tauto
      · next hnone => simp [hnone]
  | evict other order => simp [step, Calls, Ends, Collector.evict]

/-- A collection is in flight from the act that calls for it to the act that ends it. -/
theorem IsMarked.mem_inFlight_step (hmarked : course.IsMarked) (act : Act) (name : String) :
    name ∈ (course.step act).inFlight ↔
      (course.Calls name act ∨ name ∈ course.inFlight) ∧ ¬ course.Ends name act := by
  rw [(hmarked.step act).mem_inFlight_iff, hmarked.mem_inFlight_iff, mem_collecting_step]

/-- Whatever a marked collection has fetched, it can be released then. -/
theorem mem_ending_receive {collection : Collection} (hrunning : collection ∈ course.running)
    (hmarked : collection.marked = true) (fetched : Collector.Fetched) :
    collection.application ∈ (course.step (.receive collection fetched)).ending := by
  simp [step, hrunning, hmarked]

/-- Acts pass by without one that is to start a collection of the name. -/
def Passes (course : Course) (name : String) : List Act → Prop
  | [] => True
  | act :: rest => ¬ course.Calls name act ∧ (course.step act).Passes name rest

theorem IsMarked.not_mem_inFlight_run (hmarked : course.IsMarked) {name : String}
    (hfree : name ∉ course.inFlight) {acts : List Act} (hpasses : course.Passes name acts) :
    name ∉ (course.run acts).inFlight := by
  induction acts generalizing course with
  | nil => exact hfree
  | cons act rest ih =>
      obtain ⟨hcalls, hrest⟩ := hpasses
      refine ih (hmarked.step act) (fun hflight => ?_) hrest
      rcases ((hmarked.mem_inFlight_step act name).mp hflight).1 with hcalled | hold
      · exact hcalls hcalled
      · exact hfree hold

/-- At every moment the marks are those of the collections in flight, and no application has two.  When a
refresh has been heard, every live application that it names has a collection in flight.  A collection is in
flight from the act that calls for it to the act that ends it, which can come whatever has been fetched; the
next event that names its application while that is live starts another. -/
theorem inFlight_run (selfName : String) (sieves : Sieves Endpoint) (acts : List Act) :
    let course := (start selfName sieves).run acts
    (∀ name, name ∈ course.collector.collecting ↔ name ∈ course.inFlight) ∧ course.inFlight.Nodup ∧
      (∀ applications, ∀ application ∈ applications,
        application.name ∈ (course.step (.hear (.refreshed applications))).collector.live →
        application.name ∈ (course.step (.hear (.refreshed applications))).inFlight) ∧
      (∀ act name, name ∈ (course.step act).inFlight ↔
        (course.Calls name act ∨ name ∈ course.inFlight) ∧ ¬ course.Ends name act) ∧
      (∀ collection ∈ course.running, collection.marked = true → ∀ fetched,
        collection.application ∈ (course.step (.receive collection fetched)).ending) ∧
      ∀ application ∈ course.ending, ∀ later event,
        let finished := (course.step (.release application)).run later
        (course.step (.release application)).Passes application.name later →
        finished.collector.Calls application.name event →
        application.name ∈ (finished.collector.handle event).2.started.map (·.name) := by
  intro course
  have hmarked : course.IsMarked := (isMarked_start selfName sieves).run acts
  refine ⟨fun name => (hmarked.mem_inFlight_iff name).symm, hmarked.perm.nodup_iff.mp hmarked.nodup, ?_,
    hmarked.mem_inFlight_step, fun collection hrunning hstarted fetched => ?_, ?_⟩
  · intro applications application hnamed hlive
    have hsame : (course.step (.hear (.refreshed applications))).collector.live = course.collector.live :=
      (course.collector.handles (.refreshed applications) {}).live.1
    rw [hsame] at hlive
    refine (hmarked.mem_inFlight_step _ _).mpr ⟨Or.inl ⟨?_, hlive⟩, id⟩
    exact List.mem_map_of_mem hnamed
  · exact mem_ending_receive hrunning hstarted fetched
  · intro application hending later event finished hpasses hcalls
    obtain ⟨hreleased, hfree⟩ := hmarked.releases hending
    have hnone := hreleased.not_mem_inFlight_run hfree hpasses
    rw [(hreleased.run later).mem_inFlight_iff] at hnone
    exact (finished.collector.mem_started_handle event {} application.name).mpr ⟨hcalls, hnone⟩

/-- The document of an application cannot be fetched, and the application is lost before its collection is
over.  When it is found again it is collected again. -/
theorem inFlight_run_orders :
    let failed := (start "gateway" {}).run [.hear (.found ⟨"orders", "lb://"⟩),
      .hear (.lost ⟨"orders", "lb://"⟩), .hear (.found ⟨"orders", "lb://"⟩),
      .receive ⟨⟨"orders", "lb://"⟩, true, true⟩ (.error (.documentFetch "orders" "status 500")),
      .hear (.lost ⟨"orders", "lb://"⟩)]
    let released := (failed.step (.release ⟨"orders", "lb://"⟩)).run [.hear (.refreshed [])]
    "orders" ∈ (released.collector.handle (.found ⟨"orders", "lb://"⟩)).2.started.map (·.name) := by
  obtain ⟨-, -, -, -, -, hnext⟩ := inFlight_run "gateway" {} [.hear (.found ⟨"orders", "lb://"⟩),
    .hear (.lost ⟨"orders", "lb://"⟩), .hear (.found ⟨"orders", "lb://"⟩),
    .receive ⟨⟨"orders", "lb://"⟩, true, true⟩ (.error (.documentFetch "orders" "status 500")),
    .hear (.lost ⟨"orders", "lb://"⟩)]
  refine hnext ⟨"orders", "lb://"⟩ (by decide) [.hear (.refreshed [])] _ ⟨?_, trivial⟩ ⟨rfl, by decide⟩
  rintro ⟨hnamed, -⟩
  cases hnamed

end Course

end ApiGateway.Discovery
