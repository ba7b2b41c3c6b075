import ApiGateway.Discovery.Chain
import ApiGateway.Proofs.Discovery.CollectorEvents
import ApiGateway.Proofs.Route.Following
import Mathlib.Data.List.Infix

/-!
# The flow of discovery

The parts of the chain act in any order: a refresh tells its events one by one, collections end with
any document, whether or not they are still wanted, and what waits is heard in order.  Once everything
told has been heard, the table agrees with the collected endpoints and these with the known
applications.
-/

namespace ApiGateway

/-- The processor with another identifier, if it gives one. -/
def Route.Processor.renamed (id : String) : Processor → Processor
  | .identifier _ => .identifier id
  | processor => processor

namespace Discovery

/-- The chain with what a refresh under way has still to tell. -/
structure Flow where
  chain : Chain
  publishing : List Event := []

inductive Step where
  /-- A refresh takes over the members that the registry lists, or fails with it. -/
  | refresh (members : Except Failure Membership)
  /-- The refresh under way tells its next event. -/
  | publish
  | hear (order : LossOrder := {})
  /-- What a collection has fetched is used. -/
  | collect (application : Application) (fetched : Collector.Fetched)
  /-- A collection is over. -/
  | release (application : Application)
  /-- The table hears of one event; a route made of it has a fresh identifier. -/
  | assemble (id : String)

namespace Flow

/-- The flow after one step.  There is one refresh at a time. -/
def step (flow : Flow) : Step → Flow
  | .refresh members =>
      match flow.publishing, members with
      | [], .ok members =>
          let (cache, outcome) := flow.chain.cache.refresh flow.chain.sieves members
          { chain := { flow.chain with cache }, publishing := outcome.events cache.known }
      | _, _ => flow
  | .publish =>
      match flow.publishing with
      | [] => flow
      | event :: publishing =>
          { chain := { flow.chain with discovered := flow.chain.discovered ++ [event] }, publishing }
  | .hear order => { flow with chain := (flow.chain.hear order).1 }
  | .collect application fetched =>
      let (collector, events, _) := flow.chain.collector.collect application fetched
      { flow with
          chain := { flow.chain with collector, collected := flow.chain.collected ++ events } }
  | .release application =>
      let collecting := flow.chain.collector.collecting.filter (· != application.name)
      { flow with
          chain := { flow.chain with
            collector := { flow.chain.collector with collecting }
            running := flow.chain.running.erase application } }
  | .assemble id =>
      let processors := flow.chain.processors.map (·.renamed id)
      { flow with chain := { flow.chain with processors }.assemble.1 }

def run (flow : Flow) (steps : List Step) : Flow :=
  steps.foldl step flow

@[simp]
theorem run_nil (flow : Flow) : flow.run [] = flow := rfl

@[simp]
theorem run_cons (flow : Flow) (first : Step) (rest : List Step) :
    flow.run (first :: rest) = (flow.step first).run rest := rfl

/-- A refresh that finds another one under way, or the registry failing, changes nothing. -/
theorem step_refresh (flow : Flow) (members : Except Failure Membership) :
    flow.step (.refresh members) = flow ∨ flow.publishing = [] ∧ ∃ listed,
      flow.step (.refresh members) =
        { chain := { flow.chain with cache := (flow.chain.cache.refresh flow.chain.sieves listed).1 }
          publishing := (flow.chain.cache.refresh flow.chain.sieves listed).2.events
            (flow.chain.cache.refresh flow.chain.sieves listed).1.known } := by
  cases hidle : flow.publishing with
  | cons event publishing =>
      refine Or.inl ?_
      simp only [step, hidle]
  | nil =>
      cases members with
      | error failure =>
          refine Or.inl ?_
          simp only [step, hidle]
      | ok listed =>
          refine Or.inr ⟨rfl, listed, ?_⟩
          simp only [step, hidle]

def start (gateway : Settings.Gateway) (routing : Settings.Routing) (scheme selfName : String)
    (policy : Route.CollisionPolicy) (sieves : Sieves Application) (endpointSieves : Sieves Endpoint) :
    Flow where
  chain := {
    sieves
    processors := Route.standardPipeline gateway routing ""
    cache := { scheme }
    collector := { selfName, sieves := endpointSieves }
    table := .empty policy }

/-! ## Whole refreshes and whole collections -/

theorem run_publish (chain : Chain) (events : List Event) :
    run ⟨chain, events⟩ (List.replicate events.length .publish) =
      ⟨{ chain with discovered := chain.discovered ++ events }, []⟩ := by
  induction events generalizing chain with
  | nil => simp
  | cons event events ih =>
      rw [List.length_cons, List.replicate_succ, run_cons]
      exact (ih _).trans (by simp)

/-- A refresh of the chain is a refresh that tells all its events at once. -/
theorem refresh_eq_run (chain : Chain) (members : Except Failure Membership) :
    ∃ count, run ⟨chain, []⟩ (.refresh members :: List.replicate count .publish) =
      ⟨(chain.refresh members).1, []⟩ := by
  cases members with
  | error failure => exact ⟨0, rfl⟩
  | ok members =>
      exact ⟨_, run_publish { chain with cache := (chain.cache.refresh chain.sieves members).1 }
        ((chain.cache.refresh chain.sieves members).2.events
          (chain.cache.refresh chain.sieves members).1.known)⟩

/-- The end of a collection under way is the use of what was fetched, and then its release. -/
theorem complete_eq_run (flow : Flow) {application : Application} (fetched : Collector.Fetched)
    (hrunning : application ∈ flow.chain.running) :
    flow.run [.collect application fetched, .release application] =
      { flow with chain := flow.chain.complete application fetched } := by
  have hcontains : flow.chain.running.contains application = true := by simpa using hrunning
  rw [Chain.complete, if_pos hcontains]
  rfl

/-! ## Known and live applications -/

end Flow

theorem Cache.knows_iff {applications : List Application} {application : Application} :
    Cache.knows applications application = true ↔
      application.name ∈ applications.map Application.name := by
  rw [Cache.knows, List.any_eq_true, List.mem_map]
  exact exists_congr fun other => and_congr_right fun _ => Application.same_iff

theorem mem_foldl_found {selfName name : String} {live : List String} (found : List Application) :
    name ∈ (found.map .found).foldl (Event.replay selfName) live ↔
      name ∈ live ∨ name ≠ selfName ∧ name ∈ found.map Application.name := by
  induction found generalizing live with
  | nil => simp
  | cons application rest ih =>
      have hfirst : name ∈ Event.replay selfName live (.found application) ↔
          name ∈ live ∨ name ≠ selfName ∧ name = application.name := by
        simp only [Event.replay]
        by_cases hself : application.name = selfName
        · rw [if_pos hself]
          refine ⟨Or.inl, ?_⟩
          rintro (hlive | ⟨hne, rfl⟩)
          · exact hlive
          · exact absurd hself hne
        · rw [if_neg hself]
          by_cases hlive : application.name ∈ live
          · rw [if_pos (by simpa using hlive)]
            refine ⟨Or.inl, ?_⟩
            rintro (hold | ⟨-, rfl⟩)
            · exact hold
            · exact hlive
          · rw [if_neg (by simpa using hlive), List.mem_cons]
            constructor
            · rintro (rfl | hold)
              · exact Or.inr ⟨hself, rfl⟩
              · exact Or.inl hold
            · rintro (hold | ⟨-, rfl⟩)
              · exact Or.inr hold
              · exact Or.inl rfl
      rw [List.map_cons, List.foldl_cons, ih, hfirst, List.map_cons, List.mem_cons]
      tauto

theorem mem_foldl_lost {selfName name : String} {live : List String} (lost : List Application) :
    name ∈ (lost.map .lost).foldl (Event.replay selfName) live ↔
      name ∈ live ∧ name ∉ lost.map Application.name := by
  induction lost generalizing live with
  | nil => simp
  | cons application rest ih =>
      rw [List.map_cons, List.foldl_cons, ih, List.map_cons, List.mem_cons, not_or, Event.replay,
        List.mem_filter, bne_iff_ne, and_assoc]

/-- The events of a refresh lead from the applications known before to those known after it. -/
theorem Cache.mem_replay_refresh (cache : Cache) (sieves : Sieves Application)
    (members : Membership) {selfName name : String} {live : List String}
    (hlive : name ∈ live ↔ name ≠ selfName ∧ name ∈ cache.known.map Application.name) :
    name ∈ ((cache.refresh sieves members).2.events (cache.refresh sieves members).1.known).foldl
        (Event.replay selfName) live ↔
      name ≠ selfName ∧ name ∈ (cache.refresh sieves members).1.known.map Application.name := by
  have hmissing : ∀ left right : List Application,
      name ∈ (left.filter (!Cache.knows right ·)).map Application.name ↔
        name ∈ left.map Application.name ∧ name ∉ right.map Application.name := by
    intro left right
    simp only [List.mem_map, List.mem_filter, Bool.not_eq_true', ← Bool.not_eq_true,
      Cache.knows_iff]
    constructor
    · rintro ⟨application, ⟨hleft, hright⟩, rfl⟩
      exact ⟨⟨application, hleft, rfl⟩, hright⟩
    · rintro ⟨⟨application, hleft, rfl⟩, hright⟩
      exact ⟨application, ⟨hleft, hright⟩, rfl⟩
  simp only [Cache.refresh, Outcome.events, List.foldl_append, List.foldl_cons, List.foldl_nil]
  rw [Event.replay, mem_foldl_lost, mem_foldl_found, hlive, hmissing, hmissing]
  tauto

namespace Flow

/-- The names that are known, and in a refresh under way are already taken over. -/
def knownNames (flow : Flow) : List String :=
  flow.chain.cache.known.map Application.name

/-- All that has been told of applications and not been heard, and what is still to be told. -/
def untold (flow : Flow) : List Event :=
  flow.chain.discovered ++ flow.publishing

/-- Once all is heard, the live applications are the known ones but the gateway itself; and every
collected endpoint belongs to a live application. -/
structure IsAbreast (flow : Flow) : Prop where
  live : ∀ name,
    name ∈ flow.untold.foldl (Event.replay flow.chain.collector.selfName) flow.chain.collector.live ↔
      name ≠ flow.chain.collector.selfName ∧ name ∈ flow.knownNames
  housed : flow.chain.collector.IsHoused

theorem isAbreast_start (gateway : Settings.Gateway) (routing : Settings.Routing)
    (scheme selfName : String) (policy : Route.CollisionPolicy) (sieves : Sieves Application)
    (endpointSieves : Sieves Endpoint) :
    (start gateway routing scheme selfName policy sieves endpointSieves).IsAbreast where
  live := by
    intro name
    simp [start, untold, knownNames]
  housed := by
    intro endpoint hendpoint
    cases hendpoint

theorem IsAbreast.step {flow : Flow} (habreast : flow.IsAbreast) (step : Step) :
    (flow.step step).IsAbreast := by
  cases step with
  | refresh members =>
      rcases flow.step_refresh members with hsame | ⟨hidle, listed, hstep⟩
      · rw [hsame]
        exact habreast
      · rw [hstep]
        refine ⟨fun name => ?_, habreast.housed⟩
        have hlive := habreast.live name
        rw [untold, hidle, List.append_nil] at hlive
        rw [untold, List.foldl_append]
        exact Cache.mem_replay_refresh flow.chain.cache flow.chain.sieves listed hlive
  | publish =>
      rw [Flow.step]
      split
      · exact habreast
      · next event publishing htold =>
        refine ⟨fun name => ?_, habreast.housed⟩
        have hlive := habreast.live name
        rw [untold, htold] at hlive
        rw [untold, List.append_assoc]
        exact hlive
  | hear order =>
      rw [Flow.step, Chain.hear]
      split
      · exact habreast
      · next event discovered htold =>
        obtain ⟨hreplay, hself⟩ := (flow.chain.collector.handles event order).live
        refine ⟨fun name => ?_, habreast.housed.handle event order⟩
        have hlive := habreast.live name
        rw [untold, htold, List.cons_append, List.foldl_cons] at hlive
        simp only [untold, hreplay, hself]
        exact hlive
  | collect application fetched =>
      obtain ⟨hlive, hself⟩ := flow.chain.collector.collect_live application fetched
      refine ⟨fun name => ?_, habreast.housed.collect application fetched⟩
      simp only [Flow.step, untold, hlive, hself]
      exact habreast.live name
  | release application => exact ⟨habreast.live, habreast.housed⟩
  | assemble id =>
      rw [Flow.step, Chain.assemble]
      split <;> exact ⟨habreast.live, habreast.housed⟩

theorem IsAbreast.run {flow : Flow} (habreast : flow.IsAbreast) (steps : List Step) :
    (flow.run steps).IsAbreast := by
  induction steps generalizing flow with
  | nil => exact habreast
  | cons first rest ih => exact ih (habreast.step first)

/-! ## Collected endpoints and held routes -/

/-- A relation between a table and endpoints that a table keeps up by following. -/
structure KeptUp (gateway : Settings.Gateway) (routing : Settings.Routing) (good : Endpoint → Prop)
    (fits : Route.Table → List Endpoint → Prop) : Prop where
  found : ∀ {table heard endpoint} id, fits table heard → good endpoint →
    (∀ other ∈ heard, other.key ≠ endpoint.key) →
    fits (table.follow (Route.standardPipeline gateway routing id) (.found endpoint))
      (heard ++ [endpoint])
  lost : ∀ {table heard} id key, fits table heard →
    fits (table.follow (Route.standardPipeline gateway routing id) (.lost key))
      (heard.filter (·.key != key))

/-- The table fits endpoints from which what has been told and not been heard leads to the collected
ones. -/
def Linked (good : Endpoint → Prop) (fits : Route.Table → List Endpoint → Prop) (flow : Flow) : Prop :=
  ∃ heard, Tells good heard flow.chain.collected flow.chain.collector.endpoints ∧
    fits flow.chain.table heard

def IsStandard (gateway : Settings.Gateway) (routing : Settings.Routing) (flow : Flow) : Prop :=
  ∃ id, flow.chain.processors = Route.standardPipeline gateway routing id

variable {gateway : Settings.Gateway} {routing : Settings.Routing}
  {good : Endpoint → Prop} {fits : Route.Table → List Endpoint → Prop}

theorem IsStandard.renamed {flow : Flow} (hstandard : flow.IsStandard gateway routing) (id : String) :
    flow.chain.processors.map (·.renamed id) = Route.standardPipeline gateway routing id := by
  obtain ⟨old, hprocessors⟩ := hstandard
  rw [hprocessors]
  rfl

theorem IsStandard.step {flow : Flow} (hstandard : flow.IsStandard gateway routing) (step : Step) :
    (flow.step step).IsStandard gateway routing := by
  cases step with
  | refresh members =>
      rcases flow.step_refresh members with hsame | ⟨-, listed, hstep⟩
      · rw [hsame]
        exact hstandard
      · rw [hstep]
        exact hstandard
  | publish =>
      rw [Flow.step]
      split <;> exact hstandard
  | hear order =>
      rw [Flow.step, Chain.hear]
      split <;> exact hstandard
  | collect application fetched => exact hstandard
  | release application => exact hstandard
  | assemble id =>
      rw [Flow.step, Chain.assemble]
      split <;> exact ⟨id, hstandard.renamed id⟩

theorem Linked.step {flow : Flow} (hlinked : flow.Linked good fits)
    (hstandard : flow.IsStandard gateway routing) (hkept : KeptUp gateway routing good fits)
    (step : Step)
    (hgood : ∀ endpoint ∈ (flow.step step).chain.collector.endpoints, good endpoint) :
    (flow.step step).Linked good fits := by
  obtain ⟨heard, htells, hfits⟩ := hlinked
  cases step with
  | refresh members =>
      rcases flow.step_refresh members with hsame | ⟨-, listed, hstep⟩
      · rw [hsame]
        exact ⟨heard, htells, hfits⟩
      · rw [hstep]
        exact ⟨heard, htells, hfits⟩
  | publish =>
      rw [Flow.step]
      split <;> exact ⟨heard, htells, hfits⟩
  | hear order =>
      rw [Flow.step, Chain.hear]
      split
      · exact ⟨heard, htells, hfits⟩
      · next event discovered htold =>
        exact ⟨heard, htells.append (flow.chain.collector.handles event order).tells, hfits⟩
  | collect application fetched =>
      exact ⟨heard, htells.append (flow.chain.collector.collect_tells application fetched hgood), hfits⟩
  | release application => exact ⟨heard, htells, hfits⟩
  | assemble id =>
      rw [Flow.step, Chain.assemble]
      split
      · exact ⟨heard, htells, hfits⟩
      · next event collected htold =>
        rw [htold] at htells
        rw [hstandard.renamed id]
        cases event with
        | found endpoint => exact ⟨_, htells.2, hkept.found id hfits htells.1.1 htells.1.2⟩
        | lost key => exact ⟨_, htells, hkept.lost id key hfits⟩

theorem Linked.run {flow : Flow} (hlinked : flow.Linked good fits)
    (hstandard : flow.IsStandard gateway routing) (hkept : KeptUp gateway routing good fits)
    (steps : List Step)
    (hgood : ∀ earlier, earlier <+: steps →
      ∀ endpoint ∈ (flow.run earlier).chain.collector.endpoints, good endpoint) :
    (flow.run steps).Linked good fits := by
  induction steps generalizing flow with
  | nil => exact hlinked
  | cons first rest ih =>
      have hfirst := hgood [first] (by simp)
      exact ih (hlinked.step hstandard hkept first hfirst) (hstandard.step first)
        fun earlier hearlier => hgood (first :: earlier) (List.prefix_cons_inj first |>.mpr hearlier)

/-! ## Agreement -/

/-- No refresh is under way, and all that has been told has been heard. -/
def IsSettled (flow : Flow) : Prop :=
  flow.publishing = [] ∧ flow.chain.discovered = [] ∧ flow.chain.collected = []

theorem keptUp_follows : KeptUp gateway routing (fun _ => True) (·.Follows gateway routing) where
  found := fun id hfollows _ _ => hfollows.found id _
  lost := fun id key hfollows => hfollows.lost id key

theorem keptUp_covers :
    KeptUp gateway routing (Route.IsWellTemplated gateway) (·.Covers gateway routing) where
  found := fun id hcovers hwell hnew => hcovers.found id hnew hwell
  lost := fun id key hcovers => hcovers.lost id key

/-- In a flow that has settled, whatever its steps were, each route held is made of a collected
endpoint, and each collected endpoint belongs to a known application.  If all endpoints that were ever
collected have well-formed external templates, one route is held for each that is collected now. -/
theorem run_settled (gateway : Settings.Gateway) (routing : Settings.Routing)
    (scheme selfName : String) (policy : Route.CollisionPolicy) (sieves : Sieves Application)
    (endpointSieves : Sieves Endpoint) (steps : List Step)
    (hsettled :
      ((start gateway routing scheme selfName policy sieves endpointSieves).run steps).IsSettled) :
    let begun := start gateway routing scheme selfName policy sieves endpointSieves
    let flow := begun.run steps
    (∀ route ∈ flow.chain.table.held, ∃ endpoint ∈ flow.chain.collector.endpoints, ∃ id,
      Route.assemble (Route.standardPipeline gateway routing id) endpoint = .ok route) ∧
    (∀ endpoint ∈ flow.chain.collector.endpoints,
      endpoint.application.name ∈ flow.chain.cache.known.map Application.name) ∧
    ((∀ earlier, earlier <+: steps → ∀ endpoint ∈ (begun.run earlier).chain.collector.endpoints,
        Route.IsWellTemplated gateway endpoint) →
      ∀ endpoint ∈ flow.chain.collector.endpoints, ∃ id route,
        flow.chain.table.held.filter (·.endpoint == endpoint.key) = [route] ∧
          Route.assemble (Route.standardPipeline gateway routing id) endpoint = .ok route) := by
  intro begun flow
  obtain ⟨hpublishing, hdiscovered, hcollected⟩ := hsettled
  have hstandard : begun.IsStandard gateway routing := ⟨_, rfl⟩
  refine ⟨fun route hroute => ?_, fun endpoint hendpoint => ?_, fun hwell endpoint hendpoint => ?_⟩
  · have hstart : begun.Linked (fun _ => True) (·.Follows gateway routing) :=
      ⟨[], rfl, .empty policy⟩
    obtain ⟨heard, htells, hfollows⟩ := hstart.run hstandard keptUp_follows steps fun _ _ _ _ => trivial
    rw [hcollected] at htells
    cases htells
    obtain ⟨endpoint, hendpoint, id, rfl⟩ := hfollows.made route hroute
    exact ⟨endpoint, hendpoint, id, Route.assemble_standardPipeline gateway routing id endpoint⟩
  · have habreast : flow.IsAbreast :=
      (isAbreast_start gateway routing scheme selfName policy sieves endpointSieves).run steps
    have hlive := (habreast.live endpoint.application.name).mp
    rw [untold, hdiscovered, hpublishing] at hlive
    exact (hlive (habreast.housed endpoint hendpoint)).2
  · have hstart : begun.Linked (Route.IsWellTemplated gateway) (·.Covers gateway routing) :=
      ⟨[], rfl, .empty policy⟩
    obtain ⟨heard, htells, hcovers⟩ := hstart.run hstandard keptUp_covers steps hwell
    rw [hcollected] at htells
    cases htells
    obtain ⟨id, hone⟩ := hcovers.one endpoint hendpoint
    exact ⟨id, _, hone, Route.assemble_standardPipeline gateway routing id endpoint⟩

/-- An application is found, its document comes in, and its endpoint gets a route. -/
def ordersSteps : List Step :=
  [.refresh (.ok [⟨"orders", "10.0.0.1:80"⟩]), .publish, .publish, .hear, .hear,
    .collect ⟨"orders", "lb://"⟩
      (.ok (Text.utf8 "\x7b\"paths\":\x7b\"/orders/\x7bid\x7d\":\x7b\"get\":\x7b\x7d\x7d\x7d\x7d".toList)),
    .release ⟨"orders", "lb://"⟩, .assemble "r1"]

theorem run_settled_orders :
    let endpoint : Endpoint := ⟨⟨"orders", "lb://"⟩, .get, "/orders/\x7bid\x7d", [], [], none⟩
    let flow := (start {} {} "lb://" "gateway" .reject {} {}).run ordersSteps
    ∃ id route, flow.chain.table.held.filter (·.endpoint == endpoint.key) = [route] ∧
      Route.assemble (Route.standardPipeline {} {} id) endpoint = .ok route := by
  have hsettled : ((start {} {} "lb://" "gateway" .reject {} {}).run ordersSteps).IsSettled :=
    ⟨by decide +kernel, by decide +kernel, by decide +kernel⟩
  have hwell : ∀ earlier, earlier <+: ordersSteps → ∀ endpoint ∈
      ((start {} {} "lb://" "gateway" .reject {} {}).run earlier).chain.collector.endpoints,
      Route.IsWellTemplated {} endpoint := by
    simp only [← List.mem_inits]
    decide +kernel
  exact (run_settled {} {} "lb://" "gateway" .reject {} {} ordersSteps hsettled).2.2 hwell _
    (by decide +kernel)

end Flow

end Discovery

end ApiGateway
