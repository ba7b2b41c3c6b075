import ApiGateway.Route.Assembly

/-!
# The chain of discovery

Refreshes tell of applications, the collector hears of them and tells of endpoints, and the table hears
of those.  What has been told waits in order until it is heard.  Collections run apart from all this and
end in any order.
-/

namespace ApiGateway.Discovery

structure Chain where
  sieves : Sieves Application := {}
  processors : List Route.Processor
  cache : Cache
  collector : Collector
  table : Route.Table
  /-- What was told of applications and has not been heard. -/
  discovered : List Event := []
  /-- What was told of endpoints and has not been heard. -/
  collected : List EndpointEvent := []
  /-- The collections under way, in the order of their start. -/
  running : List Application := []

namespace Chain

/-- Refresh the known applications.  If the registry fails, nothing changes. -/
def refresh (chain : Chain) (members : Except Failure Membership) : Chain × Except Failure Outcome :=
  match members with
  | .error failure => (chain, .error failure)
  | .ok members =>
    let (cache, outcome) := chain.cache.refresh chain.sieves members
    ({ chain with cache, discovered := chain.discovered ++ outcome.events cache.known }, .ok outcome)

/-- The collector hears of one event. -/
def hear (chain : Chain) (order : LossOrder := {}) : Chain × Option Event :=
  match chain.discovered with
  | [] => (chain, none)
  | event :: discovered =>
    let (collector, reaction) := chain.collector.handle event order
    ({ chain with
        discovered, collector
        collected := chain.collected ++ reaction.events
        running := chain.running ++ reaction.started }, some event)

/-- A collection under way ends with what was fetched. -/
def complete (chain : Chain) (application : Application) (fetched : Collector.Fetched) : Chain :=
  if chain.running.contains application then
    let (collector, events, _) := chain.collector.complete application fetched
    { chain with
      collector
      collected := chain.collected ++ events
      running := chain.running.erase application }
  else chain

/-- Collect the endpoints of an application apart from any event. -/
def collectNow (chain : Chain) (application : Application) (fetched : Collector.Fetched) :
    Chain × Except Failure Nat :=
  let (collector, events, result) := chain.collector.collectNow application fetched
  ({ chain with collector, collected := chain.collected ++ events }, result)

/-- Evict an application apart from any event; the number of endpoints lost. -/
def evict (chain : Chain) (name : String) (order : LossOrder := {}) : Chain × Nat :=
  let (collector, events) := chain.collector.evict name order
  ({ chain with collector, collected := chain.collected ++ events }, events.length)

/-- The table hears of one event. -/
def assemble (chain : Chain) : Chain × Option EndpointEvent :=
  match chain.collected with
  | [] => (chain, none)
  | event :: collected =>
    ({ chain with collected, table := chain.table.follow chain.processors event }, some event)

end Chain

end ApiGateway.Discovery
