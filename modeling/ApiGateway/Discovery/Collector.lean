import ApiGateway.Discovery.Cache
import ApiGateway.Document

/-!
# Collected endpoints

The document of each live application is fetched and read, and the endpoints that it names for the
first time are told.  One collection of an application runs at a time.  A document that comes in after
its application has been lost is not used.  The endpoints of a lost application are told lost in an order
that is open.
-/

namespace ApiGateway.Discovery

/-- What is told of the endpoints. -/
inductive EndpointEvent where
  | found (endpoint : Endpoint)
  | lost (key : EndpointKey)
  deriving DecidableEq, Repr

/-- The order in which an eviction tells its losses, given in that in which the endpoints were found.  The
collected endpoints are looked up by their keys only, so nothing but the keys themselves is sure. -/
structure LossOrder where
  arrange : List EndpointKey → List EndpointKey := id
  perm : ∀ keys, (arrange keys).Perm keys := by exact fun keys => .refl keys

structure Documented where
  application : Application
  document : Document

namespace Documented

def endpoints (documented : Documented) : List Endpoint :=
  documented.document.endpoints documented.application

end Documented

structure Collector where
  selfName : String
  sieves : Sieves Endpoint := {}
  /-- The collected endpoints, in the order in which they were found. -/
  endpoints : List Endpoint := []
  live : List String := []
  /-- The applications with a collection under way. -/
  collecting : List String := []
  documents : List (String × Documented) := []

namespace Collector

/-- The bytes of a document, or why they could not be fetched. -/
abbrev Fetched := Except Failure (List UInt8)

/-- From now on the application is live, unless it is the gateway itself. -/
def track (collector : Collector) (application : Application) : Collector × Bool :=
  if application.name = collector.selfName then (collector, false)
  else if collector.live.contains application.name then (collector, true)
  else ({ collector with live := application.name :: collector.live }, true)

/-- Start a collection, unless one is under way. -/
def begin (collector : Collector) (application : Application) : Collector × List Application :=
  if collector.collecting.contains application.name then (collector, [])
  else ({ collector with collecting := application.name :: collector.collecting }, [application])

/-- Start the collections of those applications that are live. -/
def beginLive (collector : Collector) : List Application → Collector × List Application
  | [] => (collector, [])
  | application :: rest =>
    if collector.live.contains application.name then
      let (collector, started) := collector.begin application
      let (collector, others) := collector.beginLive rest
      (collector, started ++ others)
    else collector.beginLive rest

/-- The keys of the collected endpoints of an application, in the order in which they were found. -/
def keysOf (collector : Collector) (name : String) : List EndpointKey :=
  (collector.endpoints.filter (·.application.name == name)).map Endpoint.key

/-- Forget an application and tell its endpoints lost. -/
def evict (collector : Collector) (name : String) (order : LossOrder := {}) :
    Collector × List EndpointEvent :=
  ({ collector with
      endpoints := collector.endpoints.filter (·.application.name != name)
      live := collector.live.filter (· != name)
      documents := collector.documents.filter (·.1 != name) },
    (order.arrange (collector.keysOf name)).map .lost)

/-- What an event has led to: collections to run, and what is told of endpoints. -/
structure Reaction where
  started : List Application := []
  events : List EndpointEvent := []
  deriving DecidableEq, Repr

/-- The collector hears of an event.  If that loses an application, its losses are told in the order that
is given. -/
def handle (collector : Collector) (event : Event) (order : LossOrder := {}) : Collector × Reaction :=
  match event with
  | .found application =>
    match collector.track application with
    | (collector, true) =>
      let (collector, started) := collector.begin application
      (collector, { started })
    | (collector, false) => (collector, {})
  | .refreshed applications =>
    let (collector, started) := collector.beginLive applications
    (collector, { started })
  | .lost application =>
    let (collector, events) := collector.evict application.name order
    (collector, { events })

/-- Add an endpoint, unless its key is there. -/
def addEndpoint (collector : Collector) (endpoint : Endpoint) : Collector × List EndpointEvent :=
  if collector.endpoints.any (·.same endpoint) then (collector, [])
  else ({ collector with endpoints := collector.endpoints ++ [endpoint] }, [.found endpoint])

def addEndpoints (collector : Collector) : List Endpoint → Collector × List EndpointEvent
  | [] => (collector, [])
  | endpoint :: rest =>
    let (collector, events) := collector.addEndpoint endpoint
    let (collector, others) := collector.addEndpoints rest
    (collector, events ++ others)

/-- Use a document that has been read, unless its application is not live. -/
def accept (collector : Collector) (documented : Documented) : Collector × List EndpointEvent :=
  let name := documented.application.name
  if collector.live.contains name then
    let (collector, events) := collector.addEndpoints (documented.endpoints.filter collector.sieves.allows)
    ({ collector with
        documents := (name, documented) :: collector.documents.filter (·.1 != name) }, events)
  else (collector, [])

/-- Use what was fetched for an application.  The number of endpoints found is told, or why there is no
document. -/
def collect (collector : Collector) (application : Application) (fetched : Fetched) :
    Collector × List EndpointEvent × Except Failure Nat :=
  match fetched with
  | .error failure => (collector, [], .error failure)
  | .ok bytes =>
    match Document.read bytes with
    | .error problem => (collector, [], .error problem.failure)
    | .ok document =>
      let (collector, events) := collector.accept ⟨application, document⟩
      (collector, events, .ok events.length)

/-- End a collection with what was fetched. -/
def complete (collector : Collector) (application : Application) (fetched : Fetched) :
    Collector × List EndpointEvent × Except Failure Nat :=
  let (collector, result) := collector.collect application fetched
  ({ collector with collecting := collector.collecting.filter (· != application.name) }, result)

/-- Track an application and collect its endpoints at once. -/
def collectNow (collector : Collector) (application : Application) (fetched : Fetched) :
    Collector × List EndpointEvent × Except Failure Nat :=
  match collector.track application with
  | (collector, false) => (collector, [], .ok 0)
  | (collector, true) => collector.collect application fetched

def hasEndpoint (collector : Collector) (method : Http.Method) (path : String) : Bool :=
  collector.endpoints.any fun endpoint => endpoint.method == method && endpoint.path == path

def documented? (collector : Collector) (name : String) : Option Documented :=
  collector.documents.lookup name

end Collector

end ApiGateway.Discovery
