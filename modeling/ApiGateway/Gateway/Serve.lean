import ApiGateway.Gateway.Basic

/-!
# Serving requests

A gateway answers for its own health and for the fallbacks of applications.  All other requests are
looked up in the table, authenticated and forwarded.
-/

namespace ApiGateway.Gateway

/-- The version a gateway gives as its own. -/
def version : String := "0.1.0"

/-- The largest body that is forwarded, in bytes. -/
def bodyLimit : Nat := 10 * 1024 * 1024

/-! ## Health -/

def health (time : String) : Json :=
  .ofMembers [("status", .string "healthy"), ("timestamp", .string time), ("version", .string version),
    ("service", .string "gateway")]

def readiness (gateway : Gateway) (time : String) : Json :=
  .ofMembers [
    ("status", .string "ready"),
    ("timestamp", .string time),
    ("applications", .natural gateway.chain.cache.known.length),
    ("endpoints", .natural gateway.chain.collector.endpoints.length),
    ("routes", .natural gateway.chain.table.routes.length),
    ("route_collisions", .natural gateway.chain.table.collisions.length),
    ("circuit_breakers", .natural gateway.proxy.breakers.size),
    ("open_circuits", .strings gateway.proxy.breakers.openNames)]

/-! ## Own paths -/

/-- A path that the gateway answers for itself. -/
inductive OwnPath where
  | health
  | ready
  /-- The fallback of an application, whose name is still encoded. -/
  | fallback (name : List Char)
  deriving DecidableEq, Repr

def ownPath? (path : String) : Option OwnPath :=
  if path = "/health" then some .health
  else if path = "/ready" then some .ready
  else
    match Text.strip? "/fallback/".toList path.toList with
    | some name => if name = [] ∨ '/' ∈ name then none else some (.fallback name)
    | none => none

/-- The answer to a request for an own path, but for its body if only the head is asked for. -/
def answerOwn (gateway : Gateway) (time : String) : OwnPath → Http.Response
  | .health => .json 200 (health time)
  | .ready => .json 200 (gateway.readiness time)
  | .fallback name =>
    match Text.ofUtf8? (Text.Percent.decode (Text.utf8 name)) with
    | some application => Proxy.fallback (.ofList application)
    | none => .text 400 "Invalid URL: Invalid UTF-8 in \x60app\x60"

def serveOwn (gateway : Gateway) (time : String) (path : OwnPath) (method : Http.Method) : Http.Response :=
  if method = .get then gateway.answerOwn time path
  else if method = .head then { gateway.answerOwn time path with body := .empty }
  else ⟨405, [("allow", "GET,HEAD")], .empty⟩

/-! ## Dispatch -/

/-- What becomes of a request: it is answered at once, or forwarded for a route with the identity that
has been established. -/
inductive Verdict where
  | answered (response : Http.Response)
  | forwarded (route : Route) (authentication : Option Authentication)

/-- Look a request up and authenticate it. -/
def verdict (gateway : Gateway) (request : Http.Request) : Verdict :=
  match gateway.chain.table.find? request.method request.path with
  | none => .answered (Failure.routeNotFound request.method.token request.path).response
  | some found =>
    match gateway.filter.authenticate request.headers request.path found.route.requiresAuthentication with
    | .error problem => .answered problem.response
    | .ok authentication =>
      if bodyLimit < request.body.size then
        .answered (.text 413 "Failed to read request body: length limit exceeded")
      else .forwarded found.route authentication

/-- Look a request up, authenticate it and forward it. -/
def dispatch (gateway : Gateway) (now : Nat) (send : Http.Outgoing → Http.Exchange)
    (request : Http.Request) : Gateway × Http.Response :=
  match gateway.verdict request with
  | .answered response => (gateway, response)
  | .forwarded route authentication =>
    let (proxy, response) := gateway.proxy.forward now gateway.chain.cache.addresses send route request
      authentication
    ({ gateway with proxy }, response)

/-- Serve a request. -/
def serve (gateway : Gateway) (now : Nat) (time : String) (send : Http.Outgoing → Http.Exchange)
    (request : Http.Request) : Gateway × Http.Response :=
  match ownPath? request.path with
  | some path => (gateway, gateway.serveOwn time path request.method)
  | none => gateway.dispatch now send request

end ApiGateway.Gateway
