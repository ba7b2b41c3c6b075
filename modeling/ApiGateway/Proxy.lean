import ApiGateway.Breaker.Registry
import ApiGateway.Http.Exchange
import ApiGateway.Resolver
import ApiGateway.Route.Basic

/-!
# Forwarding

A matched request is sent to one instance of the route's application.  If the route has a breaker, the
exchange is limited in time, its outcome is reported to the breaker, and what fails or is refused is
answered by the application's fallback.
-/

namespace ApiGateway

/-- The breakers and the turns of the instances, by application. -/
structure Proxy where
  resolver : Resolver
  breakers : Breaker.Registry := {}

namespace Proxy

/-! ## Messages -/

/-- Headers that concern one connection only. -/
def connectionHeaders : List String :=
  ["connection", "keep-alive", "proxy-authenticate", "proxy-authorization", "te", "trailer",
    "transfer-encoding", "upgrade"]

/-- The headers that are passed on. -/
def forwardable (headers : Http.Headers) : Http.Headers :=
  headers.filter fun (name, _) =>
    !connectionHeaders.contains name && name != "host" && name != "content-length"

/-- The headers of the outgoing request, which name the host that was asked. -/
def outgoingHeaders (headers : Http.Headers) : Http.Headers :=
  match headers.lookup "host" with
  | some host =>
    (forwardable headers).filter (·.1 != "x-forwarded-host") ++ [("x-forwarded-host", host)]
  | none => forwardable headers

/-- The response that is passed on to the client. -/
def passOn (response : Http.Response) : Http.Response :=
  { response with headers := forwardable response.headers }

/-- The fallback of an application. -/
def fallback (application : String) : Http.Response :=
  .text 504 (application ++ " is currently unavailable")

/-- A base address without slashes at its end, and a path and query behind it. -/
def join (base : Url) (target : String) : String :=
  .ofList (Text.trimEnd (· == '/') base.text.toList) ++ target

/-- The path and query that a route makes of a request. -/
def outbound (route : Route) (request : Http.Request) (authentication : Option Authentication) :
    Route.Outbound :=
  route.outbound request.path request.query authentication

/-! ## Exchanges -/

/-- The outgoing request, sent to the instance whose turn it is. -/
def prepare (proxy : Proxy) (instances : String → List String) (route : Route) (request : Http.Request)
    (authentication : Option Authentication) : Proxy × Except Failure Http.Outgoing :=
  let (resolver, base) := proxy.resolver.resolve instances route.uri
  ({ proxy with resolver },
    match base with
    | .error problem => .error (problem.failure route.uri)
    | .ok base => .ok ⟨request.method, join base (outbound route request authentication).target,
        outgoingHeaders request.headers, request.body⟩)

/-- What an exchange means for a route, with the time that it was given. -/
def outcome (application : String) (limit : Duration) : Http.Exchange → Except Failure Http.Response
  | .answered response => .ok response
  | .failed reason => .error (.serviceUnavailable application reason)
  | .late => .error (.timeout limit.milliseconds)

/-- Make an exchange. -/
def exchange (proxy : Proxy) (instances : String → List String) (send : Http.Outgoing → Http.Exchange)
    (route : Route) (limit : Duration) (request : Http.Request) (authentication : Option Authentication) :
    Proxy × Except Failure Http.Response :=
  let (proxy, prepared) := proxy.prepare instances route request authentication
  (proxy, prepared.bind fun outgoing => outcome route.application limit (send outgoing))

/-! ## Breakers -/

/-- The report that an outcome makes to a breaker. -/
def report : Except Failure Http.Response → Breaker.Action
  | .ok response => if 500 ≤ response.status ∧ response.status < 600 then .fail else .succeed
  | .error failure => if failure.countsAgainstBreaker then .fail else .succeed

/-- The answer to the client, where a breaker stands before the application. -/
def guardedAnswer (policy : Route.BreakerPolicy) : Except Failure Http.Response → Http.Response
  | .ok response => passOn response
  | .error failure =>
    if failure.countsAgainstBreaker then fallback policy.name else failure.response

def plainAnswer : Except Failure Http.Response → Http.Response
  | .ok response => passOn response
  | .error failure => failure.response

/-- Ask the breaker of a policy, which is made if there is none; its number and its answer. -/
def ask (proxy : Proxy) (now : Nat) (policy : Route.BreakerPolicy) : Proxy × Nat × Bool :=
  let (breakers, number) := proxy.breakers.getOrCreate policy.name
  let (breakers, answer) := breakers.act number now .proceed
  ({ proxy with breakers }, number, answer == some true)

def tell (proxy : Proxy) (number now : Nat) (action : Breaker.Action) : Proxy :=
  { proxy with breakers := (proxy.breakers.act number now action).1 }

/-- Make an exchange, unless the breaker of a policy refuses it.  The breaker is asked at one time and told
of the outcome at another. -/
def guarded (proxy : Proxy) (now later : Nat) (policy : Route.BreakerPolicy)
    (exchange : Proxy → Proxy × Except Failure Http.Response) : Proxy × Http.Response :=
  match proxy.ask now policy with
  | (proxy, _, false) => (proxy, fallback policy.name)
  | (proxy, number, true) =>
    let (proxy, outcome) := exchange proxy
    (proxy.tell number later (report outcome), guardedAnswer policy outcome)

/-- Forward a request that a route has matched. -/
def forward (proxy : Proxy) (now : Nat) (instances : String → List String)
    (send : Http.Outgoing → Http.Exchange) (route : Route) (request : Http.Request)
    (authentication : Option Authentication) : Proxy × Http.Response :=
  match route.breaker? with
  | none =>
    let (proxy, outcome) := proxy.exchange instances send route .zero request authentication
    (proxy, plainAnswer outcome)
  | some policy =>
    proxy.guarded now now policy fun proxy =>
      proxy.exchange instances send route policy.timeout request authentication

/-- Forget what is known of an application that has been lost. -/
def evict (proxy : Proxy) (application : String) : Proxy :=
  { resolver := proxy.resolver.evict application
    breakers := (proxy.breakers.remove application).1 }

end Proxy

end ApiGateway
