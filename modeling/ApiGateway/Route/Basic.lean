import ApiGateway.Duration
import ApiGateway.Path.Boundary
import ApiGateway.Route.Injection

/-!
# Routes

A route is the executable form of one documented endpoint: the predicates a request has to meet, the
stages its path and query pass through in order, and the logical address it is sent to.
-/

namespace ApiGateway.Route

/-- A condition on requests.  A path template accepts one segment for each part in braces. -/
inductive Predicate where
  | path (template : String)
  | method (method : Http.Method)
  deriving DecidableEq, Repr

def Predicate.template? : Predicate → Option String
  | .path template => some template
  | .method _ => none

def Predicate.method? : Predicate → Option Http.Method
  | .path _ => none
  | .method required => some required

/-- How a route uses the circuit breaker of its application. -/
structure BreakerPolicy where
  name : String
  fallbackUri : String
  timeout : Duration
  deriving DecidableEq, Repr

inductive Stage where
  /-- Only authenticated requests pass. -/
  | requireAuthentication
  /-- Exchange a leading path for another. -/
  | exchangeLead (source target : String)
  /-- Put values of the authentication into the query. -/
  | injectParameter (name : String) (source : ClaimSource) (strategy : InjectionStrategy)
  | breaker (policy : BreakerPolicy)
  deriving DecidableEq, Repr

def Stage.breaker? : Stage → Option BreakerPolicy
  | .breaker policy => some policy
  | _ => none

/-- The stage injects the parameter. -/
def Stage.injects (name : String) : Stage → Bool
  | .injectParameter other _ _ => other == name
  | _ => false

/-- A path and query on their way to the application. -/
structure Outbound where
  path : String
  query : Query
  deriving DecidableEq, Repr

namespace Outbound

/-- The path with the encoded query behind it, if there is one. -/
def target (outbound : Outbound) : String :=
  match outbound.query with
  | [] => outbound.path
  | query => outbound.path ++ "?" ++ Query.encode query

end Outbound

/-- Pass one stage.  Injection draws on the authentication and gives nothing without one. -/
def Stage.apply (authentication : Option Authentication) (stage : Stage) (outbound : Outbound) :
    Outbound :=
  match stage with
  | .requireAuthentication | .breaker _ => outbound
  | .exchangeLead source target =>
    match Path.exchange? outbound.path.toList source.toList target.toList with
    | some path => { outbound with path := .ofList path }
    | none => outbound
  | .injectParameter name source strategy =>
    let values := (authentication.map source.values).getD []
    { outbound with query := strategy.apply outbound.query name values }

end Route

/-- An executable route. -/
structure Route where
  id : String
  predicates : List Route.Predicate
  stages : List Route.Stage
  /-- The logical address, a scheme followed by the application's name. -/
  uri : String
  application : String
  /-- The endpoint that the route was built from. -/
  endpoint : EndpointKey
  deriving DecidableEq, Repr

namespace Route

/-- The template a request path has to fit. -/
def template (route : Route) : String :=
  (route.predicates.findSome? Predicate.template?).getD "/"

/-- The method the route is restricted to, if it is. -/
def method? (route : Route) : Option Http.Method :=
  route.predicates.findSome? Predicate.method?

def requiresAuthentication (route : Route) : Bool :=
  route.stages.contains .requireAuthentication

/-- The first breaker stage counts. -/
def breaker? (route : Route) : Option BreakerPolicy :=
  route.stages.findSome? Stage.breaker?

/-- Take a request path and its raw query through the stages. -/
def outbound (route : Route) (path : String) (query : Option String)
    (authentication : Option Authentication) : Outbound :=
  route.stages.foldl (fun outbound stage => stage.apply authentication outbound)
    ⟨path, (query.map Query.decode).getD []⟩

def display (route : Route) : String :=
  let target := route.template ++ " -> " ++ route.uri
  match route.method? with
  | some method => method.token ++ " " ++ target
  | none => target

end Route

end ApiGateway
