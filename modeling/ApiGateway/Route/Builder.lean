import ApiGateway.Failure
import ApiGateway.Route.Basic

/-!
# Building routes

A builder only grows: predicates and stages are added at the end, and the identifier, the address and
the outcome of stripping keep the first value they are given.
-/

namespace ApiGateway.Route

/-- What is left of a documented path once its ignored lead is taken off. -/
structure Stripped where
  lead : Option String
  path : String
  deriving DecidableEq, Repr

structure Builder where
  id : Option String := none
  uri : Option String := none
  predicates : List Predicate := []
  stages : List Stage := []
  stripped : Option Stripped := none
  deriving DecidableEq, Repr

/-- What a finished route cannot do without. -/
inductive Missing where
  | template
  | uri
  | id
  deriving DecidableEq, Repr

def Missing.message : Missing → String
  | .template => "no path predicate"
  | .uri => "no upstream uri"
  | .id => "no route id"

namespace Builder

def empty : Builder := {}

def addPredicate (builder : Builder) (predicate : Predicate) : Builder :=
  { builder with predicates := builder.predicates ++ [predicate] }

def addStage (builder : Builder) (stage : Stage) : Builder :=
  { builder with stages := builder.stages ++ [stage] }

def setId (builder : Builder) (id : String) : Builder :=
  { builder with id := some (builder.id.getD id) }

def setUri (builder : Builder) (uri : String) : Builder :=
  { builder with uri := some (builder.uri.getD uri) }

def setStripped (builder : Builder) (stripped : Stripped) : Builder :=
  { builder with stripped := some (builder.stripped.getD stripped) }

def template? (builder : Builder) : Option String :=
  builder.predicates.findSome? Predicate.template?

/-- The lead that was taken off. -/
def lead? (builder : Builder) : Option String :=
  builder.stripped.bind (·.lead)

def injects (builder : Builder) (parameter : String) : Bool :=
  builder.stages.any (·.injects parameter)

/-- The finished route of an endpoint, or the first thing that is missing. -/
def build (builder : Builder) (endpoint : Endpoint) : Except Missing Route :=
  match builder.template?, builder.uri, builder.id with
  | none, _, _ => .error .template
  | some _, none, _ => .error .uri
  | some _, some _, none => .error .id
  | some _, some uri, some id =>
    .ok ⟨id, builder.predicates, builder.stages, uri, endpoint.application.name, endpoint.key⟩

end Builder

/-- A route that could not be assembled, as a failure of its endpoint. -/
def Missing.failure (missing : Missing) (endpoint : Endpoint) : Failure :=
  .routeAssembly endpoint.key.text missing.message

end ApiGateway.Route
