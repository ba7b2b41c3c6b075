import ApiGateway.Route.Builder
import ApiGateway.Settings.Basic

/-!
# Processors

A processor adds one concern of an endpoint to a builder.  The pipeline is a list of processors, run
from left to right on an empty builder.
-/

namespace ApiGateway.Route

inductive Processor where
  /-- The external path: the version prefix and what is left of the path without its ignored lead. -/
  | basePath (versionPrefix : String) (ignored : List String)
  | method
  | targetUri
  /-- Endpoints with the tag need an authentication and are moved under the identity prefix, with the
  principal as a parameter. -/
  | identityPrefix (tag versionPrefix identityPrefix parameter : String)
  /-- The version prefix gives way to the lead that was taken off. -/
  | prefixRestoration (versionPrefix : String)
  /-- Declared parameters with an initializer are injected, unless they are already. -/
  | parameterInjection (initializers : List Settings.Initializer)
  | identifier (id : String)
  | circuitBreaker (timeout : Duration)
  deriving DecidableEq, Repr

/-- The ignored lead taken off a documented path. -/
def longestLead? (ignored : List String) (path : String) : Option String :=
  (Path.longest? (ignored.map String.toList) path.toList).map String.ofList

/-- What taking off the longest ignored lead leaves. -/
def strippedPath (ignored : List String) (path : String) : Stripped :=
  match longestLead? ignored path with
  | some lead => ⟨some lead, .ofList (path.toList.drop lead.toList.length)⟩
  | none => ⟨none, path⟩

def externalPath (versionPrefix path : String) : String :=
  if versionPrefix ++ path = "" then "/" else versionPrefix ++ path

/-- The initializer of a parameter; of several the last counts. -/
def initializer? (initializers : List Settings.Initializer) (parameter : String) :
    Option Settings.Initializer :=
  initializers.reverse.find? (·.parameter == parameter)

/-- Inject a declared parameter. -/
def injectDeclared (initializers : List Settings.Initializer) (builder : Builder)
    (parameter : Parameter) : Builder :=
  match initializer? initializers parameter.name with
  | some initializer =>
    if builder.injects parameter.name then builder
    else builder.addStage (.injectParameter parameter.name initializer.source initializer.strategy)
  | none => builder

namespace Processor

def name : Processor → String
  | basePath .. => "base_path"
  | method => "method"
  | targetUri => "upstream_target"
  | identityPrefix .. => "identity_prefix"
  | prefixRestoration .. => "prefix_restoration"
  | parameterInjection .. => "parameter_injection"
  | identifier .. => "identifier"
  | circuitBreaker .. => "circuit_breaker"

def process (processor : Processor) (endpoint : Endpoint) (builder : Builder) : Builder :=
  match processor with
  | basePath versionPrefix ignored =>
    let stripped := strippedPath ignored endpoint.path
    (builder.setStripped stripped).addPredicate (.path (externalPath versionPrefix stripped.path))
  | method => builder.addPredicate (.method endpoint.method)
  | targetUri => builder.setUri endpoint.application.uri
  | identityPrefix tag versionPrefix target parameter =>
    if endpoint.hasTag tag then
      ((builder.addStage .requireAuthentication).addStage
        (.exchangeLead versionPrefix target)).addStage
          (.injectParameter parameter .principal .replaceAlways)
    else builder
  | prefixRestoration versionPrefix =>
    builder.addStage (.exchangeLead versionPrefix (builder.lead?.getD ""))
  | parameterInjection initializers =>
    endpoint.parameters.foldl (injectDeclared initializers) builder
  | identifier id => builder.setId id
  | circuitBreaker timeout =>
    builder.addStage (.breaker ⟨endpoint.application.name,
      "/fallback/" ++ endpoint.application.name, timeout⟩)

end Processor

/-- The processors in their standard order; the breaker comes last, so that its fallback stands for the
whole chain. -/
def standardPipeline (gateway : Settings.Gateway) (routing : Settings.Routing) (id : String) :
    List Processor :=
  [ .basePath gateway.versionPrefix gateway.ignoredPathPrefixes,
    .method,
    .targetUri,
    .identityPrefix routing.authenticatedTag gateway.versionPrefix routing.identityPrefix
      routing.principalParameter,
    .prefixRestoration gateway.versionPrefix,
    .parameterInjection routing.initializers,
    .identifier id,
    .circuitBreaker gateway.breakerTimeout ]

/-- Run processors on an empty builder. -/
def process (processors : List Processor) (endpoint : Endpoint) : Builder :=
  processors.foldl (fun builder processor => processor.process endpoint builder) .empty

/-- The route that processors make of an endpoint. -/
def assemble (processors : List Processor) (endpoint : Endpoint) : Except Missing Route :=
  (process processors endpoint).build endpoint

end ApiGateway.Route
