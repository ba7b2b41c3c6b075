import ApiGateway.Auth.Extractor
import ApiGateway.Path.Pattern

/-!
# The authentication filter

The filter decides whether a request passes: with the identity that the extractors establish, or
without one if the request claims none, its path is public and its route does not ask for one.
-/

namespace ApiGateway.Auth

structure Filter where
  extractors : List Extractor
  publicPaths : Path.Patterns
  timeout : Duration

namespace Filter

def isPublic (filter : Filter) (path : String) : Bool :=
  filter.publicPaths.accept path

/-- The attempt of the extractors, ended by the timeout if need be. -/
def attempt (filter : Filter) (headers : Http.Headers) : Except Problem Authentication :=
  match Extractor.extractFirst filter.extractors headers with
  | .established authentication => .ok authentication
  | .refused problem => .error problem
  | .broken reason => .error (.extraction reason)
  | .stalled =>
    .error (.extraction ("timed out after " ++ toString filter.timeout.milliseconds ++ "ms"))

/-- The identity of a request, if it passes with one. -/
def authenticate (filter : Filter) (headers : Http.Headers) (path : String) (required : Bool) :
    Except Problem (Option Authentication) := do
  let credential ← Credential.ofHeaders headers
  match filter.attempt headers with
  | .ok authentication => return some authentication
  | .error .unsupportedSource =>
    if credential.scheme ≠ "" then throw (.unsupportedScheme credential.scheme)
    else if !required ∧ filter.isPublic path then return none
    else throw .unsupportedSource
  | .error problem => throw problem

end Filter

end ApiGateway.Auth
