/-!
# Failures

Why an operation of the gateway did not succeed, and what a client is told about it.
-/

namespace ApiGateway

inductive Failure where
  | configuration (detail : String)
  | authentication (reason : String)
  | breakerOpen (application : String)
  | serviceUnavailable (service reason : String)
  | timeout (milliseconds : Nat)
  | serviceDiscovery (detail : String)
  | documentFetch (application detail : String)
  | documentParse (detail : String)
  | routeAssembly (endpoint reason : String)
  | unresolvable (uri reason : String)
  | routeNotFound (method path : String)
  | internal (detail : String)
  | io (detail : String)
  | json (detail : String)
  | yaml (detail : String)
  | httpClient (detail : String)
  deriving DecidableEq, Repr

namespace Failure

def message : Failure → String
  | configuration detail => "Configuration error: " ++ detail
  | authentication reason => "Authentication failed: " ++ reason
  | breakerOpen application => "Circuit breaker open for application: " ++ application
  | serviceUnavailable service reason => "Service unavailable: " ++ service ++ " - " ++ reason
  | timeout milliseconds => "Request timeout after " ++ toString milliseconds ++ "ms"
  | serviceDiscovery detail => "Service discovery error: " ++ detail
  | documentFetch application detail =>
    "Failed to fetch API documentation of " ++ application ++ ": " ++ detail
  | documentParse detail => "Failed to parse API documentation: " ++ detail
  | routeAssembly endpoint reason => "Route assembly failed for " ++ endpoint ++ ": " ++ reason
  | unresolvable uri reason => "Cannot resolve upstream " ++ uri ++ ": " ++ reason
  | routeNotFound method path => "No route for " ++ method ++ " " ++ path
  | internal detail => "Internal server error: " ++ detail
  | io detail => "I/O error: " ++ detail
  | json detail => "JSON error: " ++ detail
  | yaml detail => "YAML error: " ++ detail
  | httpClient detail => "HTTP client error: " ++ detail

/-- The kind of a failure, as clients read it. -/
def kind : Failure → String
  | configuration _ => "configuration_error"
  | authentication _ => "authentication_error"
  | breakerOpen _ => "circuit_breaker_open"
  | serviceUnavailable _ _ => "service_unavailable"
  | timeout _ => "timeout"
  | serviceDiscovery _ => "service_discovery_error"
  | documentFetch _ _ => "document_fetch_error"
  | documentParse _ => "document_parse_error"
  | routeAssembly _ _ => "route_assembly_error"
  | unresolvable _ _ => "upstream_resolution_error"
  | routeNotFound _ _ => "route_not_found"
  | internal _ => "internal_error"
  | io _ => "io_error"
  | json _ => "json_error"
  | yaml _ => "yaml_error"
  | httpClient _ => "http_client_error"

/-- The status a client is answered with. -/
def status : Failure → Nat
  | authentication _ => 401
  | breakerOpen _ | timeout _ => 504
  | serviceUnavailable _ _ | unresolvable _ _ => 503
  | routeNotFound _ _ => 404
  | httpClient _ => 502
  | json _ => 400
  | configuration _ | serviceDiscovery _ | documentFetch _ _ | documentParse _ | routeAssembly _ _
  | internal _ | io _ | yaml _ => 500

/-- The failure speaks against the application and counts for its circuit breaker. -/
def countsAgainstBreaker : Failure → Bool
  | serviceUnavailable _ _ | timeout _ | httpClient _ | unresolvable _ _ => true
  | _ => false

end Failure

end ApiGateway
