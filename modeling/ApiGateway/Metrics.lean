import ApiGateway.Failure
import ApiGateway.Net.SocketAddress
import ApiGateway.Settings.Basic

/-!
# Metrics

The counters of a gateway, and the address where they can be read.
-/

namespace ApiGateway.Metrics

/-- Names of the counters, with what they count. -/
def counters : List (String × String) :=
  [ ("gateway_applications_found_total", "Applications that appeared in the registry"),
    ("gateway_applications_lost_total", "Applications that disappeared from the registry"),
    ("gateway_endpoints_collected_total", "Documented endpoints collected"),
    ("gateway_doc_fetch_failures_total", "Failed documentation fetches or parses"),
    ("gateway_routes_built_total", "Routes built from documented endpoints"),
    ("gateway_route_collisions_total", "Endpoints colliding on the same external method and path"),
    ("gateway_auth_failures_total", "Requests rejected by the authentication filter"),
    ("gateway_fallbacks_total", "Requests answered by an application fallback") ]

/-- The address to serve counters at, if they are to be served. -/
def address (settings : Settings.Metrics) : Except Failure (Option Net.SocketAddress) :=
  if !settings.enabled then .ok none
  else
    match Net.SocketAddress.parse? settings.listenAddress with
    | some address => .ok (some address)
    | none => .error (.configuration ("Invalid metrics listen_address: " ++ Net.SocketAddress.parseFailure))

end ApiGateway.Metrics
