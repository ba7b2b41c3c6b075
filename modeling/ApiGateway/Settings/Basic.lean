import ApiGateway.Duration
import ApiGateway.Endpoint
import ApiGateway.Route.Collision
import ApiGateway.Route.Injection

/-!
# Settings

All that can be configured, section by section, with the values that hold where nothing is given.
-/

namespace ApiGateway

namespace Settings

structure Server where
  bindAddress : String := "0.0.0.0"
  /-- A number of 16 bits. -/
  port : Nat := 8080
  deriving DecidableEq, Inhabited, Repr

/-- A server named in the gateway's own description. -/
structure ServerEntry where
  url : String
  description : String := ""
  deriving DecidableEq, Inhabited, Repr

/-- How documented paths become external ones. -/
structure Gateway where
  versionPrefix : String := "/api/v1"
  ignoredPathPrefixes : List String := ["/auth"]
  publicPathPatterns : List String := []
  errorPathPatterns : List String := ["/error/**", "/fallback/**"]
  breakerTimeout : Duration := .ofSeconds 5
  servers : List ServerEntry := []
  deriving DecidableEq, Inhabited, Repr

inductive Registry where
  /-- The members never change. -/
  | fixed (members : List Member)
  /-- The members are asked for at an address. -/
  | http (url : String) (timeout : Duration)
  deriving DecidableEq, Inhabited, Repr

structure Discovery where
  selfName : String := "gateway"
  scheme : String := "lb://"
  docPath : String := "/v3/api-docs"
  refreshInterval : Duration := .ofSeconds 30
  registry : Registry := .fixed []
  deriving DecidableEq, Inhabited, Repr

structure Jwt where
  secret : String := ""
  leeway : Duration := .zero
  deriving DecidableEq, Inhabited, Repr

structure Auth where
  jwt : Option Jwt := none
  deriving DecidableEq, Inhabited, Repr

/-- The part of the authentication that a declared parameter is filled with, and how. -/
structure Initializer where
  parameter : String
  source : Route.ClaimSource
  strategy : Route.InjectionStrategy
  deriving DecidableEq, Inhabited, Repr

structure Routing where
  collisionPolicy : Route.CollisionPolicy := .reject
  identityPrefix : String := "/auth"
  principalParameter : String := "principal"
  authenticatedTag : String := "AUTHENTICATED"
  initializers : List Initializer :=
    [⟨"principal", .principal, .replaceAlways⟩, ⟨"roles", .authorities, .replaceAlways⟩]
  deriving DecidableEq, Inhabited, Repr

/-- When a circuit breaker opens, tries again and closes.  The counts are numbers of 32 bits. -/
structure Breaker where
  failureThreshold : Nat := 5
  openDuration : Duration := .ofSeconds 30
  successThreshold : Nat := 1
  trialLimit : Nat := 1
  deriving DecidableEq, Inhabited, Repr

structure Logging where
  level : String := "info"
  format : String := "json"
  deriving DecidableEq, Inhabited, Repr

structure Metrics where
  enabled : Bool := true
  listenAddress : String := "0.0.0.0:9090"
  deriving DecidableEq, Inhabited, Repr

end Settings

structure Settings where
  server : Settings.Server := {}
  gateway : Settings.Gateway := {}
  discovery : Settings.Discovery := {}
  auth : Settings.Auth := {}
  routing : Settings.Routing := {}
  breaker : Settings.Breaker := {}
  logging : Settings.Logging := {}
  metrics : Settings.Metrics := {}
  deriving DecidableEq, Inhabited, Repr

end ApiGateway
