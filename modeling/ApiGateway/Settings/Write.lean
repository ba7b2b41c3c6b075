import ApiGateway.Duration.Text
import ApiGateway.Json.Basic
import ApiGateway.Settings.Names

/-!
# Writing settings

Settings are written in full, section by section, under the names by which they are read.
-/

namespace ApiGateway

def Duration.toJson (duration : Duration) : Json :=
  .string duration.text

def Member.toJson (member : Member) : Json :=
  .ofMembers [("name", .string member.name), ("address", .string member.address)]

namespace Settings

def Server.toJson (server : Server) : Json :=
  .ofMembers [("bind_address", .string server.bindAddress), ("port", .natural server.port)]

def ServerEntry.toJson (entry : ServerEntry) : Json :=
  .ofMembers [("url", .string entry.url), ("description", .string entry.description)]

def Gateway.toJson (gateway : Gateway) : Json :=
  .ofMembers [
    ("version_prefix", .string gateway.versionPrefix),
    ("ignored_path_prefixes", .strings gateway.ignoredPathPrefixes),
    ("public_path_patterns", .strings gateway.publicPathPatterns),
    ("error_path_patterns", .strings gateway.errorPathPatterns),
    ("circuit_breaker_timeout", gateway.breakerTimeout.toJson),
    ("servers", .array (gateway.servers.map ServerEntry.toJson))]

def Registry.toJson : Registry → Json
  | .fixed members => .ofMembers [("type", .string "static"), ("members", .array (members.map Member.toJson))]
  | .http url timeout =>
    .ofMembers [("type", .string "http"), ("url", .string url), ("timeout", timeout.toJson)]

def Discovery.toJson (discovery : Discovery) : Json :=
  .ofMembers [
    ("self_name", .string discovery.selfName),
    ("scheme", .string discovery.scheme),
    ("doc_path", .string discovery.docPath),
    ("refresh_interval", discovery.refreshInterval.toJson),
    ("registry", discovery.registry.toJson)]

def Jwt.toJson (jwt : Jwt) : Json :=
  .ofMembers [("secret", .string jwt.secret), ("leeway", jwt.leeway.toJson)]

def Auth.toJson (auth : Auth) : Json :=
  .ofMembers [("jwt", (auth.jwt.map Jwt.toJson).getD .null)]

def Initializer.toJson (initializer : Initializer) : Json :=
  .ofMembers [
    ("parameter", .string initializer.parameter),
    ("source", .string initializer.source.name),
    ("strategy", .string initializer.strategy.name)]

def Routing.toJson (routing : Routing) : Json :=
  .ofMembers [
    ("collision_policy", .string routing.collisionPolicy.name),
    ("identity_prefix", .string routing.identityPrefix),
    ("principal_parameter", .string routing.principalParameter),
    ("authenticated_tag", .string routing.authenticatedTag),
    ("parameter_initializers", .array (routing.initializers.map Initializer.toJson))]

def Breaker.toJson (breaker : Breaker) : Json :=
  .ofMembers [
    ("failure_threshold", .natural breaker.failureThreshold),
    ("open_duration", breaker.openDuration.toJson),
    ("success_threshold", .natural breaker.successThreshold),
    ("half_open_max_requests", .natural breaker.trialLimit)]

def Logging.toJson (logging : Logging) : Json :=
  .ofMembers [("level", .string logging.level), ("format", .string logging.format)]

def Metrics.toJson (metrics : Metrics) : Json :=
  .ofMembers [("enabled", .bool metrics.enabled), ("listen_address", .string metrics.listenAddress)]

end Settings

def Settings.toJson (settings : Settings) : Json :=
  .ofMembers [
    ("server", settings.server.toJson),
    ("gateway", settings.gateway.toJson),
    ("discovery", settings.discovery.toJson),
    ("auth", settings.auth.toJson),
    ("routing", settings.routing.toJson),
    ("circuit_breaker", settings.breaker.toJson),
    ("logging", settings.logging.toJson),
    ("metrics", settings.metrics.toJson)]

end ApiGateway
