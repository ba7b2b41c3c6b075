import ApiGateway.Logging
import ApiGateway.Net.SocketAddress
import ApiGateway.Path.Pattern
import ApiGateway.Settings.Basic
import ApiGateway.Text.Utf8
import ApiGateway.Url

/-!
# Validation

All that is wrong with settings is found at once and told in the order of the sections.
-/

namespace ApiGateway.Settings

inductive Problem where
  | noBindAddress
  | versionPrefix (given : String)
  | ignoredPathPrefix (given : String)
  | publicPathPatterns (problem : Path.Pattern.Problem)
  | errorPathPatterns (problem : Path.Pattern.Problem)
  | noBreakerTimeout
  | serverUrl (given : String)
  | noSelfName
  | noScheme
  | docPath (given : String)
  | noRefreshInterval
  | unnamedMember
  | memberAddress (member : Member)
  | registryUrl (given : String)
  | noRegistryTimeout
  | noSecret
  | identityPrefix (given : String)
  | noPrincipalParameter
  | noAuthenticatedTag
  | unnamedInitializer
  | noFailureThreshold
  | noSuccessThreshold
  | noTrialLimit
  | logLevel (given : String)
  | logFormat (given : String)
  | metricsAddress (given : String)
  deriving DecidableEq, Repr

def Problem.message : Problem → String
  | noBindAddress => "bind_address cannot be empty"
  | versionPrefix given => "version_prefix must start with '/' and must not end with '/': " ++ given
  | ignoredPathPrefix given => "Invalid ignored path prefix: '" ++ given ++ "'"
  | publicPathPatterns problem => "Invalid public_path_patterns: " ++ problem.failure.message
  | errorPathPatterns problem => "Invalid error_path_patterns: " ++ problem.failure.message
  | noBreakerTimeout => "circuit_breaker_timeout must be greater than 0"
  | serverUrl given => "Invalid server url: '" ++ given ++ "'"
  | noSelfName => "discovery self_name cannot be empty"
  | noScheme => "discovery scheme cannot be empty"
  | docPath given => "doc_path must start with '/': " ++ given
  | noRefreshInterval => "refresh_interval must be greater than 0"
  | unnamedMember => "Static registry member has empty name"
  | memberAddress member =>
    "Static registry member '" ++ member.name ++ "' has invalid address '" ++ member.address ++ "'"
  | registryUrl given => "Invalid registry url: '" ++ given ++ "'"
  | noRegistryTimeout => "registry timeout must be greater than 0"
  | noSecret => "JWT secret cannot be empty"
  | identityPrefix given => "identity_prefix must start with '/': " ++ given
  | noPrincipalParameter => "principal_parameter cannot be empty"
  | noAuthenticatedTag => "authenticated_tag cannot be empty"
  | unnamedInitializer => "Parameter initializer has empty parameter name"
  | noFailureThreshold => "circuit breaker failure_threshold must be greater than 0"
  | noSuccessThreshold => "circuit breaker success_threshold must be greater than 0"
  | noTrialLimit => "circuit breaker half_open_max_requests must be greater than 0"
  | logLevel given => "Invalid log level: " ++ given
  | logFormat given => "Invalid log format: " ++ given
  | metricsAddress given => "Invalid metrics listen_address: " ++ given

/-! ## Conditions -/

def startsWithSlash (text : String) : Bool :=
  text.toList.head? == some '/'

def endsWithSlash (text : String) : Bool :=
  text.toList.getLast? == some '/'

def isUrl (text : String) : Bool :=
  (Url.parse text).toOption.isSome

/-- Each problem of the list the condition of which holds. -/
def found (problems : List (Bool × Problem)) : List Problem :=
  (problems.filter (·.1)).map (·.2)

def patternProblems (problem : Path.Pattern.Problem → Problem) (patterns : List String) : List Problem :=
  match Path.Patterns.parse patterns with
  | .ok _ => []
  | .error cause => [problem cause]

/-! ## Sections -/

def Gateway.problems (gateway : Gateway) : List Problem :=
  found [(!startsWithSlash gateway.versionPrefix || endsWithSlash gateway.versionPrefix,
      .versionPrefix gateway.versionPrefix)] ++
    (gateway.ignoredPathPrefixes.filter fun lead =>
      !startsWithSlash lead || lead.utf8ByteSize < 2).map .ignoredPathPrefix ++
    patternProblems .publicPathPatterns gateway.publicPathPatterns ++
    patternProblems .errorPathPatterns gateway.errorPathPatterns ++
    found [(gateway.breakerTimeout.isZero, .noBreakerTimeout)] ++
    ((gateway.servers.map (·.url)).filter (!isUrl ·)).map .serverUrl

def Registry.problems : Registry → List Problem
  | .fixed members => members.flatMap fun member =>
    found [(member.name == "", .unnamedMember), (!isUrl member.address, .memberAddress member)]
  | .http url timeout => found [(!isUrl url, .registryUrl url), (timeout.isZero, .noRegistryTimeout)]

def Discovery.problems (discovery : Discovery) : List Problem :=
  found [
    (discovery.selfName == "", .noSelfName),
    (discovery.scheme == "", .noScheme),
    (!startsWithSlash discovery.docPath, .docPath discovery.docPath),
    (discovery.refreshInterval.isZero, .noRefreshInterval)] ++ discovery.registry.problems

def Auth.problems (auth : Auth) : List Problem :=
  found [(auth.jwt.any (·.secret == ""), .noSecret)]

def Routing.problems (routing : Routing) : List Problem :=
  found [
    (!startsWithSlash routing.identityPrefix, .identityPrefix routing.identityPrefix),
    (routing.principalParameter == "", .noPrincipalParameter),
    (routing.authenticatedTag == "", .noAuthenticatedTag)] ++
    (routing.initializers.filter (·.parameter == "")).map fun _ => .unnamedInitializer

def Breaker.problems (breaker : Breaker) : List Problem :=
  found [
    (breaker.failureThreshold == 0, .noFailureThreshold),
    (breaker.successThreshold == 0, .noSuccessThreshold),
    (breaker.trialLimit == 0, .noTrialLimit)]

def Logging.problems (logging : Logging) : List Problem :=
  found [
    (!ApiGateway.Logging.isLevel logging.level, .logLevel logging.level),
    ((ApiGateway.Logging.Format.parse logging.format).toOption.isNone, .logFormat logging.format)]

def Metrics.problems (metrics : Metrics) : List Problem :=
  found [(metrics.enabled && (Net.SocketAddress.parse? metrics.listenAddress).isNone,
    .metricsAddress metrics.listenAddress)]

/-- All that is wrong with settings. -/
def problems (settings : Settings) : List Problem :=
  found [(settings.server.bindAddress == "", .noBindAddress)] ++
    settings.gateway.problems ++ settings.discovery.problems ++ settings.auth.problems ++
    settings.routing.problems ++ settings.breaker.problems ++ settings.logging.problems ++
    settings.metrics.problems

/-- Tell all problems in one failure. -/
def failureOf (problems : List Problem) : Failure :=
  .configuration ("Configuration validation failed:\n" ++ Text.join "\n" (problems.map Problem.message))

def validate (settings : Settings) : Except Failure Unit :=
  match settings.problems with
  | [] => .ok ()
  | problems => .error (failureOf problems)

theorem validate_eq_ok_iff {settings : Settings} : settings.validate = .ok () ↔ settings.problems = [] := by
  unfold validate
  split
  · simp_all
  · next hfound => simpa using hfound

end ApiGateway.Settings
