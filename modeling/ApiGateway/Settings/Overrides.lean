import ApiGateway.Duration.Text
import ApiGateway.Failure
import ApiGateway.Settings.Basic

/-!
# Overrides

Some settings can be given by environment variables, which then count instead of what was read.
-/

namespace ApiGateway.Settings

/-- Why a text is no number of a limited size. -/
inductive NumberProblem where
  | empty
  | invalidDigit
  | tooLarge
  deriving DecidableEq, Repr

def NumberProblem.message : NumberProblem → String
  | empty => "cannot parse integer from empty string"
  | invalidDigit => "invalid digit found in string"
  | tooLarge => "number too large to fit in target type"

/-- Read further digits of a number below a limit.  The first fault from the left counts. -/
def parseDigits (limit value : Nat) : List Char → Except NumberProblem Nat
  | [] => .ok value
  | c :: rest =>
    if '0' ≤ c ∧ c ≤ '9' then
      let next := value * 10 + (c.toNat - 48)
      if next < limit then parseDigits limit next rest else .error .tooLarge
    else .error .invalidDigit

/-- Read a number below a limit, which may have a plus sign. -/
def parseNumber (limit : Nat) (text : List Char) : Except NumberProblem Nat :=
  match text with
  | [] => .error .empty
  | ['+'] => .error .invalidDigit
  | '+' :: digits => parseDigits limit 0 digits
  | digits => parseDigits limit 0 digits

inductive OverrideProblem where
  | port (problem : NumberProblem)
  | breakerTimeout (problem : Duration.Problem)
  deriving DecidableEq, Repr

def OverrideProblem.message : OverrideProblem → String
  | port problem => "Invalid GATEWAY_SERVER_PORT: " ++ problem.message
  | breakerTimeout problem => "Invalid GATEWAY_CIRCUIT_BREAKER_TIMEOUT: " ++ problem.message

def OverrideProblem.failure (problem : OverrideProblem) : Failure :=
  .configuration problem.message

/-- Give the token settings another secret; without any, they come to be. -/
def Auth.setSecret (auth : Auth) (secret : String) : Auth :=
  { auth with jwt := some { auth.jwt.getD {} with secret } }

/-- What the environment says instead of the settings. -/
def override (settings : Settings) (environment : String → Option String) :
    Except OverrideProblem Settings := do
  let port ← match environment "GATEWAY_SERVER_PORT" with
    | some text => (parseNumber (Nat.pow 2 16) text.toList).mapError .port
    | none => pure settings.server.port
  let breakerTimeout ← match environment "GATEWAY_CIRCUIT_BREAKER_TIMEOUT" with
    | some text => (Duration.parse text).mapError .breakerTimeout
    | none => pure settings.gateway.breakerTimeout
  let text (name : String) (set : String) := (environment name).getD set
  return { settings with
    server := { port, bindAddress := text "GATEWAY_SERVER_BIND_ADDRESS" settings.server.bindAddress }
    logging := {
      level := text "GATEWAY_LOG_LEVEL" settings.logging.level
      format := text "GATEWAY_LOG_FORMAT" settings.logging.format }
    auth := match environment "GATEWAY_JWT_SECRET" with
      | some secret => settings.auth.setSecret secret
      | none => settings.auth
    gateway := { settings.gateway with
      versionPrefix := text "GATEWAY_VERSION_PREFIX" settings.gateway.versionPrefix
      breakerTimeout } }

end ApiGateway.Settings
