import ApiGateway.Settings.Overrides
import ApiGateway.Settings.Read
import ApiGateway.Settings.Validation

/-!
# Loading settings

Settings come from a text, are overridden by the environment and then have to be valid.
-/

namespace ApiGateway.Settings

/-- Override settings and validate what comes out. -/
def finish (environment : String → Option String) (settings : Settings) : Except Failure Settings := do
  let settings ← (settings.override environment).mapError OverrideProblem.failure
  settings.validate
  return settings

/-- Load the settings of a file, which has to exist. -/
def loadFile (environment : String → Option String) : Option String → Except Failure Settings
  | some content => do finish environment (← read content)
  | none => .error (.configuration "Failed to read config file: No such file or directory (os error 2)")

/-- Load the settings of a file; without it, all settings keep their values. -/
def load (environment : String → Option String) : Option String → Except Failure Settings
  | some content => loadFile environment (some content)
  | none => finish environment {}

end ApiGateway.Settings
