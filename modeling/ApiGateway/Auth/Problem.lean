import ApiGateway.Failure
import ApiGateway.Http.Response

/-!
# Rejected requests

Why a request is not authenticated.  The client reads the reason as plain text.
-/

namespace ApiGateway.Auth

inductive Problem where
  /-- No scheme can be told from the credentials. -/
  | schemeNotFound
  | unsupportedScheme (scheme : String)
  /-- No extractor claims the request. -/
  | unsupportedSource
  | invalidCredentials (reason : String)
  /-- The extraction itself failed. -/
  | extraction (reason : String)
  deriving DecidableEq, Repr

namespace Problem

def message : Problem → String
  | schemeNotFound => "Authorization scheme not found"
  | unsupportedScheme scheme => "Unsupported authorization scheme: " ++ scheme
  | unsupportedSource => "No supported authentication source"
  | invalidCredentials reason => reason
  | extraction reason => "Authentication extraction failed: " ++ reason

/-- The status of every rejection. -/
def status : Nat := 401

def failure (problem : Problem) : Failure :=
  .authentication problem.message

def response (problem : Problem) : Http.Response :=
  .text status problem.message

end Problem

end ApiGateway.Auth
