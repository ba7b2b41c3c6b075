import ApiGateway.Auth.Credential
import ApiGateway.Auth.Token

/-!
# Extractors

An extractor claims requests and establishes the identity of those it claims.  The header extractor
goes by the scheme of the authorization value; a composite asks its parts in order.
-/

namespace ApiGateway.Auth

/-- What comes of trying to establish an identity. -/
inductive Attempt where
  | established (authentication : Authentication)
  | refused (problem : Problem)
  /-- It failed for a reason of its own. -/
  | broken (reason : String)
  /-- It never ends. -/
  | stalled
  deriving DecidableEq, Repr

def Attempt.ofExcept : Except Problem Authentication → Attempt
  | .ok authentication => .established authentication
  | .error problem => .refused problem

/-- Goes by the headers of a request; whatever else it goes by is fixed with it. -/
structure Extractor where
  claims : Http.Headers → Bool
  extract : Http.Headers → Attempt

/-- What is done with the credentials of a scheme. -/
abbrev Authenticator := String → Attempt

/-- Authenticators by scheme, in the order of the schemes. -/
structure Schemes where
  entries : List (String × Authenticator) := []

namespace Schemes

/-- Set an entry among entries in order. -/
def enter (scheme : String) (authenticator : Authenticator) :
    List (String × Authenticator) → List (String × Authenticator)
  | [] => [(scheme, authenticator)]
  | (other, known) :: rest =>
    if scheme = other then (scheme, authenticator) :: rest
    else if scheme < other then (scheme, authenticator) :: (other, known) :: rest
    else (other, known) :: enter scheme authenticator rest

def lowerScheme (scheme : String) : String :=
  .ofList (Text.lowerAscii scheme.toList)

/-- Register an authenticator; a later one of the same scheme takes the place of an earlier one. -/
def register (schemes : Schemes) (scheme : String) (authenticator : Authenticator) : Schemes :=
  ⟨enter (lowerScheme scheme) authenticator schemes.entries⟩

def bearerScheme : String := "bearer"

def withBearer (schemes : Schemes) (verifier : Verifier) (now : Nat) : Schemes :=
  schemes.register bearerScheme fun token => .ofExcept (verifier.verify now token)

def names (schemes : Schemes) : List String :=
  schemes.entries.map (·.1)

/-- A scheme is supported in any letter case. -/
def supports (schemes : Schemes) (scheme : String) : Bool :=
  (schemes.entries.lookup (lowerScheme scheme)).isSome

/-- The authenticator of a credential, whose scheme is looked up as it is. -/
def authenticator (schemes : Schemes) (credential : Credential) : Except Problem Authenticator :=
  match schemes.entries.lookup credential.scheme with
  | some authenticator => .ok authenticator
  | none => .error (.unsupportedScheme credential.scheme)

/-- A character as it is shown in a quoted text. -/
def shown (c : Char) : List Char :=
  match c with
  | '"' => ['\\', '"']
  | '\\' => ['\\', '\\']
  | '\n' => ['\\', 'n']
  | '\r' => ['\\', 'r']
  | '\t' => ['\\', 't']
  | '\x00' => ['\\', '0']
  | c =>
    if c.toNat < 32 ∨ (127 ≤ c.toNat ∧ c.toNat < 160) then
      "\\u\x7b".toList ++ Nat.toDigits 16 c.toNat ++ ['\x7d']
    else [c]

/-- The registered schemes as one line. -/
def describe (schemes : Schemes) : String :=
  let quoted := schemes.names.map fun name => "\"" ++ String.ofList (name.toList.flatMap shown) ++ "\""
  "Authenticators \x7b schemes: [" ++ Text.join ", " quoted ++ "] \x7d"

end Schemes

namespace Extractor

/-- Goes by the scheme of the authorization value. -/
def header (schemes : Schemes) : Extractor where
  claims headers :=
    match Credential.ofHeaders headers with
    | .ok credential => credential.scheme != "" && schemes.supports credential.scheme
    | .error _ => false
  extract headers :=
    match Credential.ofHeaders headers with
    | .error problem => .refused problem
    | .ok credential =>
      match schemes.authenticator credential with
      | .error problem => .refused problem
      | .ok authenticator => authenticator credential.credentials

/-- Let the first extractor that claims the request establish the identity.  A failure that is none of
authentication becomes one of the extraction. -/
def extractFirst (extractors : List Extractor) (headers : Http.Headers) : Attempt :=
  match extractors.find? (·.claims headers) with
  | none => .refused .unsupportedSource
  | some extractor =>
    match extractor.extract headers with
    | .broken reason => .refused (.extraction reason)
    | attempt => attempt

/-- Claims what one of its parts claims. -/
def composite (extractors : List Extractor) : Extractor where
  claims headers := extractors.any (·.claims headers)
  extract := extractFirst extractors

end Extractor

end ApiGateway.Auth
