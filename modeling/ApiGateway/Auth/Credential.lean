import ApiGateway.Auth.Problem
import ApiGateway.Text.Blank
import ApiGateway.Text.Case
import ApiGateway.Text.Scan

/-!
# Credentials

An authorization value is a scheme, blanks, and the credentials proper.  The scheme is kept in small
letters and the credentials without blanks around them.  A request without the header has the empty
credential, whose scheme is empty; no value that is there has an empty scheme.
-/

namespace ApiGateway.Auth

structure Credential where
  scheme : String := ""
  credentials : String := ""
  deriving DecidableEq, Inhabited, Repr

namespace Credential

def make (scheme credentials : String) : Credential :=
  ⟨.ofList (Text.lowerAscii scheme.toList), .ofList (Text.trim Text.isBlank credentials.toList)⟩

/-- Cut at the first blank. -/
def cutBlank? : List Char → Option (List Char × List Char)
  | [] => none
  | c :: rest =>
    if Text.isBlank c then some ([], rest)
    else (cutBlank? rest).map fun (before, after) => (c :: before, after)

/-- Read an authorization value, if there is one. -/
def parse (value : Option String) : Except Problem Credential :=
  match value with
  | none => .ok {}
  | some value =>
    match cutBlank? (value.toList.dropWhile Text.isBlank) with
    | some (scheme, credentials) => .ok (make (.ofList scheme) (.ofList credentials))
    | none => .error .schemeNotFound

/-- Visible ASCII, blanks and tabs. -/
def isVisible (c : Char) : Bool :=
  c == '\t' || (32 ≤ c.toNat && c.toNat < 127)

/-- The credential of a request; of several authorization values the first counts. -/
def ofHeaders (headers : Http.Headers) : Except Problem Credential :=
  match headers.lookup "authorization" with
  | none => .ok {}
  | some value => if value.toList.all isVisible then parse (some value) else .error .schemeNotFound

def isEmpty (credential : Credential) : Bool :=
  credential.scheme == "" && credential.credentials == ""

end Credential

end ApiGateway.Auth
