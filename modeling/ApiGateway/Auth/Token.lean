import ApiGateway.Auth.Problem
import ApiGateway.Auth.TokenHeader
import ApiGateway.Crypto.Sha256
import ApiGateway.Endpoint
import ApiGateway.Json.Read
import ApiGateway.Settings.Basic
import ApiGateway.Text.Base64Url
import ApiGateway.Text.Utf8

/-!
# Signed tokens

A token has three parts with dots between: header, claims and signature.  The signature is the keyed
hash of the first two parts as they stand.  The claims have to name a subject and a time of expiry.
-/

namespace ApiGateway.Auth

/-- Tokens are checked with a secret; a token counts for `leeway` seconds beyond its time. -/
structure Verifier where
  secret : String
  leeway : Nat
  deriving DecidableEq, Repr

namespace Token

inductive Problem where
  | invalidToken
  | base64
  | json
  | invalidAlgorithm
  | invalidSignature
  | missingExpiry
  | expired
  | missingSubject
  deriving DecidableEq, Repr

def Problem.message : Problem → String
  | .invalidToken => "InvalidToken"
  | .base64 => "Base64 error: not the text of any bytes"
  | .json => "JSON error: not a value of the expected form"
  | .invalidAlgorithm => "InvalidAlgorithm"
  | .invalidSignature => "InvalidSignature"
  | .missingExpiry => "Missing required claim: exp"
  | .expired => "ExpiredSignature"
  | .missingSubject => "Missing subject claim"

/-- The text up to the last dot, and the text behind it. -/
def cutLastDot? (text : List Char) : Option (List Char × List Char) :=
  (Text.cut? '.' text.reverse).map fun (after, before) => (before.reverse, after.reverse)

theorem cutLastDot?_eq_some_iff {text before after : List Char} :
    cutLastDot? text = some (before, after) ↔ '.' ∉ after ∧ text = before ++ '.' :: after := by
  simp only [cutLastDot?, Option.map_eq_some_iff, Prod.exists, Text.cut?_eq_some_iff]
  constructor
  · rintro ⟨a, b, ⟨habsent, hwhole⟩, heq⟩
    simp only [Prod.mk.injEq] at heq
    obtain ⟨rfl, rfl⟩ := heq
    exact ⟨by simpa using habsent, by simpa using congrArg List.reverse hwhole⟩
  · rintro ⟨habsent, rfl⟩
    exact ⟨after.reverse, before.reverse, ⟨by simpa using habsent, by simp⟩, by simp⟩

/-- Read an encoded part as a value. -/
def readPart (part : List Char) : Except Problem Json :=
  match Text.Base64Url.decode? part with
  | none => .error .base64
  | some bytes =>
    match (Text.ofUtf8? bytes).bind Json.readRaw? with
    | some value => .ok value
    | none => .error .json

/-- The signature of the signed text. -/
def signature (secret : String) (signed : List Char) : List Char :=
  Text.Base64Url.encode (Crypto.hmac (Text.utf8 secret.toList) (Text.utf8 signed))

/-! ## Claims -/

def isNested : Json → Bool
  | .array _ | .object _ => true
  | _ => false

def isNestedFull : Json → Bool
  | .array (_ :: _) | .object (_ :: _) => true
  | _ => false

/-- The claims that are checked can be read: each occurs once at most, times are not lists or objects
with anything in them, and the subject is none at all. -/
def readable (claims : List (String × Json)) : Bool :=
  (["exp", "nbf", "sub", "iss", "aud"].all fun name => (TokenHeader.field? claims name).isSome) &&
    (["exp", "nbf"].all fun name => !(TokenHeader.field? claims name).any isNestedFull) &&
    !(TokenHeader.field? claims "sub").any isNested

/-- A fraction as the nearest natural number of 64 bits, if it has one. -/
def rounded? (value : Decimal.Binary64) : Option Nat :=
  let (numerator, power) := value.magnitude
  if !value.isFinite ∨ (value.isNegative ∧ numerator ≠ 0) then none
  else
    let halves := if 0 ≤ power then 2 * numerator * Nat.pow 2 power.toNat
      else 2 * numerator / Nat.pow 2 (-power).toNat
    if value.floor < Nat.pow 2 64 then some ((halves + 1) / 2) else none

/-- A point in time, in seconds. -/
def time? : Json → Option Nat
  | .natural value => some value
  | .fraction value => rounded? value
  | _ => none

def member? (claims : List (String × Json)) (name : String) : Option Json :=
  claims.reverse.lookup name

def textItem? : Json → Option String
  | .string text => some text
  | _ => none

/-- The texts in the list of roles, if there is one. -/
def roles (claims : List (String × Json)) : List String :=
  match member? claims "roles" with
  | some (.array items) => items.filterMap textItem?
  | _ => []

/-- The earliest time of expiry that still counts.  The difference has 64 bits: a leeway beyond the
present time takes it round. -/
def earliest (leeway now : Nat) : Nat :=
  if leeway ≤ now then now - leeway else now + Nat.pow 2 64 - leeway

/-- The identity that claims establish. -/
def checkClaims (leeway now : Nat) : Json → Except Problem Authentication
  | .object claims =>
    if !readable claims then .error .json
    else
      match (member? claims "exp").bind time? with
      | none => .error .missingExpiry
      | some expiry =>
        if expiry < earliest leeway now then .error .expired
        else
          match (member? claims "sub").bind textItem? with
          | some principal => .ok ⟨principal, roles claims⟩
          | none => .error .missingSubject
  | _ => .error .json

/-- Check a token at a time, given in seconds. -/
def check (verifier : Verifier) (now : Nat) (token : List Char) : Except Problem Authentication := do
  let some (signed, signatureText) := cutLastDot? token | throw .invalidToken
  let some (header, claims) := cutLastDot? signed | throw .invalidToken
  let some algorithm := TokenHeader.read? (← readPart header) | throw .json
  if algorithm ≠ "HS256" then throw .invalidAlgorithm
  if signatureText ≠ signature verifier.secret signed then throw .invalidSignature
  checkClaims verifier.leeway now (← readPart claims)

end Token

namespace Verifier

def ofSettings (settings : Settings.Jwt) : Verifier :=
  ⟨settings.secret, settings.leeway.seconds⟩

/-- Check a token; whatever is wrong with it, its credentials are invalid. -/
def verify (verifier : Verifier) (now : Nat) (token : String) : Except Problem Authentication :=
  (Token.check verifier now token.toList).mapError fun problem => .invalidCredentials problem.message

end Verifier

end ApiGateway.Auth
