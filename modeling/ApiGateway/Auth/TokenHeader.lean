import ApiGateway.Json.Basic

/-!
# Token headers

A header is an object that names the algorithm, or the list of all its fields in their fixed order.
Fields that are known have to have their form; others are not looked at.
-/

namespace ApiGateway.Auth.TokenHeader

/-- A value that may be missing, and then is null. -/
def isNullOr (check : Json → Bool) : Json → Bool
  | .null => true
  | value => check value

def isText : Json → Bool
  | .string _ => true
  | _ => false

def isTextIn (allowed : List String) : Json → Bool
  | .string value => allowed.contains value
  | _ => false

def isTexts : Json → Bool
  | .array items => items.all isText
  | _ => false

def algorithms : List String :=
  ["HS256", "HS384", "HS512", "ES256", "ES384", "RS256", "RS384", "RS512", "PS256", "PS384", "PS512",
    "EdDSA"]

/-- An algorithm is named by a text, or by an object with that one name and nothing behind it. -/
def algorithm? : Json → Option String
  | .string name => if algorithms.contains name then some name else none
  | .object [(name, .null)] => if algorithms.contains name then some name else none
  | _ => none

def isAlgorithm (value : Json) : Bool :=
  (algorithm? value).isSome

/-- The value of a field that occurs once; a missing field reads as null. -/
def field? (members : List (String × Json)) (name : String) : Option Json :=
  match members.filter (·.1 == name) with
  | [] => some .null
  | [(_, value)] => some value
  | _ => none

/-- All fields have their form. -/
def haveForm (members : List (String × Json)) (fields : List (String × (Json → Bool))) : Bool :=
  fields.all fun (name, check) => (field? members name).any check

def curves : List String := ["P-256", "P-384", "P-521", "Ed25519"]

/-- The fields of a key, besides those of its kind. -/
def keyFields : List (String × (Json → Bool)) :=
  [("use", isNullOr isText), ("key_ops", isNullOr isTexts), ("alg", isNullOr isText),
    ("kid", isNullOr isText), ("x5u", isNullOr isText), ("x5c", isNullOr isTexts),
    ("x5t", isNullOr isText), ("x5t#S256", isNullOr isText)]

/-- The fields of the kinds of keys. -/
def keyKinds : List (List (String × (Json → Bool))) :=
  [ [("kty", isTextIn ["EC"]), ("crv", isTextIn curves), ("x", isText), ("y", isText)],
    [("kty", isTextIn ["RSA"]), ("n", isText), ("e", isText)],
    [("kty", isTextIn ["oct"]), ("k", isText)],
    [("kty", isTextIn ["OKP"]), ("crv", isTextIn curves), ("x", isText)] ]

def isKey : Json → Bool
  | .object members => haveForm members keyFields && keyKinds.any (haveForm members)
  | _ => false

def fields : List (String × (Json → Bool)) :=
  [("typ", isNullOr isText), ("alg", isAlgorithm), ("cty", isNullOr isText), ("jku", isNullOr isText),
    ("jwk", isNullOr isKey), ("kid", isNullOr isText), ("x5u", isNullOr isText),
    ("x5c", isNullOr isTexts), ("x5t", isNullOr isText), ("x5t#S256", isNullOr isText)]

/-- The algorithm that a header names, if it is one. -/
def read? (header : Json) : Option String :=
  let members? : Option (List (String × Json)) :=
    match header with
    | .object members => some members
    | .array items => if items.length = fields.length then some ((fields.map (·.1)).zip items) else none
    | _ => none
  match members? with
  | some members =>
    if haveForm members fields then (field? members "alg").bind algorithm? else none
  | none => none

end ApiGateway.Auth.TokenHeader
