import ApiGateway.Decimal.Binary64

/-!
# JSON values

A number is a natural number, a negative integer or a binary fraction.  The members of an object stand
in the order of their names, each name once.
-/

namespace ApiGateway

inductive Json where
  | null
  | bool (value : Bool)
  | natural (value : Nat)
  | negative (magnitude : Nat)
  | fraction (value : Decimal.Binary64)
  | string (value : String)
  | array (items : List Json)
  | object (members : List (String × Json))
  deriving Inhabited

namespace Json

/-- Set a member among members in order. -/
def put (name : String) (value : Json) : List (String × Json) → List (String × Json)
  | [] => [(name, value)]
  | (other, old) :: rest =>
    if name = other then (name, value) :: rest
    else if name < other then (name, value) :: (other, old) :: rest
    else (other, old) :: put name value rest

/-- The object of the members; of members of one name the last counts. -/
def ofMembers (members : List (String × Json)) : Json :=
  .object (members.foldl (fun known (name, value) => put name value known) [])

def member? : Json → String → Option Json
  | .object members, name => members.lookup name
  | _, _ => none

def ofInt (value : Int) : Json :=
  if 0 ≤ value then .natural value.toNat else .negative (-value).toNat

def strings (texts : List String) : Json :=
  .array (texts.map .string)

end Json

end ApiGateway
