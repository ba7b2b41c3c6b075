import ApiGateway.Yaml.Node

/-!
# Values of nodes

A plain scalar stands for a null, a truth value or a number if it is written like one, and for its text
otherwise.  The values of nodes are JSON values.
-/

namespace ApiGateway.Yaml

/-! ## Plain scalars -/

def isNull (text : String) : Bool :=
  ["null", "Null", "NULL", "~"].contains text

def bool? (text : String) : Option Bool :=
  if ["true", "True", "TRUE"].contains text then some true
  else if ["false", "False", "FALSE"].contains text then some false
  else none

/-- The text without one sign. -/
def unsigned : List Char → List Char
  | '+' :: text | '-' :: text => text
  | text => text

/-- Digits behind a zero: a text and no number. -/
def isZeroLed (text : List Char) : Bool :=
  match unsigned text with
  | '0' :: rest => rest ≠ [] && rest.all Json.isDigit
  | _ => false

/-- The value of a nonempty run of digits of a base. -/
def digits? (base : Nat) (text : List Char) : Option Nat :=
  if text = [] then none
  else text.foldlM (fun value c =>
    match Json.hexValue? c with
    | some digit => if digit < base then some (value * base + digit) else none
    | none => none) 0

/-- A natural number with the mark of its base, or a decimal one. -/
def natural? (text : List Char) : Option Nat :=
  match text with
  | '0' :: 'x' :: rest => digits? 16 rest
  | '0' :: 'o' :: rest => digits? 8 rest
  | '0' :: 'b' :: rest => digits? 2 rest
  | text => if isZeroLed text then none else digits? 10 text

def integer? : List Char → Option Int
  | '+' :: text => (natural? text).map Int.ofNat
  | '-' :: text => (natural? text).map fun value => -Int.ofNat value
  | text => (natural? text).map Int.ofNat

/-- A decimal fraction without a sign, as digits and a power of ten. -/
def decimal? (text : List Char) : Option (Nat × Int) :=
  let whole := text.takeWhile Json.isDigit
  let rest := text.dropWhile Json.isDigit
  let (places, rest) := match rest with
    | '.' :: rest => (rest.takeWhile Json.isDigit, rest.dropWhile Json.isDigit)
    | rest => ([], rest)
  if whole = [] ∧ places = [] then none
  else
    match Json.exponentPart? rest with
    | some (exponent, []) => some (Json.naturalOf (whole ++ places), exponent - (places.length : Int))
    | _ => none

/-- The spellings of the infinities. -/
def infinities : List String :=
  [".inf", ".Inf", ".INF", "+.inf", "+.Inf", "+.INF", "-.inf", "-.Inf", "-.INF"]

/-- The spellings of the values that are no numbers. -/
def notNumbers : List String :=
  [".nan", ".NaN", ".NAN"]

/-- A fraction; the infinities and what is no number are read as null. -/
def fraction? (text : String) : Option Json :=
  if infinities.contains text ∨ notNumbers.contains text then some .null
  else
    let negated := text.toList.head? = some '-'
    match decimal? (unsigned text.toList) with
    | some (digits, exponent) => (Decimal.Binary64.ofDecimal? negated digits exponent).map .fraction
    | none => none

/-- How an integer is read. -/
inductive Reach where
  | value (json : Json)
  /-- It is an integer of 128 bits, but too great for a value. -/
  | tooGreat
  /-- It is no integer. -/
  | none

def reach (text : String) : Reach :=
  match integer? text.toList with
  | some value =>
    if -(Nat.pow 2 63 : Int) ≤ value ∧ value < Nat.pow 2 64 then .value (.ofInt value)
    else if -(Nat.pow 2 127 : Int) ≤ value ∧ value < Nat.pow 2 128 then .tooGreat
    else .none
  | none => .none

/-- The value of a plain scalar without a tag. -/
def plainValue? (text : String) : Option Json :=
  if text = "" ∨ isNull text then some .null
  else
    match bool? text, reach text with
    | some value, _ => some (.bool value)
    | none, .value json => some json
    | none, .tooGreat => none
    | none, .none =>
      if isZeroLed text.toList then some (.string text)
      else some ((fraction? text).getD (.string text))

/-! ## Tags -/

/-- The tag of a kind of value that is the same everywhere. -/
def coreTag (kind : String) : String :=
  "tag:yaml.org,2002:" ++ kind

/-- The name of a tag that means something to its reader only. -/
def localTag? (tag : Option String) : Option String :=
  match tag.map String.toList with
  | some ('!' :: name) => some (.ofList name)
  | _ => none

/-- The value of a scalar with a tag.  Tags that are not known leave it a text. -/
def taggedValue? (tag text : String) : Option Json :=
  if tag = coreTag "bool" then (bool? text).map .bool
  else if tag = coreTag "int" then
    match reach text with
    | .value json => some json
    | _ => none
  else if tag = coreTag "float" then fraction? text
  else if tag = coreTag "null" then if isNull text then some .null else none
  else some (.string text)

namespace Scalar

def value? (scalar : Scalar) : Option Json :=
  match scalar.tag with
  | some tag => if (localTag? scalar.tag).isSome then none else taggedValue? tag scalar.text
  | none => if scalar.style = .plain then plainValue? scalar.text else some (.string scalar.text)

/-- A plain scalar counts for what it looks like, whatever its tag; a literal one needs the tag. -/
def looksLike (scalar : Scalar) (kind : String) : Bool :=
  scalar.style == .plain || (scalar.style == .literal && scalar.tag == some (coreTag kind))

/-- A scalar that stands for nothing at all. -/
def isNone (scalar : Scalar) : Bool :=
  scalar.style == .plain &&
    match scalar.tag with
    | some tag => tag == coreTag "null" && isNull scalar.text
    | none => scalar.text == "" || isNull scalar.text

end Scalar

namespace Node

/-- How deeply the values of nodes may nest. -/
def depthLimit : Nat := 128

mutual

/-- The value of a node that may nest so deeply. -/
def valueWithin? (depth : Nat) : Node → Option Json
  | .scalar leaf => leaf.value?
  | .sequence tag items =>
    if depth = 0 ∨ (localTag? tag).isSome then none
    else (itemValues? (depth - 1) items).map .array
  | .mapping tag entries =>
    if depth = 0 ∨ (localTag? tag).isSome then none
    else (entryValues? (depth - 1) entries).map .ofMembers

def itemValues? (depth : Nat) : List Node → Option (List Json)
  | [] => some []
  | item :: items => do
    let value ← valueWithin? depth item
    return value :: (← itemValues? depth items)

/-- The members of a mapping, the keys of which have to be scalars. -/
def entryValues? (depth : Nat) : List (Node × Node) → Option (List (String × Json))
  | [] => some []
  | (.scalar key, node) :: entries => do
    let value ← valueWithin? depth node
    return (key.text, value) :: (← entryValues? depth entries)
  | _ => none

end

/-- The value of a node, unless it has none or nests too deeply. -/
def value? (node : Node) : Option Json :=
  node.valueWithin? depthLimit

end Node

end ApiGateway.Yaml
