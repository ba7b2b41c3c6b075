import ApiGateway.Json.Basic
import ApiGateway.Text.Scan

/-!
# Reading JSON

A text is cut into tokens, and the tokens are put together by a stack of open arrays and objects.
Nesting is limited.  Integers that fit into 64 bits are kept, other numbers become binary fractions.
-/

namespace ApiGateway.Json

inductive Token where
  | openArray
  | closeArray
  | openObject
  | closeObject
  | comma
  | colon
  | value (json : Json)

/-! ## Numbers -/

def isDigit (c : Char) : Bool :=
  '0' ≤ c && c ≤ '9'

def digitValue (c : Char) : Nat :=
  c.toNat - 48

def naturalLimit : Nat := Nat.pow 2 64

/-- A significand of 64 bits and the power of ten it is to be multiplied by.  Digits that do not fit
into the significand are dropped. -/
structure Scaled where
  significand : Nat
  exponent : Int

/-- Digits before the point.  Once one does not fit, those that follow only scale. -/
def integerDigits : Scaled → Bool → List Char → Scaled × Bool
  | scaled, full, [] => (scaled, full)
  | scaled, full, c :: rest =>
    let next := scaled.significand * 10 + digitValue c
    if full ∨ naturalLimit ≤ next then
      integerDigits { scaled with exponent := scaled.exponent + 1 } true rest
    else integerDigits { scaled with significand := next } false rest

/-- Digits behind the point; from the first that does not fit they are dropped. -/
def fractionDigits : Scaled → List Char → Scaled
  | scaled, [] => scaled
  | scaled, c :: rest =>
    let next := scaled.significand * 10 + digitValue c
    if naturalLimit ≤ next then scaled else fractionDigits ⟨next, scaled.exponent - 1⟩ rest

/-- The greatest power of ten of the format. -/
def greatestPower : Nat := 308

def powerOfTen (exponent : Nat) : Float :=
  Float.ofScientific 1 false exponent

/-- Divide by the greatest power of ten as often as it takes to reach an exponent of the format. -/
def scaleDown : Nat → Float → Nat → Float
  | 0, value, _ => value
  | fuel + 1, value, exponent =>
    if exponent ≤ greatestPower then value / powerOfTen exponent
    else if value == 0.0 then value
    else scaleDown fuel (value / powerOfTen greatestPower) (exponent - greatestPower)

/-- The magnitude of a scaled significand, unless it is too great for the format. -/
def Scaled.magnitude? (scaled : Scaled) : Option Float :=
  let value := scaled.significand.toUInt64.toFloat
  if scaled.exponent < 0 then
    some (scaleDown 8 value (Nat.min (-scaled.exponent).toNat 2000))
  else if (greatestPower : Int) < scaled.exponent then
    if value == 0.0 then some value else none
  else
    let scaledValue := value * powerOfTen scaled.exponent.toNat
    if scaledValue.isInf then none else some scaledValue

def ofScaled? (negated : Bool) (scaled : Scaled) : Option Json :=
  scaled.magnitude?.map fun value => .fraction (.ofFloat (if negated then -value else value))

/-- The value of decimal digits. -/
def naturalOf (digits : List Char) : Nat :=
  digits.foldl (fun value c => value * 10 + digitValue c) 0

/-- The exponent part of a number, if the text starts with one. -/
def exponentPart? : List Char → Option (Int × List Char)
  | c :: rest =>
    if c = 'e' ∨ c = 'E' then
      let (sign, rest) : Int × List Char := match rest with
        | '+' :: rest => (1, rest)
        | '-' :: rest => (-1, rest)
        | rest => (1, rest)
      match rest.takeWhile isDigit with
      | [] => none
      | digits => some (sign * naturalOf digits, rest.dropWhile isDigit)
    else some (0, c :: rest)
  | [] => some (0, [])

/-- The number of an unsigned text; `negated` tells that a minus sign stood before it. -/
def unsigned? (negated : Bool) (text : List Char) : Option Json :=
  let digits := text.takeWhile isDigit
  let rest := text.dropWhile isDigit
  let (scaled, full) := integerDigits ⟨0, 0⟩ false digits
  let power? (scaled : Scaled) (rest : List Char) : Option Json :=
    match exponentPart? rest with
    | some (exponent, []) => ofScaled? negated { scaled with exponent := scaled.exponent + exponent }
    | _ => none
  if digits = [] ∨ (digits.head? = some '0' ∧ 1 < digits.length) then none
  else match rest with
    | '.' :: rest =>
      match rest.takeWhile isDigit with
      | [] => none
      | places => power? (fractionDigits scaled places) (rest.dropWhile isDigit)
    | _ :: _ => power? scaled rest
    | [] =>
      if full then ofScaled? negated scaled
      else if !negated then some (.natural scaled.significand)
      else if 0 < scaled.significand ∧ scaled.significand ≤ Nat.pow 2 63 then
        some (.negative scaled.significand)
      else ofScaled? true scaled

def number? : List Char → Option Json
  | '-' :: text => unsigned? true text
  | text => unsigned? false text

/-- Characters of numbers. -/
def isNumeric (c : Char) : Bool :=
  isDigit c || c == '-' || c == '+' || c == '.' || c == 'e' || c == 'E'

/-! ## Strings -/

def hexValue? (c : Char) : Option Nat :=
  if '0' ≤ c ∧ c ≤ '9' then some (c.toNat - 48)
  else if 'a' ≤ c ∧ c ≤ 'f' then some (c.toNat - 87)
  else if 'A' ≤ c ∧ c ≤ 'F' then some (c.toNat - 55)
  else none

/-- The value of four hexadecimal digits. -/
def unit? (a b c d : Char) : Option Nat := do
  return (((← hexValue? a) * 16 + (← hexValue? b)) * 16 + (← hexValue? c)) * 16 + (← hexValue? d)

/-- The characters of the one-letter escapes. -/
def shortEscape? : Char → Option Char
  | '"' => some '"'
  | '\\' => some '\\'
  | '/' => some '/'
  | 'b' => some '\x08'
  | 'f' => some '\x0c'
  | 'n' => some '\n'
  | 'r' => some '\r'
  | 't' => some '\t'
  | _ => none

/-- Read a string behind its opening quote.  A surrogate has to be followed by its partner. -/
def string? (read : List Char) (text : List Char) : Option (String × List Char) :=
  match text with
  | '\\' :: 'u' :: a :: b :: c :: d :: rest =>
    match unit? a b c d with
    | none => none
    | some unit =>
      if 0xD800 ≤ unit ∧ unit < 0xDC00 then
        match rest with
        | '\\' :: 'u' :: e :: f :: g :: h :: rest =>
          match unit? e f g h with
          | some low =>
            if 0xDC00 ≤ low ∧ low < 0xE000 then
              string? (Char.ofNat (0x10000 + (unit - 0xD800) * 0x400 + (low - 0xDC00)) :: read) rest
            else none
          | none => none
        | _ => none
      else if 0xDC00 ≤ unit ∧ unit < 0xE000 then none
      else string? (Char.ofNat unit :: read) rest
  | '\\' :: c :: rest =>
    match shortEscape? c with
    | some c => string? (c :: read) rest
    | none => none
  | '"' :: rest => some (.ofList read.reverse, rest)
  | c :: rest => if c.toNat < 32 ∨ c = '\\' then none else string? (c :: read) rest
  | [] => none
termination_by text.length

theorem string?_length {read text rest : List Char} {value : String}
    (hfound : string? read text = some (value, rest)) : rest.length < text.length := by
  fun_induction string? read text <;> simp_all <;> grind

/-! ## Tokens -/

def isBlank (c : Char) : Bool :=
  c == ' ' || c == '\n' || c == '\r' || c == '\t'

def isLetter (c : Char) : Bool :=
  'a' ≤ c && c ≤ 'z'

def keyword? (word : List Char) : Option Json :=
  match String.ofList word with
  | "null" => some .null
  | "true" => some (.bool true)
  | "false" => some (.bool false)
  | _ => none

def mark? : Char → Option Token
  | '[' => some .openArray
  | ']' => some .closeArray
  | '\x7b' => some .openObject
  | '\x7d' => some .closeObject
  | ',' => some .comma
  | ':' => some .colon
  | _ => none

theorem length_dropWhile_le (keep : Char → Bool) (text : List Char) :
    (text.dropWhile keep).length ≤ text.length :=
  (List.dropWhile_suffix keep).length_le

/-- Cut a text into tokens. -/
def tokens? (text : List Char) : Option (List Token) :=
  match text with
  | [] => some []
  | c :: rest =>
    if isBlank c then tokens? rest
    else if c = '"' then
      match _read : string? [] rest with
      | some (value, after) => (tokens? after).map (.value (.string value) :: ·)
      | none => none
    else if isLetter c then
      match keyword? (c :: rest.takeWhile isLetter) with
      | some value => (tokens? (rest.dropWhile isLetter)).map (.value value :: ·)
      | none => none
    else match mark? c with
      | some token => (tokens? rest).map (token :: ·)
      | none =>
        match number? (c :: rest.takeWhile isNumeric) with
        | some value => (tokens? (rest.dropWhile isNumeric)).map (.value value :: ·)
        | none => none
termination_by text.length
decreasing_by
  all_goals simp only [List.length_cons]
  · omega
  · have := string?_length _read; omega
  · have := length_dropWhile_le isLetter rest; omega
  · omega
  · have := length_dropWhile_le isNumeric rest; omega

/-! ## Nesting -/

/-- An open array or object with what has been read of it, the last first. -/
inductive Frame where
  | array (items : List Json)
  | object (members : List (String × Json))
  | named (members : List (String × Json)) (name : String)

/-- What may come next. -/
inductive Expect where
  /-- A value, or the end of an array that has just been opened. -/
  | valueOrClose
  | value
  /-- A name, or the end of an object that has just been opened. -/
  | nameOrClose
  | name
  | colon
  /-- A comma or the end of what is open. -/
  | next
  | done

structure Progress where
  open_ : List Frame
  expect : Expect
  result : Json

/-- How deeply arrays and objects may nest. -/
def depthLimit : Nat := 127

/-- Hand a complete value to what is open. -/
def Progress.complete (frames : List Frame) (value : Json) : Option Progress :=
  match frames with
  | [] => some ⟨[], .done, value⟩
  | .array items :: outer => some ⟨.array (value :: items) :: outer, .next, .null⟩
  | .named members name :: outer => some ⟨.object ((name, value) :: members) :: outer, .next, .null⟩
  | .object _ :: _ => none

def Progress.push (progress : Progress) (frame : Frame) (expect : Expect) : Option Progress :=
  if progress.open_.length < depthLimit then some ⟨frame :: progress.open_, expect, .null⟩ else none

def Progress.step (progress : Progress) (token : Token) : Option Progress :=
  match progress.expect, token, progress.open_ with
  | .valueOrClose, .closeArray, .array items :: outer
  | .next, .closeArray, .array items :: outer => complete outer (.array items.reverse)
  | .nameOrClose, .closeObject, .object members :: outer
  | .next, .closeObject, .object members :: outer => complete outer (.object members.reverse)
  | .valueOrClose, .value json, frames | .value, .value json, frames => complete frames json
  | .valueOrClose, .openArray, _ | .value, .openArray, _ => progress.push (.array []) .valueOrClose
  | .valueOrClose, .openObject, _ | .value, .openObject, _ => progress.push (.object []) .nameOrClose
  | .nameOrClose, .value (.string name), .object members :: outer
  | .name, .value (.string name), .object members :: outer =>
    some ⟨.named members name :: outer, .colon, .null⟩
  | .colon, .colon, frames => some ⟨frames, .value, .null⟩
  | .next, .comma, .array items :: outer => some ⟨.array items :: outer, .value, .null⟩
  | .next, .comma, .object members :: outer => some ⟨.object members :: outer, .name, .null⟩
  | _, _, _ => none

/-- Read a text that is one value, with the members of objects as they stand. -/
def readRaw? (text : List Char) : Option Json :=
  match (tokens? text).bind (·.foldlM Progress.step ⟨[], .value, .null⟩) with
  | some ⟨_, .done, value⟩ => some value
  | _ => none

mutual

/-- Bring the members of all objects into order; of members of one name the last counts. -/
def normal : Json → Json
  | .array items => .array (normalItems items)
  | .object members => ofMembers (normalMembers members)
  | value => value

def normalItems : List Json → List Json
  | [] => []
  | item :: rest => item.normal :: normalItems rest

def normalMembers : List (String × Json) → List (String × Json)
  | [] => []
  | (name, value) :: rest => (name, value.normal) :: normalMembers rest

end

/-- Read a text that is one value. -/
def read? (text : List Char) : Option Json :=
  (readRaw? text).map normal

end ApiGateway.Json
