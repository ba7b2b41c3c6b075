import ApiGateway.Text.Utf8

/-!
# Percent escapes

Bytes outside the unreserved characters are written as a percent sign and two hexadecimal digits.  A
percent sign that no two digits follow stands for itself.
-/

namespace ApiGateway.Text.Percent

def digitValue? (byte : UInt8) : Option UInt8 :=
  if 48 ≤ byte ∧ byte ≤ 57 then some (byte - 48)
  else if 65 ≤ byte ∧ byte ≤ 70 then some (byte - 55)
  else if 97 ≤ byte ∧ byte ≤ 102 then some (byte - 87)
  else none

/-- The upper-case digit of a value below sixteen. -/
def digit (value : UInt8) : Char :=
  if value < 10 then Char.ofNat (48 + value.toNat) else Char.ofNat (55 + value.toNat)

def escape (byte : UInt8) : List Char :=
  ['%', digit (byte / 16), digit (byte % 16)]

/-- Letters, digits and the four marks that need no escape anywhere. -/
def isUnreserved (byte : UInt8) : Bool :=
  (65 ≤ byte && byte ≤ 90) || (97 ≤ byte && byte ≤ 122) || (48 ≤ byte && byte ≤ 57) ||
    byte == 45 || byte == 46 || byte == 95 || byte == 126

/-- Escape all bytes but the `kept` ones, which are to be ASCII. -/
def encodeBytes (kept : UInt8 → Bool) (bytes : List UInt8) : List Char :=
  bytes.flatMap fun byte => if kept byte then [Char.ofNat byte.toNat] else escape byte

def encode (text : List Char) : List Char :=
  encodeBytes isUnreserved (utf8 text)

/-- Resolve the escapes among bytes. -/
def decode : List UInt8 → List UInt8
  | [] => []
  | byte :: rest =>
    match byte, rest with
    | 37, a :: b :: after =>
      match digitValue? a, digitValue? b with
      | some high, some low => (high * 16 + low) :: decode after
      | _, _ => 37 :: decode (a :: b :: after)
    | byte, rest => byte :: decode rest
termination_by bytes => bytes.length

end ApiGateway.Text.Percent
