import ApiGateway.Text.Scan

/-!
# Internet addresses

Addresses of the fourth version are numbers of 32 bits, those of the sixth eight numbers of 16 bits.
-/

namespace ApiGateway.Net

def isDecimal (c : Char) : Bool :=
  '0' ≤ c && c ≤ '9'

def hexValue? (c : Char) : Option Nat :=
  if '0' ≤ c ∧ c ≤ '9' then some (c.toNat - 48)
  else if 'a' ≤ c ∧ c ≤ 'f' then some (c.toNat - 87)
  else if 'A' ≤ c ∧ c ≤ 'F' then some (c.toNat - 55)
  else none

def isHex (c : Char) : Bool :=
  (hexValue? c).isSome

/-- The value of digits to a base, all other characters counting nothing. -/
def valueOf (base : Nat) (digits : List Char) : Nat :=
  digits.foldl (fun value c => value * base + (hexValue? c).getD 0) 0

/-- The four numbers of an address, with dots between. -/
def v4Text (address : Nat) : String :=
  Text.join "." <| [address / Nat.pow 2 24, address / Nat.pow 2 16 % 256, address / Nat.pow 2 8 % 256,
    address % 256].map toString

def hexText (value : Nat) : String :=
  .ofList (Nat.toDigits 16 value)

/-- The length of the run of zeros at the beginning. -/
def zeroRun (pieces : List Nat) : Nat :=
  (pieces.takeWhile (· == 0)).length

/-- Start and length of the first longest run of zeros, among runs that start at `position` or later. -/
def longestZeroRun (position : Nat) : List Nat → Nat × Nat
  | [] => (position, 0)
  | piece :: rest =>
    let here := zeroRun (piece :: rest)
    let (start, length) := longestZeroRun (position + 1) rest
    if length ≤ here then (position, here) else (start, length)

/-- The pieces in hexadecimal, the longest run of at least two zeros as a double colon. -/
def v6Text (pieces : List Nat) : String :=
  let (start, length) := longestZeroRun 0 pieces
  if length < 2 then Text.join ":" (pieces.map hexText)
  else
    Text.join ":" ((pieces.take start).map hexText) ++ "::" ++
      Text.join ":" ((pieces.drop (start + length)).map hexText)

end ApiGateway.Net
