/-!
# Binary floating-point numbers

A number of the 64-bit format is its bits.  It is written as the shortest decimal that reads back as
the same number; of two such decimals the nearer one is taken, and an exact tie goes to the even digit.
-/

namespace ApiGateway.Decimal

structure Binary64 where
  bits : UInt64
  deriving DecidableEq, Inhabited, Repr

namespace Binary64

def ofFloat (value : Float) : Binary64 :=
  ⟨value.toBits⟩

def toFloat (number : Binary64) : Float :=
  Float.ofBits number.bits

/-- The number nearest to `digits * 10 ^ exponent`, unless that is too great for the format. -/
def ofDecimal? (negated : Bool) (digits : Nat) (exponent : Int) : Option Binary64 :=
  let places : Int := (Nat.toDigits 10 digits).length + exponent
  let magnitude? : Option Float :=
    if digits = 0 ∨ places < -400 then some 0.0
    else if 400 < places then none
    else
      let value := Float.ofScientific digits (exponent < 0) exponent.natAbs
      if value.isInf then none else some value
  magnitude?.map fun magnitude => ofFloat (if negated then -magnitude else magnitude)

def isNegative (number : Binary64) : Bool :=
  number.bits ≥ 0x8000000000000000

def biasedExponent (number : Binary64) : Nat :=
  (number.bits.toNat / Nat.pow 2 52) % Nat.pow 2 11

def fraction (number : Binary64) : Nat :=
  number.bits.toNat % Nat.pow 2 52

/-- Neither an infinity nor a NaN. -/
def isFinite (number : Binary64) : Bool :=
  number.biasedExponent != 2047

/-- The magnitude as a numerator and a power of two by which to multiply it. -/
def magnitude (number : Binary64) : Nat × Int :=
  if number.biasedExponent = 0 then (number.fraction, -1074)
  else (number.fraction + Nat.pow 2 52, (number.biasedExponent : Int) - 1075)

/-- The part before the point of a finite magnitude. -/
def floor (number : Binary64) : Nat :=
  let (numerator, power) := number.magnitude
  if 0 ≤ power then numerator * Nat.pow 2 power.toNat else numerator / Nat.pow 2 (-power).toNat

/-- A closed or open interval of fractions around a number, all with one denominator. -/
structure Around where
  low : Nat
  value : Nat
  high : Nat
  denominator : Nat
  closed : Bool

/-- The numbers that round to this one. -/
def around (number : Binary64) : Around :=
  let (numerator, power) := number.magnitude
  -- The gap below is half as wide at a power of two.
  let narrow := number.fraction = 0 ∧ 1 < number.biasedExponent
  let low := if narrow then 4 * numerator - 1 else 4 * numerator - 2
  let scale := if 0 ≤ power then Nat.pow 2 power.toNat else 1
  let denominator := if 0 ≤ power then 4 else 4 * Nat.pow 2 (-power).toNat
  ⟨low * scale, 4 * numerator * scale, (4 * numerator + 2) * scale, denominator,
    numerator % 2 == 0⟩

/-- The decimal `digits * 10 ^ exponent` lies in the interval. -/
def Around.holds (interval : Around) (digits : Nat) (exponent : Int) : Bool :=
  let scaled := digits * (if 0 ≤ exponent then Nat.pow 10 exponent.toNat else 1) * interval.denominator
  let unit := if 0 ≤ exponent then 1 else Nat.pow 10 (-exponent).toNat
  if interval.closed then interval.low * unit ≤ scaled && scaled ≤ interval.high * unit
  else interval.low * unit < scaled && scaled < interval.high * unit

/-- The multiple of a power of ten next to the number that lies in the interval and is nearest. -/
def Around.nearest? (interval : Around) (exponent : Int) : Option Nat :=
  let unit := interval.denominator * (if 0 ≤ exponent then Nat.pow 10 exponent.toNat else 1)
  let value := interval.value * (if 0 ≤ exponent then 1 else Nat.pow 10 (-exponent).toNat)
  let below := value / unit
  let rest := value % unit
  let upFirst := unit < 2 * rest || (2 * rest == unit && below % 2 == 1)
  let (first, second) := if upFirst then (below + 1, below) else (below, below + 1)
  if interval.holds first exponent then some first
  else if interval.holds second exponent then some second
  else none

/-- How many decimal places a number has before its point. -/
def decimalPlaces (value : Nat) : Nat :=
  if value = 0 then 0 else (Nat.toDigits 10 value).length

/-- The exponent of the leading digit plus one, estimated within one. -/
def Around.leading (interval : Around) : Int :=
  if interval.denominator ≤ interval.value then
    (decimalPlaces (interval.value / interval.denominator) : Int)
  else 1 - (decimalPlaces (interval.denominator / interval.value) : Int)

/-- Digits and exponent of the shortest decimal, looked for with growing precision. -/
def Around.shortest (interval : Around) (leading : Int) : Nat → Nat → Nat × Int
  | 0, _ => (0, 0)
  | fuel + 1, precision =>
    let exponent := leading - (precision : Int)
    match interval.nearest? exponent with
    | some 0 => interval.shortest leading fuel (precision + 1)
    | some digits => (digits, exponent)
    | none => interval.shortest leading fuel (precision + 1)

/-- Digits and exponent without trailing zeros. -/
def stripZeros : Nat → Nat → Int → Nat × Int
  | 0, digits, exponent => (digits, exponent)
  | fuel + 1, digits, exponent =>
    if digits ≠ 0 ∧ digits % 10 = 0 then stripZeros fuel (digits / 10) (exponent + 1)
    else (digits, exponent)

/-- The text of a finite number, in scientific notation or with a point. -/
def text (number : Binary64) : String :=
  let sign := if number.isNegative then "-" else ""
  if number.magnitude.1 = 0 then sign ++ "0.0"
  else
    let interval := number.around
    let (digits, exponent) := interval.shortest interval.leading 20 0
    let (digits, exponent) := stripZeros 400 digits exponent
    sign ++ toString digits ++ (if exponent = 0 then ".0" else "e" ++ toString exponent)

end Binary64

end ApiGateway.Decimal
