/-!
# Punycode

Labels with characters outside ASCII are written as their ASCII characters followed by the others,
which are told by their distances in a number system of base 36 with adapting thresholds.
-/

namespace ApiGateway.Url.Punycode

def digitChar (digit : Nat) : Char :=
  if digit < 26 then Char.ofNat (97 + digit) else Char.ofNat (22 + digit)

def digitValue? (c : Char) : Option Nat :=
  if 'a' ≤ c ∧ c ≤ 'z' then some (c.toNat - 97)
  else if 'A' ≤ c ∧ c ≤ 'Z' then some (c.toNat - 65)
  else if '0' ≤ c ∧ c ≤ '9' then some (c.toNat - 22)
  else none

/-- The threshold of the digit at a position, counted in steps of 36. -/
def threshold (position bias : Nat) : Nat :=
  if position ≤ bias then 1 else if bias + 26 ≤ position then 26 else position - bias

/-- Divide a distance down to the range of the bias. -/
def scale (delta steps : Nat) : Nat :=
  if 455 < delta then scale (delta / 35) (steps + 36) else steps + 36 * delta / (delta + 38)
termination_by delta
decreasing_by omega

/-- The bias that a distance leads to; the first distance counts less. -/
def adapt (delta count : Nat) (first : Bool) : Nat :=
  let delta := if first then delta / 700 else delta / 2
  scale (delta + delta / count) 0

/-- The digits of a distance; positions grow with every digit. -/
def distanceDigits (bias : Nat) : Nat → Nat → Nat → List Char
  | 0, _, _ => []
  | fuel + 1, position, delta =>
    let t := threshold position bias
    if delta < t then [digitChar delta]
    else digitChar (t + (delta - t) % (36 - t)) ::
      distanceDigits bias fuel (position + 36) ((delta - t) / (36 - t))

structure Encoding where
  delta : Nat
  bias : Nat
  handled : Nat
  basic : Nat
  output : List Char

/-- Pass one character while all of one code point are written. -/
def Encoding.pass (code : Nat) (encoding : Encoding) (c : Char) : Encoding :=
  if c.toNat < code then { encoding with delta := encoding.delta + 1 }
  else if c.toNat = code then
    { encoding with
      delta := 0
      bias := adapt encoding.delta (encoding.handled + 1) (encoding.handled == encoding.basic)
      handled := encoding.handled + 1
      output := encoding.output ++ distanceDigits encoding.bias 64 36 encoding.delta }
  else encoding

/-- Write the characters of the code points in order; `last` is the code point written before. -/
def encodeCodes (text : List Char) : Nat → List Nat → Encoding → Encoding
  | _, [], encoding => encoding
  | last, code :: codes, encoding =>
    let start := { encoding with delta := encoding.delta + (code - last) * (encoding.handled + 1) }
    let passed := text.foldl (Encoding.pass code) start
    encodeCodes text (code + 1) codes { passed with delta := passed.delta + 1 }

def encode (text : List Char) : List Char :=
  let basic := text.filter (·.toNat < 128)
  let codes := ((text.filter (128 ≤ ·.toNat)).map Char.toNat).eraseDups.mergeSort
  let start := if basic = [] then [] else basic ++ ['-']
  (encodeCodes text 128 codes ⟨0, 72, basic.length, basic.length, start⟩).output

structure Decoding where
  code : Nat
  bias : Nat
  /-- The position of the next character. -/
  index : Nat
  /-- The distance read so far, the weight of its next digit, and that digit's position. -/
  distance : Nat
  weight : Nat
  position : Nat
  output : List Char

/-- Take one digit; the last digit of a distance puts a character into the output. -/
def Decoding.take (decoding : Decoding) (c : Char) : Option Decoding := do
  let digit ← digitValue? c
  let distance := decoding.distance + digit * decoding.weight
  let t := threshold decoding.position decoding.bias
  if t ≤ digit then
    return { decoding with
      distance, weight := decoding.weight * (36 - t), position := decoding.position + 36 }
  else
    let count := decoding.output.length + 1
    let index := decoding.index + distance
    let code := decoding.code + index / count
    if 0x110000 ≤ code ∨ (0xD800 ≤ code ∧ code < 0xE000) then none
    else
      return {
        code, bias := adapt distance count (decoding.index == 0 && decoding.code == 128)
        index := index % count + 1, distance := 0, weight := 1, position := 36
        output := decoding.output.take (index % count) ++ Char.ofNat code ::
          decoding.output.drop (index % count) }

/-- What stands before the last hyphen, and what stands after it. -/
def splitLast (text : List Char) : List Char × List Char :=
  let after := (text.reverse.takeWhile (· != '-')).reverse
  if after.length = text.length then ([], text)
  else (text.take (text.length - after.length - 1), after)

def decode? (text : List Char) : Option (List Char) :=
  let (basic, digits) := splitLast text
  match digits.foldlM Decoding.take ⟨128, 72, 0, 0, 1, 36, basic⟩ with
  | some decoding => if decoding.position = 36 then some decoding.output else none
  | none => none

end ApiGateway.Url.Punycode
