/-!
# UTF-8

Writing characters as bytes and reading bytes back.  What is no character is read as the replacement
character, once for each longest beginning of a character.
-/

namespace ApiGateway.Text

def utf8 (text : List Char) : List UInt8 :=
  text.flatMap String.utf8EncodeChar

/-- Read bytes as continuation bytes of a character of which `value` is known so far; the first has to
lie between `low` and `high`.  The result is the code point, if all were there, and the rest. -/
def continuation (value : Nat) (low high : UInt8) : Nat → List UInt8 → Option Nat × List UInt8
  | 0, bytes => (some value, bytes)
  | _ + 1, [] => (none, [])
  | count + 1, byte :: bytes =>
    if low ≤ byte ∧ byte ≤ high then
      continuation (value * 64 + (byte.toNat - 0x80)) 0x80 0xBF count bytes
    else (none, byte :: bytes)

theorem continuation_length (value : Nat) (low high : UInt8) (count : Nat) (bytes : List UInt8) :
    (continuation value low high count bytes).2.length ≤ bytes.length := by
  fun_induction continuation value low high count bytes with
  | case1 => simp
  | case2 => simp
  | case3 value low high count byte bytes hinside ih => simp only [List.length_cons]; omega
  | case4 => simp

/-- The character that starts with a given byte, if it is complete, and the rest. -/
def decodeOne (byte : UInt8) (bytes : List UInt8) : Option Nat × List UInt8 :=
  if byte < 0x80 then (some byte.toNat, bytes)
  else if byte < 0xC2 then (none, bytes)
  else if byte < 0xE0 then continuation (byte.toNat - 0xC0) 0x80 0xBF 1 bytes
  else if byte < 0xF0 then
    continuation (byte.toNat - 0xE0) (if byte = 0xE0 then 0xA0 else 0x80)
      (if byte = 0xED then 0x9F else 0xBF) 2 bytes
  else if byte < 0xF5 then
    continuation (byte.toNat - 0xF0) (if byte = 0xF0 then 0x90 else 0x80)
      (if byte = 0xF4 then 0x8F else 0xBF) 3 bytes
  else (none, bytes)

theorem decodeOne_length (byte : UInt8) (bytes : List UInt8) :
    (decodeOne byte bytes).2.length ≤ bytes.length := by
  simp only [decodeOne]
  split
  · simp
  split
  · simp
  split
  · exact continuation_length ..
  split
  · exact continuation_length ..
  split
  · exact continuation_length ..
  · simp

/-- The characters of the bytes, `none` where there is no character. -/
def decodeParts : List UInt8 → List (Option Char)
  | [] => []
  | byte :: bytes =>
    match _read : decodeOne byte bytes with
    | (code, rest) => code.map Char.ofNat :: decodeParts rest
termination_by bytes => bytes.length
decreasing_by
  have := decodeOne_length byte bytes
  rw [_read] at this
  simp only [List.length_cons] at *
  omega

/-- The text of the bytes, if they are UTF-8 throughout. -/
def ofUtf8? (bytes : List UInt8) : Option (List Char) :=
  (decodeParts bytes).mapM id

/-- The text of the bytes, with the replacement character for all that is none. -/
def ofUtf8 (bytes : List UInt8) : List Char :=
  (decodeParts bytes).map (·.getD '\uFFFD')

end ApiGateway.Text
