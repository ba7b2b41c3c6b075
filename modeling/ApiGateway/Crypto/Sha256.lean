/-!
# The hash SHA-256

A message is padded to blocks of 64 bytes, and each block is mixed into a state of eight words.
-/

namespace ApiGateway.Crypto

namespace Sha256

abbrev State := List UInt32

/-- The fractions of the square roots of the first eight primes. -/
def initial : State :=
  [0x6a09e667, 0xbb67ae85, 0x3c6ef372, 0xa54ff53a, 0x510e527f, 0x9b05688c, 0x1f83d9ab, 0x5be0cd19]

/-- The fractions of the cube roots of the first 64 primes. -/
def constants : List UInt32 :=
  [ 0x428a2f98, 0x71374491, 0xb5c0fbcf, 0xe9b5dba5, 0x3956c25b, 0x59f111f1, 0x923f82a4, 0xab1c5ed5,
    0xd807aa98, 0x12835b01, 0x243185be, 0x550c7dc3, 0x72be5d74, 0x80deb1fe, 0x9bdc06a7, 0xc19bf174,
    0xe49b69c1, 0xefbe4786, 0x0fc19dc6, 0x240ca1cc, 0x2de92c6f, 0x4a7484aa, 0x5cb0a9dc, 0x76f988da,
    0x983e5152, 0xa831c66d, 0xb00327c8, 0xbf597fc7, 0xc6e00bf3, 0xd5a79147, 0x06ca6351, 0x14292967,
    0x27b70a85, 0x2e1b2138, 0x4d2c6dfc, 0x53380d13, 0x650a7354, 0x766a0abb, 0x81c2c92e, 0x92722c85,
    0xa2bfe8a1, 0xa81a664b, 0xc24b8b70, 0xc76c51a3, 0xd192e819, 0xd6990624, 0xf40e3585, 0x106aa070,
    0x19a4c116, 0x1e376c08, 0x2748774c, 0x34b0bcb5, 0x391c0cb3, 0x4ed8aa4a, 0x5b9cca4f, 0x682e6ff3,
    0x748f82ee, 0x78a5636f, 0x84c87814, 0x8cc70208, 0x90befffa, 0xa4506ceb, 0xbef9a3f7, 0xc67178f2 ]

def rotate (word amount : UInt32) : UInt32 :=
  (word >>> amount) ||| (word <<< (32 - amount))

/-- A number as bytes, the highest first. -/
def bytesOf (value : Nat) : Nat → List UInt8
  | 0 => []
  | count + 1 => bytesOf (value / 256) count ++ [(value % 256).toUInt8]

/-- The message, a one bit, zeros to the end of a block less eight bytes, and the length in bits. -/
def pad (message : List UInt8) : List UInt8 :=
  message ++ 0x80 :: List.replicate ((119 - message.length % 64) % 64) 0 ++
    bytesOf (message.length * 8) 8

def wordOf (bytes : List UInt8) : UInt32 :=
  bytes.foldl (fun word byte => (word <<< 8) ||| byte.toUInt32) 0

/-- Cut into pieces of a length; a shorter rest is a piece of its own. -/
def chunks (size : Nat) (bytes : List UInt8) : List (List UInt8) :=
  if size = 0 ∨ bytes = [] then [] else bytes.take size :: chunks size (bytes.drop size)
termination_by bytes.length
decreasing_by
  rename_i more
  have : bytes.length ≠ 0 := fun empty => more (Or.inr (List.length_eq_zero_iff.1 empty))
  simp only [List.length_drop]
  omega

/-- Add words to a schedule, which is kept with the last word first. -/
def extend : Nat → List UInt32 → List UInt32
  | 0, schedule => schedule
  | count + 1, schedule =>
    let recent := fun back => schedule.getD (back - 1) 0
    let small0 := rotate (recent 15) 7 ^^^ rotate (recent 15) 18 ^^^ (recent 15 >>> 3)
    let small1 := rotate (recent 2) 17 ^^^ rotate (recent 2) 19 ^^^ (recent 2 >>> 10)
    extend count ((recent 16 + small0 + recent 7 + small1) :: schedule)

def round (state : State) (constant word : UInt32) : State :=
  match state with
  | [a, b, c, d, e, f, g, h] =>
    let big1 := rotate e 6 ^^^ rotate e 11 ^^^ rotate e 25
    let choice := (e &&& f) ^^^ ((~~~ e) &&& g)
    let first := h + big1 + choice + constant + word
    let big0 := rotate a 2 ^^^ rotate a 13 ^^^ rotate a 22
    let majority := (a &&& b) ^^^ (a &&& c) ^^^ (b &&& c)
    [first + big0 + majority, a, b, c, d + first, e, f, g]
  | other => other

def mix (state : State) (block : List UInt8) : State :=
  let schedule := (extend 48 ((chunks 4 block).map wordOf).reverse).reverse
  let mixed := (constants.zip schedule).foldl (fun state (constant, word) => round state constant word)
    state
  List.zipWith (· + ·) state mixed

end Sha256

def sha256 (message : List UInt8) : List UInt8 :=
  ((Sha256.chunks 64 (Sha256.pad message)).foldl Sha256.mix Sha256.initial).flatMap
    fun word => Sha256.bytesOf word.toNat 4

/-- A key of one block, a longer key being hashed first. -/
def blockKey (key : List UInt8) : List UInt8 :=
  let key := if 64 < key.length then sha256 key else key
  key ++ List.replicate (64 - key.length) 0

/-- The keyed hash of a message. -/
def hmac (key message : List UInt8) : List UInt8 :=
  let inner := (blockKey key).map (· ^^^ 0x36)
  let outer := (blockKey key).map (· ^^^ 0x5C)
  sha256 (outer ++ sha256 (inner ++ message))

end ApiGateway.Crypto
