import ApiGateway.Net.Ip

/-!
# Socket addresses

An address with a port: four numbers, or pieces in brackets with an optional scope.
-/

namespace ApiGateway.Net

inductive SocketAddress where
  | v4 (address port : Nat)
  | v6 (pieces : List Nat) (scope port : Nat)
  deriving DecidableEq, Repr

namespace SocketAddress

def parseFailure : String := "invalid socket address syntax"

/-- Read digits to a base as a number up to a limit. -/
def number? (base limit : Nat) (accept : Char → Bool) (text : List Char) : Option (Nat × List Char) :=
  let digits := text.takeWhile accept
  let value := valueOf base digits
  if digits = [] ∨ limit < value then none else some (value, text.dropWhile accept)

/-- One of the four numbers, without leading zeros. -/
def octet? (text : List Char) : Option (Nat × List Char) :=
  let digits := text.takeWhile isDecimal
  if digits.head? = some '0' ∧ 1 < digits.length then none else number? 10 255 isDecimal text

def mark? (mark : Char) (text : List Char) : Option (List Char) :=
  match text with
  | c :: rest => if c = mark then some rest else none
  | [] => none

/-- Four numbers with dots between. -/
def v4? (text : List Char) : Option (Nat × List Char) := do
  let (a, rest) ← octet? text
  let (b, rest) ← octet? (← mark? '.' rest)
  let (c, rest) ← octet? (← mark? '.' rest)
  let (d, rest) ← octet? (← mark? '.' rest)
  return (((a * 256 + b) * 256 + c) * 256 + d, rest)

/-- A piece of one to four hexadecimal digits. -/
def piece? (text : List Char) : Option (Nat × List Char) :=
  let digits := (text.takeWhile isHex).take 4
  if digits = [] then none else some (valueOf 16 digits, text.drop digits.length)

/-- Up to `limit` pieces with colons between, the last two possibly as four numbers; also whether they
were, and the rest of the text. -/
def pieces (first : Bool) : Nat → List Char → List Nat × Bool × List Char
  | 0, text => ([], false, text)
  | limit + 1, text =>
    match if first then some text else mark? ':' text with
    | none => ([], false, text)
    | some start =>
      match if 1 ≤ limit then v4? start else none with
      | some (address, rest) => ([address / 65536, address % 65536], true, rest)
      | none =>
        match piece? start with
        | none => ([], false, text)
        | some (piece, rest) =>
          let (more, embedded, rest) := pieces false limit rest
          (piece :: more, embedded, rest)

def v6? (text : List Char) : Option (List Nat × List Char) :=
  match pieces true 8 text with
  | (head, embedded, rest) =>
    if head.length = 8 then some (head, rest)
    else if embedded then none
    else
      match rest with
      | ':' :: ':' :: rest =>
        let (tail, _, rest) := pieces true (7 - head.length) rest
        some (head ++ List.replicate (8 - head.length - tail.length) 0 ++ tail, rest)
      | _ => none

/-- A colon and a port to the end of the text. -/
def port? (text : List Char) : Option Nat := do
  match ← number? 10 65535 isDecimal (← mark? ':' text) with
  | (port, []) => some port
  | _ => none

def scope? (text : List Char) : Option (Nat × List Char) :=
  match text with
  | '%' :: rest => number? 10 (Nat.pow 2 32 - 1) isDecimal rest
  | text => some (0, text)

def parse? (text : String) : Option SocketAddress :=
  match text.toList with
  | '[' :: rest => do
    let (pieces, rest) ← v6? rest
    let (scope, rest) ← scope? rest
    return .v6 pieces scope (← port? (← mark? ']' rest))
  | text => do
    let (address, rest) ← v4? text
    return .v4 address (← port? rest)

/-- The pieces, those of an embedded address of the fourth version with its four numbers. -/
def pieceText (pieces : List Nat) : String :=
  match pieces with
  | [0, 0, 0, 0, 0, 0xFFFF, high, low] => "::ffff:" ++ v4Text (high * 65536 + low)
  | pieces => v6Text pieces

def text : SocketAddress → String
  | v4 address port => v4Text address ++ ":" ++ toString port
  | v6 pieces scope port =>
    "[" ++ pieceText pieces ++ (if scope = 0 then "" else "%" ++ toString scope) ++ "]:" ++
      toString port

/-- The address belongs to this machine. -/
def isLoopback : SocketAddress → Bool
  | v4 address _ => address / Nat.pow 2 24 == 127
  | v6 pieces _ _ => pieces == [0, 0, 0, 0, 0, 0, 0, 1]

end SocketAddress

end ApiGateway.Net
