import ApiGateway.Net.Ip
import ApiGateway.Text.Case
import ApiGateway.Text.Percent
import ApiGateway.Url.Punycode

/-!
# Hosts

A host is a domain or an address.  Domains are brought to their ASCII form: letters become small, and
labels with other characters are written in Punycode.  A domain whose last label reads as a number is
an address of the fourth version.
-/

namespace ApiGateway.Url

inductive Problem where
  | emptyHost
  | invalidDomain
  | invalidPort
  | invalidIpv4
  | invalidIpv6
  | invalidHostCharacter
  | relative
  deriving DecidableEq, Repr

def Problem.message : Problem → String
  | .emptyHost => "empty host"
  | .invalidDomain => "invalid international domain name"
  | .invalidPort => "invalid port number"
  | .invalidIpv4 => "invalid IPv4 address"
  | .invalidIpv6 => "invalid IPv6 address"
  | .invalidHostCharacter => "invalid domain character"
  | .relative => "relative URL without a base"

inductive Host where
  | domain (name : List Char)
  | v4 (address : Nat)
  | v6 (pieces : List Nat)
  deriving DecidableEq, Repr

namespace Host

def text : Host → String
  | domain name => .ofList name
  | v4 address => Net.v4Text address
  | v6 pieces => "[" ++ Net.v6Text pieces ++ "]"

/-! ## Addresses of the fourth version -/

/-- A part of an address: decimal, octal behind a zero, or hexadecimal behind `0x`.  The inner result
is absent if the number does not fit into 32 bits. -/
def number? (text : List Char) : Option (Option Nat) :=
  let fits (value : Nat) : Option Nat := if value < Nat.pow 2 32 then some value else none
  match text with
  | [] => none
  | '0' :: 'x' :: rest | '0' :: 'X' :: rest =>
    if rest.all Net.isHex then some (fits (Net.valueOf 16 rest)) else none
  | '0' :: c :: rest =>
    if (c :: rest).all fun d => '0' ≤ d && d ≤ '7' then some (fits (Net.valueOf 8 (c :: rest)))
    else none
  | digits => if digits.all Net.isDecimal then some (fits (Net.valueOf 10 digits)) else none

/-- The parts of a domain, without the empty one behind a final dot. -/
def labels (name : List Char) : List (List Char) :=
  match (Text.splitAll '.' name).reverse with
  | [] :: rest => rest.reverse
  | parts => parts.reverse

/-- The last label is all digits or reads as a number. -/
def endsInNumber (name : List Char) : Bool :=
  match (labels name).getLast? with
  | none => false
  | some [] => false
  | some last => last.all Net.isDecimal || (number? last).isSome

/-- The address of up to four parts; the last part fills all that the others leave. -/
def v4? (name : List Char) : Option Nat := do
  let numbers ← (labels name).mapM fun part => (number? part).join
  match numbers.reverse with
  | [] => none
  | last :: front =>
    if 3 < front.length ∨ front.any (255 < ·) ∨ Nat.pow 256 (4 - front.length) ≤ last then none
    else some (front.reverse.foldr (fun part high => part * Nat.pow 2 24 + high / 256) 0 + last)

/-! ## Addresses of the sixth version -/

structure Pieces where
  read : List Nat := []
  /-- How many pieces stood before the double colon. -/
  gap : Option Nat := none

/-- How many pieces are taken; the double colon takes at least one. -/
def Pieces.taken (pieces : Pieces) : Nat :=
  pieces.read.length + (if pieces.gap.isSome then 1 else 0)

/-- The four numbers at the end, each without leading zeros. -/
def embedded? (text : List Char) : Option (List Nat) := do
  let parts := Text.splitAll '.' text
  let numbers ← parts.mapM fun part =>
    if part = [] ∨ !part.all Net.isDecimal ∨ (part.head? = some '0' ∧ 1 < part.length) ∨
      255 < Net.valueOf 10 part then none
    else some (Net.valueOf 10 part)
  match numbers with
  | [a, b, c, d] => some [a * 256 + b, c * 256 + d]
  | _ => none

/-- Read pieces from where one has to start. -/
def readPieces : Nat → Pieces → List Char → Option Pieces
  | 0, _, _ => none
  | fuel + 1, pieces, text =>
    if text = [] then some pieces
    else if pieces.taken = 8 then none
    else
      let digits := (text.takeWhile Net.isHex).take 4
      let next := { pieces with read := pieces.read ++ [Net.valueOf 16 digits] }
      match text.drop digits.length with
      | '.' :: _ =>
        if digits = [] ∨ 6 < pieces.taken then none
        else (embedded? text).map fun last => { pieces with read := pieces.read ++ last }
      | [] => some next
      | ':' :: rest =>
        if digits = [] then
          if pieces.gap.isSome then none
          else readPieces fuel { pieces with gap := some pieces.read.length } rest
        else
          match rest with
          | [] => none
          | rest => readPieces fuel next rest
      | _ => none

def v6? (text : List Char) : Option (List Nat) :=
  let start : Option (Pieces × List Char) :=
    match text with
    | ':' :: ':' :: rest => some ({ gap := some 0 }, rest)
    | ':' :: _ => none
    | text => some ({}, text)
  match start.bind fun (pieces, rest) => readPieces (text.length + 1) pieces rest with
  | none => none
  | some ⟨read, none⟩ => if read.length = 8 then some read else none
  | some ⟨read, some gap⟩ =>
    some (read.take gap ++ List.replicate (8 - read.length) 0 ++ read.drop gap)

/-! ## Domains -/

/-- Characters that no domain may have. -/
def isForbidden (c : Char) : Bool :=
  c.toNat ≤ 32 || c.toNat == 127 || "%#/:<>?@[\\]^|".toList.contains c

/-- What a character of a domain stands for. -/
def mapped (c : Char) : List Char :=
  if c = '\u3002' ∨ c = '\uFF0E' ∨ c = '\uFF61' then ['.']
  else if 0xFF01 ≤ c.toNat ∧ c.toNat ≤ 0xFF5E then [(Char.ofNat (c.toNat - 0xFEE0)).toLower]
  else if c = '\u00AD' ∨ c = '\u200B' ∨ c = '\u2060' ∨ c = '\uFEFF' then []
  else [Text.lowerChar c]

/-- A label in ASCII, unless it claims to be Punycode and is not. -/
def asciiLabel? (label : List Char) : Option (List Char) :=
  match label with
  | 'x' :: 'n' :: '-' :: '-' :: code =>
    match Punycode.decode? code with
    | some decoded => if decoded.any (128 ≤ ·.toNat) then some label else none
    | none => none
  | label =>
    if label.any (128 ≤ ·.toNat) then some ("xn--".toList ++ Punycode.encode label) else some label

def asciiDomain? (name : List Char) : Option (List Char) := do
  let labels ← (Text.splitAll '.' (name.flatMap mapped)).mapM asciiLabel?
  let domain := ['.'].intercalate labels
  if domain.any isForbidden then none else some domain

/-! ## Reading -/

/-- The text between brackets, if the host is one in brackets. -/
def bracketed? (text : List Char) : Option (Except Problem (List Char)) :=
  match text with
  | '[' :: rest =>
    match Text.stripEnd? [']'] rest with
    | some inner => some (.ok inner)
    | none => some (.error .invalidIpv6)
  | _ => none

def ofBracketed (inner : Except Problem (List Char)) : Except Problem Host := do
  match v6? (← inner) with
  | some pieces => return .v6 pieces
  | none => .error .invalidIpv6

/-- The host of a scheme that knows domains. -/
def parse (text : List Char) : Except Problem Host :=
  match bracketed? text with
  | some inner => ofBracketed inner
  | none =>
    match (Text.ofUtf8? (Text.Percent.decode (Text.utf8 text))).bind asciiDomain? with
    | none => .error .invalidDomain
    | some [] => .error .emptyHost
    | some name =>
      if endsInNumber name then
        match v4? name with
        | some address => .ok (.v4 address)
        | none => .error .invalidIpv4
      else .ok (.domain name)

/-- The host of any other scheme, which is only escaped. -/
def parseOpaque (text : List Char) : Except Problem Host :=
  match bracketed? text with
  | some inner => ofBracketed inner
  | none =>
    if text.any fun c => "\x00\t\n\r #/:<>?@[\\]^|".toList.contains c then
      .error .invalidHostCharacter
    else .ok (.domain (Text.Percent.encodeBytes (fun byte => 32 ≤ byte && byte < 127) (Text.utf8 text)))

end Host

end ApiGateway.Url
