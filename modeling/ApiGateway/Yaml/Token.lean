import ApiGateway.Text.Utf8
import ApiGateway.Yaml.Scalar

/-!
# Tokens

A text is cut into tokens.  The indentation of blocks appears as tokens that open and close them.  That
a token started a key is known only at the colon behind it; the tokens for it are then put in before
the place where the key started.
-/

namespace ApiGateway.Yaml

inductive Token where
  | version (major minor : Nat)
  | tagDirective (handle lead : String)
  | documentStart
  | documentEnd
  | openBlockSequence
  | openBlockMapping
  | closeBlock
  | openSequence
  | closeSequence
  | openMapping
  | closeMapping
  | item
  | comma
  | key
  | colon
  | alias (name : String)
  | anchor (name : String)
  /-- A tag without a handle has an empty one. -/
  | tag (handle suffix : String)
  | scalar (text : String) (style : Style)
  deriving DecidableEq, Repr

/-- A place where a key without a question mark may have started. -/
structure KeyStart where
  /-- How many tokens stand before it. -/
  tokens : Nat
  /-- What starts here can be nothing but a key. -/
  required : Bool
  index : Nat
  line : Nat
  column : Nat

/-- How far a key may reach. -/
def keyLimit : Nat := 1024

structure Scanner where
  cursor : Cursor
  /-- The tokens so far, the last first. -/
  tokens : List Token := []
  count : Nat := 0
  /-- The columns of the open blocks, the innermost first. -/
  indents : List Nat := []
  /-- One place for each open flow collection, the innermost first, and one for the blocks. -/
  keyStarts : List (Option KeyStart) := [none]
  keyAllowed : Bool := true

namespace Scanner

def inFlow (scanner : Scanner) : Bool :=
  1 < scanner.keyStarts.length

def indent? (scanner : Scanner) : Option Nat :=
  scanner.indents.head?

def moveTo (scanner : Scanner) (cursor : Cursor) : Scanner :=
  { scanner with cursor }

def allowKey (scanner : Scanner) (allowed : Bool) : Scanner :=
  { scanner with keyAllowed := allowed }

def emit (scanner : Scanner) (token : Token) : Scanner :=
  { scanner with tokens := token :: scanner.tokens, count := scanner.count + 1 }

/-- Put a token in behind the first `place` tokens. -/
def emitAt (scanner : Scanner) (place : Nat) (token : Token) : Scanner :=
  let behind := scanner.count - place
  { scanner with
    tokens := scanner.tokens.take behind ++ token :: scanner.tokens.drop behind
    count := scanner.count + 1 }

/-! ## Indentation -/

/-- Close the blocks that are indented deeper than a column. -/
def closeDeeper (scanner : Scanner) (deeper : Nat → Bool) : Scanner :=
  if scanner.inFlow then scanner
  else
    let closed := (scanner.indents.takeWhile deeper).length
    { scanner with
      indents := scanner.indents.drop closed
      tokens := List.replicate closed .closeBlock ++ scanner.tokens
      count := scanner.count + closed }

def closeAll (scanner : Scanner) : Scanner :=
  scanner.closeDeeper fun _ => true

/-- Open a block at a column, unless one is open there. -/
def openBlock (scanner : Scanner) (column place : Nat) (token : Token) : Scanner :=
  if scanner.inFlow ∨ !(scanner.indent?.all (· < column)) then scanner
  else { scanner with indents := column :: scanner.indents }.emitAt place token

/-! ## Places of keys -/

/-- Give up the innermost place, which must not be required. -/
def dropKeyStart (scanner : Scanner) : Option Scanner :=
  match scanner.keyStarts with
  | some start :: outer => if start.required then none else some { scanner with keyStarts := none :: outer }
  | _ => some scanner

/-- Remember that a key may start here. -/
def saveKeyStart (scanner : Scanner) : Option Scanner :=
  if scanner.keyAllowed then
    let cursor := scanner.cursor
    let required := !scanner.inFlow && scanner.indent? == some cursor.column
    (scanner.dropKeyStart).map fun scanner =>
      { scanner with
        keyStarts := some ⟨scanner.count, required, cursor.index, cursor.line, cursor.column⟩ ::
          scanner.keyStarts.tail }
  else some scanner

/-- A key lies on one line and is not too long. -/
def isStale (cursor : Cursor) (start : KeyStart) : Bool :=
  start.line < cursor.line || start.index + keyLimit < cursor.index

/-- What becomes of a place when the cursor has moved on. -/
def refresh (cursor : Cursor) : Option KeyStart → Option (Option KeyStart)
  | some start =>
    if !isStale cursor start then some (some start) else if start.required then none else some none
  | none => some none

/-- Give up the places that a key can no longer have started at. -/
def dropStale (scanner : Scanner) : Option Scanner :=
  (scanner.keyStarts.mapM (refresh scanner.cursor)).map fun keyStarts => { scanner with keyStarts }

/-! ## Between tokens -/

/-- Pass spacing and comments.  Behind a line end of a block, a key may start. -/
def skipSpacing : Nat → Scanner → Scanner
  | 0, scanner => scanner
  | fuel + 1, scanner =>
    let cursor := scanner.cursor
    let cursor := if cursor.index = 0 ∧ cursor.sees (· == '\ufeff') then cursor.advance else cursor
    let cursor := (cursor.skip fun c =>
      c == ' ' || (c == '\t' && (scanner.inFlow || !scanner.keyAllowed))).skipComment
    if cursor.sees isBreak then
      skipSpacing fuel
        { scanner with cursor := cursor.skipBreak, keyAllowed := scanner.keyAllowed || !scanner.inFlow }
    else scanner.moveTo cursor

/-! ## Directives, tags and names -/

/-- A nonempty number of at most nine digits. -/
def number? (cursor : Cursor) : Option (Nat × Cursor) :=
  match cursor.take Json.isDigit with
  | ([], _) => none
  | (digits, cursor) => if digits.length ≤ 9 then some (Json.naturalOf digits, cursor) else none

/-- A word between exclamation marks; the second is left out if it is none. -/
def handle? (isDirective : Bool) (cursor : Cursor) : Option (List Char × Cursor) :=
  if cursor.sees (· == '!') then
    let (word, cursor) := cursor.advance.take isWordChar
    if cursor.sees (· == '!') then some ('!' :: word ++ ['!'], cursor.advance)
    else if isDirective ∧ word ≠ [] then none
    else some ('!' :: word, cursor)
  else none

def isAddressMark (c : Char) : Bool :=
  [';', '/', '?', ':', '@', '&', '=', '+', '$', '.', '!', '~', '*', '\'', '(', ')', '%'].contains c

/-- The characters of a tag's address; some only stand where the address is marked off. -/
def isAddressChar (markedOff : Bool) (c : Char) : Bool :=
  isWordChar c || isAddressMark c || (markedOff && (c == ',' || c == '[' || c == ']'))

/-- Resolve the escapes of an address. -/
def unescape? : List Char → Option (List UInt8)
  | '%' :: a :: b :: rest => do
    let byte := (← Json.hexValue? a) * 16 + (← Json.hexValue? b)
    return byte.toUInt8 :: (← unescape? rest)
  | '%' :: _ => none
  | c :: rest => (unescape? rest).map (Text.utf8 [c] ++ ·)
  | [] => some []

/-- The address of a tag, behind the characters `head` of it. -/
def address? (markedOff : Bool) (head : List Char) (cursor : Cursor) : Option (String × Cursor) :=
  let (taken, cursor) := cursor.take (isAddressChar markedOff)
  if head = [] ∧ taken = [] then none
  else
    match (unescape? taken).bind Text.ofUtf8? with
    | some address => some (.ofList (head.tail ++ address), cursor)
    | none => none

def tag? (inFlow : Bool) (cursor : Cursor) : Option (Token × Cursor) := do
  let (token, cursor) ←
    if cursor.seesText ['!', '<'] then
      let (address, cursor) ← address? true [] (cursor.advanceBy 2)
      if cursor.sees (· == '>') then some (Token.tag "" address, cursor.advance) else none
    else
      let (handle, after) ← handle? false cursor
      if 1 < handle.length ∧ handle.getLast? = some '!' then
        (address? false [] after).map fun (address, cursor) => (.tag (.ofList handle) address, cursor)
      else
        (address? false handle after).map fun (address, cursor) =>
          (if address = "" then .tag "" "!" else .tag "!" address, cursor)
  if cursor.spacedAt 0 ∨ (inFlow ∧ cursor.sees (· == ',')) then some (token, cursor) else none

def name? (cursor : Cursor) : Option (String × Cursor) :=
  let (name, cursor) := cursor.take isWordChar
  let ended := cursor.spacedAt 0 ||
    cursor.sees (['?', ':', ',', ']', '\x7d', '%', '@', '\x60'].contains ·)
  if name = [] ∨ !ended then none else some (.ofList name, cursor)

/-- A directive behind its mark, with the rest of its line. -/
def directive? (cursor : Cursor) : Option (Token × Cursor) := do
  let (name, cursor) := cursor.take isWordChar
  if !cursor.spacedAt 0 then none
  let cursor := cursor.skip isBlank
  let (token, cursor) ←
    match String.ofList name with
    | "YAML" =>
      let (major, cursor) ← number? cursor
      if !cursor.sees (· == '.') then none
      let (minor, cursor) ← number? cursor.advance
      some (Token.version major minor, cursor)
    | "TAG" =>
      let (handle, cursor) ← handle? true cursor
      if !cursor.sees isBlank then none
      let (lead, cursor) ← address? true [] (cursor.skip isBlank)
      if !cursor.spacedAt 0 then none
      some (.tagDirective (.ofList handle) lead, cursor)
    | _ => none
  let cursor := (cursor.skip isBlank).skipComment
  if cursor.next?.all isBreak then some (token, cursor.skipBreak) else none

/-! ## One token -/

/-- A token of one character. -/
def mark (scanner : Scanner) (token : Token) : Scanner :=
  (scanner.emit token).moveTo scanner.cursor.advance

def documentMark (scanner : Scanner) (token : Token) : Option Scanner := do
  let scanner ← scanner.closeAll.dropKeyStart
  return ((scanner.allowKey false).emit token).moveTo (scanner.cursor.advanceBy 3)

def openFlow (scanner : Scanner) (token : Token) : Option Scanner := do
  let scanner ← scanner.saveKeyStart
  return ({ scanner with keyStarts := none :: scanner.keyStarts }.allowKey true).mark token

def closeFlow (scanner : Scanner) (token : Token) : Option Scanner := do
  let scanner ← scanner.dropKeyStart
  let keyStarts := if scanner.inFlow then scanner.keyStarts.tail else scanner.keyStarts
  return ({ scanner with keyStarts }.allowKey false).mark token

/-- Open a block of the kind at this column, where a key is allowed. -/
def openBlockHere (scanner : Scanner) (token : Token) : Option Scanner :=
  if scanner.inFlow then some scanner
  else if scanner.keyAllowed then
    some (scanner.openBlock scanner.cursor.column scanner.count token)
  else none

def itemMark (scanner : Scanner) : Option Scanner := do
  let scanner ← (← scanner.openBlockHere .openBlockSequence).dropKeyStart
  return (scanner.allowKey true).mark .item

def keyMark (scanner : Scanner) : Option Scanner := do
  let scanner ← (← scanner.openBlockHere .openBlockMapping).dropKeyStart
  return (scanner.allowKey !scanner.inFlow).mark .key

/-- A colon makes what started at the innermost place a key. -/
def colonMark (scanner : Scanner) : Option Scanner :=
  match scanner.keyStarts with
  | some start :: outer =>
    let scanner := scanner.emitAt start.tokens .key
    let scanner := scanner.openBlock start.column start.tokens .openBlockMapping
    some (({ scanner with keyStarts := none :: outer }.allowKey false).mark .colon)
  | _ => do
    let scanner ← scanner.openBlockHere .openBlockMapping
    return (scanner.allowKey !scanner.inFlow).mark .colon

/-- A token that may start a key, and the cursor behind it. -/
def content (scanner : Scanner) (read : Option (Token × Cursor)) : Option Scanner := do
  let scanner ← scanner.saveKeyStart
  let (token, cursor) ← read
  return ((scanner.allowKey false).emit token).moveTo cursor

def quotedScalar (scanner : Scanner) (single : Bool) : Option Scanner :=
  scanner.content ((quoted? single (scanner.cursor.rest.length + 1) [] scanner.cursor.advance).map
    fun (text, cursor) => (.scalar (.ofList text) .quoted, cursor))

def blockScalar (scanner : Scanner) (folds : Bool) : Option Scanner := do
  let scanner ← scanner.dropKeyStart
  let (text, cursor) ← block? folds scanner.indent? scanner.cursor.advance
  let token := .scalar (.ofList text) (if folds then .folded else .literal)
  return ((scanner.allowKey true).emit token).moveTo cursor

def plainScalar (scanner : Scanner) : Option Scanner := do
  let scanner ← scanner.saveKeyStart
  let indent := (scanner.indent?.map (· + 1)).getD 0
  let cursor := scanner.cursor
  let (text, broken, cursor) ← plain? scanner.inFlow indent (cursor.rest.length + 1) [] {} cursor
  return ((scanner.allowKey broken).emit (.scalar (.ofList text) .plain)).moveTo cursor

/-- Characters that start no plain scalar. -/
def isIndicator (c : Char) : Bool :=
  ['-', '?', ':', ',', '[', ']', '\x7b', '\x7d', '#', '&', '*', '!', '|', '>', '\'', '"', '%', '@',
    '\x60'].contains c

/-- A plain scalar starts here. -/
def startsPlain (inFlow : Bool) (c : Char) (cursor : Cursor) : Bool :=
  !(isSpacing c || isIndicator c) ||
    (c == '-' && !(cursor.rest[1]?.any isBlank)) ||
    (!inFlow && (c == '?' || c == ':') && !cursor.spacedAt 1)

/-- Read the token that starts here with a character. -/
def next? (scanner : Scanner) (c : Char) : Option Scanner :=
  let cursor := scanner.cursor
  if cursor.column = 0 ∧ c = '%' then do
    let scanner ← scanner.closeAll.dropKeyStart
    let (token, cursor) ← directive? scanner.cursor.advance
    return ((scanner.allowKey false).emit token).moveTo cursor
  else if cursor.atDocumentMark then
    scanner.documentMark (if c = '-' then .documentStart else .documentEnd)
  else
    match c with
    | '[' => scanner.openFlow .openSequence
    | '\x7b' => scanner.openFlow .openMapping
    | ']' => scanner.closeFlow .closeSequence
    | '\x7d' => scanner.closeFlow .closeMapping
    | ',' => scanner.dropKeyStart.map fun scanner => (scanner.allowKey true).mark .comma
    | '*' => scanner.content ((name? cursor.advance).map fun (name, cursor) => (.alias name, cursor))
    | '&' => scanner.content ((name? cursor.advance).map fun (name, cursor) => (.anchor name, cursor))
    | '!' => scanner.content (tag? scanner.inFlow cursor)
    | '\'' => scanner.quotedScalar true
    | '"' => scanner.quotedScalar false
    | c =>
      if c = '-' ∧ cursor.spacedAt 1 then scanner.itemMark
      else if c = '?' ∧ (scanner.inFlow ∨ cursor.spacedAt 1) then scanner.keyMark
      else if c = ':' ∧ (scanner.inFlow ∨ cursor.spacedAt 1) then scanner.colonMark
      else if (c = '|' ∨ c = '>') ∧ !scanner.inFlow then scanner.blockScalar (c = '>')
      else if startsPlain scanner.inFlow c cursor then scanner.plainScalar
      else none

/-- Read all tokens. -/
def run? : Nat → Scanner → Option (List Token)
  | 0, _ => none
  | fuel + 1, scanner => do
    let scanner ← (scanner.skipSpacing (scanner.cursor.rest.length + 1)).dropStale
    match scanner.cursor.next? with
    | none => return (← scanner.closeAll.dropKeyStart).tokens.reverse
    | some c =>
      run? fuel (← (scanner.closeDeeper (scanner.cursor.column < ·)).next? c)

end Scanner

/-- The tokens of a text. -/
def tokens? (text : List Char) : Option (List Token) :=
  if text.all isAllowed then Scanner.run? (text.length + 1) ⟨.start text, [], 0, [], [none], true⟩
  else none

end ApiGateway.Yaml
