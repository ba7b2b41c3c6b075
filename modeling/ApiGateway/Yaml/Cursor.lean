/-!
# Cursors

A cursor is a place in a text: what is left of the text, and line, column and index of its first
character.
-/

namespace ApiGateway.Yaml

structure Cursor where
  rest : List Char
  index : Nat := 0
  line : Nat := 0
  column : Nat := 0

/-- Space and tab. -/
def isBlank (c : Char) : Bool :=
  c == ' ' || c == '\t'

/-- Characters that end a line. -/
def isBreak (c : Char) : Bool :=
  c == '\n' || c == '\r' || c == '\x85' || c == '\u2028' || c == '\u2029'

def isSpacing (c : Char) : Bool :=
  isBlank c || isBreak c

/-- Characters of anchors, tag handles and directive names. -/
def isWordChar (c : Char) : Bool :=
  ('0' ≤ c && c ≤ '9') || ('A' ≤ c && c ≤ 'Z') || ('a' ≤ c && c ≤ 'z') || c == '_' || c == '-'

/-- Characters that may stand in a text; others make it unreadable. -/
def isAllowed (c : Char) : Bool :=
  c == '\t' || c == '\n' || c == '\r' || (' ' ≤ c && c ≤ '~') || c == '\x85' ||
    ('\xa0' ≤ c && c ≤ '\ud7ff') || ('\ue000' ≤ c && c ≤ '\ufffd') || 0x10000 ≤ c.toNat

namespace Cursor

def start (text : List Char) : Cursor :=
  { rest := text }

def next? (cursor : Cursor) : Option Char :=
  cursor.rest.head?

/-- The next character meets the condition. -/
def sees (cursor : Cursor) (condition : Char → Bool) : Bool :=
  cursor.rest.head?.any condition

/-- A text without line ends stands here. -/
def seesText (cursor : Cursor) (text : List Char) : Bool :=
  text.isPrefixOf cursor.rest

/-- Behind `offset` characters follows spacing or nothing. -/
def spacedAt (cursor : Cursor) (offset : Nat) : Bool :=
  (cursor.rest[offset]?).all isSpacing

/-- Pass one character that ends no line. -/
def advance (cursor : Cursor) : Cursor :=
  { cursor with rest := cursor.rest.tail, index := cursor.index + 1, column := cursor.column + 1 }

def advanceBy (cursor : Cursor) (count : Nat) : Cursor :=
  { cursor with
    rest := cursor.rest.drop count
    index := cursor.index + count
    column := cursor.column + count }

/-- Take the characters that meet the condition, none of which ends a line. -/
def take (cursor : Cursor) (condition : Char → Bool) : List Char × Cursor :=
  let taken := cursor.rest.takeWhile condition
  (taken, cursor.advanceBy taken.length)

def skip (cursor : Cursor) (condition : Char → Bool) : Cursor :=
  (cursor.take condition).2

/-- Take a line end: all but two of its forms are read as a line feed. -/
def takeBreak (cursor : Cursor) : List Char × Cursor :=
  let (taken, rest, length) : List Char × List Char × Nat := match cursor.rest with
    | '\r' :: '\n' :: rest => (['\n'], rest, 2)
    | c :: rest =>
      if c = '\u2028' ∨ c = '\u2029' then ([c], rest, 1)
      else if isBreak c then (['\n'], rest, 1)
      else ([], c :: rest, 0)
    | [] => ([], [], 0)
  if length = 0 then ([], cursor)
  else (taken, ⟨rest, cursor.index + length, cursor.line + 1, 0⟩)

def skipBreak (cursor : Cursor) : Cursor :=
  cursor.takeBreak.2

/-- Pass a comment, if one starts here. -/
def skipComment (cursor : Cursor) : Cursor :=
  if cursor.sees (· == '#') then cursor.skip (!isBreak ·) else cursor

/-- A line starts here with the mark of a document's start or end. -/
def atDocumentMark (cursor : Cursor) : Bool :=
  cursor.column == 0 && (cursor.seesText ['-', '-', '-'] || cursor.seesText ['.', '.', '.']) &&
    cursor.spacedAt 3

end Cursor

end ApiGateway.Yaml
