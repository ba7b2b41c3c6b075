import ApiGateway.Json.Read
import ApiGateway.Yaml.Cursor

/-!
# Scalars

The texts of plain, quoted and block scalars.  Line ends within plain and quoted scalars are folded:
one becomes a space, and of several the first is left out.
-/

namespace ApiGateway.Yaml

inductive Style where
  | plain
  | quoted
  | literal
  | folded
  deriving DecidableEq, Repr

/-! ## Gaps -/

/-- Spacing between two parts of a scalar: the blanks before the first line end, and the line ends. -/
structure Gap where
  blanks : List Char := []
  first : List Char := []
  others : List Char := []
  broken : Bool := false

/-- What a gap is read as. -/
def Gap.text (gap : Gap) : List Char :=
  if !gap.broken then gap.blanks
  else if gap.first = ['\n'] then
    if gap.others = [] then [' '] else gap.others
  else gap.first ++ gap.others

/-- Pass spacing.  At the start of a further line, a tab must not stand before column `indent`. -/
def takeGap? (indent : Nat) : Nat → Gap → Cursor → Option (Gap × Cursor)
  | 0, gap, cursor => some (gap, cursor)
  | fuel + 1, gap, cursor =>
    match cursor.next? with
    | some c =>
      if isBlank c then
        if gap.broken then
          if c = '\t' ∧ cursor.column < indent then none
          else takeGap? indent fuel gap cursor.advance
        else takeGap? indent fuel { gap with blanks := gap.blanks ++ [c] } cursor.advance
      else if isBreak c then
        let (taken, cursor) := cursor.takeBreak
        if gap.broken then takeGap? indent fuel { gap with others := gap.others ++ taken } cursor
        else takeGap? indent fuel { gap with first := taken, broken := true } cursor
      else some (gap, cursor)
    | none => some (gap, cursor)

/-! ## Plain scalars -/

def isFlowMark (c : Char) : Bool :=
  c == ',' || c == '[' || c == ']' || c == '\x7b' || c == '\x7d'

/-- The characters of a plain scalar up to spacing, a colon that ends it, or a mark of a flow
collection.  In a flow collection, a colon must not stand before a mark. -/
def takePlain? (inFlow : Bool) : List Char → Option (List Char)
  | [] => some []
  | c :: rest =>
    if isSpacing c then some []
    else if inFlow ∧ c = ':' ∧ rest.head?.any (fun d => isFlowMark d || d == '?') then none
    else if (c = ':' ∧ rest.head?.all isSpacing) ∨ (inFlow ∧ isFlowMark c) then some []
    else (takePlain? inFlow rest).map (c :: ·)

/-- Read on in a plain scalar behind a gap.  In a block, its further lines start at column `indent` or
behind it.  The result tells whether the scalar was followed by a line end. -/
def plain? (inFlow : Bool) (indent : Nat) : Nat → List Char → Gap → Cursor →
    Option (List Char × Bool × Cursor)
  | 0, _, _, _ => none
  | fuel + 1, read, gap, cursor =>
    if cursor.atDocumentMark || cursor.sees (· == '#') then some (read, gap.broken, cursor)
    else
      match takePlain? inFlow cursor.rest with
      | none => none
      | some [] => some (read, gap.broken, cursor)
      | some part =>
        let read := read ++ gap.text ++ part
        match takeGap? indent cursor.rest.length {} (cursor.advanceBy part.length) with
        | none => none
        | some (gap, next) =>
          if next.index = cursor.index + part.length ∨ (!inFlow ∧ next.column < indent) then
            some (read, gap.broken, next)
          else plain? inFlow indent fuel read gap next

/-! ## Quoted scalars -/

/-- The characters that stand for themselves or others behind a backslash. -/
def shortEscape? : Char → Option Char
  | '0' => some '\x00'
  | 'a' => some '\x07'
  | 'b' => some '\x08'
  | 't' | '\t' => some '\t'
  | 'n' => some '\n'
  | 'v' => some '\x0b'
  | 'f' => some '\x0c'
  | 'r' => some '\r'
  | 'e' => some '\x1b'
  | ' ' => some ' '
  | '"' => some '"'
  | '/' => some '/'
  | '\\' => some '\\'
  | 'N' => some '\x85'
  | '_' => some '\xa0'
  | 'L' => some '\u2028'
  | 'P' => some '\u2029'
  | _ => none

/-- How many hexadecimal digits follow. -/
def codeLength? : Char → Option Nat
  | 'x' => some 2
  | 'u' => some 4
  | 'U' => some 8
  | _ => none

/-- The character of a code in hexadecimal digits. -/
def codeChar? (digits : List Char) : Option Char := do
  let code ← digits.foldlM (fun code c => (Json.hexValue? c).map (code * 16 + ·)) 0
  if h : code.isValidChar then some (Char.ofNatAux code h) else none

/-- An escape behind its backslash, and its length. -/
def escape? : List Char → Option (Char × Nat)
  | c :: rest =>
    match shortEscape? c, codeLength? c with
    | some meant, _ => some (meant, 1)
    | none, some length =>
      if rest.length < length then none
      else (codeChar? (rest.take length)).map fun meant => (meant, length + 1)
    | none, none => none
  | [] => none

/-- How a part of a quoted scalar without spacing ends. -/
inductive PartEnd where
  | spacing
  | quote
  | escapedBreak

/-- A part of a quoted scalar without spacing; `read` is what has been read of it, the last first. -/
def takeQuoted? (single : Bool) : Nat → List Char → Cursor → Option (List Char × PartEnd × Cursor)
  | 0, _, _ => none
  | fuel + 1, read, cursor =>
    match cursor.rest with
    | [] => some (read.reverse, .spacing, cursor)
    | c :: rest =>
      if isSpacing c then some (read.reverse, .spacing, cursor)
      else if single ∧ c = '\'' ∧ rest.head? = some '\'' then
        takeQuoted? single fuel ('\'' :: read) (cursor.advanceBy 2)
      else if c = (if single then '\'' else '"') then some (read.reverse, .quote, cursor.advance)
      else if !single ∧ c = '\\' then
        if rest.head?.any isBreak then some (read.reverse, .escapedBreak, cursor.advance.skipBreak)
        else
          match escape? rest with
          | some (meant, length) =>
            takeQuoted? single fuel (meant :: read) (cursor.advanceBy (length + 1))
          | none => none
      else takeQuoted? single fuel (c :: read) cursor.advance

/-- Read on in a quoted scalar, behind its opening quote. -/
def quoted? (single : Bool) : Nat → List Char → Cursor → Option (List Char × Cursor)
  | 0, _, _ => none
  | fuel + 1, read, cursor =>
    if cursor.atDocumentMark || cursor.rest.isEmpty then none
    else
      match takeQuoted? single (cursor.rest.length + 1) [] cursor with
      | none => none
      | some (part, .quote, cursor) => some (read ++ part, cursor)
      | some (part, stop, cursor) =>
        match takeGap? 0 cursor.rest.length { broken := stop matches .escapedBreak } cursor with
        | none => none
        | some (gap, cursor) => quoted? single fuel (read ++ part ++ gap.text) cursor

/-! ## Block scalars -/

/-- What becomes of the line ends behind a block scalar. -/
inductive Chomping where
  | strip
  | clip
  | keep

/-- A mark that says what becomes of the line ends. -/
def chomping? : Char → Option Chomping
  | '+' => some .keep
  | '-' => some .strip
  | _ => none

/-- An indentation in the head of a block scalar. -/
def indentation (cursor : Cursor) : Option Nat × Cursor :=
  match cursor.next? with
  | some c => if Json.isDigit c then (some (Json.digitValue c), cursor.advance) else (none, cursor)
  | none => (none, cursor)

def chompingMark (cursor : Cursor) : Option Chomping × Cursor :=
  match cursor.next?.bind chomping? with
  | some chomping => (some chomping, cursor.advance)
  | none => (none, cursor)

/-- The head of a block scalar: the marks in either order, then a comment. -/
def blockHead? (cursor : Cursor) : Option (Chomping × Option Nat × Cursor) :=
  let (before, cursor) := chompingMark cursor
  let (increment, cursor) := indentation cursor
  let (after, cursor) := if before.isNone && increment.isSome then chompingMark cursor else (none, cursor)
  let cursor := (cursor.skip isBlank).skipComment
  if increment = some 0 ∨ !(cursor.next?.all isBreak) then none
  else some ((before <|> after).getD .clip, increment, cursor.skipBreak)

/-- Pass empty lines and the indentation of the next line.  Without a known indentation, the deepest
column met is found. -/
def takeBreaks? (indent : Option Nat) : Nat → Nat → List Char → Cursor →
    Option (Nat × List Char × Cursor)
  | 0, _, _, _ => none
  | fuel + 1, deepest, breaks, cursor =>
    let spaces := (cursor.rest.takeWhile (· == ' ')).length
    let cursor := cursor.advanceBy
      ((indent.map fun indent => Nat.min spaces (indent - cursor.column)).getD spaces)
    let deepest := Nat.max deepest cursor.column
    if cursor.sees (· == '\t') && indent.all (cursor.column < ·) then none
    else if cursor.sees isBreak then
      let (taken, cursor) := cursor.takeBreak
      takeBreaks? indent fuel deepest (breaks ++ taken) cursor
    else some (deepest, breaks, cursor)

/-- Read on in a block scalar, at the start of a line's text.  `first` is the line end of the line
before, `others` are the empty lines behind it, and `wasBlank` tells that that line started with a
blank. -/
def blockLines? (folds : Bool) (indent : Nat) : Nat → List Char → List Char → List Char → Bool →
    Cursor → Option (List Char × List Char × List Char × Cursor)
  | 0, _, _, _, _, _ => none
  | fuel + 1, read, first, others, wasBlank, cursor =>
    if cursor.column ≠ indent ∨ cursor.rest = [] then some (read, first, others, cursor)
    else
      let isBlankLine := cursor.sees isBlank
      let joint :=
        if folds && first == ['\n'] && !wasBlank && !isBlankLine then
          if others = [] then [' '] else others
        else first ++ others
      let (line, cursor) := cursor.take (!isBreak ·)
      let (first, cursor) := cursor.takeBreak
      match takeBreaks? (some indent) (cursor.rest.length + 1) 0 [] cursor with
      | some (_, others, cursor) =>
        blockLines? folds indent fuel (read ++ joint ++ line) first others isBlankLine cursor
      | none => none

/-- A block scalar behind its mark.  `outer` is the indentation of the block it stands in. -/
def block? (folds : Bool) (outer : Option Nat) (cursor : Cursor) : Option (List Char × Cursor) := do
  let (chomping, increment, cursor) ← blockHead? cursor
  let known := increment.map (outer.getD 0 + ·)
  let (deepest, others, cursor) ← takeBreaks? known (cursor.rest.length + 1) 0 [] cursor
  let indent := known.getD (Nat.max (Nat.max deepest ((outer.map (· + 1)).getD 0)) 1)
  let (read, first, others, cursor) ←
    blockLines? folds indent (cursor.rest.length + 1) [] [] others false cursor
  match chomping with
  | .strip => return (read, cursor)
  | .clip => return (read ++ first, cursor)
  | .keep => return (read ++ first ++ others, cursor)

end ApiGateway.Yaml
