import ApiGateway.Failure
import ApiGateway.Settings.Basic
import ApiGateway.Text.Blank
import ApiGateway.Text.Case
import ApiGateway.Text.Scan

/-!
# Logging

The format of log lines and the level from which lines are written.  A level can be a list of filters,
each for a target or for all.
-/

namespace ApiGateway.Logging

def lower (text : String) : String :=
  .ofList (Text.lower text.toList)

inductive Format where
  | json
  | text
  deriving DecidableEq, Repr

/-- Read the name of a format; case does not matter.  The name is given back if it is unknown. -/
def Format.parse (name : String) : Except String Format :=
  match lower name with
  | "json" => .ok .json
  | "text" => .ok .text
  | other => .error other

def unknownFormat (name : String) : Failure :=
  .configuration ("Invalid log format: " ++ name)

def levels : List String :=
  ["trace", "debug", "info", "warn", "error"]

/-- The name of a level; case does not matter. -/
def isLevel (name : String) : Bool :=
  levels.contains (lower name)

/-! ## Filters -/

inductive FilterProblem where
  | filter
  | level
  deriving DecidableEq, Repr

def FilterProblem.message : FilterProblem → String
  | filter => "invalid filter directive"
  | level => "error parsing level filter: expected one of \"off\", \"error\", \"warn\", \"info\", " ++
      "\"debug\", \"trace\", or a number 0-5"

/-- The value of a level in a filter, which may be missing. -/
def isThreshold (text : List Char) : Bool :=
  let digits := match text with
    | '+' :: digits => digits
    | digits => digits
  ("" :: "off" :: levels).contains (String.ofList (Text.lowerAscii text)) ||
    (digits ≠ [] && digits.dropLast.all (· == '0') && digits.getLast?.any fun c => '0' ≤ c && c ≤ '5')

/-- Where the reading of a filter has come to. -/
inductive Place where
  | start
  | target
  | span
  | field (name : List Char)
  | fields
  | spanEnd
  /-- Behind the equals sign, with the text since then. -/
  | level (read : List Char)

/-- Characters a filter can start with; letters beyond ASCII are not told apart. -/
def startsFilter (c : Char) : Bool :=
  c == '-' || c == ':' || c == '_' || c.isAlphanum || 128 ≤ c.toNat

def Place.next : Place → Char → Option Place
  | start, '[' => some span
  | start, c => if startsFilter c then some target else none
  | target, '=' => some (level [])
  | target, '[' => some span
  | target, _ => some target
  | span, ']' => some spanEnd
  | span, '\x7b' => some (field [])
  | span, _ => some span
  | field [], '\x7d' => none
  | field _, '\x7d' => some fields
  | field name, c => some (field (name ++ [c]))
  | fields, ']' => some spanEnd
  | fields, _ => none
  | spanEnd, '=' => some (level [])
  | spanEnd, _ => none
  | level read, c => some (level (read ++ [c]))

/-- Check one filter. -/
def checkFilter (filter : List Char) : Except FilterProblem Unit :=
  match (Text.trim Text.isBlank filter).foldlM Place.next .start with
  | some .target | some .spanEnd => .ok ()
  | some (.level read) => if isThreshold read then .ok () else .error .level
  | _ => .error .filter

/-- Check a list of filters, parted by commas. -/
def checkFilters (filters : List Char) : Except FilterProblem Unit :=
  ((Text.splitAll ',' filters).filter (· ≠ [])).forM checkFilter

/-- What the logging settings come to. -/
def check (settings : Settings.Logging) : Except Failure Format := do
  (checkFilters (Text.lower settings.level.toList)).mapError fun problem =>
    .configuration ("Invalid log level '" ++ settings.level ++ "': " ++ problem.message)
  (Format.parse settings.format).mapError unknownFormat

end ApiGateway.Logging
