import ApiGateway.Duration
import ApiGateway.Text.Blank
import ApiGateway.Text.Scan

/-!
# Durations as text

A duration is written as numbers with units, the greatest unit first.  It is read as a sum of numbers
with units in any order, with blanks anywhere between; a number may have decimal places as long as
they come to whole units of the clock.
-/

namespace ApiGateway.Duration

inductive TimeUnit where
  | nanosecond
  | microsecond
  | millisecond
  | second
  | minute
  | hour
  | day
  | week
  | month
  | year
  deriving DecidableEq, Repr

namespace TimeUnit

/-- Months have 30.44 days and years 365.25. -/
def nanoseconds : TimeUnit → Nat
  | nanosecond => 1
  | microsecond => 1000
  | millisecond => 1000000
  | second => 1000000000
  | minute => 60 * 1000000000
  | hour => 3600 * 1000000000
  | day => 86400 * 1000000000
  | week => 604800 * 1000000000
  | month => 2630016 * 1000000000
  | year => 31557600 * 1000000000

/-- The nanoseconds of the step in which multiples of the unit are counted. -/
def step : TimeUnit → Nat
  | nanosecond | microsecond | millisecond => 1
  | _ => 1000000000

/-- The step in which decimal places of the unit are counted. -/
def fineStep : TimeUnit → Nat
  | nanosecond | microsecond | millisecond | second | minute => 1
  | _ => 1000000000

def spellings : List (TimeUnit × List String) :=
  [ (nanosecond, ["nanos", "nsec", "ns"]),
    (microsecond, ["usec", "us", "µs"]),
    (millisecond, ["millis", "msec", "ms"]),
    (second, ["seconds", "second", "secs", "sec", "s"]),
    (minute, ["minutes", "minute", "min", "mins", "m"]),
    (hour, ["hours", "hour", "hr", "hrs", "h"]),
    (day, ["days", "day", "d"]),
    (week, ["weeks", "week", "wk", "wks", "w"]),
    (month, ["months", "month", "M"]),
    (year, ["years", "year", "yr", "yrs", "y"]) ]

def ofSpelling? (spelling : String) : Option TimeUnit :=
  (spellings.find? (·.2.contains spelling)).map (·.1)

end TimeUnit

/-! ## Writing -/

/-- A number of units, left out if it is zero. -/
def item (count : Nat) (unit : String) : List String :=
  if count = 0 then [] else [toString count ++ unit]

/-- A number of units whose name takes a plural. -/
def pluralItem (count : Nat) (unit : String) : List String :=
  item count (if 1 < count then unit ++ "s" else unit)

def items (duration : Duration) : List String :=
  let inYear := duration.seconds % 31557600
  let inMonth := inYear % 2630016
  let inDay := inMonth % 86400
  pluralItem (duration.seconds / 31557600) "year" ++
    pluralItem (inYear / 2630016) "month" ++
    pluralItem (inMonth / 86400) "day" ++
    item (inDay / 3600) "h" ++
    item (inDay % 3600 / 60) "m" ++
    item (inDay % 60) "s" ++
    item (duration.fraction / 1000000) "ms" ++
    item (duration.fraction / 1000 % 1000) "us" ++
    item (duration.fraction % 1000) "ns"

def text (duration : Duration) : String :=
  match duration.items with
  | [] => "0s"
  | items => Text.join " " items

/-! ## Reading -/

inductive Problem where
  | invalidCharacter (offset : Nat)
  | numberExpected (offset : Nat)
  | unitNeeded (value : Nat)
  | unknownUnit (spelling : String)
  | tooLarge
  | empty
  deriving DecidableEq, Repr

def Problem.message : Problem → String
  | .invalidCharacter offset => "invalid character at " ++ toString offset
  | .numberExpected offset => "expected number at " ++ toString offset
  | .unitNeeded value =>
    "time unit needed, for example " ++ toString value ++ "sec or " ++ toString value ++ "ms"
  | .unknownUnit spelling =>
    "unknown time unit \"" ++ spelling ++ "\", supported units: ns, us/µs, ms, sec, min, hours, " ++
      "days, weeks, months, years (and few variations)"
  | .tooLarge =>
    "number is too large or cannot be represented without a lack of precision " ++
      "(values below 1ns are not supported)"
  | .empty => "value was empty"

def wordLimit : Nat := Nat.pow 2 64

/-- A number below the limit of 64 bits. -/
def word (value : Nat) : Except Problem Nat :=
  if value < wordLimit then .ok value else .error .tooLarge

/-- Decimal places: the digits as a number, and the power of ten they are parts of. -/
structure Places where
  numerator : Nat
  denominator : Nat

/-- What has been read of the current number. -/
inductive Phase where
  /-- No digit yet. -/
  | start
  | whole (value : Nat)
  /-- Behind the point; `mark` is where a wrong character is reported. -/
  | places (value : Nat) (places : Places) (mark : Nat)
  /-- In the unit, whose letters are kept with the last first. -/
  | unit (value : Nat) (places : Option Places) (letters : List Char)

structure Reading where
  phase : Phase
  total : Nat
  offset : Nat

/-- Add a number of steps of a certain length. -/
def addSteps (total count step : Nat) : Except Problem Nat := do
  let count ← word count
  if step = 1 then let _ ← word (total % 1000000000 + count)
  let sum := total + count * step
  if sum / 1000000000 < wordLimit then return sum else .error .tooLarge

/-- Add a finished number with its unit. -/
def addUnit (total value : Nat) (places : Option Places) (letters : List Char) :
    Except Problem Nat := do
  let spelling := String.ofList letters.reverse
  match TimeUnit.ofSpelling? spelling with
  | none => .error (if letters = [] then .unitNeeded value else .unknownUnit spelling)
  | some unit =>
    let total ← addSteps total (value * (unit.nanoseconds / unit.step)) unit.step
    match places with
    | none => return total
    | some ⟨numerator, denominator⟩ =>
      if unit = .nanosecond then .error .tooLarge
      else
        let scaled ← word (numerator * (unit.nanoseconds / unit.fineStep))
        if scaled % denominator = 0 then addSteps total (scaled / denominator) unit.fineStep
        else .error .tooLarge

def isDigit (c : Char) : Bool :=
  '0' ≤ c && c ≤ '9'

def isUnitLetter (c : Char) : Bool :=
  ('a' ≤ c && c ≤ 'z') || ('A' ≤ c && c ≤ 'Z') || c == 'µ'

def digitOf (c : Char) : Nat :=
  c.toNat - 48

/-- The next phase and total for a character. -/
def advance (reading : Reading) (c : Char) : Except Problem (Phase × Nat) := do
  let here := reading.offset
  match reading.phase with
  | .start =>
    if isDigit c then return (.whole (digitOf c), reading.total)
    else if Text.isBlank c then return (.start, reading.total)
    else .error (.numberExpected here)
  | .whole value =>
    if isDigit c then return (.whole (← word (value * 10 + digitOf c)), reading.total)
    else if Text.isBlank c then return (.whole value, reading.total)
    else if isUnitLetter c then return (.unit value none [c], reading.total)
    else if c = '.' then return (.places value ⟨0, 1⟩ here, reading.total)
    else .error (.invalidCharacter here)
  | .places value ⟨numerator, denominator⟩ mark =>
    let next := here + c.utf8Size
    if isDigit c then
      let denominator ← word (denominator * 10)
      let numerator ← word (numerator * 10 + digitOf c)
      return (.places value ⟨numerator, denominator⟩ next, reading.total)
    else if Text.isBlank c then return (.places value ⟨numerator, denominator⟩ next, reading.total)
    else if isUnitLetter c ∧ denominator ≠ 1 then
      return (.unit value (some ⟨numerator, denominator⟩) [c], reading.total)
    else .error (.invalidCharacter mark)
  | .unit value places letters =>
    if isDigit c then
      return (.whole (digitOf c), ← addUnit reading.total value places letters)
    else if Text.isBlank c then return (.start, ← addUnit reading.total value places letters)
    else if isUnitLetter c then return (.unit value places (c :: letters), reading.total)
    else .error (.invalidCharacter here)

def step (reading : Reading) (c : Char) : Except Problem Reading :=
  (advance reading c).map fun (phase, total) => ⟨phase, total, reading.offset + c.utf8Size⟩

/-- The total once the text ends; `blank` tells that there was no number at all. -/
def finish (reading : Reading) (blank : Bool) : Except Problem Nat :=
  match reading.phase with
  | .start => if blank then .error .empty else .ok reading.total
  | .whole value => addUnit reading.total value none []
  | .places value ⟨numerator, denominator⟩ mark =>
    if denominator = 1 then .error (.invalidCharacter mark)
    else addUnit reading.total value (some ⟨numerator, denominator⟩) []
  | .unit value places letters => addUnit reading.total value places letters

def parse (text : String) : Except Problem Duration :=
  if text = "0" then .ok zero
  else do
    let reading ← text.toList.foldlM step ⟨.start, 0, 0⟩
    return ⟨← finish reading (text.toList.all Text.isBlank)⟩

end ApiGateway.Duration
