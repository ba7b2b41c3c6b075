import ApiGateway.Duration

/-!
# When to refresh

The known applications are refreshed at the start, whenever the registry tells of a change, and from
time to time.  A time that was missed is made up for once, and the next one counts from there.
-/

namespace ApiGateway.Discovery

structure Schedule where
  period : Duration
  /-- Changes are still told. -/
  watching : Bool := true
  /-- A change has been told since the last refresh. -/
  changed : Bool := false
  /-- When the next refresh is due, in nanoseconds; at first it is due at once. -/
  next : Option Nat := none
  deriving Repr

namespace Schedule

/-- How much a refresh may be late and still keep to the times of the others, in nanoseconds. -/
def tolerance : Nat := 5000000

def tellChange (schedule : Schedule) : Schedule :=
  { schedule with changed := schedule.changed || schedule.watching }

def isDue (schedule : Schedule) (now : Nat) : Bool :=
  schedule.next.all (· ≤ now)

/-- The time after one that is due. -/
def following (schedule : Schedule) (now : Nat) : Nat :=
  let due := schedule.next.getD now
  (if due + tolerance < now then now else due) + schedule.period.nanoseconds

/-- Look at the time: is a refresh to be made? -/
def look (schedule : Schedule) (now : Nat) : Schedule × Bool :=
  let due := schedule.isDue now
  ({ schedule with
      changed := false
      next := if due then some (schedule.following now) else schedule.next }, due || schedule.changed)

end Schedule

end ApiGateway.Discovery
