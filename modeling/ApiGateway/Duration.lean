/-!
# Durations

A duration is a number of nanoseconds.  Its seconds fit into 64 bits; operations that would exceed
them fail.
-/

namespace ApiGateway

structure Duration where
  nanoseconds : Nat
  deriving DecidableEq, Inhabited, Repr

namespace Duration

def zero : Duration := ⟨0⟩

def ofSeconds (seconds : Nat) : Duration := ⟨seconds * 1000000000⟩

def isZero (duration : Duration) : Bool :=
  duration.nanoseconds == 0

def seconds (duration : Duration) : Nat :=
  duration.nanoseconds / 1000000000

/-- The nanoseconds beyond the last full second. -/
def fraction (duration : Duration) : Nat :=
  duration.nanoseconds % 1000000000

def milliseconds (duration : Duration) : Nat :=
  duration.nanoseconds / 1000000

theorem seconds_fraction (duration : Duration) :
    duration.seconds * 1000000000 + duration.fraction = duration.nanoseconds := by
  simp only [seconds, fraction]
  omega

end Duration

end ApiGateway
