import ApiGateway.Settings.Basic

/-!
# Circuit breakers

A breaker lets requests through while it is closed, refuses them while it is open, and lets a limited
number of trials through while it is half-open.  Time is given with each operation, in nanoseconds.
-/

namespace ApiGateway

namespace Breaker

inductive State where
  /-- Failures since the last success. -/
  | closed (failures : Nat)
  | opened (since : Nat)
  | halfOpen (successes trials : Nat)
  deriving DecidableEq, Inhabited, Repr

/-- What has been counted since the breaker was made.  Counters of 64 bits agree with these numbers as
long as there have been fewer than 2^64 calls. -/
structure Tally where
  total : Nat := 0
  succeeded : Nat := 0
  failed : Nat := 0
  rejected : Nat := 0
  opened : Nat := 0
  deriving DecidableEq, Inhabited, Repr

end Breaker

structure Breaker where
  name : String
  settings : Settings.Breaker
  state : Breaker.State := .closed 0
  tally : Breaker.Tally := {}
  deriving DecidableEq, Inhabited, Repr

namespace Breaker

/-- What a refused request is told. -/
def refusalMessage : String := "Circuit breaker is open"

def isOpen (breaker : Breaker) : Bool :=
  match breaker.state with
  | .opened _ => true
  | _ => false

def letThrough (breaker : Breaker) (state : State) : Breaker × Bool :=
  ({ breaker with state, tally.total := breaker.tally.total + 1 }, true)

def refuse (breaker : Breaker) : Breaker × Bool :=
  ({ breaker with tally.rejected := breaker.tally.rejected + 1 }, false)

def trip (breaker : Breaker) (now : Nat) : Breaker :=
  { breaker with state := .opened now, tally.opened := breaker.tally.opened + 1 }

/-- May a request proceed?  An open breaker whose time is up takes it as its first trial. -/
def proceed (breaker : Breaker) (now : Nat) : Breaker × Bool :=
  match breaker.state with
  | .closed failures => breaker.letThrough (.closed failures)
  | .opened since =>
    if breaker.settings.openDuration.nanoseconds ≤ now - since then breaker.letThrough (.halfOpen 0 1)
    else breaker.refuse
  | .halfOpen successes trials =>
    if trials < breaker.settings.trialLimit then breaker.letThrough (.halfOpen successes (trials + 1))
    else breaker.refuse

/-- Report that a request succeeded. -/
def succeed (breaker : Breaker) : Breaker :=
  let breaker := { breaker with tally.succeeded := breaker.tally.succeeded + 1 }
  match breaker.state with
  | .closed _ => { breaker with state := .closed 0 }
  | .opened _ => breaker
  | .halfOpen successes trials =>
    if breaker.settings.successThreshold ≤ successes + 1 then { breaker with state := .closed 0 }
    else { breaker with state := .halfOpen (successes + 1) (trials - 1) }

/-- Report that a request failed. -/
def fail (breaker : Breaker) (now : Nat) : Breaker :=
  let breaker := { breaker with tally.failed := breaker.tally.failed + 1 }
  match breaker.state with
  | .closed failures =>
    if breaker.settings.failureThreshold ≤ failures + 1 then breaker.trip now
    else { breaker with state := .closed (failures + 1) }
  | .opened _ => breaker
  | .halfOpen _ _ => breaker.trip now

inductive Action where
  | proceed
  | succeed
  | fail
  deriving DecidableEq, Repr

/-- One action at a time; only a question whether to proceed has an answer. -/
def act (breaker : Breaker) (now : Nat) : Action → Breaker × Option Bool
  | .proceed =>
    let (breaker, admitted) := breaker.proceed now
    (breaker, some admitted)
  | .succeed => (breaker.succeed, none)
  | .fail => (breaker.fail now, none)

end Breaker

end ApiGateway
