import ApiGateway.Breaker

/-!
# Histories of a breaker

A history is a breaker with all calls that it has had.  Any number of requests call it in any order and
at any times; an orderly request asks once whether it may proceed and, if it may, reports once how it
ended.  What a history says about requests (admitted, refused, not yet reported) and about openings is
read off its entries and not off the breaker's own counters.
-/

namespace ApiGateway.Breaker

def State.isOpened : State → Bool
  | .opened _ => true
  | _ => false

def State.isHalfOpen : State → Bool
  | .halfOpen _ _ => true
  | _ => false

/-! ## What a call does -/

/-- What an action at some time makes of a breaker, and its answer. -/
inductive Acts (breaker : Breaker) (now : Nat) : Action → Breaker × Option Bool → Prop where
  | admitted {failures : Nat} (hstate : breaker.state = .closed failures) :
      Acts breaker now .proceed ((breaker.letThrough (.closed failures)).1, some true)
  /-- The time of an open breaker is up. -/
  | probed {since : Nat} (hstate : breaker.state = .opened since)
      (hdue : breaker.settings.openDuration.nanoseconds ≤ now - since) :
      Acts breaker now .proceed ((breaker.letThrough (.halfOpen 0 1)).1, some true)
  | tried {successes trials : Nat} (hstate : breaker.state = .halfOpen successes trials)
      (hroom : trials < breaker.settings.trialLimit) :
      Acts breaker now .proceed ((breaker.letThrough (.halfOpen successes (trials + 1))).1, some true)
  | refused
      (hfull : (∃ since, breaker.state = .opened since ∧
          now - since < breaker.settings.openDuration.nanoseconds) ∨
        ∃ successes trials, breaker.state = .halfOpen successes trials ∧
          breaker.settings.trialLimit ≤ trials) :
      Acts breaker now .proceed (breaker.refuse.1, some false)
  | cleared {failures : Nat} (hstate : breaker.state = .closed failures) :
      Acts breaker now .succeed
        ({ breaker with state := .closed 0, tally.succeeded := breaker.tally.succeeded + 1 }, none)
  | counted {successes trials : Nat} (hstate : breaker.state = .halfOpen successes trials)
      (hfew : successes + 1 < breaker.settings.successThreshold) :
      Acts breaker now .succeed
        ({ breaker with
            state := .halfOpen (successes + 1) (trials - 1)
            tally.succeeded := breaker.tally.succeeded + 1 }, none)
  | closed {successes trials : Nat} (hstate : breaker.state = .halfOpen successes trials)
      (henough : breaker.settings.successThreshold ≤ successes + 1) :
      Acts breaker now .succeed
        ({ breaker with state := .closed 0, tally.succeeded := breaker.tally.succeeded + 1 }, none)
  | failed {failures : Nat} (hstate : breaker.state = .closed failures)
      (hfew : failures + 1 < breaker.settings.failureThreshold) :
      Acts breaker now .fail
        ({ breaker with state := .closed (failures + 1), tally.failed := breaker.tally.failed + 1 }, none)
  | tripped
      (hstate : (∃ failures, breaker.state = .closed failures ∧
          breaker.settings.failureThreshold ≤ failures + 1) ∨
        ∃ successes trials, breaker.state = .halfOpen successes trials) :
      Acts breaker now .fail
        (({ breaker with tally.failed := breaker.tally.failed + 1 } : Breaker).trip now, none)
  /-- An open breaker takes reports into its tally only. -/
  | succeededOpen {since : Nat} (hstate : breaker.state = .opened since) :
      Acts breaker now .succeed
        ({ breaker with
            state := .opened since, tally.succeeded := breaker.tally.succeeded + 1 }, none)
  | failedOpen {since : Nat} (hstate : breaker.state = .opened since) :
      Acts breaker now .fail
        ({ breaker with state := .opened since, tally.failed := breaker.tally.failed + 1 }, none)

theorem acts_act (breaker : Breaker) (now : Nat) (action : Action) :
    Acts breaker now action (breaker.act now action) := by
  cases action with
  | proceed =>
      simp only [act, proceed]
      cases hstate : breaker.state with
      | closed failures => exact .admitted hstate
      | opened since =>
          simp only
          split
          · next hdue => exact .probed hstate hdue
          · next hearly => exact .refused (Or.inl ⟨since, hstate, Nat.lt_of_not_le hearly⟩)
      | halfOpen successes trials =>
          simp only
          split
          · next hroom => exact .tried hstate hroom
          · next hfull => exact .refused (Or.inr ⟨successes, trials, hstate, Nat.le_of_not_lt hfull⟩)
  | succeed =>
      simp only [act, succeed]
      cases hstate : breaker.state with
      | closed failures => exact .cleared hstate
      | opened since => exact .succeededOpen hstate
      | halfOpen successes trials =>
          simp only
          split
          · next henough => exact .closed hstate henough
          · next hfew => exact .counted hstate (Nat.lt_of_not_le hfew)
  | fail =>
      simp only [act, fail]
      cases hstate : breaker.state with
      | closed failures =>
          simp only
          split
          · next henough => exact .tripped (Or.inl ⟨failures, hstate, henough⟩)
          · next hfew => exact .failed hstate (Nat.lt_of_not_le hfew)
      | opened since => exact .failedOpen hstate
      | halfOpen successes trials => exact .tripped (Or.inr ⟨successes, trials, hstate⟩)

theorem Acts.settings {breaker changed : Breaker} {now : Nat} {action : Action} {answer : Option Bool}
    (hacts : Acts breaker now action (changed, answer)) : changed.settings = breaker.settings := by
  cases hacts <;> rfl

theorem Acts.name {breaker changed : Breaker} {now : Nat} {action : Action} {answer : Option Bool}
    (hacts : Acts breaker now action (changed, answer)) : changed.name = breaker.name := by
  cases hacts <;> rfl

/-! ## Entries -/

structure Call where
  request : Nat
  action : Action
  now : Nat
  deriving DecidableEq, Repr

structure Entry where
  call : Call
  answer : Option Bool
  found : State
  left : State
  deriving DecidableEq, Repr

namespace Entry

def admits (entry : Entry) : Bool :=
  entry.answer == some true

def refuses (entry : Entry) : Bool :=
  entry.answer == some false

def reports (entry : Entry) : Bool :=
  entry.call.action != .proceed

def succeeds (entry : Entry) : Bool :=
  entry.call.action == .succeed

def fails (entry : Entry) : Bool :=
  entry.call.action == .fail

def opens (entry : Entry) : Bool :=
  !entry.found.isOpened && entry.left.isOpened

end Entry

/-- The requests that have asked, the latest first. -/
def asked (entries : List Entry) : List Nat :=
  (entries.filter (!·.reports)).map (·.call.request)

/-- The requests that were admitted and have not reported since.  Entries stand the latest first. -/
def unreported : List Entry → List Nat
  | [] => []
  | entry :: earlier =>
      if entry.admits then entry.call.request :: unreported earlier
      else if entry.reports then (unreported earlier).erase entry.call.request
      else unreported earlier

@[simp]
theorem unreported_nil : unreported [] = [] := rfl

theorem unreported_of_admits {entry : Entry} (earlier : List Entry) (hadmits : entry.admits = true) :
    unreported (entry :: earlier) = entry.call.request :: unreported earlier := by
  rw [unreported, if_pos hadmits]

theorem unreported_of_reports {entry : Entry} (earlier : List Entry) (hadmits : entry.admits = false)
    (hreports : entry.reports = true) :
    unreported (entry :: earlier) = (unreported earlier).erase entry.call.request := by
  rw [unreported, if_neg (by simp [hadmits]), if_pos hreports]

theorem unreported_of_refuses {entry : Entry} (earlier : List Entry) (hadmits : entry.admits = false)
    (hreports : entry.reports = false) : unreported (entry :: earlier) = unreported earlier := by
  rw [unreported, if_neg (by simp [hadmits]), if_neg (by simp [hreports])]

def sinceOpened (entries : List Entry) : List Entry :=
  entries.takeWhile (!·.opens)

/-! ## Histories -/

/-- A breaker and all calls that it has had, the latest first. -/
structure History where
  breaker : Breaker
  entries : List Entry
  deriving DecidableEq, Repr

namespace History

def start (name : String) (settings : Settings.Breaker) : History :=
  ⟨{ name, settings }, []⟩

def entry (history : History) (call : Call) : Entry :=
  ⟨call, (history.breaker.act call.now call.action).2, history.breaker.state,
    (history.breaker.act call.now call.action).1.state⟩

def call (history : History) (call : Call) : History :=
  ⟨(history.breaker.act call.now call.action).1, history.entry call :: history.entries⟩

def run (history : History) (calls : List Call) : History :=
  calls.foldl History.call history

@[simp]
theorem run_nil (history : History) : history.run [] = history := rfl

@[simp]
theorem run_cons (history : History) (call : Call) (calls : List Call) :
    history.run (call :: calls) = (history.call call).run calls := rfl

/-- An orderly request asks if it has not asked before, and reports if it was admitted and has not
reported. -/
def Allows (history : History) (call : Call) : Prop :=
  if call.action = .proceed then call.request ∉ asked history.entries
  else call.request ∈ unreported history.entries

instance (history : History) (call : Call) : Decidable (history.Allows call) :=
  inferInstanceAs (Decidable (if call.action = .proceed then call.request ∉ asked history.entries
    else call.request ∈ unreported history.entries))

def Follows (history : History) : List Call → Prop
  | [] => True
  | call :: rest => history.Allows call ∧ (history.call call).Follows rest

instance decidableFollows (history : History) : (calls : List Call) → Decidable (history.Follows calls)
  | [] => inferInstanceAs (Decidable True)
  | call :: rest => @instDecidableAnd _ _ inferInstance (decidableFollows (history.call call) rest)

/-- A call leaves one entry, and the breaker that the action makes of the one it found. -/
theorem exists_acts (history : History) (call : Call) : ∃ changed answer,
    Acts history.breaker call.now call.action (changed, answer) ∧
      history.call call =
        ⟨changed, ⟨call, answer, history.breaker.state, changed.state⟩ :: history.entries⟩ :=
  ⟨_, _, acts_act history.breaker call.now call.action, rfl⟩

theorem settings_call (history : History) (call : Call) :
    (history.call call).breaker.settings = history.breaker.settings := by
  obtain ⟨changed, answer, hacts, hcall⟩ := history.exists_acts call
  rw [hcall]
  exact hacts.settings

theorem settings_run (history : History) (calls : List Call) :
    (history.run calls).breaker.settings = history.breaker.settings := by
  induction calls generalizing history with
  | nil => rfl
  | cons call rest ih => rw [run_cons, ih, settings_call]

/-- A property that holds at first and that every orderly call keeps holds all along. -/
theorem run_induction {motive : History → Prop} {history : History} {calls : List Call}
    (hfirst : motive history) (hfollows : history.Follows calls)
    (hkept : ∀ history call, motive history → history.Allows call → motive (history.call call)) :
    motive (history.run calls) := by
  induction calls generalizing history with
  | nil => exact hfirst
  | cons call rest ih =>
      obtain ⟨hallowed, hrest⟩ := hfollows
      exact ih (hkept history call hfirst hallowed) hrest

end History

end ApiGateway.Breaker
