import ApiGateway.Proofs.Breaker.History

/-!
# Counters of a breaker

The counters in the state of a breaker are what its history says.  A closed breaker counts the failures
since the last success or since it closed, and opens at the failure that makes up the threshold; an open
one waits for its time to be up, whatever is reported to it.  So the counters stay within the settings, and
32 bits are enough for them.  The calls may come in any order, whether the requests are orderly or not.
-/

namespace ApiGateway.Breaker

def State.isClosed : State → Bool
  | .closed _ => true
  | _ => false

def Entry.closes (entry : Entry) : Bool :=
  !entry.found.isClosed && entry.left.isClosed

/-- The number of failures since the last success or since the breaker last closed, whichever is later. -/
def recentFailures (entries : List Entry) : Nat :=
  (entries.takeWhile fun entry => !entry.succeeds && !entry.closes).countP Entry.fails

def openedAt? (entries : List Entry) : Option Nat :=
  (entries.find? Entry.opens).map (·.call.now)

/-! ## Counters of 32 bits -/

def counterLimit : Nat := 4294967296

def raise? (count : Nat) : Option Nat :=
  if count + 1 < counterLimit then some (count + 1) else none

/-- What an action makes of a breaker with counters of 32 bits, unless one of them is full. -/
def actWithin? (breaker : Breaker) (now : Nat) (action : Action) : Option (Breaker × Option Bool) :=
  match action, breaker.state with
  | .proceed, .halfOpen successes trials =>
    if trials < breaker.settings.trialLimit then
      (raise? trials).map fun trials => ((breaker.letThrough (.halfOpen successes trials)).1, some true)
    else some (breaker.refuse.1, some false)
  | .succeed, .halfOpen successes trials =>
    let breaker := { breaker with tally.succeeded := breaker.tally.succeeded + 1 }
    (raise? successes).map fun successes =>
      if breaker.settings.successThreshold ≤ successes then ({ breaker with state := .closed 0 }, none)
      else ({ breaker with state := .halfOpen successes (trials - 1) }, none)
  | .fail, .closed failures =>
    let breaker := { breaker with tally.failed := breaker.tally.failed + 1 }
    (raise? failures).map fun failures =>
      if breaker.settings.failureThreshold ≤ failures then (breaker.trip now, none)
      else ({ breaker with state := .closed failures }, none)
  -- No other action raises a counter of the state.
  | _, _ => some (breaker.act now action)

/-- The numbers that the counters are compared with are positive and have 32 bits. -/
structure FitsCounters (settings : Settings.Breaker) : Prop where
  failures : 0 < settings.failureThreshold ∧ settings.failureThreshold < counterLimit
  successes : 0 < settings.successThreshold ∧ settings.successThreshold < counterLimit
  trials : 0 < settings.trialLimit ∧ settings.trialLimit < counterLimit

/-! ## Entries and counters -/

section Entries

variable {entry : Entry} (earlier : List Entry)

theorem recentFailures_of_clears (hclears : entry.succeeds = true ∨ entry.closes = true) :
    recentFailures (entry :: earlier) = 0 := by
  rw [recentFailures, List.takeWhile_cons_of_neg]
  · rfl
  · rcases hclears with hsucceeds | hcloses
    · simp [hsucceeds]
    · simp [hcloses]

theorem recentFailures_cons (hsucceeds : entry.succeeds = false) (hcloses : entry.closes = false) :
    recentFailures (entry :: earlier) = recentFailures earlier + if entry.fails then 1 else 0 := by
  rw [recentFailures, List.takeWhile_cons_of_pos (by simp [hsucceeds, hcloses]), List.countP_cons]
  rfl

theorem recentFailures_of_fails (hfails : entry.fails = true) (hcloses : entry.closes = false) :
    recentFailures (entry :: earlier) = recentFailures earlier + 1 := by
  have haction : entry.call.action = .fail := by simpa [Entry.fails] using hfails
  have hsucceeds : entry.succeeds = false := by
    rw [Entry.succeeds, haction]
    rfl
  rw [recentFailures_cons earlier hsucceeds hcloses, if_pos hfails]

theorem openedAt?_of_opens (hopens : entry.opens = true) :
    openedAt? (entry :: earlier) = some entry.call.now := by
  rw [openedAt?, List.find?_cons_of_pos hopens]
  rfl

theorem openedAt?_cons (hopens : entry.opens = false) :
    openedAt? (entry :: earlier) = openedAt? earlier := by
  rw [openedAt?, List.find?_cons_of_neg (by simp [hopens])]
  rfl

end Entries

/-- What entries say of the counters in a state, and what the settings allow. -/
inductive Counts (settings : Settings.Breaker) : State → List Entry → Prop where
  | closed {failures : Nat} {entries : List Entry} (hfailures : failures = recentFailures entries)
      (hfew : failures < settings.failureThreshold) : Counts settings (.closed failures) entries
  | opened {since : Nat} {entries : List Entry} (hsince : openedAt? entries = some since) :
      Counts settings (.opened since) entries
  | halfOpen {successes trials : Nat} {entries : List Entry}
      (hfew : successes < settings.successThreshold) (hroom : trials ≤ settings.trialLimit) :
      Counts settings (.halfOpen successes trials) entries

/-- A breaker that counts within its settings has room to raise any of its counters. -/
theorem actWithin?_eq {breaker : Breaker} {entries : List Entry} (hfits : FitsCounters breaker.settings)
    (hcounts : Counts breaker.settings breaker.state entries) (now : Nat) (action : Action) :
    breaker.actWithin? now action = some (breaker.act now action) := by
  have hraise : ∀ {count limit : Nat}, count < limit → limit < counterLimit →
      raise? count = some (count + 1) := fun hcount hlimit =>
    if_pos (Nat.lt_of_le_of_lt hcount hlimit)
  generalize hstate : breaker.state = state at hcounts
  cases action with
  | proceed =>
      cases hcounts with
      | closed hfailures hfew => simp only [actWithin?, hstate]
      | opened hsince => simp only [actWithin?, hstate]
      | @halfOpen successes trials _ hfew hroom =>
          simp only [actWithin?, hstate, act, proceed]
          split
          · next htrial => rw [hraise htrial hfits.trials.2]; rfl
          · rfl
  | succeed =>
      cases hcounts with
      | closed hfailures hfew => simp only [actWithin?, hstate]
      | opened hsince => simp only [actWithin?, hstate]
      | halfOpen hfew hroom =>
          simp only [actWithin?, hstate, act, succeed, hraise hfew hfits.successes.2, Option.map_some]
          split <;> rfl
  | fail =>
      cases hcounts with
      | closed hfailures hfew =>
          simp only [actWithin?, hstate, act, fail, hraise hfew hfits.failures.2, Option.map_some]
          split <;> rfl
      | opened hsince => simp only [actWithin?, hstate]
      | halfOpen hfew hroom => simp only [actWithin?, hstate]

namespace History

variable {history : History}

def IsCounted (history : History) : Prop :=
  Counts history.breaker.settings history.breaker.state history.entries

theorem isCounted_start (name : String) {settings : Settings.Breaker} (hfits : FitsCounters settings) :
    (start name settings).IsCounted := .closed rfl hfits.failures.1

/-- Every call, orderly or not, keeps to the count. -/
theorem IsCounted.call (hcounted : history.IsCounted) (hfits : FitsCounters history.breaker.settings)
    (call : Call) : (history.call call).IsCounted := by
  obtain ⟨changed, answer, hacts, hcall⟩ := history.exists_acts call
  obtain ⟨request, action, now⟩ := call
  have hfound : Counts history.breaker.settings history.breaker.state history.entries := hcounted
  rw [hcall]
  change Counts changed.settings changed.state
    (⟨⟨request, action, now⟩, answer, history.breaker.state, changed.state⟩ :: history.entries)
  rw [hacts.settings]
  cases hacts with
  | admitted hstate =>
      rw [hstate] at hfound ⊢
      cases hfound with
      | closed hfailures hfew =>
          refine .closed ?_ hfew
          rw [recentFailures_cons _ rfl rfl, hfailures]
          rfl
  | probed hstate hdue => exact .halfOpen hfits.successes.1 hfits.trials.1
  | tried hstate hroom =>
      rw [hstate] at hfound
      cases hfound with
      | halfOpen hfew _ => exact .halfOpen hfew hroom
  | refused hfull =>
      have hkept : history.breaker.refuse.1.state = history.breaker.state := rfl
      rw [hkept]
      rcases hfull with ⟨since, hstate, -⟩ | ⟨successes, trials, hstate, -⟩
      · rw [hstate] at hfound ⊢
        cases hfound with
        | opened hsince => exact .opened ((openedAt?_cons _ rfl).trans hsince)
      · rw [hstate] at hfound ⊢
        cases hfound with
        | halfOpen hfew hroom => exact .halfOpen hfew hroom
  | cleared hstate | closed hstate =>
      exact .closed (recentFailures_of_clears _ (Or.inl rfl)).symm hfits.failures.1
  | counted hstate hfew =>
      rw [hstate] at hfound
      cases hfound with
      | halfOpen _ hroom => exact .halfOpen hfew (Nat.le_trans (Nat.sub_le _ _) hroom)
  | failed hstate hfew =>
      rw [hstate] at hfound ⊢
      cases hfound with
      | closed hfailures _ =>
          refine .closed ?_ hfew
          rw [recentFailures_of_fails _ rfl rfl, hfailures]
  | tripped hstate =>
      have hclear : history.breaker.state.isOpened = false := by
        rcases hstate with ⟨failures, hstate, -⟩ | ⟨successes, trials, hstate⟩
        all_goals
          rw [hstate]
          rfl
      exact .opened (openedAt?_of_opens _ (by rw [Entry.opens, hclear]; rfl))
  | succeededOpen hstate | failedOpen hstate =>
      rw [hstate] at hfound ⊢
      cases hfound with
      | opened hsince => exact .opened ((openedAt?_cons _ rfl).trans hsince)

theorem IsCounted.run (hcounted : history.IsCounted) (hfits : FitsCounters history.breaker.settings)
    (calls : List Call) : (history.run calls).IsCounted := by
  induction calls generalizing history with
  | nil => exact hcounted
  | cons call rest ih =>
      refine ih (hcounted.call hfits call) ?_
      rw [settings_call]
      exact hfits

/-- A closed breaker opens exactly at the failure that makes up the threshold. -/
theorem IsCounted.opens_iff (hcounted : history.IsCounted)
    (hclosed : history.breaker.state.isClosed = true) (call : Call) (since : Nat) :
    (history.call call).breaker.state = .opened since ↔
      call.action = .fail ∧ since = call.now ∧
        recentFailures (history.call call).entries = history.breaker.settings.failureThreshold := by
  obtain ⟨changed, answer, hacts, hcall⟩ := history.exists_acts call
  obtain ⟨request, action, now⟩ := call
  have hfound : Counts history.breaker.settings history.breaker.state history.entries := hcounted
  rw [hcall]
  dsimp only
  cases hacts with
  | admitted hstate | cleared hstate =>
      constructor
      · intro hopened
        cases hopened
      · rintro ⟨hfails, -⟩
        cases hfails
  | @failed failures hstate hfew =>
      rw [hstate] at hfound ⊢
      cases hfound with
      | closed hfailures _ =>
          rw [recentFailures_of_fails _ rfl rfl, ← hfailures]
          constructor
          · intro hopened
            cases hopened
          · rintro ⟨-, -, hthreshold⟩
            exact absurd hthreshold (Nat.ne_of_lt hfew)
  | tripped hstate =>
      rcases hstate with ⟨failures, hstate, henough⟩ | ⟨successes, trials, hstate⟩
      · rw [hstate] at hfound ⊢
        cases hfound with
        | closed hfailures hfew =>
            have hthreshold : failures + 1 = history.breaker.settings.failureThreshold :=
              Nat.le_antisymm hfew henough
            rw [recentFailures_of_fails _ rfl rfl, ← hfailures]
            constructor
            · intro hopened
              cases hopened
              exact ⟨rfl, rfl, hthreshold⟩
            · rintro ⟨-, rfl, -⟩
              rfl
      · rw [hstate] at hclosed
        cases hclosed
  | probed hstate | tried hstate | counted hstate | closed hstate | succeededOpen hstate
  | failedOpen hstate =>
      rw [hstate] at hclosed
      cases hclosed
  | refused hfull =>
      rcases hfull with ⟨since, hstate, -⟩ | ⟨successes, trials, hstate, -⟩
      all_goals
        rw [hstate] at hclosed
        cases hclosed

/-! ## An open breaker -/

/-- Reports do nothing to the state of an open breaker. -/
theorem state_call_of_reports {since : Nat} (hopened : history.breaker.state = .opened since) {call : Call}
    (hreports : call.action ≠ .proceed) : (history.call call).breaker.state = .opened since := by
  obtain ⟨changed, answer, hacts, hcall⟩ := history.exists_acts call
  obtain ⟨request, action, now⟩ := call
  rw [hcall]
  cases hacts with
  | admitted | probed | tried | refused => exact absurd rfl hreports
  | cleared hother | counted hother | closed hother | failed hother => cases hopened.symm.trans hother
  | tripped hother =>
      rcases hother with ⟨failures, hother, -⟩ | ⟨successes, trials, hother⟩
      all_goals cases hopened.symm.trans hother
  | succeededOpen hstate | failedOpen hstate =>
      cases hopened.symm.trans hstate
      rfl

/-- An open breaker refuses, and stays open, until its time is up. -/
theorem call_of_opened {since : Nat} (hopened : history.breaker.state = .opened since) {call : Call}
    (hasks : call.action = .proceed) :
    (history.breaker.act call.now call.action).2 =
        some (decide (history.breaker.settings.openDuration.nanoseconds ≤ call.now - since)) ∧
      (call.now - since < history.breaker.settings.openDuration.nanoseconds →
        (history.call call).breaker.state = .opened since) := by
  have hacted : history.breaker.act call.now call.action =
      if history.breaker.settings.openDuration.nanoseconds ≤ call.now - since then
        ((history.breaker.letThrough (.halfOpen 0 1)).1, some true)
      else (history.breaker.refuse.1, some false) := by
    rw [hasks, act, proceed, hopened]
    dsimp only
    split <;> rfl
  constructor
  · rw [hacted]
    split
    · next hdue => rw [decide_eq_true hdue]
    · next hearly => rw [decide_eq_false hearly]
  · intro hearly
    rw [History.call, hacted, if_neg (Nat.not_le_of_lt hearly)]
    exact hopened

/-- What the counters and the times in a state are, and what the next call makes of it. -/
structure KeepsCount (settings : Settings.Breaker) (history : History) : Prop where
  /-- A closed breaker counts the failures since the last success or since it closed. -/
  failures : ∀ failures, history.breaker.state = .closed failures →
    failures = recentFailures history.entries ∧ failures < settings.failureThreshold
  /-- It opens at the failure that makes up the threshold, and at no other call. -/
  trips : history.breaker.state.isClosed = true → ∀ (call : Call) (since : Nat),
    (history.call call).breaker.state = .opened since ↔
      call.action = .fail ∧ since = call.now ∧
        recentFailures (history.call call).entries = settings.failureThreshold
  trials : ∀ successes trials, history.breaker.state = .halfOpen successes trials →
    successes < settings.successThreshold ∧ trials ≤ settings.trialLimit
  /-- An open breaker has its time from the call that opened it. -/
  opened : ∀ since, history.breaker.state = .opened since → openedAt? history.entries = some since
  /-- Nothing that is reported changes it. -/
  reports : ∀ since, history.breaker.state = .opened since → ∀ call : Call, call.action ≠ .proceed →
    (history.call call).breaker.state = .opened since
  /-- It lets a request through exactly if its time is up. -/
  waits : ∀ since, history.breaker.state = .opened since → ∀ call : Call, call.action = .proceed →
    (history.breaker.act call.now call.action).2 =
      some (decide (settings.openDuration.nanoseconds ≤ call.now - since))
  /-- Only such a request takes it out of the open state. -/
  leaves : ∀ since, history.breaker.state = .opened since → ∀ call : Call,
    (history.call call).breaker.state ≠ .opened since →
    call.action = .proceed ∧ settings.openDuration.nanoseconds ≤ call.now - since
  /-- No counter of the state overflows its 32 bits. -/
  fits : ∀ call : Call, history.breaker.actWithin? call.now call.action =
    some (history.breaker.act call.now call.action)

/-- A breaker keeps count whatever calls it has had. -/
theorem keepsCount_run (name : String) (settings : Settings.Breaker) (calls : List Call)
    (hfits : FitsCounters settings) : ((start name settings).run calls).KeepsCount settings := by
  have hsettings : ((start name settings).run calls).breaker.settings = settings :=
    settings_run (start name settings) calls
  have hcounted : ((start name settings).run calls).IsCounted :=
    (isCounted_start name hfits).run hfits calls
  generalize (start name settings).run calls = history at hsettings hcounted
  subst hsettings
  have hfound : Counts history.breaker.settings history.breaker.state history.entries := hcounted
  constructor
  · intro failures hstate
    rw [hstate] at hfound
    cases hfound with
    | closed hfailures hfew => exact ⟨hfailures, hfew⟩
  · exact fun hclosed call since => hcounted.opens_iff hclosed call since
  · intro successes trials hstate
    rw [hstate] at hfound
    cases hfound with
    | halfOpen hfew hroom => exact ⟨hfew, hroom⟩
  · intro since hstate
    rw [hstate] at hfound
    cases hfound with
    | opened hsince => exact hsince
  · exact fun since hstate call hreports => state_call_of_reports hstate hreports
  · exact fun since hstate call hasks => (call_of_opened hstate hasks).1
  · intro since hstate call hleaves
    have hasks : call.action = .proceed :=
      Decidable.of_not_not fun hreports => hleaves (state_call_of_reports hstate hreports)
    refine ⟨hasks, Nat.le_of_not_lt fun hearly => hleaves ?_⟩
    exact (call_of_opened hstate hasks).2 hearly
  · exact fun call => actWithin?_eq hfits hfound call.now call.action

/-- Reports that no request owes come at any time.  A success clears the first failure, the next two open
the breaker, and it ignores a report until a request comes when its time is up; two successes without a
request close it again. -/
def disorderlyCalls : List Call :=
  [⟨1, .fail, 0⟩, ⟨1, .succeed, 1⟩, ⟨2, .fail, 2⟩, ⟨2, .fail, 3⟩, ⟨2, .succeed, 4⟩, ⟨3, .proceed, 5⟩,
    ⟨4, .proceed, 1000000004⟩, ⟨5, .succeed, 1000000004⟩, ⟨5, .succeed, 1000000004⟩, ⟨6, .fail, 1000000005⟩]

theorem keepsCount_run_disorderly :
    ((start "orders" ⟨2, .ofSeconds 1, 2, 1⟩).run disorderlyCalls).KeepsCount ⟨2, .ofSeconds 1, 2, 1⟩ :=
  keepsCount_run "orders" ⟨2, .ofSeconds 1, 2, 1⟩ disorderlyCalls ⟨by decide, by decide, by decide⟩

end History

end ApiGateway.Breaker
