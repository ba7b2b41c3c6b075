import ApiGateway.Proofs.Breaker.History

/-!
# The books of a breaker

The tally of a breaker counts the entries of its history, whoever calls it.  If the requests are orderly,
those that were admitted have succeeded or failed or are still under way, and a half-open breaker counts
no more trials than requests are under way.  So a breaker that waits for no request lets the next one
through, once its time is up.
-/

namespace ApiGateway.Breaker

def Tally.ofEntries (entries : List Entry) : Tally where
  total := entries.countP Entry.admits
  succeeded := entries.countP Entry.succeeds
  failed := entries.countP Entry.fails
  rejected := entries.countP Entry.refuses
  opened := entries.countP Entry.opens

/-- One call counts as one entry. -/
theorem tally_call {history : History} (htally : history.breaker.tally = .ofEntries history.entries)
    (call : Call) :
    (history.call call).breaker.tally = .ofEntries (history.call call).entries := by
  obtain ⟨changed, answer, hacts, hcall⟩ := history.exists_acts call
  obtain ⟨request, action, now⟩ := call
  rw [hcall]
  have hcounted : ∀ entry : Entry, Tally.ofEntries (entry :: history.entries) =
      { total := history.breaker.tally.total + if entry.admits then 1 else 0
        succeeded := history.breaker.tally.succeeded + if entry.succeeds then 1 else 0
        failed := history.breaker.tally.failed + if entry.fails then 1 else 0
        rejected := history.breaker.tally.rejected + if entry.refuses then 1 else 0
        opened := history.breaker.tally.opened + if entry.opens then 1 else 0 } := by
    intro entry
    simp only [Tally.ofEntries, List.countP_cons, htally]
  rw [hcounted]
  cases hacts with
  | refused hfull =>
      rcases hfull with ⟨since, hstate, -⟩ | ⟨successes, trials, hstate, -⟩
      all_goals
        rw [refuse, hstate]
        rfl
  | tripped hstate =>
      rcases hstate with ⟨failures, hstate, -⟩ | ⟨successes, trials, hstate⟩
      all_goals
        rw [hstate]
        rfl
  | admitted hstate | probed hstate | tried hstate | cleared hstate | counted hstate | closed hstate
  | failed hstate | succeededOpen hstate | failedOpen hstate =>
      rw [hstate]
      rfl

theorem tally_run {history : History} (htally : history.breaker.tally = .ofEntries history.entries)
    (calls : List Call) :
    (history.run calls).breaker.tally = .ofEntries (history.run calls).entries := by
  induction calls generalizing history with
  | nil => exact htally
  | cons call rest ih => exact ih (tally_call htally call)

/-! ## Requests under way -/

/-- The requests of a history are accounted for, and so are the trials of a half-open breaker. -/
structure History.IsBalanced (history : History) : Prop where
  requests : history.entries.countP Entry.admits = history.entries.countP Entry.succeeds +
    history.entries.countP Entry.fails + (unreported history.entries).length
  trials : ∀ successes trials, history.breaker.state = .halfOpen successes trials →
    trials ≤ (unreported history.entries).length

theorem History.isBalanced_start (name : String) (settings : Settings.Breaker) :
    (start name settings).IsBalanced where
  requests := rfl
  trials := by
    intro successes trials hstate
    cases hstate

namespace History.IsBalanced

variable {history : History} {request now : Nat} {changed : Breaker}

theorem admits (hbalanced : history.IsBalanced)
    (htrials : ∀ successes trials, changed.state = .halfOpen successes trials →
      trials ≤ (unreported history.entries).length + 1) :
    (⟨changed, ⟨⟨request, .proceed, now⟩, some true, history.breaker.state, changed.state⟩ ::
      history.entries⟩ : History).IsBalanced := by
  have hrequests := hbalanced.requests
  constructor
  · rw [unreported_of_admits _ rfl]
    simp +decide only [List.countP_cons, List.length_cons, Entry.admits, Entry.succeeds, Entry.fails,
      if_true, if_false]
    omega
  · rw [unreported_of_admits _ rfl]
    exact htrials

theorem refuses (hbalanced : history.IsBalanced) (hstate : changed.state = history.breaker.state) :
    (⟨changed, ⟨⟨request, .proceed, now⟩, some false, history.breaker.state, changed.state⟩ ::
      history.entries⟩ : History).IsBalanced := by
  have hrequests := hbalanced.requests
  constructor
  · rw [unreported_of_refuses _ rfl rfl]
    simp +decide only [List.countP_cons, Entry.admits, Entry.succeeds, Entry.fails, if_false]
    exact hrequests
  · rw [unreported_of_refuses _ rfl rfl, hstate]
    exact hbalanced.trials

theorem reports (hbalanced : history.IsBalanced) {action : Action} (hreport : action ≠ .proceed)
    (hunreported : request ∈ unreported history.entries)
    (htrials : ∀ successes trials, changed.state = .halfOpen successes trials →
      trials ≤ (unreported history.entries).length - 1) :
    (⟨changed, ⟨⟨request, action, now⟩, none, history.breaker.state, changed.state⟩ ::
      history.entries⟩ : History).IsBalanced := by
  have hrequests := hbalanced.requests
  have hlength := List.length_erase_of_mem hunreported
  have hpositive := List.length_pos_of_mem hunreported
  have hentry : (⟨⟨request, action, now⟩, none, history.breaker.state, changed.state⟩ :
      Entry).reports = true := by
    simpa [Entry.reports] using hreport
  constructor
  · rw [unreported_of_reports _ rfl hentry, hlength]
    cases action with
    | proceed => exact absurd rfl hreport
    | succeed =>
        simp +decide only [List.countP_cons, Entry.admits, Entry.succeeds, Entry.fails, if_true, if_false]
        omega
    | fail =>
        simp +decide only [List.countP_cons, Entry.admits, Entry.succeeds, Entry.fails, if_true, if_false]
        omega
  · rw [unreported_of_reports _ rfl hentry, hlength]
    exact htrials

/-- An orderly call keeps the balance. -/
theorem call (hbalanced : history.IsBalanced) {call : Call} (hallowed : history.Allows call) :
    (history.call call).IsBalanced := by
  obtain ⟨changed, answer, hacts, hcall⟩ := history.exists_acts call
  obtain ⟨request, action, now⟩ := call
  rw [hcall]
  have htrials := hbalanced.trials
  cases hacts with
  | admitted hstate =>
      refine hbalanced.admits fun successes trials heq => ?_
      cases heq
  | probed hstate hdue =>
      refine hbalanced.admits fun successes trials heq => ?_
      cases heq
      omega
  | tried hstate hroom =>
      refine hbalanced.admits fun successes trials heq => ?_
      cases heq
      exact Nat.succ_le_succ (htrials _ _ hstate)
  | refused hfull => exact hbalanced.refuses rfl
  | counted hstate hfew =>
      refine hbalanced.reports (by decide) hallowed fun successes trials heq => ?_
      cases heq
      exact Nat.sub_le_sub_right (htrials _ _ hstate) 1
  | cleared hstate | closed hstate | failed hstate | tripped hstate | succeededOpen hstate
  | failedOpen hstate =>
      refine hbalanced.reports (by decide) hallowed fun successes trials heq => ?_
      cases heq

theorem run (hbalanced : history.IsBalanced) {calls : List Call} (hfollows : history.Follows calls) :
    (history.run calls).IsBalanced :=
  run_induction hbalanced hfollows fun _ _ hkept hallowed => hkept.call hallowed

end History.IsBalanced

/-! ## Admission -/

/-- A breaker lets a request through unless it is open and its time is not up, or all its trials are
under way. -/
theorem proceed_admits {breaker : Breaker} {now : Nat}
    (hdue : ∀ since, breaker.state = .opened since →
      breaker.settings.openDuration.nanoseconds ≤ now - since)
    (hroom : ∀ successes trials, breaker.state = .halfOpen successes trials →
      trials < breaker.settings.trialLimit) : (breaker.proceed now).2 = true := by
  rw [proceed]
  cases hstate : breaker.state with
  | closed failures => rfl
  | opened since =>
      simp only [if_pos (hdue since hstate)]
      rfl
  | halfOpen successes trials =>
      simp only [if_pos (hroom successes trials hstate)]
      rfl

structure History.BooksBalance (history : History) : Prop where
  /-- Requests that were let through have succeeded or failed, or have not reported. -/
  total : history.breaker.tally.total = history.breaker.tally.succeeded +
    history.breaker.tally.failed + (unreported history.entries).length
  rejected : history.breaker.tally.rejected = history.entries.countP Entry.refuses
  opened : history.breaker.tally.opened = history.entries.countP Entry.opens
  trials : ∀ successes trials, history.breaker.state = .halfOpen successes trials →
    trials ≤ (unreported history.entries).length
  /-- The breaker is not stuck: if all requests have reported, the next one is let through. -/
  admits : unreported history.entries = [] → ∀ now,
    (∀ since, history.breaker.state = .opened since →
      history.breaker.settings.openDuration.nanoseconds ≤ now - since) →
    (history.breaker.proceed now).2 = true

/-- The books of a breaker balance after any orderly calls. -/
theorem booksBalance_run (name : String) (settings : Settings.Breaker) (calls : List Call)
    (hlimit : 0 < settings.trialLimit) (hfollows : (History.start name settings).Follows calls) :
    ((History.start name settings).run calls).BooksBalance := by
  have htally := @tally_run (History.start name settings) rfl calls
  have hbalanced := (History.isBalanced_start name settings).run hfollows
  constructor
  · rw [htally]
    exact hbalanced.requests
  · rw [htally]
    rfl
  · rw [htally]
    rfl
  · exact hbalanced.trials
  · intro hreported now hdue
    refine proceed_admits hdue fun successes trials hstate => ?_
    have htrials := hbalanced.trials successes trials hstate
    rw [hreported, List.length_nil] at htrials
    rw [History.settings_run]
    exact Nat.lt_of_le_of_lt htrials hlimit

/-- Two requests are let through before the breaker opens, and one as a trial; the second of the others
reports late. -/
theorem booksBalance_run_late : ((History.start "orders" ⟨1, .zero, 2, 1⟩).run
    [⟨1, .proceed, 0⟩, ⟨2, .proceed, 0⟩, ⟨1, .fail, 0⟩, ⟨3, .proceed, 0⟩,
      ⟨2, .succeed, 0⟩]).BooksBalance :=
  booksBalance_run "orders" ⟨1, .zero, 2, 1⟩ _ (by decide) (by decide)

end ApiGateway.Breaker
