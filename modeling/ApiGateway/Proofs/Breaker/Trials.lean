import ApiGateway.Proofs.Breaker.History

/-!
# Trials and late reports

While a breaker is half-open it counts trials and their successes by bare numbers.  A report of a request
that was let through before the breaker last opened is late; it is taken for the report of a trial.  So
more trials may be under way than the limit allows, and fewer may have succeeded than the threshold asks
for, but by no more than there are late reports.
-/

namespace ApiGateway.Breaker

/-- The reports that a half-open breaker took from requests that, by these entries, were not under way. -/
def late : List Entry → List Entry
  | [] => []
  | entry :: earlier =>
      if entry.reports ∧ entry.found.isHalfOpen ∧ entry.call.request ∉ unreported earlier then
        entry :: late earlier
      else late earlier

/-- The successes of requests that these entries admit. -/
def trialSuccesses : List Entry → List Entry
  | [] => []
  | entry :: earlier =>
      if entry.succeeds ∧ entry.call.request ∈ unreported earlier then entry :: trialSuccesses earlier
      else trialSuccesses earlier

/-- What the entries since a breaker last opened say of its state. -/
inductive Probes (limit : Nat) : State → List Entry → Prop where
  | closed {failures : Nat} {entries : List Entry} : Probes limit (.closed failures) entries
  | opened {since : Nat} {entries : List Entry} (hunreported : unreported entries = [])
      (hlate : late entries = []) (hsuccesses : trialSuccesses entries = []) :
      Probes limit (.opened since) entries
  | halfOpen {successes trials : Nat} {entries : List Entry}
      (hsuccesses : successes =
        (trialSuccesses entries).length + ((late entries).filter Entry.succeeds).length)
      (hlimit : trials ≤ limit) (htrials : (unreported entries).length ≤ trials + (late entries).length) :
      Probes limit (.halfOpen successes trials) entries

theorem sinceOpened_cons {entry : Entry} (entries : List Entry) (hopens : entry.opens = false) :
    sinceOpened (entry :: entries) = entry :: sinceOpened entries := by
  rw [sinceOpened, List.takeWhile_cons_of_pos (by simp [hopens])]
  rfl

theorem sinceOpened_of_opens {entry : Entry} (entries : List Entry) (hopens : entry.opens = true) :
    sinceOpened (entry :: entries) = [] := by
  rw [sinceOpened, List.takeWhile_cons_of_neg (by simp [hopens])]

theorem late_of_asks {entry : Entry} (earlier : List Entry) (hasks : entry.reports = false) :
    late (entry :: earlier) = late earlier := by
  rw [late, if_neg (by simp [hasks])]

theorem trialSuccesses_of_not_succeeds {entry : Entry} (earlier : List Entry)
    (hsucceeds : entry.succeeds = false) :
    trialSuccesses (entry :: earlier) = trialSuccesses earlier := by
  rw [trialSuccesses, if_neg (by simp [hsucceeds])]

/-- The success of a request that the entries admit. -/
theorem success_of_trial {entry : Entry} (earlier : List Entry) (hadmits : entry.admits = false)
    (hreports : entry.reports = true) (hsucceeds : entry.succeeds = true)
    (hunreported : entry.call.request ∈ unreported earlier) :
    trialSuccesses (entry :: earlier) = entry :: trialSuccesses earlier ∧
      late (entry :: earlier) = late earlier ∧
      (unreported (entry :: earlier)).length = (unreported earlier).length - 1 := by
  refine ⟨?_, ?_, ?_⟩
  · rw [trialSuccesses, if_pos ⟨hsucceeds, hunreported⟩]
  · rw [late, if_neg (by simp [hunreported])]
  · rw [unreported_of_reports earlier hadmits hreports, List.length_erase_of_mem hunreported]

/-- The success of a request that was let through before the entries begin. -/
theorem success_of_late {entry : Entry} (earlier : List Entry) (hadmits : entry.admits = false)
    (hreports : entry.reports = true) (hfound : entry.found.isHalfOpen = true)
    (hothers : entry.call.request ∉ unreported earlier) :
    trialSuccesses (entry :: earlier) = trialSuccesses earlier ∧
      late (entry :: earlier) = entry :: late earlier ∧
      unreported (entry :: earlier) = unreported earlier := by
  refine ⟨?_, ?_, ?_⟩
  · rw [trialSuccesses, if_neg (by simp [hothers])]
  · rw [late, if_pos ⟨hreports, hfound, hothers⟩]
  · rw [unreported_of_reports earlier hadmits hreports, List.erase_of_not_mem hothers]

namespace Probes

variable {limit successes trials since : Nat} {entries : List Entry} {entry : Entry}

theorem successes_eq (hprobes : Probes limit (.halfOpen successes trials) entries) :
    successes = (trialSuccesses entries).length + ((late entries).filter Entry.succeeds).length := by
  cases hprobes with
  | halfOpen hsuccesses hlimit htrials => exact hsuccesses

theorem unreported_le (hprobes : Probes limit (.halfOpen successes trials) entries) :
    (unreported entries).length ≤ limit + (late entries).length := by
  cases hprobes with
  | halfOpen hsuccesses hlimit htrials => omega

/-- To an open breaker nothing happens. -/
theorem stayOpen (hprobes : Probes limit (.opened since) entries) (hadmits : entry.admits = false)
    (hfound : entry.found = .opened since) : Probes limit (.opened since) (entry :: entries) := by
  cases hprobes with
  | opened hunreported hlate hsuccesses =>
      refine .opened ?_ ?_ ?_
      · cases hreports : entry.reports with
        | true =>
            rw [unreported_of_reports entries hadmits hreports, hunreported]
            rfl
        | false => rw [unreported_of_refuses entries hadmits hreports, hunreported]
      · rw [late, if_neg (by simp [hfound, State.isHalfOpen]), hlate]
      · rw [trialSuccesses, if_neg (by simp [hunreported]), hsuccesses]

/-- The first trial. -/
theorem firstTrial (hprobes : Probes limit (.opened since) entries) (hlimit : 0 < limit)
    (hadmits : entry.admits = true) (hasks : entry.reports = false) (hsucceeds : entry.succeeds = false) :
    Probes limit (.halfOpen 0 1) (entry :: entries) := by
  cases hprobes with
  | opened hunreported hlate hsuccesses =>
      have hnone := late_of_asks entries hasks
      refine .halfOpen ?_ hlimit ?_
      · rw [trialSuccesses_of_not_succeeds entries hsucceeds, hsuccesses, hnone, hlate]
        rfl
      · rw [unreported_of_admits entries hadmits, hunreported, hnone, hlate]
        exact Nat.le_refl 1

theorem furtherTrial (hprobes : Probes limit (.halfOpen successes trials) entries)
    (hroom : trials < limit) (hadmits : entry.admits = true) (hasks : entry.reports = false)
    (hsucceeds : entry.succeeds = false) :
    Probes limit (.halfOpen successes (trials + 1)) (entry :: entries) := by
  cases hprobes with
  | halfOpen hsuccesses hlimit htrials =>
      have hnone := late_of_asks entries hasks
      refine .halfOpen ?_ hroom ?_
      · rw [trialSuccesses_of_not_succeeds entries hsucceeds, hnone]
        exact hsuccesses
      · rw [unreported_of_admits entries hadmits, hnone, List.length_cons]
        omega

theorem refused (hprobes : Probes limit (.halfOpen successes trials) entries)
    (hadmits : entry.admits = false) (hasks : entry.reports = false) (hsucceeds : entry.succeeds = false) :
    Probes limit (.halfOpen successes trials) (entry :: entries) := by
  cases hprobes with
  | halfOpen hsuccesses hlimit htrials =>
      have hnone := late_of_asks entries hasks
      refine .halfOpen ?_ hlimit ?_
      · rw [trialSuccesses_of_not_succeeds entries hsucceeds, hnone]
        exact hsuccesses
      · rw [unreported_of_refuses entries hadmits hasks, hnone]
        exact htrials

/-- A half-open breaker counts every success, be it that of a trial or a late one. -/
theorem success (hprobes : Probes limit (.halfOpen successes trials) entries)
    (hadmits : entry.admits = false) (hreports : entry.reports = true)
    (hsucceeds : entry.succeeds = true) (hfound : entry.found.isHalfOpen = true) :
    Probes limit (.halfOpen (successes + 1) (trials - 1)) (entry :: entries) := by
  cases hprobes with
  | halfOpen hsuccesses hlimit htrials =>
      by_cases hunreported : entry.call.request ∈ unreported entries
      · obtain ⟨hgained, hlate, hlength⟩ :=
          success_of_trial entries hadmits hreports hsucceeds hunreported
        refine .halfOpen ?_ (by omega) ?_
        · rw [hgained, hlate, hsuccesses, List.length_cons]
          omega
        · rw [hlength, hlate]
          omega
      · obtain ⟨hsame, hlate, hkept⟩ := success_of_late entries hadmits hreports hfound hunreported
        refine .halfOpen ?_ (by omega) ?_
        · rw [hsame, hlate, hsuccesses, List.filter_cons_of_pos hsucceeds, List.length_cons]
          omega
        · rw [hkept, hlate, List.length_cons]
          omega

end Probes

namespace History

def IsProbed (history : History) : Prop :=
  Probes history.breaker.settings.trialLimit history.breaker.state (sinceOpened history.entries)

theorem isProbed_start (name : String) (settings : Settings.Breaker) :
    (start name settings).IsProbed := .closed

/-- Every call, orderly or not, keeps to the entries. -/
theorem IsProbed.call {history : History} (hprobed : history.IsProbed)
    (hlimit : 0 < history.breaker.settings.trialLimit) (call : Call) :
    (history.call call).IsProbed := by
  obtain ⟨changed, answer, hacts, hcall⟩ := history.exists_acts call
  obtain ⟨request, action, now⟩ := call
  have hfound : Probes history.breaker.settings.trialLimit history.breaker.state
      (sinceOpened history.entries) := hprobed
  rw [hcall]
  change Probes changed.settings.trialLimit changed.state
    (sinceOpened (⟨⟨request, action, now⟩, answer, history.breaker.state, changed.state⟩ ::
      history.entries))
  rw [hacts.settings]
  cases hacts with
  | admitted hstate | cleared hstate | closed hstate | failed hstate => exact .closed
  | probed hstate hdue =>
      rw [hstate] at hfound ⊢
      rw [sinceOpened_cons _ rfl]
      exact hfound.firstTrial hlimit rfl rfl rfl
  | tried hstate hroom =>
      rw [hstate] at hfound ⊢
      rw [sinceOpened_cons _ rfl]
      exact hfound.furtherTrial hroom rfl rfl rfl
  | refused hfull =>
      have hkept : history.breaker.refuse.1.state = history.breaker.state := rfl
      rw [hkept]
      rcases hfull with ⟨since, hstate, -⟩ | ⟨successes, trials, hstate, -⟩
      · rw [hstate] at hfound ⊢
        rw [sinceOpened_cons _ rfl]
        exact hfound.stayOpen rfl rfl
      · rw [hstate] at hfound ⊢
        rw [sinceOpened_cons _ rfl]
        exact hfound.refused rfl rfl rfl
  | counted hstate hfew =>
      rw [hstate] at hfound ⊢
      rw [sinceOpened_cons _ rfl]
      exact hfound.success rfl rfl rfl rfl
  | tripped hstate =>
      have hclear : history.breaker.state.isOpened = false := by
        rcases hstate with ⟨failures, hstate, -⟩ | ⟨successes, trials, hstate⟩
        all_goals
          rw [hstate]
          rfl
      rw [sinceOpened_of_opens]
      · exact .opened rfl rfl rfl
      · rw [Entry.opens, hclear]
        rfl
  | succeededOpen hstate | failedOpen hstate =>
      rw [hstate] at hfound ⊢
      rw [sinceOpened_cons _ rfl]
      exact hfound.stayOpen rfl rfl

theorem IsProbed.run {history : History} (hprobed : history.IsProbed)
    (hlimit : 0 < history.breaker.settings.trialLimit) (calls : List Call) :
    (history.run calls).IsProbed := by
  induction calls generalizing history with
  | nil => exact hprobed
  | cons call rest ih =>
      refine ih (hprobed.call hlimit call) ?_
      rw [settings_call]
      exact hlimit

/-- Of the requests that were let through since the breaker last opened, those under way are trials that it
still counts, or a late report has freed their place. -/
theorem IsProbed.unreported_le {history : History} (hprobed : history.IsProbed)
    (hhalfOpen : history.breaker.state.isHalfOpen = true) :
    (unreported (sinceOpened history.entries)).length ≤
      history.breaker.settings.trialLimit + (late (sinceOpened history.entries)).length := by
  have hfound : Probes history.breaker.settings.trialLimit history.breaker.state
      (sinceOpened history.entries) := hprobed
  cases hstate : history.breaker.state with
  | halfOpen successes trials =>
      rw [hstate] at hfound
      exact hfound.unreported_le
  | closed failures | opened since =>
      rw [hstate] at hhalfOpen
      cases hhalfOpen

/-- A half-open breaker closes at a success, and counts it first. -/
theorem IsProbed.threshold_le {history : History} (hprobed : history.IsProbed) {call : Call}
    {failures : Nat} (hhalfOpen : history.breaker.state.isHalfOpen = true)
    (hcloses : (history.call call).breaker.state = .closed failures) :
    history.breaker.settings.successThreshold ≤
      (trialSuccesses (sinceOpened (history.call call).entries)).length +
        ((late (sinceOpened (history.call call).entries)).filter Entry.succeeds).length := by
  obtain ⟨changed, answer, hacts, hcall⟩ := history.exists_acts call
  obtain ⟨request, action, now⟩ := call
  have hfound : Probes history.breaker.settings.trialLimit history.breaker.state
      (sinceOpened history.entries) := hprobed
  rw [hcall] at hcloses ⊢
  cases hacts with
  | closed hstate henough =>
      rw [hstate] at hfound
      rw [hstate, sinceOpened_cons _ rfl]
      exact Nat.le_trans henough (Nat.le_of_eq (hfound.success rfl rfl rfl rfl).successes_eq)
  | probed hstate | tried hstate | counted hstate | tripped hstate | succeededOpen hstate
  | failedOpen hstate => cases hcloses
  | admitted hstate | cleared hstate | failed hstate =>
      rw [hstate] at hhalfOpen
      cases hhalfOpen
  | refused hfull =>
      have hstate : history.breaker.state = .closed failures := hcloses
      rw [hstate] at hhalfOpen
      cases hhalfOpen

/-- Whatever calls a breaker has had, while it is half-open the requests that were let through since it last
opened and have not reported are no more than the limit and the late reports together; and if a call closes
it then, the successes of such requests and the late ones together reach the threshold.  Without late
reports the trials alone decide. -/
theorem trials_or_late_reports_decide (name : String) (settings : Settings.Breaker) (calls : List Call)
    (hlimit : 0 < settings.trialLimit) :
    (((start name settings).run calls).breaker.state.isHalfOpen = true →
      (unreported (sinceOpened ((start name settings).run calls).entries)).length ≤
        settings.trialLimit + (late (sinceOpened ((start name settings).run calls).entries)).length) ∧
    ∀ call failures, ((start name settings).run calls).breaker.state.isHalfOpen = true →
      (((start name settings).run calls).call call).breaker.state = .closed failures →
      settings.successThreshold ≤
        (trialSuccesses (sinceOpened (((start name settings).run calls).call call).entries)).length +
          ((late (sinceOpened (((start name settings).run calls).call call).entries)).filter
            Entry.succeeds).length := by
  have hprobed := (isProbed_start name settings).run hlimit calls
  have hsettings := settings_run (start name settings) calls
  constructor
  · intro hhalfOpen
    have hunderWay := hprobed.unreported_le hhalfOpen
    rw [hsettings] at hunderWay
    exact hunderWay
  · intro call failures hhalfOpen hcloses
    have hthreshold := hprobed.threshold_le hhalfOpen hcloses
    rw [hsettings] at hthreshold
    exact hthreshold

/-- Opens at the first failure, at once tries again with one trial at a time, and closes after two
successes. -/
def hastySettings : Settings.Breaker := ⟨1, .zero, 2, 1⟩

/-- Two requests are let through before the breaker opens, and one as a trial.  The trial succeeds, and
the second of the others would be the next to report. -/
def overtakingCalls : List Call :=
  [⟨1, .proceed, 0⟩, ⟨2, .proceed, 0⟩, ⟨1, .fail, 0⟩, ⟨3, .proceed, 0⟩, ⟨3, .succeed, 0⟩]

/-- The late success of the second request makes up the threshold with that of the trial. -/
theorem trials_or_late_reports_decide_overtaking :
    2 ≤ (trialSuccesses (sinceOpened (((start "orders" hastySettings).run overtakingCalls).call
        ⟨2, .succeed, 0⟩).entries)).length +
      ((late (sinceOpened (((start "orders" hastySettings).run overtakingCalls).call
        ⟨2, .succeed, 0⟩).entries)).filter Entry.succeeds).length :=
  (trials_or_late_reports_decide "orders" hastySettings overtakingCalls (by decide)).2
    ⟨2, .succeed, 0⟩ 0 (by decide) (by decide)

/-- Orderly requests may close a half-open breaker although fewer trials have succeeded than the threshold
asks for. -/
theorem not_only_trials_decide : ¬ ∀ (name : String) (settings : Settings.Breaker) (calls : List Call)
    (call : Call) (failures : Nat), 0 < settings.failureThreshold → 0 < settings.successThreshold →
    0 < settings.trialLimit → (start name settings).Follows (calls ++ [call]) →
    ((start name settings).run calls).breaker.state.isHalfOpen = true →
    (((start name settings).run calls).call call).breaker.state = .closed failures →
    settings.successThreshold ≤
      (trialSuccesses (sinceOpened (((start name settings).run calls).call call).entries)).length := by
  intro honly
  have hthreshold := honly "orders" hastySettings overtakingCalls ⟨2, .succeed, 0⟩ 0 (by decide)
    (by decide) (by decide) (by decide) (by decide) (by decide)
  exact absurd hthreshold (by decide)

end History

end ApiGateway.Breaker
