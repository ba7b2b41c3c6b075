import ApiGateway.Proofs.Breaker.Generations
import ApiGateway.Proxy

/-!
# Reports of forwarded requests

A request that a breaker lets through is reported to it once, however its exchange ends; one that it refuses
is neither sent nor reported.  So when all requests have come to their end, those that were let through have
succeeded or failed, and a half-open breaker waits for no trial.  Other requests may be forwarded while an
exchange is made, and breakers may be forgotten.
-/

namespace ApiGateway

/-! ## A breaker and its requests -/

/-- The books of a breaker some of whose requests have not been reported. -/
structure Breaker.Awaits (breaker : Breaker) (requests : Nat) : Prop where
  total : breaker.tally.total = breaker.tally.succeeded + breaker.tally.failed + requests
  trials : ∀ successes trials, breaker.state = .halfOpen successes trials → trials ≤ requests

structure Breaker.IsSettled (breaker : Breaker) : Prop where
  total : breaker.tally.total = breaker.tally.succeeded + breaker.tally.failed
  trials : ∀ successes trials, breaker.state = .halfOpen successes trials → trials = 0

namespace Breaker

theorem awaits_fresh (settings : Settings.Breaker) (name : String) :
    (Registry.fresh settings name).Awaits 0 where
  total := rfl
  trials := by
    intro successes trials hstate
    cases hstate

variable {breaker : Breaker} {requests : Nat}

theorem acts_proceed (breaker : Breaker) (now : Nat) :
    Acts breaker now .proceed ((breaker.proceed now).1, some (breaker.proceed now).2) :=
  acts_act breaker now .proceed

theorem Awaits.proceed (hawaits : breaker.Awaits requests) (now : Nat) :
    (breaker.proceed now).1.Awaits (requests + if (breaker.proceed now).2 then 1 else 0) := by
  obtain ⟨htotal, htrials⟩ := hawaits
  have hacts := breaker.acts_proceed now
  generalize breaker.proceed now = proceeded at hacts ⊢
  obtain ⟨asked, admitted⟩ := proceeded
  cases hacts with
  | admitted hstate =>
      refine ⟨congrArg (· + 1) htotal, fun successes trials heq => ?_⟩
      cases heq
  | probed hstate hdue =>
      refine ⟨congrArg (· + 1) htotal, fun successes trials heq => ?_⟩
      cases heq
      exact Nat.le_add_left 1 requests
  | tried hstate hroom =>
      refine ⟨congrArg (· + 1) htotal, fun successes trials heq => ?_⟩
      cases heq
      exact Nat.succ_le_succ (htrials _ _ hstate)
  | refused hfull => exact ⟨htotal, htrials⟩

theorem Awaits.report (hawaits : breaker.Awaits (requests + 1)) (now : Nat) {action : Action}
    (hreport : action ≠ .proceed) : (breaker.act now action).1.Awaits requests := by
  obtain ⟨htotal, htrials⟩ := hawaits
  have hacts := acts_act breaker now action
  generalize breaker.act now action = acted at hacts ⊢
  cases hacts with
  | admitted | probed | tried | refused => exact absurd rfl hreport
  | counted hstate hfew =>
      constructor
      · dsimp only
        omega
      · intro successes trials heq
        cases heq
        exact Nat.sub_le_of_le_add (htrials _ _ hstate)
  | cleared hstate | closed hstate | failed hstate | tripped hstate | succeededOpen hstate
  | failedOpen hstate =>
      constructor
      · simp only [trip]
        omega
      · intro successes trials heq
        cases heq

end Breaker

namespace Proxy

/-! ## Outcomes -/

theorem report_ne_proceed (outcome : Except Failure Http.Response) : report outcome ≠ .proceed := by
  cases outcome <;> rw [report] <;> split <;> simp

/-- The names of the headers that a client does not get to see. -/
def keptBack : List String :=
  connectionHeaders ++ ["host", "content-length"]

inductive Answers (policy : Route.BreakerPolicy) : Except Failure Http.Response → Http.Response → Prop where
  | late (milliseconds : Nat) : Answers policy (.error (.timeout milliseconds)) (fallback policy.name)
  | counted {failure : Failure} (hcounts : failure.countsAgainstBreaker = true) :
      Answers policy (.error failure) (fallback policy.name)
  | told {failure : Failure} (hcounts : failure.countsAgainstBreaker = false) :
      Answers policy (.error failure) failure.response
  | passed (response : Http.Response) :
      Answers policy (.ok response)
        { status := response.status
          headers := response.headers.filter fun header => !keptBack.contains header.1
          body := response.body }

variable {proxy : Proxy} {policy : Route.BreakerPolicy} {given : Breaker.Registry} {number : Nat}
  {breaker : Breaker}

/-- To ask for a policy is to ask the breaker that it is given. -/
theorem ask_eq (hgiven : proxy.breakers.getOrCreate policy.name = (given, number))
    (hmade : given.get? number = some breaker) (now : Nat) :
    proxy.ask now policy = ({ proxy with breakers := (given.act number now .proceed).1 }, number,
      (breaker.proceed now).2) := by
  have hanswer : (given.act number now .proceed).2 = some (breaker.proceed now).2 := by
    have hlisted : given.made[number]? = some breaker := hmade
    simp only [Breaker.Registry.act, hlisted, Breaker.act]
  simp [ask, hgiven, hanswer]

/-- A proxy, with the number of the breaker of each request that has been let through and is under way. -/
structure Flights where
  proxy : Proxy
  underWay : List Nat := []

namespace Flights

/-- What happens to a proxy.  A request that is let through comes to its end later, after any other steps. -/
inductive Step where
  | arrive (now : Nat) (policy : Route.BreakerPolicy)
  /-- The turns of the instances change. -/
  | turn (resolver : Resolver)
  /-- A request that was let through by the breaker of a number comes to its end. -/
  | finish (number later : Nat) (outcome : Except Failure Http.Response)
  | evict (application : String)

def step (flights : Flights) : Step → Flights
  | .arrive now policy =>
      { proxy := (flights.proxy.ask now policy).1
        underWay :=
          if (flights.proxy.ask now policy).2.2 then
            (flights.proxy.ask now policy).2.1 :: flights.underWay
          else flights.underWay }
  | .turn resolver => { flights with proxy.resolver := resolver }
  | .finish number later outcome =>
      if number ∈ flights.underWay then
        { proxy := flights.proxy.tell number later (report outcome)
          underWay := flights.underWay.erase number }
      else flights
  | .evict application => { flights with proxy := flights.proxy.evict application }

def run (flights : Flights) (steps : List Step) : Flights :=
  steps.foldl step flights

theorem run_append (flights : Flights) (earlier later : List Step) :
    flights.run (earlier ++ later) = (flights.run earlier).run later :=
  List.foldl_append

structure IsKept (flights : Flights) : Prop where
  named : flights.proxy.breakers.Named
  awaits : ∀ number breaker, flights.proxy.breakers.get? number = some breaker →
    breaker.Awaits (flights.underWay.count number)
  made : ∀ number, number ∈ flights.underWay → number < flights.proxy.breakers.made.length

variable {flights : Flights}

/-- A breaker that a name gets is an old one or one that awaits nothing. -/
theorem IsKept.getOrCreate (hkept : flights.IsKept) {name : String}
    (hgiven : flights.proxy.breakers.getOrCreate name = (given, number)) :
    IsKept { flights with proxy.breakers := given } := by
  cases hcurrent : flights.proxy.breakers.current.lookup name with
  | some known =>
      cases hgiven.symm.trans (Breaker.Registry.getOrCreate_of_current hcurrent)
      exact hkept
  | none =>
      cases hgiven.symm.trans (Breaker.Registry.getOrCreate_of_absent hcurrent)
      refine ⟨hkept.named.made hcurrent, fun other breaker hmade => ?_, fun other hunderWay => ?_⟩
      · by_cases hother : other < flights.proxy.breakers.made.length
        · exact hkept.awaits other breaker ((List.getElem?_append_left hother).symm.trans hmade)
        · have hnone : other ∉ flights.underWay := fun hunderWay => hother (hkept.made other hunderWay)
          obtain ⟨hlength, hfresh⟩ := List.getElem?_eq_some_iff.mp hmade
          rw [List.getElem_append_right (Nat.le_of_not_lt hother), List.getElem_singleton] at hfresh
          rw [← hfresh, List.count_eq_zero.mpr hnone]
          exact Breaker.awaits_fresh _ _
      · rw [List.length_append]
        exact Nat.lt_add_right _ (hkept.made other hunderWay)

/-- One breaker is called, and the requests that are under way change for it alone. -/
theorem IsKept.act (hkept : flights.IsKept) (hmade : flights.proxy.breakers.get? number = some breaker)
    {now : Nat} {action : Breaker.Action} {underWay : List Nat}
    (hawaits : (breaker.act now action).1.Awaits (underWay.count number))
    (hothers : ∀ other, other ≠ number → underWay.count other = flights.underWay.count other) :
    IsKept
      { proxy := { flights.proxy with breakers := (flights.proxy.breakers.act number now action).1 }
        underWay } := by
  refine ⟨hkept.named.act number now action, fun other called hcalled => ?_, fun other hunderWay => ?_⟩
  · by_cases hother : other = number
    · subst hother
      cases (Breaker.Registry.get?_act_self hmade now action).symm.trans hcalled
      exact hawaits
    · rw [hothers other hother]
      exact hkept.awaits other called
        ((Breaker.Registry.get?_act_other hother now action).symm.trans hcalled)
  · rw [Breaker.Registry.act_length]
    by_cases hother : other = number
    · rw [hother]
      exact (List.getElem?_eq_some_iff.mp hmade).1
    · refine hkept.made other (List.count_pos_iff.mp ?_)
      rw [← hothers other hother]
      exact List.count_pos_iff.mpr hunderWay

theorem IsKept.step (hkept : flights.IsKept) (step : Step) : (flights.step step).IsKept := by
  cases step with
  | arrive now policy =>
      rcases hgiven : flights.proxy.breakers.getOrCreate policy.name with ⟨given, number⟩
      obtain ⟨breaker, hmade⟩ := hkept.named.exists_breaker hgiven
      have hready := hkept.getOrCreate hgiven
      have hawaits := (hready.awaits number breaker hmade).proceed now
      simp only [Flights.step, ask_eq hgiven hmade now]
      refine hready.act hmade ?_ fun other hother => ?_
      · cases hadmits : (breaker.proceed now).2 with
        | true =>
            rw [hadmits] at hawaits
            rw [if_pos rfl, List.count_cons_self]
            exact hawaits
        | false =>
            rw [hadmits] at hawaits
            exact hawaits
      · cases (breaker.proceed now).2 with
        | true => exact List.count_cons_of_ne hother.symm
        | false => rfl
  | turn resolver => exact ⟨hkept.named, hkept.awaits, hkept.made⟩
  | finish number later outcome =>
      rw [Flights.step]
      split
      · next hunderWay =>
        have hmade : flights.proxy.breakers.get? number = some _ :=
          List.getElem?_eq_getElem (hkept.made number hunderWay)
        refine hkept.act hmade ?_ fun other hother => List.count_erase_of_ne hother
        have hcount : flights.underWay.count number = (flights.underWay.erase number).count number + 1 := by
          rw [List.count_erase_self, Nat.sub_add_cancel (List.count_pos_iff.mpr hunderWay)]
        have hawaits := hkept.awaits number _ hmade
        rw [hcount] at hawaits
        exact hawaits.report later (report_ne_proceed outcome)
      · exact hkept
  | evict application => exact ⟨hkept.named.forgotten application, hkept.awaits, hkept.made⟩

theorem IsKept.run (hkept : flights.IsKept) (steps : List Step) : (flights.run steps).IsKept := by
  induction steps generalizing flights with
  | nil => exact hkept
  | cons step steps ih => exact ih (hkept.step step)

end Flights

/-! ## Requests one after another -/

structure Visit where
  now : Nat
  instances : String → List String
  send : Http.Outgoing → Http.Exchange
  route : Route
  request : Http.Request
  authentication : Option Authentication

def visit (proxy : Proxy) (visit : Visit) : Proxy :=
  (proxy.forward visit.now visit.instances visit.send visit.route visit.request visit.authentication).1

end Proxy

end ApiGateway
