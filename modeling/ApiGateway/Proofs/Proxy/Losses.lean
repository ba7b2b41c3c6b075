import ApiGateway.Gateway.Basic
import ApiGateway.Proofs.Breaker.Handles
import ApiGateway.Proofs.Resolver

/-!
# Lost applications

Requests are forwarded while applications come and go, and the proxy hears of a loss in its own time.  It
then forgets the breaker of the application and after that its turns, while requests go on.  What the next
request meets is what requests have left since these two moves: whatever was before has gone, but a request
that was under way at the time leaves its traces behind.
-/

namespace ApiGateway.Proxy

/-- A proxy with requests under way, and the instances that are listed. -/
structure Traffic where
  handles : Breaker.Handles
  resolver : Resolver
  listed : String → List String := fun _ => []

namespace Traffic

inductive Step where
  /-- Other instances of an application are listed: none when it is lost. -/
  | list (application : String) (instances : List String)
  /-- A request gets or calls its breaker, or the breaker of an application is forgotten. -/
  | use (use : Breaker.Use)
  /-- A request is given an instance. -/
  | resolve (uri : String)
  /-- The turns of an application are forgotten. -/
  | restart (application : String)
  deriving DecidableEq, Repr

def start (scheme : String) (settings : Settings.Breaker) : Traffic where
  handles := { registry := { settings } }
  resolver := { scheme }

/-- What is listed, when it changes for one application. -/
def relist (listed : String → List String) (application : String) (instances : List String) :
    String → List String :=
  fun other => if other = application then instances else listed other

def step (traffic : Traffic) : Step → Traffic
  | .list application instances =>
      { traffic with listed := relist traffic.listed application instances }
  | .use use => { traffic with handles := traffic.handles.step use }
  | .resolve uri => { traffic with resolver := (traffic.resolver.resolve traffic.listed uri).1 }
  | .restart application => { traffic with resolver := traffic.resolver.evict application }

def run (traffic : Traffic) (steps : List Step) : Traffic :=
  steps.foldl step traffic

theorem run_nil (traffic : Traffic) : traffic.run [] = traffic := rfl

theorem run_cons (traffic : Traffic) (step : Step) (steps : List Step) :
    traffic.run (step :: steps) = (traffic.step step).run steps := rfl

theorem run_append (traffic : Traffic) (earlier later : List Step) :
    traffic.run (earlier ++ later) = (traffic.run earlier).run later :=
  List.foldl_append

def proxy (traffic : Traffic) : Proxy where
  resolver := traffic.resolver
  breakers := traffic.handles.registry

/-! ## Requests and losses as steps -/

/-- The steps of a request that a route forwards: a refused one is given no instance. -/
inductive IsForward (request : Nat) (route : Route) : List Step → Prop where
  | unguarded (hroute : route.breaker? = none) : IsForward request route [.resolve route.uri]
  | refused {policy : Route.BreakerPolicy} {now : Nat} (hroute : route.breaker? = some policy) :
      IsForward request route [.use (.hold request policy.name), .use (.act request now .proceed)]
  | admitted {policy : Route.BreakerPolicy} {now : Nat} {report : Breaker.Action}
      (hroute : route.breaker? = some policy) :
      IsForward request route
        [.use (.hold request policy.name), .use (.act request now .proceed), .resolve route.uri,
          .use (.act request now report)]

theorem step_act_of_held {traffic : Traffic} {request number : Nat}
    (hheld : traffic.handles.held request = some number) (now : Nat) (action : Breaker.Action) :
    (traffic.step (.use (.act request now action))).proxy = traffic.proxy.tell number now action := by
  simp only [step, Breaker.Handles.step, hheld]
  rfl

/-- A request that gets a breaker and asks it. -/
theorem run_ask (traffic : Traffic) (request now : Nat) (policy : Route.BreakerPolicy) :
    let asked := traffic.run [.use (.hold request policy.name), .use (.act request now .proceed)]
    asked.proxy = (traffic.proxy.ask now policy).1 ∧
      asked.handles.held request = some (traffic.proxy.ask now policy).2.1 ∧
      asked.listed = traffic.listed := by
  intro asked
  have hheld : (traffic.step (.use (.hold request policy.name))).handles.held request =
      some (traffic.proxy.ask now policy).2.1 := if_pos rfl
  refine ⟨step_act_of_held hheld now .proceed, ?_, rfl⟩
  have hkept : asked.handles.held =
      (traffic.step (.use (.hold request policy.name))).handles.held := by
    simp only [asked, run_cons, run_nil, step, Breaker.Handles.step, Breaker.Handles.give, if_pos]
  rw [hkept, hheld]

/-- A request that the proxy forwards takes such steps. -/
theorem exists_run_forward (traffic : Traffic) (request now : Nat)
    (send : Http.Outgoing → Http.Exchange) (route : Route) (asked : Http.Request)
    (authentication : Option Authentication) :
    ∃ steps, IsForward request route steps ∧
      (traffic.run steps).proxy =
        (traffic.proxy.forward now traffic.listed send route asked authentication).1 := by
  unfold forward guarded
  cases hroute : route.breaker? with
  | none => exact ⟨_, .unguarded hroute, rfl⟩
  | some policy =>
      obtain ⟨hproxy, hheld, hlisted⟩ := run_ask traffic request now policy
      rcases hask : traffic.proxy.ask now policy with ⟨proxy, number, admitted⟩
      rw [hask] at hproxy hheld
      simp only [hask]
      cases admitted with
      | false => exact ⟨_, .refused hroute, hproxy⟩
      | true =>
          have hsteps : IsForward request route [.use (.hold request policy.name),
              .use (.act request now .proceed), .resolve route.uri, .use (.act request now
                (report (proxy.exchange traffic.listed send route policy.timeout asked
                  authentication).2))] := .admitted hroute
          refine ⟨_, hsteps, ?_⟩
          show (((traffic.run [.use (.hold request policy.name), .use (.act request now
            .proceed)]).step (.resolve route.uri)).step (.use (.act request now _))).proxy = _
          generalize traffic.run [.use (.hold request policy.name),
            .use (.act request now .proceed)] = given at hproxy hheld hlisted ⊢
          have hresolved : (given.step (.resolve route.uri)).proxy =
              (proxy.exchange traffic.listed send route policy.timeout asked authentication).1 := by
            rw [← hlisted, ← show given.proxy = proxy from hproxy]
            rfl
          -- The request still holds its breaker when it has been given an instance.
          have hstill : (given.step (.resolve route.uri)).handles.held request = some number := hheld
          rw [step_act_of_held hstill, hresolved]

/-- The proxy hears of a loss in two steps. -/
theorem run_hearLoss (traffic : Traffic) (application : Application) :
    (traffic.run [.use (.forget application.name), .restart application.name]).proxy =
      Gateway.hearLoss traffic.proxy (.lost application) := rfl

/-! ## Breakers and turns apart -/

def uses : List Step → List Breaker.Use
  | [] => []
  | .use use :: steps => use :: uses steps
  | .list _ _ :: steps | .resolve _ :: steps | .restart _ :: steps => uses steps

/-- The calls of the resolver among steps, with the instances that are listed at the time. -/
def calls (listed : String → List String) : List Step → List Resolver.Call
  | [] => []
  | .list application instances :: steps => calls (relist listed application instances) steps
  | .use _ :: steps => calls listed steps
  | .resolve uri :: steps => .resolve uri listed :: calls listed steps
  | .restart application :: steps => .evict application :: calls listed steps

theorem handles_run (traffic : Traffic) (steps : List Step) :
    (traffic.run steps).handles = traffic.handles.run (uses steps) := by
  induction steps generalizing traffic with
  | nil => rfl
  | cons step steps ih =>
      rw [run_cons, ih]
      cases step <;> rfl

theorem resolver_run (traffic : Traffic) (steps : List Step) :
    (traffic.run steps).resolver = traffic.resolver.run (calls traffic.listed steps) := by
  induction steps generalizing traffic with
  | nil => rfl
  | cons step steps ih =>
      rw [run_cons, ih]
      cases step <;> rfl

theorem uses_append (left right : List Step) : uses (left ++ right) = uses left ++ uses right := by
  induction left with
  | nil => rfl
  | cons step left ih => cases step <;> simp [uses, ih]

theorem mem_uses {use : Breaker.Use} {steps : List Step} : use ∈ uses steps ↔ .use use ∈ steps := by
  induction steps with
  | nil => simp [uses]
  | cons step steps ih => cases step <;> simp [uses, ih]

theorem mem_of_mem_calls {uri : String} {instances : String → List String} {steps : List Step}
    {listed : String → List String} (hcall : .resolve uri instances ∈ calls listed steps) :
    .resolve uri ∈ steps := by
  induction steps generalizing listed with
  | nil => cases hcall
  | cons step steps ih =>
      cases step with
      | list application others => exact .tail _ (ih hcall)
      | use use => exact .tail _ (ih hcall)
      | resolve other =>
          rcases List.mem_cons.mp hcall with heq | hlater
          · cases heq
            exact .head steps
          · exact .tail _ (ih hlater)
      | restart application =>
          rcases List.mem_cons.mp hcall with heq | hlater
          · cases heq
          · exact .tail _ (ih hlater)

theorem isSound_run_start (scheme : String) (settings : Settings.Breaker) (steps : List Step) :
    ((start scheme settings).run steps).handles.IsSound := by
  rw [handles_run]
  exact (Breaker.Handles.isSound_start settings).run _

/-- The settings and the scheme stay as they are. -/
theorem constant_run_start (scheme : String) (settings : Settings.Breaker) (steps : List Step) :
    ((start scheme settings).run steps).handles.registry.settings = settings ∧
      ((start scheme settings).run steps).resolver.scheme = scheme := by
  constructor
  · rw [handles_run, Breaker.Handles.settings_run]
    rfl
  · rw [resolver_run, Resolver.scheme_run]
    rfl

/-! ## What the next request meets -/

theorem guard_run_forget {traffic : Traffic} (hsound : traffic.handles.IsSound) (application : String)
    (steps : List Step) :
    ((traffic.step (.use (.forget application))).run steps).handles.guard application =
      Breaker.Guard.run traffic.handles.registry.settings application {} (uses steps) := by
  rw [handles_run]
  exact hsound.guard_run_forget application (uses steps)

theorem turns_run_restart (traffic : Traffic) (application : String) (steps : List Step) :
    (((traffic.step (.restart application)).run steps).resolver.rotation application).turns =
      Resolver.taken traffic.resolver.scheme application (calls traffic.listed steps) %
        Rotation.turnLimit := by
  rw [resolver_run]
  exact traffic.resolver.turns_run_evict application (calls traffic.listed steps)

/-- Once the proxy has heard of a loss, what a request meets goes by what requests have done since.  The
breaker is the one that was made for the first request after the loss was heard, with the calls of those
requests that have got it and of no others; if there was none, the next request is given a new breaker, which
is closed and has counted nothing.  The turns are those that the application has taken since; if it has
taken none, the next request is given the first instance. -/
theorem meets_after_loss (scheme : String) (settings : Settings.Breaker)
    (before between after : List Step) (application : String) :
    let forgotten := ((start scheme settings).run before).step (.use (.forget application))
    let restarted := (forgotten.run between).step (.restart application)
    let met := restarted.run after
    met.handles.guard application =
        Breaker.Guard.run settings application {} (uses (between ++ after)) ∧
      (met.resolver.rotation application).turns =
        Resolver.taken scheme application (calls restarted.listed after) % Rotation.turnLimit ∧
      ((∀ request, .use (.hold request application) ∉ between ++ after) → ∀ request,
        (met.step (.use (.hold request application))).handles.guard application =
          { breaker := some { name := application, settings }
            holds := fun known => known == request }) ∧
      ((∀ uri, .resolve uri ∈ after → Resolver.applicationOf? scheme uri ≠ some application) →
        ∀ instances, (met.resolver.next application instances).2 = instances.head?) := by
  intro forgotten restarted met
  have hsettings := (constant_run_start scheme settings before).1
  have hscheme := (constant_run_start scheme settings
    (before ++ .use (.forget application) :: between)).2
  have hsound := isSound_run_start scheme settings before
  have hguard : ∀ later, (restarted.run later).handles.guard application =
      Breaker.Guard.run settings application {} (uses (between ++ later)) := by
    intro later
    have hall : restarted.run later = forgotten.run (between ++ .restart application :: later) := by
      rw [run_append]
      rfl
    have huses : uses (between ++ .restart application :: later) = uses (between ++ later) := by
      rw [uses_append, uses_append]
      rfl
    rw [hall, ← huses]
    exact hsettings ▸ guard_run_forget hsound application (between ++ .restart application :: later)
  have hturns : (met.resolver.rotation application).turns =
      Resolver.taken scheme application (calls restarted.listed after) % Rotation.turnLimit := by
    rw [run_append] at hscheme
    exact hscheme ▸ turns_run_restart (forgotten.run between) application after
  refine ⟨hguard after, hturns, fun hnone request => ?_, fun hnone instances => ?_⟩
  · have hnext : met.step (.use (.hold request application)) =
        restarted.run (after ++ [.use (.hold request application)]) := by
      rw [run_append]
      rfl
    have hempty := Breaker.Guard.run_of_not_hold settings fun request hhold =>
      hnone request (mem_uses.mp hhold)
    rw [hnext, hguard, ← List.append_assoc, uses_append, Breaker.Guard.run_append, hempty]
    simp [uses, Breaker.Guard.run, Breaker.Guard.step, Breaker.Registry.fresh]
  · have hzero : Resolver.taken scheme application (calls restarted.listed after) = 0 :=
      Resolver.taken_eq_zero fun uri _ hcall => hnone uri (mem_of_mem_calls hcall)
    rw [Resolver.next_item, hturns, hzero, Nat.zero_mod, Nat.zero_mod, List.head?_eq_getElem?]

/-- A request that got its breaker before the loss reports a failure after it, and nothing of that is met. -/
theorem meets_after_loss_orders :
    let met := (start "lb://" {}).run [
      .list "orders" ["http://10.0.0.1:80", "http://10.0.0.2:80"],
      .use (.hold 1 "orders"), .use (.act 1 0 .proceed), .resolve "lb://orders",
      .list "orders" [], .use (.forget "orders"), .use (.act 1 5 .fail), .restart "orders",
      .list "orders" ["http://10.0.0.1:80", "http://10.0.0.2:80"]]
    (met.step (.use (.hold 2 "orders"))).handles.guard "orders" =
        { breaker := some { name := "orders", settings := {} }, holds := fun known => known == 2 } ∧
      (met.resolver.next "orders" ["http://10.0.0.1:80", "http://10.0.0.2:80"]).2 =
        some "http://10.0.0.1:80" := by
  intro met
  obtain ⟨-, -, hbreaker, hfirst⟩ := meets_after_loss "lb://" {}
    [.list "orders" ["http://10.0.0.1:80", "http://10.0.0.2:80"], .use (.hold 1 "orders"),
      .use (.act 1 0 .proceed), .resolve "lb://orders", .list "orders" []]
    [.use (.act 1 5 .fail)] [.list "orders" ["http://10.0.0.1:80", "http://10.0.0.2:80"]] "orders"
  exact ⟨hbreaker (by simp) 2, hfirst (by simp) _⟩

/-- A request that gets its breaker after the loss was heard leaves a failure behind, which is met when the
application has been found again. -/
theorem not_new_after_loss : ¬ ∀ (scheme : String) (settings : Settings.Breaker)
    (before between after : List Step) (application : String) (instances : List String) (request : Nat),
    .use (.forget application) ∈ between → .restart application ∈ between → instances ≠ [] →
    (∀ other, .use (.hold other application) ∉ after) →
    (∀ uri, .resolve uri ∈ after → Resolver.applicationOf? scheme uri ≠ some application) →
    let found := (start scheme settings).run
      (before ++ .list application [] :: between ++ .list application instances :: after)
    ((found.step (.use (.hold request application))).handles.guard application).breaker =
        some { name := application, settings } ∧
      (found.resolver.next application instances).2 = instances.head? := by
  intro hnew
  have hmet := (hnew "lb://" {} [.list "orders" ["http://10.0.0.1:80"]]
    [.use (.forget "orders"), .restart "orders", .use (.hold 1 "orders"), .use (.act 1 0 .proceed),
      .resolve "lb://orders", .use (.act 1 0 .fail)]
    [] "orders" ["http://10.0.0.1:80"] 2 (by decide) (by decide) (by decide) (by simp) (by simp)).1
  revert hmet
  decide +kernel

end Traffic

end ApiGateway.Proxy
