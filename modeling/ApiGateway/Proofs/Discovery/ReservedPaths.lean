import ApiGateway.Proofs.Discovery.Flow
import ApiGateway.Proofs.Discovery.Isolation
import ApiGateway.Proofs.Gateway.StartUp
import ApiGateway.Proofs.Path.Patterns

/-!
# Reserved paths

What the sieves of a collector hold back is neither collected nor told, and no route is made of it.  The
sieves of a gateway hold back its error paths.  A literal path that is reserved with all that is below it is
held back with every path below it that has no line feed there.
-/

namespace ApiGateway.Discovery

/-! ## What passes the sieves -/

namespace Collector

variable {sieves : Sieves Endpoint} {collector : Collector}

structure IsSifted (sieves : Sieves Endpoint) (collector : Collector) : Prop where
  sieves_eq : collector.sieves = sieves
  allowed : ∀ endpoint ∈ collector.endpoints, sieves.allows endpoint = true

theorem IsSifted.handle (hsifted : collector.IsSifted sieves) {event : Event}
    {after : Collector × Reaction} (hhandles : Handles collector event after) :
    after.1.IsSifted sieves ∧ ∀ endpoint, .found endpoint ∉ after.2.events := by
  cases hhandles with
  | found collecting hquiet =>
      exact ⟨⟨hsifted.sieves_eq, hsifted.allowed⟩, fun endpoint hfound => by simp [hquiet] at hfound⟩
  | refreshed collecting hquiet =>
      exact ⟨⟨hsifted.sieves_eq, hsifted.allowed⟩, fun endpoint hfound => by simp [hquiet] at hfound⟩
  | lost =>
      refine ⟨⟨hsifted.sieves_eq, fun endpoint hkept => ?_⟩, fun endpoint hfound => ?_⟩
      · exact hsifted.allowed endpoint (List.mem_filter.mp hkept).1
      · obtain ⟨lost, -, heq⟩ := List.mem_map.mp hfound
        cases heq

theorem IsSifted.collect (hsifted : collector.IsSifted sieves) {application : Application}
    {fetched : Fetched} {after : Collector × List EndpointEvent}
    (hcollects : Collects collector application fetched after) :
    after.1.IsSifted sieves ∧
      ∀ endpoint, .found endpoint ∈ after.2 → sieves.allows endpoint = true := by
  have hwanted : ∀ {document endpoint}, endpoint ∈ collector.wanted application document →
      sieves.allows endpoint = true := by
    intro document endpoint hmem
    rw [← hsifted.sieves_eq]
    exact (List.mem_filter.mp hmem).2
  cases hcollects with
  | failed hunread => exact ⟨hsifted, fun endpoint hfound => nomatch hfound⟩
  | discarded hread hgone => exact ⟨hsifted, fun endpoint hfound => nomatch hfound⟩
  | used hread hlive =>
      refine ⟨⟨hsifted.sieves_eq, fun endpoint hmem => ?_⟩, fun endpoint hfound => ?_⟩
      · rcases mem_addEndpoints hmem with hold | hnew
        · exact hsifted.allowed endpoint hold
        · exact hwanted hnew
      · obtain ⟨other, hother, heq⟩ := mem_addEndpoints_events hfound
        cases heq
        exact hwanted hother

theorem IsSifted.does (hsifted : collector.IsSifted sieves) {after : Collector × List EndpointEvent}
    (hdoes : Does collector after) :
    after.1.IsSifted sieves ∧
      ∀ endpoint, .found endpoint ∈ after.2 → sieves.allows endpoint = true := by
  cases hdoes with
  | hears event order =>
      obtain ⟨hafter, hnone⟩ := hsifted.handle (collector.handles event order)
      exact ⟨hafter, fun endpoint hfound => absurd hfound (hnone endpoint)⟩
  | collects application fetched => exact hsifted.collect (collector.collects application fetched)
  | tracks application =>
      rw [track_eq]
      exact ⟨⟨hsifted.sieves_eq, hsifted.allowed⟩, fun endpoint hfound => nomatch hfound⟩
  | marks collecting =>
      exact ⟨⟨hsifted.sieves_eq, hsifted.allowed⟩, fun endpoint hfound => nomatch hfound⟩

end Collector

namespace Course

/-- Nothing has been collected or told that the sieves hold back. -/
structure IsSifted (sieves : Sieves Endpoint) (course : Course) : Prop where
  collector : course.collector.IsSifted sieves
  told : ∀ endpoint, .found endpoint ∈ course.told → sieves.allows endpoint = true

theorem IsSifted.step {sieves : Sieves Endpoint} {course : Course} (hsifted : course.IsSifted sieves)
    (act : Act) : (course.step act).IsSifted sieves := by
  obtain ⟨after, hdoes, hcollector, htold⟩ := course.step_does act
  obtain ⟨hafter, hfound⟩ := hsifted.collector.does hdoes
  rw [← hcollector] at hafter
  refine ⟨hafter, fun endpoint hmem => ?_⟩
  rw [htold, List.mem_append] at hmem
  exact hmem.elim (hsifted.told endpoint) (hfound endpoint)

theorem IsSifted.run {sieves : Sieves Endpoint} {course : Course} (hsifted : course.IsSifted sieves)
    (acts : List Act) : (course.run acts).IsSifted sieves := by
  induction acts generalizing course with
  | nil => exact hsifted
  | cons first rest ih => exact ih (hsifted.step first)

end Course

namespace Flow

variable {gateway : Settings.Gateway} {routing : Settings.Routing} {sieves : Sieves Endpoint}

theorem isSifted_step {flow : Flow} (hsifted : flow.chain.collector.IsSifted sieves) (step : Step) :
    (flow.step step).chain.collector.IsSifted sieves := by
  cases step with
  | refresh members =>
      rcases flow.step_refresh members with hsame | ⟨-, listed, hstep⟩
      · rw [hsame]
        exact hsifted
      · rw [hstep]
        exact hsifted
  | publish =>
      rw [Flow.step]
      split <;> exact hsifted
  | hear order =>
      rw [Flow.step, Chain.hear]
      split
      · exact hsifted
      · next event discovered htold =>
        exact (hsifted.handle (flow.chain.collector.handles event order)).1
  | collect application fetched =>
      exact (hsifted.collect (flow.chain.collector.collects application fetched)).1
  | release application => exact ⟨hsifted.sieves_eq, hsifted.allowed⟩
  | assemble id =>
      rw [Flow.step, Chain.assemble]
      split <;> exact hsifted

theorem isSifted_run {flow : Flow} (hsifted : flow.chain.collector.IsSifted sieves)
    (steps : List Step) : (flow.run steps).chain.collector.IsSifted sieves := by
  induction steps generalizing flow with
  | nil => exact hsifted
  | cons first rest ih => exact ih (isSifted_step hsifted first)

/-- Routes made of good endpoints only. -/
theorem keptUp_good (good : Endpoint → Prop) : KeptUp gateway routing good
    fun table heard => table.Follows gateway routing heard ∧ ∀ endpoint ∈ heard, good endpoint where
  found := by
    rintro table heard endpoint id ⟨hfollows, hheard⟩ hgood -
    refine ⟨hfollows.found id endpoint, fun other hother => ?_⟩
    rcases List.mem_append.mp hother with hold | hlast
    · exact hheard other hold
    · rw [List.mem_singleton.mp hlast]
      exact hgood
  lost := by
    rintro table heard id key ⟨hfollows, hheard⟩
    exact ⟨hfollows.lost id key, fun other hother => hheard other (List.mem_filter.mp hother).1⟩

/-- In every run each route held is made of an endpoint that the sieves let through. -/
theorem allows_of_held_run {chain : Chain} {policy : Route.CollisionPolicy} {id : String}
    (hprocessors : chain.processors = Route.standardPipeline gateway routing id)
    (hcollector : chain.collector.IsSifted sieves) (hnone : chain.collector.endpoints = [])
    (hquiet : chain.collected = []) (hempty : chain.table = .empty policy) (steps : List Step) :
    ∀ route ∈ (run ⟨chain, []⟩ steps).chain.table.held, ∃ endpoint,
      sieves.allows endpoint = true ∧ route.endpoint = endpoint.key := by
  have hstart : Linked (sieves.allows · = true)
      (fun table heard => table.Follows gateway routing heard ∧
        ∀ endpoint ∈ heard, sieves.allows endpoint = true) ⟨chain, []⟩ := by
    refine ⟨[], ?_, ?_, fun endpoint hmem => nomatch hmem⟩
    · rw [hquiet, hnone]
      exact rfl
    · rw [hempty]
      exact .empty policy
  have hgood : ∀ earlier, earlier <+: steps →
      ∀ endpoint ∈ (run ⟨chain, []⟩ earlier).chain.collector.endpoints,
        sieves.allows endpoint = true :=
    fun earlier _ => (isSifted_run hcollector earlier).allowed
  obtain ⟨heard, -, hfollows, hheard⟩ :=
    hstart.run ⟨id, hprocessors⟩ (keptUp_good (sieves.allows · = true)) steps hgood
  intro route hroute
  obtain ⟨endpoint, hendpoint, own, rfl⟩ := hfollows.made route hroute
  exact ⟨endpoint, hheard endpoint hendpoint, rfl⟩

end Flow

/-! ## What is reserved -/

/-- The path is the one that is reserved, or is below it and has no line feed there. -/
def IsReserved (reserved path : List Char) : Prop :=
  path = reserved ∨ ∃ below, path = reserved ++ '/' :: below ∧ '\n' ∉ below

theorem accept_of_isReserved {sources : List String} {patterns : Path.Patterns}
    (hparse : Path.Patterns.parse sources = .ok patterns) {reserved path : String}
    (hhead : reserved.toList.head? = some '/') (hliteral : Path.Pattern.IsLiteral reserved.toList)
    (hlisted : reserved ++ "/**" ∈ sources) (hreserved : IsReserved reserved.toList path.toList) :
    patterns.accept path = true := by
  obtain ⟨tokens, htokens, hread⟩ := Path.Patterns.mem_tokens_of_parse hparse hlisted
  rw [Path.Pattern.parse_below hhead hliteral] at hread
  cases hread
  exact List.any_eq_true.mpr ⟨_, htokens, Path.Pattern.accepts_below_iff.mpr hreserved⟩

/-- An error path that is reserved with all that is below it is never collected or told, and no route is
made of it, whatever the other patterns are and whatever the documents say; nor is any path below it that has
no line feed there. -/
theorem reserved_held_back {settings : Settings} {now : Nat} {id : String} {gateway : Gateway}
    (hgateway : Gateway.ofSettings settings now id = .ok gateway) {reserved : String}
    (hhead : reserved.toList.head? = some '/') (hliteral : Path.Pattern.IsLiteral reserved.toList)
    (hlisted : reserved ++ "/**" ∈ settings.gateway.errorPathPatterns) :
    (∀ acts endpoint,
      let course := Course.run { collector := gateway.chain.collector } acts
      .found endpoint ∈ course.told ∨ endpoint ∈ course.collector.endpoints →
        ¬IsReserved reserved.toList endpoint.path.toList) ∧
      ∀ steps, ∀ route ∈ (Flow.run ⟨gateway.chain, []⟩ steps).chain.table.held,
        ¬IsReserved reserved.toList route.endpoint.path.toList := by
  obtain ⟨errorPaths, hparse, hchain⟩ := Gateway.chain_of_ofSettings hgateway
  have hallowed : ∀ {endpoint : Endpoint},
      Sieves.allows ⟨[excludePaths errorPaths]⟩ endpoint = true →
        ¬IsReserved reserved.toList endpoint.path.toList := by
    intro endpoint hallows hreserved
    have hpasses := Sieves.allows_iff.mp hallows _ (.head _)
    rw [excludePaths, accept_of_isReserved hparse hhead hliteral hlisted hreserved] at hpasses
    cases hpasses
  have hsifted : gateway.chain.collector.IsSifted ⟨[excludePaths errorPaths]⟩ := by
    rw [hchain]
    exact ⟨rfl, fun endpoint hmem => nomatch hmem⟩
  refine ⟨?_, fun steps route hroute => ?_⟩
  · intro acts endpoint course hmem
    have hbegun : Course.IsSifted ⟨[excludePaths errorPaths]⟩
        { collector := gateway.chain.collector } :=
      ⟨hsifted, fun other hfound => nomatch hfound⟩
    have hcourse := hbegun.run acts
    exact hmem.elim (fun hfound => hallowed (hcourse.told endpoint hfound))
      fun hcollected => hallowed (hcourse.collector.allowed endpoint hcollected)
  · rw [hchain] at hsifted hroute
    obtain ⟨endpoint, hallows, hkey⟩ :=
      Flow.allows_of_held_run rfl hsifted rfl rfl rfl steps route hroute
    rw [hkey]
    exact hallowed hallows

/-- No gateway with the settings that hold where nothing is given tells of an error page. -/
theorem reserved_held_back_error : ∃ gateway, Gateway.ofSettings {} 0 "r1" = .ok gateway ∧
    ∀ acts endpoint, .found endpoint ∈ (Course.run { collector := gateway.chain.collector } acts).told →
      endpoint.path ≠ "/error/500" := by
  obtain ⟨gateway, hgateway⟩ := Gateway.exists_ofSettings Settings.validate_default 0 "r1"
  obtain ⟨htold, -⟩ := @reserved_held_back {} 0 "r1" gateway hgateway "/error" (by decide)
    (by decide) (by decide)
  refine ⟨gateway, hgateway, fun acts endpoint hfound hpath => htold acts endpoint (Or.inl hfound) ?_⟩
  rw [hpath]
  exact Or.inr ⟨"500".toList, by decide, by decide⟩

/-- A path below a reserved one is collected and told if it has a line feed. -/
theorem not_reserved_held_back : ¬ ∀ (settings : Settings) (now : Nat) (id : String) (gateway : Gateway)
    (reserved : String), Gateway.ofSettings settings now id = .ok gateway →
    reserved.toList.head? = some '/' → reserved.toList.getLast? ≠ some '/' →
    Path.Pattern.IsLiteral reserved.toList →
    reserved ++ "/**" ∈ settings.gateway.errorPathPatterns →
    ∀ acts endpoint, Path.continues endpoint.path.toList reserved.toList = true →
      .found endpoint ∉ (Course.run { collector := gateway.chain.collector } acts).told := by
  intro hnever
  obtain ⟨gateway, hgateway⟩ := Gateway.exists_ofSettings Settings.validate_default 0 "r1"
  obtain ⟨errorPaths, hparse, hchain⟩ := Gateway.chain_of_ofSettings hgateway
  have herror : Path.Patterns.parse ["/error/**", "/fallback/**"] =
      .ok ⟨["/error/**", "/fallback/**"],
        ["/error".toList.map .literal ++ [.below], "/fallback".toList.map .literal ++ [.below]]⟩ := by
    decide +kernel
  obtain rfl := Except.ok.inj (hparse.symm.trans herror)
  refine hnever {} 0 "r1" gateway "/error" hgateway (by decide) (by decide) (by decide) (by decide)
    [.hear (.found ⟨"orders", "lb://"⟩),
      .receive { application := ⟨"orders", "lb://"⟩, marked := true } (.ok (Text.utf8
        "\x7b\"paths\":\x7b\"/error/a\\nb\":\x7b\"get\":\x7b\x7d\x7d\x7d\x7d".toList))]
    ⟨⟨"orders", "lb://"⟩, .get, "/error/a\nb", [], [], none⟩ (by decide) ?_
  rw [hchain]
  decide +kernel

end ApiGateway.Discovery
