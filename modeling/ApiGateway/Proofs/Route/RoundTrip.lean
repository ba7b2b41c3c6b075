import ApiGateway.Proofs.Path.Filling
import ApiGateway.Proofs.Route.Injection

/-!
# The way back to the documented path

The gateway offers an endpoint under the version prefix and what is left of its path without an ignored
lead.  A request for it is forwarded under the documented path, with the same texts in the places of the
variables: the stage that restores the lead undoes what was stripped, and no other stage of an endpoint
without an identity touches the path.
-/

namespace ApiGateway.Route

/-! ## Stages that leave paths alone -/

def Stage.KeepsPath : Stage → Prop
  | .exchangeLead _ _ => False
  | _ => True

theorem Stage.KeepsPath.path_apply {stage : Stage} (hkeeps : stage.KeepsPath)
    (authentication : Option Authentication) (outbound : Outbound) :
    (stage.apply authentication outbound).path = outbound.path := by
  cases stage with
  | exchangeLead source target => exact hkeeps.elim
  | requireAuthentication => rfl
  | injectParameter name source strategy => rfl
  | breaker policy => rfl

theorem path_passStages_of_keepsPath (authentication : Option Authentication) {stages : List Stage}
    (hkeeps : ∀ stage ∈ stages, stage.KeepsPath) (outbound : Outbound) :
    (passStages authentication stages outbound).path = outbound.path := by
  induction stages generalizing outbound with
  | nil => rfl
  | cons stage rest ih =>
      have hrest := ih (fun other hother => hkeeps other (.tail stage hother))
        (stage.apply authentication outbound)
      exact hrest.trans ((hkeeps stage (.head rest)).path_apply authentication outbound)

/-! ## Stripping and restoring -/

/-- A rooted path is the lead that is put back, or nothing, and the rest that is offered. -/
theorem exists_lead_append_rest (ignored : List String) {path : String}
    (hpath : path.toList.head? = some '/') :
    ∃ rest, (strippedPath ignored path).path = .ofList rest ∧ Path.IsRest rest ∧
      path.toList = ((strippedPath ignored path).lead.getD "").toList ++ rest := by
  rcases strippedPath_cases ignored path with hnone | ⟨lead, hlead, rest, hrest, hwhole, hsome⟩
  · rw [hnone]
    exact ⟨path.toList, String.ofList_toList.symm, Or.inr hpath, rfl⟩
  · rw [hsome]
    exact ⟨rest, rfl, hrest, hwhole⟩

section

variable {gateway : Settings.Gateway} {endpoint : Endpoint}

theorem externalTemplate_toList (hversion : gateway.versionPrefix ≠ "") {rest : List Char}
    (hrest : (strippedPath gateway.ignoredPathPrefixes endpoint.path).path = .ofList rest) :
    (externalTemplate gateway endpoint).toList = gateway.versionPrefix.toList ++ rest := by
  have hne : gateway.versionPrefix ++ .ofList rest ≠ "" := by
    intro hempty
    have hboth := congrArg String.toList hempty
    rw [String.toList_append] at hboth
    exact hversion (String.toList_inj.mp (List.append_eq_nil_iff.mp hboth).1)
  unfold externalTemplate externalPath
  rw [hrest, if_neg hne, String.toList_append, String.toList_ofList]

/-- The restoring stage takes the path of a filled external template back to the documented path,
filled with the same texts. -/
theorem path_restoringStage_apply (value : Nat → List Char → List Char)
    (hversion : gateway.versionPrefix ≠ "" ∧ '{' ∉ gateway.versionPrefix.toList)
    (hignored : ∀ lead ∈ gateway.ignoredPathPrefixes,
      '{' ∉ lead.toList ∧ lead.toList.getLast? ≠ some '/')
    (hpath : endpoint.path.toList.head? = some '/') (authentication : Option Authentication)
    (query : Query) :
    ((restoringStage gateway endpoint).apply authentication
      ⟨.ofList (Path.Template.filled value (externalTemplate gateway endpoint).toList), query⟩).path =
        .ofList (Path.Template.filled value endpoint.path.toList) := by
  obtain ⟨rest, hoffered, hrest, hwhole⟩ :=
    exists_lead_append_rest gateway.ignoredPathPrefixes hpath
  have hlead : '{' ∉ ((strippedPath gateway.ignoredPathPrefixes endpoint.path).lead.getD "").toList ∧
      ((strippedPath gateway.ignoredPathPrefixes endpoint.path).lead.getD "").toList.getLast? ≠
        some '/' := by
    rcases strippedPath_cases gateway.ignoredPathPrefixes endpoint.path with
      hnone | ⟨lead, hmem, _rest, -, -, hsome⟩
    · rw [hnone]
      exact ⟨by simp, by simp⟩
    · rw [hsome]
      exact hignored lead hmem
  unfold restoringStage
  generalize (strippedPath gateway.ignoredPathPrefixes endpoint.path).lead.getD "" = lead at *
  have hfilled : Path.Template.filled value endpoint.path.toList =
      lead.toList ++ Path.Template.filled value rest := by
    rw [hwhole, Path.Template.filled_append value hlead.1]
  have hne : lead.toList ++ Path.Template.filled value rest ≠ [] := by
    intro hempty
    have hhead := Path.Template.filled_head? value hpath
    rw [hfilled, hempty] at hhead
    cases hhead
  have hfilledRest : Path.IsRest (Path.Template.filled value rest) := by
    rcases hrest with rfl | hhead
    · exact Or.inl (Path.Template.filled_nil value)
    · exact Or.inr (Path.Template.filled_head? value hhead)
  have hexchange := Path.exchange?_append gateway.versionPrefix.toList hfilledRest hlead.2 hne
  rw [externalTemplate_toList hversion.1 hoffered, Path.Template.filled_append value hversion.2, hfilled]
  unfold Stage.apply
  simp only [String.toList_ofList, hexchange]

/-! ## The route of an endpoint without an identity -/

/-- Only the stages before those of declared parameters touch the path. -/
theorem path_outbound_leadingStages (routing : Settings.Routing) (id path : String)
    (query : Option String) (authentication : Option Authentication) :
    ((standardRoute gateway routing id endpoint).outbound path query authentication).path =
      (passStages authentication (leadingStages gateway routing endpoint)
        ⟨path, (query.map Query.decode).getD []⟩).path := by
  have hkeeps : ∀ stage ∈ declaredStages routing.initializers (leadingStages gateway routing endpoint)
      endpoint.parameters ++ [breakerStage gateway endpoint], stage.KeepsPath := by
    intro stage hstage
    rcases List.mem_append.mp hstage with hdeclared | hbreaker
    · obtain ⟨name, source, strategy, rfl⟩ := exists_of_mem_declaredStages hdeclared
      exact trivial
    · cases List.mem_singleton.mp hbreaker
      exact trivial
  rw [outbound_eq_passStages, standardRoute_stages, standardStages, List.append_assoc, passStages,
    List.foldl_append]
  exact path_passStages_of_keepsPath authentication hkeeps _

/-- Only the restoring stage of an endpoint without an identity touches the path. -/
theorem path_outbound_standardRoute {routing : Settings.Routing} (id : String)
    (huntagged : endpoint.hasTag routing.authenticatedTag = false) (path : String)
    (query : Option String) (authentication : Option Authentication) :
    ((standardRoute gateway routing id endpoint).outbound path query authentication).path =
      ((restoringStage gateway endpoint).apply authentication
        ⟨path, (query.map Query.decode).getD []⟩).path := by
  have hleading : leadingStages gateway routing endpoint = [restoringStage gateway endpoint] := by
    unfold leadingStages identityStages
    rw [huntagged]
    rfl
  rw [path_outbound_leadingStages, hleading]
  rfl

/-- A request for a filled external template is forwarded under the documented path, filled with the same
texts, and that is a rooted path.  The version prefix and the ignored leads hold no variables, and a lead
does not end in a slash, which would be lost when the lead is put back. -/
theorem outbound_filled (gateway : Settings.Gateway) (routing : Settings.Routing) (id : String)
    (endpoint : Endpoint)
    (hversion : gateway.versionPrefix ≠ "" ∧ '{' ∉ gateway.versionPrefix.toList)
    (hignored : ∀ lead ∈ gateway.ignoredPathPrefixes,
      '{' ∉ lead.toList ∧ lead.toList.getLast? ≠ some '/')
    (huntagged : endpoint.hasTag routing.authenticatedTag = false)
    (hpath : endpoint.path.toList.head? = some '/') :
    ∃ route, assemble (standardPipeline gateway routing id) endpoint = .ok route ∧
      ∀ value query authentication,
        let outbound := route.outbound
          (.ofList (Path.Template.filled value route.template.toList)) query authentication
        outbound.path = .ofList (Path.Template.filled value endpoint.path.toList) ∧
          outbound.path.toList.head? = some '/' := by
  refine ⟨standardRoute gateway routing id endpoint,
    assemble_standardPipeline gateway routing id endpoint, ?_⟩
  intro value query authentication outbound
  have hrestored : outbound.path = .ofList (Path.Template.filled value endpoint.path.toList) := by
    have hstage := path_restoringStage_apply value hversion hignored hpath authentication
      ((query.map Query.decode).getD [])
    exact (path_outbound_standardRoute id huntagged _ query authentication).trans hstage
  refine ⟨hrestored, ?_⟩
  rw [hrestored, String.toList_ofList]
  exact Path.Template.filled_head? value hpath

/-- The lead that is not offered comes back, and the number of the order stays. -/
theorem outbound_filled_orders :
    ∃ route, assemble (standardPipeline {} {} "r1")
        ⟨⟨"orders", "lb://"⟩, .get, "/auth/orders/{id}", [], [⟨"id", true⟩], none⟩ = .ok route ∧
      (route.outbound "/api/v1/orders/api" (some "page=2") (some ⟨"alice", []⟩)).path =
        "/auth/orders/api" := by
  obtain ⟨route, hassemble, hpaths⟩ := outbound_filled {} {} "r1"
    ⟨⟨"orders", "lb://"⟩, .get, "/auth/orders/{id}", [], [⟨"id", true⟩], none⟩
    (by decide) (by decide) (by decide) (by decide)
  have htemplate : route.template = "/api/v1/orders/{id}" := by
    rw [assemble_standardPipeline] at hassemble
    cases hassemble
    decide +kernel
  have hexternal : String.ofList (Path.Template.filled (fun _ _ => "api".toList)
      "/api/v1/orders/{id}".toList) = "/api/v1/orders/api" := by
    decide +kernel
  have hdocumented : String.ofList (Path.Template.filled (fun _ _ => "api".toList)
      "/auth/orders/{id}".toList) = "/auth/orders/api" := by
    decide +kernel
  have hpath := (hpaths (fun _ _ => "api".toList) (some "page=2") (some ⟨"alice", []⟩)).1
  rw [htemplate, hexternal, hdocumented] at hpath
  exact ⟨route, hassemble, hpath⟩

/-! ## Rooted paths -/

/-- The lead that is put back is one of the ignored ones, or nothing. -/
theorem isRest_lead (hignored : ∀ lead ∈ gateway.ignoredPathPrefixes, lead.toList.head? = some '/') :
    Path.IsRest ((strippedPath gateway.ignoredPathPrefixes endpoint.path).lead.getD "").toList ∧
      ∀ c ∈ ((strippedPath gateway.ignoredPathPrefixes endpoint.path).lead.getD "").toList,
        ∃ lead ∈ gateway.ignoredPathPrefixes, c ∈ lead.toList := by
  rcases strippedPath_cases gateway.ignoredPathPrefixes endpoint.path with
    hnone | ⟨lead, hlead, rest, -, -, hsome⟩
  · rw [hnone]
    exact ⟨Or.inl rfl, by simp⟩
  · rw [hsome]
    exact ⟨Or.inr (hignored lead hlead), fun c hc => ⟨lead, hlead, hc⟩⟩

/-- A rooted path stays rooted on its way through the route of an endpoint without an identity, and gets no
characters that are neither its own nor those of an ignored lead. -/
theorem path_outbound_rooted (routing : Settings.Routing) (id : String)
    (hignored : ∀ lead ∈ gateway.ignoredPathPrefixes, lead.toList.head? = some '/')
    (huntagged : endpoint.hasTag routing.authenticatedTag = false) {path : String}
    (hpath : path.toList.head? = some '/') (query : Option String)
    (authentication : Option Authentication) :
    let outbound := (standardRoute gateway routing id endpoint).outbound path query authentication
    outbound.path.toList.head? = some '/' ∧
      ∀ c ∈ outbound.path.toList,
        c = '/' ∨ c ∈ path.toList ∨ ∃ lead ∈ gateway.ignoredPathPrefixes, c ∈ lead.toList := by
  intro outbound
  obtain ⟨hrest, hlead⟩ := @isRest_lead gateway endpoint hignored
  have hrestored : outbound.path = _ :=
    path_outbound_standardRoute id huntagged path query authentication
  unfold restoringStage Stage.apply at hrestored
  simp only at hrestored
  rw [hrestored]
  split
  · next moved hexchange =>
    rw [String.toList_ofList]
    exact ⟨Path.head?_exchange? hrest hexchange,
      fun c hc => (Path.mem_exchange? hexchange hc).imp_right (Or.imp_right (hlead c))⟩
  · exact ⟨hpath, fun c hc => Or.inr (Or.inl hc)⟩

/-- The template of a route starts with a slash if the version prefix does. -/
theorem head?_externalTemplate (hversion : gateway.versionPrefix.toList.head? = some '/') :
    (externalTemplate gateway endpoint).toList.head? = some '/' := by
  unfold externalTemplate externalPath
  split
  · rfl
  · rw [String.toList_append, List.head?_append, hversion]
    rfl

end

end ApiGateway.Route
