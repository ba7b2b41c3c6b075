import ApiGateway.Proofs.Route.RoundTrip
import ApiGateway.Proofs.Settings.Validity

/-!
# Paths under the identity prefix

A request for an endpoint that asks for an identity has its version prefix exchanged for the identity
prefix.  The stage that restores the lead comes after that and exchanges the same prefix, so the request
stays under the identity prefix unless the first exchange leads into the version prefix again.
-/

namespace ApiGateway.Route

theorem Stage.path_apply_exchangeLead (source target : String) (authentication : Option Authentication)
    (outbound : Outbound) :
    ((Stage.exchangeLead source target).apply authentication outbound).path =
      .ofList ((Path.exchange? outbound.path.toList source.toList target.toList).getD
        outbound.path.toList) := by
  unfold Stage.apply
  dsimp only
  cases Path.exchange? outbound.path.toList source.toList target.toList with
  | none => exact String.ofList_toList.symm
  | some moved => rfl

section

variable {gateway : Settings.Gateway} {routing : Settings.Routing} {endpoint : Endpoint}

/-- A filled template of a route is the version prefix and what is left of the documented path, filled. -/
theorem filled_externalTemplate (value : Nat → List Char → List Char)
    (hversion : gateway.versionPrefix ≠ "" ∧ '{' ∉ gateway.versionPrefix.toList)
    (hpath : endpoint.path.toList.head? = some '/') :
    let rest := Path.Template.filled value
      (strippedPath gateway.ignoredPathPrefixes endpoint.path).path.toList
    Path.IsRest rest ∧
      Path.Template.filled value (externalTemplate gateway endpoint).toList =
        gateway.versionPrefix.toList ++ rest := by
  intro rest
  obtain ⟨offered, hoffered, hrest, -⟩ := exists_lead_append_rest gateway.ignoredPathPrefixes hpath
  have hfilled : rest = Path.Template.filled value offered := by
    simp only [rest, hoffered, String.toList_ofList]
  constructor
  · rw [hfilled]
    rcases hrest with rfl | hhead
    · exact Or.inl (Path.Template.filled_nil value)
    · exact Or.inr (Path.Template.filled_head? value hhead)
  · rw [externalTemplate_toList hversion.1 hoffered, Path.Template.filled_append value hversion.2, hfilled]

/-- Both exchanges of an endpoint with an identity, one after the other. -/
theorem path_outbound_of_hasTag (id : String) (htag : endpoint.hasTag routing.authenticatedTag = true)
    {rest : List Char} (hrest : Path.IsRest rest) (query : Option String)
    (authentication : Option Authentication) :
    let moved := Path.under routing.identityPrefix.toList rest
    ((standardRoute gateway routing id endpoint).outbound
        (.ofList (gateway.versionPrefix.toList ++ rest)) query authentication).path =
      .ofList ((Path.exchange? moved gateway.versionPrefix.toList
        ((strippedPath gateway.ignoredPathPrefixes endpoint.path).lead.getD "").toList).getD moved) := by
  intro moved
  have hleading : leadingStages gateway routing endpoint =
      [.requireAuthentication, .exchangeLead gateway.versionPrefix routing.identityPrefix,
        .injectParameter routing.principalParameter .principal .replaceAlways,
        restoringStage gateway endpoint] := by
    unfold leadingStages identityStages
    rw [htag]
    rfl
  have hkeeps : (Stage.injectParameter routing.principalParameter .principal
      .replaceAlways).KeepsPath := trivial
  rw [path_outbound_leadingStages, hleading]
  simp only [passStages, List.foldl_cons, List.foldl_nil]
  rw [restoringStage, Stage.path_apply_exchangeLead, hkeeps.path_apply, Stage.path_apply_exchangeLead]
  simp only [Stage.apply, String.toList_ofList,
    Path.exchange?_append_eq_under gateway.versionPrefix.toList routing.identityPrefix.toList hrest,
    Option.getD_some]
  rfl

end

/-- A request for an endpoint with an identity is forwarded under the identity prefix, with the stripped path
filled with the same texts, if and only if the restoring stage gives back just the version prefix or the
first exchange does not lead into the version prefix.  It does so if the identity prefix is in the version
prefix, or if the version prefix goes beyond the identity prefix and the path has what goes beyond.  The
lead is then put in the place of the version prefix. -/
theorem outbound_identity {settings : Settings} (hvalid : settings.validate = .ok ())
    (hversion : '{' ∉ settings.gateway.versionPrefix.toList) (id : String) (endpoint : Endpoint)
    (htag : endpoint.hasTag settings.routing.authenticatedTag = true)
    (hpath : endpoint.path.toList.head? = some '/') :
    ∃ route, assemble (standardPipeline settings.gateway settings.routing id) endpoint = .ok route ∧
      ∀ value query authentication,
        let version := settings.gateway.versionPrefix.toList
        let identity := settings.routing.identityPrefix.toList
        let target := Path.withoutTrailingSlashes identity
        let stripped := strippedPath settings.gateway.ignoredPathPrefixes endpoint.path
        let lead := (stripped.lead.getD "").toList
        let rest := Path.Template.filled value stripped.path.toList
        let external := Path.Template.filled value route.template.toList
        let outbound := route.outbound (.ofList external) query authentication
        external = version ++ rest ∧
          (outbound.path = .ofList (Path.under identity rest) ↔
            Path.withoutTrailingSlashes lead = version ∨
              ¬(Path.continues target version = true ∨
                ∃ below, version = target ++ below ∧ Path.continues rest below = true)) ∧
          ∀ below, Path.IsRest below → Path.under identity rest = version ++ below →
            outbound.path = .ofList (Path.under lead below) := by
  refine ⟨standardRoute settings.gateway settings.routing id endpoint,
    assemble_standardPipeline settings.gateway settings.routing id endpoint, ?_⟩
  intro value query authentication version identity target stripped lead rest external outbound
  obtain ⟨hstart, hend⟩ := Settings.versionPrefix_of_validate hvalid
  have hsource : version ≠ [] ∧ version.getLast? ≠ some '/' :=
    ⟨fun hnil => by simp [version, hnil] at hstart, hend⟩
  have hne : settings.gateway.versionPrefix ≠ "" :=
    fun hempty => hsource.1 (congrArg String.toList hempty)
  obtain ⟨hrest, hexternal⟩ : Path.IsRest rest ∧ external = version ++ rest :=
    filled_externalTemplate value ⟨hne, hversion⟩ hpath
  have hmoved : outbound.path = .ofList ((Path.exchange? (Path.under identity rest) version lead).getD
      (Path.under identity rest)) := by
    simp only [outbound, hexternal]
    exact path_outbound_of_hasTag id htag hrest query authentication
  refine ⟨hexternal, ?_, fun below hbelow hunder => ?_⟩
  · rw [hmoved, String.ofList_inj, Path.exchange?_getD_eq_self_iff hsource,
      ← Path.continues_under_iff hsource identity hrest, Bool.not_eq_true]
  · rw [hmoved, hunder, Path.exchange?_append_eq_under version lead hbelow, Option.getD_some]

/-- An order is asked for under the identity prefix. -/
theorem outbound_identity_orders :
    ∃ route, assemble (standardPipeline {} {} "r1")
        ⟨⟨"orders", "lb://"⟩, .get, "/orders/{id}", ["AUTHENTICATED"], [⟨"id", true⟩], none⟩ = .ok route ∧
      (route.outbound "/api/v1/orders/7" none (some ⟨"alice", []⟩)).path = "/auth/orders/7" := by
  obtain ⟨route, hassemble, hpaths⟩ := outbound_identity Settings.validate_default (by decide) "r1"
    ⟨⟨"orders", "lb://"⟩, .get, "/orders/{id}", ["AUTHENTICATED"], [⟨"id", true⟩], none⟩
    (by decide) (by decide)
  have hrest : Path.Template.filled (fun _ _ => ['7']) (strippedPath ["/auth"] "/orders/{id}").path.toList =
      "/orders/7".toList := by
    decide +kernel
  obtain ⟨hexternal, hunder, -⟩ := hpaths (fun _ _ => ['7']) none (some ⟨"alice", []⟩)
  rw [hrest] at hexternal hunder
  rw [hexternal] at hunder
  refine ⟨route, hassemble, hunder.mpr (Or.inr ?_)⟩
  -- The prefixes differ behind their first letter.
  rintro (hcontinues | ⟨below, hversion, -⟩)
  · revert hcontinues
    decide +kernel
  · cases hversion

/-- A path that begins like the version prefix behind the identity prefix leaves the identity prefix. -/
theorem not_under_identity : ¬ ∀ (settings : Settings) (id : String) (endpoint : Endpoint) (route : Route)
    (value : Nat → List Char → List Char) (query : Option String)
    (authentication : Option Authentication),
    settings.validate = .ok () →
    (∀ c ∈ ['{', '}', ':', '*'], c ∉ settings.gateway.versionPrefix.toList ∧
      ∀ lead ∈ settings.gateway.ignoredPathPrefixes, c ∉ lead.toList) →
    endpoint.hasTag settings.routing.authenticatedTag = true →
    endpoint.path.toList.head? = some '/' →
    (∀ position name, value position name ≠ [] ∧ '/' ∉ value position name) →
    assemble (standardPipeline settings.gateway settings.routing id) endpoint = .ok route →
    let rest := Path.Template.filled value
      (strippedPath settings.gateway.ignoredPathPrefixes endpoint.path).path.toList
    (route.outbound (.ofList (settings.gateway.versionPrefix.toList ++ rest)) query authentication).path =
      .ofList (Path.under settings.routing.identityPrefix.toList rest) := by
  intro hunder
  have hvalid : Settings.validate { gateway := { versionPrefix := "/auth/v1" } } = .ok () := by
    rw [Settings.validate_eq_ok_iff]
    decide +kernel
  have hplain : ∀ c ∈ ['{', '}', ':', '*'],
      c ∉ "/auth/v1".toList ∧ ∀ lead ∈ ["/auth"], c ∉ lead.toList := by
    simp
  have haccounts := hunder { gateway := { versionPrefix := "/auth/v1" } } "r1"
    ⟨⟨"accounts", "lb://"⟩, .get, "/v1/me", ["AUTHENTICATED"], [], none⟩ _ (fun _ _ => ['7']) none
    (some ⟨"alice", []⟩) hvalid hplain (by decide) (by decide) (by simp)
    (assemble_standardPipeline _ _ _ _)
  revert haccounts
  decide +kernel

end ApiGateway.Route
