import ApiGateway.Proofs.Path.Leads
import ApiGateway.Route.Processor

/-!
# What the standard pipeline makes

The standard pipeline makes a route of every endpoint.  Its stages are, in this order, those of an
identity if the endpoint asks for one, the restoration of the lead, the injection of declared
parameters, and the breaker.
-/

namespace ApiGateway.Route

/-! ## Declared parameters -/

/-- The injections that declared parameters add behind stages that are there already. -/
def declaredStages (initializers : List Settings.Initializer) (earlier : List Stage) :
    List Parameter → List Stage
  | [] => []
  | parameter :: rest =>
      match initializer? initializers parameter.name with
      | some initializer =>
          if earlier.any (·.injects parameter.name) then declaredStages initializers earlier rest
          else
            let stage := Stage.injectParameter parameter.name initializer.source initializer.strategy
            stage :: declaredStages initializers (earlier ++ [stage]) rest
      | none => declaredStages initializers earlier rest

theorem foldl_injectDeclared (initializers : List Settings.Initializer) (builder : Builder)
    (parameters : List Parameter) :
    parameters.foldl (injectDeclared initializers) builder =
      { builder with
          stages := builder.stages ++ declaredStages initializers builder.stages parameters } := by
  induction parameters generalizing builder with
  | nil => simp [declaredStages]
  | cons parameter rest ih =>
      rw [List.foldl_cons, ih, injectDeclared, declaredStages]
      cases initializer? initializers parameter.name with
      | none => rfl
      | some initializer =>
          cases hinjects : builder.stages.any (·.injects parameter.name) with
          | true => simp only [Builder.injects, hinjects, if_true]
          | false =>
              simp only [Builder.injects, hinjects, Bool.false_eq_true, if_false, Builder.addStage,
                List.append_assoc, List.singleton_append]

theorem exists_of_mem_declaredStages {initializers : List Settings.Initializer} {earlier : List Stage}
    {parameters : List Parameter} {stage : Stage}
    (hstage : stage ∈ declaredStages initializers earlier parameters) :
    ∃ name source strategy, stage = .injectParameter name source strategy := by
  induction parameters generalizing earlier with
  | nil => cases hstage
  | cons parameter rest ih =>
      rw [declaredStages] at hstage
      split at hstage
      · split at hstage
        · exact ih hstage
        · rcases List.mem_cons.mp hstage with rfl | hlater
          · exact ⟨_, _, _, rfl⟩
          · exact ih hlater
      · exact ih hstage

/-! ## Stripped paths -/

/-- The lead that is taken off is one of the ignored ones, up to a segment boundary of the path. -/
theorem strippedPath_cases (ignored : List String) (path : String) :
    strippedPath ignored path = ⟨none, path⟩ ∨
      ∃ lead ∈ ignored, ∃ rest, Path.IsRest rest ∧ path.toList = lead.toList ++ rest ∧
        strippedPath ignored path = ⟨some lead, .ofList rest⟩ := by
  unfold strippedPath longestLead?
  cases hlongest : Path.longest? (ignored.map String.toList) path.toList with
  | none => exact Or.inl rfl
  | some text =>
      right
      obtain ⟨hmem, hcontinues⟩ := Path.longest?_eq_some hlongest
      obtain ⟨lead, hlead, rfl⟩ := List.mem_map.mp hmem
      obtain ⟨rest, hrest, hpath⟩ := Path.continues_iff_isRest.mp hcontinues
      refine ⟨lead, hlead, rest, hrest, hpath, ?_⟩
      simp only [Option.map_some, String.ofList_toList, hpath, List.drop_left]

/-! ## The route of an endpoint -/

/-- The path under which the gateway offers an endpoint. -/
def externalTemplate (gateway : Settings.Gateway) (endpoint : Endpoint) : String :=
  externalPath gateway.versionPrefix (strippedPath gateway.ignoredPathPrefixes endpoint.path).path

def identityStages (gateway : Settings.Gateway) (routing : Settings.Routing) (endpoint : Endpoint) :
    List Stage :=
  if endpoint.hasTag routing.authenticatedTag then
    [.requireAuthentication, .exchangeLead gateway.versionPrefix routing.identityPrefix,
      .injectParameter routing.principalParameter .principal .replaceAlways]
  else []

/-- The stage that gives back the lead that was taken off a documented path. -/
def restoringStage (gateway : Settings.Gateway) (endpoint : Endpoint) : Stage :=
  .exchangeLead gateway.versionPrefix
    ((strippedPath gateway.ignoredPathPrefixes endpoint.path).lead.getD "")

def leadingStages (gateway : Settings.Gateway) (routing : Settings.Routing) (endpoint : Endpoint) :
    List Stage :=
  identityStages gateway routing endpoint ++ [restoringStage gateway endpoint]

def breakerStage (gateway : Settings.Gateway) (endpoint : Endpoint) : Stage :=
  .breaker ⟨endpoint.application.name, "/fallback/" ++ endpoint.application.name,
    gateway.breakerTimeout⟩

def standardStages (gateway : Settings.Gateway) (routing : Settings.Routing) (endpoint : Endpoint) :
    List Stage :=
  leadingStages gateway routing endpoint ++
    declaredStages routing.initializers (leadingStages gateway routing endpoint)
      endpoint.parameters ++ [breakerStage gateway endpoint]

def standardRoute (gateway : Settings.Gateway) (routing : Settings.Routing) (id : String)
    (endpoint : Endpoint) : Route where
  id := id
  predicates := [.path (externalTemplate gateway endpoint), .method endpoint.method]
  stages := standardStages gateway routing endpoint
  uri := endpoint.application.uri
  application := endpoint.application.name
  endpoint := endpoint.key

/-- The standard pipeline makes a route of every endpoint. -/
theorem assemble_standardPipeline (gateway : Settings.Gateway) (routing : Settings.Routing)
    (id : String) (endpoint : Endpoint) :
    assemble (standardPipeline gateway routing id) endpoint =
      .ok (standardRoute gateway routing id endpoint) := by
  have hstages : (process (standardPipeline gateway routing id) endpoint) =
      { id := some id
        uri := some endpoint.application.uri
        predicates := [.path (externalTemplate gateway endpoint), .method endpoint.method]
        stages := standardStages gateway routing endpoint
        stripped := some (strippedPath gateway.ignoredPathPrefixes endpoint.path) } := by
    simp only [process, standardPipeline, List.foldl_cons, List.foldl_nil, Processor.process,
      foldl_injectDeclared]
    by_cases htag : endpoint.hasTag routing.authenticatedTag
    · simp [htag, Builder.empty, Builder.addPredicate, Builder.addStage, Builder.setId,
        Builder.setUri, Builder.setStripped, Builder.lead?, standardStages, leadingStages,
        identityStages, restoringStage, breakerStage, externalTemplate]
    · simp [htag, Builder.empty, Builder.addPredicate, Builder.addStage, Builder.setId,
        Builder.setUri, Builder.setStripped, Builder.lead?, standardStages, leadingStages,
        identityStages, restoringStage, breakerStage, externalTemplate]
  rw [assemble, hstages]
  rfl

section

variable (gateway : Settings.Gateway) (routing : Settings.Routing) (id : String) (endpoint : Endpoint)

@[simp]
theorem standardRoute_endpoint : (standardRoute gateway routing id endpoint).endpoint = endpoint.key :=
  rfl

@[simp]
theorem standardRoute_stages :
    (standardRoute gateway routing id endpoint).stages = standardStages gateway routing endpoint := rfl

end

end ApiGateway.Route
