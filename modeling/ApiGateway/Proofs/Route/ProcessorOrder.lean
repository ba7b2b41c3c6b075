import ApiGateway.Proofs.Route.Injection
import Mathlib.Data.List.Induction

/-!
# The order of processors

The processors of the standard pipeline can run in any order in which the base path is set before the lead
is restored, and an identity is asked for before the lead is restored and before declared parameters are
injected.  Each then adds what it adds in the standard order, at another place; a route reads off the same
from its predicates and its stages, and takes requests to the same paths and queries.
-/

namespace ApiGateway.Route

/-! ## Lists in another order -/

/-- What a single entry gives is found in every order. -/
theorem findSome?_of_perm {α β : Type} {f : α → Option β} {items others : List α} {given : β}
    (hperm : items.Perm others) (hgiven : others.filterMap f = [given]) :
    items.findSome? f = some given := by
  have hfound : items.filterMap f = [given] := List.perm_singleton.mp (hgiven ▸ hperm.filterMap f)
  rw [← List.head?_filterMap, hfound, List.head?_cons]

/-- What comes first of two stands before the second. -/
theorem mem_of_pair_sublist {α : Type} {first second : α} {before after : List α}
    (hpair : [first, second].Sublist (before ++ second :: after))
    (hnodup : (before ++ second :: after).Nodup) : first ∈ before := by
  have hsecond : second ∉ after := (List.nodup_cons.mp (List.nodup_append.mp hnodup).2.1).1
  obtain ⟨left, right, hsplit, hleft, hright⟩ := List.sublist_append_iff.mp hpair
  cases left with
  | cons head left =>
      rw [List.cons_append] at hsplit
      exact (List.cons.inj hsplit).1 ▸ hleft.subset (.head left)
  | nil =>
      rw [List.nil_append] at hsplit
      subst hsplit
      cases hright with
      | cons _ hlater => exact absurd (hlater.subset (.tail first (.head []))) hsecond
      | cons_cons _ hlater => exact absurd (hlater.subset (.head [])) hsecond

/-- A fold skips what does nothing. -/
theorem foldl_eq_self {α β : Type} {f : β → α → β} {items : List α}
    (hidle : ∀ item ∈ items, ∀ state, f state item = state) (state : β) :
    items.foldl f state = state := by
  induction items with
  | nil => rfl
  | cons item rest ih =>
      rw [List.foldl_cons, hidle item (.head rest)]
      exact ih fun other hother => hidle other (.tail item hother)

/-- A fold in which only some entries do anything does what these do, in their order. -/
theorem foldl_eq_of_sublist {α β : Type} {f : β → α → β} {active items : List α}
    (hactive : active.Sublist items) (hnodup : items.Nodup)
    (hidle : ∀ item ∈ items, item ∉ active → ∀ state, f state item = state) (state : β) :
    items.foldl f state = active.foldl f state := by
  induction hactive generalizing state with
  | slnil => rfl
  | cons item hrest ih =>
      obtain ⟨hnew, hnodup⟩ := List.nodup_cons.mp hnodup
      rw [List.foldl_cons, hidle item (.head _) fun hmem => hnew (hrest.subset hmem)]
      exact ih hnodup (fun other hother => hidle other (.tail item hother)) state
  | cons_cons item hrest ih =>
      obtain ⟨hnew, hnodup⟩ := List.nodup_cons.mp hnodup
      rw [List.foldl_cons, List.foldl_cons]
      refine ih hnodup (fun other hother hnot => hidle other (.tail item hother) fun hmem => ?_) _
      rcases List.mem_cons.mp hmem with rfl | hlater
      · exact hnew hother
      · exact hnot hlater

/-! ## What one processor adds -/

namespace Processor

def id? : Processor → Option String
  | .identifier id => some id
  | _ => none

def uri? (endpoint : Endpoint) : Processor → Option String
  | .targetUri => some endpoint.application.uri
  | _ => none

def stripped? (endpoint : Endpoint) : Processor → Option Stripped
  | .basePath _ ignored => some (strippedPath ignored endpoint.path)
  | _ => none

def predicates (endpoint : Endpoint) : Processor → List Predicate
  | .basePath versionPrefix ignored =>
      [.path (externalPath versionPrefix (strippedPath ignored endpoint.path).path)]
  | .method => [.method endpoint.method]
  | _ => []

/-- The stages that a processor adds, by the lead that was taken off and the stages there are. -/
def stages (endpoint : Endpoint) (lead? : Option String) (earlier : List Stage) : Processor → List Stage
  | .identityPrefix tag versionPrefix target parameter =>
      if endpoint.hasTag tag then
        [.requireAuthentication, .exchangeLead versionPrefix target,
          .injectParameter parameter .principal .replaceAlways]
      else []
  | .prefixRestoration versionPrefix => [.exchangeLead versionPrefix (lead?.getD "")]
  | .parameterInjection initializers => declaredStages initializers earlier endpoint.parameters
  | .circuitBreaker timeout =>
      [.breaker ⟨endpoint.application.name, "/fallback/" ++ endpoint.application.name, timeout⟩]
  | _ => []

/-- A processor only adds: values that are there stay, and lists grow at their ends. -/
theorem process_eq (processor : Processor) (endpoint : Endpoint) (builder : Builder) :
    processor.process endpoint builder =
      { id := builder.id.or processor.id?
        uri := builder.uri.or (processor.uri? endpoint)
        predicates := builder.predicates ++ processor.predicates endpoint
        stages := builder.stages ++ processor.stages endpoint builder.lead? builder.stages
        stripped := builder.stripped.or (processor.stripped? endpoint) } := by
  cases processor with
  | basePath versionPrefix ignored =>
      simp [process, Builder.setStripped, Builder.addPredicate, id?, uri?, predicates, stages,
        stripped?]
  | method => simp [process, Builder.addPredicate, id?, uri?, predicates, stages, stripped?]
  | targetUri => simp [process, Builder.setUri, id?, uri?, predicates, stages, stripped?]
  | identityPrefix tag versionPrefix target parameter =>
      by_cases htag : endpoint.hasTag tag
      · simp [process, htag, Builder.addStage, id?, uri?, predicates, stages, stripped?]
      · simp [process, htag, id?, uri?, predicates, stages, stripped?]
  | prefixRestoration versionPrefix =>
      simp [process, Builder.addStage, id?, uri?, predicates, stages, stripped?]
  | parameterInjection initializers =>
      simp [process, foldl_injectDeclared, id?, uri?, predicates, stages, stripped?]
  | identifier id => simp [process, Builder.setId, id?, uri?, predicates, stages, stripped?]
  | circuitBreaker timeout =>
      simp [process, Builder.addStage, id?, uri?, predicates, stages, stripped?]

end Processor

/-! ## What processors have added -/

/-- Declared parameters ask earlier stages only what they inject. -/
theorem declaredStages_congr {initializers : List Settings.Initializer} {earlier others : List Stage}
    (hinjects : ∀ parameter, earlier.any (·.injects parameter) = others.any (·.injects parameter))
    (parameters : List Parameter) :
    declaredStages initializers earlier parameters = declaredStages initializers others parameters := by
  induction parameters generalizing earlier others with
  | nil => rfl
  | cons parameter rest ih =>
      rw [declaredStages, declaredStages, hinjects, ih hinjects]
      cases initializer? initializers parameter.name with
      | none => rfl
      | some initializer =>
          have hlater : ∀ stage : Stage, declaredStages initializers (earlier ++ [stage]) rest =
              declaredStages initializers (others ++ [stage]) rest := fun stage =>
            ih fun name => by rw [List.any_append, List.any_append, hinjects]
          simp only [hlater]

theorem process_concat (before : List Processor) (processor : Processor) (endpoint : Endpoint) :
    process (before ++ [processor]) endpoint =
      processor.process endpoint (process before endpoint) := by
  rw [process, List.foldl_append]
  rfl

/-- Each of the kept values is the first one that a processor gives. -/
theorem process_values (processors : List Processor) (endpoint : Endpoint) :
    (process processors endpoint).id = processors.findSome? Processor.id? ∧
      (process processors endpoint).uri = processors.findSome? (Processor.uri? endpoint) ∧
      (process processors endpoint).stripped = processors.findSome? (Processor.stripped? endpoint) ∧
      (process processors endpoint).predicates = processors.flatMap (Processor.predicates endpoint) := by
  induction processors using List.reverseRecOn with
  | nil => exact ⟨rfl, rfl, rfl, rfl⟩
  | append_singleton before processor ih =>
      obtain ⟨hid, huri, hstripped, hpredicates⟩ := ih
      rw [process_concat, Processor.process_eq]
      simp only [hid, huri, hstripped, hpredicates, List.findSome?_append, List.findSome?_singleton,
        List.flatMap_append, List.flatMap_singleton, and_self]

/-! ## Arranged processors -/

section

variable (gateway : Settings.Gateway) (routing : Settings.Routing)

def baseProcessor : Processor := .basePath gateway.versionPrefix gateway.ignoredPathPrefixes

def identityProcessor : Processor :=
  .identityPrefix routing.authenticatedTag gateway.versionPrefix routing.identityPrefix
    routing.principalParameter

def restoringProcessor : Processor := .prefixRestoration gateway.versionPrefix

def injectingProcessor : Processor := .parameterInjection routing.initializers

/-- The processors of the standard pipeline, in an order that respects what they read of each other. -/
structure IsArranged (id : String) (processors : List Processor) : Prop where
  perm : processors.Perm (standardPipeline gateway routing id)
  base_restoring : [baseProcessor gateway, restoringProcessor gateway].Sublist processors
  identity_restoring :
    [identityProcessor gateway routing, restoringProcessor gateway].Sublist processors
  identity_injecting :
    [identityProcessor gateway routing, injectingProcessor routing].Sublist processors

variable {gateway routing} in
/-- Each processor of the standard pipeline in turn. -/
theorem standardPipeline_cases {id : String}
    {motive : (processor : Processor) → processor ∈ standardPipeline gateway routing id → Prop}
    (base : ∀ hmem, motive (baseProcessor gateway) hmem) (method : ∀ hmem, motive .method hmem)
    (target : ∀ hmem, motive .targetUri hmem)
    (identity : ∀ hmem, motive (identityProcessor gateway routing) hmem)
    (restoring : ∀ hmem, motive (restoringProcessor gateway) hmem)
    (injecting : ∀ hmem, motive (injectingProcessor routing) hmem)
    (identifier : ∀ hmem, motive (.identifier id) hmem)
    (breaker : ∀ hmem, motive (.circuitBreaker gateway.breakerTimeout) hmem)
    {processor : Processor} (hmem : processor ∈ standardPipeline gateway routing id) :
    motive processor hmem := by
  have hcases := hmem
  simp only [standardPipeline, List.mem_cons, List.not_mem_nil, or_false] at hcases
  rcases hcases with rfl | rfl | rfl | rfl | rfl | rfl | rfl | rfl
  exacts [base _, method _, target _, identity _, restoring _, injecting _, identifier _, breaker _]

theorem nodup_standardPipeline (id : String) : (standardPipeline gateway routing id).Nodup := by
  simp [standardPipeline]

/-- The standard order is one of them. -/
theorem isArranged_standardPipeline (id : String) :
    IsArranged gateway routing id (standardPipeline gateway routing id) where
  perm := .refl _
  base_restoring := .cons_cons _ (.cons _ (.cons _ (.cons _ (.cons_cons _ (List.nil_sublist _)))))
  identity_restoring := .cons _ (.cons _ (.cons _ (.cons_cons _ (.cons_cons _ (List.nil_sublist _)))))
  identity_injecting :=
    .cons _ (.cons _ (.cons _ (.cons_cons _ (.cons _ (.cons_cons _ (List.nil_sublist _))))))

end

section

variable {gateway : Settings.Gateway} {routing : Settings.Routing} {id : String}
  {processors before after : List Processor} {processor : Processor} (endpoint : Endpoint)

def arrangedStages (gateway : Settings.Gateway) (routing : Settings.Routing) (endpoint : Endpoint)
    (processor : Processor) : List Stage :=
  processor.stages endpoint (strippedPath gateway.ignoredPathPrefixes endpoint.path).lead
    (identityStages gateway routing endpoint)

theorem IsArranged.nodup (harranged : IsArranged gateway routing id processors) : processors.Nodup :=
  harranged.perm.nodup_iff.mpr (nodup_standardPipeline gateway routing id)

/-- Once the base path is set, the lead that comes back is the one that was taken off. -/
theorem IsArranged.lead (harranged : IsArranged gateway routing id (before ++ after))
    (hbase : baseProcessor gateway ∈ before) :
    (process before endpoint).lead? =
      (strippedPath gateway.ignoredPathPrefixes endpoint.path).lead := by
  have hall : (before ++ after).findSome? (Processor.stripped? endpoint) =
      some (strippedPath gateway.ignoredPathPrefixes endpoint.path) :=
    findSome?_of_perm harranged.perm rfl
  have hsome : (before.findSome? (Processor.stripped? endpoint)).isSome := by
    rw [List.findSome?_isSome_iff]
    exact ⟨_, hbase, rfl⟩
  rw [Builder.lead?, (process_values before endpoint).2.2.1]
  rw [List.findSome?_append, Option.or_of_isSome hsome] at hall
  rw [hall, Option.bind_some]

/-- Before declared parameters are injected, only an identity's stages inject anything. -/
theorem IsArranged.injects (harranged : IsArranged gateway routing id (before ++ after))
    (hidentity : identityProcessor gateway routing ∈ before)
    (hinjecting : injectingProcessor routing ∉ before) (parameter : String) :
    (before.flatMap (arrangedStages gateway routing endpoint)).any (·.injects parameter) =
      (identityStages gateway routing endpoint).any (·.injects parameter) := by
  rw [List.any_flatMap, Bool.eq_iff_iff, List.any_eq_true]
  constructor
  · rintro ⟨processor, hprocessor, hinjects⟩
    have hmem : processor ∈ standardPipeline gateway routing id :=
      harranged.perm.mem_iff.mp (List.mem_append_left after hprocessor)
    cases hmem using standardPipeline_cases with
    | identity => exact hinjects
    | injecting => exact absurd hprocessor hinjecting
    | _ => cases hinjects
  · exact fun hinjects => ⟨_, hidentity, hinjects⟩

/-- The next processor adds what it adds in the standard order. -/
theorem IsArranged.stages_step
    (harranged : IsArranged gateway routing id (before ++ processor :: after))
    (hstages : (process before endpoint).stages =
      before.flatMap (arrangedStages gateway routing endpoint)) :
    processor.stages endpoint (process before endpoint).lead? (process before endpoint).stages =
      arrangedStages gateway routing endpoint processor := by
  have hmem : processor ∈ standardPipeline gateway routing id :=
    harranged.perm.mem_iff.mp (List.mem_append_right before (.head after))
  cases hmem using standardPipeline_cases with
  | restoring =>
      have hbase := mem_of_pair_sublist harranged.base_restoring harranged.nodup
      rw [harranged.lead endpoint hbase]
      rfl
  | injecting =>
      have hidentity := mem_of_pair_sublist harranged.identity_injecting harranged.nodup
      have hinjecting : injectingProcessor routing ∉ before := fun hbefore =>
        (List.nodup_append.mp harranged.nodup).2.2 _ hbefore _ (.head after) rfl
      rw [hstages]
      exact declaredStages_congr (harranged.injects endpoint hidentity hinjecting) endpoint.parameters
  | _ => rfl

/-- Arranged processors have added what each adds in the standard order. -/
theorem IsArranged.stages_eq (harranged : IsArranged gateway routing id (before ++ after)) :
    (process before endpoint).stages = before.flatMap (arrangedStages gateway routing endpoint) := by
  induction before using List.reverseRecOn generalizing after with
  | nil => rfl
  | append_singleton before processor ih =>
      rw [List.append_assoc] at harranged
      rw [process_concat, Processor.process_eq, harranged.stages_step endpoint (ih harranged),
        ih harranged, List.flatMap_append, List.flatMap_singleton]

end

/-! ## Paths and queries of their own -/

namespace Stage

def path (stage : Stage) (path : String) : String :=
  match stage with
  | .exchangeLead source target =>
      ((Path.exchange? path.toList source.toList target.toList).map String.ofList).getD path
  | _ => path

def query (authentication : Option Authentication) (stage : Stage) (query : Query) : Query :=
  match stage with
  | .injectParameter name source strategy =>
      strategy.apply query name ((authentication.map source.values).getD [])
  | _ => query

def movesPath : Stage → Bool
  | .exchangeLead _ _ => true
  | _ => false

def changesQuery : Stage → Bool
  | .injectParameter _ _ _ => true
  | _ => false

/-- No stage looks at the query for the path, or at the path for the query. -/
theorem apply_eq (authentication : Option Authentication) (stage : Stage) (outbound : Outbound) :
    stage.apply authentication outbound =
      ⟨stage.path outbound.path, stage.query authentication outbound.query⟩ := by
  cases stage with
  | requireAuthentication => rfl
  | breaker policy => rfl
  | injectParameter name source strategy => rfl
  | exchangeLead source target =>
      rw [apply, path]
      cases Path.exchange? outbound.path.toList source.toList target.toList <;> rfl

theorem path_eq_self {stage : Stage} (hstays : stage.movesPath = false) (path : String) :
    stage.path path = path := by
  cases stage <;> first | rfl | cases hstays

theorem query_eq_self {stage : Stage} (hstays : stage.changesQuery = false)
    (authentication : Option Authentication) (query : Query) :
    stage.query authentication query = query := by
  cases stage <;> first | rfl | cases hstays

end Stage

theorem passStages_eq (authentication : Option Authentication) (stages : List Stage)
    (outbound : Outbound) :
    passStages authentication stages outbound =
      ⟨stages.foldl (fun path stage => stage.path path) outbound.path,
        stages.foldl (fun query stage => stage.query authentication query) outbound.query⟩ := by
  induction stages generalizing outbound with
  | nil => rfl
  | cons stage rest ih =>
      have hrest := ih (stage.apply authentication outbound)
      rw [Stage.apply_eq] at hrest
      exact (congrArg (passStages authentication rest) (Stage.apply_eq ..)).trans hrest

section

variable {gateway : Settings.Gateway} {routing : Settings.Routing} {id : String}
  {processors : List Processor} (endpoint : Endpoint)

/-- Apart from an identity's and the restoring ones, stages leave a path where it is. -/
theorem movesPath_arrangedStages {processor : Processor} {stage : Stage}
    (hprocessor : processor ∈ standardPipeline gateway routing id)
    (hother : processor ∉ [identityProcessor gateway routing, restoringProcessor gateway])
    (hstage : stage ∈ arrangedStages gateway routing endpoint processor) : stage.movesPath = false := by
  cases hprocessor using standardPipeline_cases with
  | identity => exact absurd (.head _) hother
  | restoring => exact absurd (.tail _ (.head _)) hother
  | injecting =>
      obtain ⟨name, source, strategy, rfl⟩ := exists_of_mem_declaredStages hstage
      rfl
  | breaker => exact List.mem_singleton.mp hstage ▸ rfl
  | _ => cases hstage

/-- Apart from an identity's and the declared ones, stages leave a query as it is. -/
theorem changesQuery_arrangedStages {processor : Processor} {stage : Stage}
    (hprocessor : processor ∈ standardPipeline gateway routing id)
    (hother : processor ∉ [identityProcessor gateway routing, injectingProcessor routing])
    (hstage : stage ∈ arrangedStages gateway routing endpoint processor) :
    stage.changesQuery = false := by
  cases hprocessor using standardPipeline_cases with
  | identity => exact absurd (.head _) hother
  | injecting => exact absurd (.tail _ (.head _)) hother
  | restoring => exact List.mem_singleton.mp hstage ▸ rfl
  | breaker => exact List.mem_singleton.mp hstage ▸ rfl
  | _ => cases hstage

/-- Paths are moved by an identity's stages and then by the restoring one; queries are changed by an
identity's stages and then by the declared ones. -/
theorem IsArranged.passStages_eq (harranged : IsArranged gateway routing id processors)
    (authentication : Option Authentication) (outbound : Outbound) :
    passStages authentication (processors.flatMap (arrangedStages gateway routing endpoint)) outbound =
      ⟨[identityProcessor gateway routing, restoringProcessor gateway].foldl (fun path processor =>
          (arrangedStages gateway routing endpoint processor).foldl
            (fun path stage => stage.path path) path) outbound.path,
        [identityProcessor gateway routing, injectingProcessor routing].foldl (fun query processor =>
          (arrangedStages gateway routing endpoint processor).foldl
            (fun query stage => stage.query authentication query) query) outbound.query⟩ := by
  rw [Route.passStages_eq, List.foldl_flatMap, List.foldl_flatMap]
  congr 1
  · refine foldl_eq_of_sublist harranged.identity_restoring harranged.nodup ?_ _
    intro processor hprocessor hother path
    have hstandard := harranged.perm.mem_iff.mp hprocessor
    exact foldl_eq_self (fun stage hstage path =>
      Stage.path_eq_self (movesPath_arrangedStages endpoint hstandard hother hstage) path) path
  · refine foldl_eq_of_sublist harranged.identity_injecting harranged.nodup ?_ _
    intro processor hprocessor hother query
    have hstandard := harranged.perm.mem_iff.mp hprocessor
    exact foldl_eq_self (fun stage hstage query => Stage.query_eq_self
      (changesQuery_arrangedStages endpoint hstandard hother hstage) authentication query) query

end

/-! ## Assembled routes -/

section

variable {gateway : Settings.Gateway} {routing : Settings.Routing} {id : String}
  {processors : List Processor} (endpoint : Endpoint)

def arrangedRoute (gateway : Settings.Gateway) (routing : Settings.Routing) (endpoint : Endpoint)
    (id : String) (processors : List Processor) : Route where
  id := id
  predicates := processors.flatMap (Processor.predicates endpoint)
  stages := processors.flatMap (arrangedStages gateway routing endpoint)
  uri := endpoint.application.uri
  application := endpoint.application.name
  endpoint := endpoint.key

theorem IsArranged.template? (harranged : IsArranged gateway routing id processors) :
    (processors.flatMap (Processor.predicates endpoint)).findSome? Predicate.template? =
      some (externalTemplate gateway endpoint) :=
  findSome?_of_perm (harranged.perm.flatMap_right _) rfl

theorem IsArranged.method? (harranged : IsArranged gateway routing id processors) :
    (processors.flatMap (Processor.predicates endpoint)).findSome? Predicate.method? =
      some endpoint.method :=
  findSome?_of_perm (harranged.perm.flatMap_right _) rfl

/-- Arranged processors make a route of every endpoint. -/
theorem IsArranged.assemble_eq (harranged : IsArranged gateway routing id processors) :
    assemble processors endpoint = .ok (arrangedRoute gateway routing endpoint id processors) := by
  obtain ⟨hid, huri, -, hpredicates⟩ := process_values processors endpoint
  have hstages : (process processors endpoint).stages =
      processors.flatMap (arrangedStages gateway routing endpoint) := by
    rw [← List.append_nil processors] at harranged
    exact harranged.stages_eq endpoint
  have hgiven : processors.findSome? Processor.id? = some id := findSome?_of_perm harranged.perm rfl
  have htarget : processors.findSome? (Processor.uri? endpoint) = some endpoint.application.uri :=
    findSome?_of_perm harranged.perm rfl
  rw [assemble, Builder.build, Builder.template?, hid, huri, hpredicates, hstages, hgiven, htarget,
    harranged.template? endpoint]
  rfl

theorem IsArranged.breaker? (harranged : IsArranged gateway routing id processors) :
    (arrangedRoute gateway routing endpoint id processors).breaker? =
      some ⟨endpoint.application.name, "/fallback/" ++ endpoint.application.name,
        gateway.breakerTimeout⟩ := by
  have hidentity : (identityStages gateway routing endpoint).filterMap Stage.breaker? = [] := by
    rw [identityStages]
    split <;> rfl
  have hdeclared : (declaredStages routing.initializers (identityStages gateway routing endpoint)
      endpoint.parameters).filterMap Stage.breaker? = [] := by
    rw [List.filterMap_eq_nil_iff]
    intro stage hstage
    obtain ⟨name, source, strategy, rfl⟩ := exists_of_mem_declaredStages hstage
    rfl
  refine findSome?_of_perm (harranged.perm.flatMap_right _) ?_
  calc ((standardPipeline gateway routing id).flatMap
        (arrangedStages gateway routing endpoint)).filterMap Stage.breaker?
      = (identityStages gateway routing endpoint ++ restoringStage gateway endpoint ::
          (declaredStages routing.initializers (identityStages gateway routing endpoint)
            endpoint.parameters ++ [breakerStage gateway endpoint])).filterMap Stage.breaker? := rfl
    _ = [breakerStage gateway endpoint].filterMap Stage.breaker? := by
        rw [List.filterMap_append, List.filterMap_cons_none rfl, List.filterMap_append, hidentity,
          hdeclared, List.nil_append, List.nil_append]

theorem IsArranged.requiresAuthentication (harranged : IsArranged gateway routing id processors) :
    (arrangedRoute gateway routing endpoint id processors).requiresAuthentication =
      (arrangedRoute gateway routing endpoint id
        (standardPipeline gateway routing id)).requiresAuthentication :=
  (harranged.perm.flatMap_right _).contains_eq

end

/-- Arranged processors make a route of every endpoint that differs from the standard one only in its id
and in the order of its predicates and stages: it accepts the same requests, sends them to the same
application behind the same breaker, and takes them to the same paths and queries. -/
theorem assemble_of_isArranged {gateway : Settings.Gateway} {routing : Settings.Routing}
    {id : String} (other : String) {processors : List Processor} (endpoint : Endpoint)
    (harranged : IsArranged gateway routing id processors) :
    ∃ route standard, assemble processors endpoint = .ok route ∧
      assemble (standardPipeline gateway routing other) endpoint = .ok standard ∧
      route.template = standard.template ∧ route.method? = standard.method? ∧
      route.uri = standard.uri ∧ route.application = standard.application ∧
      route.endpoint = standard.endpoint ∧
      route.requiresAuthentication = standard.requiresAuthentication ∧
      route.breaker? = standard.breaker? ∧
      ∀ path query authentication,
        route.outbound path query authentication = standard.outbound path query authentication := by
  have hstandard := isArranged_standardPipeline gateway routing other
  refine ⟨_, _, harranged.assemble_eq endpoint, hstandard.assemble_eq endpoint, ?_, ?_, rfl, rfl, rfl,
    ?_, ?_, ?_⟩
  · rw [template, template]
    exact congrArg (Option.getD · "/") ((harranged.template? endpoint).trans
      (hstandard.template? endpoint).symm)
  · exact (harranged.method? endpoint).trans (hstandard.method? endpoint).symm
  · exact harranged.requiresAuthentication endpoint
  · rw [harranged.breaker? endpoint, hstandard.breaker? endpoint]
  · intro path query authentication
    rw [outbound_eq_passStages, outbound_eq_passStages]
    exact (harranged.passStages_eq endpoint authentication _).trans
      (hstandard.passStages_eq endpoint authentication _).symm

/-- The breaker can come first, and an identity be asked for before the base path is set. -/
theorem assemble_of_isArranged_orders :
    let gateway : Settings.Gateway := { ignoredPathPrefixes := ["/internal"] }
    let routing : Settings.Routing := {}
    let processors : List Processor :=
      [ .circuitBreaker gateway.breakerTimeout, .identifier "r2", identityProcessor gateway routing,
        injectingProcessor routing, baseProcessor gateway, .targetUri, restoringProcessor gateway,
        .method ]
    IsArranged gateway routing "r2" processors ∧
      ∃ route standard, assemble processors ⟨⟨"orders", "lb://"⟩, .get, "/internal/orders",
          ["AUTHENTICATED"], [⟨"principal", true⟩], none⟩ = .ok route ∧
        assemble (standardPipeline gateway routing "r1") ⟨⟨"orders", "lb://"⟩, .get,
          "/internal/orders", ["AUTHENTICATED"], [⟨"principal", true⟩], none⟩ = .ok standard ∧
        route.outbound "/api/v1/orders" none (some ⟨"alice", []⟩) =
          standard.outbound "/api/v1/orders" none (some ⟨"alice", []⟩) := by
  intro gateway routing processors
  have harranged : IsArranged gateway routing "r2" processors :=
    ⟨by decide, by decide, by decide, by decide⟩
  obtain ⟨route, standard, hroute, hstandard, -, -, -, -, -, -, -, houtbound⟩ :=
    assemble_of_isArranged "r1" ⟨⟨"orders", "lb://"⟩, .get, "/internal/orders", ["AUTHENTICATED"],
      [⟨"principal", true⟩], none⟩ harranged
  exact ⟨harranged, route, standard, hroute, hstandard, houtbound _ _ _⟩

end ApiGateway.Route
