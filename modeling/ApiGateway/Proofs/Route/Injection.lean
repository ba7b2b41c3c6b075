import ApiGateway.Proofs.Query
import ApiGateway.Proofs.Route.Pipeline
import Mathlib.Data.List.Nodup

/-!
# Injected values on their way

Whatever query a caller sends, a parameter that a route replaces reaches the application with the
values of the authentication and no others: no other stage injects the same parameter, and the
application reads the query that the gateway wrote.
-/

namespace ApiGateway

/-! ## Queries behind paths -/

/-- A server reads the query that was written behind a path without a question mark. -/
theorem Query.ofTarget_target (outbound : Route.Outbound) (hpath : '?' ∉ outbound.path.toList) :
    Query.ofTarget outbound.target = outbound.query := by
  rw [Route.Outbound.target, Query.ofTarget]
  cases hquery : outbound.query with
  | nil => simp only [Text.cut?_eq_none_iff.mpr hpath]
  | cons first rest =>
      have hcut : Text.cut? '?' (outbound.path ++ "?" ++ Query.encode (first :: rest)).toList =
          some (outbound.path.toList, (Query.encode (first :: rest)).toList) := by
        rw [Text.cut?_eq_some_iff]
        exact ⟨hpath, by simp⟩
      simp only [hcut, String.ofList_toList, Query.decode_encode]

namespace Query

theorem values_append (left right : Query) (name : String) :
    (left ++ right).values name = left.values name ++ right.values name := by
  simp [values]

theorem values_map_self (name : String) (given : List String) :
    values (given.map fun value => (name, value)) name = given := by
  simp [values, List.filter_map, Function.comp_def]

/-- Given values stand behind those that were there. -/
theorem values_append_given (query : Query) (name : String) (given : List String) :
    (query ++ given.map fun value => (name, value)).values name = query.values name ++ given := by
  rw [values_append, values_map_self]

def others (query : Query) (name : String) : Query :=
  query.filter (·.1 != name)

/-- Given values are no pairs of other names. -/
theorem others_append_given (query : Query) (name : String) (given : List String) :
    (query ++ given.map fun value => (name, value)).others name = query.others name := by
  simp [others, List.filter_map]

theorem others_others (query : Query) (name : String) :
    (query.others name).others name = query.others name := by
  simp [others]

theorem values_others_self (query : Query) (name : String) : (query.others name).values name = [] := by
  simp [values, others, List.filter_filter]

/-- The values of a name stand in the pairs of other names than another one. -/
theorem values_others {name other : String} (hne : other ≠ name) (query : Query) :
    (query.others other).values name = query.values name := by
  rw [values, others, List.filter_filter, values]
  refine congrArg (List.map Prod.snd) (List.filter_congr fun pair _ => ?_)
  by_cases hname : pair.1 = name
  · simp [hname, hne.symm]
  · simp [hname]

end Query

namespace Route

/-! ## One stage -/

theorem contains_iff_mem_values {query : Query} {name value : String} :
    query.contains (name, value) = true ↔ value ∈ query.values name := by
  simp [Query.values]

/-- The given values that are not there yet are added, each of them once. -/
theorem foldl_addMissing (name : String) (given : List String) (query : Query) :
    given.foldl (addMissing name) query =
      query ++ ((given.filter (· ∉ query.values name)).eraseDups).map fun value => (name, value) := by
  induction given generalizing query with
  | nil => simp
  | cons value given ih =>
      rw [List.foldl_cons, ih, addMissing]
      by_cases hmem : value ∈ query.values name
      · rw [if_pos (contains_iff_mem_values.mpr hmem), List.filter_cons_of_neg (by simpa using hmem)]
      · have hvalues : (query ++ [(name, value)]).values name = query.values name ++ [value] :=
          query.values_append_given name [value]
        have hmissing : given.filter (· ∉ query.values name ++ [value]) =
            (given.filter (· ∉ query.values name)).filter fun other => !other == value := by
          rw [List.filter_filter]
          refine List.filter_congr fun other _ => ?_
          by_cases heq : other = value <;> simp [heq]
        rw [if_neg (mt contains_iff_mem_values.mp hmem), hvalues, hmissing,
          List.filter_cons_of_pos (by simpa using hmem), List.eraseDups_cons, List.map_cons,
          List.append_assoc, List.singleton_append]

namespace InjectionStrategy

/-- Replacing leaves the given values alone. -/
theorem values_replaceAlways (query : Query) (name : String) (given : List String) :
    (replaceAlways.apply query name given).values name = given := by
  have hkept : replaceAlways.apply query name given =
      query.others name ++ given.map fun value => (name, value) := rfl
  rw [hkept, Query.values_append_given, Query.values_others_self, List.nil_append]

/-- A strategy leaves the pairs of other names as they are. -/
theorem others_apply (strategy : InjectionStrategy) (query : Query) (name : String)
    (given : List String) : (strategy.apply query name given).others name = query.others name := by
  cases strategy with
  | replaceAlways =>
      exact ((query.others name).others_append_given name given).trans (query.others_others name)
  | replaceIfAbsent =>
      rw [apply]
      split
      · rfl
      · exact query.others_append_given name given
  | appendAlways => exact query.others_append_given name given
  | appendIfAbsent =>
      rw [apply, foldl_addMissing]
      exact query.others_append_given name _

/-- A strategy touches no other parameter. -/
theorem values_of_ne {name other : String} (hne : other ≠ name) (strategy : InjectionStrategy)
    (query : Query) (given : List String) :
    (strategy.apply query other given).values name = query.values name := by
  rw [← Query.values_others hne, others_apply, Query.values_others hne]

end InjectionStrategy

theorem Stage.values_apply_of_not_injects {name : String} {stage : Stage}
    (hnot : stage.injects name = false) (authentication : Option Authentication) (outbound : Outbound) :
    (stage.apply authentication outbound).query.values name = outbound.query.values name := by
  cases stage with
  | requireAuthentication => rfl
  | breaker policy => rfl
  | exchangeLead source target =>
      rw [Stage.apply]
      split <;> rfl
  | injectParameter other source strategy =>
      have hne : other ≠ name := by simpa [Stage.injects] using hnot
      exact strategy.values_of_ne hne _ _

/-! ## Paths -/

/-- The stage brings no question mark into a path. -/
def Stage.IsPlain : Stage → Prop
  | .exchangeLead _ target => '?' ∉ target.toList
  | _ => True

theorem Stage.IsPlain.path {stage : Stage} (hplain : stage.IsPlain)
    (authentication : Option Authentication) {outbound : Outbound}
    (hpath : '?' ∉ outbound.path.toList) :
    '?' ∉ (stage.apply authentication outbound).path.toList := by
  cases stage with
  | requireAuthentication => exact hpath
  | breaker policy => exact hpath
  | injectParameter name source strategy => exact hpath
  | exchangeLead source target =>
      rw [Stage.apply]
      cases hexchange : Path.exchange? outbound.path.toList source.toList target.toList with
      | none => exact hpath
      | some moved =>
          intro hmem
          rw [String.toList_ofList] at hmem
          rcases Path.mem_exchange? hexchange hmem with hslash | hold | hlead
          · exact absurd hslash (by decide)
          · exact hpath hold
          · exact hplain hlead

/-! ## All stages -/

def passStages (authentication : Option Authentication) (stages : List Stage) (outbound : Outbound) :
    Outbound :=
  stages.foldl (fun outbound stage => stage.apply authentication outbound) outbound

theorem path_passStages (authentication : Option Authentication) {stages : List Stage}
    {outbound : Outbound} (hplain : ∀ stage ∈ stages, stage.IsPlain)
    (hpath : '?' ∉ outbound.path.toList) :
    '?' ∉ (passStages authentication stages outbound).path.toList := by
  induction stages generalizing outbound with
  | nil => exact hpath
  | cons stage rest ih =>
      exact ih (fun other hother => hplain other (.tail stage hother))
        ((hplain stage (.head rest)).path authentication hpath)

theorem values_passStages_of_not_injects {authentication : Option Authentication} {name : String}
    {stages : List Stage} {outbound : Outbound}
    (hnot : ∀ stage ∈ stages, stage.injects name = false) :
    (passStages authentication stages outbound).query.values name = outbound.query.values name := by
  induction stages generalizing outbound with
  | nil => rfl
  | cons stage rest ih =>
      have hrest := @ih (stage.apply authentication outbound) fun other hother =>
        hnot other (.tail stage hother)
      exact hrest.trans
        (Stage.values_apply_of_not_injects (hnot stage (.head rest)) authentication outbound)

def Stage.parameter? : Stage → Option String
  | .injectParameter name _ _ => some name
  | _ => none

theorem Stage.injects_iff {stage : Stage} {name : String} :
    stage.injects name = true ↔ stage.parameter? = some name := by
  cases stage <;> simp [Stage.injects, Stage.parameter?]

/-- If no parameter is injected twice, one that is replaced ends up with the given values. -/
theorem values_passStages_of_replaces {authentication : Option Authentication} {name : String}
    {source : ClaimSource} {stages : List Stage} (outbound : Outbound)
    (honce : (stages.filterMap Stage.parameter?).Nodup)
    (hreplaces : .injectParameter name source .replaceAlways ∈ stages) :
    (passStages authentication stages outbound).query.values name =
      (authentication.map source.values).getD [] := by
  obtain ⟨before, after, rfl⟩ := List.append_of_mem hreplaces
  have hafter : ∀ stage ∈ after, stage.injects name = false := by
    intro stage hstage
    rw [← Bool.not_eq_true, Stage.injects_iff]
    intro hname
    rw [List.filterMap_append, List.nodup_append, List.filterMap_cons] at honce
    have hmem : name ∈ after.filterMap Stage.parameter? := List.mem_filterMap.mpr ⟨stage, hstage, hname⟩
    exact (List.nodup_cons.mp honce.2.1).1 hmem
  have hsplit : passStages authentication
      (before ++ .injectParameter name source .replaceAlways :: after) outbound =
      passStages authentication after ((Stage.injectParameter name source .replaceAlways).apply
        authentication (passStages authentication before outbound)) := by
    rw [passStages, List.foldl_append, List.foldl_cons]
    rfl
  rw [hsplit, values_passStages_of_not_injects hafter]
  exact InjectionStrategy.values_replaceAlways _ _ _

/-! ## The standard pipeline -/

/-- Declared parameters are injected only if no stage before does it already. -/
theorem parameters_declaredStages_nodup (initializers : List Settings.Initializer)
    {earlier : List Stage} (parameters : List Parameter)
    (honce : (earlier.filterMap Stage.parameter?).Nodup) :
    ((earlier ++ declaredStages initializers earlier parameters).filterMap Stage.parameter?).Nodup := by
  induction parameters generalizing earlier with
  | nil => simpa [declaredStages] using honce
  | cons parameter rest ih =>
      rw [declaredStages]
      cases initializer? initializers parameter.name with
      | none => exact ih honce
      | some initializer =>
          simp only
          cases hinjects : earlier.any (·.injects parameter.name) with
          | true => simpa only [if_true] using ih honce
          | false =>
              rw [if_neg Bool.false_ne_true, List.append_cons]
              refine ih ?_
              have hnew : parameter.name ∉ earlier.filterMap Stage.parameter? := by
                intro hmem
                obtain ⟨stage, hstage, hname⟩ := List.mem_filterMap.mp hmem
                exact List.any_eq_false.mp hinjects stage hstage (Stage.injects_iff.mpr hname)
              rw [List.filterMap_append, List.nodup_append]
              refine ⟨honce, List.nodup_cons.mpr ⟨List.not_mem_nil, List.nodup_nil⟩, ?_⟩
              rintro name hname other hother rfl
              exact hnew (List.mem_singleton.mp hother ▸ hname)

section

variable (gateway : Settings.Gateway) (routing : Settings.Routing) (endpoint : Endpoint)

/-- The standard pipeline injects no parameter twice. -/
theorem parameters_standardStages_nodup :
    ((standardStages gateway routing endpoint).filterMap Stage.parameter?).Nodup := by
  have hleading : ((leadingStages gateway routing endpoint).filterMap Stage.parameter?).Nodup := by
    rw [leadingStages, identityStages]
    split
    · exact List.nodup_singleton routing.principalParameter
    · exact List.nodup_nil
  have hbreaker : [breakerStage gateway endpoint].filterMap Stage.parameter? = [] := rfl
  rw [standardStages, List.filterMap_append, hbreaker, List.append_nil]
  exact parameters_declaredStages_nodup routing.initializers endpoint.parameters hleading

variable {gateway routing}

/-- Without question marks in the leads that come back, no stage brings one into a path. -/
theorem isPlain_of_mem_standardStages
    (hignored : ∀ lead ∈ gateway.ignoredPathPrefixes, '?' ∉ lead.toList)
    (hidentity : '?' ∉ routing.identityPrefix.toList) {stage : Stage}
    (hstage : stage ∈ standardStages gateway routing endpoint) : stage.IsPlain := by
  have hrestoring : (restoringStage gateway endpoint).IsPlain := by
    rw [restoringStage, Stage.IsPlain]
    rcases strippedPath_cases gateway.ignoredPathPrefixes endpoint.path with
      hnone | ⟨lead, hlead, rest, -, -, hsome⟩
    · rw [hnone]
      exact List.not_mem_nil
    · rw [hsome]
      exact hignored lead hlead
  simp only [standardStages, leadingStages, List.mem_append, List.mem_singleton] at hstage
  rcases hstage with ((hown | rfl) | hdeclared) | rfl
  · rw [identityStages] at hown
    split at hown
    · simp only [List.mem_cons, List.not_mem_nil, or_false] at hown
      rcases hown with rfl | rfl | rfl
      · trivial
      · exact hidentity
      · trivial
    · cases hown
  · exact hrestoring
  · obtain ⟨name, source, strategy, rfl⟩ := exists_of_mem_declaredStages hdeclared
    trivial
  · trivial

theorem mem_standardStages_of_identity {stage : Stage}
    (hstage : stage ∈ identityStages gateway routing endpoint) :
    stage ∈ standardStages gateway routing endpoint := by
  rw [standardStages, leadingStages]
  simp [hstage]

end

theorem outbound_eq_passStages (route : Route) (path : String) (query : Option String)
    (authentication : Option Authentication) :
    route.outbound path query authentication =
      passStages authentication route.stages ⟨path, (query.map Query.decode).getD []⟩ := rfl

/-- The standard pipeline makes a route of every endpoint, and whatever a caller asks for, the
application reads a parameter that the route replaces with the values of the authentication and no
others.  An endpoint that asks for an identity gets a route that requires an authentication and replaces
the principal's parameter by the principal. -/
theorem outbound_values (gateway : Settings.Gateway) (routing : Settings.Routing) (id : String)
    (endpoint : Endpoint) (hignored : ∀ lead ∈ gateway.ignoredPathPrefixes, '?' ∉ lead.toList)
    (hidentity : '?' ∉ routing.identityPrefix.toList) :
    ∃ route, assemble (standardPipeline gateway routing id) endpoint = .ok route ∧
      (∀ path query authentication name source, '?' ∉ path.toList →
        .injectParameter name source .replaceAlways ∈ route.stages →
        (Query.ofTarget (route.outbound path query authentication).target).values name =
          (authentication.map source.values).getD []) ∧
      (endpoint.hasTag routing.authenticatedTag → route.requiresAuthentication = true ∧
        ∀ path query authentication, '?' ∉ path.toList →
          (Query.ofTarget (route.outbound path query authentication).target).values
              routing.principalParameter =
            (authentication.map fun identity => [identity.principal]).getD []) := by
  have hvalues : ∀ path query authentication name source, '?' ∉ path.toList →
      .injectParameter name source .replaceAlways ∈ standardStages gateway routing endpoint →
      (Query.ofTarget ((standardRoute gateway routing id endpoint).outbound path query
          authentication).target).values name = (authentication.map source.values).getD [] := by
    intro path query authentication name source hpath hreplaces
    have hplain : ∀ stage ∈ standardStages gateway routing endpoint, stage.IsPlain :=
      fun stage hstage => isPlain_of_mem_standardStages endpoint hignored hidentity hstage
    have honce := parameters_standardStages_nodup gateway routing endpoint
    rw [outbound_eq_passStages, standardRoute_stages]
    rw [Query.ofTarget_target _ (path_passStages authentication hplain hpath)]
    exact values_passStages_of_replaces _ honce hreplaces
  refine ⟨_, assemble_standardPipeline gateway routing id endpoint, hvalues, fun htag => ⟨?_, ?_⟩⟩
  · rw [requiresAuthentication, List.contains_iff_mem]
    exact mem_standardStages_of_identity endpoint (by simp [identityStages, htag])
  · intro path query authentication hpath
    exact hvalues path query authentication _ .principal hpath
      (mem_standardStages_of_identity endpoint (by simp [identityStages, htag]))

/-- A caller who sends a principal in any spelling is not taken for it. -/
theorem outbound_values_orders :
    ∃ route, assemble (standardPipeline {} {} "r1")
        ⟨⟨"orders", "lb://"⟩, .get, "/orders", ["AUTHENTICATED"], [⟨"principal", true⟩], none⟩ = .ok route ∧
      (Query.ofTarget (route.outbound "/api/v1/orders" (some "principal=mallory&%70rincipal=eve")
        (some ⟨"alice", []⟩)).target).values "principal" = ["alice"] := by
  obtain ⟨route, hassemble, -, hidentity⟩ := outbound_values {} {} "r1"
    ⟨⟨"orders", "lb://"⟩, .get, "/orders", ["AUTHENTICATED"], [⟨"principal", true⟩], none⟩ (by decide)
    (by decide)
  exact ⟨route, hassemble, (hidentity (by decide)).2 _ _ _ (by decide)⟩

end Route

end ApiGateway
