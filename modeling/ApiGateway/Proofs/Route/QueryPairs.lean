import ApiGateway.Proofs.Route.Injection

/-!
# What becomes of a query

A strategy merges the values that a caller sent under a name with the given ones, and all but the one that
always appends come to rest after one use.  A route that injects nothing passes on the query that it has
read, and the application reads it again as the gateway did.
-/

namespace ApiGateway.Route

/-! ## Merged values -/

namespace InjectionStrategy

/-- The values of a name that are left by a strategy, from those of the caller and the given ones. -/
def merged (strategy : InjectionStrategy) (old given : List String) : List String :=
  match strategy with
  | replaceAlways => given
  | replaceIfAbsent => if old = [] then given else old
  | appendAlways => old ++ given
  | appendIfAbsent => old ++ (given.filter (· ∉ old)).eraseDups

theorem any_iff_values_ne_nil {query : Query} {name : String} :
    query.any (·.1 == name) = true ↔ query.values name ≠ [] := by
  simp [Query.values]

theorem replaceIfAbsent_apply (query : Query) (name : String) (given : List String) :
    replaceIfAbsent.apply query name given =
      if query.values name = [] then query ++ given.map fun value => (name, value) else query := by
  rw [apply]
  by_cases hnone : query.values name = []
  · rw [if_pos hnone, if_neg fun hany => any_iff_values_ne_nil.mp hany hnone]
  · rw [if_neg hnone, if_pos (any_iff_values_ne_nil.mpr hnone)]

theorem values_apply (strategy : InjectionStrategy) (query : Query) (name : String)
    (given : List String) :
    (strategy.apply query name given).values name = strategy.merged (query.values name) given := by
  cases strategy with
  | replaceAlways => exact values_replaceAlways query name given
  | replaceIfAbsent =>
      rw [replaceIfAbsent_apply, merged]
      split
      · next hnone => rw [Query.values_append_given, hnone, List.nil_append]
      · rfl
  | appendAlways => exact query.values_append_given name given
  | appendIfAbsent =>
      rw [apply, foldl_addMissing, Query.values_append_given, merged]

/-! ## Applying twice -/

theorem replaceAlways_apply_apply (query : Query) (name : String) (given : List String) :
    replaceAlways.apply (replaceAlways.apply query name given) name given =
      replaceAlways.apply query name given := by
  have hothers := others_apply replaceAlways query name given
  exact congrArg (· ++ given.map fun value => (name, value)) hothers

theorem replaceIfAbsent_apply_apply (query : Query) (name : String) (given : List String) :
    replaceIfAbsent.apply (replaceIfAbsent.apply query name given) name given =
      replaceIfAbsent.apply query name given := by
  rw [replaceIfAbsent_apply (replaceIfAbsent.apply query name given)]
  split
  · next hnone =>
    -- No value is there after the first use, so none was given.
    have hgiven : given = [] := by
      rw [values_apply, merged] at hnone
      split at hnone
      · exact hnone
      · next hold => exact absurd hnone hold
    rw [hgiven, List.map_nil, List.append_nil]
  · rfl

/-- Each given value is there after it has been added if it was missing. -/
theorem mem_values_appendIfAbsent (query : Query) (name : String) {given : List String} {value : String}
    (hgiven : value ∈ given) : value ∈ (appendIfAbsent.apply query name given).values name := by
  rw [values_apply, merged, List.mem_append]
  by_cases hold : value ∈ query.values name
  · exact Or.inl hold
  · exact Or.inr (List.mem_eraseDups.mpr (List.mem_filter.mpr ⟨hgiven, decide_eq_true hold⟩))

theorem appendIfAbsent_apply_apply (query : Query) (name : String) (given : List String) :
    appendIfAbsent.apply (appendIfAbsent.apply query name given) name given =
      appendIfAbsent.apply query name given := by
  have hnone : given.filter (· ∉ (appendIfAbsent.apply query name given).values name) = [] := by
    refine List.filter_eq_nil_iff.mpr fun value hgiven => ?_
    rw [decide_eq_true_iff, not_not]
    exact mem_values_appendIfAbsent query name hgiven
  refine (foldl_addMissing name given _).trans ?_
  rw [hnone, List.eraseDups_nil, List.map_nil, List.append_nil]

/-- A strategy leaves the pairs of other names as they are and merges the values of its own name, and a
second use changes nothing unless it always appends. -/
theorem apply_merges (strategy : InjectionStrategy) (query : Query) (name : String)
    (given : List String) :
    (strategy.apply query name given).others name = query.others name ∧
      (strategy.apply query name given).values name = strategy.merged (query.values name) given ∧
      (strategy ≠ appendAlways →
        strategy.apply (strategy.apply query name given) name given =
          strategy.apply query name given) := by
  refine ⟨others_apply strategy query name given, values_apply strategy query name given, ?_⟩
  intro hrests
  cases strategy with
  | replaceAlways => exact replaceAlways_apply_apply query name given
  | replaceIfAbsent => exact replaceIfAbsent_apply_apply query name given
  | appendAlways => exact absurd rfl hrests
  | appendIfAbsent => exact appendIfAbsent_apply_apply query name given

/-- A role that the caller sent twice stays, and one that is given twice is added once. -/
theorem apply_merges_roles :
    let query : Query := [("roles", "admin"), ("page", "2"), ("roles", "admin")]
    let roles := ["user", "admin", "user"]
    appendIfAbsent ≠ appendAlways ∧
      (appendIfAbsent.apply query "roles" roles).others "roles" = [("page", "2")] ∧
      (appendIfAbsent.apply query "roles" roles).values "roles" = ["admin", "admin", "user"] ∧
      appendIfAbsent.apply (appendIfAbsent.apply query "roles" roles) "roles" roles =
        appendIfAbsent.apply query "roles" roles := by
  intro query roles
  obtain ⟨hothers, hvalues, hrests⟩ := apply_merges appendIfAbsent query "roles" roles
  exact ⟨by decide, hothers.trans (by decide), hvalues.trans (by decide), hrests (by decide)⟩

end InjectionStrategy

/-! ## Routes without injections -/

theorem Stage.query_apply {stage : Stage} (hnone : stage.parameter? = none)
    (authentication : Option Authentication) (outbound : Outbound) :
    (stage.apply authentication outbound).query = outbound.query := by
  cases stage with
  | requireAuthentication => rfl
  | breaker policy => rfl
  | exchangeLead source target =>
      rw [Stage.apply]
      split <;> rfl
  | injectParameter name source strategy => cases hnone

theorem query_passStages (authentication : Option Authentication) {stages : List Stage}
    (hnone : ∀ stage ∈ stages, stage.parameter? = none) (outbound : Outbound) :
    (passStages authentication stages outbound).query = outbound.query := by
  induction stages generalizing outbound with
  | nil => rfl
  | cons stage rest ih =>
      have hrest := ih (fun other hother => hnone other (.tail stage hother))
        (stage.apply authentication outbound)
      exact hrest.trans (Stage.query_apply (hnone stage (.head rest)) authentication outbound)

/-- Behind a path without a question mark, a server reads the query that was written there.  So a route
without injections passes on what the gateway has read, whatever the raw query is. -/
theorem query_read_back :
    (∀ outbound : Outbound, '?' ∉ outbound.path.toList →
        Query.ofTarget outbound.target = outbound.query) ∧
      ∀ route : Route, (∀ stage ∈ route.stages, stage.parameter? = none) →
        ∀ path query authentication,
          let outbound := route.outbound path query authentication
          Query.decode (Query.encode outbound.query) = (query.map Query.decode).getD [] ∧
            ('?' ∉ outbound.path.toList →
              Query.ofTarget outbound.target = (query.map Query.decode).getD []) := by
  refine ⟨Query.ofTarget_target, ?_⟩
  intro route hnone path query authentication outbound
  have hpassed : outbound.query = (query.map Query.decode).getD [] :=
    query_passStages authentication hnone _
  refine ⟨?_, fun hpath => ?_⟩
  · rw [Query.decode_encode, hpassed]
  · rw [Query.ofTarget_target outbound hpath, hpassed]

/-- What is no UTF-8 and what is no pair in a query is read as it was read before. -/
theorem query_read_back_orders :
    let route : Route := ⟨"r1", [.path "/api/v1/orders"],
      [.requireAuthentication, .exchangeLead "/api/v1" "/auth"], "lb://orders", "orders",
      ⟨"orders", .get, "/auth/orders"⟩⟩
    let outbound := route.outbound "/api/v1/orders" (some "page=2&&q=%C3%28+a%26b&flag") none
    '?' ∉ outbound.path.toList ∧ outbound.target = "/auth/orders?page=2&q=%EF%BF%BD%28%20a%26b&flag=" ∧
      Query.ofTarget outbound.target = [("page", "2"), ("q", "\uFFFD( a&b"), ("flag", "")] := by
  intro route outbound
  have hpath : '?' ∉ outbound.path.toList := by decide +kernel
  have hread : Query.decode "page=2&&q=%C3%28+a%26b&flag" =
      [("page", "2"), ("q", "\uFFFD( a&b"), ("flag", "")] := by decide +kernel
  have hback := (query_read_back.2 route (by decide) "/api/v1/orders"
    (some "page=2&&q=%C3%28+a%26b&flag") none).2 hpath
  exact ⟨hpath, by decide +kernel, hback.trans hread⟩

end ApiGateway.Route
