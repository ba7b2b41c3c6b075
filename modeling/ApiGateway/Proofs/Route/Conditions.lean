import ApiGateway.Proofs.Route.Lookup
import ApiGateway.Proofs.Route.Rebuilding

/-!
# Conditions of routes

A route accepts the requests that meet all its conditions, so one without a method accepts any method.
The index knows such a route under one method only.  A route that is found accepts the request, and one
is found whenever a serving route accepts the request and is indexed under its method.
-/

namespace ApiGateway.Route

def Predicate.Holds (method : Http.Method) (path : String) : Predicate → Prop
  | .path template => path.toList.head? = some '/' ∧ Path.Template.Fits template.toList path.toList
  | .method required => required = method

def Accepts (route : Route) (method : Http.Method) (path : String) : Prop :=
  ∀ predicate ∈ route.predicates, predicate.Holds method path

/-- The route has one template, which is made of segments, and is restricted to one method or to none. -/
structure IsPlain (route : Route) : Prop where
  template : ∃ template, route.predicates.filterMap Predicate.template? = [template]
  segmented : route.IsSegmented
  method : (route.predicates.filterMap Predicate.method?).length ≤ 1

/-! ## Conditions and the index -/

namespace IsPlain

variable {route : Route} {method : Http.Method} {path : String}

theorem template_eq (hplain : route.IsPlain) :
    route.predicates.filterMap Predicate.template? = [route.template] := by
  obtain ⟨template, hone⟩ := hplain.template
  rw [Route.template, ← List.head?_filterMap, hone]
  rfl

theorem method?_eq (hplain : route.IsPlain) {required : Http.Method}
    (hmem : .method required ∈ route.predicates) : route.method? = some required := by
  have hfirst : required ∈ route.predicates.filterMap Predicate.method? :=
    List.mem_filterMap.mpr ⟨_, hmem, rfl⟩
  rw [method?, ← List.head?_filterMap]
  have hlength := hplain.method
  cases hmethods : route.predicates.filterMap Predicate.method? with
  | nil =>
      rw [hmethods] at hfirst
      cases hfirst
  | cons first rest =>
      rw [hmethods, List.length_cons, Nat.succ_le_succ_iff, Nat.le_zero, List.length_eq_zero_iff] at hlength
      rw [hmethods, hlength, List.mem_singleton] at hfirst
      rw [hfirst]
      rfl

theorem accepts_iff (hplain : route.IsPlain) : route.Accepts method path ↔
    path.toList.head? = some '/' ∧ Path.Template.Fits route.template.toList path.toList ∧
      ∀ required, route.method? = some required → required = method := by
  have htemplate := hplain.template_eq
  constructor
  · intro haccepts
    have hmem : route.template ∈ route.predicates.filterMap Predicate.template? := by
      rw [htemplate]
      exact .head []
    obtain ⟨predicate, hpredicate, hpath⟩ := List.mem_filterMap.mp hmem
    have hfits := haccepts predicate hpredicate
    cases predicate with
    | method required => cases hpath
    | path template =>
        cases hpath
        refine ⟨hfits.1, hfits.2, fun required hrequired => ?_⟩
        obtain ⟨other, hother, hmethod⟩ := List.exists_of_findSome?_eq_some hrequired
        have hholds := haccepts other hother
        cases other with
        | path template => cases hmethod
        | method own =>
            cases hmethod
            exact hholds
  · rintro ⟨hrooted, hfits, hmethod⟩ predicate hpredicate
    cases predicate with
    | path template =>
        have hmem : template ∈ route.predicates.filterMap Predicate.template? :=
          List.mem_filterMap.mpr ⟨_, hpredicate, rfl⟩
        rw [htemplate, List.mem_singleton] at hmem
        rw [hmem]
        exact ⟨hrooted, hfits⟩
    | method required => exact hmethod required (hplain.method?_eq hpredicate)

/-- The index knows a route for the requests that it accepts, but a route without a method for one method
only. -/
theorem isIndexedFor_iff (hplain : route.IsPlain) (hrooted : path.toList.head? = some '/') :
    route.IsIndexedFor method path ↔
      route.Accepts method path ∧ (route.method? = none → method = .get) := by
  rw [IsIndexedFor, hplain.accepts_iff, indexMethod]
  cases route.method? with
  | none =>
      simp only [Option.getD_none, reduceCtorEq, false_imp_iff, implies_true, and_true, hrooted, true_and,
        forall_const]
      exact and_comm.trans (and_congr_right fun _ => eq_comm)
  | some own =>
      simp only [Option.getD_some, Option.some.injEq, forall_eq', reduceCtorEq, false_imp_iff, and_true,
        hrooted, true_and]
      exact and_comm

end IsPlain

/-! ## Templates with too many variables -/

/-- The index reads the variables of a template made of segments, if there are not too many. -/
theorem IsWellFormed.parameterNames_eq {route : Route} (hwell : IsWellFormed route) :
    ∃ names, parameterNames (indexText route) 0 = .ok names := by
  obtain ⟨hsegmented, harity⟩ := Path.Template.isWellFormed_iff.mp hwell
  rw [indexText, Path.Template.indexText_eq_render]
  exact ⟨_, hsegmented.isNeat.parameterNames_render 0 (by rwa [Nat.zero_add])⟩

theorem IsSegmented.parameterNames_eq {route : Route} (hsegmented : IsSegmented route)
    (hcrowded : ¬ IsWellFormed route) :
    parameterNames (indexText route) 0 = .error .tooManyParameters := by
  have harity : parameterLimit < Symbol.arity (Path.Template.symbols route.template.toList) :=
    Nat.lt_of_not_le fun hfew => hcrowded (Path.Template.isWellFormed_iff.mpr ⟨hsegmented, hfew⟩)
  rw [indexText, Path.Template.indexText_eq_render]
  exact (Path.Template.IsSegmented.isNeat hsegmented).parameterNames_render_crowded (Nat.zero_le _)
    (by rwa [Nat.zero_add])

/-- Nothing is found for a path that does not start with a slash. -/
theorem Tree.IsRoot.find?_eq_none {α : Type} {tree : Tree α} (hroot : tree.IsRoot) {path : List Char}
    (hunrooted : path.head? ≠ some '/') : tree.find? path = none := by
  have hsearch : tree.search path = .stopped ∨ tree.search path = .fail path := by
    rcases hroot.open_or_slash with rfl | hlabel
    · cases path <;> exact Or.inr rfl
    · cases tree with
      | node label leaf branches wild =>
          have hstrip : Text.strip? label path = none := by
            rw [Option.eq_none_iff_forall_ne_some]
            intro rest hsome
            rw [Text.strip?_eq_some_iff] at hsome
            cases label with
            | nil => cases hlabel
            | cons c label => exact hunrooted (hsome ▸ hlabel)
          rw [Tree.search, hstrip]
          dsimp only
          split
          · exact Or.inl rfl
          · exact Or.inr rfl
  rw [Tree.find?]
  rcases hsearch with hsearch | hsearch
  · rw [hsearch]
  · rcases Search.fail_eq path with hmissed | hstopped
    · rw [hsearch, hmissed]
    · rw [hsearch, hstopped]

namespace Table

/-- A sound table does not take a template with too many variables, and is the same to every lookup. -/
theorem IsSound.insert_segmented {table : Table} (hsound : table.IsSound) {route : Route}
    (hsegmented : IsSegmented route) : (table.insert route).1.IsSound := by
  by_cases hwell : IsWellFormed route
  · exact hsound.insert hwell
  have herror := hsegmented.parameterNames_eq hwell
  have hinsert := Tree.insert_of_error (table.index.tree (indexMethod route)) route herror
  have hadd : (table.index.add route).2 = some .tooManyParameters := by
    rw [Index.add_refusal, hinsert]
  have htrees : ∀ method, (table.index.add route).1.tree method = table.index.tree method := by
    intro method
    rw [Index.add_tree, hinsert]
    split
    · next heq => rw [heq]
    · rfl
  have hinserts := hsound.keyed.inserts route
  have hkeyed := hsound.keyed.insert route
  generalize table.insert route = result at hinserts hkeyed ⊢
  cases hinserts with
  | settled hslots hkey hchanged hindex =>
      -- The routes of a slot have one key, and so the same variables.
      next before after slot insertion changed =>
      have hslot : slot ∈ table.slots := by simp [hslots]
      have hserving := hsound.keyed.held slot hslot slot.serving (.head _)
      obtain ⟨names, hnames⟩ :=
        (hsound.well slot.serving (mem_held.mpr ⟨slot, hslot, .head _⟩)).parameterNames_eq
      rw [← SlotKey.text_slotKey, hserving, hkey, SlotKey.text_slotKey, herror] at hnames
      cases hnames
  | opened hfresh htaken hchanged =>
      rw [htaken] at hadd
      cases hadd
  | refused hfresh hrefused hchanged =>
      rw [hrefused] at htrees
      refine ⟨hkeyed, ?_, fun method => ?_⟩
      · rw [held, hchanged]
        exact hsound.well
      · rw [htrees method, routes, hchanged]
        exact hsound.index method

theorem IsSound.run_segmented {table : Table} (hsound : table.IsSound) {changes : List Change}
    (hsegmented : ∀ route, .insert route ∈ changes → IsSegmented route) :
    (table.run changes).IsSound := by
  induction changes generalizing table with
  | nil => exact hsound
  | cons change rest ih =>
      rw [run_cons]
      refine ih ?_ fun route hlater => hsegmented route (.tail change hlater)
      cases change with
      | insert route => exact hsound.insert_segmented (hsegmented route (.head rest))
      | remove endpoint => exact hsound.remove endpoint

/-! ## Lookup -/

/-- After any run over routes with one template, made of segments, and a method or none: a route is found
exactly if a serving route accepts the request and does not leave out the method, unless the method is the
one under which such routes are indexed.  The route that is found is a serving one that accepts the
request. -/
theorem find?_run_accepts (policy : CollisionPolicy) (changes : List Change)
    (hchanges : ∀ route, .insert route ∈ changes → route.IsPlain) (method : Http.Method)
    (path : String) (hpath : ∀ segment ∈ Path.segments path.toList, segment ≠ []) :
    let table := (empty policy).run changes
    ((table.find? method path).isSome ↔ ∃ route ∈ table.routes, route.Accepts method path ∧
        (route.method? = none → method = .get)) ∧
      ∀ found, table.find? method path = some found →
        found.route ∈ table.routes ∧ found.route.Accepts method path := by
  intro table
  have hsound : table.IsSound := (isSound_empty policy).run_segmented fun route hinserted =>
    (hchanges route hinserted).segmented
  have hplain : ∀ route ∈ table.routes, route.IsPlain := by
    intro route hroute
    rcases (isKeyed_empty policy).mem_held_run (mem_held_of_mem_routes hroute) with hold | hinserted
    · cases hold
    · exact hchanges route hinserted
  by_cases hrooted : path.toList.head? = some '/'
  · have hindexed := fun route hroute => @(hplain route hroute).isIndexedFor_iff route method path hrooted
    rcases hsound.find?_answers method ⟨hrooted, hpath⟩ with
      ⟨hnone, habsent⟩ | ⟨route, hroute, hown, hfind, -⟩
    · rw [hnone]
      refine ⟨⟨fun hsome => absurd hsome Bool.false_ne_true, ?_⟩, fun found hfound => nomatch hfound⟩
      rintro ⟨route, hroute, haccepts⟩
      exact absurd ((hindexed route hroute).mpr haccepts) (habsent route hroute)
    · have haccepts := (hindexed route hroute).mp hown
      rw [hfind]
      refine ⟨⟨fun _ => ⟨route, hroute, haccepts⟩, fun _ => rfl⟩, fun found hfound => ?_⟩
      cases hfound
      exact ⟨hroute, haccepts.1⟩
  · have hnone : table.find? method path = none := by
      rw [find?, (hsound.index method).1.find?_eq_none hrooted]
      rfl
    rw [hnone]
    refine ⟨⟨fun hsome => absurd hsome Bool.false_ne_true, ?_⟩, fun found hfound => nomatch hfound⟩
    rintro ⟨route, hroute, haccepts, -⟩
    exact absurd ((hplain route hroute).accepts_iff.mp haccepts).1 hrooted

def reportsRoute (template : String) (conditions : List Predicate) : Route :=
  ⟨"reports", .path template :: conditions, [], "lb://reports", "reports",
    ⟨"reports", .get, template⟩⟩

theorem isPlain_reportsRoute {template : String} (htemplate : Path.Template.IsSegmented template.toList)
    (required : Option Http.Method) :
    (reportsRoute template (required.toList.map .method)).IsPlain where
  template := by cases required <;> exact ⟨template, rfl⟩
  segmented := htemplate
  method := by
    cases required with
    | none => exact Nat.zero_le 1
    | some required => exact Nat.le_refl 1

/-- A report is offered for any method, and the latest one for one method. -/
def reportsChanges : List Change :=
  [.insert (reportsRoute "/reports/\x7bid\x7d" []), .insert (reportsRoute "/reports/latest" [.method .post])]

theorem isPlain_of_mem_reportsChanges {route : Route} (hmem : .insert route ∈ reportsChanges) :
    route.IsPlain := by
  simp only [reportsChanges, List.mem_cons, List.not_mem_nil, or_false, Change.insert.injEq] at hmem
  rcases hmem with rfl | rfl
  · exact isPlain_reportsRoute (by decide) none
  · exact isPlain_reportsRoute (by decide) (some .post)

/-- The route for any method is found where it is indexed. -/
theorem find?_run_accepts_reports :
    (((empty .reject).run reportsChanges).find? .get "/reports/7").isSome := by
  refine (find?_run_accepts .reject reportsChanges (fun _ => isPlain_of_mem_reportsChanges) .get
    "/reports/7" (by decide)).1.mpr ?_
  have hroutes : reportsRoute "/reports/\x7bid\x7d" [] ∈ ((empty .reject).run reportsChanges).routes := by
    decide +kernel
  have hplain := isPlain_of_mem_reportsChanges (.head _)
  have haccepts : (reportsRoute "/reports/\x7bid\x7d" []).Accepts .get "/reports/7" :=
    hplain.accepts_iff.mpr ⟨by decide, by decide, fun _ heq => nomatch heq⟩
  exact ⟨_, hroutes, haccepts, fun _ => rfl⟩

/-- A route without a method accepts requests of every method, but for most of them it is not found. -/
theorem not_found_of_accepts : ¬ ∀ (policy : CollisionPolicy) (changes : List Change),
    (∀ route, .insert route ∈ changes → route.IsPlain) → ∀ (method : Http.Method) (path : String),
    (∀ segment ∈ Path.segments path.toList, segment ≠ []) →
    (∃ route ∈ ((empty policy).run changes).routes, route.Accepts method path) →
    ∃ found, ((empty policy).run changes).find? method path = some found ∧
      found.route.Accepts method path := by
  intro hfound
  have hplain : (reportsRoute "/reports" []).IsPlain := isPlain_reportsRoute (by decide) none
  have haccepts : (reportsRoute "/reports" []).Accepts .post "/reports" :=
    hplain.accepts_iff.mpr ⟨by decide, by decide, fun _ heq => nomatch heq⟩
  have hroutes : reportsRoute "/reports" [] ∈
      ((empty .reject).run [.insert (reportsRoute "/reports" [])]).routes := by decide +kernel
  obtain ⟨found, hfind, -⟩ := hfound .reject [.insert (reportsRoute "/reports" [])]
    (fun route hmem => by
      simp only [List.mem_singleton, Change.insert.injEq] at hmem
      rw [hmem]
      exact hplain)
    .post "/reports" (by decide) ⟨_, hroutes, haccepts⟩
  have hnone : ((empty .reject).run [.insert (reportsRoute "/reports" [])]).find? .post "/reports" =
      none := by decide +kernel
  rw [hnone] at hfind
  cases hfind

end Table

end ApiGateway.Route
