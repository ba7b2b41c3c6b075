import ApiGateway.Proofs.Route.TableRun

/-!
# Lookup

A table that is sound answers a request with the leading one of its serving routes that fit the
method and the path, and with the path segments in the places of the template's variables.
-/

namespace ApiGateway

namespace Path.Template

/-! ## Captured values -/

theorem indexNames_succ (position count : Nat) :
    Route.Symbol.indexNames position (count + 1) =
      indexName position :: Route.Symbol.indexNames (position + 1) count := rfl

/-- Parameters are found again by their position. -/
theorem lookup_indexNames {texts : List (List Char)} {count : Nat} (start position : Nat)
    (hcount : texts.length ≤ count) :
    ((Route.Symbol.indexNames start count).zip texts).lookup (indexName (start + position)) =
      texts[position]? := by
  induction texts generalizing start position count with
  | nil => simp
  | cons text rest ih =>
      obtain ⟨count, rfl⟩ : ∃ less, count = less + 1 :=
        ⟨count - 1, by rw [List.length_cons] at hcount; omega⟩
      rw [indexNames_succ, List.zip_cons_cons, List.lookup_cons]
      cases position with
      | zero => simp
      | succ position =>
          have hne : indexName (start + (position + 1)) ≠ indexName start := by
            intro heq
            have := Route.indexName_injective heq
            omega
          rw [beq_false_of_ne hne]
          have hrest := @ih count (start + 1) position (by simpa using hcount)
          rw [Nat.add_right_comm] at hrest
          exact hrest

/-- Names paired with the values found at their positions are names paired with values in order. -/
theorem filterMap_valueAt? {captured : List (List Char × List Char)} (names texts : List (List Char))
    (start : Nat)
    (hvalue : ∀ position, Route.Table.valueAt? captured (start + position) = texts[position]?) :
    (names.zipIdx start).filterMap (fun (name, position) =>
        (Route.Table.valueAt? captured position).map fun value =>
          (String.ofList name, String.ofList value)) =
      (names.zip texts).map fun pair => (.ofList pair.1, .ofList pair.2) := by
  induction names generalizing texts start with
  | nil => rfl
  | cons name names ih =>
      have hfirst := hvalue 0
      rw [Nat.add_zero] at hfirst
      have hrest := ih texts.tail (start + 1) fun position => by
        rw [Nat.add_right_comm, Nat.add_assoc, hvalue (position + 1), List.getElem?_tail]
      rw [List.zipIdx_cons, List.filterMap_cons, hrest]
      simp only [hfirst]
      cases texts with
      | nil => simp
      | cons text texts => rfl

theorem length_passed_le (source : List Segment) (path : List (List Char)) :
    (passed source path).length ≤ (source.filterMap Segment.name?).length := by
  induction source generalizing path with
  | nil => simp [passed]
  | cons segment source ih =>
      cases path with
      | nil => simp [passed]
      | cons text path =>
          have hrest := ih path
          cases segment with
          | literal literal => exact hrest
          | named name => exact Nat.succ_le_succ hrest

/-- Captures pair the names of a template with the segments that pass for its variables. -/
theorem captures_eq (template path : List Char) :
    captures template path =
      (((segments template).filterMap Segment.name?).zip
        (passed (segments template) (Path.segments path))).map
          fun pair => (.ofList pair.1, .ofList pair.2) := by
  rw [captures]
  generalize Path.segments path = texts
  induction segments template generalizing texts with
  | nil => rfl
  | cons segment source ih =>
      cases texts with
      | nil => simp [passed]
      | cons text texts =>
          cases segment with
          | literal literal => exact ih texts
          | named name => exact congrArg ((String.ofList name, String.ofList text) :: ·) (ih texts)

end Path.Template

namespace Route

def Serves (route : Route) (method : Http.Method) (path : String) : Prop :=
  route.method? = some method ∧ Path.Template.Fits route.template.toList path.toList

instance (route : Route) (method : Http.Method) (path : String) :
    Decidable (route.Serves method path) :=
  inferInstanceAs (Decidable (_ ∧ _))

/-- Where the templates differ first, names of variables apart, this route's has literal text and the
other's a variable. -/
def Precedes (route other : Route) : Prop :=
  Path.Template.Leads (Path.Template.segments route.template.toList)
    (Path.Template.segments other.template.toList)

def IsIndexedFor (route : Route) (method : Http.Method) (path : String) : Prop :=
  indexMethod route = method ∧ Path.Template.Fits route.template.toList path.toList

/-- A route with a method serves what it is indexed for. -/
theorem isIndexedFor_iff_serves {route : Route} (hmethod : route.method?.isSome) {method : Http.Method}
    {path : String} : route.IsIndexedFor method path ↔ route.Serves method path := by
  obtain ⟨own, hown⟩ := Option.isSome_iff_exists.mp hmethod
  rw [IsIndexedFor, Serves, indexMethod, hown, Option.getD_some, Option.some.injEq]

/-- A regular path is what the symbols of a template are matched against. -/
theorem IsSegmented.match?_symbols {route : Route} (hsegmented : IsSegmented route) {path : List Char}
    (hpath : Path.IsRegular path) (texts : List (List Char)) :
    Symbol.match? (symbols route) path = some texts ↔
      Path.Template.Fits route.template.toList path ∧
        texts = Path.Template.passed (Path.Template.segments route.template.toList)
          (Path.segments path) := by
  have htexts : ∀ text ∈ Path.segments path, text ≠ [] ∧ '/' ∉ text := fun text htext =>
    ⟨hpath.2 text htext, Path.slash_not_mem_of_mem_segments htext⟩
  have hmatch := Path.Template.match?_segmentSymbols
    (Path.Template.IsSegmented.isSound hsegmented) htexts texts
  rw [Path.joined_segments hpath.1, ← Path.Template.IsSegmented.symbols_eq hsegmented] at hmatch
  exact hmatch

/-- Of two routes that fit a path, one precedes the other if its symbols lead. -/
theorem precedes_of_leads {route other : Route} {path : List Char} (hsegmented : IsSegmented route)
    (hotherSegmented : IsSegmented other) (hfits : Path.Template.Fits route.template.toList path)
    (hotherFits : Path.Template.Fits other.template.toList path)
    (hleads : Symbol.Leads (symbols route) (symbols other)) : route.Precedes other := by
  rw [symbols, symbols, Path.Template.IsSegmented.symbols_eq hsegmented,
    Path.Template.IsSegmented.symbols_eq hotherSegmented] at hleads
  exact Path.Template.leads_of_leads_segmentSymbols
    (Path.Template.IsSegmented.isSound hotherSegmented) hfits hotherFits hleads

/-- The values that the index captures for a route, under the names of its template. -/
theorem IsSegmented.captures_eq {route : Route} (hsegmented : IsSegmented route) (path : List Char) :
    ((Path.Template.names route.template.toList).zipIdx.filterMap fun (name, position) =>
        (Table.valueAt? ((leaf route).names.zip
          (Path.Template.passed (Path.Template.segments route.template.toList)
            (Path.segments path))) position).map fun value =>
              (String.ofList name, String.ofList value)) =
      Path.Template.captures route.template.toList path := by
  have hlength : (Path.Template.passed (Path.Template.segments route.template.toList)
      (Path.segments path)).length ≤ Symbol.arity (symbols route) := by
    rw [symbols, Path.Template.IsSegmented.arity_eq hsegmented]
    exact Path.Template.length_passed_le _ _
  have hvalue := fun position => Path.Template.lookup_indexNames 0 position hlength
  rw [Path.Template.captures_eq, ← Path.Template.IsSegmented.names_eq hsegmented]
  exact Path.Template.filterMap_valueAt? _ _ 0 hvalue

namespace Table

/-- The index holds each serving route under its method. -/
theorem IsSound.has_leaf {table : Table} (hsound : table.IsSound) {route : Route}
    (hroute : route ∈ table.routes) :
    (table.index.tree (indexMethod route)).Has (symbols route) (leaf route) :=
  ((hsound.index _).2 _ _).mpr ⟨route, hroute, rfl, rfl, rfl⟩

/-- What the index holds for a method are serving routes that are indexed under it. -/
theorem IsSound.route_of_has {table : Table} (hsound : table.IsSound) {method : Http.Method}
    {held : List Symbol} {last : Leaf Route} (hhas : (table.index.tree method).Has held last) :
    ∃ route ∈ table.routes, IsSegmented route ∧ indexMethod route = method ∧
      held = symbols route ∧ last = leaf route := by
  obtain ⟨route, hroute, hmethod, hheld, hlast⟩ := ((hsound.index method).2 _ _).mp hhas
  have hwell := hsound.well route (mem_held_of_mem_routes hroute)
  exact ⟨route, hroute, hwell.isSegmented, hmethod, hheld, hlast⟩

/-- Serving routes of one method whose templates have the same symbols are one route. -/
theorem IsSound.route_eq {table : Table} (hsound : table.IsSound) {left right : Route}
    (hleft : left ∈ table.routes) (hright : right ∈ table.routes)
    (hmethod : indexMethod left = indexMethod right) (hsymbols : symbols left = symbols right) :
    left = right :=
  hsound.keyed.route_eq hleft hright (slotKey_eq_of_symbols_eq hmethod hsymbols)

/-- In a sound table a regular path is answered by the leading route of the method that fits, or by none
if none fits. -/
theorem IsSound.find?_answers {table : Table} (hsound : table.IsSound) (method : Http.Method)
    {path : String} (hpath : Path.IsRegular path.toList) :
    (table.find? method path = none ∧ ∀ route ∈ table.routes, ¬ route.IsIndexedFor method path) ∨
      ∃ route ∈ table.routes, route.IsIndexedFor method path ∧
        table.find? method path =
          some ⟨route, Path.Template.captures route.template.toList path.toList⟩ ∧
        ∀ other ∈ table.routes, other.IsIndexedFor method path →
          other = route ∨ route.Precedes other := by
  have hsegmented : ∀ route ∈ table.routes, IsSegmented route := fun route hroute =>
    (hsound.well route (mem_held_of_mem_routes hroute)).isSegmented
  have hends : path.toList.getLast? ≠ some '/' := by
    rw [← Path.joined_segments hpath.1]
    exact Path.joined_getLast?_ne_slash fun text htext =>
      ⟨hpath.2 text htext, Path.slash_not_mem_of_mem_segments htext⟩
  have hanswers :=
    Tree.search_answers (table.index.tree method) (hsound.index method).1.regular hends
  cases hsearch : (table.index.tree method).search path.toList with
  | stopped =>
      rw [hsearch] at hanswers
      cases hanswers
  | missed =>
      rw [hsearch] at hanswers
      cases hanswers with
      | missed hnone =>
          refine Or.inl ⟨by rw [find?, Tree.find?, hsearch]; rfl, ?_⟩
          rintro route hroute ⟨rfl, hfits⟩
          have hmatch := ((hsegmented route hroute).match?_symbols hpath _).mpr ⟨hfits, rfl⟩
          rw [hnone _ _ (hsound.has_leaf hroute)] at hmatch
          cases hmatch
  | found last texts =>
      rw [hsearch] at hanswers
      cases hanswers with
      | found hlast hmatch hleads =>
          obtain ⟨route, hroute, hown, rfl, rfl, rfl⟩ := hsound.route_of_has hlast
          obtain ⟨hfits, rfl⟩ := (hown.match?_symbols hpath texts).mp hmatch
          refine Or.inr ⟨route, hroute, ⟨rfl, hfits⟩, ?_, ?_⟩
          · rw [find?, Tree.find?, hsearch, ← hown.captures_eq]
            rfl
          · rintro other hother ⟨hmethod, hotherFits⟩
            have hotherMatch :=
              ((hsegmented other hother).match?_symbols hpath _).mpr ⟨hotherFits, rfl⟩
            have hotherHas := hsound.has_leaf hother
            rw [hmethod] at hotherHas
            rcases hleads _ _ hotherHas (Option.isSome_iff_exists.mpr ⟨_, hotherMatch⟩) with
              hsymbols | hbefore
            · exact Or.inl (hsound.route_eq hother hroute hmethod hsymbols)
            · exact Or.inr
                (precedes_of_leads hown (hsegmented other hother) hfits hotherFits hbefore)

/-- Where all routes name a method, it is answered by a route that serves the request. -/
theorem IsSound.find?_serves {table : Table} (hsound : table.IsSound)
    (hmethods : ∀ route ∈ table.routes, route.method?.isSome) (method : Http.Method) {path : String}
    (hpath : Path.IsRegular path.toList) :
    (table.find? method path = none ∧ ∀ route ∈ table.routes, ¬ route.Serves method path) ∨
      ∃ route ∈ table.routes, route.Serves method path ∧
        table.find? method path =
          some ⟨route, Path.Template.captures route.template.toList path.toList⟩ ∧
        ∀ other ∈ table.routes, other.Serves method path → other = route ∨ route.Precedes other := by
  have hserves : ∀ route ∈ table.routes, (route.IsIndexedFor method path ↔ route.Serves method path) :=
    fun route hroute => isIndexedFor_iff_serves (hmethods route hroute)
  rcases hsound.find?_answers method hpath with
    ⟨hnone, habsent⟩ | ⟨route, hroute, hindexed, hfind, hprecedes⟩
  · exact Or.inl ⟨hnone, fun route hroute hown => habsent route hroute ((hserves route hroute).mpr hown)⟩
  · exact Or.inr ⟨route, hroute, (hserves route hroute).mp hindexed, hfind,
      fun other hother hown => hprecedes other hother ((hserves other hother).mpr hown)⟩

/-- After any run over routes with methods and well-formed templates, lookup finds a serving route
exactly if one fits, it finds the one that precedes all others that fit, and it pairs the variables of
the route with the path segments in their places. -/
theorem find?_run (policy : CollisionPolicy) (changes : List Change)
    (hchanges : ∀ route, .insert route ∈ changes → route.method?.isSome ∧ IsWellFormed route)
    (method : Http.Method) (path : String) (hpath : Path.IsRegular path.toList) :
    ((((empty policy).run changes).find? method path).isSome ↔
      ∃ route ∈ ((empty policy).run changes).routes, route.Serves method path) ∧
    ∀ found, ((empty policy).run changes).find? method path = some found →
      found.route ∈ ((empty policy).run changes).routes ∧ found.route.Serves method path ∧
        (∀ other ∈ ((empty policy).run changes).routes, other.Serves method path →
          other = found.route ∨ found.route.Precedes other) ∧
        found.params = Path.Template.captures found.route.template.toList path.toList := by
  have hsound : ((empty policy).run changes).IsSound := by
    refine (isSound_empty policy).run fun change hchange => ?_
    cases change with
    | insert route => exact (hchanges route hchange).2
    | remove endpoint => trivial
  have hmethods : ∀ route ∈ ((empty policy).run changes).routes, route.method?.isSome := by
    intro route hroute
    rcases (isKeyed_empty policy).mem_held_run (mem_held_of_mem_routes hroute) with hold | hinserted
    · cases hold
    · exact (hchanges route hinserted).1
  rcases hsound.find?_serves hmethods method hpath with
    ⟨hnone, habsent⟩ | ⟨route, hroute, hserves, hfind, hprecedes⟩
  · rw [hnone]
    refine ⟨⟨fun hsome => absurd hsome Bool.false_ne_true, ?_⟩, fun found hfound => ?_⟩
    rotate_left
    · cases hfound
    rintro ⟨route, hroute, hserves⟩
    exact absurd hserves (habsent route hroute)
  · rw [hfind]
    refine ⟨⟨fun _ => ⟨route, hroute, hserves⟩, fun _ => rfl⟩, fun found hfound => ?_⟩
    cases hfound
    exact ⟨hroute, hserves, hprecedes, rfl⟩

def usersRoute (template application : String) : Route :=
  ⟨application, [.path template, .method .get], [], "lb://" ++ application, application,
    ⟨application, .get, template⟩⟩

/-- A route is displaced by one of the same key, another follows, and the displaced one goes. -/
def usersChanges : List Change :=
  [.insert (usersRoute "/users/\x7bid\x7d" "people"), .insert (usersRoute "/users/\x7bname\x7d" "staff"),
    .insert (usersRoute "/users/me" "staff"), .remove ⟨"people", .get, "/users/\x7bid\x7d"⟩]

theorem find?_run_users :
    (((empty .replace).run usersChanges).find? .get "/users/me").isSome := by
  have hchanges : ∀ route, .insert route ∈ usersChanges →
      route.method?.isSome ∧ IsWellFormed route := by
    simp only [usersChanges, List.mem_cons, List.not_mem_nil, or_false, Change.insert.injEq, reduceCtorEq]
    rintro route (rfl | rfl | rfl) <;> decide
  have hroutes : ((empty .replace).run usersChanges).routes =
      [usersRoute "/users/\x7bname\x7d" "staff", usersRoute "/users/me" "staff"] := by
    decide +kernel
  refine (find?_run .replace usersChanges hchanges .get "/users/me" (by decide)).1.mpr ?_
  exact ⟨usersRoute "/users/me" "staff", by simp [hroutes], by decide⟩

end Table

end Route

end ApiGateway
