import ApiGateway.Proofs.Route.Lookup
import ApiGateway.Proofs.Route.Rebuilding

/-!
# What a found path looks like

Whatever has been inserted and removed, also with templates that were refused, a path that is found is spelled
out by the matched template as the index reads it.  If the index reads the template as it is written, that
is the template with the values of the parameters in the places of its variables.
-/

namespace ApiGateway

open ApiGateway.Route (Sign isWild parameterNames segmentEnd firstWild?)

namespace Path

def Piece.sign : Piece → Sign
  | .literal c => .char c
  | .named _ => .param

namespace Template

/-- Literal text has no wildcard mark, and each variable reaches to the end of its segment. -/
def AreAsWritten : List Piece → Prop
  | [] => True
  | .literal c :: rest => isWild c = false ∧ AreAsWritten rest
  | .named _ :: rest => (rest = [] ∨ rest.head? = some (.literal '/')) ∧ AreAsWritten rest

instance decidableAreAsWritten : DecidablePred AreAsWritten
  | [] => inferInstanceAs (Decidable True)
  | .literal _ :: rest =>
    have := decidableAreAsWritten rest
    inferInstanceAs (Decidable (_ ∧ _))
  | .named _ :: rest =>
    have := decidableAreAsWritten rest
    inferInstanceAs (Decidable (_ ∧ _))

def ReadsAsWritten (template : List Char) : Prop :=
  AreAsWritten (pieces template)

instance (template : List Char) : Decidable (ReadsAsWritten template) :=
  inferInstanceAs (Decidable (AreAsWritten (pieces template)))

/-- Pieces as the index reads them, the variables numbered from a position. -/
def numbered (position : Nat) (source : List Piece) : List Char :=
  renderFrom (fun position _ => ':' :: indexName position) position source

theorem indexText_eq_numbered (template : List Char) : indexText template = numbered 0 (pieces template) :=
  rfl

theorem numbered_literal (position : Nat) (c : Char) (rest : List Piece) :
    numbered position (.literal c :: rest) = c :: numbered position rest := rfl

theorem numbered_named (position : Nat) (name : List Char) (rest : List Piece) :
    numbered position (.named name :: rest) =
      ':' :: (indexName position ++ numbered (position + 1) rest) := rfl

/-- The name of a numbered variable ends where the variable does. -/
theorem segmentEnd_numbered {name : List Char} {rest : List Piece}
    (hwritten : AreAsWritten (.named name :: rest)) (position : Nat) :
    segmentEnd (indexName position ++ numbered (position + 1) rest) =
      (indexName position, numbered (position + 1) rest) := by
  refine Route.segmentEnd_append_of_slash (Route.slash_not_mem_indexName position) ?_
  rcases hwritten.1 with rfl | hhead
  · exact Or.inl rfl
  · cases rest with
    | nil => cases hhead
    | cons piece rest =>
        cases hhead
        exact Or.inr ⟨_, numbered_literal _ _ _⟩

theorem read_numbered {source : List Piece} (hwritten : AreAsWritten source) (position : Nat) :
    Sign.read (numbered position source) = source.map Piece.sign := by
  induction source generalizing position with
  | nil => exact Sign.read_nil
  | cons piece rest ih =>
      cases piece with
      | literal c =>
          rw [numbered_literal, Sign.read_cons_of_plain hwritten.1, ih hwritten.2]
          rfl
      | named name =>
          rw [numbered_named, Sign.read_cons_of_wild rfl, segmentEnd_numbered hwritten, ih hwritten.2]
          rfl

/-- Plain text in front has no parameters. -/
theorem parameterNames_cons_of_plain {c : Char} (hplain : isWild c = false) (text : List Char)
    (count : Nat) : parameterNames (c :: text) count = parameterNames text count := by
  cases hfirst : firstWild? text with
  | none =>
      have hnone : firstWild? (c :: text) = none := by simp [firstWild?, hplain, hfirst]
      rw [Route.parameterNames_of_none hfirst, Route.parameterNames_of_none hnone]
  | some found =>
      obtain ⟨before, mark, name, after⟩ := found
      have hsome : firstWild? (c :: text) = some (c :: before, mark, name, after) := by
        simp [firstWild?, hplain, hfirst]
      rw [Route.parameterNames_of_some hfirst, Route.parameterNames_of_some hsome]

/-- The variables of a template that is read as it is written are held under their positions. -/
theorem parameterNames_numbered {source : List Piece} (hwritten : AreAsWritten source) {position : Nat}
    {found : List (List Char)} (hnames : parameterNames (numbered position source) position = .ok found) :
    found = Route.Symbol.indexNames position (source.filterMap name?).length := by
  induction source generalizing position found with
  | nil =>
      rw [Route.parameterNames_of_none rfl] at hnames
      cases hnames
      rfl
  | cons piece rest ih =>
      cases piece with
      | literal c =>
          rw [numbered_literal, parameterNames_cons_of_plain hwritten.1] at hnames
          exact ih hwritten.2 hnames
      | named name =>
          have hfirst := Route.firstWild?_cons_of_wild (c := ':') rfl
            (indexName position ++ numbered (position + 1) rest)
          have hname : indexName position ≠ [] := List.cons_ne_nil _ _
          rw [segmentEnd_numbered hwritten] at hfirst
          rw [numbered_named, Route.parameterNames_of_some hfirst,
            if_neg (by rw [Route.not_any_isWild_indexName]; exact Bool.false_ne_true), if_neg hname,
            if_pos rfl] at hnames
          split at hnames
          · cases hlater : parameterNames (numbered (position + 1) rest) (position + 1) with
            | error reason =>
                rw [hlater] at hnames
                cases hnames
            | ok later =>
                rw [hlater] at hnames
                cases hnames
                rw [ih hwritten.2 hlater, List.filterMap_cons]
                rfl
          · cases hnames

/-- The paths that pieces spell out are the template with texts without slashes in the places of its
variables. -/
theorem spells_sign {source : List Piece} {path : List Char} {texts : List (List Char)}
    (hspells : Sign.Spells (source.map Piece.sign) path texts) :
    texts.length = (source.filterMap name?).length ∧ (∀ text ∈ texts, '/' ∉ text) ∧
      ∀ (value : Nat → List Char → List Char) (position : Nat),
        (∀ place text name, texts[place]? = some text → value (position + place) name = text) →
        renderFrom value position source = path := by
  induction source generalizing path texts with
  | nil =>
      cases hspells
      exact ⟨rfl, by simp, fun _ _ _ => rfl⟩
  | cons piece rest ih =>
      cases piece with
      | literal c =>
          cases hspells with
          | char _ hrest =>
              obtain ⟨hlength, hslash, hrender⟩ := ih hrest
              exact ⟨hlength, hslash, fun value position hvalue =>
                congrArg (c :: ·) (hrender value position hvalue)⟩
      | named name =>
          cases hspells with
          | @param _ text after later htext hends hrest =>
              obtain ⟨hlength, hslash, hrender⟩ := ih hrest
              refine ⟨congrArg Nat.succ hlength, ?_, fun value position hvalue => ?_⟩
              · simpa using ⟨htext, hslash⟩
              · have hfirst : value position name = text := hvalue 0 text name rfl
                rw [renderFrom, hfirst, hrender value (position + 1)]
                intro place other name hother
                rw [Nat.add_right_comm, Nat.add_assoc]
                exact hvalue (place + 1) other name hother

end Template

end Path

namespace Route

/-! ## What any run leaves in the index -/

/-- Each entry of the index stands under the signs and names that are read from its own template. -/
structure Index.IsFaithful (index : Index) : Prop where
  grounded : ∀ method, (index.tree method).IsGrounded
  entries : ∀ method signs last, (index.tree method).HasEntry signs last →
    signs = Sign.read (indexText last.value) ∧ parameterNames (indexText last.value) 0 = .ok last.names

namespace Index

theorem isFaithful_nil : IsFaithful [] where
  grounded _ := Tree.isGrounded_empty
  entries method signs last hentry := by
    rw [tree_nil, Tree.hasEntry_empty] at hentry
    exact hentry.elim

theorem IsFaithful.add {index : Index} (hfaithful : index.IsFaithful) {route : Route}
    (hslash : route.template.toList.head? = some '/') : (index.add route).1.IsFaithful := by
  have hrooted : (indexText route).head? = some '/' := Path.Template.filled_head? _ hslash
  obtain ⟨hground, hentries⟩ := (hfaithful.grounded (indexMethod route)).insert route hrooted
  refine ⟨fun method => ?_, fun method signs last hentry => ?_⟩
  · rw [add_tree]
    split
    · exact hground
    · exact hfaithful.grounded method
  · rw [add_tree] at hentry
    split at hentry
    · rcases (hentries signs last).mp hentry with ⟨-, hsigns, hnames, rfl⟩ | hold
      · exact ⟨hsigns, hnames⟩
      · exact hfaithful.entries _ signs last hold
    · exact hfaithful.entries method signs last hentry

theorem isFaithful_ofRoutes {routes : List Route}
    (hslash : ∀ route ∈ routes, route.template.toList.head? = some '/') :
    (ofRoutes routes).IsFaithful := by
  induction routes using List.reverseRecOn with
  | nil => exact isFaithful_nil
  | append_singleton routes route ih =>
      rw [ofRoutes_append]
      exact (ih fun other hother => hslash other (by simp [hother])).add (hslash route (by simp))

end Index

namespace Table

structure IsFaithful (table : Table) : Prop where
  keyed : table.IsKeyed
  slashed : ∀ route ∈ table.held, route.template.toList.head? = some '/'
  index : table.index.IsFaithful

theorem isFaithful_empty (policy : CollisionPolicy) : (empty policy).IsFaithful where
  keyed := isKeyed_empty policy
  slashed route hroute := by cases hroute
  index := Index.isFaithful_nil

namespace IsFaithful

variable {table : Table}

theorem insert (hfaithful : table.IsFaithful) {route : Route}
    (hslash : route.template.toList.head? = some '/') : (table.insert route).1.IsFaithful := by
  have hkeyed := hfaithful.keyed.insert route
  have hslashed : ∀ other ∈ (table.insert route).1.held, other.template.toList.head? = some '/' := by
    intro other hother
    rcases hfaithful.keyed.mem_held_insert hother with rfl | hold
    · exact hslash
    · exact hfaithful.slashed other hold
  refine ⟨hkeyed, hslashed, ?_⟩
  have hinserts := hfaithful.keyed.inserts route
  cases hinsert : table.insert route with
  | mk changed result =>
      rw [hinsert] at hinserts hslashed
      have hadded := hfaithful.index.add hslash
      cases hinserts with
      | settled hslots hkey hchanged hindex =>
          rcases hindex with ⟨hindex, -⟩ | hindex
          · rw [hindex]
            exact hfaithful.index
          · rw [hindex]
            exact Index.isFaithful_ofRoutes fun other hother =>
              hslashed other (mem_held_of_mem_routes hother)
      | opened hfresh hadd hchanged => rwa [hadd] at hadded
      | refused hfresh hadd hchanged => rwa [hadd] at hadded

theorem remove (hfaithful : table.IsFaithful) (endpoint : EndpointKey) :
    (table.remove endpoint).1.IsFaithful := by
  have hslashed : ∀ route ∈ (table.remove endpoint).1.held,
      route.template.toList.head? = some '/' := by
    intro route hroute
    rw [held_remove] at hroute
    exact hfaithful.slashed route (List.mem_of_mem_filter hroute)
  refine ⟨hfaithful.keyed.remove endpoint, hslashed, ?_⟩
  rcases table.remove_index endpoint with ⟨hindex, -⟩ | hindex
  · rw [hindex]
    exact hfaithful.index
  · rw [hindex]
    exact Index.isFaithful_ofRoutes fun route hroute => hslashed route (mem_held_of_mem_routes hroute)

theorem run (hfaithful : table.IsFaithful) {changes : List Change}
    (hslash : ∀ route, .insert route ∈ changes → route.template.toList.head? = some '/') :
    (table.run changes).IsFaithful := by
  induction changes generalizing table with
  | nil => exact hfaithful
  | cons change rest ih =>
      refine ih ?_ fun route hroute => hslash route (.tail change hroute)
      cases change with
      | insert route => exact hfaithful.insert (hslash route (.head rest))
      | remove endpoint => exact hfaithful.remove endpoint

end IsFaithful

end Table

/-! ## Matches -/

/-- The matched template with the values of the parameters in the places of its variables, left to right. -/
def Match.filled (found : Match) : List Char :=
  Path.Template.filled (fun position _ => ((found.params.map (·.2.toList))[position]?).getD [])
    found.route.template.toList

namespace Table

/-- A match takes its route and its values from one entry that spells out the path. -/
theorem IsFaithful.find?_spells {table : Table} (hfaithful : table.IsFaithful) {method : Http.Method}
    {path : String} {found : Match} (hfound : table.find? method path = some found) :
    ∃ names texts, Sign.Spells (Sign.read (indexText found.route)) path.toList texts ∧
      parameterNames (indexText found.route) 0 = .ok names ∧
      found.params = (Path.Template.names found.route.template.toList).zipIdx.filterMap
        fun (name, position) => (valueAt? (names.zip texts) position).map fun value =>
          (.ofList name, .ofList value) := by
  rw [find?, Option.map_eq_some_iff] at hfound
  obtain ⟨⟨route, captured⟩, hfind, rfl⟩ := hfound
  obtain ⟨signs, last, texts, hentry, hspells, rfl, rfl⟩ := Tree.find?_spells hfind
  obtain ⟨rfl, hnames⟩ := hfaithful.index.entries method signs last hentry
  exact ⟨last.names, texts, hspells, hnames, rfl⟩

/-- A path that is found starts with a slash. -/
theorem IsFaithful.head?_of_find? {table : Table} (hfaithful : table.IsFaithful)
    {method : Http.Method} {path : String} {found : Match}
    (hfound : table.find? method path = some found)
    (hslash : found.route.template.toList.head? = some '/') : path.toList.head? = some '/' := by
  obtain ⟨names, texts, hspells, -, -⟩ := hfaithful.find?_spells hfound
  have hrooted : (indexText found.route).head? = some '/' := Path.Template.filled_head? _ hslash
  cases htext : indexText found.route with
  | nil =>
      rw [htext] at hrooted
      cases hrooted
  | cons c rest =>
      rw [htext] at hrooted hspells
      cases hrooted
      rw [Sign.read_cons_of_plain (by rfl)] at hspells
      exact hspells.head?

/-- The parameters of a match are the variables of its template with the texts that the path has in their
places, if the template is read as it is written. -/
theorem params_eq_zip {route : Route} {names texts : List (List Char)}
    (hwritten : Path.Template.ReadsAsWritten route.template.toList)
    (hnames : parameterNames (indexText route) 0 = .ok names)
    (hlength : texts.length = (Path.Template.names route.template.toList).length) :
    ((Path.Template.names route.template.toList).zipIdx.filterMap fun (name, position) =>
      (valueAt? (names.zip texts) position).map fun value =>
        (String.ofList name, String.ofList value)) =
      ((Path.Template.names route.template.toList).zip texts).map
        fun pair => (.ofList pair.1, .ofList pair.2) := by
  have hvalue : ∀ position, valueAt? (names.zip texts) (0 + position) = texts[position]? := by
    intro position
    rw [Path.Template.parameterNames_numbered hwritten hnames]
    exact Path.Template.lookup_indexNames 0 position (Nat.le_of_eq hlength)
  exact Path.Template.filterMap_valueAt? _ texts 0 hvalue

/-- After any run over templates that start with a slash, a path that is found is spelled out by the matched
template as the index reads it.  If the template is read as it is written, its variables are the names of
the parameters, their values have no slashes, and put in the places of the variables they give the path. -/
theorem find?_run_filled (policy : CollisionPolicy) (changes : List Change)
    (hslash : ∀ route, .insert route ∈ changes → route.template.toList.head? = some '/')
    (method : Http.Method) (path : String) (found : Match)
    (hfound : ((empty policy).run changes).find? method path = some found) :
    (∃ texts, Sign.Spells (Sign.read (indexText found.route)) path.toList texts) ∧
    (Path.Template.ReadsAsWritten found.route.template.toList →
      found.params.map (·.1.toList) = Path.Template.names found.route.template.toList ∧
      (∀ param ∈ found.params, '/' ∉ param.2.toList) ∧ found.filled = path.toList) := by
  obtain ⟨names, texts, hspells, hnames, hparams⟩ :=
    ((isFaithful_empty policy).run hslash).find?_spells hfound
  refine ⟨⟨texts, hspells⟩, fun hwritten => ?_⟩
  rw [indexText, Path.Template.indexText_eq_numbered, Path.Template.read_numbered hwritten] at hspells
  obtain ⟨hlength, hslashes, hrender⟩ := Path.Template.spells_sign hspells
  rw [params_eq_zip hwritten hnames hlength] at hparams
  have hvalues : found.params.map (·.2.toList) = texts := by
    simp only [hparams, List.map_map, Function.comp_def, String.toList_ofList]
    exact List.map_snd_zip (Nat.le_of_eq hlength)
  refine ⟨?_, fun param hparam => ?_, ?_⟩
  · simp only [hparams, List.map_map, Function.comp_def, String.toList_ofList]
    exact List.map_fst_zip (Nat.le_of_eq hlength.symm)
  · exact hslashes _ (hvalues ▸ List.mem_map_of_mem hparam)
  · refine hrender _ 0 fun place text name htext => ?_
    rw [hvalues, Nat.zero_add, htext]
    rfl

theorem find?_run_filled_people :
    (⟨readRoute "people" "/teams/{team}/users/{id}", [("team", "red"), ("id", "7")]⟩ :
      Match).filled = "/teams/red/users/7".toList := by
  have hslash : ∀ route, .insert route ∈
      [Change.insert (readRoute "people" "/teams/{team}/users/{id}"),
        .insert (readRoute "bad" "/teams/{team}/*rest/users")] →
      route.template.toList.head? = some '/' := by
    intro route hroute
    simp only [List.mem_cons, List.not_mem_nil, or_false, Change.insert.injEq] at hroute
    rcases hroute with rfl | rfl <;> rfl
  have hfound : ((empty .reject).run
      [.insert (readRoute "people" "/teams/{team}/users/{id}"),
        .insert (readRoute "bad" "/teams/{team}/*rest/users")]).find? .get "/teams/red/users/7" =
      some ⟨readRoute "people" "/teams/{team}/users/{id}", [("team", "red"), ("id", "7")]⟩ := by
    decide +kernel
  exact ((find?_run_filled .reject _ hslash .get _ _ hfound).2 (by decide +kernel)).2.2

/-- A colon in a template that is no variable stands for any text all the same. -/
theorem not_filled_of_found : ¬ ∀ (policy : CollisionPolicy) (changes : List Change),
    (∀ route, .insert route ∈ changes → route.template.toList.head? = some '/') →
    ∀ (method : Http.Method) (path : String) (found : Match),
      ((empty policy).run changes).find? method path = some found →
      found.filled = path.toList ∧ ∀ param ∈ found.params, '/' ∉ param.2.toList := by
  intro hfilled
  have hslash : ∀ route, .insert route ∈ [Change.insert (readRoute "users" "/users:batch")] →
      route.template.toList.head? = some '/' := by
    intro route hroute
    simp only [List.mem_singleton, Change.insert.injEq] at hroute
    rw [hroute]
    rfl
  have hfound : ((empty .reject).run [.insert (readRoute "users" "/users:batch")]).find? .get "/users42" =
      some ⟨readRoute "users" "/users:batch", []⟩ := by
    decide +kernel
  have hpath := (hfilled .reject _ hslash .get _ _ hfound).1
  revert hpath
  decide +kernel

end Table

end Route

end ApiGateway
