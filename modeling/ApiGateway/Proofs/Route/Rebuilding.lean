import ApiGateway.Proofs.Path.Filling
import ApiGateway.Proofs.Path.Alternation
import ApiGateway.Proofs.Route.Clashes
import ApiGateway.Proofs.Route.Refusals
import ApiGateway.Proofs.Route.TableRun
import Mathlib.Data.List.Induction

/-!
# Building the index anew

The index grows while routes are inserted, and is built anew when a serving route goes or is displaced.  If
all remainders are in place, both lead to the same trees: the keys of the slots do not clash, so the serving
routes can be added to an empty index in any order, and none of them is refused.
-/

namespace ApiGateway.Route

open ApiGateway.Route.Sign (read)

/-! ## Keys that do not clash -/

namespace SlotKey

def text (key : SlotKey) : List Char :=
  Path.Template.indexText key.template

theorem text_slotKey (route : Route) : (slotKey route).text = indexText route :=
  Path.Template.indexText_key _

/-- The index can hold both. -/
def Apart (left right : SlotKey) : Prop :=
  left.method = right.method → ¬ Clash (read left.text) (read right.text)

structure IsFit (key : SlotKey) : Prop where
  rooted : key.text.head? = some '/'
  placed : RemaindersPlaced key.text
  named : ∃ names, parameterNames key.text 0 = .ok names

end SlotKey

/-! ## Growing an index -/

namespace Index

/-- The index lists exactly these routes, in trees that take whatever does not clash. -/
structure Lists (index : Index) (routes : List Route) : Prop where
  fit : ∀ route ∈ routes, (slotKey route).IsFit
  grounded : ∀ method, (index.tree method).IsGrounded
  tidy : ∀ method, (index.tree method).IsTidy
  entries : ∀ method signs last, (index.tree method).HasEntry signs last ↔
    ∃ route ∈ routes, indexMethod route = method ∧ signs = read (indexText route) ∧
      parameterNames (indexText route) 0 = .ok last.names ∧ last.value = route

theorem lists_nil : Lists [] [] where
  fit route hroute := by cases hroute
  grounded _ := Tree.isGrounded_empty
  tidy _ := ⟨trivial, trivial⟩
  entries method signs last := by simp [tree_nil, Tree.hasEntry_empty, NoEntry]

theorem add_tree (index : Index) (route : Route) (method : Http.Method) :
    (index.add route).1.tree method =
      if method = indexMethod route then
        ((index.tree (indexMethod route)).insert (indexText route) route).1
      else index.tree method := by
  rw [add, tree_setTree]

theorem add_refusal (index : Index) (route : Route) :
    (index.add route).2 = ((index.tree (indexMethod route)).insert (indexText route) route).2 := rfl

theorem ofRoutes_append (routes : List Route) (route : Route) :
    ofRoutes (routes ++ [route]) = ((ofRoutes routes).add route).1 := by
  rw [ofRoutes, ofRoutes, List.foldl_append, List.foldl_cons, List.foldl_nil]

namespace Lists

variable {index : Index} {routes : List Route} {route : Route}

/-- An index decides about a fit route by the routes that it lists. -/
theorem settles (hlists : index.Lists routes) (hfit : (slotKey route).IsFit) :
    (index.tree (indexMethod route)).Settles
      ((index.tree (indexMethod route)).insert (indexText route) route) (indexText route) := by
  obtain ⟨names, hnames⟩ := hfit.named
  have hrooted := hfit.rooted
  have hplaced := hfit.placed
  rw [SlotKey.text_slotKey] at hrooted hplaced hnames
  exact (hlists.grounded _).insert_settles (hlists.tidy _) route hrooted hplaced hnames

/-- A listed route has an entry in the tree of its method. -/
theorem hasEntry (hlists : index.Lists routes) (hroute : route ∈ routes) :
    ∃ last, (index.tree (indexMethod route)).HasEntry (read (indexText route)) last := by
  obtain ⟨names, hnames⟩ := (hlists.fit route hroute).named
  rw [SlotKey.text_slotKey] at hnames
  exact ⟨⟨names, route⟩, (hlists.entries _ _ _).mpr ⟨route, hroute, rfl, rfl, hnames, rfl⟩⟩

/-- An index takes a fit route exactly if its key is apart from all that are listed. -/
theorem add_refusal_eq_none_iff (hlists : index.Lists routes) (hfit : (slotKey route).IsFit) :
    (index.add route).2 = none ↔ ∀ other ∈ routes, (slotKey other).Apart (slotKey route) := by
  have hdecides := (hlists.settles hfit).2
  rw [← add_refusal] at hdecides
  constructor
  · intro htaken other hother hmethod hclash
    rw [SlotKey.text_slotKey, SlotKey.text_slotKey] at hclash
    obtain ⟨last, hentry⟩ := hlists.hasEntry hother
    have hmethod : indexMethod other = indexMethod route := hmethod
    rw [hmethod] at hentry
    rw [htaken] at hdecides
    cases hdecides with
    | taken hclear => exact hclear _ last hentry hclash.symm
  · intro hapart
    generalize (index.add route).2 = refusal at hdecides
    cases hdecides with
    | taken hclear => rfl
    | refused hentry hclash =>
        obtain ⟨other, hother, hmethod, rfl, -⟩ := (hlists.entries _ _ _).mp hentry
        refine absurd hclash.symm ?_
        rw [← SlotKey.text_slotKey other, ← SlotKey.text_slotKey route]
        exact hapart other hother hmethod

/-- An index that takes a fit route lists it as well. -/
theorem add (hlists : index.Lists routes) (hfit : (slotKey route).IsFit)
    (htaken : (index.add route).2 = none) : (index.add route).1.Lists (routes ++ [route]) := by
  have hrooted := hfit.rooted
  rw [SlotKey.text_slotKey] at hrooted
  obtain ⟨hground, hentries⟩ := (hlists.grounded (indexMethod route)).insert route hrooted
  rw [← add_refusal, htaken] at hentries
  refine ⟨?_, fun method => ?_, fun method => ?_, fun method signs last => ?_⟩
  · intro other hother
    rcases List.mem_append.mp hother with hold | hnew
    · exact hlists.fit other hold
    · rwa [List.mem_singleton.mp hnew]
  · rw [add_tree]
    split
    · exact hground
    · exact hlists.grounded method
  · rw [add_tree]
    split
    · exact (hlists.settles hfit).1
    · exact hlists.tidy method
  · rw [add_tree]
    split
    · next heq =>
      subst heq
      rw [hentries signs last, hlists.entries]
      simp only [List.mem_append, List.mem_singleton, or_and_right, exists_or, exists_eq_left, true_and]
      exact or_comm
    · next hne =>
      rw [hlists.entries]
      simp only [List.mem_append, List.mem_singleton, or_and_right, exists_or, exists_eq_left,
        Ne.symm hne, false_and, or_false]

end Lists

/-- What an index lists is told by its trees. -/
theorem Lists.congr {index other : Index} {routes : List Route} (hlists : index.Lists routes)
    (hsame : ∀ method, other.tree method = index.tree method) : other.Lists routes where
  fit := hlists.fit
  grounded method := hsame method ▸ hlists.grounded method
  tidy method := hsame method ▸ hlists.tidy method
  entries method := hsame method ▸ hlists.entries method

/-- A route that is refused, its remainder in place, leaves all trees as they were. -/
theorem Lists.tree_of_refused {index : Index} {routes : List Route} {route : Route} {refusal : Refusal}
    (hlists : index.Lists routes) (hrooted : (indexText route).head? = some '/')
    (hplaced : RemaindersPlaced (indexText route)) (hrefused : (index.add route).2 = some refusal)
    (method : Http.Method) : (index.add route).1.tree method = index.tree method := by
  rw [add_refusal] at hrefused
  rw [add_tree]
  split
  · next heq =>
    subst heq
    cases hnames : parameterNames (indexText route) 0 with
    | error reason => rw [Tree.insert_of_error _ route hnames]
    | ok names =>
        have hground := hlists.grounded (indexMethod route)
        have hdecides :=
          (hground.insert_settles (hlists.tidy _) route hrooted hplaced hnames).2
        refine (Tree.insert_keeps _ (indexText route) route).eq_of_refused hrefused ?_
        rw [hrefused] at hdecides
        cases hdecides
        exact Refusal.noConfusion
  · rfl

/-- Fit routes whose keys are apart from each other are listed by the index that is built from them. -/
theorem lists_ofRoutes {routes : List Route} (hfit : ∀ route ∈ routes, (slotKey route).IsFit)
    (hapart : (routes.map slotKey).Pairwise SlotKey.Apart) : (ofRoutes routes).Lists routes := by
  induction routes using List.reverseRecOn with
  | nil => exact lists_nil
  | append_singleton routes route ih =>
      rw [List.map_append, List.pairwise_append] at hapart
      obtain ⟨hbefore, -, hlast⟩ := hapart
      have hlists := ih (fun other hother => hfit other (by simp [hother])) hbefore
      have hown := hfit route (by simp)
      rw [ofRoutes_append]
      refine hlists.add hown ((hlists.add_refusal_eq_none_iff hown).mpr fun other hother => ?_)
      exact hlast _ (List.mem_map_of_mem hother) _ (by simp)

/-- None of them is refused when it is its turn. -/
theorem add_ofRoutes {before after : List Route} {route : Route}
    (hfit : ∀ other ∈ before ++ route :: after, (slotKey other).IsFit)
    (hapart : ((before ++ route :: after).map slotKey).Pairwise SlotKey.Apart) :
    ((ofRoutes before).add route).2 = none := by
  rw [List.map_append, List.pairwise_append] at hapart
  obtain ⟨hbefore, -, hlater⟩ := hapart
  have hlists := lists_ofRoutes (fun other hother => hfit other (by simp [hother])) hbefore
  refine (hlists.add_refusal_eq_none_iff (hfit route (by simp))).mpr fun other hother => ?_
  exact hlater _ (List.mem_map_of_mem hother) _ (by simp)

end Index

/-! ## Tables -/

namespace Table

/-- The keys of the slots are fit and apart from each other, and the index has the trees that are built
anew from the serving routes. -/
structure IsCurrent (table : Table) : Prop where
  keyed : table.IsKeyed
  fit : ∀ key ∈ table.slots.map (·.key), key.IsFit
  apart : (table.slots.map (·.key)).Pairwise SlotKey.Apart
  index : ∀ method, table.index.tree method = (Index.ofRoutes table.routes).tree method

theorem isCurrent_empty (policy : CollisionPolicy) : (empty policy).IsCurrent where
  keyed := isKeyed_empty policy
  fit key hkey := by cases hkey
  apart := .nil
  index _ := rfl

namespace IsCurrent

variable {table : Table} {route : Route}

theorem fit_of_mem_routes (hcurrent : table.IsCurrent) (hroute : route ∈ table.routes) :
    (slotKey route).IsFit := by
  refine hcurrent.fit _ ?_
  rw [← hcurrent.keyed.routes_keys]
  exact List.mem_map_of_mem hroute

theorem routes_apart (hcurrent : table.IsCurrent) :
    (table.routes.map slotKey).Pairwise SlotKey.Apart :=
  hcurrent.keyed.routes_keys ▸ hcurrent.apart

/-- The index lists the serving routes. -/
theorem lists (hcurrent : table.IsCurrent) : table.index.Lists table.routes :=
  (Index.lists_ofRoutes (fun _ => hcurrent.fit_of_mem_routes) hcurrent.routes_apart).congr hcurrent.index

/-- What the index takes is fit. -/
theorem isFit_of_taken (hrooted : (indexText route).head? = some '/')
    (hplaced : RemaindersPlaced (indexText route)) (htaken : (table.index.add route).2 = none) :
    (slotKey route).IsFit := by
  rw [← SlotKey.text_slotKey] at hrooted hplaced
  refine ⟨hrooted, hplaced, ?_⟩
  cases hnames : parameterNames (indexText route) 0 with
  | error reason =>
      rw [Index.add_refusal, Tree.insert_of_error _ route hnames] at htaken
      cases htaken
  | ok names =>
      rw [SlotKey.text_slotKey]
      exact ⟨names, hnames⟩

theorem insert (hcurrent : table.IsCurrent) (hrooted : (indexText route).head? = some '/')
    (hplaced : RemaindersPlaced (indexText route)) : (table.insert route).1.IsCurrent := by
  have hkeyed := hcurrent.keyed.insert route
  have hinserts := hcurrent.keyed.inserts route
  cases hinsert : table.insert route with
  | mk changed result =>
      rw [hinsert] at hinserts hkeyed
      cases hinserts with
      | settled hslots hkey hchanged hindex =>
          next before after slot insertion =>
          have hkeys : changed.slots.map (·.key) = table.slots.map (·.key) := by
            rw [hchanged, hslots, List.map_append, List.map_append, List.map_cons, List.map_cons,
              slot.receive_key table.policy route]
          refine ⟨hkeyed, hkeys ▸ hcurrent.fit, hkeys ▸ hcurrent.apart, ?_⟩
          rcases hindex with ⟨hindex, hroutes⟩ | hindex
          · rw [hindex, hroutes]
            exact hcurrent.index
          · rw [hindex]
            exact fun _ => rfl
      | opened hfresh hadd hchanged =>
          have htaken : (table.index.add route).2 = none := by rw [hadd]
          have hfit := isFit_of_taken hrooted hplaced htaken
          have hapart := (hcurrent.lists.add_refusal_eq_none_iff hfit).mp htaken
          have hroutes : changed.routes = table.routes ++ [route] := by
            rw [routes, hchanged, List.map_append]
            rfl
          refine ⟨hkeyed, ?_, ?_, fun method => ?_⟩
          · rw [hchanged, List.map_append]
            intro key hkey
            rcases List.mem_append.mp hkey with hold | hnew
            · exact hcurrent.fit key hold
            · rwa [List.mem_singleton.mp hnew]
          · rw [hchanged, List.map_append, List.pairwise_append]
            refine ⟨hcurrent.apart, List.pairwise_singleton _ _, fun key hold other hnew => ?_⟩
            rw [← hcurrent.keyed.routes_keys] at hold
            obtain ⟨held, hheld, rfl⟩ := List.mem_map.mp hold
            rw [List.mem_singleton.mp hnew]
            exact hapart held hheld
          · have hgrown : changed.index = (table.index.add route).1 := by rw [hadd]
            rw [hgrown, hroutes, Index.ofRoutes_append, Index.add_tree, Index.add_tree,
              hcurrent.index, hcurrent.index]
      | refused hfresh hadd hchanged =>
          have hroutes : changed.routes = table.routes := by rw [routes, hchanged, routes]
          refine ⟨hkeyed, hchanged ▸ hcurrent.fit, hchanged ▸ hcurrent.apart, fun method => ?_⟩
          have hkept := hcurrent.lists.tree_of_refused hrooted hplaced (by rw [hadd]) method
          rw [hadd] at hkept
          rw [hkept, hroutes]
          exact hcurrent.index method

theorem remove (hcurrent : table.IsCurrent) (endpoint : EndpointKey) :
    (table.remove endpoint).1.IsCurrent where
  keyed := hcurrent.keyed.remove endpoint
  fit key hkey := hcurrent.fit key ((table.remove_keys_sublist endpoint).subset hkey)
  apart := hcurrent.apart.sublist (table.remove_keys_sublist endpoint)
  index method := by
    rcases table.remove_index endpoint with ⟨hindex, hroutes⟩ | hindex
    · rw [hindex, hroutes]
      exact hcurrent.index method
    · rw [hindex]

end IsCurrent

end Table

/-- A change that inserts only a template that starts with a slash and has its remainders in place. -/
def Change.IsPlaced : Change → Prop
  | .insert route => route.template.toList.head? = some '/' ∧ RemaindersPlaced (indexText route)
  | .remove _ => True

namespace Table

theorem IsCurrent.run {table : Table} (hcurrent : table.IsCurrent) {changes : List Change}
    (hplaced : ∀ change ∈ changes, change.IsPlaced) : (table.run changes).IsCurrent := by
  induction changes generalizing table with
  | nil => exact hcurrent
  | cons change rest ih =>
      refine ih ?_ fun other hother => hplaced other (.tail change hother)
      cases change with
      | insert route =>
          obtain ⟨hrooted, hown⟩ := hplaced _ (.head rest)
          exact hcurrent.insert (Path.Template.filled_head? _ hrooted) hown
      | remove endpoint => exact hcurrent.remove endpoint

/-- After any run over templates that start with a slash and have their remainders in place, the serving
routes can be added to an empty index, one after another, and the index built anew answers every lookup as
the one that has grown. -/
theorem rebuilt_run (policy : CollisionPolicy) (changes : List Change)
    (hplaced : ∀ change ∈ changes, change.IsPlaced) :
    (∀ before route after, ((empty policy).run changes).routes = before ++ route :: after →
      ((Index.ofRoutes before).add route).2 = none) ∧
    ∀ method path, ((empty policy).run changes).reindex.find? method path =
      ((empty policy).run changes).find? method path := by
  have hcurrent := (isCurrent_empty policy).run hplaced
  constructor
  · intro before route after hroutes
    have hapart := hcurrent.routes_apart
    rw [hroutes] at hapart
    refine Index.add_ofRoutes (fun other hother => ?_) hapart
    exact hcurrent.fit_of_mem_routes (hroutes ▸ hother)
  · intro method path
    rw [find?, find?, hcurrent.index method]
    rfl

def readRoute (application template : String) : Route :=
  ⟨application, [.path template, .method .get], [], "lb://" ++ application, application,
    ⟨application, .get, template⟩⟩

/-- A remainder, a conflicting template and one that is taken; then the first application goes. -/
def filesChanges : List Change :=
  [.insert (readRoute "files" "/files/*path"), .insert (readRoute "search" "/files/{name}"),
    .insert (readRoute "search" "/files"), .insert (readRoute "archive" "/files/*rest"),
    .remove ⟨"files", .get, "/files/*path"⟩]

theorem rebuilt_run_files :
    ((Index.ofRoutes []).add (readRoute "search" "/files")).2 = none := by
  have hplaced : ∀ change ∈ filesChanges, change.IsPlaced := by
    intro change hchange
    simp only [filesChanges, List.mem_cons, List.not_mem_nil, or_false] at hchange
    rcases hchange with rfl | rfl | rfl | rfl | rfl
    · exact ⟨by decide, by decide +kernel⟩
    · exact ⟨by decide, by decide +kernel⟩
    · exact ⟨by decide, by decide +kernel⟩
    · exact ⟨by decide, by decide +kernel⟩
    · trivial
  have hroutes : ((empty .reject).run filesChanges).routes = [readRoute "search" "/files"] := by
    decide +kernel
  exact (rebuilt_run .reject filesChanges hplaced).1 [] _ [] hroutes

/-- A remainder that is not in place can be added to an index that has grown, but not to one built anew:
the route stays listed while lookup loses it. -/
theorem not_rebuilt_run : ¬ ∀ (policy : CollisionPolicy) (changes : List Change),
    (∀ route, .insert route ∈ changes → route.template.toList.head? = some '/') →
    (∀ before route after, ((empty policy).run changes).routes = before ++ route :: after →
      ((Index.ofRoutes before).add route).2 = none) ∧
    ∀ method path, ((empty policy).run changes).reindex.find? method path =
      ((empty policy).run changes).find? method path := by
  intro hrebuilt
  have hslashed : ∀ route, .insert route ∈ [Change.insert (readRoute "files" "/ab"),
      .insert (readRoute "search" "/ab*x"), .remove ⟨"files", .get, "/ab"⟩] →
      route.template.toList.head? = some '/' := by
    intro route hroute
    simp only [List.mem_cons, List.not_mem_nil, or_false, Change.insert.injEq, reduceCtorEq] at hroute
    rcases hroute with rfl | rfl <;> rfl
  have hroutes : ((empty .reject).run [.insert (readRoute "files" "/ab"),
      .insert (readRoute "search" "/ab*x"), .remove ⟨"files", .get, "/ab"⟩]).routes =
        [readRoute "search" "/ab*x"] := by
    decide +kernel
  have htaken := (hrebuilt .reject _ hslashed).1 [] _ [] hroutes
  have hrefused : ((Index.ofRoutes []).add (readRoute "search" "/ab*x")).2 =
      some .misplacedRemainder := by
    decide +kernel
  rw [hrefused] at htaken
  cases htaken

end Table

end ApiGateway.Route
