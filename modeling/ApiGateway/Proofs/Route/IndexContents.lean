import ApiGateway.Proofs.Route.TemplateSymbols
import ApiGateway.Proofs.Route.TreeGrowth

/-!
# What the index holds

The index of well-formed routes with different keys holds exactly these routes, each in the tree of
its method under the symbols of its template.  A further route of a new key is never refused.
-/

namespace ApiGateway.Route

variable {α : Type}

/-! ## Whole trees -/

structure Tree.IsRoot (tree : Tree α) : Prop where
  regular : tree.IsRegular
  open_or_slash : tree = .empty ∨ tree.label.head? = some '/'

theorem Tree.isRoot_empty : (Tree.empty : Tree α).IsRoot where
  regular := ⟨by simp, by simp, trivial, trivial⟩
  open_or_slash := Or.inl rfl

theorem Tree.not_has_empty {held : List Symbol} {leaf : Leaf α} :
    ¬ (Tree.empty : Tree α).Has held leaf := by
  rintro ⟨rest, -, ⟨-, hheld⟩ | hhas | hhas⟩
  · cases hheld
  · exact hhas
  · exact hhas

/-- A template with these symbols and not too many parameters is added to a tree that does not hold
it yet. -/
theorem Tree.IsRoot.insert {tree : Tree α} {tail : List Symbol} (hroot : tree.IsRoot) (value : α)
    (hneat : Symbol.IsNeat (.char '/' :: tail))
    (harity : Symbol.arity (.char '/' :: tail) ≤ parameterLimit)
    (habsent : ∀ leaf, ¬ tree.Has (.char '/' :: tail) leaf) :
    ∃ grown, tree.insert (Symbol.render 0 (.char '/' :: tail)) value = (grown, none) ∧ grown.IsRoot ∧
      HasMore tree.Has grown.Has (.char '/' :: tail)
        ⟨Symbol.indexNames 0 (Symbol.arity (.char '/' :: tail)), value⟩ := by
  have hnames := hneat.parameterNames_render 0 (by omega)
  rw [Tree.insert, hnames]
  rcases hroot.open_or_slash with rfl | hlabel
  · obtain ⟨grown, hplant, hplanted⟩ := plant_isPlanted hneat
      ⟨Symbol.indexNames 0 (Symbol.arity (.char '/' :: tail)), value⟩
      (Symbol.render 0 (.char '/' :: tail)) 0
    refine ⟨grown, hplant, ⟨hplanted.regular, Or.inr (hplanted.label '/' tail rfl)⟩, ?_⟩
    intro other last
    simp only [hplanted.only other last, Tree.not_has_empty, or_false]
  · obtain ⟨grown, hgraft, hregular, hmore⟩ := Tree.graft_hasMore tree
      ⟨Symbol.indexNames 0 (Symbol.arity (.char '/' :: tail)), value⟩ 0
      (Symbol.render 0 (.char '/' :: tail)) hroot.regular hneat habsent
    have hkept := Tree.label_graft
      ⟨Symbol.indexNames 0 (Symbol.arity (.char '/' :: tail)), value⟩
      (Symbol.render 0 (.char '/' :: tail)) (Symbol.render 0 (.char '/' :: tail)) hlabel rfl
    rw [hgraft] at hkept
    refine ⟨grown, ?_, ⟨hregular, Or.inr hkept⟩, hmore⟩
    cases tree with
    | node label old branches wild =>
        cases label with
        | nil => cases hlabel
        | cons c label => exact hgraft

/-! ## The trees of an index -/

namespace Index

theorem tree_nil (method : Http.Method) : tree [] method = .empty := rfl

theorem tree_setTree (index : Index) (method other : Http.Method) (changed : Tree Route) :
    (index.setTree method changed).tree other =
      if other = method then changed else index.tree other := by
  induction index with
  | nil =>
      by_cases heq : other = method
      · simp [setTree, tree, heq]
      · simp [setTree, tree, heq, List.lookup_cons, beq_false_of_ne heq]
  | cons entry rest ih =>
      obtain ⟨first, old⟩ := entry
      by_cases hfirst : first = method
      · subst hfirst
        by_cases heq : other = first
        · simp [setTree, tree, heq]
        · simp [setTree, tree, heq, List.lookup_cons, beq_false_of_ne heq]
      · by_cases heq : other = first
        · subst heq
          simp [setTree, tree, hfirst]
        · simp only [tree] at ih
          simp [setTree, tree, hfirst, List.lookup_cons, beq_false_of_ne heq, ih]

end Index

def symbols (route : Route) : List Symbol :=
  Path.Template.symbols route.template.toList

def leaf (route : Route) : Leaf Route :=
  ⟨Symbol.indexNames 0 (Symbol.arity (symbols route)), route⟩

def IsWellFormed (route : Route) : Prop :=
  Path.Template.IsWellFormed route.template.toList

instance (route : Route) : Decidable (IsWellFormed route) :=
  inferInstanceAs (Decidable (Path.Template.IsWellFormed route.template.toList))

/-- The template of the route is made of segments, and there may be any number of variables. -/
def IsSegmented (route : Route) : Prop :=
  Path.Template.IsSegmented route.template.toList

theorem IsWellFormed.isSegmented {route : Route} (hwell : IsWellFormed route) : IsSegmented route :=
  Path.Template.IsWellFormed.isSegmented hwell

/-- Routes of one method whose templates look the same to the index have the same key. -/
theorem slotKey_eq_of_symbols_eq {left right : Route} (hmethod : indexMethod left = indexMethod right)
    (hsymbols : symbols left = symbols right) : slotKey left = slotKey right := by
  rw [slotKey, slotKey, hmethod, Path.Template.key_eq_of_symbols_eq hsymbols]

theorem IsSegmented.symbols_eq_cons {route : Route} (hsegmented : IsSegmented route) :
    ∃ tail, symbols route = .char '/' :: tail := by
  have hsymbols := Path.Template.IsSegmented.symbols_eq hsegmented
  have hjoined := Path.Template.joined_text_segments hsegmented.1.1
  rw [symbols, hsymbols]
  cases hsegments : Path.Template.segments route.template.toList with
  | nil =>
      rw [hsegments] at hjoined
      have hhead := hsegmented.1.1
      rw [← hjoined] at hhead
      cases hhead
  | cons segment rest => exact ⟨_, rfl⟩

def Index.Holds (index : Index) (routes : List Route) : Prop :=
  ∀ method, (index.tree method).IsRoot ∧ ∀ held last, (index.tree method).Has held last ↔
    ∃ route ∈ routes, indexMethod route = method ∧ held = symbols route ∧ last = leaf route

namespace Index

theorem holds_nil : Holds [] [] := fun method => by
  refine ⟨Tree.isRoot_empty, fun held last => ?_⟩
  simp [tree_nil, Tree.not_has_empty]

/-- The tree of its method takes a route of a new key. -/
theorem Holds.insert {index : Index} {routes : List Route} {route : Route}
    (hholds : index.Holds routes) (hwell : IsWellFormed route)
    (hfresh : ∀ other ∈ routes, slotKey other ≠ slotKey route) :
    ∃ grown, (index.tree (indexMethod route)).insert (indexText route) route = (grown, none) ∧
      grown.IsRoot ∧
      HasMore (index.tree (indexMethod route)).Has grown.Has (symbols route) (leaf route) := by
  obtain ⟨hroot, hhas⟩ := hholds (indexMethod route)
  obtain ⟨hsegmented, harity⟩ := Path.Template.isWellFormed_iff.mp hwell
  obtain ⟨tail, htail⟩ := hwell.isSegmented.symbols_eq_cons
  have hneat : Symbol.IsNeat (symbols route) := hsegmented.isNeat
  have harity : Symbol.arity (symbols route) ≤ parameterLimit := harity
  have habsent : ∀ last, ¬ (index.tree (indexMethod route)).Has (symbols route) last := by
    intro last hheld
    obtain ⟨other, hother, hmethod, hsymbols, -⟩ := (hhas _ _).mp hheld
    exact hfresh other hother (slotKey_eq_of_symbols_eq hmethod hsymbols.symm)
  have htext : indexText route = Symbol.render 0 (symbols route) :=
    Path.Template.indexText_eq_render _
  rw [htext, leaf]
  rw [htail] at hneat harity habsent ⊢
  exact hroot.insert route hneat harity habsent

/-- With one route more in the tree of its method, the index holds this route as well. -/
theorem Holds.setTree {index : Index} {routes : List Route} {route : Route} {grown : Tree Route}
    (hholds : index.Holds routes) (hroot : grown.IsRoot)
    (hmore : HasMore (index.tree (indexMethod route)).Has grown.Has (symbols route) (leaf route)) :
    (index.setTree (indexMethod route) grown).Holds (routes ++ [route]) := by
  intro method
  rw [tree_setTree]
  by_cases heq : method = indexMethod route
  · subst heq
    rw [if_pos rfl]
    refine ⟨hroot, fun held last => ?_⟩
    rw [hmore held last, (hholds (indexMethod route)).2 held last]
    constructor
    · rintro (⟨rfl, rfl⟩ | ⟨other, hother, hrest⟩)
      · exact ⟨route, by simp, rfl, rfl, rfl⟩
      · exact ⟨other, by simp [hother], hrest⟩
    · rintro ⟨other, hother, hmethod, rfl, rfl⟩
      rcases List.mem_append.mp hother with hold | hnew
      · exact Or.inr ⟨other, hold, hmethod, rfl, rfl⟩
      · rw [List.mem_singleton] at hnew
        subst hnew
        exact Or.inl ⟨rfl, rfl⟩
  · rw [if_neg heq]
    refine ⟨(hholds method).1, fun held last => ?_⟩
    rw [(hholds method).2 held last]
    constructor
    · rintro ⟨other, hother, hrest⟩
      exact ⟨other, by simp [hother], hrest⟩
    · rintro ⟨other, hother, hmethod, hrest⟩
      rcases List.mem_append.mp hother with hold | hnew
      · exact ⟨other, hold, hmethod, hrest⟩
      · rw [List.mem_singleton] at hnew
        subst hnew
        exact absurd hmethod.symm heq

/-- A route of a new key is added without refusal. -/
theorem Holds.add {index : Index} {routes : List Route} {route : Route}
    (hholds : index.Holds routes) (hwell : IsWellFormed route)
    (hfresh : ∀ other ∈ routes, slotKey other ≠ slotKey route) :
    ∃ grown, index.add route = (grown, none) ∧ grown.Holds (routes ++ [route]) := by
  obtain ⟨grown, hgrown, hroot, hmore⟩ := hholds.insert hwell hfresh
  exact ⟨index.setTree (indexMethod route) grown, by rw [Index.add, hgrown],
    hholds.setTree hroot hmore⟩

/-- An index built anew holds the routes that it was built from. -/
theorem holds_ofRoutes {routes : List Route} (hwell : ∀ route ∈ routes, IsWellFormed route)
    (hkeys : (routes.map slotKey).Nodup) : (ofRoutes routes).Holds routes := by
  -- The routes already added are generalized over, since the index grows at its end.
  have hgrow : ∀ (rest done : List Route) (index : Index), index.Holds done →
      (∀ route ∈ rest, IsWellFormed route) → ((done ++ rest).map slotKey).Nodup →
      (rest.foldl (fun index route => (index.add route).1) index).Holds (done ++ rest) := by
    intro rest
    induction rest with
    | nil =>
        intro done index hholds _ _
        rwa [List.append_nil]
    | cons route rest ih =>
        intro done index hholds hwell hkeys
        have hfresh : ∀ other ∈ done, slotKey other ≠ slotKey route := by
          intro other hother
          rw [List.map_append, List.nodup_append] at hkeys
          exact hkeys.2.2 _ (List.mem_map_of_mem hother) _ (by simp)
        obtain ⟨grown, hadd, hgrown⟩ := hholds.add (hwell route (.head rest)) hfresh
        rw [List.append_cons] at hkeys ⊢
        rw [List.foldl_cons, hadd]
        exact ih (done ++ [route]) grown hgrown (fun other hother => hwell other (.tail route hother))
          hkeys
  exact hgrow routes [] [] holds_nil hwell hkeys

end Index

end ApiGateway.Route
