import ApiGateway.Proofs.Route.Rebuilding

/-!
# What a refused insertion leaves behind

An insertion that fails leaves the slots and the collisions as they were.  The index is as it was, too, unless
a remainder is out of place: then the tree of the route's method may have been cut on the way, which later
insertions and lookups of this method can notice until the index is built anew.
-/

namespace ApiGateway.Route

inductive Call where
  | insert (route : Route)
  | remove (endpoint : EndpointKey)
  | find (method : Http.Method) (path : String)
  | routes
  | collisions
  deriving DecidableEq, Repr

inductive Reply where
  | inserted (result : Except Refusal Insertion)
  | removed (serving : Bool)
  | found (result : Option Match)
  | routes (routes : List Route)
  | collisions (collisions : List Collision)
  deriving DecidableEq

/-- The call reads or changes only what is indexed under these methods. -/
def Call.Within (methods : Http.Method → Prop) : Call → Prop
  | .insert route => methods (indexMethod route)
  | .find method _ => methods method
  | .remove _ | .routes | .collisions => True

namespace Table

def call (table : Table) : Call → Table × Reply
  | .insert route =>
    let (changed, result) := table.insert route
    (changed, .inserted result)
  | .remove endpoint =>
    let (changed, serving) := table.remove endpoint
    (changed, .removed serving)
  | .find method path => (table, .found (table.find? method path))
  | .routes => (table, .routes table.routes)
  | .collisions => (table, .collisions table.collisions)

def replies (table : Table) : List Call → List Reply
  | [] => []
  | call :: rest => (table.call call).2 :: (table.call call).1.replies rest

/-- The tables differ at most in the trees of other methods. -/
structure AlikeOn (methods : Http.Method → Prop) (left right : Table) : Prop where
  policy : left.policy = right.policy
  slots : left.slots = right.slots
  collisions : left.collisions = right.collisions
  trees : ∀ method, methods method → left.index.tree method = right.index.tree method

namespace AlikeOn

variable {methods : Http.Method → Prop} {left right : Table}

theorem routes_eq (halike : AlikeOn methods left right) : left.routes = right.routes := by
  rw [routes, routes, halike.slots]

/-- What the tables differ in is gone once both are built anew. -/
theorem reindex_eq (halike : AlikeOn methods left right) : left.reindex = right.reindex := by
  obtain ⟨policy, slots, index, collisions⟩ := left
  obtain ⟨_, _, other, _⟩ := right
  obtain ⟨rfl, rfl, rfl, -⟩ := halike
  rfl

theorem remove (halike : AlikeOn methods left right) (endpoint : EndpointKey) :
    (left.remove endpoint).2 = (right.remove endpoint).2 ∧
      AlikeOn methods (left.remove endpoint).1 (right.remove endpoint).1 ∧
      ((right.remove endpoint).2 = true → left.remove endpoint = right.remove endpoint) := by
  have hless : AlikeOn methods { left with slots := right.slots.filterMap (Slot.discard endpoint) }
      { right with slots := right.slots.filterMap (Slot.discard endpoint) } :=
    ⟨halike.policy, rfl, halike.collisions, halike.trees⟩
  rw [Table.remove, Table.remove, halike.slots]
  split
  · rw [hless.reindex_eq]
    exact ⟨rfl, ⟨rfl, rfl, rfl, fun _ _ => rfl⟩, fun _ => rfl⟩
  · exact ⟨rfl, hless, fun hserving => absurd hserving Bool.false_ne_true⟩

theorem collide (halike : AlikeOn methods left right) (slot : Slot) (route : Route) :
    (left.collide slot route).2 = (right.collide slot route).2 ∧
      AlikeOn methods (left.collide slot route).1 (right.collide slot route).1 := by
  obtain ⟨policy, slots, index, collisions⟩ := left
  obtain ⟨_, _, other, _⟩ := right
  obtain ⟨rfl, rfl, rfl, htrees⟩ := halike
  cases policy with
  | reject => exact ⟨rfl, rfl, rfl, rfl, htrees⟩
  | replace => exact ⟨rfl, rfl, rfl, rfl, fun _ _ => rfl⟩

/-- Trees that are the same for a route's method take the route alike. -/
theorem add (halike : AlikeOn methods left right) {route : Route}
    (hmethod : methods (indexMethod route)) :
    (left.index.add route).2 = (right.index.add route).2 ∧ ∀ method, methods method →
      (left.index.add route).1.tree method = (right.index.add route).1.tree method := by
  refine ⟨by rw [Index.add_refusal, Index.add_refusal, halike.trees _ hmethod], fun method hother => ?_⟩
  rw [Index.add_tree, Index.add_tree, halike.trees _ hmethod, halike.trees method hother]

theorem openSlot (halike : AlikeOn methods left right) {route : Route}
    (hmethod : methods (indexMethod route)) :
    (left.openSlot route).2 = (right.openSlot route).2 ∧
      AlikeOn methods (left.openSlot route).1 (right.openSlot route).1 := by
  obtain ⟨hrefusal, htrees⟩ := halike.add hmethod
  obtain ⟨policy, slots, before, collisions⟩ := left
  obtain ⟨_, _, otherBefore, _⟩ := right
  obtain ⟨rfl, rfl, rfl, -⟩ := halike
  simp only [Table.openSlot]
  simp only at hrefusal htrees
  cases hleft : before.add route with
  | mk index refusal =>
      cases hright : otherBefore.add route with
      | mk other reason =>
          rw [hleft, hright] at hrefusal htrees
          cases hrefusal
          cases refusal with
          | none => exact ⟨rfl, rfl, rfl, rfl, htrees⟩
          | some refusal => cases refusal <;> exact ⟨rfl, rfl, rfl, rfl, htrees⟩

theorem insert (halike : AlikeOn methods left right) {route : Route}
    (hmethod : methods (indexMethod route)) :
    (left.insert route).2 = (right.insert route).2 ∧
      AlikeOn methods (left.insert route).1 (right.insert route).1 := by
  rw [Table.insert, Table.insert, halike.slots]
  split
  · next slot hslot =>
    obtain ⟨hresult, hchanged⟩ := halike.collide slot route
    exact ⟨congrArg Except.ok hresult, hchanged⟩
  · exact halike.openSlot hmethod

/-- Calls that have to do only with the methods in which two tables are alike get the same replies. -/
theorem call (halike : AlikeOn methods left right) {call : Call} (hwithin : call.Within methods) :
    (left.call call).2 = (right.call call).2 ∧
      AlikeOn methods (left.call call).1 (right.call call).1 := by
  cases call with
  | insert route =>
      obtain ⟨hresult, hchanged⟩ := halike.insert hwithin
      exact ⟨congrArg Reply.inserted hresult, hchanged⟩
  | remove endpoint =>
      obtain ⟨hserving, hchanged, -⟩ := halike.remove endpoint
      exact ⟨congrArg Reply.removed hserving, hchanged⟩
  | find method path =>
      refine ⟨congrArg Reply.found ?_, halike⟩
      rw [find?, find?, halike.trees method hwithin]
  | routes => exact ⟨congrArg Reply.routes halike.routes_eq, halike⟩
  | collisions => exact ⟨congrArg Reply.collisions halike.collisions, halike⟩

theorem replies (halike : AlikeOn methods left right) {calls : List Call}
    (hwithin : ∀ call ∈ calls, call.Within methods) : left.replies calls = right.replies calls := by
  induction calls generalizing left right with
  | nil => rfl
  | cons call rest ih =>
      obtain ⟨hreply, hchanged⟩ := halike.call (hwithin call (.head rest))
      rw [Table.replies, Table.replies, hreply,
        ih hchanged fun other hother => hwithin other (.tail call hother)]

end AlikeOn

/-- A failed insertion leaves a table that is alike, in the method of the route only if no remainder is out
of place. -/
theorem alikeOn_of_refused {table : Table} {route : Route} {refusal : Refusal}
    (hrefused : (table.insert route).2 = .error refusal) :
    AlikeOn (fun method => method ≠ indexMethod route ∨ refusal ≠ .misplacedRemainder)
      (table.insert route).1 table := by
  rw [Table.insert] at hrefused ⊢
  split at hrefused
  · cases hrefused
  · have hkept : (table.index.add route).2 = some refusal →
        ∀ method, method ≠ indexMethod route ∨ refusal ≠ .misplacedRemainder →
          (table.index.add route).1.tree method = table.index.tree method := by
      intro hreason method hmethod
      rw [Index.add_tree]
      split
      · next heq =>
        subst heq
        exact (Tree.insert_keeps _ (indexText route) route).eq_of_refused hreason
          (hmethod.resolve_left (absurd rfl))
      · rfl
    rw [Table.openSlot] at hrefused ⊢
    cases hadd : table.index.add route with
    | mk index reason =>
        rw [hadd] at hrefused hkept
        cases reason with
        | none => cases hrefused
        | some reason =>
            cases reason <;> cases hrefused <;> exact ⟨rfl, rfl, rfl, hkept rfl⟩

/-- A failed insertion changes neither the serving routes nor the collisions.  Unless a remainder is out of
place, all later calls get the same replies as if it had not been tried.  Otherwise all calls do that have
nothing to do with the method of the route, and once a removal builds the index anew the tables are the
same. -/
theorem replies_of_refused {table : Table} {route : Route} {refusal : Refusal}
    (hrefused : (table.insert route).2 = .error refusal) :
    ((table.insert route).1.routes = table.routes ∧
      (table.insert route).1.collisions = table.collisions) ∧
    (∀ calls, (∀ call ∈ calls, call.Within fun method =>
        method ≠ indexMethod route ∨ refusal ≠ .misplacedRemainder) →
      (table.insert route).1.replies calls = table.replies calls) ∧
    ∀ endpoint, (table.remove endpoint).2 = true →
      (table.insert route).1.remove endpoint = table.remove endpoint := by
  have halike := alikeOn_of_refused hrefused
  refine ⟨⟨halike.routes_eq, halike.collisions⟩, fun calls hwithin => halike.replies hwithin, ?_⟩
  intro endpoint hserving
  exact (halike.remove endpoint).2.2 hserving

def peopleTable : Table :=
  (empty .reject).run [.insert (readRoute "people" "/users/{id}")]

/-- A segment with two variables is refused without a trace. -/
theorem replies_of_refused_people :
    (peopleTable.insert (readRoute "staff" "/users/{first}{last}")).1.replies
        [.find .get "/users/7", .insert (readRoute "teams" "/teams/{id}"), .find .get "/teams/7"] =
      peopleTable.replies
        [.find .get "/users/7", .insert (readRoute "teams" "/teams/{id}"), .find .get "/teams/7"] := by
  have hrefused : (peopleTable.insert (readRoute "staff" "/users/{first}{last}")).2 =
      .error .crowdedSegment := by
    decide +kernel
  refine (replies_of_refused hrefused).2.1 _ fun call _ => ?_
  cases call with
  | insert route => exact Or.inr Refusal.noConfusion
  | find method path => exact Or.inr Refusal.noConfusion
  | remove endpoint => trivial
  | routes => trivial
  | collisions => trivial

/-- A remainder that is out of place cuts a node before it is refused, and what is inserted then is no longer
found. -/
theorem not_replies_of_refused : ¬ ∀ (policy : CollisionPolicy) (changes : List Change) (route : Route)
    (refusal : Refusal) (calls : List Call),
    (∀ other, .insert other ∈ changes ++ [.insert route] → other.template.toList.head? = some '/') →
    (((empty policy).run changes).insert route).2 = .error refusal →
    (((empty policy).run changes).insert route).1.replies calls =
      ((empty policy).run changes).replies calls := by
  intro htraceless
  have hslashed : ∀ other, Change.insert other ∈
      [] ++ [Change.insert (readRoute "bad" "/a/{x}/*r/b")] →
      other.template.toList.head? = some '/' := by
    intro other hother
    simp only [List.nil_append, List.mem_singleton, Change.insert.injEq] at hother
    rw [hother]
    rfl
  have hrefused : ((empty .reject).insert (readRoute "bad" "/a/{x}/*r/b")).2 =
      .error .misplacedRemainder := by
    decide +kernel
  have hsame := htraceless .reject [] _ _ [.insert (readRoute "one" "/a/{x}/z"),
    .insert (readRoute "two" "/{p}/{q}"), .find .get "/a/q"] hslashed hrefused
  revert hsame
  decide +kernel

end Table

end ApiGateway.Route
