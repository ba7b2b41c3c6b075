import ApiGateway.Proofs.Resolver
import Mathlib.Data.List.DropRight
import Mathlib.Data.List.Induction
import Mathlib.Data.List.Rotate

/-!
# Fair turns

A logical address resolves to the instance whose turn it is: the number of the turn, counted from the last
time that the turns of the application were forgotten, goes round the list of the instances.  Other
applications have no part in it.  As long as the list stays as it is, every instance has its turn before
one has a second.
-/

namespace ApiGateway.Resolver

/-! ## Counting turns -/

namespace Call

def takesTurn (scheme application : String) : Call → Bool
  | .resolve uri instances => uri = scheme ++ application ∧ instances application ≠ []
  | .evict _ => false

def forgets (application : String) : Call → Bool
  | .resolve _ _ => false
  | .evict other => other == application

def Sees (scheme application : String) (items : List String) : Call → Prop
  | .resolve uri instances => uri = scheme ++ application → instances application = items
  | .evict _ => True

end Call

/-- The calls since the turns of an application were last forgotten. -/
def sinceForgotten (application : String) (calls : List Call) : List Call :=
  calls.rtakeWhile fun call => !call.forgets application

/-- The number of an application's next turn. -/
def turn (scheme application : String) (calls : List Call) : Nat :=
  (sinceForgotten application calls).countP (·.takesTurn scheme application)

theorem applicationOf?_eq_some_iff {scheme uri application : String} :
    applicationOf? scheme uri = some application ↔ uri = scheme ++ application := by
  rw [applicationOf?, application?, Option.map_eq_some_iff]
  constructor
  · rintro ⟨rest, hrest, rfl⟩
    rw [Text.strip?_eq_some_iff] at hrest
    rw [String.ext_iff, String.toList_append, String.toList_ofList, hrest]
  · rintro rfl
    exact ⟨application.toList, by rw [String.toList_append, Text.strip?_append], String.ofList_toList⟩

theorem count_eq (scheme application : String) (turns : Nat) (call : Call) :
    call.count scheme application turns =
      if call.forgets application then 0
      else turns + if call.takesTurn scheme application then 1 else 0 := by
  cases call with
  | resolve uri instances =>
      simp only [Call.count, Call.forgets, Call.takesTurn, applicationOf?_eq_some_iff,
        Bool.false_eq_true, if_false, decide_eq_true_eq]
      split <;> rfl
  | evict other => simp [Call.count, Call.forgets, Call.takesTurn]

theorem taken_concat (scheme application : String) (calls : List Call) (call : Call) :
    taken scheme application (calls ++ [call]) =
      call.count scheme application (taken scheme application calls) := by
  simp only [taken, List.foldl_append, List.foldl_cons, List.foldl_nil]

theorem taken_eq_turn (scheme application : String) (calls : List Call) :
    taken scheme application calls = turn scheme application calls := by
  unfold turn sinceForgotten
  induction calls using List.reverseRecOn with
  | nil => rfl
  | append_singleton calls call ih =>
      rw [taken_concat, count_eq, List.rtakeWhile_concat, ih]
      cases hforgets : call.forgets application with
      | true => simp
      | false => simp [List.countP_append, List.countP_singleton]

/-- The number of the next turn is what the rotation of the application holds. -/
theorem turns_run_eq_turn (scheme application : String) (calls : List Call) :
    ((run { scheme } calls).rotation application).turns =
      turn scheme application calls % Rotation.turnLimit := by
  rw [← taken_eq_turn]
  exact turns_run rfl calls

/-! ## What resolves come to -/

def reach : Option String → Except Problem Url
  | none => .error .noInstances
  | some address => (Url.parse address).mapError .invalidInstance

section Answers

variable (resolver : Resolver) (application : String)

theorem resolve_result (instances : String → List String) :
    (resolver.resolve instances (resolver.scheme ++ application)).2 =
      reach (instances application)[(resolver.rotation application).turns %
        (instances application).length]? := by
  have hnamed : resolver.application? (resolver.scheme ++ application) = some application :=
    applicationOf?_eq_some_iff.mpr rfl
  rw [← next_item, resolve, hnamed]
  dsimp only
  rcases resolver.next application (instances application) with ⟨after, address⟩
  cases address <;> rfl

/-- A resolve that sees no instance fails and leaves all turns as they are. -/
theorem resolve_of_none {instances : String → List String} (hnone : instances application = []) :
    (resolver.resolve instances (resolver.scheme ++ application)).2 = .error .noInstances ∧
      ∀ other, (resolver.resolve instances (resolver.scheme ++ application)).1.rotation other =
        resolver.rotation other := by
  refine ⟨by rw [resolve_result, hnone]; rfl, fun other => ?_⟩
  rw [resolve_eq, applicationOf?_eq_some_iff.mpr rfl]
  dsimp only [next]
  rw [rotation_setRotation, hnone]
  by_cases hother : other = application
  · rw [if_pos hother, hother]
    rfl
  · rw [if_neg hother]

/-- What the resolves of an application come to in a course of calls, in their order. -/
def answers (resolver : Resolver) : List Call → List (Except Problem Url)
  | [] => []
  | .resolve uri instances :: calls =>
      if uri = resolver.scheme ++ application then
        (resolver.resolve instances uri).2 :: answers (resolver.resolve instances uri).1 calls
      else answers (resolver.resolve instances uri).1 calls
  | .evict other :: calls => answers (resolver.evict other) calls

/-- While an application has the same instances, its turns go round them. -/
theorem answers_eq {resolver : Resolver} {application : String} {items : List String} (hitems : items ≠ [])
    {calls : List Call} {turns : Nat}
    (hsees : ∀ call ∈ calls, call.Sees resolver.scheme application items)
    (hkept : ∀ call ∈ calls, call.forgets application = false)
    (hturns : (resolver.rotation application).turns = turns % Rotation.turnLimit)
    (hroom : turns + calls.countP (·.takesTurn resolver.scheme application) ≤ Rotation.turnLimit) :
    answers application resolver calls =
      (List.range (calls.countP (·.takesTurn resolver.scheme application))).map fun later =>
        reach items[(turns + later) % items.length]? := by
  induction calls generalizing resolver turns with
  | nil => rfl
  | cons call calls ih =>
      have hscheme := scheme_call resolver call
      have hafter := turns_call hturns call
      rw [count_eq, hkept call (.head _), if_neg Bool.false_ne_true] at hafter
      have hrest := @ih (resolver.call call)
        (turns + if call.takesTurn resolver.scheme application then 1 else 0)
      rw [hscheme] at hrest
      rw [List.countP_cons] at hroom
      have hrest := hrest (fun later hlater => hsees later (.tail _ hlater))
        (fun later hlater => hkept later (.tail _ hlater)) hafter (by omega)
      cases call with
      | evict other =>
          rw [List.countP_cons_of_neg (by simp [Call.takesTurn])]
          exact hrest
      | resolve uri instances =>
          rw [answers]
          by_cases hnamed : uri = resolver.scheme ++ application
          · subst hnamed
            have hseen : instances application = items := hsees _ (.head _) rfl
            have htakes : (Call.resolve (resolver.scheme ++ application) instances).takesTurn
                resolver.scheme application = true := by simp [Call.takesTurn, hseen, hitems]
            rw [htakes, if_pos rfl] at hroom hrest
            have hturn : turns % Rotation.turnLimit = turns := Nat.mod_eq_of_lt (by omega)
            rw [if_pos rfl, List.countP_cons_of_pos htakes, List.range_succ_eq_map, List.map_cons,
              List.map_map, resolve_result, hseen, hturns, hturn]
            refine congrArg _ (hrest.trans (List.map_congr_left fun later _ => ?_))
            rw [Function.comp_apply, Nat.succ_eq_add_one, Nat.add_assoc, Nat.add_comm 1 later]
          · have hidle : (Call.resolve uri instances).takesTurn resolver.scheme application = false := by
              simp [Call.takesTurn, hnamed]
            rw [hidle, if_neg Bool.false_ne_true] at hrest
            rw [if_neg hnamed, List.countP_cons_of_neg (by simp [hidle])]
            exact hrest

end Answers

/-- The places of a list, counted round from any of them. -/
theorem map_range_mod_perm (start length : Nat) :
    ((List.range length).map fun later => (start + later) % length).Perm (List.range length) := by
  have hrotated : (List.range length).map (fun later => (start + later) % length) =
      (List.range length).rotate start := by
    refine List.ext_getElem (by simp) fun place hplace _ => ?_
    simp [List.getElem_rotate, Nat.add_comm]
  rw [hrotated]
  exact List.rotate_perm _ _

/-- Whatever calls came before, a resolve that sees instances of an application picks the one whose turn it
is, by the number of turns that were taken since they were last forgotten; a resolve that sees none fails
and takes no turn.  While the instances of the application stay the same and its turns are not forgotten,
as many resolves as there are instances pick each of them once, whatever else is called for in between. -/
theorem resolve_takes_turns (scheme application : String) (calls : List Call) :
    let resolver := run { scheme } calls
    (∀ instances, instances application ≠ [] → turn scheme application calls < Rotation.turnLimit →
      ∃ address, (instances application)[turn scheme application calls % (instances application).length]? =
          some address ∧
        (resolver.resolve instances (scheme ++ application)).2 =
          (Url.parse address).mapError .invalidInstance) ∧
    (∀ instances, instances application = [] →
      (resolver.resolve instances (scheme ++ application)).2 = .error .noInstances ∧
        ∀ other, (resolver.resolve instances (scheme ++ application)).1.rotation other =
          resolver.rotation other) ∧
    ∀ (items : List String) (later : List Call), items ≠ [] →
      (∀ call ∈ later, call.Sees scheme application items ∧ call.forgets application = false) →
      later.countP (·.takesTurn scheme application) = items.length →
      turn scheme application calls + items.length ≤ Rotation.turnLimit →
      ∃ places : List Nat, places.Perm (List.range items.length) ∧
        answers application resolver later = places.map fun place => reach items[place]? := by
  intro resolver
  have hscheme : resolver.scheme = scheme := scheme_run { scheme } calls
  have hturns := turns_run_eq_turn scheme application calls
  refine ⟨fun instances hsome hfew => ?_, fun instances hnone => ?_,
    fun items later hitems hcalls hcount hroom => ?_⟩
  · have hplace : turn scheme application calls % (instances application).length <
        (instances application).length := Nat.mod_lt _ (List.length_pos_of_ne_nil hsome)
    refine ⟨_, List.getElem?_eq_getElem hplace, ?_⟩
    have hresult := resolve_result resolver application instances
    rw [hscheme, hturns, Nat.mod_eq_of_lt hfew, List.getElem?_eq_getElem hplace] at hresult
    exact hresult
  · have hresult := resolve_of_none resolver application hnone
    rwa [hscheme] at hresult
  · refine ⟨_, map_range_mod_perm (turn scheme application calls) items.length, ?_⟩
    rw [List.map_map, ← hcount]
    rw [← hcount] at hroom
    have hround := @answers_eq resolver application items hitems later
    rw [hscheme] at hround
    exact (hround (fun call hcall => (hcalls call hcall).1) (fun call hcall => (hcalls call hcall).2)
      hturns hroom).trans (by rw [hcount]; rfl)

def twoOrders (application : String) : List String :=
  if application = "orders" then ["http://10.0.0.1:8080", "http://10.0.0.2:8080"] else []

/-- One turn of the orders, and turns of another application that are forgotten. -/
def firstTurn : List Call :=
  [.resolve "lb://orders" twoOrders, .evict "billing", .resolve "lb://billing" twoOrders]

/-- The second of two instances is next, and two further resolves pick each of them once. -/
theorem resolve_takes_turns_orders :
    ((run ⟨"lb://", []⟩ firstTurn).resolve twoOrders "lb://orders").2 =
        (Url.parse "http://10.0.0.2:8080").mapError .invalidInstance ∧
      ((run ⟨"lb://", []⟩ firstTurn).resolve (fun _ => []) "lb://orders").2 = .error .noInstances ∧
      ∃ places : List Nat, places.Perm [0, 1] ∧
        answers "orders" (run ⟨"lb://", []⟩ firstTurn)
            [.resolve "lb://orders" twoOrders, .resolve "lb://billing" twoOrders, .evict "billing",
              .resolve "lb://orders" twoOrders] =
          places.map fun place => reach (twoOrders "orders")[place]? := by
  obtain ⟨hpick, hnone, hround⟩ := resolve_takes_turns "lb://" "orders" firstTurn
  have hturn : turn "lb://" "orders" firstTurn = 1 := by decide
  refine ⟨?_, (hnone (fun _ => []) rfl).1, ?_⟩
  · obtain ⟨address, haddress, hresult⟩ := hpick twoOrders (by decide) (by rw [hturn]; decide)
    rw [hturn] at haddress
    cases haddress
    exact hresult
  · refine hround (twoOrders "orders") _ (by decide) ?_ (by decide) (by rw [hturn]; decide)
    simp [Call.Sees, Call.forgets]

end ApiGateway.Resolver
