import ApiGateway.Proofs.Named
import ApiGateway.Resolver

/-!
# Turns of instances

Every application has turns of its own.  Which instance a logical address resolves to goes by how often the
application has been resolved with instances since its turns were last forgotten.
-/

namespace ApiGateway

theorem Rotation.select_turns (rotation : Rotation) {items : List String} (hitems : items ≠ []) :
    (rotation.select items).1.turns = (rotation.turns + 1) % turnLimit := by
  cases items with
  | nil => exact absurd rfl hitems
  | cons item items => rfl

theorem Rotation.select_item (rotation : Rotation) (items : List String) :
    (rotation.select items).2 = items[rotation.turns % items.length]? := by
  cases items with
  | nil => rfl
  | cons item items => rfl

namespace Resolver

/-! ## Calls -/

inductive Call where
  | resolve (uri : String) (instances : String → List String)
  | evict (application : String)

def call (resolver : Resolver) : Call → Resolver
  | .resolve uri instances => (resolver.resolve instances uri).1
  | .evict application => resolver.evict application

def run (resolver : Resolver) (calls : List Call) : Resolver :=
  calls.foldl call resolver

def applicationOf? (scheme uri : String) : Option String :=
  application? { scheme } uri

/-- The turns that an application has taken since they were last forgotten, after one more call. -/
def Call.count (scheme application : String) (turns : Nat) : Call → Nat
  | .resolve uri instances =>
      if applicationOf? scheme uri = some application ∧ instances application ≠ [] then turns + 1
      else turns
  | .evict other => if other = application then 0 else turns

def taken (scheme application : String) (calls : List Call) : Nat :=
  calls.foldl (Call.count scheme application) 0

/-! ## Rotations -/

theorem rotation_setRotation (resolver : Resolver) (application : String) (rotation : Rotation)
    (other : String) :
    (resolver.setRotation application rotation).rotation other =
      if other = application then rotation else resolver.rotation other := by
  unfold setRotation Resolver.rotation
  rw [lookup_cons_eq_ite, lookup_filter_ne]
  split <;> rfl

theorem rotation_evict (resolver : Resolver) (application other : String) :
    (resolver.evict application).rotation other =
      if other = application then {} else resolver.rotation other := by
  unfold evict Resolver.rotation
  rw [lookup_filter_ne]
  split <;> rfl

theorem resolve_eq (resolver : Resolver) (instances : String → List String) (uri : String) :
    (resolver.resolve instances uri).1 =
      match applicationOf? resolver.scheme uri with
      | some application => (resolver.next application (instances application)).1
      | none => resolver := by
  have hnamed : applicationOf? resolver.scheme uri = resolver.application? uri := rfl
  rw [hnamed]
  unfold resolve
  cases resolver.application? uri with
  | none => rfl
  | some application =>
      dsimp only
      rcases resolver.next application (instances application) with ⟨after, address⟩
      cases address <;> rfl

theorem scheme_call (resolver : Resolver) (call : Call) : (resolver.call call).scheme = resolver.scheme := by
  cases call with
  | resolve uri instances =>
      show (resolver.resolve instances uri).1.scheme = resolver.scheme
      rw [resolve_eq]
      split <;> rfl
  | evict application => rfl

theorem scheme_run (resolver : Resolver) (calls : List Call) :
    (resolver.run calls).scheme = resolver.scheme := by
  induction calls generalizing resolver with
  | nil => rfl
  | cons call calls ih => exact (ih (resolver.call call)).trans (scheme_call resolver call)

/-- A call counts for an application as it does for its turns, which start again at their limit. -/
theorem turns_call {resolver : Resolver} {application : String} {turns : Nat}
    (hturns : (resolver.rotation application).turns = turns % Rotation.turnLimit) (call : Call) :
    ((resolver.call call).rotation application).turns =
      call.count resolver.scheme application turns % Rotation.turnLimit := by
  cases call with
  | resolve uri instances =>
      show ((resolver.resolve instances uri).1.rotation application).turns = _
      rw [resolve_eq, Call.count]
      cases hnamed : applicationOf? resolver.scheme uri with
      | none => rw [if_neg (by simp)]; exact hturns
      | some other =>
          dsimp only [next]
          rw [rotation_setRotation]
          by_cases hother : application = other
          · subst hother
            rw [if_pos rfl]
            by_cases hnone : instances application = []
            · rw [if_neg (by simp [hnone]), hnone]
              exact hturns
            · rw [if_pos ⟨rfl, hnone⟩, Rotation.select_turns _ hnone, hturns, Nat.mod_add_mod]
          · have hne : some other ≠ some application := fun heq => hother (Option.some.inj heq).symm
            rw [if_neg hother, if_neg fun htakes => hne htakes.1]
            exact hturns
  | evict other =>
      show ((resolver.evict other).rotation application).turns = _
      rw [rotation_evict, Call.count]
      by_cases hother : application = other
      · rw [if_pos hother, if_pos hother.symm, Nat.zero_mod]
      · rw [if_neg hother, if_neg (Ne.symm hother)]
        exact hturns

theorem turns_run {resolver : Resolver} {application : String} {turns : Nat}
    (hturns : (resolver.rotation application).turns = turns % Rotation.turnLimit) (calls : List Call) :
    ((resolver.run calls).rotation application).turns =
      calls.foldl (Call.count resolver.scheme application) turns % Rotation.turnLimit := by
  induction calls generalizing resolver turns with
  | nil => exact hturns
  | cons call calls ih =>
      have hrest := ih (turns_call hturns call)
      rw [scheme_call] at hrest
      exact hrest

/-- The turns of an application start anew when they are forgotten. -/
theorem turns_run_evict (resolver : Resolver) (application : String) (calls : List Call) :
    (((resolver.evict application).run calls).rotation application).turns =
      taken resolver.scheme application calls % Rotation.turnLimit := by
  refine turns_run ?_ calls
  rw [rotation_evict, if_pos rfl, Nat.zero_mod]

theorem taken_eq_zero {scheme application : String} {calls : List Call}
    (hnone : ∀ uri instances, .resolve uri instances ∈ calls →
      applicationOf? scheme uri ≠ some application) : taken scheme application calls = 0 := by
  unfold taken
  induction calls with
  | nil => rfl
  | cons call calls ih =>
      have hcall : call.count scheme application 0 = 0 := by
        cases call with
        | resolve uri instances =>
            exact if_neg fun htakes => hnone uri instances (.head calls) htakes.1
        | evict other => exact ite_self 0
      rw [List.foldl_cons, hcall]
      exact ih fun uri instances hlater => hnone uri instances (.tail call hlater)

theorem next_item (resolver : Resolver) (application : String) (instances : List String) :
    (resolver.next application instances).2 =
      instances[(resolver.rotation application).turns % instances.length]? :=
  Rotation.select_item _ instances

end Resolver

end ApiGateway
