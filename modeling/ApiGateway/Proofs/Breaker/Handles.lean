import ApiGateway.Breaker.Registry
import ApiGateway.Proofs.Breaker.History
import ApiGateway.Proofs.Named

/-!
# Breakers in use

Requests get breakers by name and call the ones that they have got, also after the name has been
forgotten.  What there is under one name (the current breaker, and who holds it) goes by the uses since
the name was last forgotten, and by nothing that was done before or under other names.
-/

namespace ApiGateway.Breaker

/-! ## Names -/

theorem lookup_enter {name : String} (number : Nat) {current : List (String × Nat)}
    (habsent : current.lookup name = none) (other : String) :
    (Registry.enter name number current).lookup other =
      if other = name then some number else current.lookup other := by
  induction current with
  | nil => exact lookup_cons_eq_ite [] name number other
  | cons entry rest ih =>
      obtain ⟨first, known⟩ := entry
      rw [lookup_cons_eq_ite] at habsent
      split at habsent
      · cases habsent
      · next hname =>
        unfold Registry.enter
        split
        · rw [lookup_cons_eq_ite]
        · rw [lookup_cons_eq_ite, lookup_cons_eq_ite, ih habsent]
          by_cases hother : other = first
          · rw [if_pos hother, if_neg (hother ▸ Ne.symm hname), if_pos hother]
          · rw [if_neg hother, if_neg hother]

namespace Registry

def breaker? (registry : Registry) (name : String) : Option Breaker :=
  (registry.current.lookup name).bind registry.get?

def fresh (settings : Settings.Breaker) (name : String) : Breaker where
  name := name
  settings := settings

/-- The current number of a name is that of a breaker that was made for it. -/
def Named (registry : Registry) : Prop :=
  ∀ name number, registry.current.lookup name = some number →
    ∃ breaker, registry.get? number = some breaker ∧ breaker.name = name

variable {registry : Registry}

theorem Named.lt_length (hnamed : registry.Named) {name : String} {number : Nat}
    (hcurrent : registry.current.lookup name = some number) : number < registry.made.length := by
  obtain ⟨breaker, hmade, -⟩ := hnamed name number hcurrent
  exact (List.getElem?_eq_some_iff.mp hmade).1

/-- Two names have no number in common. -/
theorem Named.name_eq (hnamed : registry.Named) {name other : String} {number : Nat}
    (hcurrent : registry.current.lookup name = some number)
    (hother : registry.current.lookup other = some number) : other = name := by
  obtain ⟨breaker, hmade, hname⟩ := hnamed name number hcurrent
  obtain ⟨same, hsame, hotherName⟩ := hnamed other number hother
  cases hmade.symm.trans hsame
  exact hotherName.symm.trans hname

theorem act_settings (number now : Nat) (action : Action) :
    (registry.act number now action).1.settings = registry.settings := by
  unfold act
  split <;> rfl

theorem act_current (number now : Nat) (action : Action) :
    (registry.act number now action).1.current = registry.current := by
  unfold act
  split <;> rfl

theorem act_length (number now : Nat) (action : Action) :
    (registry.act number now action).1.made.length = registry.made.length := by
  unfold act
  split
  · rfl
  · exact List.length_set

/-- An action changes the breaker of its number and no other. -/
theorem get?_act (number now : Nat) (action : Action) (other : Nat) :
    (registry.act number now action).1.get? other =
      if number = other then (registry.get? other).map fun breaker => (breaker.act now action).1
      else registry.get? other := by
  unfold act get?
  split
  · next hmade =>
    dsimp only
    split
    · next hsame => rw [← hsame, hmade, Option.map_none]
    · rfl
  · next breaker hmade =>
    obtain ⟨hlength, hget⟩ := List.getElem?_eq_some_iff.mp hmade
    by_cases hsame : number = other
    · subst hsame
      simp [hlength, hget]
    · simp [hsame]

theorem get?_act_self {number : Nat} {breaker : Breaker} (hmade : registry.get? number = some breaker)
    (now : Nat) (action : Action) :
    (registry.act number now action).1.get? number = some (breaker.act now action).1 := by
  rw [get?_act, if_pos rfl, hmade, Option.map_some]

theorem get?_act_other {number other : Nat} (hother : other ≠ number) (now : Nat) (action : Action) :
    (registry.act number now action).1.get? other = registry.get? other := by
  rw [get?_act, if_neg hother.symm]

/-- A new breaker is the current one of its name and of no other. -/
theorem Named.made (hnamed : registry.Named) {name : String}
    (habsent : registry.current.lookup name = none) :
    Named { registry with
      made := registry.made ++ [fresh registry.settings name]
      current := enter name registry.made.length registry.current } := by
  intro other number hcurrent
  dsimp only at hcurrent
  rw [lookup_enter _ habsent] at hcurrent
  split at hcurrent
  · next hother =>
    cases hcurrent
    exact ⟨_, List.getElem?_concat_length, hother.symm⟩
  · obtain ⟨breaker, hmade, hname⟩ := hnamed other number hcurrent
    have hlength := (List.getElem?_eq_some_iff.mp hmade).1
    exact ⟨breaker, (List.getElem?_append_left hlength).trans hmade, hname⟩

theorem Named.act (hnamed : registry.Named) (number now : Nat) (action : Action) :
    (registry.act number now action).1.Named := by
  intro other known hcurrent
  rw [act_current] at hcurrent
  obtain ⟨breaker, hmade, hname⟩ := hnamed other known hcurrent
  rw [get?_act, hmade]
  split
  · exact ⟨_, rfl, (acts_act breaker now action).name.trans hname⟩
  · exact ⟨breaker, rfl, hname⟩

theorem Named.forgotten (hnamed : registry.Named) (name : String) :
    Named { registry with current := registry.current.filter (·.1 != name) } := by
  intro other number hcurrent
  dsimp only at hcurrent
  rw [lookup_filter_ne] at hcurrent
  split at hcurrent
  · cases hcurrent
  · exact hnamed other number hcurrent

end Registry

/-! ## Requests -/

inductive Use where
  /-- A request gets the breaker of a name, in place of any that it had. -/
  | hold (request : Nat) (name : String)
  /-- A request calls the breaker that it has got. -/
  | act (request now : Nat) (action : Action)
  | forget (name : String)
  deriving DecidableEq, Repr

/-- Breakers by name, and the numbers of those that requests have got. -/
structure Handles where
  registry : Registry := {}
  held : Nat → Option Nat := fun _ => none

namespace Handles

def give (handles : Handles) (request number : Nat) : Nat → Option Nat :=
  fun other => if other = request then some number else handles.held other

def step (handles : Handles) : Use → Handles
  | .hold request name =>
      { registry := (handles.registry.getOrCreate name).1
        held := handles.give request (handles.registry.getOrCreate name).2 }
  | .act request now action =>
      match handles.held request with
      | some number => { handles with registry := (handles.registry.act number now action).1 }
      | none => handles
  | .forget name => { handles with registry := (handles.registry.remove name).1 }

def run (handles : Handles) (uses : List Use) : Handles :=
  uses.foldl step handles

theorem run_nil (handles : Handles) : handles.run [] = handles := rfl

theorem run_cons (handles : Handles) (use : Use) (uses : List Use) :
    handles.run (use :: uses) = (handles.step use).run uses := rfl

/-! ## What a use does -/

/-- What a use makes of the handles.  A name that has a breaker keeps it, and one without gets a new one
under a new number. -/
inductive Does (handles : Handles) : Use → Handles → Prop where
  | known {request number : Nat} {name : String}
      (hcurrent : handles.registry.current.lookup name = some number) :
      Does handles (.hold request name) { handles with held := handles.give request number }
  | made {request : Nat} {name : String} (habsent : handles.registry.current.lookup name = none) :
      Does handles (.hold request name)
        { registry := {
            handles.registry with
            made := handles.registry.made ++ [Registry.fresh handles.registry.settings name]
            current := Registry.enter name handles.registry.made.length handles.registry.current }
          held := handles.give request handles.registry.made.length }
  | called {request number now : Nat} {action : Action} (hheld : handles.held request = some number) :
      Does handles (.act request now action)
        { handles with registry := (handles.registry.act number now action).1 }
  | idle {request now : Nat} {action : Action} (hheld : handles.held request = none) :
      Does handles (.act request now action) handles
  | forgot {name : String} :
      Does handles (.forget name)
        { handles with
          registry := { handles.registry with
            current := handles.registry.current.filter (·.1 != name) } }

theorem does_step (handles : Handles) (use : Use) : Does handles use (handles.step use) := by
  cases use with
  | hold request name =>
      cases hcurrent : handles.registry.current.lookup name with
      | some number =>
          have hgets : handles.registry.getOrCreate name = (handles.registry, number) := by
            simp only [Registry.getOrCreate, hcurrent]
          simpa only [step, hgets] using Does.known hcurrent
      | none => simpa only [step, Registry.getOrCreate, hcurrent, Registry.fresh] using Does.made hcurrent
  | act request now action =>
      cases hheld : handles.held request with
      | some number => simpa only [step, hheld] using Does.called hheld
      | none => simpa only [step, hheld] using Does.idle hheld
  | forget name => exact .forgot

variable {handles after : Handles} {use : Use}

theorem Does.settings (hdoes : Does handles use after) :
    after.registry.settings = handles.registry.settings := by
  cases hdoes with
  | known | made | idle | forgot => rfl
  | called => exact Registry.act_settings ..

/-- Current numbers are those of breakers of their names, and requests hold breakers that were made. -/
structure IsSound (handles : Handles) : Prop where
  named : handles.registry.Named
  held_lt : ∀ request number, handles.held request = some number →
    number < handles.registry.made.length

theorem isSound_start (settings : Settings.Breaker) : IsSound { registry := { settings } } where
  named := fun _ _ hcurrent => by cases hcurrent
  held_lt := fun _ _ hheld => by cases hheld

theorem IsSound.give_lt (hsound : handles.IsSound) {number limit : Nat}
    (hnumber : number < limit) (hlimit : handles.registry.made.length ≤ limit) (request : Nat) :
    ∀ other known, handles.give request number other = some known → known < limit := by
  intro other known hheld
  unfold give at hheld
  split at hheld
  · cases hheld
    exact hnumber
  · exact Nat.lt_of_lt_of_le (hsound.held_lt other known hheld) hlimit

theorem Does.isSound (hdoes : Does handles use after) (hsound : handles.IsSound) : after.IsSound := by
  cases hdoes with
  | known hcurrent =>
      exact ⟨hsound.named, hsound.give_lt (hsound.named.lt_length hcurrent) (Nat.le_refl _) _⟩
  | @made request name habsent =>
      have hlength : handles.registry.made.length <
          (handles.registry.made ++ [Registry.fresh handles.registry.settings name]).length := by
        simp
      exact ⟨hsound.named.made habsent, hsound.give_lt hlength (Nat.le_of_lt hlength) request⟩
  | @called request number now action hheld =>
      refine ⟨hsound.named.act number now action, ?_⟩
      rw [Registry.act_length]
      exact hsound.held_lt
  | idle => exact hsound
  | @forgot name => exact ⟨hsound.named.forgotten name, hsound.held_lt⟩

theorem IsSound.run (hsound : handles.IsSound) (uses : List Use) : (handles.run uses).IsSound := by
  induction uses generalizing handles with
  | nil => exact hsound
  | cons use uses ih => exact ih ((handles.does_step use).isSound hsound)

theorem settings_run (handles : Handles) (uses : List Use) :
    (handles.run uses).registry.settings = handles.registry.settings := by
  induction uses generalizing handles with
  | nil => rfl
  | cons use uses ih => exact (ih (handles.step use)).trans (handles.does_step use).settings

end Handles

/-! ## One name -/

/-- The current breaker of a name and the requests that have got it. -/
structure Guard where
  breaker : Option Breaker := none
  holds : Nat → Bool := fun _ => false

namespace Guard

def step (settings : Settings.Breaker) (name : String) (guard : Guard) : Use → Guard
  | .hold request other =>
      if other = name then
        { breaker := some (guard.breaker.getD (Registry.fresh settings name))
          holds := fun known => known == request || guard.holds known }
      else { guard with holds := fun known => known != request && guard.holds known }
  | .act request now action =>
      if guard.holds request then
        { guard with breaker := guard.breaker.map fun breaker => (breaker.act now action).1 }
      else guard
  | .forget other => if other = name then {} else guard

def run (settings : Settings.Breaker) (name : String) (guard : Guard) (uses : List Use) : Guard :=
  uses.foldl (step settings name) guard

theorem run_append (settings : Settings.Breaker) (name : String) (guard : Guard)
    (earlier later : List Use) :
    guard.run settings name (earlier ++ later) =
      (guard.run settings name earlier).run settings name later :=
  List.foldl_append

end Guard

namespace Handles

def guard (handles : Handles) (name : String) : Guard where
  breaker := handles.registry.breaker? name
  holds := fun request =>
    (handles.registry.current.lookup name).any fun number => handles.held request == some number

theorem guard_of_absent {handles : Handles} {name : String}
    (habsent : handles.registry.current.lookup name = none) : handles.guard name = {} := by
  unfold guard Registry.breaker?
  rw [habsent]
  rfl

theorem guard_of_current {handles : Handles} {name : String} {number : Nat}
    (hcurrent : handles.registry.current.lookup name = some number) :
    handles.guard name =
      { breaker := handles.registry.get? number
        holds := fun request => handles.held request == some number } := by
  unfold guard Registry.breaker?
  rw [hcurrent]
  rfl

variable {handles after : Handles} {use : Use}

theorem give_beq (handles : Handles) (request number known other : Nat) :
    (handles.give request number known == some other) =
      if known = request then number == other else handles.held known == some other := by
  unfold give
  split <;> rfl

/-- A request that gets the breaker of another name lets go of this one. -/
theorem guard_give_of_ne {name : String} {request number : Nat} {registry : Registry}
    (hcurrent : registry.current.lookup name = handles.registry.current.lookup name)
    (hkept : ∀ known, handles.registry.current.lookup name = some known →
      registry.get? known = handles.registry.get? known ∧ number ≠ known) :
    Handles.guard { registry, held := handles.give request number } name =
      { handles.guard name with
        holds := fun known => known != request && (handles.guard name).holds known } := by
  cases hname : handles.registry.current.lookup name with
  | none =>
      rw [guard_of_absent hname, guard_of_absent (hcurrent.trans hname)]
      simp only [Bool.and_false]
  | some own =>
      obtain ⟨hget, hne⟩ := hkept own hname
      rw [guard_of_current hname, guard_of_current (hcurrent.trans hname)]
      dsimp only
      rw [hget]
      refine congrArg (Guard.mk _) (funext fun known => ?_)
      rw [give_beq]
      by_cases hknown : known = request
      · simp [hknown, hne]
      · simp [hknown]

/-- A request that gets the breaker of this name is among those that hold it. -/
theorem guard_give_self {name : String} {request number : Nat} {registry : Registry} {breaker : Breaker}
    (hcurrent : registry.current.lookup name = some number) (hget : registry.get? number = some breaker)
    (hheld : ∀ known, (handles.held known == some number) = (handles.guard name).holds known) :
    Handles.guard { registry, held := handles.give request number } name =
      { breaker := some breaker
        holds := fun known => known == request || (handles.guard name).holds known } := by
  rw [guard_of_current hcurrent]
  dsimp only
  rw [hget]
  refine congrArg (Guard.mk _) (funext fun known => ?_)
  rw [give_beq, hheld]
  by_cases hknown : known = request
  · simp [hknown]
  · simp [hknown]

/-- What there is under a name after a use goes by what there was before, and by nothing else. -/
theorem Does.guard (hdoes : Does handles use after) (hsound : handles.IsSound) (name : String) :
    after.guard name = (handles.guard name).step handles.registry.settings name use := by
  cases hdoes with
  | @known request number other hcurrent =>
      dsimp only [Guard.step]
      split
      · next hother =>
        subst hother
        obtain ⟨breaker, hmade, -⟩ := hsound.named other number hcurrent
        rw [guard_give_self hcurrent hmade fun known => by rw [guard_of_current hcurrent],
          guard_of_current hcurrent, hmade]
        rfl
      · next hother =>
        refine guard_give_of_ne rfl fun known hname => ⟨rfl, ?_⟩
        rintro rfl
        exact hother (hsound.named.name_eq hname hcurrent)
  | @made request other habsent =>
      have hcurrent := lookup_enter handles.registry.made.length habsent name
      dsimp only [Guard.step]
      split
      · next hother =>
        subst hother
        have hunheld : ∀ known,
            (handles.held known == some handles.registry.made.length) = (handles.guard other).holds known := by
          intro known
          rw [guard_of_absent habsent, beq_eq_false_iff_ne]
          exact fun hheld => Nat.lt_irrefl _ (hsound.held_lt known _ hheld)
        rw [if_pos rfl] at hcurrent
        rw [guard_give_self hcurrent List.getElem?_concat_length hunheld, guard_of_absent habsent]
        rfl
      · next hother =>
        rw [if_neg (Ne.symm hother)] at hcurrent
        refine guard_give_of_ne hcurrent fun known hname => ?_
        have hlength := hsound.named.lt_length hname
        exact ⟨List.getElem?_append_left hlength, (Nat.ne_of_lt hlength).symm⟩
  | @called request number now action hheld =>
      cases hname : handles.registry.current.lookup name with
      | none =>
          have hafter : (handles.registry.act number now action).1.current.lookup name = none := by
            rw [Registry.act_current, hname]
          rw [guard_of_absent hname, guard_of_absent hafter]
          rfl
      | some own =>
          have hafter : (handles.registry.act number now action).1.current.lookup name = some own := by
            rw [Registry.act_current, hname]
          rw [guard_of_current hname, guard_of_current hafter]
          by_cases hown : number = own
          · simp [Guard.step, hheld, Registry.get?_act, hown]
          · simp [Guard.step, hheld, Registry.get?_act, hown]
  | @idle request now action hheld =>
      have hnot : (handles.guard name).holds request = false := by
        cases hname : handles.registry.current.lookup name with
        | none => rw [guard_of_absent hname]
        | some own => simp [guard_of_current hname, hheld]
      dsimp only [Guard.step]
      rw [hnot]
      rfl
  | @forgot other =>
      have hcurrent := lookup_filter_ne handles.registry.current other name
      dsimp only [Guard.step]
      split
      · next hother =>
        rw [if_pos hother.symm] at hcurrent
        exact guard_of_absent hcurrent
      · next hother =>
        rw [if_neg (Ne.symm hother)] at hcurrent
        unfold Handles.guard Registry.breaker?
        rw [hcurrent]
        rfl

/-- What there is under a name goes by the uses, whatever there is under other names. -/
theorem IsSound.guard_run (hsound : handles.IsSound) (name : String) (uses : List Use) :
    (handles.run uses).guard name = (handles.guard name).run handles.registry.settings name uses := by
  induction uses generalizing handles with
  | nil => rfl
  | cons use uses ih =>
      have hdoes := handles.does_step use
      rw [run_cons, ih (hdoes.isSound hsound), hdoes.guard hsound, hdoes.settings]
      rfl

/-- A name starts anew when it is forgotten: whatever was done before, and whoever still holds a breaker of
it, what there is under it goes by the uses since. -/
theorem IsSound.guard_run_forget (hsound : handles.IsSound) (name : String) (uses : List Use) :
    ((handles.step (.forget name)).run uses).guard name =
      Guard.run handles.registry.settings name {} uses := by
  have hdoes := handles.does_step (.forget name)
  rw [(hdoes.isSound hsound).guard_run, hdoes.guard hsound, hdoes.settings, Guard.step, if_pos rfl]

end Handles

/-- Nothing is under a name until a request gets a breaker of it. -/
theorem Guard.run_of_not_hold (settings : Settings.Breaker) {name : String} {uses : List Use}
    (hnone : ∀ request, .hold request name ∉ uses) : Guard.run settings name {} uses = {} := by
  induction uses with
  | nil => rfl
  | cons use uses ih =>
      have hstep : Guard.step settings name {} use = {} := by
        cases use with
        | hold request other =>
            have hother : other ≠ name := by
              rintro rfl
              exact hnone request (.head uses)
            simp [Guard.step, hother]
        | act request now action => rfl
        | forget other => simp [Guard.step]
      rw [Guard.run, List.foldl_cons, hstep]
      exact ih fun request hlater => hnone request (.tail use hlater)

end ApiGateway.Breaker
