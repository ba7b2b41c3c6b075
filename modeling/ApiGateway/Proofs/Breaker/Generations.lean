import ApiGateway.Proofs.Breaker.Handles
import Mathlib.Data.List.DropRight

/-!
# Generations of breakers

A name keeps its breaker until it is removed, and gets a new one when it is next asked for.  Old breakers
can be called as long as anyone knows their numbers, which changes them and nothing else: what there is
under a name does not depend on calls of breakers of other names or of earlier generations.
-/

namespace ApiGateway.Breaker.Registry

/-- What is done with a registry.  Breakers are called by the numbers under which they were made. -/
inductive Move where
  | get (name : String)
  | remove (name : String)
  | call (number now : Nat) (action : Action)
  deriving DecidableEq, Repr

def step (registry : Registry) : Move → Registry
  | .get name => (registry.getOrCreate name).1
  | .remove name => (registry.remove name).1
  | .call number now action => (registry.act number now action).1

def run (registry : Registry) (moves : List Move) : Registry :=
  moves.foldl step registry

def sinceRemoved (name : String) (moves : List Move) : List Move :=
  moves.rtakeWhile (· != .remove name)

theorem run_cons (registry : Registry) (move : Move) (moves : List Move) :
    registry.run (move :: moves) = (registry.step move).run moves := rfl

theorem run_append (registry : Registry) (earlier later : List Move) :
    registry.run (earlier ++ later) = (registry.run earlier).run later :=
  List.foldl_append

theorem run_concat (registry : Registry) (moves : List Move) (move : Move) :
    registry.run (moves ++ [move]) = (registry.run moves).step move :=
  List.foldl_append

/-! ## What a move does -/

variable {registry : Registry} {name : String} {number : Nat}

theorem getOrCreate_of_current (hcurrent : registry.current.lookup name = some number) :
    registry.getOrCreate name = (registry, number) := by
  simp only [getOrCreate, hcurrent]

theorem getOrCreate_of_absent (habsent : registry.current.lookup name = none) :
    registry.getOrCreate name =
      ({ registry with
          made := registry.made ++ [fresh registry.settings name]
          current := enter name registry.made.length registry.current }, registry.made.length) := by
  simp only [getOrCreate, habsent, fresh]

/-- A name that is asked for gets a breaker. -/
theorem Named.exists_breaker (hnamed : registry.Named) {given : Registry}
    (hgiven : registry.getOrCreate name = (given, number)) : ∃ breaker, given.get? number = some breaker := by
  cases hcurrent : registry.current.lookup name with
  | some known =>
      cases hgiven.symm.trans (getOrCreate_of_current hcurrent)
      obtain ⟨breaker, hmade, -⟩ := hnamed name number hcurrent
      exact ⟨breaker, hmade⟩
  | none =>
      cases hgiven.symm.trans (getOrCreate_of_absent hcurrent)
      exact ⟨_, List.getElem?_concat_length⟩

inductive Moves (registry : Registry) : Move → Registry → Prop where
  | known {name : String} {number : Nat} (hcurrent : registry.current.lookup name = some number) :
      Moves registry (.get name) registry
  | made {name : String} (habsent : registry.current.lookup name = none) :
      Moves registry (.get name) { registry with
        made := registry.made ++ [fresh registry.settings name]
        current := enter name registry.made.length registry.current }
  | removed {name : String} :
      Moves registry (.remove name) { registry with current := registry.current.filter (·.1 != name) }
  | called {number now : Nat} {action : Action} :
      Moves registry (.call number now action) (registry.act number now action).1

theorem moves_step (registry : Registry) (move : Move) : Moves registry move (registry.step move) := by
  cases move with
  | get name =>
      cases hcurrent : registry.current.lookup name with
      | some number => simpa only [step, getOrCreate_of_current hcurrent] using Moves.known hcurrent
      | none => simpa only [step, getOrCreate_of_absent hcurrent] using Moves.made hcurrent
  | remove name => exact .removed
  | call number now action => exact .called

variable {move : Move} {after : Registry}

theorem Moves.length_le (hmoves : Moves registry move after) :
    registry.made.length ≤ after.made.length := by
  cases hmoves with
  | known | removed => exact Nat.le_refl _
  | made => rw [List.length_append]; exact Nat.le_add_right ..
  | called => exact Nat.le_of_eq (act_length ..).symm

theorem Moves.settings (hmoves : Moves registry move after) : after.settings = registry.settings := by
  cases hmoves with
  | known | made | removed => rfl
  | called => exact act_settings ..

/-- A name keeps its breaker unless it is removed. -/
theorem Moves.lookup_eq_some (hmoves : Moves registry move after)
    (hcurrent : registry.current.lookup name = some number) (hkept : move ≠ .remove name) :
    after.current.lookup name = some number := by
  cases hmoves with
  | known => exact hcurrent
  | @made other habsent =>
      dsimp only
      rw [lookup_enter _ habsent, if_neg]
      · exact hcurrent
      · rintro rfl
        cases hcurrent.symm.trans habsent
  | @removed other =>
      dsimp only
      rw [lookup_filter_ne, if_neg]
      · exact hcurrent
      · rintro rfl
        exact hkept rfl
  | called => rwa [act_current]

/-- A name without a breaker stays without one unless it is asked for. -/
theorem Moves.lookup_eq_none (hmoves : Moves registry move after)
    (habsent : registry.current.lookup name = none) (hunasked : move ≠ .get name) :
    after.current.lookup name = none := by
  cases hmoves with
  | known => exact habsent
  | @made other hother =>
      dsimp only
      rw [lookup_enter _ hother, if_neg]
      · exact habsent
      · rintro rfl
        exact hunasked rfl
  | @removed other =>
      dsimp only
      rw [lookup_filter_ne, habsent, ite_self]
  | called => rwa [act_current]

/-- A number that was given to another name, or before a removal, is not given to a name again. -/
theorem Moves.lookup_ne (hmoves : Moves registry move after) (hmade : number < registry.made.length)
    (hother : registry.current.lookup name ≠ some number) : after.current.lookup name ≠ some number := by
  cases hmoves with
  | known => exact hother
  | @made given habsent =>
      dsimp only
      rw [lookup_enter _ habsent]
      split
      · intro hsame
        cases hsame
        exact Nat.lt_irrefl _ hmade
      · exact hother
  | @removed given =>
      dsimp only
      rw [lookup_filter_ne]
      split
      · exact fun hsame => by cases hsame
      · exact hother
  | called => rwa [act_current]

/-! ## Names in order -/

theorem mem_names_enter {name other : String} {number : Nat} {current : List (String × Nat)} :
    other ∈ (enter name number current).map Prod.fst ↔ other = name ∨ other ∈ current.map Prod.fst := by
  induction current with
  | nil => simp [enter]
  | cons entry rest ih =>
      rw [enter]
      split
      · simp
      · rw [List.map_cons, List.mem_cons, ih, List.map_cons, List.mem_cons]
        tauto

theorem sorted_enter {name : String} (number : Nat) {current : List (String × Nat)}
    (habsent : current.lookup name = none) (hsorted : (current.map Prod.fst).Pairwise (· < ·)) :
    ((enter name number current).map Prod.fst).Pairwise (· < ·) := by
  induction current with
  | nil => simp [enter]
  | cons entry rest ih =>
      obtain ⟨first, known⟩ := entry
      rw [lookup_cons_eq_ite] at habsent
      split at habsent
      · cases habsent
      · next hne =>
        obtain ⟨hbelow, hrest⟩ := List.pairwise_cons.mp hsorted
        rw [enter]
        split
        · next hless =>
          refine List.pairwise_cons.mpr ⟨fun other hother => ?_, hsorted⟩
          rcases List.mem_cons.mp hother with rfl | hlater
          · exact hless
          · exact String.lt_trans hless (hbelow other hlater)
        · next hnot =>
          refine List.pairwise_cons.mpr ⟨fun other hother => ?_, ih habsent hrest⟩
          rcases mem_names_enter.mp hother with rfl | hlater
          · rcases Std.lt_trichotomy other first with hless | heq | hmore
            · exact absurd hless hnot
            · exact absurd heq hne
            · exact hmore
          · exact hbelow other hlater

/-- Names stand in order, each with a breaker of its own. -/
structure IsOrdered (registry : Registry) : Prop where
  named : registry.Named
  sorted : (registry.current.map Prod.fst).Pairwise (· < ·)

theorem isOrdered_empty (settings : Settings.Breaker) : IsOrdered { settings } where
  named := fun _ _ hcurrent => by cases hcurrent
  sorted := .nil

theorem IsOrdered.step (hordered : registry.IsOrdered) (move : Move) : (registry.step move).IsOrdered := by
  have hmoves := registry.moves_step move
  generalize registry.step move = after at hmoves
  cases hmoves with
  | known => exact hordered
  | made habsent => exact ⟨hordered.named.made habsent, sorted_enter _ habsent hordered.sorted⟩
  | removed =>
      exact ⟨hordered.named.forgotten _,
        hordered.sorted.sublist ((List.filter_sublist (p := (·.1 != _))).map Prod.fst)⟩
  | called =>
      refine ⟨hordered.named.act _ _ _, ?_⟩
      rw [act_current]
      exact hordered.sorted

theorem IsOrdered.run (hordered : registry.IsOrdered) (moves : List Move) :
    (registry.run moves).IsOrdered := by
  induction moves generalizing registry with
  | nil => exact hordered
  | cons move moves ih => exact ih (hordered.step move)

theorem settings_run (registry : Registry) (moves : List Move) :
    (registry.run moves).settings = registry.settings := by
  induction moves generalizing registry with
  | nil => rfl
  | cons move moves ih => exact (ih (registry.step move)).trans (registry.moves_step move).settings

/-! ## The breaker that a name gets -/

theorem lookup_step_get (registry : Registry) (name : String) :
    (registry.step (.get name)).current.lookup name = some (registry.getOrCreate name).2 := by
  cases hcurrent : registry.current.lookup name with
  | some number => rw [step, getOrCreate_of_current hcurrent, hcurrent]
  | none =>
      rw [step, getOrCreate_of_absent hcurrent]
      exact (lookup_enter _ hcurrent name).trans (if_pos rfl)

theorem lookup_run_eq_some {moves : List Move} (hcurrent : registry.current.lookup name = some number)
    (hkept : .remove name ∉ moves) : (registry.run moves).current.lookup name = some number := by
  induction moves generalizing registry with
  | nil => exact hcurrent
  | cons move moves ih =>
      have hmove : move ≠ .remove name := fun heq => hkept (heq ▸ .head moves)
      exact ih ((registry.moves_step move).lookup_eq_some hcurrent hmove) fun hlater =>
        hkept (.tail move hlater)

theorem lookup_run_ne (hmade : number < registry.made.length)
    (hother : registry.current.lookup name ≠ some number) (moves : List Move) :
    (registry.run moves).current.lookup name ≠ some number := by
  induction moves generalizing registry with
  | nil => exact hother
  | cons move moves ih =>
      have hmoves := registry.moves_step move
      exact ih (Nat.lt_of_lt_of_le hmade hmoves.length_le) (hmoves.lookup_ne hmade hother)

theorem length_le_run (registry : Registry) (moves : List Move) :
    registry.made.length ≤ (registry.run moves).made.length := by
  induction moves generalizing registry with
  | nil => exact Nat.le_refl _
  | cons move moves ih => exact Nat.le_trans (registry.moves_step move).length_le (ih _)

theorem lookup_eq_none_of_unasked (settings : Settings.Breaker) {moves : List Move}
    (hunasked : .get name ∉ sinceRemoved name moves) :
    (run { settings } moves).current.lookup name = none := by
  induction moves using List.reverseRecOn with
  | nil => rfl
  | append_singleton moves move ih =>
      rw [run_concat]
      by_cases hremove : move = .remove name
      · subst hremove
        exact (lookup_filter_ne _ name name).trans (if_pos rfl)
      · rw [sinceRemoved, List.rtakeWhile_concat_pos _ _ _ (by simpa using hremove)] at hunasked
        refine (moves_step _ move).lookup_eq_none (ih fun hearlier => ?_) fun hget => ?_
        · exact hunasked (List.mem_append_left _ hearlier)
        · exact hunasked (List.mem_append_right _ (List.mem_singleton.mpr hget.symm))

/-! ## Calls and all else -/

/-- Two registries differ at most in the breaker of one number. -/
structure AgreeOff (number : Nat) (left right : Registry) : Prop where
  settings : left.settings = right.settings
  current : left.current = right.current
  length : left.made.length = right.made.length
  get? : ∀ other, other ≠ number → left.get? other = right.get? other

theorem agreeOff_act (registry : Registry) (number now : Nat) (action : Action) :
    AgreeOff number (registry.act number now action).1 registry where
  settings := act_settings ..
  current := act_current ..
  length := act_length ..
  get? := fun _ hother => get?_act_other hother now action

theorem AgreeOff.step {left right : Registry} (hagree : AgreeOff number left right) (move : Move) :
    AgreeOff number (left.step move) (right.step move) := by
  cases move with
  | get name =>
      cases hcurrent : right.current.lookup name with
      | some known =>
          have hleft : left.current.lookup name = some known := by rw [hagree.current, hcurrent]
          rw [Registry.step, Registry.step, getOrCreate_of_current hleft, getOrCreate_of_current hcurrent]
          exact hagree
      | none =>
          have hleft : left.current.lookup name = none := by rw [hagree.current, hcurrent]
          rw [Registry.step, Registry.step, getOrCreate_of_absent hleft, getOrCreate_of_absent hcurrent]
          refine ⟨hagree.settings, ?_, ?_, fun other hother => ?_⟩
          · simp only [hagree.current, hagree.length]
          · simp only [List.length_append, hagree.length, List.length_singleton]
          · have hsame := hagree.get? other hother
            simp only [Registry.get?, List.getElem?_append, hagree.length, hagree.settings] at hsame ⊢
            rw [hsame]
  | remove name =>
      refine ⟨hagree.settings, ?_, hagree.length, hagree.get?⟩
      simp only [Registry.step, Registry.remove, hagree.current]
  | call called now action =>
      refine ⟨?_, ?_, ?_, fun other hother => ?_⟩
      · rw [Registry.step, act_settings, Registry.step, act_settings, hagree.settings]
      · rw [Registry.step, act_current, Registry.step, act_current, hagree.current]
      · rw [Registry.step, act_length, Registry.step, act_length, hagree.length]
      · rw [Registry.step, get?_act, Registry.step, get?_act, hagree.get? other hother]

theorem AgreeOff.run {left right : Registry} (hagree : AgreeOff number left right) (moves : List Move) :
    AgreeOff number (left.run moves) (right.run moves) := by
  induction moves generalizing left right with
  | nil => exact hagree
  | cons move moves ih => exact ih (hagree.step move)

theorem AgreeOff.breaker?_eq {left right : Registry} (hagree : AgreeOff number left right)
    (hother : right.current.lookup name ≠ some number) : left.breaker? name = right.breaker? name := by
  rw [breaker?, breaker?, hagree.current]
  cases hcurrent : right.current.lookup name with
  | none => rfl
  | some known => exact hagree.get? known fun hsame => hother (hsame ▸ hcurrent)

/-! ## Open circuits -/

/-- The names whose current breaker is open, each once and in order. -/
theorem IsOrdered.openNames (hordered : registry.IsOrdered) :
    registry.openNames.Pairwise (· < ·) ∧ ∀ name, name ∈ registry.openNames ↔
      ∃ breaker, registry.breaker? name = some breaker ∧ breaker.isOpen = true := by
  have hdistinct := nodup_of_sorted hordered.sorted
  refine ⟨hordered.sorted.sublist (List.filter_sublist.map Prod.fst), fun name => ?_⟩
  simp only [Registry.openNames, List.mem_map, List.mem_filter, Option.any_eq_true]
  constructor
  · rintro ⟨⟨_, number⟩, ⟨hlisted, breaker, hmade, hopen⟩, rfl⟩
    refine ⟨breaker, ?_, hopen⟩
    rw [breaker?, (mem_iff_lookup_eq_some hdistinct).mp hlisted]
    exact hmade
  · rintro ⟨breaker, hcurrent, hopen⟩
    obtain ⟨number, hlookup, hmade⟩ := Option.bind_eq_some_iff.mp hcurrent
    exact ⟨(name, number), ⟨(mem_iff_lookup_eq_some hdistinct).mpr hlookup, breaker, hmade, hopen⟩, rfl⟩

/-! ## All runs -/

/-- A called breaker is not the current one of a name if it is of another name, or was made before the name
was removed. -/
theorem lookup_ne_of_other (settings : Settings.Breaker) {moves : List Move}
    (hother : (∃ breaker, (run { settings } moves).get? number = some breaker ∧ breaker.name ≠ name) ∨
      ∃ earlier between, moves = earlier ++ .remove name :: between ∧
        number < (run { settings } earlier).made.length) :
    number < (run { settings } moves).made.length ∧
      (run { settings } moves).current.lookup name ≠ some number := by
  rcases hother with ⟨breaker, hmade, hname⟩ | ⟨earlier, between, rfl, hearlier⟩
  · refine ⟨(List.getElem?_eq_some_iff.mp hmade).1, fun hcurrent => ?_⟩
    obtain ⟨own, hown, hsame⟩ := ((isOrdered_empty settings).run moves).named name number hcurrent
    cases hmade.symm.trans hown
    exact hname hsame
  · rw [run_append, run_cons]
    have hremoved : ((run { settings } earlier).step (.remove name)).current.lookup name ≠ some number := by
      rw [step, remove, lookup_filter_ne, if_pos rfl]
      exact fun hsame => by cases hsame
    have hmade : number < ((run { settings } earlier).step (.remove name)).made.length := hearlier
    exact ⟨Nat.lt_of_lt_of_le hmade (length_le_run _ between), lookup_run_ne hmade hremoved between⟩

/-- After any moves: a name that is asked for gets the same breaker until it is removed, and one that was
not asked for since gets a new one, which is closed and has counted nothing.  A call changes the breaker
that is called: all names keep their numbers and all other numbers their breakers, so whatever is done
later, a name's breaker is what it would be without the call, if the called one is of another name or was
made before the name was removed.  The open names are those whose current breaker is open, in order. -/
theorem run_generations (settings : Settings.Breaker) (moves : List Move) :
    let registry := run { settings } moves
    (∀ name later, .remove name ∉ later →
      (((registry.step (.get name)).run later).getOrCreate name).2 = (registry.getOrCreate name).2) ∧
    (∀ name, .get name ∉ sinceRemoved name moves →
      (registry.getOrCreate name).2 = registry.made.length ∧
      (registry.step (.get name)).get? registry.made.length = some
        { name, settings, state := .closed 0, tally := ⟨0, 0, 0, 0, 0⟩ }) ∧
    (∀ number now action later,
      let called := (registry.step (.call number now action)).run later
      called.current = (registry.run later).current ∧
      (∀ other, other ≠ number → called.get? other = (registry.run later).get? other) ∧
      ∀ name, ((∃ breaker, registry.get? number = some breaker ∧ breaker.name ≠ name) ∨
          ∃ earlier between, moves = earlier ++ .remove name :: between ∧
            number < (run { settings } earlier).made.length) →
        called.breaker? name = (registry.run later).breaker? name) ∧
    registry.openNames.Pairwise (· < ·) ∧
    ∀ name, name ∈ registry.openNames ↔
      ∃ breaker, registry.breaker? name = some breaker ∧ breaker.isOpen = true := by
  intro registry
  refine ⟨fun name later hkept => ?_, fun name hunasked => ?_, fun number now action later => ?_,
    ((isOrdered_empty settings).run moves).openNames⟩
  · have hcurrent := lookup_run_eq_some (registry.lookup_step_get name) hkept
    rw [getOrCreate_of_current hcurrent]
  · have habsent : registry.current.lookup name = none := lookup_eq_none_of_unasked settings hunasked
    have hsettings : registry.settings = settings := settings_run { settings } moves
    rw [step, getOrCreate_of_absent habsent]
    refine ⟨rfl, List.getElem?_concat_length.trans ?_⟩
    rw [hsettings]
    rfl
  · have hagree := (agreeOff_act registry number now action).run later
    refine ⟨hagree.current, hagree.get?, fun name hother => hagree.breaker?_eq ?_⟩
    obtain ⟨hmade, hcurrent⟩ := lookup_ne_of_other settings hother
    exact lookup_run_ne hmade hcurrent later

/-- A request that got its breaker before the removal reports a failure, and the next breaker of the name
does not hear of it. -/
theorem run_generations_orders :
    let registry := run {} [.get "orders", .get "users", .remove "orders"]
    (((registry.step (.get "orders")).run [.call 0 5 .fail]).getOrCreate "orders").2 =
        (registry.getOrCreate "orders").2 ∧
      (registry.step (.get "orders")).get? 2 = some
        { name := "orders", settings := {}, state := .closed 0, tally := ⟨0, 0, 0, 0, 0⟩ } ∧
      ((registry.step (.call 0 5 .fail)).run [.get "orders"]).breaker? "orders" =
        (registry.run [.get "orders"]).breaker? "orders" ∧
      ((registry.step (.call 1 5 .fail)).run [.get "orders"]).breaker? "orders" =
        (registry.run [.get "orders"]).breaker? "orders" := by
  intro registry
  obtain ⟨hsame, hnew, hcalls, -⟩ := run_generations {} [.get "orders", .get "users", .remove "orders"]
  refine ⟨hsame "orders" _ (by decide), (hnew "orders" (by decide)).2, ?_, ?_⟩
  · exact (hcalls 0 5 .fail [.get "orders"]).2.2 "orders"
      (Or.inr ⟨[.get "orders", .get "users"], [], rfl, by decide⟩)
  · exact (hcalls 1 5 .fail [.get "orders"]).2.2 "orders" (Or.inl ⟨_, rfl, by decide⟩)

end ApiGateway.Breaker.Registry
