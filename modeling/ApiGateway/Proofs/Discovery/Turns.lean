import ApiGateway.Discovery.Collector
import Mathlib.Data.List.Nodup

/-!
# Turns of finding and losing

Whatever is told as found or lost, an application or an endpoint, is found first and lost before it is
found again.
-/

namespace ApiGateway.Discovery

/-- Marks of finding (true) and of losing (false) that take turns.  They lead from being there or not
before them to being there or not after them; what is not there is found first. -/
def InTurn : Bool → List Bool → Bool → Prop
  | before, [], after => before = after
  | before, mark :: marks, after => mark = !before ∧ InTurn mark marks after

namespace InTurn

theorem append {before between after : Bool} {marks more : List Bool}
    (hfirst : InTurn before marks between) (hnext : InTurn between more after) :
    InTurn before (marks ++ more) after := by
  induction marks generalizing before with
  | nil =>
      cases hfirst
      exact hnext
  | cons mark marks ih => exact ⟨hfirst.1, ih hfirst.2⟩

/-- One of several distinct items takes at most one turn with them. -/
theorem ofNodup {α : Type} [DecidableEq α] {items : List α} {item : α} {before mark : Bool}
    (hdistinct : items.Nodup) (hturn : item ∈ items → mark = !before) :
    InTurn before ((items.filter (· == item)).map fun _ => mark)
      (if item ∈ items then mark else before) := by
  induction items with
  | nil => exact rfl
  | cons first rest ih =>
      obtain ⟨hnew, hrest⟩ := List.nodup_cons.mp hdistinct
      by_cases hfirst : first = item
      · subst hfirst
        have hnone : rest.filter (· == first) = [] := by
          refine List.filter_eq_nil_iff.mpr fun other hother hsame => hnew ?_
          rwa [← beq_iff_eq.mp hsame]
        simpa [hnone, InTurn] using hturn (.head rest)
      · have hlater := ih hrest fun hmem => hturn (.tail first hmem)
        simpa [hfirst, Ne.symm hfirst] using hlater

end InTurn

/-- What is told of items by their keys: the turns of one key are those of the items that have it. -/
theorem turns_map {α κ ε : Type} [DecidableEq κ] (keyOf : α → κ) (tell : α → ε)
    (turn? : ε → Option Bool) {key : κ} {mark : Bool}
    (htell : ∀ item, turn? (tell item) = if keyOf item = key then some mark else none)
    (items : List α) :
    (items.map tell).filterMap turn? = ((items.map keyOf).filter (· == key)).map fun _ => mark := by
  induction items with
  | nil => rfl
  | cons first rest ih =>
      by_cases hfirst : keyOf first = key
      · simpa [htell, hfirst] using ih
      · simpa [htell, hfirst] using ih

/-- Whether an event finds or loses the application of a name, if it does one of them. -/
def Event.turn? (name : String) : Event → Option Bool
  | .found application => if application.name = name then some true else none
  | .lost application => if application.name = name then some false else none
  | .refreshed _ => none

def EndpointEvent.turn? (key : EndpointKey) : EndpointEvent → Option Bool
  | .found endpoint => if endpoint.key = key then some true else none
  | .lost other => if other = key then some false else none

end ApiGateway.Discovery
