import ApiGateway.Hub
import Mathlib.Data.List.Induction
import Mathlib.Data.List.TakeWhile

/-!
# What subscribers receive

Subscriptions, publications, drains and drops come in any order.  What a subscriber has taken out of its
inbox and what still waits there are the events published since its subscription, up to its drop.  Which
events those are, who is dropped and whose drop has been found are read off the acts alone.
-/

namespace ApiGateway.Hub

variable {α : Type}

/-- What is done with a hub.  Subscribers are known by the numbers they were given. -/
inductive Act (α : Type) where
  | subscribe
  | publish (event : α)
  | drain (number : Nat)
  | drop (number : Nat)
  deriving DecidableEq, Repr

namespace Act

def subscribes : Act α → Bool
  | .subscribe => true
  | _ => false

def event? : Act α → Option α
  | .publish event => some event
  | _ => none

def drops (number : Nat) : Act α → Bool
  | .drop other => other == number
  | _ => false

end Act

/-! ## What acts say of a subscriber -/

def subscriptions (acts : List (Act α)) : Nat :=
  acts.countP Act.subscribes

def since : Nat → List (Act α) → List (Act α)
  | _, [] => []
  | 0, act :: acts => if act.subscribes then acts else since 0 acts
  | number + 1, act :: acts => since (if act.subscribes then number else number + 1) acts

def published (acts : List (Act α)) : List α :=
  acts.filterMap Act.event?

/-- The acts between the subscription and now, or the drop. -/
def whileHeld (number : Nat) (acts : List (Act α)) : List (Act α) :=
  (since number acts).takeWhile (!·.drops number)

def isDropped (number : Nat) (acts : List (Act α)) : Bool :=
  (since number acts).any (·.drops number)

/-- An event was published after the drop. -/
def isFoundDropped (number : Nat) (acts : List (Act α)) : Bool :=
  ((since number acts).dropWhile (!·.drops number)).any (·.event?.isSome)

theorem subscriptions_cons (act : Act α) (acts : List (Act α)) :
    subscriptions (act :: acts) = subscriptions acts + if act.subscribes then 1 else 0 :=
  List.countP_cons

theorem subscriptions_concat (acts : List (Act α)) (act : Act α) :
    subscriptions (acts ++ [act]) = subscriptions acts + if act.subscribes then 1 else 0 := by
  rw [subscriptions, List.countP_append, List.countP_singleton]
  rfl

theorem since_concat (number : Nat) (acts : List (Act α)) (act : Act α) :
    since number (acts ++ [act]) =
      if number < subscriptions acts then since number acts ++ [act] else [] := by
  induction acts generalizing number with
  | nil => cases number <;> cases hact : act.subscribes <;> simp [since, subscriptions, hact]
  | cons first rest ih =>
      rw [subscriptions_cons, List.cons_append]
      cases number with
      | zero =>
          cases hfirst : first.subscribes with
          | true => simp [since, hfirst]
          | false => simp [since, hfirst, ih]
      | succ number =>
          cases hfirst : first.subscribes with
          | true => simp [since, hfirst, ih]
          | false => simp [since, hfirst, ih]

theorem since_eq_nil {number : Nat} {acts : List (Act α)} (hnumber : subscriptions acts ≤ number) :
    since number acts = [] := by
  cases acts using List.reverseRecOn with
  | nil => cases number <;> rfl
  | append_singleton acts act =>
      rw [subscriptions_concat] at hnumber
      rw [since_concat, if_neg (by omega)]

theorem since_append {number : Nat} {acts : List (Act α)} (hnumber : number < subscriptions acts)
    (later : List (Act α)) : since number (acts ++ later) = since number acts ++ later := by
  induction later using List.reverseRecOn with
  | nil => rw [List.append_nil, List.append_nil]
  | append_singleton later act ih =>
      have hearlier : number < subscriptions (acts ++ later) := by
        rw [subscriptions, List.countP_append]
        exact Nat.lt_add_right _ hnumber
      rw [← List.append_assoc, since_concat, if_pos hearlier, ih, List.append_assoc]

theorem exists_drop {number : Nat} {acts : List (Act α)} (hdropped : isDropped number acts = true) :
    ∃ before rest, since number acts = before ++ .drop number :: rest ∧
      ∀ act ∈ before, act.drops number = false := by
  obtain ⟨act, hfind⟩ := Option.isSome_iff_exists.mp (List.find?_isSome.mpr (List.any_eq_true.mp hdropped))
  obtain ⟨hdrops, before, rest, hsince, hbefore⟩ := List.find?_eq_some_iff_append.mp hfind
  cases act with
  | subscribe | publish | drain => cases hdrops
  | drop other =>
      have hother : other = number := by simpa [Act.drops] using hdrops
      subst hother
      exact ⟨before, rest, hsince, fun act hact => by simpa using hbefore act hact⟩

/-! ## Sessions -/

def pending (hub : Hub α) (number : Nat) : List α :=
  ((hub.inboxes[number]?).map (·.pending)).getD []

/-- A hub, and all that each subscriber has taken out of its inbox. -/
structure Session (α : Type) where
  hub : Hub α := {}
  taken : Nat → List α := fun _ => []

namespace Session

def step (session : Session α) : Act α → Session α
  | .subscribe => { session with hub := session.hub.subscribe.1 }
  | .publish event => { session with hub := (session.hub.publish event).1 }
  | .drain number =>
      { hub := (session.hub.drain number).1
        taken := fun other =>
          if other = number then session.taken other ++ (session.hub.drain number).2
          else session.taken other }
  | .drop number => { session with hub := session.hub.drop number }

def run (acts : List (Act α)) : Session α :=
  acts.foldl step {}

theorem run_concat (acts : List (Act α)) (act : Act α) : run (acts ++ [act]) = (run acts).step act :=
  List.foldl_append

end Session

/-! ## The share of one subscriber -/

/-- An inbox, and all that was taken out of it. -/
structure Share (α : Type) where
  inbox : Inbox α := {}
  taken : List α := []

namespace Share

def step (number : Nat) (share : Share α) : Act α → Share α
  | .subscribe => share
  | .publish event => { share with inbox := deliver event share.inbox }
  | .drain other =>
      if other = number then
        { inbox := { share.inbox with pending := [] }, taken := share.taken ++ share.inbox.pending }
      else share
  | .drop other =>
      if other = number then { share with inbox := { share.inbox with pending := [], dropped := true } }
      else share

def after (number : Nat) (acts : List (Act α)) : Share α :=
  (since number acts).foldl (step number) {}

theorem after_eq_empty {number : Nat} {acts : List (Act α)} (hnumber : subscriptions acts ≤ number) :
    after number acts = {} := by
  rw [after, since_eq_nil hnumber]
  rfl

theorem after_concat (number : Nat) (acts : List (Act α)) (act : Act α) :
    after number (acts ++ [act]) =
      if number < subscriptions acts then (after number acts).step number act else {} := by
  rw [after, since_concat]
  split
  · exact List.foldl_append
  · rfl

end Share

theorem modify_map_range (count number : Nat) (inbox : Nat → Inbox α) (change : Inbox α → Inbox α) :
    ((List.range count).map inbox).modify number change =
      (List.range count).map fun other =>
        if number = other then change (inbox other) else inbox other := by
  apply List.ext_getElem?
  intro other
  rw [List.getElem?_modify, List.getElem?_map, List.getElem?_map]
  by_cases hother : other < count
  · rw [List.getElem?_range hother]
    rfl
  · rw [List.getElem?_eq_none (by simpa using hother)]
    rfl

namespace Session

/-- A session is made of the shares of its subscribers. -/
theorem inboxes_run (acts : List (Act α)) :
    (run acts).hub.inboxes =
      (List.range (subscriptions acts)).map fun number => (Share.after number acts).inbox := by
  induction acts using List.reverseRecOn with
  | nil => rfl
  | append_singleton acts act ih =>
      have hold : ∀ number ∈ List.range (subscriptions acts),
          (Share.after number (acts ++ [act])).inbox =
            ((Share.after number acts).step number act).inbox := by
        intro number hnumber
        rw [Share.after_concat, if_pos (List.mem_range.mp hnumber)]
      rw [run_concat, subscriptions_concat]
      cases act with
      | subscribe =>
          have hnew : (Share.after (subscriptions acts) (acts ++ [.subscribe])).inbox = {} := by
            rw [Share.after_concat, if_neg (Nat.lt_irrefl _)]
          have hcount : (if (Act.subscribe : Act α).subscribes then 1 else 0) = 1 := rfl
          rw [hcount, List.range_succ, List.map_append, List.map_congr_left hold, List.map_singleton, hnew]
          exact congrArg (· ++ _) ih
      | publish event =>
          refine Eq.trans ?_ (List.map_congr_left hold).symm
          dsimp only [step, publish]
          rw [ih, List.map_map]
          rfl
      | drain other =>
          refine Eq.trans ?_ (List.map_congr_left hold).symm
          dsimp only [step, drain]
          rw [ih, modify_map_range]
          refine List.map_congr_left fun number _ => ?_
          dsimp only [Share.step]
          split <;> rfl
      | drop other =>
          refine Eq.trans ?_ (List.map_congr_left hold).symm
          dsimp only [step, drop]
          rw [ih, modify_map_range]
          refine List.map_congr_left fun number _ => ?_
          dsimp only [Share.step]
          split <;> rfl

theorem pending_run (acts : List (Act α)) (number : Nat) :
    (run acts).hub.pending number = (Share.after number acts).inbox.pending := by
  rw [Hub.pending, inboxes_run, List.getElem?_map]
  by_cases hnumber : number < subscriptions acts
  · rw [List.getElem?_range hnumber]
    rfl
  · rw [Share.after_eq_empty (Nat.le_of_not_lt hnumber), List.getElem?_eq_none (by simpa using hnumber)]
    rfl

theorem taken_run (acts : List (Act α)) (number : Nat) :
    (run acts).taken number = (Share.after number acts).taken := by
  induction acts using List.reverseRecOn with
  | nil => cases number <;> rfl
  | append_singleton acts act ih =>
      have hstep : ((run acts).step act).taken number =
          ((Share.after number acts).step number act).taken := by
        cases act with
        | subscribe => exact ih
        | publish event => exact ih
        | drain other =>
            by_cases hown : other = number
            · subst hown
              simp only [step, Share.step, if_true, ih]
              exact congrArg _ (pending_run acts other)
            · simp only [step, Share.step, if_neg hown, if_neg (Ne.symm hown), ih]
        | drop other =>
            refine ih.trans ?_
            dsimp only [Share.step]
            split <;> rfl
      rw [run_concat, hstep, Share.after_concat]
      split
      · rfl
      · next hnumber =>
        rw [Share.after_eq_empty (Nat.le_of_not_lt hnumber)]
        cases act with
        | subscribe | publish => rfl
        | drain | drop => dsimp only [Share.step]; split <;> rfl

end Session

/-! ## What a share holds -/

namespace Share

variable {share : Share α} {act : Act α} {number : Nat}

/-- The subscriber is not dropped, and the events are all that it has been sent. -/
structure IsHeld (share : Share α) (events : List α) : Prop where
  dropped : share.inbox.dropped = false
  listed : share.inbox.listed = true
  received : share.taken ++ share.inbox.pending = events

/-- The subscriber is dropped, with all that it had taken; `found` tells whether that has been noticed. -/
structure IsGone (share : Share α) (taken : List α) (found : Bool) : Prop where
  dropped : share.inbox.dropped = true
  listed : share.inbox.listed = !found
  pending : share.inbox.pending = []
  taken : share.taken = taken

theorem IsHeld.step {events : List α} (hheld : share.IsHeld events) (hact : act.drops number = false) :
    (share.step number act).IsHeld (events ++ act.event?.toList) := by
  obtain ⟨hdropped, hlisted, rfl⟩ := hheld
  cases act with
  | subscribe => exact ⟨hdropped, hlisted, (List.append_nil _).symm⟩
  | publish event =>
      have hdeliver : deliver event share.inbox =
          { share.inbox with pending := share.inbox.pending ++ [event] } := by
        rw [deliver, if_neg (by simp [hdropped])]
      refine ⟨?_, ?_, ?_⟩
      · simpa only [Share.step, hdeliver] using hdropped
      · simpa only [Share.step, hdeliver] using hlisted
      · simp only [Share.step, hdeliver, Act.event?, Option.toList_some, List.append_assoc]
  | drain other =>
      dsimp only [Share.step, Act.event?, Option.toList_none]
      split
      · exact ⟨hdropped, hlisted, rfl⟩
      · exact ⟨hdropped, hlisted, (List.append_nil _).symm⟩
  | drop other =>
      have hother : other ≠ number := by simpa [Act.drops] using hact
      dsimp only [Share.step, Act.event?, Option.toList_none]
      rw [if_neg hother]
      exact ⟨hdropped, hlisted, (List.append_nil _).symm⟩

theorem IsHeld.drop {events : List α} (hheld : share.IsHeld events) :
    (share.step number (.drop number)).IsGone share.taken false := by
  rw [Share.step, if_pos rfl]
  exact ⟨rfl, hheld.listed, rfl, rfl⟩

theorem IsGone.step {taken : List α} {found : Bool} (hgone : share.IsGone taken found) :
    (share.step number act).IsGone taken (found || act.event?.isSome) := by
  obtain ⟨hdropped, hlisted, hpending, htaken⟩ := hgone
  cases act with
  | subscribe =>
      have hevent : (Act.subscribe : Act α).event?.isSome = false := rfl
      rw [hevent, Bool.or_false]
      exact ⟨hdropped, hlisted, hpending, htaken⟩
  | publish event =>
      have hdeliver : deliver event share.inbox = { share.inbox with listed := false } := by
        rw [deliver, if_pos hdropped]
      refine ⟨?_, ?_, ?_, htaken⟩
      · simpa only [Share.step, hdeliver] using hdropped
      · simp [Share.step, hdeliver, Act.event?]
      · simpa only [Share.step, hdeliver] using hpending
  | drain other =>
      dsimp only [Share.step, Act.event?, Option.isSome_none]
      rw [Bool.or_false]
      split
      · exact ⟨hdropped, hlisted, rfl, by rw [htaken, hpending, List.append_nil]⟩
      · exact ⟨hdropped, hlisted, hpending, htaken⟩
  | drop other =>
      dsimp only [Share.step, Act.event?, Option.isSome_none]
      rw [Bool.or_false]
      split
      · exact ⟨rfl, hlisted, rfl, htaken⟩
      · exact ⟨hdropped, hlisted, hpending, htaken⟩

theorem IsHeld.foldl {events : List α} {acts : List (Act α)} (hheld : share.IsHeld events)
    (hacts : ∀ act ∈ acts, act.drops number = false) :
    (acts.foldl (Share.step number) share).IsHeld (events ++ published acts) := by
  induction acts generalizing share events with
  | nil => simpa [published] using hheld
  | cons act acts ih =>
      have hrest := ih (hheld.step (hacts act (.head acts))) fun later hlater =>
        hacts later (.tail act hlater)
      rw [List.append_assoc] at hrest
      cases hevent : act.event? with
      | none => simpa [published, List.filterMap_cons, hevent] using hrest
      | some event => simpa [published, List.filterMap_cons, hevent] using hrest

theorem IsGone.foldl {taken : List α} {found : Bool} (hgone : share.IsGone taken found)
    (acts : List (Act α)) :
    (acts.foldl (Share.step number) share).IsGone taken (found || acts.any (·.event?.isSome)) := by
  induction acts generalizing share found with
  | nil => simpa using hgone
  | cons act acts ih =>
      rw [List.foldl_cons, List.any_cons, ← Bool.or_assoc]
      exact ih hgone.step

theorem isHeld_empty : IsHeld ({} : Share α) [] :=
  ⟨rfl, rfl, rfl⟩

/-- Until its drop a subscriber has been sent what was published since its subscription. -/
theorem isHeld_after {acts : List (Act α)} (hdropped : isDropped number acts = false) :
    (after number acts).IsHeld (published (since number acts)) := by
  have hacts : ∀ act ∈ since number acts, act.drops number = false := by
    simpa [isDropped] using hdropped
  exact isHeld_empty.foldl hacts

/-- A drop leaves nothing waiting, and what was taken before it is all that is ever taken. -/
theorem isGone_after_drop (acts : List (Act α)) (hnumber : number < subscriptions acts)
    (hdropped : isDropped number acts = false) (later : List (Act α)) :
    (after number (acts ++ .drop number :: later)).IsGone (after number acts).taken
      (later.any (·.event?.isSome)) := by
  rw [after, since_append hnumber, List.foldl_append]
  exact (isHeld_after hdropped).drop.foldl later

theorem inbox_after (number : Nat) (acts : List (Act α)) :
    (after number acts).inbox.dropped = isDropped number acts ∧
      (after number acts).inbox.listed = !isFoundDropped number acts := by
  cases hdropped : isDropped number acts with
  | false =>
      have hheld := isHeld_after hdropped
      have hfound : isFoundDropped number acts = false := by
        rw [isFoundDropped, List.dropWhile_eq_nil_iff.mpr (by simpa [isDropped] using hdropped)]
        rfl
      exact ⟨hheld.dropped, by rw [hheld.listed, hfound]; rfl⟩
  | true =>
      obtain ⟨before, rest, hsince, hbefore⟩ := exists_drop hdropped
      have hfound : isFoundDropped number acts = rest.any (·.event?.isSome) := by
        rw [isFoundDropped, hsince, List.dropWhile_append_of_pos fun act hact => by simp [hbefore act hact]]
        simp [Act.drops, Act.event?]
      have hheld : (before.foldl (Share.step number) {}).IsHeld (published before) :=
        isHeld_empty.foldl hbefore
      have hdrop : ((before.foldl (Share.step number) {}).step number (.drop number)).IsGone _ false :=
        hheld.drop
      have hgone : (rest.foldl (Share.step number) _).IsGone _ _ := hdrop.foldl rest
      rw [hfound, after, hsince, List.foldl_append]
      exact ⟨hgone.dropped, hgone.listed⟩

end Share

/-! ## The hub as a whole -/

theorem countP_inboxes_run (acts : List (Act α)) (test : Inbox α → Bool) :
    (Session.run acts).hub.inboxes.countP test =
      (List.range (subscriptions acts)).countP fun number => test (Share.after number acts).inbox := by
  rw [Session.inboxes_run, List.countP_map]
  rfl

/-- After any acts, what a subscriber has taken and what waits for it are, in this order, the events
published since its subscription.  At its drop that holds for the last time: nothing waits for it any more
and it takes nothing more.  An event is received by those that are not dropped, and those that are struck
off are the ones whose drop came before the latest event. -/
theorem Session.run_delivers (acts : List (Act α)) :
    (∀ number, number < subscriptions acts → isDropped number acts = false →
      (run acts).taken number ++ (run acts).hub.pending number = published (whileHeld number acts) ∧
      ∀ later, (run (acts ++ .drop number :: later)).taken number ++ (run acts).hub.pending number =
          published (whileHeld number (acts ++ .drop number :: later)) ∧
        (run (acts ++ .drop number :: later)).hub.pending number = []) ∧
    (∀ event, ((run acts).hub.publish event).2 =
      (List.range (subscriptions acts)).countP fun number => !isDropped number acts) ∧
    (run acts).hub.subscriberCount + (List.range (subscriptions acts)).countP (isFoundDropped · acts) =
      subscriptions acts := by
  refine ⟨fun number hnumber hdropped => ?_, fun event => ?_, ?_⟩
  · have hacts : ∀ act ∈ since number acts, (!act.drops number) = true := by
      simpa [isDropped] using hdropped
    have hheld := Share.isHeld_after hdropped
    have hwhile : whileHeld number acts = since number acts := List.takeWhile_eq_self_iff.mpr hacts
    refine ⟨?_, fun later => ?_⟩
    · rw [taken_run, pending_run, hheld.received, hwhile]
    · have hgone := Share.isGone_after_drop acts hnumber hdropped later
      have hlast : whileHeld number (acts ++ .drop number :: later) = since number acts := by
        rw [whileHeld, since_append hnumber, List.takeWhile_append_of_pos hacts]
        simp [Act.drops]
      rw [taken_run, pending_run, pending_run, hgone.taken, hheld.received, hlast]
      exact ⟨rfl, hgone.pending⟩
  · have hcount : ((run acts).hub.publish event).2 =
        (run acts).hub.inboxes.countP fun inbox => !inbox.dropped := List.countP_eq_length_filter.symm
    rw [hcount, countP_inboxes_run]
    exact List.countP_congr fun number _ => by rw [(Share.inbox_after number acts).1]
  · have hlisted : (run acts).hub.subscriberCount =
        (List.range (subscriptions acts)).countP fun number => !isFoundDropped number acts := by
      rw [subscriberCount, ← List.countP_eq_length_filter, countP_inboxes_run]
      exact List.countP_congr fun number _ => by rw [(Share.inbox_after number acts).2]
    have hsplit := List.length_eq_countP_add_countP (isFoundDropped · acts) (l := List.range (subscriptions acts))
    rw [List.length_range] at hsplit
    rw [hlisted, Nat.add_comm]
    simpa using hsplit.symm

/-- One subscriber is dropped before the last event, the other behind it with an event in its inbox. -/
theorem Session.run_delivers_late :
    let acts : List (Act Nat) :=
      [.subscribe, .publish 1, .subscribe, .publish 2, .drain 0, .drop 1, .publish 3]
    (0 < subscriptions acts ∧ isDropped 0 acts = false) ∧
      (run acts).taken 0 ++ (run acts).hub.pending 0 = [1, 2, 3] ∧
      (run (acts ++ [.drop 0, .publish 4, .drain 0])).taken 0 ++ (run acts).hub.pending 0 = [1, 2, 3] ∧
      ((run acts).hub.publish 4).2 = 1 ∧ (run acts).hub.subscriberCount + 1 = 2 := by
  intro acts
  obtain ⟨hheld, hpublish, hcount⟩ := Session.run_delivers acts
  have hzero : 0 < subscriptions acts ∧ isDropped 0 acts = false := by decide
  obtain ⟨hnow, hlater⟩ := hheld 0 hzero.1 hzero.2
  exact ⟨hzero, hnow, (hlater [.publish 4, .drain 0]).1, hpublish 4, hcount⟩

end ApiGateway.Hub
