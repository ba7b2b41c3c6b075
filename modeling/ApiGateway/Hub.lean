/-!
# Event hubs

Every subscriber has an inbox of its own, in which each event published since its subscription waits.
A subscriber that was dropped is struck off when the next event is published.
-/

namespace ApiGateway

structure Inbox (α : Type) where
  pending : List α := []
  dropped : Bool := false
  listed : Bool := true
  deriving Repr

structure Hub (α : Type) where
  inboxes : List (Inbox α) := []
  deriving Repr

namespace Hub

/-- A new inbox, and its number. -/
def subscribe (hub : Hub α) : Hub α × Nat :=
  ({ inboxes := hub.inboxes ++ [{}] }, hub.inboxes.length)

def drop (hub : Hub α) (number : Nat) : Hub α :=
  { inboxes := hub.inboxes.modify number fun inbox => { inbox with pending := [], dropped := true } }

/-- Put an event into an inbox, or strike the inbox off. -/
def deliver (event : α) (inbox : Inbox α) : Inbox α :=
  if inbox.dropped then { inbox with listed := false }
  else { inbox with pending := inbox.pending ++ [event] }

/-- Deliver an event to all subscribers; the number of those that received it. -/
def publish (hub : Hub α) (event : α) : Hub α × Nat :=
  ({ inboxes := hub.inboxes.map (deliver event) },
    (hub.inboxes.filter fun inbox => !inbox.dropped).length)

/-- Take all that waits in an inbox. -/
def drain (hub : Hub α) (number : Nat) : Hub α × List α :=
  ({ inboxes := hub.inboxes.modify number fun inbox => { inbox with pending := [] } },
    ((hub.inboxes[number]?).map (·.pending)).getD [])

/-- The subscribers that have not been struck off. -/
def subscriberCount (hub : Hub α) : Nat :=
  (hub.inboxes.filter (·.listed)).length

end Hub

end ApiGateway
