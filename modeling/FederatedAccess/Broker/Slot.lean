import FederatedAccess.AccessToken
import FederatedAccess.Assertion.Cache

/-!
# Refresh slots

Calls for one scope set share a slot, in which one of them at a time refreshes the token while the
others queue. The slot counts the outcomes that were published in it and holds the last one: a call
that finds the count moved while it queued knows that the outcome was produced after it came.

A slot is stored under the key of its scope set as long as calls hold it. A call that ends gives
its slot back and takes it away when it was the last; a call that is cancelled does not, and leaves
the slot to be swept.
-/

namespace FederatedAccess

/-- A number that tells slots apart. -/
abbrev SlotId := Nat

/-- A slot. The queue lists the calls that hold it, the one that refreshes first. -/
structure Slot where
  id : SlotId
  key : ScopeKey
  landed : Nat := 0
  outcome : Option (Except Failure AccessToken) := none
  queue : List CallId := []

namespace Slot

/-- Whether no call holds the slot. -/
def isFree (s : Slot) : Bool := s.queue.isEmpty

/-- Whether it is the turn of a call. -/
def isTurn (s : Slot) (call : CallId) : Bool := s.queue.head? == some call

/-- Queues a call. -/
def enter (s : Slot) (call : CallId) : Slot := { s with queue := s.queue ++ [call] }

/-- Takes a call out of the queue. -/
def exit (s : Slot) (call : CallId) : Slot := { s with queue := s.queue.filter (· ≠ call) }

/-- Puts a call before the others that queue. -/
def advance (s : Slot) (call : CallId) : Slot :=
  { s with queue := call :: s.queue.filter (· ≠ call) }

/-- Publishes an outcome to the calls that queue. -/
def publish (s : Slot) (outcome : Except Failure AccessToken) : Slot :=
  { s with landed := s.landed + 1, outcome := some outcome }

/-- The outcome that a call with a ticket may share. -/
def shared? (s : Slot) (ticket : Nat) : Option (Except Failure AccessToken) :=
  if s.landed = ticket then none else s.outcome

end Slot

/-- The stored slots, and the number for the next one. -/
structure Slots where
  stored : List Slot := []
  next : SlotId := 0

namespace Slots

/-- The slot stored under a key. -/
def at? (t : Slots) (key : ScopeKey) : Option Slot := t.stored.find? (·.key = key)

/-- The stored slot with a number. -/
def find? (t : Slots) (id : SlotId) : Option Slot := t.stored.find? (·.id = id)

/-- The slot under a key, which is stored if there is none yet. -/
def take (t : Slots) (key : ScopeKey) : Slot × Slots :=
  match t.at? key with
  | some s => (s, t)
  | none =>
    let s : Slot := { id := t.next, key }
    (s, ⟨t.stored ++ [s], t.next + 1⟩)

/-- Changes the slot with a number. -/
def modify (t : Slots) (id : SlotId) (f : Slot → Slot) : Slots :=
  { t with stored := t.stored.map fun s => if s.id = id then f s else s }

/-- Gives back the hold of a call on a slot; a slot under the key that nobody holds is dropped. -/
def release (t : Slots) (key : ScopeKey) (id : SlotId) (call : CallId) : Slots :=
  let u := t.modify id (·.exit call)
  { u with stored := u.stored.filter fun s => !(s.key == key && s.isFree) }

/-- Drops the hold of a call on a slot and nothing else. -/
def abandon (t : Slots) (id : SlotId) (call : CallId) : Slots :=
  t.modify id (·.exit call)

/-- Drops the slots that nobody holds. -/
def prune (t : Slots) : Slots := { t with stored := t.stored.filter (!·.isFree) }

end Slots

end FederatedAccess
