import FederatedAccess.Time.Instant

/-!
# Clocks that are set by hand

A handle shows the time of the clock it belongs to. Several handles may share a clock; setting or
advancing through one of them is seen through all.
-/

namespace FederatedAccess

/-- Clocks with their times, and handles that each belong to one of them. -/
structure ManualClocks where
  times : List Instant
  handles : List Nat

namespace ManualClocks

/-- A single clock with a single handle. -/
def start (t : Instant) : ManualClocks := ⟨[t], [0]⟩

/-- The clock of a handle; handles are counted around. -/
def clockOf (c : ManualClocks) (handle : Nat) : Nat :=
  c.handles.getD (handle % c.handles.length) 0

/-- The time that a clock shows. -/
def timeOf (c : ManualClocks) (clock : Nat) : Instant :=
  c.times.getD clock Instant.epoch

/-- The times that the handles show. -/
def now (c : ManualClocks) : List Instant := c.handles.map c.timeOf

/-- Sets the clock of a handle. -/
def set (c : ManualClocks) (handle : Nat) (t : Instant) : ManualClocks :=
  { c with times := c.times.set (c.clockOf handle) t }

/-- Advances the clock of a handle, if the calendar has the result. -/
def advance? (c : ManualClocks) (handle : Nat) (d : Duration) : Option ManualClocks :=
  ((c.timeOf (c.clockOf handle)).add? d).map (c.set handle)

/-- Adds a handle that shares the clock of another. -/
def share (c : ManualClocks) (handle : Nat) : ManualClocks :=
  { c with handles := c.handles ++ [c.clockOf handle] }

/-- Adds a clock with a handle of its own. -/
def add (c : ManualClocks) (t : Instant) : ManualClocks :=
  ⟨c.times ++ [t], c.handles ++ [c.times.length]⟩

end ManualClocks

end FederatedAccess
