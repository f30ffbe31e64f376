import FederatedAccess.Time.Duration

/-!
# Instants

An instant counts nanoseconds from 1970 in UTC and is told at an offset from UTC. Its local date
lies between the years -9999 and 9999. Moving an instant by a duration keeps the offset and yields
nothing when the local date leaves these years. Instants are compared by what they count, whatever
their offsets.
-/

namespace FederatedAccess

/-- An offset from UTC in seconds, of less than twenty-six hours either way. -/
structure UtcOffset where
  seconds : Int
  bounded : -93599 ≤ seconds ∧ seconds ≤ 93599
deriving DecidableEq, Repr

namespace UtcOffset

/-- No offset. -/
def utc : UtcOffset := ⟨0, by decide⟩

/-- The offset in nanoseconds. -/
def nanos (o : UtcOffset) : Int := o.seconds * nanosPerSecond

/-- Whether the local date of an instant lies between the years -9999 and 9999. -/
def Reaches (o : UtcOffset) (n : Int) : Prop :=
  -377705116800 * nanosPerSecond ≤ n + o.nanos ∧ n + o.nanos < 253402300800 * nanosPerSecond

instance (o : UtcOffset) (n : Int) : Decidable (o.Reaches n) :=
  inferInstanceAs (Decidable (_ ∧ _))

@[simp] theorem nanos_utc : utc.nanos = 0 := rfl

end UtcOffset

/-- An instant that the calendar has at an offset. -/
structure Instant where
  nanos : Int
  offset : UtcOffset
  inRange : offset.Reaches nanos
deriving DecidableEq, Repr

namespace Instant

/-- The instant with the given count, if the calendar has it at the offset. -/
def at? (offset : UtcOffset) (n : Int) : Option Instant :=
  if h : offset.Reaches n then some ⟨n, offset, h⟩ else none

/-- The instant in UTC with the given count, if the calendar has it. -/
def ofNanos? (n : Int) : Option Instant := at? .utc n

/-- The instant in UTC with the given count of seconds, if the calendar has it. -/
def ofSeconds? (n : Int) : Option Instant := ofNanos? (n * nanosPerSecond)

/-- The first instant of 1970. -/
def epoch : Instant := ⟨0, .utc, by decide⟩

/-- The instant later by a duration. -/
def add? (t : Instant) (d : Duration) : Option Instant := at? t.offset (t.nanos + d.nanos)

/-- The instant earlier by a duration. -/
def sub? (t : Instant) (d : Duration) : Option Instant := at? t.offset (t.nanos - d.nanos)

/-- The time passed from `u` to `t`. -/
def since (t u : Instant) : Duration := ⟨t.nanos - u.nanos⟩

instance : LT Instant := ⟨fun a b => a.nanos < b.nanos⟩
instance : LE Instant := ⟨fun a b => a.nanos ≤ b.nanos⟩
instance (a b : Instant) : Decidable (a < b) := inferInstanceAs (Decidable (a.nanos < b.nanos))
instance (a b : Instant) : Decidable (a ≤ b) := inferInstanceAs (Decidable (a.nanos ≤ b.nanos))

theorem lt_def {a b : Instant} : a < b ↔ a.nanos < b.nanos := Iff.rfl

theorem le_def {a b : Instant} : a ≤ b ↔ a.nanos ≤ b.nanos := Iff.rfl

/-- The seconds from 1970, rounded down. -/
def unixSeconds (t : Instant) : Int := t.nanos.fdiv nanosPerSecond

/-- The nanoseconds after the second rounded down. -/
def subsecondNanos (t : Instant) : Int := t.nanos.fmod nanosPerSecond

theorem at?_eq_some_iff {o : UtcOffset} {n : Int} {t : Instant} :
    at? o n = some t ↔ t.nanos = n ∧ t.offset = o := by
  unfold at?
  constructor
  · intro h
    split at h
    · cases h
      exact ⟨rfl, rfl⟩
    · cases h
  · rintro ⟨rfl, rfl⟩
    rw [dif_pos t.inRange]

/-- Only a count that the calendar does not reach is that of no instant. -/
theorem at?_eq_none_iff {o : UtcOffset} {n : Int} : at? o n = none ↔ ¬ o.Reaches n := by
  unfold at?
  split <;> simp_all

/-- Moving forward succeeds exactly when the calendar has the sum. -/
theorem add?_eq_some_iff {t u : Instant} {d : Duration} :
    t.add? d = some u ↔ u.nanos = t.nanos + d.nanos ∧ u.offset = t.offset :=
  at?_eq_some_iff

/-- Moving back succeeds exactly when the calendar has the difference. -/
theorem sub?_eq_some_iff {t u : Instant} {d : Duration} :
    t.sub? d = some u ↔ u.nanos = t.nanos - d.nanos ∧ u.offset = t.offset :=
  at?_eq_some_iff

end Instant

end FederatedAccess
