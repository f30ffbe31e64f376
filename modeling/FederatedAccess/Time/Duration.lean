/-!
# Durations

A duration is a signed count of nanoseconds, without a bound.
-/

namespace FederatedAccess

/-- Nanoseconds in a second. -/
def nanosPerSecond : Int := 1000000000

/-- A signed length of time. -/
structure Duration where
  nanos : Int
deriving Repr, DecidableEq

namespace Duration

/-- No time at all. -/
def zero : Duration := ⟨0⟩

/-- A whole number of seconds. -/
def ofSeconds (n : Int) : Duration := ⟨n * nanosPerSecond⟩

/-- The whole seconds, the fraction being dropped. -/
def wholeSeconds (d : Duration) : Int := d.nanos.tdiv nanosPerSecond

/-- What the whole seconds leave over, with the sign of the duration. -/
def subsecondNanos (d : Duration) : Int := d.nanos.tmod nanosPerSecond

/-- The duration without its fraction of a second. -/
def truncate (d : Duration) : Duration := ofSeconds d.wholeSeconds

instance : LT Duration := ⟨fun a b => a.nanos < b.nanos⟩
instance : LE Duration := ⟨fun a b => a.nanos ≤ b.nanos⟩
instance (a b : Duration) : Decidable (a < b) := inferInstanceAs (Decidable (a.nanos < b.nanos))
instance (a b : Duration) : Decidable (a ≤ b) := inferInstanceAs (Decidable (a.nanos ≤ b.nanos))

theorem lt_def {a b : Duration} : a < b ↔ a.nanos < b.nanos := Iff.rfl

theorem le_def {a b : Duration} : a ≤ b ↔ a.nanos ≤ b.nanos := Iff.rfl

/-- A whole number of seconds has that many whole seconds. -/
@[simp] theorem wholeSeconds_ofSeconds (n : Int) : (ofSeconds n).wholeSeconds = n := by
  simp [wholeSeconds, ofSeconds, nanosPerSecond]

end Duration

end FederatedAccess
