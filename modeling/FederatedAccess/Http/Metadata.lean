import FederatedAccess.Number.Decimal
import FederatedAccess.Text.Blank
import FederatedAccess.Time.MailDate

/-!
# Response metadata

What a failure needs to know of a response outlives the response: its status, and how long the
server asked to wait. A slot hands it over once.
-/

namespace FederatedAccess

/-- What is remembered of a response. -/
structure Metadata where
  status : Option Nat := none
  retryAfter : Option Duration := none
deriving DecidableEq, Repr

/-- A place for the metadata of the last response. -/
structure MetadataSlot where
  content : Option Metadata := none
deriving DecidableEq, Repr

namespace MetadataSlot

/-- Puts metadata in place of what is there. -/
def store (_ : MetadataSlot) (m : Metadata) : MetadataSlot := ⟨some m⟩

/-- Takes out what is there. -/
def take (s : MetadataSlot) : Option Metadata × MetadataSlot := (s.content, {})

theorem take_store (s : MetadataSlot) (m : Metadata) : (s.store m).take = (some m, {}) := rfl

theorem take_take (s : MetadataSlot) : s.take.2.take = (none, {}) := rfl

end MetadataSlot

namespace RetryAfter

/-- The largest count of seconds. -/
def maxSeconds : Nat := Nat.pow 2 32 - 1

/-- Reads a header that holds seconds, or the date at which waiting ends. Dates that have passed
ask for nothing. -/
def read (value : List UInt8) (now : Instant) : Option Duration :=
  if value.all fun b => (32 ≤ b && b < 127) || b == 9 then
    let text := Text.trim (value.map fun b => Char.ofNat b.toNat)
    match Decimal.readNat maxSeconds text with
    | .ok n => some (.ofSeconds n)
    | .error _ =>
      match MailDate.read text with
      | some nanos => if now.nanos < nanos then some ⟨nanos - now.nanos⟩ else none
      | none => none
  else none

end RetryAfter

end FederatedAccess
