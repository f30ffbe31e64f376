import FederatedAccess.AccessToken
import FederatedAccess.Proofs.Calendar

/-!
# Expiry of access tokens

The expiry of a token and the time at which it stops being usable are those of integer arithmetic
without a bound. The calendar from year -9999 to year 9999 decides only whether there is an expiry: a
margin that reaches past its beginning makes a token unusable, as the integers do for every present
that the calendar has. What the calendar has is a matter of local dates, at the offset of the expiry.
-/

namespace FederatedAccess.AccessToken

/-- Nanoseconds from 1970 at an offset, whether or not the calendar has them. -/
structure Due where
  nanos : Int
  offset : UtcOffset

/-- The calendar has the local date and time. -/
def Due.IsDated (n : Due) : Prop := ∃ w : DateTime, w.InCalendar ∧ w.nanos = n.nanos + n.offset.nanos

/-- When a token is to expire. A lifetime counts from the issue, wherever it leads, and takes
precedence over an instant. -/
def Draft.due? (d : Draft) : Option Due :=
  match d.expiresIn with
  | some lifetime => some ⟨d.issuedAt.nanos + lifetime.nanos, d.issuedAt.offset⟩
  | none => d.expiresAt.map fun t => ⟨t.nanos, t.offset⟩

/-- What comes of a draft that has a text, by the expiry it asks for. -/
structure Draft.Settled (d : Draft) : Prop where
  succeeds : (∃ t, d.build = .ok t) ↔
    ∃ n, d.due? = some n ∧ n.IsDated ∧ d.issuedAt.nanos < n.nanos
  /-- The token expires when it was asked to. -/
  expires : ∀ t, d.build = .ok t →
    t.issuedAt = d.issuedAt ∧ d.due? = some ⟨t.expiresAt.nanos, t.expiresAt.offset⟩
  outOfRange : d.build = .error .expiryOutOfRange ↔ ∃ n, d.due? = some n ∧ ¬ n.IsDated
  missing : d.build = .error .missingExpiry ↔ d.due? = none
  notPositive : d.build = .error .nonPositiveLifetime ↔
    ∃ n, d.due? = some n ∧ n.IsDated ∧ n.nanos ≤ d.issuedAt.nanos

theorem Due.isDated_iff {n : Due} : n.IsDated ↔ n.offset.Reaches n.nanos :=
  (DateTime.reaches_iff n.offset n.nanos).symm

theorem isDated_instant (t : Instant) : Due.IsDated ⟨t.nanos, t.offset⟩ :=
  Due.isDated_iff.mpr t.inRange

/-- What becomes of a draft, and what its expiry has to do with it. -/
inductive Draft.Becomes (d : Draft) : Except Fault AccessToken → Prop
  | token {t} (issued : t.issuedAt = d.issuedAt)
      (due : d.due? = some ⟨t.expiresAt.nanos, t.expiresAt.offset⟩) (sound : t.IsSound) :
      Becomes d (.ok t)
  | spent {t : Instant} (due : d.due? = some ⟨t.nanos, t.offset⟩)
      (late : t.nanos ≤ d.issuedAt.nanos) : Becomes d (.error .nonPositiveLifetime)
  | outside {n} (due : d.due? = some n) (undated : ¬ n.IsDated) :
      Becomes d (.error .expiryOutOfRange)
  | endless (due : d.due? = none) : Becomes d (.error .missingExpiry)

theorem Draft.Becomes.settled {d : Draft} (h : d.Becomes d.build) : d.Settled := by
  generalize hbuild : d.build = result at h
  cases h with
  | @token t issued due sound =>
      have hpositive : d.issuedAt.nanos < t.expiresAt.nanos := issued ▸ sound.positive
      have hdated := isDated_instant t.expiresAt
      constructor <;> simp [hbuild, due, issued, hdated, hpositive]
  | @spent t due late =>
      have hdated := isDated_instant t
      constructor <;> simp [hbuild, due, hdated, late]
  | outside due undated => constructor <;> simp [hbuild, due, undated]
  | endless due => constructor <;> simp [hbuild, due]

/-! ### Tokens -/

/-- Half past midnight of the first day of the calendar, twelve hours west. -/
def westernStart : Instant := ⟨-377705071800 * nanosPerSecond, ⟨-43200, by decide⟩, by decide⟩

/-- Midnight of that day in UTC is half a day and a half hour before. -/
def firstInstant : Instant := ⟨-377705116800 * nanosPerSecond, .utc, by decide⟩

/-- The calendar of the expiry begins after the present and has no instant that is an hour before the
expiry: the token is not usable, though more than the margin is left of its lifetime. -/
example : let t : AccessToken := ⟨⟨"token"⟩, "Bearer", .empty, firstInstant, westernStart⟩
    t.isUsable firstInstant (.ofSeconds 3600) = false ∧
      firstInstant.nanos + (Duration.ofSeconds 3600).nanos < t.expiresAt.nanos := by
  decide

end FederatedAccess.AccessToken
