import FederatedAccess.Number.Decimal
import FederatedAccess.Time.Instant

/-!
# Calendar

Days are counted from 1970 in the proleptic Gregorian calendar. Years are shifted to begin in
March, so that the leap day is the last of its year, and grouped into eras of 400 years.
-/

namespace FederatedAccess

/-- A calendar date. -/
structure Date where
  year : Int
  month : Nat
  day : Nat
deriving Repr, DecidableEq

namespace Date

/-- Leap years are divisible by four and not by a hundred, or by four hundred. -/
def isLeap (year : Int) : Bool :=
  year % 4 == 0 && (year % 100 != 0 || year % 400 == 0)

/-- The number of days of a month. -/
def monthLength (year : Int) (month : Nat) : Nat :=
  if month = 2 then if isLeap year then 29 else 28
  else if month = 4 ∨ month = 6 ∨ month = 9 ∨ month = 11 then 30
  else 31

/-- Whether the calendar has the date. -/
def isValid (d : Date) : Bool :=
  1 ≤ d.month && d.month ≤ 12 && 1 ≤ d.day && d.day ≤ monthLength d.year d.month

/-- The days before a month of a year that begins in March, counted from zero. -/
def daysBeforeMonth (m : Int) : Int := (153 * m + 2) / 5

/-- The number of days from 1970. -/
def dayNumber (d : Date) : Int :=
  let y := if d.month ≤ 2 then d.year - 1 else d.year
  let m : Int := if 2 < d.month then d.month - 3 else d.month + 9
  let era := y / 400
  let yearOfEra := y % 400
  let dayOfEra := yearOfEra * 365 + yearOfEra / 4 - yearOfEra / 100 + daysBeforeMonth m + d.day - 1
  era * 146097 + dayOfEra - 719468

/-- The date with a number of days from 1970. -/
def ofDayNumber (n : Int) : Date :=
  let z := n + 719468
  let era := z / 146097
  let dayOfEra := z % 146097
  let yearOfEra := (dayOfEra - dayOfEra / 1460 + dayOfEra / 36524 - dayOfEra / 146096) / 365
  let dayOfYear := dayOfEra - (365 * yearOfEra + yearOfEra / 4 - yearOfEra / 100)
  let m := (5 * dayOfYear + 2) / 153
  let day := dayOfYear - daysBeforeMonth m + 1
  let month := if m < 10 then m + 3 else m - 9
  let year := yearOfEra + era * 400
  ⟨if month ≤ 2 then year + 1 else year, month.toNat, day.toNat⟩

end Date

/-- A date and a time of day. -/
structure DateTime where
  date : Date
  hour : Nat
  minute : Nat
  second : Nat
  nano : Nat
deriving Repr, DecidableEq

namespace DateTime

/-- The nanoseconds from 1970. -/
def nanos (t : DateTime) : Int :=
  (((t.date.dayNumber * 24 + t.hour) * 60 + t.minute) * 60 + t.second) * nanosPerSecond + t.nano

/-- The date and time that counts so many nanoseconds from 1970. -/
def ofNanos (n : Int) : DateTime :=
  let seconds := n.fdiv nanosPerSecond
  let inDay := (seconds.fmod 86400).toNat
  ⟨Date.ofDayNumber (seconds.fdiv 86400), inDay / 3600, inDay / 60 % 60, inDay % 60,
    (n.fmod nanosPerSecond).toNat⟩

/-- The date and time of an instant in UTC. -/
def ofInstant (t : Instant) : DateTime := ofNanos t.nanos

/-- The text used in diagnostics: a year of at least four digits, an hour without padding, and a
fraction of at least one digit. -/
def render (t : DateTime) : String :=
  let sign := if t.date.year < 0 then ['-'] else []
  let two := fun n => Decimal.padded 2 n
  let fraction := ((Decimal.padded 9 t.nano).reverse.dropWhile (· == '0')).reverse
  String.ofList (sign ++ Decimal.padded 4 t.date.year.natAbs ++ '-' :: two t.date.month ++
    '-' :: two t.date.day ++ ' ' :: Decimal.ofNat t.hour ++ ':' :: two t.minute ++
    ':' :: two t.second ++ '.' :: (if fraction.isEmpty then ['0'] else fraction))

end DateTime

/-- The text of an offset in diagnostics. -/
def UtcOffset.render (o : UtcOffset) : String :=
  let n := o.seconds.natAbs
  let two := fun n => Decimal.padded 2 n
  String.ofList ((if o.seconds < 0 then '-' else '+') :: two (n / 3600) ++
    ':' :: two (n / 60 % 60) ++ ':' :: two (n % 60))

/-- The local date and time of an instant. -/
def Instant.localTime (t : Instant) : DateTime := .ofNanos (t.nanos + t.offset.nanos)

/-- The text of an instant in diagnostics. -/
def Instant.render (t : Instant) : String := t.localTime.render ++ " " ++ t.offset.render

end FederatedAccess
