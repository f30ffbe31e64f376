import FederatedAccess.Time.Calendar

/-!
# Dates of mail and HTTP headers

The date form of RFC 2822 as HTTP uses it: an optional weekday, day, month name, year, time and
zone, with blanks and parenthesised comments between them. Beside the reader stands the printer of
the fixed form.
-/

namespace FederatedAccess.MailDate

/-- Month names in order. -/
def monthNames : List String :=
  ["Jan", "Feb", "Mar", "Apr", "May", "Jun", "Jul", "Aug", "Sep", "Oct", "Nov", "Dec"]

/-- Weekday names from Monday. -/
def weekdayNames : List String :=
  ["Mon", "Tue", "Wed", "Thu", "Fri", "Sat", "Sun"]

/-- Zones with a name, and their hours from UTC. -/
def zoneNames : List (String × Int) :=
  [("UT", 0), ("GMT", 0), ("EST", -5), ("EDT", -4), ("CST", -6), ("CDT", -5), ("MST", -7),
    ("MDT", -6), ("PST", -8), ("PDT", -7)]

/-- Drops a name from the front, letter case ignored. -/
def dropName (name : String) (cs : List Char) : Option (List Char) :=
  let n := name.toList
  if cs.length < n.length then none
  else if (cs.take n.length).map Char.toLower = n.map Char.toLower then some (cs.drop n.length)
  else none

/-- The first entry whose name is at the front, with what follows the name. -/
def dropOneOf {α : Type} (names : List (String × α)) (cs : List Char) :
    Option (α × List Char) :=
  names.findSome? fun e => (dropName e.1 cs).map fun rest => (e.2, rest)

/-- Blanks inside a header are spaces and tabs. -/
def isSpace (c : Char) : Bool := c == ' ' || c == '\t'

/-- Passes over blanks and comments; the depth counts the comments that are open. A comment that
is never closed is not passed over. -/
def passFiller : Nat → List Char → Option (List Char)
  | 0, [] => some []
  | 0, c :: rest =>
    if isSpace c then passFiller 0 rest
    else if c = '(' then
      match passFiller 1 rest with
      | some tail => some tail
      | none => some (c :: rest)
    else some (c :: rest)
  | _ + 1, [] => none
  | depth + 1, '\\' :: _ :: rest => passFiller (depth + 1) rest
  | depth + 1, c :: rest =>
    if c = '(' then passFiller (depth + 2) rest
    else if c = ')' then passFiller depth rest
    else passFiller (depth + 1) rest

/-- Filler that may be missing. -/
def filler (cs : List Char) : List Char :=
  (passFiller 0 cs).getD cs

/-- Filler that must be there. -/
def someFiller (cs : List Char) : Option (List Char) :=
  let rest := filler cs
  if rest.length < cs.length then some rest else none

/-- Blanks that must be there. -/
def someSpace (cs : List Char) : Option (List Char) :=
  let rest := cs.dropWhile isSpace
  if rest.length < cs.length then some rest else none

/-- Reads exactly this many digits. -/
def digits (count : Nat) (cs : List Char) : Option (Nat × List Char) :=
  let ds := cs.take count
  if ds.length = count ∧ ds.all Decimal.isDigit then some (Decimal.value ds, cs.drop count)
  else none

/-- Reads one or two digits. -/
def oneOrTwoDigits (cs : List Char) : Option (Nat × List Char) :=
  (digits 2 cs).or (digits 1 cs)

/-- Drops one character from the front. -/
def dropChar (c : Char) : List Char → Option (List Char)
  | d :: rest => if d = c then some rest else none
  | [] => none

/-- The weekday with its comma, if there is one. -/
def weekday (cs : List Char) : Option (List Char) :=
  match dropOneOf (weekdayNames.map (·, ())) cs with
  | some (_, rest) => (dropChar ',' rest).map filler
  | none => some cs

/-- The year: four digits from 1900, or two digits with the century chosen around 1950. -/
def year (cs : List Char) : Option (Int × List Char) :=
  match digits 4 cs with
  | some (y, rest) => if 1900 ≤ y then (someSpace rest).map ((y, ·)) else none
  | none => do
    let (y, rest) ← digits 2 cs
    return (if y < 50 then y + 2000 else y + 1900, ← someFiller rest)

/-- The time of day, whose seconds may be left out. -/
def time (cs : List Char) : Option ((Nat × Nat × Nat) × List Char) := do
  let (hour, cs) ← digits 2 cs
  let cs ← dropChar ':' (filler cs)
  let (minute, cs) ← digits 2 (filler cs)
  match dropChar ':' (filler cs) with
  | some rest =>
    let (second, rest) ← digits 2 (filler rest)
    return ((hour, minute, second), ← someFiller rest)
  | none => return ((hour, minute, 0), ← someFiller cs)

/-- The zone in minutes from UTC: a name, a single letter other than J, or a sign and four
digits. -/
def zone (cs : List Char) : Option (Int × List Char) :=
  match dropOneOf zoneNames cs with
  | some (hours, rest) => some (hours * 60, rest)
  | none =>
    match cs with
    | [] => none
    | c :: rest =>
      if c.isAlpha ∧ c ≠ 'j' ∧ c ≠ 'J' then some (0, rest)
      else if c = '+' ∨ c = '-' then do
        let (hours, rest) ← digits 2 rest
        let (minutes, rest) ← digits 2 rest
        if hours ≤ 25 ∧ minutes ≤ 59 then
          let total : Int := hours * 60 + minutes
          return (if c = '-' ∧ hours ≠ 0 then -total else total, rest)
        else none
      else none

/-- Whether the second before which a leap second may be inserted ends a month. -/
def endsMonth (nanos : Int) : Bool :=
  let seconds := nanos.fdiv nanosPerSecond
  let d := Date.ofDayNumber (seconds.fdiv 86400)
  seconds.fmod 86400 == 86399 && d.day == Date.monthLength d.year d.month

/-- Reads a date as nanoseconds from 1970. -/
def read (cs : List Char) : Option Int := do
  let cs ← weekday (filler cs)
  let (day, cs) ← oneOrTwoDigits cs
  let cs ← someFiller cs
  let (month, cs) ← dropOneOf (monthNames.zip (List.range' 1 12)) cs
  let (year, cs) ← year (← someFiller cs)
  let ((hour, minute, second), cs) ← time cs
  let (offset, cs) ← zone cs
  let date : Date := ⟨year, month, day⟩
  if (filler cs).isEmpty ∧ date.isValid ∧ hour ≤ 23 ∧ minute ≤ 59 ∧ second ≤ 60 then
    let leap := second = 60
    let wall : DateTime :=
      ⟨date, hour, minute, if leap then 59 else second, if leap then 999999999 else 0⟩
    let nanos := wall.nanos - offset * 60 * nanosPerSecond
    if leap ∧ !endsMonth nanos then none else some nanos
  else none

/-- The weekday of a day counted from 1970, which began on a Thursday. -/
def weekdayName (dayNumber : Int) : String :=
  weekdayNames.getD ((dayNumber + 3) % 7).toNat ""

/-- Writes a date and a time of day in the fixed form, with a zone at the end. The fraction of the
second is left out. -/
def write (zone : String) (w : DateTime) : List Char :=
  let two := fun n => Decimal.padded 2 n
  (weekdayName w.date.dayNumber).toList ++ ',' :: ' ' :: (two w.date.day ++ ' ' ::
    ((monthNames.getD (w.date.month - 1) "").toList ++ ' ' ::
      (Decimal.padded 4 w.date.year.toNat ++ ' ' :: (two w.hour ++ ':' :: (two w.minute ++ ':' ::
        (two w.second ++ ' ' :: zone.toList))))))

end FederatedAccess.MailDate
