import FederatedAccess.Proofs.Calendar
import FederatedAccess.Proofs.Url.Host
import FederatedAccess.Time.MailDate
import Mathlib.Data.List.Induction
import Mathlib.Data.Nat.Digits.Defs

/-!
# Written dates are read back

A date in the fixed form is read piece by piece, each piece up to the mark that follows it, and its
calendar date and time of day count the seconds that were written. Whatever date is read, it is an
instant of the calendar up to its zone.
-/

namespace FederatedAccess

namespace Date

theorem monthLength_le (year : Int) (month : Nat) : monthLength year month ≤ 31 := by
  unfold monthLength
  split
  · split <;> decide
  · split <;> decide

end Date

namespace Decimal

variable {width n : Nat}

/-! ### Padded numbers -/

theorem length_padded (positive : 0 < width) (h : n < 10 ^ width) :
    (padded width n).length = width := by
  have hlength : (ofNat n).length ≤ width := Nat.toDigits_length 10 n width positive h
  simp only [padded, List.length_append, List.length_replicate]
  omega

theorem isDigit_of_mem_padded {c : Char} (h : c ∈ padded width n) : isDigit c = true := by
  rcases List.mem_append.mp h with hzero | hdigit
  · rw [List.eq_of_mem_replicate hzero]
    rfl
  · exact isDigit_of_mem_ofNat hdigit

/-- Leading zeros do not count. -/
theorem value_zeros (k : Nat) (ds : List Char) : value (List.replicate k '0' ++ ds) = value ds := by
  induction k with
  | zero => rfl
  | succ k ih => exact ih

theorem value_padded (width n : Nat) : value (padded width n) = n := by
  rw [padded, value_zeros, value_ofNat]

end Decimal

namespace MailDate

variable {rest : List Char}

/-! ### Names and numbers -/

theorem dropName_append {name : String} {p : List Char} (length : p.length = name.toList.length)
    (rest : List Char) : dropName name (p ++ rest) =
      if p.map Char.toLower = name.toList.map Char.toLower then some rest else none := by
  have hlong : ¬(p ++ rest).length < p.length := by
    rw [List.length_append]
    omega
  rw [dropName, ← length, List.take_left, List.drop_left]
  exact if_neg hlong

/-- Among names of one length, that of the piece at the front is found whatever follows. -/
theorem dropOneOf_append {α : Type} {names : List (String × α)} {p : List Char}
    (lengths : ∀ e ∈ names, p.length = e.1.toList.length) (rest : List Char) :
    dropOneOf names (p ++ rest) =
      (names.find? fun e => p.map Char.toLower = e.1.toList.map Char.toLower).map
        fun e => (e.2, rest) := by
  induction names with
  | nil => rfl
  | cons e names ih =>
      have hrest := ih fun e he => lengths e (List.mem_cons_of_mem _ he)
      rw [dropOneOf] at hrest
      rw [dropOneOf, List.findSome?_cons, dropName_append (lengths e List.mem_cons_self), hrest]
      by_cases hname : p.map Char.toLower = e.1.toList.map Char.toLower
      · simp [hname]
      · simp [hname]

theorem digits_padded {width n : Nat} (positive : 0 < width) (h : n < 10 ^ width)
    (rest : List Char) : digits width (Decimal.padded width n ++ rest) = some (n, rest) := by
  have hlength := Decimal.length_padded positive h
  have htake : (Decimal.padded width n ++ rest).take width = Decimal.padded width n :=
    List.take_left' hlength
  have hdrop : (Decimal.padded width n ++ rest).drop width = rest := List.drop_left' hlength
  have hdigits : (Decimal.padded width n).all Decimal.isDigit = true :=
    List.all_eq_true.mpr fun c hc => Decimal.isDigit_of_mem_padded hc
  simp only [digits, htake, hdrop, hlength, hdigits, Decimal.value_padded, and_self, if_true]

/-! ### Filler -/

/-- Text that begins with neither a blank nor a comment. -/
def IsSolid (cs : List Char) : Prop := ∀ c ∈ cs.head?, isSpace c = false ∧ c ≠ '('

theorem isSolid_padded (width n : Nat) (rest : List Char) :
    IsSolid (Decimal.padded width n ++ rest) := by
  intro c hc
  have hdigit : Decimal.isDigit c = true := by
    have nonempty : Decimal.padded width n ≠ [] := by simp [Decimal.padded, Decimal.ofNat]
    obtain ⟨d, ds, hds⟩ := List.exists_cons_of_ne_nil nonempty
    rw [hds] at hc
    cases hc
    exact Decimal.isDigit_of_mem_padded (hds ▸ List.mem_cons_self)
  constructor
  · refine Bool.eq_false_iff.mpr fun space => ?_
    rw [isSpace, Bool.or_eq_true, beq_iff_eq, beq_iff_eq] at space
    rcases space with rfl | rfl <;> cases hdigit
  · rintro rfl
    cases hdigit

theorem IsSolid.append {p : List Char} (nonempty : p ≠ []) (solid : IsSolid p) (rest : List Char) :
    IsSolid (p ++ rest) := by
  intro c hc
  rw [List.head?_append_of_ne_nil _ nonempty] at hc
  exact solid c hc

theorem IsSolid.passFiller (solid : IsSolid rest) : passFiller 0 rest = some rest := by
  cases rest with
  | nil => rfl
  | cons c rest =>
      obtain ⟨hspace, hcomment⟩ := solid c rfl
      rw [MailDate.passFiller, if_neg (by simp [hspace]), if_neg hcomment]

theorem IsSolid.filler (solid : IsSolid rest) : filler rest = rest := by
  rw [MailDate.filler, solid.passFiller, Option.getD_some]

theorem IsSolid.filler_space (solid : IsSolid rest) : MailDate.filler (' ' :: rest) = rest := by
  have hpass : MailDate.passFiller 0 (' ' :: rest) = some rest := solid.passFiller
  rw [MailDate.filler, hpass, Option.getD_some]

theorem IsSolid.someFiller_space (solid : IsSolid rest) : someFiller (' ' :: rest) = some rest := by
  rw [someFiller, solid.filler_space]
  exact if_pos (Nat.lt_succ_self _)

theorem IsSolid.someSpace_space (solid : IsSolid rest) : someSpace (' ' :: rest) = some rest := by
  have hdrop : (' ' :: rest).dropWhile isSpace = rest := by
    rw [List.dropWhile_cons_of_pos rfl]
    cases rest with
    | nil => rfl
    | cons c rest => rw [List.dropWhile_cons_of_neg (by simp [(solid c rfl).1])]
  rw [someSpace, hdrop]
  exact if_pos (Nat.lt_succ_self _)

/-! ### Pieces of a date -/

theorem isSolid_colon : IsSolid (':' :: rest) := by
  rintro c ⟨⟩
  decide

/-- A day has one of the seven names. -/
theorem exists_weekdayName (dayNumber : Int) :
    ∃ k : Fin 7, weekdayName dayNumber = weekdayNames.getD k "" :=
  ⟨⟨((dayNumber + 3) % 7).toNat, by omega⟩, rfl⟩

/-- The weekday at the front is passed over with its comma. -/
theorem weekday_weekdayName (dayNumber : Int) (solid : IsSolid rest) :
    weekday ((weekdayName dayNumber).toList ++ ',' :: ' ' :: rest) = some rest := by
  have lengths : ∀ k : Fin 7, ∀ e ∈ weekdayNames.map (·, ()),
      (weekdayNames.getD k "").toList.length = e.1.toList.length := by decide
  have found : ∀ k : Fin 7, ((weekdayNames.map (·, ())).find? fun e =>
      (weekdayNames.getD k "").toList.map Char.toLower = e.1.toList.map Char.toLower).isSome =
        true := by decide
  obtain ⟨k, hname⟩ := exists_weekdayName dayNumber
  obtain ⟨e, he⟩ := Option.isSome_iff_exists.mp (found k)
  rw [weekday, hname, dropOneOf_append (lengths k), he]
  exact congrArg some solid.filler_space

/-- The name of a month is read as its number. -/
theorem dropOneOf_monthNames {month : Nat} (least : 1 ≤ month) (most : month ≤ 12)
    (rest : List Char) : dropOneOf (monthNames.zip (List.range' 1 12))
      ((monthNames.getD (month - 1) "").toList ++ rest) = some (month, rest) := by
  have lengths : ∀ k : Fin 12, ∀ e ∈ monthNames.zip (List.range' 1 12),
      (monthNames.getD k "").toList.length = e.1.toList.length := by decide
  have found : ∀ k : Fin 12, ((monthNames.zip (List.range' 1 12)).find? fun e =>
      (monthNames.getD k "").toList.map Char.toLower = e.1.toList.map Char.toLower).map (·.2) =
        some (k.val + 1) := by decide
  have hk : month - 1 < 12 := by omega
  obtain ⟨e, he, heq⟩ := Option.map_eq_some_iff.mp (found ⟨_, hk⟩)
  rw [dropOneOf_append (lengths ⟨_, hk⟩), he, Option.map_some, heq]
  simp only [Option.some.injEq, Prod.mk.injEq, and_true]
  omega

theorem isSolid_weekdayName (dayNumber : Int) (rest : List Char) :
    IsSolid ((weekdayName dayNumber).toList ++ rest) := by
  have first : ∀ k : Fin 7, (weekdayNames.getD k "").toList.head?.any
      (fun c => !isSpace c && c != '(') = true := by decide
  obtain ⟨k, hname⟩ := exists_weekdayName dayNumber
  obtain ⟨nonempty, solid⟩ := Text.head?_of_any (first k)
  rw [hname]
  exact IsSolid.append nonempty (fun c hc => by simpa using solid c hc) rest

theorem isSolid_monthName {month : Nat} (least : 1 ≤ month) (most : month ≤ 12)
    (rest : List Char) : IsSolid ((monthNames.getD (month - 1) "").toList ++ rest) := by
  have first : ∀ k : Fin 12, (monthNames.getD k "").toList.head?.any
      (fun c => !isSpace c && c != '(') = true := by decide
  obtain ⟨nonempty, solid⟩ := Text.head?_of_any (first ⟨month - 1, by omega⟩)
  exact IsSolid.append nonempty (fun c hc => by simpa using solid c hc) rest

theorem year_padded {y : Nat} (least : 1900 ≤ y) (most : y ≤ 9999) (solid : IsSolid rest) :
    year (Decimal.padded 4 y ++ ' ' :: rest) = some ((y : Int), rest) := by
  rw [year, digits_padded (by decide) (by omega)]
  simp only [if_pos least, solid.someSpace_space, Option.map_some]

theorem time_padded {hour minute second : Nat} (hhour : hour < 100) (hminute : minute < 100)
    (hsecond : second < 100) (solid : IsSolid rest) :
    time (Decimal.padded 2 hour ++ ':' :: (Decimal.padded 2 minute ++ ':' ::
      (Decimal.padded 2 second ++ ' ' :: rest))) = some ((hour, minute, second), rest) := by
  have two {n : Nat} (h : n < 100) (rest : List Char) :
      digits 2 (Decimal.padded 2 n ++ rest) = some (n, rest) := digits_padded (by decide) h rest
  have colon (rest : List Char) : dropChar ':' (filler (':' :: rest)) = some rest := by
    rw [isSolid_colon.filler]
    rfl
  simp only [time, two hhour, two hminute, two hsecond, colon, (isSolid_padded _ _ _).filler,
    solid.someFiller_space, Option.bind_eq_bind, Option.bind_some, Option.pure_def]

/-- The zones that stand for UTC in the fixed form. -/
def IsUtc (zone : String) : Prop := zone = "GMT" ∨ zone = "+0000"

theorem IsUtc.read {zone : String} (utc : IsUtc zone) :
    IsSolid zone.toList ∧ MailDate.zone zone.toList = some (0, []) := by
  rcases utc with rfl | rfl
  · refine ⟨?_, by decide⟩
    rintro c ⟨⟩
    decide
  · refine ⟨?_, by decide⟩
    rintro c ⟨⟩
    decide

theorem oneOrTwoDigits_padded {n : Nat} (h : n < 100) (rest : List Char) :
    oneOrTwoDigits (Decimal.padded 2 n ++ rest) = some (n, rest) := by
  rw [oneOrTwoDigits, digits_padded (by decide) h, Option.some_or]

/-- A date of the years from 1900 to 9999 with a time of day is read back from what is written of
it, if the zone stands for UTC. -/
theorem read_write {zone : String} {w : DateTime} (utc : IsUtc zone) (h : w.InCalendar)
    (least : 1900 ≤ w.date.year) (whole : w.nano = 0) : read (write zone w) = some w.nanos := by
  obtain ⟨⟨year, month, day⟩, hour, minute, second, nano⟩ := w
  obtain ⟨⟨-, most⟩, valid, hhour, hminute, hsecond, -⟩ := h
  dsimp only at least most valid hhour hminute hsecond whole
  obtain ⟨⟨hfirst, hlast⟩, hday, hlength⟩ := (Date.isValid_iff _).mp valid
  dsimp only at hfirst hlast hday hlength
  have hlongest := Date.monthLength_le year month
  subst whole
  lift year to Nat using by omega
  have padded (width n : Nat) (rest : List Char) := isSolid_padded width n rest
  have hweekday (rest : List Char) :=
    weekday_weekdayName (Date.dayNumber ⟨year, month, day⟩) (padded 2 day rest)
  have hmonth (rest : List Char) := (isSolid_monthName hfirst hlast rest).someFiller_space
  simp only [read, write, Int.toNat_natCast, (isSolid_weekdayName _ _).filler, hweekday, hmonth,
    oneOrTwoDigits_padded (show day < 100 by omega), 
    dropOneOf_monthNames hfirst hlast, (padded _ _ _).someFiller_space,
    year_padded (show 1900 ≤ year by omega) (show year ≤ 9999 by omega) (padded _ _ _),
    time_padded (show hour < 100 by omega) (show minute < 100 by omega) (show second < 100 by omega)
      utc.read.1, utc.read.2, Option.bind_eq_bind, Option.bind_some]
  have notLeap : second ≠ 60 := by omega
  rw [if_pos ⟨rfl, valid, by omega, by omega, by omega⟩, if_neg fun h => notLeap h.1]
  simp only [if_neg notLeap, Int.zero_mul, Int.sub_zero]

/-! ### The range of dates -/

theorem value_lt (ds : List Char) : Decimal.value ds < 10 ^ ds.length := by
  induction ds using List.reverseRecOn with
  | nil => decide
  | append_singleton ds c ih =>
      have hdigit : (Decimal.digit? c).getD 0 < 10 := by
        unfold Decimal.digit?
        split
        · rename_i h
          have hnine : c.toNat ≤ 57 := h.2
          simp only [Option.getD_some]
          change c.toNat - 48 < 10
          omega
        · decide
      rw [Decimal.value, List.foldl_concat, List.length_append, List.length_singleton, Nat.pow_succ]
      change Decimal.value ds * 10 + _ < _
      omega

theorem digits_lt {count n : Nat} {cs : List Char} (h : digits count cs = some (n, rest)) :
    n < 10 ^ count := by
  unfold digits at h
  dsimp only at h
  split at h
  · rename_i hdigits
    cases h
    have bound := value_lt (cs.take count)
    rwa [hdigits.1] at bound
  · cases h

theorem year_mem {cs : List Char} {y : Int} (h : year cs = some (y, rest)) :
    1900 ≤ y ∧ y ≤ 9999 := by
  unfold year at h
  split at h
  · rename_i n tail hdigits
    have hn := digits_lt hdigits
    split at h
    · obtain ⟨rest', -, heq⟩ := Option.map_eq_some_iff.mp h
      cases heq
      omega
    · cases h
  · simp only [Option.bind_eq_bind, Option.bind_eq_some_iff, Option.pure_def, Option.some.injEq,
      Prod.mk.injEq] at h
    obtain ⟨⟨n, tail⟩, hdigits, rest', -, rfl, -⟩ := h
    have hn := digits_lt hdigits
    dsimp only
    split <;> omega

theorem zone_mem {cs : List Char} {minutes : Int} (h : zone cs = some (minutes, rest)) :
    -1559 ≤ minutes ∧ minutes ≤ 1559 := by
  unfold zone at h
  split at h
  · rename_i hours tail hname
    obtain ⟨e, he, hdrop⟩ := List.exists_of_findSome?_eq_some hname
    obtain ⟨_, -, heq⟩ := Option.map_eq_some_iff.mp hdrop
    have named : ∀ e ∈ zoneNames, -8 ≤ e.2 ∧ e.2 ≤ 0 := by decide
    have hhours := named e he
    cases heq
    cases h
    omega
  · split at h
    · cases h
    · split at h
      · cases h
        omega
      · split at h
        · simp only [Option.bind_eq_bind, Option.bind_eq_some_iff] at h
          obtain ⟨⟨hours, _⟩, -, ⟨minutes', _⟩, -, h⟩ := h
          split at h
          · simp only [Option.pure_def, Option.some.injEq, Prod.mk.injEq] at h
            obtain ⟨rfl, -⟩ := h
            split <;> omega
          · cases h
        · cases h

/-- A date that is read lies in the calendar, up to the offset of its zone. -/
theorem read_mem {cs : List Char} {n : Int} (h : read cs = some n) :
    -4371589 * 86400 * nanosPerSecond ≤ n ∧ n ≤ 2932899 * 86400 * nanosPerSecond := by
  simp only [read, Option.bind_eq_bind, Option.bind_eq_some_iff] at h
  obtain ⟨_, -, ⟨day, _⟩, -, _, -, ⟨month, _⟩, -, _, -, ⟨y, _⟩, hyear, ⟨⟨hour, minute, second⟩, _⟩,
    -, ⟨offset, _⟩, hzone, h⟩ := h
  have hy := year_mem hyear
  have hoffset := zone_mem hzone
  dsimp only at h
  split at h
  · rename_i sound
    obtain ⟨-, valid, hhour, hminute, hsecond⟩ := sound
    have days := (Date.year_mem_iff valid).mp ⟨by dsimp only; omega, hy.2⟩
    have hsecond' : (if second = 60 then 59 else second) < 60 := by split <;> omega
    have hnano : (if second = 60 then 999999999 else 0) < 1000000000 := by split <;> omega
    -- the second and its fraction stay below their limits whether or not it is a leap second
    generalize (if second = 60 then 59 else second) = s at h hsecond'
    generalize (if second = 60 then 999999999 else 0) = nano at h hnano
    split at h
    · cases h
    · cases h
      simp only [DateTime.nanos, nanosPerSecond]
      omega
  · cases h

end MailDate

end FederatedAccess
