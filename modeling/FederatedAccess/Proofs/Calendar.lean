import FederatedAccess.Time.Calendar
import Mathlib.Tactic.IntervalCases

/-!
# The calendar has a date for each day

Every day number has a valid date with that number, and the years from -9999 to 9999 take up a range
of day numbers without gaps. So the instants are exactly the dates and times of day of these years:
an instant is out of range when its year is.
-/

namespace FederatedAccess

namespace Date

/-! ### Days of an era -/

/-- A day of an era falls on a day of a year, both counted from zero and the years from March. -/
structure Falls (n y k : Int) : Prop where
  year : 0 ≤ y ∧ y < 400
  sum : n = 365 * y + y / 4 - y / 100 + k
  least : 0 ≤ k
  /-- The leap day is the last of a year that begins in March. -/
  most : k ≤ 364 ∨ k = 365 ∧ isLeap (y + 1) = true

/-- The year of an era that a day falls in. -/
def yearOfEra (n : Int) : Int := (n - n / 1460 + n / 36524 - n / 146096) / 365

/-- The day of a year on which a day of an era falls. -/
def dayOfYear (n : Int) : Int := n - (365 * yearOfEra n + yearOfEra n / 4 - yearOfEra n / 100)

/-- The date of a day of a year of an era. -/
def ofYearDay (era y k : Int) : Date :=
  let m := (5 * k + 2) / 153
  let month := if m < 10 then m + 3 else m - 9
  let year := y + era * 400
  ⟨if month ≤ 2 then year + 1 else year, month.toNat, (k - daysBeforeMonth m + 1).toNat⟩

theorem ofDayNumber_eq (n : Int) : ofDayNumber n =
    ofYearDay ((n + 719468) / 146097) (yearOfEra ((n + 719468) % 146097))
      (dayOfYear ((n + 719468) % 146097)) := rfl

theorem isLeap_iff (y : Int) : isLeap y = true ↔ y % 4 = 0 ∧ (y % 100 ≠ 0 ∨ y % 400 = 0) := by
  simp [isLeap]

/-- Leap years recur after an era. -/
theorem isLeap_add (y era : Int) : isLeap (y + era * 400) = isLeap y := by
  have hfour : (y + era * 400) % 4 = y % 4 := by omega
  have hcentury : (y + era * 400) % 100 = y % 100 := by omega
  have hera : (y + era * 400) % 400 = y % 400 := by omega
  rw [isLeap, isLeap, hfour, hcentury, hera]

theorem isValid_iff (d : Date) : d.isValid = true ↔
    (1 ≤ d.month ∧ d.month ≤ 12) ∧ 1 ≤ d.day ∧ d.day ≤ monthLength d.year d.month := by
  simp only [isValid, Bool.and_eq_true, decide_eq_true_iff, and_assoc]

/-- A day of an era lies in one of four centuries, in one of the periods of four years of it, and in
one of the years of that. Only the last year of a period has a leap day, and the last period of a
century has none unless the century ends the era. -/
theorem exists_cycle (n : Int) (least : 0 ≤ n) (most : n < 146097) :
    ∃ c a b k : Int, n = 36524 * c + 1461 * a + 365 * b + k ∧ (0 ≤ c ∧ c ≤ 3) ∧
      (0 ≤ a ∧ a ≤ 24) ∧ (0 ≤ b ∧ b ≤ 3) ∧ 0 ≤ k ∧
      (k ≤ 364 ∨ k = 365 ∧ b = 3 ∧ (a < 24 ∨ c = 3)) := by
  refine ⟨min (n / 36524) 3, (n - 36524 * min (n / 36524) 3) / 1461,
    min ((n - 36524 * min (n / 36524) 3) % 1461 / 365) 3,
    (n - 36524 * min (n / 36524) 3) % 1461 -
      365 * min ((n - 36524 * min (n / 36524) 3) % 1461 / 365) 3, ?_⟩
  generalize hcentury : min (n / 36524) 3 = c
  generalize hrest : n - 36524 * c = r
  generalize hperiod : r % 1461 = s
  generalize hyear : min (s / 365) 3 = b
  omega

theorem falls (n : Int) (least : 0 ≤ n) (most : n < 146097) :
    Falls n (yearOfEra n) (dayOfYear n) := by
  obtain ⟨c, a, b, k, hn, ⟨hc, hc'⟩, ha, hb, hk, hlast⟩ := exists_cycle n least most
  have hyear : yearOfEra n = 100 * c + 4 * a + b := by
    unfold yearOfEra
    have hperiods : n / 1460 = 25 * c + a ∨ n / 1460 = 25 * c + a + 1 := by omega
    have hcenturies : n / 36524 = c ∨ n / 36524 = 4 ∧ n = 146096 := by omega
    interval_cases c <;> omega
  have hday : dayOfYear n = k := by
    rw [dayOfYear, hyear]
    omega
  rw [hyear, hday]
  exact ⟨by omega, by omega, hk, by rw [isLeap_iff]; omega⟩

theorem isValid_ofYearDay (era : Int) {n y k : Int} (h : Falls n y k) :
    (ofYearDay era y k).isValid = true := by
  obtain ⟨-, -, least, most⟩ := h
  have hmonth : 0 ≤ (5 * k + 2) / 153 ∧ (5 * k + 2) / 153 ≤ 11 := by omega
  have hleap : isLeap (y + era * 400 + 1) = isLeap (y + 1) := by
    rw [← isLeap_add (y + 1) era]
    congr 1
    omega
  rw [isValid_iff]
  unfold ofYearDay
  generalize hm : (5 * k + 2) / 153 = m at hmonth
  obtain ⟨hfirst, hlast⟩ := hmonth
  interval_cases m
  case «11» =>
    -- February, whose length depends on the year
    simp only [daysBeforeMonth, monthLength]
    cases hl : isLeap (y + 1) <;> simp [hl, hleap] at most ⊢ <;> omega
  all_goals
    simp [monthLength, daysBeforeMonth]
    omega

theorem dayNumber_ofYearDay (era : Int) {n y k : Int} (h : Falls n y k) :
    (ofYearDay era y k).dayNumber = era * 146097 + n - 719468 := by
  obtain ⟨hyear, sum, least, most⟩ := h
  have hmonth : 0 ≤ (5 * k + 2) / 153 ∧ (5 * k + 2) / 153 ≤ 11 := by omega
  unfold ofYearDay
  generalize hm : (5 * k + 2) / 153 = m at hmonth
  obtain ⟨hfirst, hlast⟩ := hmonth
  interval_cases m <;> simp [dayNumber, daysBeforeMonth] <;> omega

/-- The date with a number of days is one. -/
theorem isValid_ofDayNumber (n : Int) : (ofDayNumber n).isValid = true := by
  rw [ofDayNumber_eq]
  exact isValid_ofYearDay _ (falls _ (by omega) (by omega))

/-- The date with a number of days has that number of days. -/
theorem dayNumber_ofDayNumber (n : Int) : (ofDayNumber n).dayNumber = n := by
  rw [ofDayNumber_eq, dayNumber_ofYearDay _ (falls _ (by omega) (by omega))]
  omega

/-! ### Days of years -/

/-- The number of the first day of a year. -/
def newYear (y : Int) : Int :=
  365 * (y - 1) + (y - 1) / 4 - (y - 1) / 100 + (y - 1) / 400 - 719162

theorem newYear_mono {y z : Int} (h : y ≤ z) : newYear y ≤ newYear z := by
  unfold newYear
  omega

/-- The days of a year lie between its first day and that of the next. -/
theorem dayNumber_mem_year {d : Date} (valid : d.isValid = true) :
    newYear d.year ≤ d.dayNumber ∧ d.dayNumber < newYear (d.year + 1) := by
  obtain ⟨year, month, day⟩ := d
  obtain ⟨⟨hfirst, hlast⟩, hday, hlength⟩ := (isValid_iff _).mp valid
  have hlongest : monthLength year month ≤ 31 := by
    unfold monthLength
    split
    · split <;> omega
    · split <;> omega
  dsimp only at hfirst hlast hday hlength ⊢
  unfold newYear dayNumber daysBeforeMonth
  interval_cases month <;> simp <;> omega

/-- The years from -9999 to 9999 take up the days from the first of one to the last of the other. -/
theorem year_mem_iff {d : Date} (valid : d.isValid = true) :
    (-9999 ≤ d.year ∧ d.year ≤ 9999) ↔ -4371587 ≤ d.dayNumber ∧ d.dayNumber < 2932897 := by
  obtain ⟨hbegin, hend⟩ := dayNumber_mem_year valid
  have hfirst : newYear (-9999) = -4371587 := by decide
  have hlast : newYear 10000 = 2932897 := by decide
  constructor
  · rintro ⟨hlow, hhigh⟩
    have hbefore : newYear (-9999) ≤ newYear d.year := newYear_mono hlow
    have hafter : newYear (d.year + 1) ≤ newYear 10000 := newYear_mono (by omega)
    omega
  · rintro ⟨hlow, hhigh⟩
    refine ⟨?_, ?_⟩
    · by_contra hyear
      have hbefore : newYear (d.year + 1) ≤ newYear (-9999) := newYear_mono (by omega)
      omega
    · by_contra hyear
      have hafter : newYear 10000 ≤ newYear d.year := newYear_mono (by omega)
      omega

end Date

namespace DateTime

/-- The calendar from year -9999 to year 9999 has the date and time of day. -/
structure InCalendar (w : DateTime) : Prop where
  year : -9999 ≤ w.date.year ∧ w.date.year ≤ 9999
  date : w.date.isValid = true
  hour : w.hour < 24
  minute : w.minute < 60
  second : w.second < 60
  nano : w.nano < 1000000000

theorem ofNanos_eq (n : Int) : ofNanos n =
    ⟨Date.ofDayNumber (n / 1000000000 / 86400), (n / 1000000000 % 86400).toNat / 3600,
      (n / 1000000000 % 86400).toNat / 60 % 60, (n / 1000000000 % 86400).toNat % 60,
      (n % 1000000000).toNat⟩ := by
  have hseconds : n.fdiv nanosPerSecond = n / 1000000000 :=
    Int.fdiv_eq_ediv_of_nonneg _ (by decide)
  have hnano : n.fmod nanosPerSecond = n % 1000000000 := Int.fmod_eq_emod_of_nonneg _ (by decide)
  rw [ofNanos, hseconds, hnano, Int.fdiv_eq_ediv_of_nonneg _ (by decide),
    Int.fmod_eq_emod_of_nonneg _ (by decide)]

/-- The date and time with a count of nanoseconds has that count. -/
@[simp] theorem nanos_ofNanos (n : Int) : (ofNanos n).nanos = n := by
  rw [ofNanos_eq]
  simp only [nanos, Date.dayNumber_ofDayNumber, nanosPerSecond]
  omega

/-- Only the year decides whether the calendar has the date and time with a count. -/
theorem inCalendar_ofNanos {n : Int}
    (year : -9999 ≤ (ofNanos n).date.year ∧ (ofNanos n).date.year ≤ 9999) :
    (ofNanos n).InCalendar := by
  refine ⟨year, ?_, ?_, ?_, ?_, ?_⟩
  · rw [ofNanos_eq]
    exact Date.isValid_ofDayNumber _
  all_goals
    rw [ofNanos_eq]
    dsimp only
    omega

theorem year_ofNanos_iff {n : Int} :
    (-9999 ≤ (ofNanos n).date.year ∧ (ofNanos n).date.year ≤ 9999) ↔
      -377705116800 * nanosPerSecond ≤ n ∧ n < 253402300800 * nanosPerSecond := by
  rw [ofNanos_eq, Date.year_mem_iff (Date.isValid_ofDayNumber _), Date.dayNumber_ofDayNumber]
  simp only [nanosPerSecond]
  omega

/-- The calendar has an instant at an offset exactly when it has its local date and time. -/
theorem reaches_iff (o : UtcOffset) (n : Int) :
    o.Reaches n ↔ ∃ w : DateTime, w.InCalendar ∧ w.nanos = n + o.nanos := by
  constructor
  · intro reaches
    exact ⟨ofNanos (n + o.nanos), inCalendar_ofNanos (year_ofNanos_iff.mpr reaches),
      nanos_ofNanos _⟩
  · rintro ⟨w, h, hw⟩
    have hdays := (Date.year_mem_iff h.date).mp h.year
    obtain ⟨-, -, hour, minute, second, nano⟩ := h
    rw [UtcOffset.Reaches, ← hw]
    simp only [nanos, nanosPerSecond]
    omega

end DateTime

end FederatedAccess
