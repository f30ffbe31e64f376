import FederatedAccess.Proofs.Json.Written
import FederatedAccess.Proofs.Number.Decimal

/-!
# Numbers as documents write them

A numeral has whole digits, of which the first is a zero only if it is the only one, and may have a
sign, a fraction and an exponent. It is cut into one lexeme, whatever ends it. The lexeme holds an
integer of 64 bits exactly when the numeral writes one: a fraction, an exponent, a sign before zero
or too many digits leave none.
-/

namespace FederatedAccess.Json

/-- Decimal digits, at least one. -/
structure Digits where
  text : List Char
  nonempty : text ≠ []
  digits : ∀ c ∈ text, Decimal.isDigit c = true

/-- The exponent of a numeral. -/
structure Exponent where
  mark : Char
  sign : Option Char
  digits : Digits
  marked : mark = 'e' ∨ mark = 'E'
  signed : ∀ c ∈ sign, c = '+' ∨ c = '-'

/-- A number as it is written. -/
structure Numeral where
  below : Bool
  whole : Digits
  fraction : Option Digits
  exponent : Option Exponent
  plain : whole.text.head? = some '0' → whole.text.length = 1

/-- The values of digits. -/
def Digits.values (ds : Digits) : List Nat := ds.text.map fun c => (Decimal.digit? c).getD 0

/-- The number that digits make. -/
def Digits.value (ds : Digits) : Nat := Decimal.value ds.text

/-- The text of an exponent. -/
def Exponent.write (e : Exponent) : List Char := e.mark :: (e.sign.toList ++ e.digits.text)

/-- The value of an exponent. -/
def Exponent.value (e : Exponent) : Int :=
  if e.sign = some '-' then -(e.digits.value : Int) else e.digits.value

namespace Numeral

/-- The text after the whole digits. -/
def tail (fraction : Option Digits) (exponent : Option Exponent) : List Char :=
  (fraction.elim [] fun ds => '.' :: ds.text) ++ exponent.elim [] Exponent.write

/-- The text of a numeral. -/
def write (n : Numeral) : List Char :=
  (if n.below then ['-'] else []) ++ (n.whole.text ++ tail n.fraction n.exponent)

/-- The number as readers tell it apart. -/
def number (n : Numeral) : Number :=
  makeNumber n.below n.whole.values (n.fraction.map Digits.values) (n.exponent.map Exponent.value)

/-- The integer of a numeral that has no fraction, no exponent and no sign before zero. -/
def integer? (n : Numeral) : Option Int :=
  if n.fraction.isSome ∨ n.exponent.isSome ∨ (n.below = true ∧ n.whole.value = 0) then none
  else some (if n.below then -(n.whole.value : Int) else n.whole.value)

end Numeral

/-! ### Digits -/

namespace Digits

variable (ds : Digits)

theorem foldl_values : ds.values.foldl (fun m d => m * 10 + d) 0 = ds.value := List.foldl_map

theorem spanDigits_text {rest : Source} (stop : ∀ c ∈ rest.head?, isDigit c = false) :
    spanDigits (ds.text.map some ++ rest) = (ds.values, rest) :=
  spanDigits_append ds.digits stop

theorem isEmpty_values : ds.values.isEmpty = false := by
  simp [values, ds.nonempty]

/-- The first digit is a character of its own, neither a sign nor a mark. -/
theorem exists_cons : ∃ c cs, ds.text = c :: cs ∧ Decimal.isDigit c = true := by
  obtain ⟨c, cs, h⟩ := List.exists_cons_of_ne_nil ds.nonempty
  exact ⟨c, cs, h, ds.digits c (h ▸ List.mem_cons_self)⟩

/-- Digits begin with the value zero only if they begin with the digit zero. -/
theorem head?_text (h : ds.values.head? = some 0) : ds.text.head? = some '0' := by
  obtain ⟨c, cs, hc, digit⟩ := ds.exists_cons
  have bounds := Decimal.toNat_of_isDigit digit
  obtain ⟨d, hd⟩ := Option.isSome_iff_exists.mp digit
  have hzero : d = 0 := by simpa [values, hc, hd] using h
  have hvalue : d = c.toNat - 48 := by
    unfold Decimal.digit? at hd
    split at hd
    · exact (Option.some.inj hd).symm
    · cases hd
  have hnat : c.toNat = '0'.toNat := by
    change c.toNat = 48
    omega
  rw [hc, List.head?_cons, Char.toNat_inj.mp hnat]

/-- The digits of a natural number. -/
def ofNat (n : Nat) : Digits where
  text := Decimal.ofNat n
  nonempty := Nat.toDigits_ne_nil
  digits _ hc := Decimal.isDigit_of_mem_ofNat hc

@[simp] theorem value_ofNat (n : Nat) : (ofNat n).value = n := Decimal.value_ofNat n

end Digits

/-! ### Cutting -/

section

variable {rest : Source}

theorem readFraction_digits (ds : Digits) (stop : ∀ c ∈ rest.head?, isDigit c = false) :
    readFraction (('.' :: ds.text).map some ++ rest) = .ok (some ds.values, rest) := by
  rw [List.map_cons, List.cons_append, readFraction, ds.spanDigits_text stop]
  simp only [ds.isEmpty_values, Bool.false_eq_true, if_false]

theorem readExponent_write (e : Exponent) (stop : ∀ c ∈ rest.head?, isDigit c = false) :
    readExponent (e.write.map some ++ rest) = .ok (some e.value, rest) := by
  have hspan := e.digits.spanDigits_text stop
  have hempty := e.digits.isEmpty_values
  have hfold := e.digits.foldl_values
  obtain ⟨c, cs, hc, digit⟩ := e.digits.exists_cons
  have hsign : e.sign = none ∨ e.sign = some '+' ∨ e.sign = some '-' := by
    cases hs : e.sign with
    | none => exact .inl rfl
    | some c => exact .inr ((e.signed c hs).imp (congrArg some) (congrArg some))
  rw [Exponent.write, List.map_cons, List.cons_append, Exponent.value, ← hfold]
  rcases hsign with hs | hs | hs
  · have unsigned {d : Char} (hd : Decimal.isDigit d = false) : c ≠ d := by
      rintro rfl
      exact Bool.false_ne_true (hd.symm.trans digit)
    rw [hc] at hspan
    rw [hs, Option.toList_none, List.nil_append, hc, readExponent, if_pos e.marked]
    · simp only [hspan, hempty]
      rfl
    · simp [unsigned (d := '+') rfl]
    · simp [unsigned (d := '-') rfl]
  · rw [hs]
    simp only [readExponent, e.marked, Option.toList_some, List.map_cons,
      List.cons_append, List.nil_append, hspan, hempty]
    rfl
  · rw [hs]
    simp only [readExponent, e.marked, Option.toList_some, List.map_cons,
      List.cons_append, List.nil_append, hspan, hempty]
    rfl

/-- What follows a fraction goes on with neither digits nor another fraction. -/
theorem readFraction_exponent (exponent : Option Exponent) (ends : Ends rest) :
    readFraction ((exponent.elim [] Exponent.write).map some ++ rest) =
        .ok (none, (exponent.elim [] Exponent.write).map some ++ rest) ∧
      ∀ c ∈ ((exponent.elim [] Exponent.write).map some ++ rest).head?, isDigit c = false := by
  cases exponent with
  | none => exact ⟨ends.readFraction, ends.not_isDigit⟩
  | some e =>
      obtain ⟨mark, sign, ds, marked, signed⟩ := e
      rcases marked with rfl | rfl <;> exact ⟨rfl, by rintro c ⟨⟩; rfl⟩

theorem readExponent_exponent (exponent : Option Exponent) (ends : Ends rest) :
    readExponent ((exponent.elim [] Exponent.write).map some ++ rest) =
      .ok (exponent.map Exponent.value, rest) := by
  cases exponent with
  | none => exact ends.readExponent
  | some e => exact readExponent_write e ends.not_isDigit

namespace Numeral

/-- What follows the whole digits is read as the fraction and the exponent. -/
theorem read_tail (fraction : Option Digits) (exponent : Option Exponent) (ends : Ends rest) :
    ∃ later, readFraction ((tail fraction exponent).map some ++ rest) =
        .ok (fraction.map Digits.values, later) ∧
      readExponent later = .ok (exponent.map Exponent.value, rest) ∧
      ∀ c ∈ ((tail fraction exponent).map some ++ rest).head?, isDigit c = false := by
  obtain ⟨hfraction, hstop⟩ := readFraction_exponent exponent ends
  refine ⟨_, ?fraction, readExponent_exponent exponent ends, ?stop⟩
  case fraction =>
    rw [tail, List.map_append, List.append_assoc]
    cases fraction with
    | none => exact hfraction
    | some ds => exact readFraction_digits ds hstop
  case stop =>
    rw [tail, List.map_append, List.append_assoc]
    cases fraction with
    | none => exact hstop
    | some ds => rintro c ⟨⟩; rfl

variable (n : Numeral)

/-- A numeral without its sign is read as its number, up to what ends it. -/
theorem readMagnitude_eq (ends : Ends rest) : readMagnitude n.below
    ((n.whole.text ++ tail n.fraction n.exponent).map some ++ rest) = .ok (n.number, rest) := by
  obtain ⟨later, hfraction, hexponent, hstop⟩ := read_tail n.fraction n.exponent ends
  have hplain : ¬(n.whole.values.head? = some 0 ∧ n.whole.values.length ≠ 1) := by
    rintro ⟨zero, more⟩
    rw [Digits.values, List.length_map] at more
    exact more (n.plain (n.whole.head?_text zero))
  rw [List.map_append, List.append_assoc, readMagnitude, n.whole.spanDigits_text hstop]
  simp only [n.whole.isEmpty_values, Bool.false_eq_true, if_false, if_neg hplain, hfraction, bind,
    Except.bind, hexponent]
  rfl

/-- A numeral is cut into its number. -/
theorem cut_write : Cut n.write [.number n.number] := by
  have hread {rest : Source} (ends : Ends rest) := n.readMagnitude_eq ends
  obtain ⟨c, cs, hc, digit⟩ := n.whole.exists_cons
  rw [write]
  cases hb : n.below with
  | true =>
      rw [hb] at hread
      refine Cut.one rfl fun rest ends => ?_
      change lexemeOf .number (readMagnitude true
        ((n.whole.text ++ tail n.fraction n.exponent).map some ++ rest)) = _
      rw [hread ends]
      rfl
  | false =>
      rw [hb] at hread
      simp only [Bool.false_eq_true, if_false, List.nil_append, hc, List.cons_append]
      refine Cut.one (isGap_digit digit) fun rest ends => ?_
      have hrest := hread ends
      rw [hc] at hrest
      rw [lexOne_digit digit]
      change lexemeOf .number (readMagnitude false
        ((c :: cs ++ tail n.fraction n.exponent).map some ++ rest)) = _
      rw [hrest]
      rfl

end Numeral

end

/-! ### Integers of 64 bits -/

/-- The integer of 64 bits that a number holds. -/
def Number.int64? : Number → Option Int
  | .natural n => if n < Nat.pow 2 63 then some n else none
  | .negative n => some (-(n : Int))
  | _ => none

section

variable {below : Bool} {whole : List Nat}

/-- Some digit is dropped when the number that the digits make cannot be kept exactly. -/
theorem gather_lt {ds : List Nat} {significand : Nat} (used : Nat)
    (kept : significand ≤ maxSignificand)
    (large : maxSignificand < ds.foldl (fun m d => m * 10 + d) significand) :
    (gather significand used ds).2 < used + ds.length := by
  induction ds generalizing significand used with
  | nil => exact absurd kept (Nat.not_le_of_lt large)
  | cons d ds ih =>
      rw [gather, List.length_cons]
      split
      · rename_i goes
        have later := ih (used + 1) goes large
        omega
      · omega

/-- A number that is not kept exactly, or has a fraction or an exponent, holds no integer. -/
theorem int64?_makeNumber_eq_none {fraction : Option (List Nat)} {exponent : Option Int}
    (h : ¬(fraction = none ∧ exponent = none ∧
      Kept below (whole.foldl (fun m d => m * 10 + d) 0))) :
    (makeNumber below whole fraction exponent).int64? = none := by
  have hreal : ¬(whole.length - (gather 0 0 whole).2 = 0 ∧ fraction.isNone = true ∧
      exponent.isNone = true ∧ (!below || (decide (0 < (gather 0 0 whole).1) &&
        decide ((gather 0 0 whole).1 ≤ Nat.pow 2 63))) = true) := by
    rintro ⟨hdropped, hfraction, hexponent, hfits⟩
    have exactly : whole.foldl (fun m d => m * 10 + d) 0 ≤ maxSignificand := by
      by_contra hle
      have hlt := gather_lt 0 (Nat.zero_le maxSignificand) (Nat.lt_of_not_le hle)
      omega
    rw [Option.isNone_iff_eq_none] at hfraction hexponent
    refine h ⟨hfraction, hexponent, exactly, fun hbelow => ?_⟩
    rw [gather_eq 0 exactly, hbelow] at hfits
    simpa using hfits
  simp only [makeNumber, if_neg hreal]
  split <;> rfl

end

namespace Numeral

variable {n : Numeral} {k : Int}

theorem integer?_eq_some_iff : n.integer? = some k ↔
    n.fraction = none ∧ n.exponent = none ∧ (n.below = true → 0 < n.whole.value) ∧
      k = if n.below then -(n.whole.value : Int) else n.whole.value := by
  cases hfraction : n.fraction <;> cases hexponent : n.exponent <;> cases hbelow : n.below <;>
    simp [integer?, hfraction, hexponent, hbelow, Nat.pos_iff_ne_zero, eq_comm]

/-- A numeral with neither fraction nor exponent is its digits with its sign. -/
theorem number_of_plain (fraction : n.fraction = none) (exponent : n.exponent = none)
    (kept : Kept n.below n.whole.value) :
    n.number = if n.below then .negative n.whole.value else .natural n.whole.value := by
  rw [← n.whole.foldl_values] at kept ⊢
  rw [number, fraction, exponent]
  exact kept.makeNumber_eq

/-- The number of a numeral holds the integer that the numeral writes, within 64 bits. -/
theorem int64?_number : n.number.int64? = some k ↔
    n.integer? = some k ∧ -(Nat.pow 2 63 : Int) ≤ k ∧ k < Nat.pow 2 63 := by
  have hpow : Nat.pow 2 63 = 2 ^ 63 := rfl
  have hmax : maxSignificand = 2 ^ 64 - 1 := rfl
  rw [integer?_eq_some_iff]
  by_cases h : n.fraction = none ∧ n.exponent = none ∧ Kept n.below n.whole.value
  · obtain ⟨hfraction, hexponent, kept⟩ := h
    rw [number_of_plain hfraction hexponent kept]
    cases hbelow : n.below with
    | true =>
        obtain ⟨positive, bound⟩ := kept.signed hbelow
        simp [Number.int64?, hfraction, hexponent]
        omega
    | false =>
        simp [Number.int64?, hfraction, hexponent]
        omega
  · have hnone : n.number.int64? = none := by
      apply int64?_makeNumber_eq_none
      rwa [n.whole.foldl_values, Option.map_eq_none_iff, Option.map_eq_none_iff]
    rw [hnone]
    refine iff_of_false nofun ?_
    rintro ⟨⟨hfraction, hexponent, positive, rfl⟩, low, high⟩
    refine h ⟨hfraction, hexponent, ?_, fun hbelow => ⟨positive hbelow, ?_⟩⟩
    · cases hbelow : n.below with
      | true =>
          rw [hbelow, if_pos rfl] at low
          omega
      | false =>
          rw [hbelow, if_neg Bool.false_ne_true] at high
          omega
    · rw [if_pos hbelow] at low
      omega

/-- An integer as it is written plainly. -/
def ofInt (k : Int) : Numeral where
  below := k < 0
  whole := .ofNat k.natAbs
  fraction := none
  exponent := none
  plain zero := by
    have hzero : k.natAbs = 0 := by
      by_contra h
      refine head?_digitsOf h ?_
      rw [digitsOf, List.head?_map]
      exact congrArg (Option.map _) zero
    rw [hzero]
    rfl

theorem write_ofInt (k : Int) : (ofInt k).write = Decimal.ofInt k := by
  cases k with
  | ofNat k => simp [write, tail, ofInt, Digits.ofNat, Decimal.ofInt]
  | negSucc k => simp [write, tail, ofInt, Digits.ofNat, Decimal.ofInt]

theorem integer?_ofInt (k : Int) : (ofInt k).integer? = some k := by
  have hvalue : (ofInt k).whole.value = k.natAbs := Digits.value_ofNat _
  have hbelow : (ofInt k).below = true ↔ k < 0 := decide_eq_true_iff
  refine integer?_eq_some_iff.mpr ⟨rfl, rfl, fun negative => ?_, ?_⟩
  · have hneg := hbelow.mp negative
    omega
  · rw [hvalue]
    split
    · rename_i negative
      have hneg := hbelow.mp negative
      omega
    · rename_i positive
      rw [hbelow] at positive
      omega

theorem number_ofInt (low : -2 ^ 63 ≤ k) (high : k < 2 ^ 63) :
    (ofInt k).number = .ofInt k := by
  have hpow : Nat.pow 2 63 = 2 ^ 63 := rfl
  have hmax : maxSignificand = 2 ^ 64 - 1 := rfl
  have hvalue : (ofInt k).whole.value = k.natAbs := Digits.value_ofNat _
  have kept : Kept (ofInt k).below (ofInt k).whole.value := by
    rw [hvalue]
    refine ⟨by omega, fun negative => ?_⟩
    have hneg : k < 0 := of_decide_eq_true negative
    omega
  rw [number_of_plain rfl rfl kept, hvalue]
  cases k with
  | ofNat k => rfl
  | negSucc k => exact if_pos (decide_eq_true (Int.negSucc_lt_zero k))

end Numeral

/-- An integer of 64 bits is cut as its number. -/
theorem cut_ofInt {n : Int} (low : -2 ^ 63 ≤ n) (high : n < 2 ^ 63) :
    Cut (Decimal.ofInt n) [.number (.ofInt n)] := by
  rw [← Numeral.write_ofInt, ← Numeral.number_ofInt low high]
  exact (Numeral.ofInt n).cut_write

end FederatedAccess.Json
