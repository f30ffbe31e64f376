import FederatedAccess.Number.Decimal
import FederatedAccess.Text.Blank

/-!
# Reading digits

A text of digits is read as its value, however many zeros it starts with, and is refused exactly
when the value exceeds the limit. With a sign it is read as an integer.
-/

namespace FederatedAccess.Decimal

theorem toNat_of_isDigit {c : Char} (digit : isDigit c = true) :
    48 ≤ c.toNat ∧ c.toNat ≤ 57 := by
  unfold isDigit digit? at digit
  split at digit
  · rename_i h
    exact h
  · cases digit

/-- A digit is no blank. -/
theorem not_isBlank_of_isDigit {c : Char} (digit : isDigit c = true) : Text.isBlank c = false := by
  obtain ⟨low, high⟩ := toNat_of_isDigit digit
  refine Bool.eq_false_iff.mpr fun blank => ?_
  simp only [Text.isBlank, Bool.or_eq_true, Bool.and_eq_true, decide_eq_true_eq, beq_iff_eq] at blank
  omega

/-- The value of digits that go on from a number. -/
def valueFrom (n : Nat) (cs : List Char) : Nat :=
  cs.foldl (fun n c => n * 10 + (digit? c).getD 0) n

@[simp] theorem valueFrom_cons (n : Nat) (c : Char) (cs : List Char) :
    valueFrom n (c :: cs) = valueFrom (n * 10 + (digit? c).getD 0) cs := rfl

/-- Digits never make a number smaller. -/
theorem le_valueFrom (n : Nat) (cs : List Char) : n ≤ valueFrom n cs := by
  induction cs generalizing n with
  | nil => exact Nat.le_refl n
  | cons c cs ih =>
      have step := ih (n * 10 + (digit? c).getD 0)
      rw [valueFrom_cons]
      omega

/-- Once a number exceeds the limit, what its digits go on to exceeds it too. -/
theorem readDigits_of_digits {limit n : Nat} (excess : Fault) {ds : List Char}
    (digits : ∀ c ∈ ds, isDigit c = true) (within : n ≤ limit) :
    readDigits limit excess n ds =
      if valueFrom n ds ≤ limit then .ok (valueFrom n ds) else .error excess := by
  induction ds generalizing n with
  | nil => exact (if_pos within).symm
  | cons c ds ih =>
      obtain ⟨d, hd⟩ := Option.isSome_iff_exists.mp (digits c List.mem_cons_self)
      simp only [readDigits, valueFrom_cons, hd, Option.getD_some]
      split
      · rename_i goes
        exact ih (fun c hc => digits c (List.mem_cons_of_mem _ hc)) goes
      · rename_i stops
        have grows := le_valueFrom (n * 10 + d) ds
        rw [if_neg (by omega)]

/-- Only digits are read. -/
theorem isDigit_of_readDigits {limit n m : Nat} {excess : Fault} {cs : List Char}
    (read : readDigits limit excess n cs = .ok m) : ∀ c ∈ cs, isDigit c = true := by
  induction cs generalizing n with
  | nil => exact fun c hc => absurd hc List.not_mem_nil
  | cons c cs ih =>
      unfold readDigits at read
      split at read
      · cases read
      · rename_i d hd
        split at read
        · refine List.forall_mem_cons.mpr ⟨?_, ih read⟩
          rw [isDigit, hd, Option.isSome_some]
        · cases read

/-- What is read from a text are its digits, within the limit. -/
theorem readDigits_eq_ok_iff {limit m : Nat} {excess : Fault} {cs : List Char} :
    readDigits limit excess 0 cs = .ok m ↔
      (∀ c ∈ cs, isDigit c = true) ∧ value cs = m ∧ m ≤ limit := by
  constructor
  · intro read
    have digits := isDigit_of_readDigits read
    rw [readDigits_of_digits excess digits (Nat.zero_le limit)] at read
    split at read
    · rename_i within
      obtain rfl := Except.ok.inj read
      exact ⟨digits, rfl, within⟩
    · cases read
  · rintro ⟨digits, rfl, within⟩
    rw [readDigits_of_digits excess digits (Nat.zero_le limit)]
    exact if_pos within

/-- What is read is within the limit. -/
theorem le_of_readNat {limit n : Nat} {cs : List Char} (read : readNat limit cs = .ok n) :
    n ≤ limit := by
  unfold readNat at read
  split at read
  · cases read
  · cases read
  · exact (readDigits_eq_ok_iff.mp read).2.2
  · exact (readDigits_eq_ok_iff.mp read).2.2

/-- A text of digits is read as its value if that is within the limit. -/
theorem readNat_of_digits (limit : Nat) {ds : List Char} (nonempty : ds ≠ [])
    (digits : ∀ c ∈ ds, isDigit c = true) :
    readNat limit ds = if value ds ≤ limit then .ok (value ds) else .error .tooLarge := by
  cases ds with
  | nil => exact absurd rfl nonempty
  | cons c ds =>
      have unsigned : c ≠ '+' := by
        rintro rfl
        exact absurd (digits _ List.mem_cons_self) (by decide)
      have read := readDigits_of_digits .tooLarge digits (Nat.zero_le limit)
      rw [readNat]
      · exact read
      all_goals simp [unsigned]

/-- A text that begins with neither a digit nor a plus sign is refused. -/
theorem readNat_of_letter (limit : Nat) {c : Char} (letter : digit? c = none) (unsigned : c ≠ '+')
    (rest : List Char) : readNat limit (c :: rest) = .error .badDigit := by
  rw [readNat]
  · simp only [readDigits, letter]
  all_goals simp [unsigned]

/-! ### Signs -/

/-- A text of digits, perhaps after a sign, that stands for an integer. -/
inductive Signed : List Char → Int → Prop
  | unsigned {ds} (nonempty : ds ≠ []) (digits : ∀ c ∈ ds, isDigit c = true) : Signed ds (value ds)
  | plus {ds} (nonempty : ds ≠ []) (digits : ∀ c ∈ ds, isDigit c = true) :
      Signed ('+' :: ds) (value ds)
  | minus {ds} (nonempty : ds ≠ []) (digits : ∀ c ∈ ds, isDigit c = true) :
      Signed ('-' :: ds) (-value ds)

theorem Signed.ne_nil {cs : List Char} {n : Int} (h : Signed cs n) : cs ≠ [] := by
  cases h with
  | unsigned nonempty digits => exact nonempty
  | plus nonempty digits => exact List.cons_ne_nil _ _
  | minus nonempty digits => exact List.cons_ne_nil _ _

/-- No blank stands between the digits or before them. -/
theorem Signed.not_isBlank {cs : List Char} {n : Int} (h : Signed cs n) :
    ∀ c ∈ cs, Text.isBlank c = false := by
  have hdigits {ds : List Char} (digits : ∀ c ∈ ds, isDigit c = true) (c : Char) (hc : c ∈ ds) :
      Text.isBlank c = false := not_isBlank_of_isDigit (digits c hc)
  cases h with
  | unsigned nonempty digits => exact hdigits digits
  | plus nonempty digits => exact List.forall_mem_cons.mpr ⟨rfl, hdigits digits⟩
  | minus nonempty digits => exact List.forall_mem_cons.mpr ⟨rfl, hdigits digits⟩

/-- The digits of a text, read up to a limit and turned into an integer. -/
theorem map_readDigits_eq_ok_iff {limit : Nat} {excess : Fault} {ds : List Char} {f : Int → Int}
    {n : Int} : (readDigits limit excess 0 ds).map f = .ok n ↔
      (∀ c ∈ ds, isDigit c = true) ∧ value ds ≤ limit ∧ n = f (value ds) := by
  cases hread : readDigits limit excess 0 ds with
  | error g =>
      refine iff_of_false nofun ?_
      rintro ⟨digits, within, -⟩
      cases hread.symm.trans (readDigits_eq_ok_iff.mpr ⟨digits, rfl, within⟩)
  | ok m =>
      obtain ⟨digits, rfl, within⟩ := readDigits_eq_ok_iff.mp hread
      simp only [bind, Except.bind, pure, Except.pure, Except.map, Except.ok.injEq]
      exact ⟨fun h => ⟨digits, within, h.symm⟩, fun h => h.2.2.symm⟩

/-- A text without a sign is read as its digits. -/
theorem readInt_of_digits (bits : Nat) {ds : List Char} (nonempty : ds ≠ [])
    (digits : ∀ c ∈ ds, isDigit c = true) : readInt bits ds =
      (readDigits (Nat.pow 2 (bits - 1) - 1) .tooLarge 0 ds).map fun n => (n : Int) := by
  obtain ⟨c, ds, rfl⟩ := List.exists_cons_of_ne_nil nonempty
  have unsigned {d : Char} (hd : isDigit d = false) : c ≠ d := by
    rintro rfl
    exact Bool.false_ne_true (hd.symm.trans (digits c List.mem_cons_self))
  rw [readInt]
  all_goals simp [unsigned (d := '+') rfl, unsigned (d := '-') rfl]

/-- A text is read as an integer exactly when it stands for the integer and that has as many bits. -/
theorem readInt_eq_ok_iff {bits : Nat} {cs : List Char} {n : Int} : readInt bits cs = .ok n ↔
    Signed cs n ∧ -(Nat.pow 2 (bits - 1) : Int) ≤ n ∧ n < Nat.pow 2 (bits - 1) := by
  have positive : 0 < Nat.pow 2 (bits - 1) := Nat.two_pow_pos _
  constructor
  · intro h
    unfold readInt at h
    split at h
    · cases h
    · cases h
    · cases h
    · rename_i ds nonempty
      obtain ⟨digits, within, rfl⟩ := map_readDigits_eq_ok_iff.mp h
      exact ⟨.minus nonempty digits, by omega⟩
    · rename_i ds nonempty
      obtain ⟨digits, within, rfl⟩ := map_readDigits_eq_ok_iff.mp h
      exact ⟨.plus nonempty digits, by omega⟩
    · rename_i nonempty _ _ _ _
      obtain ⟨digits, within, rfl⟩ := map_readDigits_eq_ok_iff.mp h
      exact ⟨.unsigned nonempty digits, by omega⟩
  · rintro ⟨signed, low, high⟩
    cases signed with
    | unsigned nonempty digits =>
        rw [readInt_of_digits bits nonempty digits]
        exact map_readDigits_eq_ok_iff.mpr ⟨digits, by omega, rfl⟩
    | plus nonempty digits =>
        obtain ⟨c, ds, rfl⟩ := List.exists_cons_of_ne_nil nonempty
        exact map_readDigits_eq_ok_iff.mpr ⟨digits, by omega, rfl⟩
    | minus nonempty digits =>
        obtain ⟨c, ds, rfl⟩ := List.exists_cons_of_ne_nil nonempty
        exact map_readDigits_eq_ok_iff.mpr ⟨digits, by omega, rfl⟩

end FederatedAccess.Decimal
