import FederatedAccess.Proofs.Number.Decimal
import FederatedAccess.Proofs.Precedence
import FederatedAccess.Proofs.Text.Pieces
import Mathlib.Data.List.TakeWhile
import Mathlib.Data.Nat.Find

/-!
# Error numbers of the directory

The directory writes its error number after a marker, somewhere in the description. A known number
decides whatever else is known, provided that the marker stands nowhere before it: only the first
marker is looked at, and one without a number hides those that follow.
-/

namespace FederatedAccess.Classification

/-- The first marker of the text with a number after it stands between `front` and `digits`. -/
structure Numbered (text front digits back : List Char) : Prop where
  split : text = front ++ marker ++ (digits ++ back)
  present : digits ≠ []
  digits : digits.all Decimal.isDigit = true
  ended : back.head?.any Decimal.isDigit = false
  first : ∀ k < front.length, marker <+: text.drop k →
    (text.drop (k + marker.length)).head?.any Decimal.isDigit = false

variable {text front digits back : List Char} {kind : Kind}

/-- Wherever a marker has a digit after it, some marker is the first of that kind. -/
theorem exists_numbered {c : Char} (marked : marker ++ [c] <:+: text)
    (digit : Decimal.isDigit c = true) : ∃ front digits back, Numbered text front digits back := by
  classical
  have somewhere : ∃ k, marker <+: text.drop k ∧
      (text.drop (k + marker.length)).head?.any Decimal.isDigit = true := by
    obtain ⟨before, after, rfl⟩ := marked
    exact ⟨before.length, ⟨c :: after, by simp⟩, by simp [digit]⟩
  -- the text is split at the least position that has such a marker
  obtain ⟨⟨rest, hrest⟩, hdigit⟩ := Nat.find_spec somewhere
  have after : text.drop (Nat.find somewhere + marker.length) = rest := by
    rw [← List.drop_drop, ← hrest, List.drop_left]
  refine ⟨text.take (Nat.find somewhere), rest.takeWhile Decimal.isDigit,
    rest.dropWhile Decimal.isDigit, ?split, ?present, List.all_takeWhile, ?ended, ?first⟩
  case split =>
    rw [List.takeWhile_append_dropWhile, List.append_assoc, hrest, List.take_append_drop]
  case present =>
    rw [after] at hdigit
    cases rest with
    | nil => cases hdigit
    | cons d rest => simp_all
  case ended =>
    refine (Option.any_eq_false _ _).mpr fun d hd => ?_
    have stops := List.head?_dropWhile_not Decimal.isDigit rest
    rwa [hd] at stops
  case first =>
    intro k before stands
    have earlier : k < Nat.find somewhere :=
      Nat.lt_of_lt_of_le before (List.length_take_le _ _)
    exact Bool.eq_false_iff.mpr fun digit => Nat.find_min somewhere earlier ⟨stands, digit⟩

/-- Known numbers have 32 bits. -/
theorem le_of_ofNumber {n : Nat} (known : ofNumber n = some kind) : n ≤ Nat.pow 2 32 - 1 := by
  change n ≤ 4294967295
  unfold ofNumber at known
  split_ifs at known <;> omega

/-- The number is read if no marker stands before it. -/
theorem directoryNumber?_of_visible (h : Numbered text front digits back)
    (visible : ¬marker <:+: front) (within : Decimal.value digits ≤ Nat.pow 2 32 - 1) :
    directoryNumber? text = some (Decimal.value digits) := by
  have found : Text.after? marker text = some (digits ++ back) := by
    rw [h.split]
    exact Text.after?_eq_some_iff.mpr
      ⟨front, Text.standsFirst_of_unbordered (by decide) visible (digits ++ back)⟩
  rw [directoryNumber?, found]
  have digitsOnly := List.all_eq_true.mp h.digits
  simp only [Text.takeWhile_append_of_stop digitsOnly ((Option.any_eq_false _ _).mp h.ended)]
  rw [Decimal.readNat_of_digits _ h.present digitsOnly, if_pos within]
  rfl

/-- A marker before the first one with a number has no digits after it. -/
theorem Numbered.takeWhile_of_earlier (h : Numbered text front digits back) {start tail : List Char}
    (split : text = start ++ marker ++ tail) (earlier : start.length < front.length) :
    tail.takeWhile Decimal.isDigit = [] := by
  cases tail with
  | nil => rfl
  | cons c rest =>
      have other := h.first start.length earlier ⟨c :: rest, by rw [split]; simp⟩
      have next : (text.drop (start.length + marker.length)).head? = some c := by
        rw [split]
        simp
      rw [next, Option.any_some] at other
      exact List.takeWhile_cons_of_neg (by simp [other])

/-- No number is read if a marker stands before it, since that one has none. -/
theorem directoryNumber?_of_hidden (h : Numbered text front digits back)
    (hidden : marker <:+: front) : directoryNumber? text = none := by
  obtain ⟨before, between, hfront⟩ := hidden
  cases found : Text.after? marker text with
  | none => rw [directoryNumber?, found]
  | some tail =>
      obtain ⟨start, split, first⟩ := Text.after?_eq_some_iff.mp found
      have earlier : start.length < front.length := by
        have bound := first before (between ++ marker ++ (digits ++ back))
          (by rw [h.split, ← hfront]; simp)
        have width : 0 < marker.length := by decide
        have whole := congrArg List.length hfront
        simp only [List.length_append] at whole
        omega
      rw [directoryNumber?, found]
      simp only [h.takeWhile_of_earlier split earlier]
      rfl

/-- A known number in the description decides unless a marker without a number hides it. If one
does, the failure is sorted as if the description had no number. -/
theorem number_decides_unless_hidden (c : Context) (d : String) (front digits back : List Char)
    (kind : Kind) (described : c.description = some d)
    (numbered : Numbered d.toList front digits back)
    (known : ofNumber (Decimal.value digits) = some kind) (network : c.network = false)
    (service : c.status.any isServiceFailure = false) :
    (¬marker <:+: front → standard c = kind) ∧
      (marker <:+: front → ∀ k, standard c = k ↔ FirstOf c.evidence k) := by
  have number : c.directoryNumber? = directoryNumber? d.toList := by
    rw [Context.directoryNumber?, described, Option.bind_some]
  refine ⟨fun visible => ?_, fun hidden k => ?_⟩
  · refine standard_of_number network service ?_
    rw [number, directoryNumber?_of_visible numbered visible (le_of_ofNumber known),
      Option.bind_some, known]
  · refine standard_eq_iff network service ?_
    rw [number, directoryNumber?_of_hidden numbered hidden, Option.bind_none]

theorem number_within_sentence_decides : standard
    { status := some 400, code := some "invalid_client",
      description := some "Denied. AADSTS70011: no such scope." } = .invalidScope :=
  (number_decides_unless_hidden _ _ "Denied. ".toList "70011".toList ": no such scope.".toList _ rfl
    ⟨by decide +kernel, by decide, by decide, by decide, by decide +kernel⟩ (by decide) rfl rfl).1
      (by decide +kernel)

/-- A marker without a number hides the number after the next one, and the error code decides. -/
theorem bare_marker_hides_number : ∃ d front digits back,
    Numbered (String.toList d) front digits back ∧
      ofNumber (Decimal.value digits) = some .invalidScope ∧
        standard { status := some 400, code := some "invalid_client", description := some d } =
          .invalidAssertion :=
  ⟨"See the AADSTS reference: AADSTS70011: the scope is not valid.",
    "See the AADSTS reference: ".toList, "70011".toList, ": the scope is not valid.".toList,
    ⟨by decide +kernel, by decide, by decide, by decide, by decide +kernel⟩, by decide,
    by decide +kernel⟩

end FederatedAccess.Classification
