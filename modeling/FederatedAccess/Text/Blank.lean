/-!
# Blank characters

A blank is a character with the Unicode property `White_Space`. Trimming, splitting into words and
the checks on identifiers and scopes all use this one class.
-/

namespace FederatedAccess.Text

/-- A blank has the Unicode property `White_Space`. -/
def isBlank (c : Char) : Bool :=
  let n := c.toNat
  (0x9 ≤ n && n ≤ 0xD) || n == 0x20 || n == 0x85 || n == 0xA0 || n == 0x1680 ||
    (0x2000 ≤ n && n ≤ 0x200A) || n == 0x2028 || n == 0x2029 || n == 0x202F || n == 0x205F ||
    n == 0x3000

/-- Every character of the ASCII blank class is a blank. -/
theorem isBlank_of_isWhitespace {c : Char} (h : c.isWhitespace = true) : isBlank c = true := by
  simp only [Char.isWhitespace, Bool.or_eq_true, decide_eq_true_eq] at h
  rcases h with ((rfl | rfl) | rfl) | rfl <;> rfl

/-- Removes the blanks at the end. -/
def trimEnd (cs : List Char) : List Char :=
  (cs.reverse.dropWhile isBlank).reverse

/-- Removes the blanks at both ends. -/
def trim (cs : List Char) : List Char :=
  trimEnd (cs.dropWhile isBlank)

/-- The maximal runs without blanks, in order. -/
def words : List Char → List (List Char)
  | [] => []
  | c :: rest =>
    if isBlank c then words rest
    else (c :: rest.takeWhile (!isBlank ·)) :: words (rest.dropWhile (!isBlank ·))
termination_by cs => cs.length
decreasing_by
  · simp
  · simpa using Nat.lt_succ_of_le (List.dropWhile_sublist _).length_le

@[simp] theorem words_nil : words [] = [] := by
  rw [words]

/-- A leading blank separates no word. -/
theorem words_cons_of_isBlank {c : Char} (h : isBlank c = true) (rest : List Char) :
    words (c :: rest) = words rest := by
  rw [words, if_pos h]

/-- Every word is nonempty and free of blanks. -/
theorem ne_nil_and_not_isBlank_of_mem_words {cs w : List Char} (h : w ∈ words cs) :
    w ≠ [] ∧ ∀ c ∈ w, isBlank c = false := by
  induction cs using words.induct with
  | case1 => simp at h
  | case2 c rest hc ih =>
      rw [words_cons_of_isBlank hc] at h
      exact ih h
  | case3 c rest hc ih =>
      rw [words, if_neg hc] at h
      rcases List.mem_cons.mp h with rfl | h
      · refine ⟨by simp, fun d hd => ?_⟩
        rcases List.mem_cons.mp hd with rfl | hd
        · exact Bool.eq_false_iff.mpr hc
        · simpa using List.all_eq_true.mp (List.all_takeWhile (p := (!isBlank ·)) (l := rest)) d hd
      · exact ih h

end FederatedAccess.Text
