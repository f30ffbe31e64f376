import FederatedAccess.Text.Search
import Mathlib.Data.List.Basic

/-!
# What a search finds

A word is found in the texts of which it is a piece, and found where it begins first. A word that
cannot overlap itself is found where it is put, unless the text before it has the word already.
-/

namespace FederatedAccess.Text

variable {word text : List Char}

/-- A search fails for the texts of which the word is no piece. -/
theorem after?_eq_none_iff : after? word text = none ↔ ¬word <:+: text := by
  induction text with
  | nil => simp [after?]
  | cons c rest ih =>
      rw [after?, List.infix_cons_iff, ← List.isPrefixOf_iff_prefix]
      split <;> simp_all

theorem occursIn_eq_true_iff : occursIn word text = true ↔ word <:+: text := by
  rw [occursIn, Option.isSome_iff_ne_none, Ne, after?_eq_none_iff, not_not]

/-- The word stands in the text after `before` and nowhere earlier. -/
structure StandsFirst (word text before tail : List Char) : Prop where
  split : text = before ++ word ++ tail
  first : ∀ front back, text = front ++ word ++ back → before.length ≤ front.length

theorem StandsFirst.tail_unique {before tail front back : List Char}
    (h : StandsFirst word text before tail) (h' : StandsFirst word text front back) :
    tail = back := by
  have lengths : before.length = front.length :=
    Nat.le_antisymm (h.first _ _ h'.split) (h'.first _ _ h.split)
  have same := h.split.symm.trans h'.split
  rw [List.append_assoc, List.append_assoc] at same
  exact List.append_cancel_left (List.append_inj same lengths).2

/-- What is found stands first. -/
theorem standsFirst_of_after? {tail : List Char} (found : after? word text = some tail) :
    ∃ before, StandsFirst word text before tail := by
  induction text with
  | nil =>
      obtain ⟨before, hb⟩ := eq_append_of_after? found
      have empty : before = [] := by
        cases before with
        | nil => rfl
        | cons c rest => cases hb
      exact ⟨before, hb, fun _ _ _ => empty ▸ Nat.zero_le _⟩
  | cons c rest ih =>
      rw [after?] at found
      split at found
      · rename_i here
        obtain ⟨back, hback⟩ := List.isPrefixOf_iff_prefix.mp here
        cases found
        exact ⟨[], by rw [← hback]; simp, fun _ _ _ => Nat.zero_le _⟩
      · rename_i elsewhere
        obtain ⟨before, split, first⟩ := ih found
        refine ⟨c :: before, by rw [split]; rfl, fun front back h => ?_⟩
        cases front with
        | nil => exact absurd (List.isPrefixOf_iff_prefix.mpr ⟨back, h.symm⟩) elsewhere
        | cons d front => exact Nat.succ_le_succ (first _ _ (List.cons.inj h).2)

/-- A search finds what follows the word where it stands first. -/
theorem after?_eq_some_iff {tail : List Char} :
    after? word text = some tail ↔ ∃ before, StandsFirst word text before tail := by
  refine ⟨standsFirst_of_after?, fun ⟨before, h⟩ => ?_⟩
  cases found : after? word text with
  | none => exact absurd ⟨before, tail, h.split.symm⟩ (after?_eq_none_iff.mp found)
  | some back =>
      obtain ⟨front, h'⟩ := standsFirst_of_after? found
      rw [h'.tail_unique h]

/-- No proper end of the word is a beginning of it, so that it cannot overlap itself. -/
def Unbordered (word : List Char) : Prop :=
  ∀ k < word.length, 0 < k → ¬word.drop k <+: word

instance (word : List Char) : Decidable (Unbordered word) :=
  inferInstanceAs (Decidable (∀ k < word.length, 0 < k → ¬word.drop k <+: word))

/-- A word that cannot overlap itself stands first where it is put after a text without it. -/
theorem standsFirst_of_unbordered (unbordered : Unbordered word) {before : List Char}
    (absent : ¬word <:+: before) (tail : List Char) :
    StandsFirst word (before ++ word ++ tail) before tail := by
  refine ⟨rfl, fun front back h => Nat.le_of_not_lt fun earlier => ?_⟩
  have whole : front <+: before ++ word ++ tail := ⟨word ++ back, by simp [h]⟩
  -- `start` is what the earlier occurrence has of the text before the word
  obtain ⟨start, rfl⟩ : front <+: before :=
    List.prefix_of_prefix_length_le whole (by simp) (Nat.le_of_lt earlier)
  have meet : start ++ (word ++ tail) = word ++ back := by simpa using h
  rcases List.append_eq_append_iff.mp meet with ⟨rest, hword, hrest⟩ | ⟨rest, hstart, -⟩
  · cases rest with
    | nil => exact absent ⟨front, [], by simp [hword]⟩
    | cons c rest =>
        have overlap : c :: rest <+: word :=
          List.prefix_of_prefix_length_le ⟨back, hrest.symm⟩ (List.prefix_append word tail)
            (by simp [hword])
        refine unbordered start.length (by simp [hword]) (by simpa using earlier) ?_
        rwa [hword, List.drop_left, ← hword]
  · exact absent ⟨front, rest, by rw [hstart, List.append_assoc]⟩

end FederatedAccess.Text
