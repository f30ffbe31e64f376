/-!
# Searching text

The first occurrence of a word in a text decides; what follows it is the answer.
-/

namespace FederatedAccess.Text

/-- What follows the first occurrence of a word. -/
def after? (word : List Char) : List Char → Option (List Char)
  | [] => if word.isEmpty then some [] else none
  | c :: rest =>
    if word.isPrefixOf (c :: rest) then some ((c :: rest).drop word.length) else after? word rest

/-- Whether a word occurs in a text. -/
def occursIn (word text : List Char) : Bool :=
  (after? word text).isSome

/-- A text splits at the word that was found. -/
theorem eq_append_of_after? {word text tail : List Char} (h : after? word text = some tail) :
    ∃ before, text = before ++ word ++ tail := by
  induction text with
  | nil =>
      simp only [after?] at h
      split at h
      · rename_i hw
        simp only [Option.some.injEq] at h
        exact ⟨[], by simp [List.isEmpty_iff.mp hw, ← h]⟩
      · cases h
  | cons c rest ih =>
      simp only [after?] at h
      split at h
      · rename_i hp
        obtain ⟨t, ht⟩ := List.isPrefixOf_iff_prefix.mp hp
        simp only [Option.some.injEq] at h
        refine ⟨[], ?_⟩
        rw [← h, ← ht]
        simp
      · obtain ⟨before, hb⟩ := ih h
        exact ⟨c :: before, by simp [hb]⟩

end FederatedAccess.Text
