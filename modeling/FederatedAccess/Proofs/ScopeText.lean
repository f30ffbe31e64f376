import FederatedAccess.Scope
import Mathlib.Data.List.Sort

/-!
# The text of a scope set

The scopes of a set hold no blanks and stand in ascending order, so the text in which they are
joined is read as the same set: as words, which sorting leaves in their places.
-/

namespace FederatedAccess

namespace Text

/-- A run without blanks is a word where it ends or a blank follows. -/
theorem words_append {w rest : List Char} (hne : w ≠ []) (hw : ∀ c ∈ w, isBlank c = false)
    (hrest : ∀ d ∈ rest.head?, isBlank d = true) : words (w ++ rest) = w :: words rest := by
  obtain ⟨c, tail, rfl⟩ := List.exists_cons_of_ne_nil hne
  have htail : ∀ d ∈ tail, (!isBlank d) = true := fun d hd => by
    rw [hw d (List.mem_cons_of_mem c hd), Bool.not_false]
  have hstop : rest.takeWhile (!isBlank ·) = [] ∧ rest.dropWhile (!isBlank ·) = rest := by
    cases rest with
    | nil => exact ⟨rfl, rfl⟩
    | cons d rest =>
        have hd : ¬ (!isBlank d) = true := by simp [hrest d rfl]
        exact ⟨List.takeWhile_cons_of_neg hd, List.dropWhile_cons_of_neg hd⟩
  rw [List.cons_append, words, if_neg (by simp [hw c]), List.takeWhile_append_of_pos htail,
    List.dropWhile_append_of_pos htail, hstop.1, hstop.2, List.append_nil]

/-- Blanks alone hold no word. -/
theorem words_eq_nil {cs : List Char} (h : ∀ c ∈ cs, isBlank c = true) : words cs = [] := by
  induction cs with
  | nil => exact words_nil
  | cons c rest ih =>
      rw [words_cons_of_isBlank (h c List.mem_cons_self)]
      exact ih fun d hd => h d (List.mem_cons_of_mem c hd)

/-- Words joined by spaces are read as the words. -/
theorem words_intercalate {ws : List (List Char)}
    (h : ∀ w ∈ ws, w ≠ [] ∧ ∀ c ∈ w, isBlank c = false) : words ([' '].intercalate ws) = ws := by
  induction ws with
  | nil => exact words_nil
  | cons w rest ih =>
      obtain ⟨hne, hw⟩ := h w List.mem_cons_self
      have hrest := ih fun v hv => h v (List.mem_cons_of_mem w hv)
      cases rest with
      | nil =>
          have hlast : words (w ++ []) = w :: words [] := words_append hne hw (by simp)
          rw [List.append_nil, words_nil] at hlast
          rw [List.intercalate_singleton, hlast]
      | cons v rest =>
          rw [List.intercalate_cons_cons, List.append_assoc, List.singleton_append,
            words_append hne hw (by simp [isBlank]), words_cons_of_isBlank rfl, hrest]

end Text

namespace Scope

/-- A scope is not empty and holds no blank. -/
theorem fault?_eq_none_iff {s : String} :
    fault? s = none ↔ s.toList ≠ [] ∧ ∀ c ∈ s.toList, Text.isBlank c = false := by
  unfold fault?
  split
  · rename_i hempty
    simp [List.isEmpty_iff.mp hempty]
  · rename_i hempty
    have hne : s.toList ≠ [] := fun he => hempty (by rw [he]; rfl)
    split
    · rename_i hany
      simpa [hne] using List.any_eq_true.mp hany
    · rename_i hany
      simpa [hne] using hany

/-- The least entry is inserted before the others. -/
theorem insert_of_before {s : String} {xs : List String} (h : ∀ x ∈ xs, Utf8.before s x) :
    insert s xs = s :: xs := by
  cases xs with
  | nil => rfl
  | cons x rest => exact if_pos (h x List.mem_cons_self)

theorem sort_eq_self {xs : List String} (h : xs.Pairwise Utf8.before) : sort xs = xs := by
  induction xs with
  | nil => rfl
  | cons x rest ih =>
      obtain ⟨hx, hrest⟩ := List.pairwise_cons.mp h
      calc
        sort (x :: rest) = insert x (sort rest) := rfl
        _ = insert x rest := by rw [ih hrest]
        _ = x :: rest := insert_of_before hx

end Scope

namespace ScopeSet

theorem ext_entries {s t : ScopeSet} (h : s.entries = t.entries) : s = t := by
  cases s
  cases t
  cases h
  rfl

/-- Two sets hold the same scopes. -/
def Same (s t : ScopeSet) : Prop := ∀ x, x ∈ s.entries ↔ x ∈ t.entries

/-- Sets that hold the same scopes are equal: neither order nor repetition is left in them. -/
theorem same_iff {s t : ScopeSet} : s.Same t ↔ s = t := by
  constructor
  · intro h
    have irrefl : Std.Irrefl Utf8.before := ⟨Utf8.not_before_self⟩
    have antisymm : Std.Antisymm Utf8.before :=
      ⟨fun a b hab hba => absurd (Utf8.before_trans hab hba) (Utf8.not_before_self a)⟩
    exact ext_entries (s.ascending.eq_of_mem_iff t.ascending h)
  · rintro rfl x
    exact Iff.rfl

/-- The scopes of a set make up the set. -/
theorem ofList_entries (s : ScopeSet) : ofList s.entries = .ok s := by
  unfold ofList
  split
  · rename_i f hf
    rw [List.findSome?_eq_none_iff.mpr s.valid] at hf
    cases hf
  · exact congrArg Except.ok (ext_entries (Scope.sort_eq_self s.ascending))

theorem toList_normalized (s : ScopeSet) :
    s.normalized.toList = [' '].intercalate (s.entries.map String.toList) :=
  String.toList_intercalate

/-- The joined scopes are read as the set. -/
theorem parse_normalized (s : ScopeSet) : parse s.normalized = .ok s := by
  have hentries : ∀ w ∈ s.entries.map String.toList,
      w ≠ [] ∧ ∀ c ∈ w, Text.isBlank c = false := by
    intro w hw
    obtain ⟨x, hx, rfl⟩ := List.mem_map.mp hw
    exact Scope.fault?_eq_none_iff.mp (s.valid x hx)
  have hwords : (Text.words s.normalized.toList).map String.ofList = s.entries := by
    rw [toList_normalized, Text.words_intercalate hentries, List.map_map]
    exact (List.map_congr_left fun x _ => String.ofList_toList).trans (List.map_id _)
  have empty (h : ∀ c ∈ s.normalized.toList, Text.isBlank c = true) : s.entries = [] := by
    rw [← hwords, Text.words_eq_nil h, List.map_nil]
  unfold parse
  split
  · rename_i hnil
    refine congrArg Except.ok (ext_entries (empty ?_).symm)
    rw [List.isEmpty_iff.mp hnil]
    exact fun c hc => absurd hc List.not_mem_nil
  · rename_i hcons
    split
    · rename_i hblank
      -- only the empty set is written without a word, and as the empty text
      have hentries := empty (List.all_eq_true.mp hblank)
      rw [toList_normalized, hentries] at hcons
      exact absurd rfl hcons
    · rw [hwords, ofList_entries]

end ScopeSet

end FederatedAccess
