import FederatedAccess.Text.Blank
import Mathlib.Data.List.Forall2
import Mathlib.Data.List.TakeWhile

/-!
# Texts in pieces

A text that is cut at its delimiters is read piece by piece. What holds of the characters of the
text holds of those of its pieces, and no piece holds a delimiter. Trimming cuts a text at the blanks
around it.
-/

namespace FederatedAccess.Text

variable {α β : Type}

/-- What holds of every code point of ASCII holds of its characters. -/
theorem forall_ascii {P : Char → Prop} (h : ∀ n < 128, P (Char.ofNat n)) {c : Char}
    (hc : c.toNat < 128) : P c :=
  Char.ofNat_toNat c ▸ h c.toNat hc

/-- A text whose first character passes a test has one. -/
theorem head?_of_any {p : α → Bool} {cs : List α} (h : cs.head?.any p = true) :
    cs ≠ [] ∧ ∀ c ∈ cs.head?, p c = true := by
  cases cs with
  | nil => cases h
  | cons c cs =>
      refine ⟨List.cons_ne_nil c cs, fun d hd => ?_⟩
      rw [← Option.some.inj hd]
      exact h

/-! ### Pieces between delimiters -/

/-- A piece holds characters of the text, and none of them is a delimiter. -/
theorem mem_of_mem_splitOnP {p : α → Bool} {cs piece : List α} {c : α}
    (h : piece ∈ cs.splitOnP p) (hc : c ∈ piece) : c ∈ cs ∧ p c = false := by
  induction cs generalizing piece with
  | nil =>
      obtain rfl := List.mem_singleton.mp (List.splitOnP_nil ▸ h)
      exact absurd hc List.not_mem_nil
  | cons d cs ih =>
      rw [List.splitOnP_cons_eq_if_modifyHead] at h
      cases hd : p d with
      | true =>
          rw [if_pos hd] at h
          rcases List.mem_cons.mp h with rfl | h
          · exact absurd hc List.not_mem_nil
          · exact ⟨List.mem_cons_of_mem _ (ih h hc).1, (ih h hc).2⟩
      | false =>
          obtain ⟨first, rest, hsplit⟩ := List.exists_cons_of_ne_nil (List.splitOnP_ne_nil p cs)
          rw [if_neg (by simp [hd]), hsplit, List.modifyHead_cons] at h
          have hpiece {piece : List α} (h : piece ∈ first :: rest) (hc : c ∈ piece) :
              c ∈ d :: cs ∧ p c = false :=
            ⟨List.mem_cons_of_mem _ (ih (hsplit ▸ h) hc).1, (ih (hsplit ▸ h) hc).2⟩
          rcases List.mem_cons.mp h with rfl | h
          · rcases List.mem_cons.mp hc with rfl | hc
            · exact ⟨List.mem_cons_self, hd⟩
            · exact hpiece List.mem_cons_self hc
          · exact hpiece (List.mem_cons_of_mem _ h) hc

/-- Pieces that are joined by a delimiter are found again, whichever characters end a piece. -/
theorem splitOnP_intercalate {p : α → Bool} {x : α} (hx : p x = true) {pieces : List (List α)}
    (h : ∀ piece ∈ pieces, ∀ c ∈ piece, p c = false) (nonempty : pieces ≠ []) :
    ([x].intercalate pieces).splitOnP p = pieces := by
  induction pieces with
  | nil => exact absurd rfl nonempty
  | cons piece pieces ih =>
      have hpiece := h piece List.mem_cons_self
      cases pieces with
      | nil => rw [List.intercalate_singleton, List.splitOnP_eq_singleton hpiece]
      | cons next pieces =>
          rw [List.intercalate_cons_cons, List.append_assoc, List.singleton_append,
            List.splitOnP_append_cons_of_forall_mem hpiece x hx,
            ih (fun piece hp => h piece (List.mem_cons_of_mem _ hp)) (List.cons_ne_nil _ _)]

/-- Joined pieces hold their characters and the delimiter. -/
theorem mem_intercalate {x c : α} {pieces : List (List α)} (h : c ∈ [x].intercalate pieces) :
    c = x ∨ ∃ piece ∈ pieces, c ∈ piece := by
  induction pieces with
  | nil => exact absurd (List.intercalate_nil ▸ h) List.not_mem_nil
  | cons piece pieces ih =>
      cases pieces with
      | nil =>
          rw [List.intercalate_singleton] at h
          exact .inr ⟨piece, List.mem_cons_self, h⟩
      | cons next pieces =>
          rw [List.intercalate_cons_cons, List.append_assoc, List.singleton_append] at h
          rcases List.mem_append.mp h with h | h
          · exact .inr ⟨piece, List.mem_cons_self, h⟩
          · rcases List.mem_cons.mp h with rfl | h
            · exact .inl rfl
            · exact (ih h).imp_right fun ⟨p, hp, hc⟩ => ⟨p, List.mem_cons_of_mem _ hp, hc⟩

/-- A piece ends where something else follows it, or nothing. -/
theorem takeWhile_append_of_stop {p : α → Bool} {piece rest : List α}
    (inside : ∀ c ∈ piece, p c = true) (stop : ∀ c ∈ rest.head?, p c = false) :
    (piece ++ rest).takeWhile p = piece := by
  rw [List.takeWhile_append_of_pos inside]
  cases rest with
  | nil => rw [List.takeWhile_nil, List.append_nil]
  | cons c rest => rw [List.takeWhile_cons_of_neg (by simp [stop c rfl]), List.append_nil]

/-! ### Reading piece by piece -/

theorem mapM_eq_some_iff {f : α → Option β} {as : List α} {bs : List β} :
    as.mapM f = some bs ↔ List.Forall₂ (fun a b => f a = some b) as bs := by
  induction as generalizing bs with
  | nil =>
      rw [List.mapM_nil, List.forall₂_nil_left_iff]
      exact ⟨fun h => (Option.some.inj h).symm, fun h => congrArg some h.symm⟩
  | cons a as ih =>
      rw [List.mapM_cons, List.forall₂_cons_left_iff]
      simp only [Option.pure_def, Option.bind_eq_bind, Option.bind_eq_some_iff, Option.some.injEq]
      constructor
      · rintro ⟨b, hb, bs', hbs, rfl⟩
        exact ⟨b, bs', hb, ih.mp hbs, rfl⟩
      · rintro ⟨b, bs', hb, hbs, rfl⟩
        exact ⟨b, hb, bs', ih.mpr hbs, rfl⟩

/-- What was read was read from a piece. -/
theorem exists_of_mem_mapM {f : α → Option β} {as : List α} {bs : List β}
    (h : as.mapM f = some bs) {b : β} (hb : b ∈ bs) : ∃ a ∈ as, f a = some b := by
  have hall := mapM_eq_some_iff.mp h
  clear h
  induction hall with
  | nil => exact absurd hb List.not_mem_nil
  | cons hf _ ih =>
      rcases List.mem_cons.mp hb with rfl | hb
      · exact ⟨_, List.mem_cons_self, hf⟩
      · obtain ⟨a, ha, hab⟩ := ih hb
        exact ⟨a, List.mem_cons_of_mem _ ha, hab⟩

theorem length_of_mapM {f : α → Option β} {as : List α} {bs : List β}
    (h : as.mapM f = some bs) : as.length = bs.length :=
  (mapM_eq_some_iff.mp h).length_eq

/-- What is read from pieces that each yield the value at their place. -/
theorem mapM_map_eq_some {f : β → Option α} {g : α → β} {as : List α}
    (h : ∀ a ∈ as, f (g a) = some a) : (as.map g).mapM f = some as := by
  rw [mapM_eq_some_iff, List.forall₂_map_left_iff, List.forall₂_same]
  exact h

/-! ### Trimming -/

/-- Trimming takes away blanks and nothing else. -/
theorem exists_trim (cs : List Char) : ∃ before after, cs = before ++ trim cs ++ after ∧
    (∀ c ∈ before, isBlank c = true) ∧ ∀ c ∈ after, isBlank c = true := by
  have hfront := List.takeWhile_append_dropWhile (p := isBlank) (l := cs)
  have hback := List.takeWhile_append_dropWhile (p := isBlank) (l := (cs.dropWhile isBlank).reverse)
  refine ⟨cs.takeWhile isBlank, ((cs.dropWhile isBlank).reverse.takeWhile isBlank).reverse, ?split,
    fun c hc => List.mem_takeWhile_imp hc, fun c hc => ?after⟩
  case split =>
    rw [trim, trimEnd, List.append_assoc, ← List.reverse_append, hback, List.reverse_reverse, hfront]
  case after => exact List.mem_takeWhile_imp (List.mem_reverse.mp hc)

/-- A text that neither begins nor ends with a blank is what is left when blanks stand around it. -/
theorem trim_append {before core after : List Char} (hbefore : ∀ c ∈ before, isBlank c = true)
    (hafter : ∀ c ∈ after, isBlank c = true) (nonempty : core ≠ [])
    (first : ∀ c ∈ core.head?, isBlank c = false)
    (last : ∀ c ∈ core.getLast?, isBlank c = false) : trim (before ++ core ++ after) = core := by
  have hfront : (core ++ after).dropWhile isBlank = core ++ after := by
    obtain ⟨c, tail, rfl⟩ := List.exists_cons_of_ne_nil nonempty
    rw [List.cons_append, List.dropWhile_cons_of_neg (Bool.eq_false_iff.mp (first c rfl))]
  have hback : core.reverse.dropWhile isBlank = core.reverse := by
    obtain ⟨front, c, rfl⟩ := (List.eq_nil_or_concat core).resolve_left nonempty
    rw [List.concat_eq_append, List.reverse_append, List.reverse_singleton, List.singleton_append,
      List.dropWhile_cons_of_neg (Bool.eq_false_iff.mp (last c (by simp)))]
  rw [trim, List.append_assoc, List.dropWhile_append_of_pos hbefore, hfront, trimEnd,
    List.reverse_append, List.dropWhile_append_of_pos (by simpa using hafter), hback,
    List.reverse_reverse]

end FederatedAccess.Text
