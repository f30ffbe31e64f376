import FederatedAccess.Proofs.Text.Pieces
import FederatedAccess.Proofs.Url.Punycode
import FederatedAccess.Url.Domain

/-!
# A domain name in ASCII is read as it is

The usual form of a name is its own usual form, and so is each of its labels. A label outside ASCII
is written after the mark, and what stands there is read as the label, so the label is faithful.
Hence bringing a name into ASCII a second time changes nothing.
-/

namespace FederatedAccess.Domain

/-! ### Usual forms -/

theorem isSettled_cons_iff {b c : Char} {cs : List Char} : isSettled b (c :: cs) = true ↔
    (mapChar c = some [c] ∧ (c = dotAbove → b = 'i')) ∧ isSettled c cs = true := by
  simp [isSettled, imp_iff_not_or]

/-- The characters of a text in its usual form are their own usual forms. -/
theorem mapChar_of_isSettled {b c : Char} {cs : List Char} (h : isSettled b cs = true)
    (hc : c ∈ cs) : mapChar c = some [c] := by
  induction cs generalizing b with
  | nil => exact absurd hc List.not_mem_nil
  | cons d cs ih =>
      obtain ⟨⟨hd, -⟩, hcs⟩ := isSettled_cons_iff.mp h
      rcases List.mem_cons.mp hc with rfl | hc
      · exact hd
      · exact ih hcs hc

theorem mapName_eq_self {cs : List Char} (h : isSettled '.' cs = true) : mapName cs = some cs := by
  have hmap : (cs.mapM mapChar).map List.flatten = some cs := by
    have hchars : cs.mapM mapChar = some (cs.map ([·])) := by
      rw [Text.mapM_eq_some_iff, List.forall₂_map_right_iff, List.forall₂_same]
      exact fun c hc => mapChar_of_isSettled h hc
    rw [hchars, Option.map_some, ← List.flatMap_def, List.flatMap_singleton']
  rw [mapName, hmap, Option.filter_some, if_pos h]

theorem isSettled_of_mapName {cs name : List Char} (h : mapName cs = some name) :
    isSettled '.' name = true :=
  (Option.filter_eq_some_iff.mp h).2

/-- A text in its usual form falls into labels in their usual forms. -/
theorem isSettled_splitOnP {cs : List Char} : ∀ {b : Char} {first : List Char}
    {rest : List (List Char)}, isSettled b cs = true → cs.splitOnP (· == '.') = first :: rest →
      isSettled b first = true ∧ ∀ label ∈ rest, isSettled '.' label = true := by
  induction cs with
  | nil =>
      intro b first rest _ hsplit
      obtain ⟨rfl, rfl⟩ := List.cons.inj (List.splitOnP_nil ▸ hsplit)
      exact ⟨rfl, fun _ h => absurd h List.not_mem_nil⟩
  | cons c cs ih =>
      intro b first rest h hsplit
      obtain ⟨hc, hcs⟩ := isSettled_cons_iff.mp h
      obtain ⟨label, labels, hlabels⟩ :=
        List.exists_cons_of_ne_nil (List.splitOnP_ne_nil (· == '.') cs)
      obtain ⟨hlabel, hrest⟩ := ih hcs hlabels
      rw [List.splitOnP_cons_eq_if_modifyHead, hlabels] at hsplit
      split at hsplit
      · rename_i hdot
        obtain ⟨rfl, rfl⟩ := List.cons.inj hsplit
        obtain rfl := beq_iff_eq.mp hdot
        exact ⟨rfl, fun l hl => (List.mem_cons.mp hl).elim (· ▸ hlabel) (hrest l)⟩
      · obtain ⟨rfl, rfl⟩ := List.cons.inj hsplit
        exact ⟨isSettled_cons_iff.mpr ⟨hc, hlabel⟩, hrest⟩

/-- The labels of a name in its usual form are in their usual forms. -/
theorem isSettled_of_mem_splitOnP {cs label : List Char} (h : isSettled '.' cs = true)
    (hl : label ∈ cs.splitOnP (· == '.')) : isSettled '.' label = true := by
  obtain ⟨first, rest, hsplit⟩ :=
    List.exists_cons_of_ne_nil (List.splitOnP_ne_nil (· == '.') cs)
  obtain ⟨hfirst, hrest⟩ := isSettled_splitOnP h hsplit
  rcases List.mem_cons.mp (hsplit ▸ hl) with rfl | hl
  · exact hfirst
  · exact hrest label hl

/-! ### Labels in ASCII -/

/-- A character of ASCII that is its own usual form. -/
def IsPlain (c : Char) : Prop := Punycode.isBasic c = true ∧ mapChar c = some [c]

theorem isSettled_of_isPlain {b : Char} {cs : List Char} (h : ∀ c ∈ cs, IsPlain c) :
    isSettled b cs = true := by
  induction cs generalizing b with
  | nil => rfl
  | cons c cs ih =>
      obtain ⟨hbasic, hmap⟩ := h c List.mem_cons_self
      refine isSettled_cons_iff.mpr ⟨⟨hmap, ?_⟩, ih fun d hd => h d (List.mem_cons_of_mem _ hd)⟩
      rintro rfl
      cases hbasic

/-- The mark and what is written after it hold plain characters, and none is a full stop. -/
theorem isPlain_of_mem_encode {label : List Char} (settled : isSettled '.' label = true)
    (undotted : '.' ∉ label) {c : Char} (hc : c ∈ mark ++ Punycode.encode label) :
    IsPlain c ∧ c ≠ '.' := by
  have hmark : mark.all (fun c => Punycode.isBasic c ∧ mapChar c = some [c] ∧ c ≠ '.') = true := by
    decide
  have hdigits : ∀ d : Fin 36, Punycode.isBasic (Punycode.digitChar d) = true ∧
      mapChar (Punycode.digitChar d) = some [Punycode.digitChar d] ∧
        Punycode.digitChar d ≠ '.' := by decide
  rcases List.mem_append.mp hc with hc | hc
  · obtain ⟨hbasic, hmap, hdot⟩ := of_decide_eq_true (List.all_eq_true.mp hmark c hc)
    exact ⟨⟨hbasic, hmap⟩, hdot⟩
  · rcases Punycode.mem_encode hc with ⟨hlabel, hbasic⟩ | rfl | ⟨d, hd, rfl⟩
    · exact ⟨⟨hbasic, mapChar_of_isSettled settled hlabel⟩, ne_of_mem_of_not_mem hlabel undotted⟩
    · exact ⟨⟨rfl, rfl⟩, by decide⟩
    · obtain ⟨hbasic, hmap, hdot⟩ := hdigits ⟨d, hd⟩
      exact ⟨⟨hbasic, hmap⟩, hdot⟩

/-- What is written for a label outside ASCII stands for the label. -/
theorem isFaithful_encode {label : List Char} (settled : isSettled '.' label = true)
    (undotted : '.' ∉ label) (foreign : label.all Punycode.isBasic = false) :
    isFaithful (Punycode.encode label) = true := by
  rw [isFaithful, Punycode.decode_encode]
  simp only [mapName_eq_self settled, beq_self_eq_true, Bool.and_true, Bool.and_eq_true,
    Bool.not_eq_true', List.contains_eq_mem, decide_eq_false_iff_not]
  refine ⟨?_, undotted⟩
  rw [← List.not_all_eq_any_not, foreign, Bool.not_false]

/-- A label in ASCII stays as it is. -/
theorem labelToAscii_eq_self {label l : List Char} (settled : isSettled '.' label = true)
    (undotted : '.' ∉ label) (h : labelToAscii label = some l) :
    (∀ c ∈ l, IsPlain c ∧ c ≠ '.') ∧ labelToAscii l = some l := by
  cases hbasic : label.all Punycode.isBasic with
  | true =>
      have heq : label = l := by
        rw [labelToAscii, if_pos hbasic] at h
        split at h
        · cases h
        · exact Option.some.inj h
      subst heq
      refine ⟨fun c hc => ⟨⟨List.all_eq_true.mp hbasic c hc, mapChar_of_isSettled settled hc⟩,
        ne_of_mem_of_not_mem hc undotted⟩, h⟩
  | false =>
      have heq : mark ++ Punycode.encode label = l := by
        rw [labelToAscii, if_neg (by simp [hbasic])] at h
        split at h
        · cases h
        · exact Option.some.inj h
      subst heq
      have hplain {c : Char} := @isPlain_of_mem_encode label settled undotted c
      refine ⟨fun c hc => hplain hc, ?_⟩
      have hall : (mark ++ Punycode.encode label).all Punycode.isBasic = true :=
        List.all_eq_true.mpr fun c hc => (hplain hc).1.1
      rw [labelToAscii, if_pos hall, List.drop_left,
        isFaithful_encode settled undotted hbasic]
      simp

/-! ### Names in ASCII -/

/-- A name that has been brought into ASCII. -/
structure IsAscii (name : List Char) : Prop where
  plain : ∀ c ∈ name, IsPlain c
  allowed : ∀ c ∈ name, isForbidden c = false
  labels : ∀ label ∈ name.splitOnP (· == '.'), labelToAscii label = some label

/-- A name in ASCII stays as it is. -/
theorem IsAscii.toAscii_eq_self {name : List Char} (h : IsAscii name) :
    toAscii name = some name := by
  have hlabels : (name.splitOnP (· == '.')).mapM labelToAscii =
      some (name.splitOnP (· == '.')) := by
    rw [Text.mapM_eq_some_iff, List.forall₂_same]
    exact h.labels
  have hjoin : ['.'].intercalate (name.splitOnP (· == '.')) = name :=
    List.intercalate_splitOn '.'
  have hallowed : name.any isForbidden = false :=
    List.any_eq_false.mpr fun c hc => by simp [h.allowed c hc]
  simp only [toAscii, mapName_eq_self (isSettled_of_isPlain h.plain), hlabels, hjoin, hallowed,
    Option.bind_eq_bind, Option.bind_some]
  rfl

/-- Whatever is brought into ASCII is a name in ASCII. -/
theorem isAscii_of_toAscii {cs name : List Char} (h : toAscii cs = some name) : IsAscii name := by
  simp only [toAscii, Option.bind_eq_bind, Option.bind_eq_some_iff] at h
  obtain ⟨mapped, hmapped, labels, hlabels, h⟩ := h
  split at h
  · cases h
  · rename_i hallowed
    obtain rfl := Option.some.inj h
    have settled := isSettled_of_mapName hmapped
    have hlabel : ∀ l ∈ labels, (∀ c ∈ l, IsPlain c ∧ c ≠ '.') ∧ labelToAscii l = some l := by
      intro l hl
      obtain ⟨label, hpiece, hl⟩ := Text.exists_of_mem_mapM hlabels hl
      refine labelToAscii_eq_self (isSettled_of_mem_splitOnP settled hpiece) (fun hdot => ?_) hl
      exact absurd (Text.mem_of_mem_splitOnP hpiece hdot).2 (by decide)
    have hsplit : (['.'].intercalate labels).splitOnP (· == '.') = labels := by
      refine Text.splitOnP_intercalate rfl (fun l hl c hc => ?_) ?_
      · exact beq_eq_false_iff_ne.mpr ((hlabel l hl).1 c hc).2
      · rintro rfl
        have hlength := Text.length_of_mapM hlabels
        exact List.splitOnP_ne_nil _ _ (List.length_eq_zero_iff.mp hlength)
    constructor
    · intro c hc
      rcases Text.mem_intercalate hc with rfl | ⟨l, hl, hc⟩
      · exact ⟨rfl, rfl⟩
      · exact ((hlabel l hl).1 c hc).1
    · intro c hc
      exact Bool.eq_false_iff.mpr fun hf => hallowed (List.any_eq_true.mpr ⟨c, hc, hf⟩)
    · rw [hsplit]
      exact fun l hl => (hlabel l hl).2

end FederatedAccess.Domain
