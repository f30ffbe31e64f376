import FederatedAccess.Proofs.Text.Pieces
import FederatedAccess.Url

/-!
# Paths are read segment by segment

Each segment of a path is read on its own: it is brought into its written form, and either it stands
for a level or it is kept. A tidy segment is in its written form and stands for no level, so a path
of tidy segments is read as it is, and every path that has been read is one.
-/

namespace FederatedAccess

/-! ### Escaped characters -/

namespace Percent

/-- The characters of a text with escapes: those that are plain, percent signs and hexadecimal
digits. -/
theorem forall_mem_encode {plain : Char → Bool} {P : Char → Prop} {cs : List Char}
    (percent : P '%') (hexes : ∀ n : Fin 16, P (hexChar n))
    (h : ∀ c ∈ cs, plain c = true → P c) : ∀ c ∈ encode plain cs, P c := by
  intro d hd
  obtain ⟨c, hc, hd⟩ := List.mem_flatMap.mp hd
  unfold encodeChar at hd
  split at hd
  · rename_i hplain
    obtain rfl := List.mem_singleton.mp hd
    exact h d hc hplain
  · obtain ⟨b, -, hd⟩ := List.mem_flatMap.mp hd
    have hlt := b.toNat_lt
    simp only [escape, List.mem_cons, List.not_mem_nil, or_false] at hd
    rcases hd with rfl | rfl | rfl
    · exact percent
    · exact hexes ⟨b.toNat / 16, by omega⟩
    · exact hexes ⟨b.toNat % 16, by omega⟩

/-- Every character is written. -/
theorem eq_nil_of_encode {plain : Char → Bool} {cs : List Char} (h : encode plain cs = []) :
    cs = [] := by
  cases cs with
  | nil => rfl
  | cons c cs =>
      have hc : encodeChar plain c = [] := (List.append_eq_nil_iff.mp h).1
      unfold encodeChar at hc
      split at hc
      · cases hc
      · have hbytes : String.utf8EncodeChar c = [] := by
          cases hb : String.utf8EncodeChar c with
          | nil => rfl
          | cons b bs =>
              rw [hb] at hc
              cases hc
        have hlength := congrArg List.length hbytes
        rw [String.length_utf8EncodeChar] at hlength
        exact absurd hlength (Nat.ne_of_gt (Char.utf8Size_pos c))

end Percent

namespace Url

/-! ### Segments -/

/-- A segment that is read as it is: it holds plain characters only, no slash among them, and stands
for no level. -/
structure IsTidySegment (s : List Char) : Prop where
  plain : ∀ c ∈ s, isPathPlain c = true
  uncut : ∀ c ∈ s, isSlash true c = false
  notUp : isUp s = false
  notHere : isHere s = false

theorem isTidySegment_nil : IsTidySegment [] :=
  ⟨fun _ h => absurd h List.not_mem_nil, fun _ h => absurd h List.not_mem_nil, rfl, rfl⟩

/-- A segment in its written form is tidy, unless it stands for a level. -/
theorem isTidySegment_encode {s : List Char} (uncut : ∀ c ∈ s, isSlash true c = false)
    (notUp : isUp (Percent.encode isPathPlain s) = false)
    (notHere : isHere (Percent.encode isPathPlain s) = false) :
    IsTidySegment (Percent.encode isPathPlain s) where
  plain := Percent.forall_mem_encode rfl (by decide) fun _ _ h => h
  uncut := Percent.forall_mem_encode rfl (by decide) fun c hc _ => uncut c hc
  notUp := notUp
  notHere := notHere

theorem leave_false (above : List (List Char)) : leave false above = above.dropLast := by
  unfold leave
  split
  · rfl
  · rfl

theorem writeSegment_false (above : List (List Char)) (s : List Char) :
    writeSegment false above s = s := rfl

/-- Tidy segments are kept, whatever follows. -/
theorem descend_append {above tidy rest : List (List Char)} (h : ∀ s ∈ tidy, IsTidySegment s)
    (more : rest ≠ []) :
    descend false above (tidy ++ rest) = descend false (above ++ tidy) rest := by
  induction tidy generalizing above with
  | nil => rw [List.nil_append, List.append_nil]
  | cons s tidy ih =>
      have hs := h s List.mem_cons_self
      obtain ⟨next, others, heq⟩ := List.exists_cons_of_ne_nil
        (show tidy ++ rest ≠ [] from fun hnil => more (List.append_eq_nil_iff.mp hnil).2)
      calc
        descend false above (s :: tidy ++ rest)
          = descend false (above ++ [s]) (tidy ++ rest) := by
            rw [List.cons_append, heq, descend]
            · simp [hs.notUp, hs.notHere, writeSegment_false]
            · simp
        _ = descend false (above ++ s :: tidy) rest := by
          rw [ih fun t ht => h t (List.mem_cons_of_mem _ ht), List.append_assoc,
            List.singleton_append]

/-- The last segment ends the path at its level or stands on its own. -/
theorem descend_singleton (above : List (List Char)) (s : List Char) :
    descend false above [s] = if isUp s then above.dropLast ++ [[]]
      else if isHere s then above ++ [[]] else above ++ [s] := by
  rw [descend, leave_false, writeSegment_false]

/-- Tidy segments are read as they are. -/
theorem descend_eq_self {ss : List (List Char)} (h : ∀ s ∈ ss, IsTidySegment s) :
    descend false [] ss = ss := by
  rcases List.eq_nil_or_concat' ss with rfl | ⟨front, last, rfl⟩
  · rfl
  · have hlast := h last (List.mem_append_right _ (List.mem_singleton_self last))
    rw [descend_append (fun s hs => h s (List.mem_append_left _ hs)) (List.cons_ne_nil _ _),
      descend_singleton, hlast.notUp, hlast.notHere]
    rfl

/-- Following segments in their written form leads to tidy segments, and to one at least. -/
theorem tidy_descend {ss : List (List Char)} (more : ss ≠ [])
    (plain : ∀ s ∈ ss, ∀ c ∈ s, isPathPlain c = true ∧ isSlash true c = false) :
    ∀ {above : List (List Char)}, (∀ s ∈ above, IsTidySegment s) →
      descend false above ss ≠ [] ∧ ∀ s ∈ descend false above ss, IsTidySegment s := by
  induction ss with
  | nil => exact absurd rfl more
  | cons s ss ih =>
      intro above habove
      have hplain := plain s List.mem_cons_self
      have hsnoc {t : List Char} (ht : IsTidySegment t) : ∀ u ∈ above ++ [t], IsTidySegment u :=
        fun u hu => (List.mem_append.mp hu).elim (habove u) fun hu => List.mem_singleton.mp hu ▸ ht
      have hleft : ∀ u ∈ above.dropLast, IsTidySegment u :=
        fun u hu => habove u (List.dropLast_subset _ hu)
      cases ss with
      | nil =>
          rw [descend_singleton]
          split
          · refine ⟨by simp, fun u hu => ?_⟩
            rcases List.mem_append.mp hu with hu | hu
            · exact hleft u hu
            · exact List.mem_singleton.mp hu ▸ isTidySegment_nil
          · split
            · exact ⟨by simp, hsnoc isTidySegment_nil⟩
            · exact ⟨by simp, hsnoc ⟨fun c hc => (hplain c hc).1, fun c hc => (hplain c hc).2,
                by simpa using ‹¬isUp s = true›, by simpa using ‹¬isHere s = true›⟩⟩
      | cons next ss =>
          have ih' {above : List (List Char)} :=
            @ih (List.cons_ne_nil _ _) (fun t ht => plain t (List.mem_cons_of_mem _ ht)) above
          rw [descend]
          · split
            · rw [leave_false]
              exact ih' hleft
            · split
              · exact ih' habove
              · rw [writeSegment_false]
                exact ih' (hsnoc ⟨fun c hc => (hplain c hc).1, fun c hc => (hplain c hc).2,
                  by simpa using ‹¬isUp s = true›, by simpa using ‹¬isHere s = true›⟩)
          · simp

/-- Segments between slashes are read one by one. -/
theorem readSegments_intercalate {scheme : List Char} (special : isSpecial scheme = true)
    (notFile : scheme ≠ fileScheme) {raw : List (List Char)} (more : raw ≠ [])
    (uncut : ∀ s ∈ raw, ∀ c ∈ s, isSlash true c = false) :
    readSegments scheme (['/'].intercalate raw) =
      descend false [] (raw.map (Percent.encode isPathPlain)) := by
  have hfile : (scheme == fileScheme) = false := beq_eq_false_iff_ne.mpr notFile
  simp only [readSegments, special, hfile, Text.splitOnP_intercalate (x := '/') rfl uncut more]
  rfl

/-- The segments of a path under a scheme of the web are tidy, and there is one at least. -/
theorem tidy_readSegments {scheme : List Char} (special : isSpecial scheme = true)
    (notFile : scheme ≠ fileScheme) (cs : List Char) :
    readSegments scheme cs ≠ [] ∧ ∀ s ∈ readSegments scheme cs, IsTidySegment s := by
  have hfile : (scheme == fileScheme) = false := beq_eq_false_iff_ne.mpr notFile
  simp only [readSegments, special, hfile]
  refine tidy_descend (by simp [List.splitOnP_ne_nil]) (fun s hs => ?_)
    fun s hs => absurd hs List.not_mem_nil
  obtain ⟨piece, hpiece, rfl⟩ := List.mem_map.mp hs
  exact Percent.forall_mem_encode (by decide) (by decide) fun c hc hplain =>
    ⟨hplain, (Text.mem_of_mem_splitOnP hpiece hc).2⟩

theorem writeSegments_eq {raw : List (List Char)} (more : raw ≠ []) :
    writeSegments raw = '/' :: ['/'].intercalate raw := by
  induction raw with
  | nil => exact absurd rfl more
  | cons s raw ih =>
      cases raw with
      | nil => simp [writeSegments, List.intercalate_singleton]
      | cons next raw =>
          calc
            writeSegments (s :: next :: raw) = '/' :: s ++ writeSegments (next :: raw) :=
              List.flatMap_cons
            _ = '/' :: ['/'].intercalate (s :: next :: raw) := by
              rw [ih (List.cons_ne_nil _ _), List.intercalate_cons_cons]
              simp

end Url

end FederatedAccess
