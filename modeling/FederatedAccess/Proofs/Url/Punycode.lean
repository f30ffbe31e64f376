import FederatedAccess.Url.Punycode
import Mathlib.Data.List.TakeWhile
import Mathlib.Tactic.Ring

/-!
# Text written in ASCII is read back

Writing goes through the code points of a text in ascending order, and reading puts each character
in its place among those that are there. Between two steps the two agree on what has been placed,
and the number that is written next tells how far it is to the next place (`Synced`). So each number
that is written is read as one character, and at the end the whole text has been read.
-/

namespace FederatedAccess.Punycode

/-! ### Digits -/

theorem digit?_digitChar {d : Nat} (h : d < 36) : digit? (digitChar d) = some d := by
  have all : ∀ e : Fin 36, digit? (digitChar e) = some e.val := by decide
  exact all ⟨d, h⟩

/-- No digit is a hyphen, and all belong to ASCII. -/
theorem digitChar_spec {d : Nat} (h : d < 36) :
    digitChar d ≠ '-' ∧ isBasic (digitChar d) = true := by
  have all : ∀ e : Fin 36, digitChar e ≠ '-' ∧ isBasic (digitChar e) = true := by decide
  exact all ⟨d, h⟩

/-- The digits of a number are small letters and decimal digits. -/
theorem exists_of_mem_digits {bias k q : Nat} {c : Char} (h : c ∈ digits bias k q) :
    ∃ d < 36, c = digitChar d := by
  induction q using Nat.strongRecOn generalizing k with
  | ind q ih =>
      have hpos := threshold_pos k bias
      have hle := threshold_le k bias
      rw [digits] at h
      split at h
      · exact ⟨q, by omega, List.mem_singleton.mp h⟩
      · rcases List.mem_cons.mp h with rfl | h
        · have hmod := Nat.mod_lt (q - threshold k bias) (show 0 < 36 - threshold k bias by omega)
          exact ⟨_, by omega, rfl⟩
        · refine ih _ ?_ h
          exact Nat.lt_of_le_of_lt (Nat.div_le_self _ _) (by omega)

/-- A number is read from its digits, and then its character is put. -/
theorem run_digits (q : Nat) (r : Reading) (rest : List Char) :
    r.run (digits r.bias r.k q ++ rest) =
      (Reading.put { r with place := r.place + q * r.weight }).bind (·.run rest) := by
  induction q using Nat.strongRecOn generalizing r with
  | ind q ih =>
      have hpos := threshold_pos r.k r.bias
      have hle := threshold_le r.k r.bias
      rw [digits]
      split
      · rename_i hlt
        rw [List.singleton_append, Reading.run, digit?_digitChar (by omega)]
        simp only [Option.bind_eq_bind, Option.bind_some, if_pos hlt]
      · rename_i hge
        obtain ⟨t, ht⟩ : ∃ t, threshold r.k r.bias = t := ⟨_, rfl⟩
        rw [ht] at hpos hle hge ⊢
        have hmod := Nat.mod_lt (q - t) (show 0 < 36 - t by omega)
        have hsplit := Nat.mod_add_div (q - t) (36 - t)
        rw [List.cons_append, Reading.run, digit?_digitChar (by omega)]
        simp only [Option.bind_eq_bind, Option.bind_some, ht,
          if_neg (show ¬t + (q - t) % (36 - t) < t by omega)]
        have hnext := ih ((q - t) / (36 - t))
          (Nat.lt_of_le_of_lt (Nat.div_le_self _ _) (by omega))
          { r with
            place := r.place + (t + (q - t) % (36 - t)) * r.weight
            weight := r.weight * (36 - t)
            k := r.k + 36 }
        have hplace : r.place + (t + (q - t) % (36 - t)) * r.weight +
            (q - t) / (36 - t) * (r.weight * (36 - t)) = r.place + q * r.weight := by
          have hq : t + (q - t) % (36 - t) + (36 - t) * ((q - t) / (36 - t)) = q := by omega
          generalize (q - t) / (36 - t) = u at hq
          generalize (q - t) % (36 - t) = v at hq
          calc
            r.place + (t + v) * r.weight + u * (r.weight * (36 - t))
              = r.place + (t + v + (36 - t) * u) * r.weight := by ring
            _ = r.place + q * r.weight := by rw [hq]
        rw [hplace] at hnext
        exact hnext

/-- A character is put on the level and at the place that the number tells. -/
theorem Reading.put_of_place {r : Reading} {m i : Nat}
    (place : r.place = (m - r.next) * (r.output.length + 1) + i) (next_le : r.next ≤ m)
    (le : i ≤ r.output.length) (valid : m.isValidChar) :
    r.put = some ⟨r.output.take i ++ Char.ofNat m :: r.output.drop i, m,
      adapt (r.place - r.start) (r.output.length + 1) (r.start = 0), i + 1, i + 1, 1, 36⟩ := by
  have hdiv : r.place / (r.output.length + 1) = m - r.next := by
    rw [place, Nat.mul_comm, Nat.mul_add_div (Nat.succ_pos _), Nat.div_eq_of_lt (by omega),
      Nat.add_zero]
  have hmod : r.place % (r.output.length + 1) = i := by
    rw [place, Nat.mul_add_mod_of_lt (by omega)]
  simp only [Reading.put, hdiv, hmod, Nat.add_sub_cancel' next_le, if_pos valid]

/-! ### Writing and reading side by side -/

/-- Writing goes from `p` to `p'` and reading follows it from `r` to `r'`. -/
structure Follows (p p' : Progress) (r r' : Reading) (written : List Char) : Prop where
  output : p'.output = p.output ++ written
  digits : ∀ c ∈ written, ∃ d < 36, c = digitChar d
  run : ∀ rest, r.run (written ++ rest) = r'.run rest

namespace Follows

variable {p p' p'' : Progress} {r r' r'' : Reading} {s t : List Char}

/-- Nothing is written, so nothing is read. -/
theorem silent (output : p'.output = p.output) : Follows p p' r r [] where
  output := by rw [output, List.append_nil]
  digits := by simp
  run := fun _ => rfl

theorem trans (h : Follows p p' r r' s) (h' : Follows p' p'' r' r'' t) :
    Follows p p'' r r'' (s ++ t) where
  output := by rw [h'.output, h.output, List.append_assoc]
  digits := by
    intro c hc
    rcases List.mem_append.mp hc with hc | hc
    · exact h.digits c hc
    · exact h'.digits c hc
  run := fun rest => by rw [List.append_assoc, h.run, h'.run]

end Follows

/-- What has been read is what has been written, and the number in the making tells how far it is
from there to place `i` on the level of the code point `m`. -/
structure Aligned (basic : Nat) (p : Progress) (r : Reading) (m i : Nat) : Prop where
  bias : r.bias = p.bias
  weight : r.weight = 1
  k : r.k = 36
  place : r.place = r.start
  done : p.done = r.output.length
  basic_le : basic ≤ p.done
  first : r.start = 0 ↔ p.done = basic
  next_le : r.next ≤ m
  distance : r.start + p.delta = (m - r.next) * (p.done + 1) + i

namespace Aligned

variable {basic m i : Nat} {p : Progress} {r : Reading}

/-- A character that is there already is passed. -/
theorem pass (h : Aligned basic p r m i) :
    Aligned basic { p with delta := p.delta + 1 } r m (i + 1) :=
  { h with distance := by rw [← Nat.add_assoc, h.distance, Nat.add_assoc] }

/-- Writing goes up to a higher level. -/
theorem rise (h : Aligned basic p r p.next 0) (le : p.next ≤ m) :
    Aligned basic { p with delta := p.delta + (m - p.next) * (p.done + 1) } r m 0 :=
  { h with
    next_le := h.next_le.trans le
    distance := by
      have hsum : m - r.next = (p.next - r.next) + (m - p.next) := by
        have := h.next_le
        omega
      calc
        r.start + (p.delta + (m - p.next) * (p.done + 1))
          = (p.next - r.next) * (p.done + 1) + (m - p.next) * (p.done + 1) := by
            rw [← Nat.add_assoc, h.distance, Nat.add_zero]
        _ = (m - r.next) * (p.done + 1) := by rw [hsum, Nat.add_mul] }

/-- At its end a level goes over into the next. -/
theorem turn (h : Aligned basic p r m r.output.length) :
    Aligned basic { p with delta := p.delta + 1, next := m + 1 } r (m + 1) 0 :=
  { h with
    next_le := h.next_le.trans (Nat.le_succ m)
    distance := by
      have hsum : m + 1 - r.next = (m - r.next) + 1 := by
        have := h.next_le
        omega
      calc
        r.start + (p.delta + 1) = (m - r.next) * (p.done + 1) + p.done + 1 := by
          rw [← Nat.add_assoc, h.distance, h.done]
        _ = (m + 1 - r.next) * (p.done + 1) + 0 := by rw [hsum]; ring }

/-- A character that is written is put at its place. -/
theorem put (h : Aligned basic p r m i) (le : i ≤ r.output.length) {c : Char} (hc : c.toNat = m) :
    ∃ r', Follows p (p.visit basic m c) r r' (digits p.bias 36 p.delta) ∧
      r'.output = r.output.take i ++ c :: r.output.drop i ∧
      Aligned basic (p.visit basic m c) r' m (i + 1) := by
  have hvisit : p.visit basic m c = { p with
      delta := 0
      bias := adapt p.delta (p.done + 1) (p.done = basic)
      done := p.done + 1
      output := p.output ++ digits p.bias 36 p.delta } := by
    rw [Progress.visit, if_neg (by omega), if_pos hc]
  let r' : Reading := ⟨r.output.take i ++ c :: r.output.drop i, m,
    adapt p.delta (p.done + 1) (p.done = basic), i + 1, i + 1, 1, 36⟩
  have hput : Reading.put { r with place := r.place + p.delta * r.weight } = some r' := by
    have hplace : r.place + p.delta * r.weight = (m - r.next) * (r.output.length + 1) + i := by
      rw [h.place, h.weight, Nat.mul_one, h.distance, h.done]
    have hspan : r.place + p.delta * r.weight - r.start = p.delta := by
      rw [h.place, h.weight, Nat.mul_one, Nat.add_sub_cancel_left]
    rw [Reading.put_of_place (r := { r with place := r.place + p.delta * r.weight }) hplace
      h.next_le le (hc ▸ c.valid)]
    simp only [r', hspan, h.done, h.first, ← hc, Char.ofNat_toNat]
  refine ⟨r', ⟨?_, fun d hd => exists_of_mem_digits hd, fun rest => ?_⟩, rfl, ?_⟩
  · rw [hvisit]
  · calc
      r.run (digits p.bias 36 p.delta ++ rest) = r.run (digits r.bias r.k p.delta ++ rest) := by
        rw [h.bias, h.k]
      _ = r'.run rest := by rw [run_digits, hput, Option.bind_some]
  · rw [hvisit]
    have hbasic := h.basic_le
    exact {
      bias := rfl
      weight := rfl
      k := rfl
      place := rfl
      done := by simp only [r', h.done, List.length_append, List.length_take, List.length_cons,
        List.length_drop]; omega
      basic_le := Nat.le_succ_of_le hbasic
      first := by change i + 1 = 0 ↔ p.done + 1 = basic; omega
      next_le := Nat.le_refl m
      distance := by change i + 1 + 0 = (m - m) * _ + (i + 1); simp }

end Aligned

/-! ### One level -/

/-- The characters of a text below a code point. -/
def below (m : Nat) (cs : List Char) : List Char := cs.filter (·.toNat < m)

/-- Once the characters of `front` have been looked at, those of them on the level are there. -/
theorem follows_visit {basic m : Nat} (back : List Char) :
    ∀ (front : List Char) {p : Progress} {r : Reading},
      Aligned basic p r m (below (m + 1) front).length → r.output = below (m + 1) front ++ below m back →
      ∃ s r', Follows p (back.foldl (Progress.visit basic m) p) r r' s ∧
        r'.output = below (m + 1) (front ++ back) ∧
        Aligned basic (back.foldl (Progress.visit basic m) p) r' m (below (m + 1) (front ++ back)).length := by
  induction back with
  | nil =>
      intro front p r aligned output
      refine ⟨[], r, .silent rfl, ?_, ?_⟩
      · rw [output, List.append_nil]
        exact List.append_nil _
      · rwa [List.append_nil]
  | cons c back ih =>
      intro front p r aligned output
      have hsnoc : below (m + 1) (front ++ [c]) = below (m + 1) front ++ below (m + 1) [c] := List.filter_append _ _
      have hmore : front ++ c :: back = front ++ [c] ++ back := by simp
      rw [hmore, List.foldl_cons]
      rcases Nat.lt_trichotomy c.toNat m with lt | eq | gt
      · -- the character is there already
        have hone : below (m + 1) [c] = [c] :=
          List.filter_cons_of_pos (decide_eq_true (Nat.lt_succ_of_lt lt))
        have hvisit : p.visit basic m c = { p with delta := p.delta + 1 } := if_pos lt
        obtain ⟨s, r', follows, h⟩ := ih (front ++ [c]) (p := p.visit basic m c) (r := r)
          (by rw [hsnoc, hone, hvisit, List.length_append]; exact aligned.pass)
          (by rw [output, hsnoc, hone]; simp [below, lt])
        exact ⟨[] ++ s, r', .trans (.silent (by rw [hvisit])) follows, h⟩
      · -- the character is written and put
        have hone : below (m + 1) [c] = [c] := by simp [below, eq]
        have hbelow : below m (c :: back) = below m back := by simp [below, eq]
        obtain ⟨r₁, first, houtput, halign⟩ := aligned.put (by rw [output]; simp) eq
        obtain ⟨s, r', follows, h⟩ := ih (front ++ [c]) (p := p.visit basic m c) (r := r₁)
          (by rw [hsnoc, hone, List.length_append]; exact halign)
          (by rw [houtput, output, hsnoc, hone, hbelow]; simp)
        exact ⟨_ ++ s, r', first.trans follows, h⟩
      · -- the character is left for later
        have hone : below (m + 1) [c] = [] :=
          List.filter_cons_of_neg (mt of_decide_eq_true (Nat.not_lt.mpr gt))
        have hbelow : below m (c :: back) = below m back := by simp [below, gt.le]
        have hvisit : p.visit basic m c = p := by
          rw [Progress.visit, if_neg (by omega), if_neg (by omega)]
        rw [hvisit]
        exact ih (front ++ [c]) (by rwa [hsnoc, hone, List.append_nil])
          (by rw [output, hsnoc, hone, hbelow, List.append_nil])

/-- All characters of a level are written and put. -/
theorem follows_place {basic m : Nat} {cs : List Char} {p : Progress} {r : Reading}
    (aligned : Aligned basic p r p.next 0) (le : p.next ≤ m) (output : r.output = below m cs) :
    ∃ s r', Follows p (p.place basic cs m) r r' s ∧ r'.output = below (m + 1) cs ∧
      Aligned basic (p.place basic cs m) r' (m + 1) 0 := by
  obtain ⟨s, r', follows, houtput, halign⟩ :=
    follows_visit cs [] (aligned.rise le) output
  rw [List.nil_append] at houtput halign
  rw [← houtput] at halign
  exact ⟨s, r', ⟨follows.output, follows.digits, follows.run⟩, houtput, halign.turn⟩

/-! ### All levels -/

theorem mem_insert {n k : Nat} {ms : List Nat} : k ∈ insert n ms ↔ k = n ∨ k ∈ ms := by
  induction ms with
  | nil => simp [insert]
  | cons m ms ih =>
      rw [insert]
      split
      · exact List.mem_cons
      · split
        · rename_i heq
          rw [heq, List.mem_cons]
          exact (or_iff_right_of_imp Or.inl).symm
        · rw [List.mem_cons, ih, List.mem_cons, or_left_comm]

theorem pairwise_insert {n : Nat} {ms : List Nat} (h : ms.Pairwise (· < ·)) :
    (insert n ms).Pairwise (· < ·) := by
  induction ms with
  | nil => exact List.pairwise_singleton _ _
  | cons m ms ih =>
      obtain ⟨hm, hms⟩ := List.pairwise_cons.mp h
      rw [insert]
      split
      · rename_i hlt
        refine List.pairwise_cons.mpr ⟨fun k hk => ?_, h⟩
        rcases List.mem_cons.mp hk with rfl | hk
        · exact hlt
        · exact hlt.trans (hm k hk)
      · split
        · exact h
        · refine List.pairwise_cons.mpr ⟨fun k hk => ?_, ih hms⟩
          rcases mem_insert.mp hk with rfl | hk
          · omega
          · exact hm k hk

theorem mem_foldr_insert {k : Nat} {ns : List Nat} : k ∈ ns.foldr insert [] ↔ k ∈ ns := by
  induction ns with
  | nil => rfl
  | cons n ns ih => rw [List.foldr_cons, mem_insert, ih, List.mem_cons]

theorem pairwise_foldr_insert (ns : List Nat) : (ns.foldr insert []).Pairwise (· < ·) := by
  induction ns with
  | nil => exact List.Pairwise.nil
  | cons n ns ih => exact pairwise_insert ih

/-- If no character lies between two levels, there is nothing to write from one to the other. -/
theorem below_eq {n m : Nat} {cs : List Char} (le : n ≤ m) (h : ∀ c ∈ cs, n ≤ c.toNat → m ≤ c.toNat) :
    below m cs = below n cs := by
  apply List.filter_congr
  intro c hc
  have := h c hc
  rw [decide_eq_decide]
  omega

/-- When all levels that are left have been gone through, the whole text has been read. -/
theorem follows_levels {basic : Nat} (cs : List Char) (ms : List Nat) :
    ∀ {p : Progress} {r : Reading}, Aligned basic p r p.next 0 → r.output = below p.next cs →
      ms.Pairwise (· < ·) → (∀ m ∈ ms, p.next ≤ m) →
      (∀ c ∈ cs, p.next ≤ c.toNat → c.toNat ∈ ms) →
      ∃ s r', Follows p (ms.foldl (Progress.place basic cs) p) r r' s ∧ r'.output = cs ∧
        r'.k = 36 := by
  induction ms with
  | nil =>
      intro p r aligned output _ _ covers
      refine ⟨[], r, .silent rfl, ?_, aligned.k⟩
      rw [output]
      apply List.filter_eq_self.mpr
      intro c hc
      have := mt (covers c hc) (List.not_mem_nil)
      exact decide_eq_true (Nat.lt_of_not_le this)
  | cons m ms ih =>
      intro p r aligned output sorted least covers
      obtain ⟨hm, hms⟩ := List.pairwise_cons.mp sorted
      have le : p.next ≤ m := least m List.mem_cons_self
      have hbelow : below m cs = below p.next cs := by
        refine below_eq le fun c hc hnext => ?_
        rcases List.mem_cons.mp (covers c hc hnext) with heq | hmem
        · exact heq.ge
        · exact (hm _ hmem).le
      obtain ⟨s, r₁, first, houtput, halign⟩ := follows_place aligned le (output.trans hbelow.symm)
      obtain ⟨t, r', follows, h⟩ := ih halign houtput hms (fun k hk => hm k hk) fun c hc hnext => by
        have hnext' : m + 1 ≤ c.toNat := hnext
        rcases List.mem_cons.mp (covers c hc (by omega)) with heq | hmem
        · omega
        · exact hmem
      exact ⟨s ++ t, r', first.trans follows, h⟩

/-! ### The whole text -/

/-- What is written splits at its last hyphen into the characters of ASCII and the digits. -/
theorem decode_append {basic s : List Char} (hbasic : ∀ c ∈ basic, isBasic c = true)
    (hs : ∀ c ∈ s, ∃ d < 36, c = digitChar d) :
    decode ((if basic.isEmpty then [] else basic ++ ['-']) ++ s) =
      Reading.run ⟨basic, 0x80, 72, 0, 0, 1, 36⟩ s := by
  have hdigit : ∀ c ∈ s, c ≠ '-' ∧ isBasic c = true := by
    intro c hc
    obtain ⟨d, hd, rfl⟩ := hs c hc
    exact digitChar_spec hd
  have hplain : ∀ c ∈ s.reverse, (c != '-') = true := fun c hc =>
    bne_iff_ne.mpr (hdigit c (List.mem_reverse.mp hc)).1
  cases hempty : basic.isEmpty with
  | true =>
      obtain rfl := List.isEmpty_iff.mp hempty
      have hall : s.all isBasic = true := List.all_eq_true.mpr fun c hc => (hdigit c hc).2
      rw [if_pos rfl, List.nil_append, decode, List.takeWhile_eq_self_iff.mpr hplain, List.reverse_reverse, Nat.sub_self,
        List.take_zero, if_pos hall]
      rfl
  | false =>
      have htail : ((basic ++ ['-'] ++ s).reverse.takeWhile (· != '-')).reverse = s := by
        rw [List.append_assoc, List.reverse_append, List.reverse_append, List.append_assoc,
          List.takeWhile_append_of_pos hplain]
        simp
      have hall : (basic ++ ['-'] ++ s).all isBasic = true := by
        simp only [List.all_append, Bool.and_eq_true, List.all_eq_true]
        exact ⟨⟨hbasic, by simp [isBasic]⟩, fun c hc => (hdigit c hc).2⟩
      have hlength : (basic ++ ['-'] ++ s).length - s.length = (basic ++ ['-']).length := by
        rw [List.length_append, Nat.add_sub_cancel]
      rw [if_neg (by simp), decode, htail, if_pos hall, hlength, List.take_left,
        List.dropLast_concat]

/-- What is written before the digits. -/
def front (cs : List Char) : List Char :=
  if (cs.filter isBasic).isEmpty then [] else cs.filter isBasic ++ ['-']

/-- After the characters of ASCII come digits from which the others are read. -/
theorem exists_encode_eq (cs : List Char) :
    ∃ s, encode cs = front cs ++ s ∧ (∀ c ∈ s, ∃ d < 36, c = digitChar d) ∧
      Reading.run ⟨cs.filter isBasic, 0x80, 72, 0, 0, 1, 36⟩ s = some cs := by
  let others := ((cs.filter (!isBasic ·)).map Char.toNat).foldr insert []
  let p : Progress := ⟨0x80, 0, 72, (cs.filter isBasic).length, front cs⟩
  let r : Reading := ⟨cs.filter isBasic, 0x80, 72, 0, 0, 1, 36⟩
  have hmem (k : Nat) : k ∈ others ↔ ∃ c ∈ cs, isBasic c = false ∧ c.toNat = k := by
    simp [others, mem_foldr_insert, and_assoc]
  have aligned : Aligned p.done p r p.next 0 :=
    ⟨rfl, rfl, rfl, rfl, rfl, Nat.le_refl _, iff_of_true rfl rfl, Nat.le_refl _, by simp [p, r]⟩
  obtain ⟨s, r', follows, houtput, hk⟩ := follows_levels cs others aligned rfl
    (pairwise_foldr_insert _)
    (fun m hm => by
      obtain ⟨c, -, hc, rfl⟩ := (hmem m).mp hm
      exact Nat.le_of_not_lt (of_decide_eq_false hc))
    (fun c hc hnext => (hmem _).mpr ⟨c, hc, decide_eq_false (Nat.not_lt.mpr hnext), rfl⟩)
  refine ⟨s, follows.output, follows.digits, ?_⟩
  calc
    r.run s = r'.run [] := by rw [← follows.run, List.append_nil]
    _ = some cs := by rw [Reading.run, if_pos hk, houtput]

/-- Every text is read back from what is written. -/
theorem decode_encode (cs : List Char) : decode (encode cs) = some cs := by
  obtain ⟨s, hencode, hdigits, hrun⟩ := exists_encode_eq cs
  calc
    decode (encode cs) = decode (front cs ++ s) := by rw [hencode]
    _ = Reading.run ⟨cs.filter isBasic, 0x80, 72, 0, 0, 1, 36⟩ s :=
      decode_append (fun c hc => (List.mem_filter.mp hc).2) hdigits
    _ = some cs := hrun

/-- What is written holds characters of the text that belong to ASCII, hyphens and digits. -/
theorem mem_encode {cs : List Char} {c : Char} (h : c ∈ encode cs) :
    c ∈ cs ∧ isBasic c = true ∨ c = '-' ∨ ∃ d < 36, c = digitChar d := by
  obtain ⟨s, hencode, hdigits, -⟩ := exists_encode_eq cs
  rw [hencode, front] at h
  rcases List.mem_append.mp h with h | h
  · split at h
    · exact absurd h List.not_mem_nil
    · rcases List.mem_append.mp h with h | h
      · exact .inl (List.mem_filter.mp h)
      · exact .inr (.inl (List.mem_singleton.mp h))
  · exact .inr (.inr (hdigits c h))

end FederatedAccess.Punycode
