import FederatedAccess.Json.Record
import FederatedAccess.Proofs.Json.Written

/-!
# Written lists and objects are read

The texts of a list and the members of an object are read one after the other, and a record is read
from an object that has its members in order, some optional ones being left out.
-/

namespace FederatedAccess.Json

/-! ### Values -/

theorem readInt64_ofInt {n : Int} (high : n < 2 ^ 63) (rest : List Lexeme) :
    readInt64 (.number (.ofInt n) :: rest) = .ok (n, rest) := by
  cases n with
  | ofNat n =>
      have hn : n < Nat.pow 2 63 := Int.ofNat_lt.mp high
      exact if_pos hn
  | negSucc n => rfl

section

variable {α : Type} {r : Reader α} {cs : List Char} {ls : List Lexeme}

/-- A document is read if a value is read from it and nothing is left. -/
theorem readAll_eq_ok_iff {document : Source} {a : α} :
    readAll r document = .ok a ↔ r (lex document) = .ok (a, []) := by
  unfold readAll
  cases r (lex document) with
  | error f => exact iff_of_false nofun nofun
  | ok p =>
      obtain ⟨b, rest⟩ := p
      cases rest with
      | nil => simp [bind, Except.bind, pure, Except.pure]
      | cons l rest => simp [bind, Except.bind, throw, throwThe, MonadExceptOf.throw]

theorem Cut.readAll_eq_ok (h : Cut cs ls) {a : α} (hr : r ls = .ok (a, [])) :
    readAll r (source (String.ofList cs)) = .ok a := by
  rw [readAll, source, String.toList_ofList, h.lex_eq, hr]
  rfl

theorem Cut.readAll_eq_error (h : Cut cs ls) {f : Fault} (hr : r ls = .error f) :
    readAll r (source (String.ofList cs)) = .error f := by
  rw [readAll, source, String.toList_ofList, h.lex_eq, hr]
  rfl

end

theorem length_later (lss : List (List Lexeme)) :
    lss.length ≤ (lss.flatMap (.comma :: ·)).length := by
  induction lss with
  | nil => exact Nat.le_refl 0
  | cons ls lss ih =>
      rw [List.flatMap_cons, List.length_append, List.length_cons, List.length_cons]
      omega

/-! ### Lists -/

/-- The lexemes of a list of texts. -/
def textsOf (xs : List String) : List Lexeme := listOf (xs.map fun x => [.text (.ok x)])

theorem cut_writeList_writeString (xs : List String) :
    Cut (writeList (xs.map writeString)) (textsOf xs) := by
  apply cut_writeList
  rw [List.forall₂_map_left_iff, List.forall₂_map_right_iff, List.forall₂_same]
  exact fun x _ => cut_writeString x

/-- The texts after the first one are read up to the end of the list. -/
theorem readElements_later (expected : String) {xs : List String} {n : Nat} (hn : xs.length < n)
    (rest : List Lexeme) :
    readElements (readString expected) n false
      ((xs.map fun x => [Lexeme.text (.ok x)]).flatMap (.comma :: ·) ++ .closeBracket :: rest) =
        .ok (xs, rest) := by
  induction xs generalizing n with
  | nil =>
      obtain ⟨n, rfl⟩ := Nat.exists_eq_succ_of_ne_zero (Nat.ne_zero_of_lt hn)
      rfl
  | cons x xs ih =>
      obtain ⟨n, rfl⟩ := Nat.exists_eq_succ_of_ne_zero (Nat.ne_zero_of_lt hn)
      simp only [List.map_cons, List.flatMap_cons, List.cons_append, List.nil_append, readElements,
        nextElement, readString, bind, Except.bind, Bool.false_eq_true, if_false,
        ih (Nat.lt_of_succ_lt_succ hn)]
      rfl

/-- A list of texts is read as the texts, up to its end. -/
theorem readList_textsOf (expected : String) (xs : List String) (rest : List Lexeme) :
    readList (readString expected) (textsOf xs ++ rest) = .ok (xs, rest) := by
  rw [textsOf, listOf, List.cons_append, List.append_assoc, List.singleton_append, readList]
  cases xs with
  | nil => rfl
  | cons x xs =>
      have hlength := length_later (xs.map fun x => [Lexeme.text (.ok x)])
      rw [List.length_map] at hlength
      simp only [List.map_cons, joined, List.cons_append, List.nil_append, readElements,
        nextElement, readString, bind, Except.bind, if_true]
      rw [readElements_later]
      · rfl
      · simp only [List.length_cons, List.length_append]
        omega

/-! ### Objects -/

section

variable {σ : Type} {handler : σ → String → Except Fault (Reader σ)}

/-- Reading the members in order leads from one state to another. -/
inductive Taken (handler : σ → String → Except Fault (Reader σ)) :
    σ → List (String × List Lexeme) → σ → Prop
  | nil (s) : Taken handler s [] s
  | cons {s t u name ls vs r} (chosen : handler s name = .ok r)
      (reads : ∀ rest, r (ls ++ rest) = .ok (t, rest)) (later : Taken handler t vs u) :
      Taken handler s ((name, ls) :: vs) u

/-- What reading the members in order comes to: a state, or the first fault. -/
inductive Outcome (handler : σ → String → Except Fault (Reader σ)) :
    σ → List (String × List Lexeme) → Except Fault σ → Prop
  | nil (s) : Outcome handler s [] (.ok s)
  | cons {s name ls vs} {x : Except Fault σ} {out : σ → Except Fault σ}
      (member : ∀ rest, readMember handler s (memberOf (name, ls) ++ rest) = x.map (·, rest))
      (later : ∀ t, x = .ok t → Outcome handler t vs (out t)) :
      Outcome handler s ((name, ls) :: vs) (x.bind out)

variable {s t : σ} {vs : List (String × List Lexeme)}

theorem readMember_memberOf {name : String} {ls : List Lexeme} {r : Reader σ} {x : Except Fault σ}
    (chosen : handler s name = .ok r) (reads : ∀ rest, r (ls ++ rest) = x.map (·, rest))
    (rest : List Lexeme) :
    readMember handler s (memberOf (name, ls) ++ rest) = x.map (·, rest) := by
  change (do let r ← handler s name; r (ls ++ rest)) = _
  rw [chosen]
  exact reads rest

theorem Taken.outcome (h : Taken handler s vs t) : Outcome handler s vs (.ok t) := by
  induction h with
  | nil s => exact .nil s
  | @cons s t u name ls vs r chosen reads later ih =>
      have member := readMember_memberOf (x := .ok t) chosen reads
      exact .cons member fun _ ht => Except.ok.inj ht ▸ ih

variable {out : Except Fault σ}

theorem Outcome.readMembers_eq (h : Outcome handler s vs out) {n : Nat} (hn : vs.length < n)
    (rest : List Lexeme) :
    readMembers handler n s ((vs.map memberOf).flatMap (.comma :: ·) ++ .closeBrace :: rest) =
      out.map (·, rest) := by
  induction h generalizing n with
  | nil =>
      obtain ⟨n, rfl⟩ := Nat.exists_eq_succ_of_ne_zero (Nat.ne_zero_of_lt hn)
      rfl
  | @cons s name ls vs x out member later ih =>
      obtain ⟨n, rfl⟩ := Nat.exists_eq_succ_of_ne_zero (Nat.ne_zero_of_lt hn)
      rw [List.map_cons, List.flatMap_cons, List.append_assoc, List.cons_append, readMembers,
        member]
      cases x with
      | error f => rfl
      | ok t => exact ih t rfl (Nat.lt_of_succ_lt_succ hn)

/-- An object is read member by member, up to its end or to the first fault. -/
theorem Outcome.readObject_eq (h : Outcome handler s vs out) (rest : List Lexeme) :
    readObject handler s (joined (vs.map memberOf) ++ .closeBrace :: rest) =
      out.map (·, rest) := by
  cases h with
  | nil => rfl
  | @cons _ name ls vs x out member later =>
      rw [List.map_cons, joined, List.append_assoc]
      generalize hlater : (vs.map memberOf).flatMap (.comma :: ·) ++ .closeBrace :: rest = ks
      have hread := member ks
      have hlength : vs.length < (memberOf (name, ls) ++ ks).length := by
        have hcommas := length_later (vs.map memberOf)
        rw [List.length_map] at hcommas
        rw [← hlater, List.length_append, List.length_append, List.length_cons]
        omega
      rw [memberOf, List.cons_append] at hread hlength ⊢
      simp only [readObject, hread]
      cases x with
      | error f => rfl
      | ok t =>
          have hmembers := (later t rfl).readMembers_eq hlength rest
          rw [hlater] at hmembers
          exact hmembers

/-- The members of an object are read one after the other, up to its end. -/
theorem Taken.readObject_objectOf (h : Taken handler s vs t) (rest : List Lexeme) :
    readObject handler s (joined (vs.map memberOf) ++ .closeBrace :: rest) = .ok (t, rest) :=
  h.outcome.readObject_eq rest

end

/-! ### Records -/

namespace Record

variable {σ : Type}

/-- Members in order, of which some that may be missing are, with the states before and after. -/
inductive Filled : List (Member σ) → σ → List (String × List Lexeme) → σ → Prop
  | nil (s) : Filled [] s [] s
  | value {m ms s t u ls vs} (reads : ∀ rest, m.read s (ls ++ rest) = .ok (t, rest))
      (later : Filled ms t vs u) : Filled (m :: ms) s ((m.name, ls) :: vs) u
  | absent {m ms s t vs} (optional : m.optional = true) (later : Filled ms s vs t) :
      Filled (m :: ms) s vs t

variable {r : Record σ} {s t : σ} {seen : List String} {m : Member σ}

theorem find?_name {ms : List (Member σ)} (distinct : (ms.map Member.name).Nodup) (hm : m ∈ ms) :
    ms.find? (·.name == m.name) = some m := by
  induction ms with
  | nil => exact absurd hm List.not_mem_nil
  | cons a ms ih =>
      obtain ⟨hnew, hrest⟩ := List.nodup_cons.mp distinct
      rcases List.mem_cons.mp hm with rfl | hm
      · exact List.find?_cons_of_pos (beq_self_eq_true _)
      · rw [List.find?_cons_of_neg, ih hrest hm]
        intro h
        rw [beq_iff_eq.mp h] at hnew
        exact hnew (List.mem_map_of_mem hm)

/-- A member that was not read yet is chosen by its name. -/
theorem handler_eq_ok (distinct : (r.members.map Member.name).Nodup) (hm : m ∈ r.members)
    (unseen : m.name ∉ seen) : r.handler (seen, s) m.name =
      .ok fun ls => (m.read s ls).map fun p => ((m.name :: seen, p.1), p.2) := by
  have hcontains : seen.contains m.name = false := by simpa using unseen
  simp only [handler, find?_name distinct hm, hcontains, Bool.false_eq_true, if_false]

theorem lack?_eq_none (full : ∀ m ∈ r.members, m.optional = false → m.name ∈ seen) :
    r.lack? seen = none := by
  rw [lack?, Option.map_eq_none_iff, List.find?_eq_none]
  intro m hm hlack
  simp only [Bool.and_eq_true, Bool.not_eq_true', List.contains_eq_mem,
    decide_eq_false_iff_not] at hlack
  exact hlack.2 (full m hm hlack.1)

/-- Members that were not read yet are read in their order, and only optional ones stay unread. -/
theorem Filled.taken {ms : List (Member σ)} {vs : List (String × List Lexeme)}
    (h : Filled ms s vs t) (distinct : (r.members.map Member.name).Nodup)
    (sub : ms.Sublist r.members) (seen : List String) (unseen : ∀ m ∈ ms, m.name ∉ seen) :
    ∃ seen', Taken r.handler (seen, s) vs (seen', t) ∧ seen ⊆ seen' ∧
      ∀ m ∈ ms, m.optional = false → m.name ∈ seen' := by
  induction h generalizing seen with
  | nil s => exact ⟨seen, .nil _, fun _ h => h, by simp⟩
  | @value m ms s t u ls vs reads later ih =>
      have hnew := (List.nodup_cons.mp (distinct.sublist (sub.map Member.name))).1
      have hm : m.name ∉ seen := unseen m List.mem_cons_self
      have hlater : ∀ a ∈ ms, a.name ∉ m.name :: seen := by
        intro a ha hmem
        rcases List.mem_cons.mp hmem with heq | hmem
        · exact hnew (heq ▸ List.mem_map_of_mem ha)
        · exact unseen a (List.mem_cons_of_mem m ha) hmem
      obtain ⟨seen', taken, kept, full⟩ := ih (List.sublist_of_cons_sublist sub) _ hlater
      refine ⟨seen', .cons (handler_eq_ok distinct (sub.subset List.mem_cons_self) hm)
        (fun rest => ?_) taken, fun name hname => kept (List.mem_cons_of_mem _ hname), ?_⟩
      · rw [reads]
        rfl
      · intro a ha needed
        rcases List.mem_cons.mp ha with rfl | ha
        · exact kept List.mem_cons_self
        · exact full a ha needed
  | @absent m ms s t vs optional later ih =>
      obtain ⟨seen', taken, kept, full⟩ := ih (List.sublist_of_cons_sublist sub) seen
        fun a ha => unseen a (List.mem_cons_of_mem m ha)
      refine ⟨seen', taken, kept, fun a ha needed => ?_⟩
      rcases List.mem_cons.mp ha with rfl | ha
      · exact absurd (optional.symm.trans needed) (by decide)
      · exact full a ha needed

/-- A record is read from an object that has its members in order. -/
theorem Filled.read_objectOf {vs : List (String × List Lexeme)} (h : Filled r.members s vs t)
    (distinct : (r.members.map Member.name).Nodup) (rest : List Lexeme) :
    r.read s (objectOf vs ++ rest) = .ok (t, rest) := by
  obtain ⟨seen, taken, -, full⟩ := h.taken distinct (.refl _) [] (by simp)
  have hobject := taken.readObject_objectOf rest
  rw [objectOf, List.cons_append, List.append_assoc]
  simp only [read, readObject, List.cons_append, List.nil_append, hobject, bind, Except.bind,
    lack?_eq_none full]
  rfl

end Record

end FederatedAccess.Json
