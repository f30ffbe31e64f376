import FederatedAccess.Proofs.Json.Value

/-!
# Objects are read member by member

A reader that takes each value as a whole fails or leaves what follows the value, whatever that is.
An object whose members are read by such readers is read member by member: what it is read as
depends on its members only.
-/

namespace FederatedAccess.Json

section

variable {α β : Type} {r : Reader α}

/-- A reader takes each value as a whole and makes of it what is said: it fails, or leaves what
follows the value. -/
def Reads (r : Reader α) (out : Value → Except Fault α) : Prop :=
  ∀ (v : Value) (rest : List Lexeme), r (v.lexemes ++ rest) = (out v).map (·, rest)

/-- What a reader makes of a value. -/
def Value.read (v : Value) (r : Reader α) : Except Fault α := (r v.lexemes).map (·.1)

/-- A reader takes each value as a whole. -/
def TakesValues (r : Reader α) : Prop := Reads r fun v => v.read r

theorem Reads.read_eq {out : Value → Except Fault α} (h : Reads r out) (v : Value) :
    v.read r = out v := by
  have hv := h v []
  rw [List.append_nil] at hv
  rw [Value.read, hv]
  cases out v <;> rfl

theorem Reads.takesValues {out : Value → Except Fault α} (h : Reads r out) : TakesValues r := by
  intro v rest
  change _ = (v.read r).map _
  rw [h.read_eq v]
  exact h v rest

theorem Reads.map {out : Value → Except Fault α} (h : Reads r out) (f : α → β) :
    Reads (fun ls => (r ls).map fun p => (f p.1, p.2)) fun v => (out v).map f := by
  intro v rest
  change (r (v.lexemes ++ rest)).map _ = ((out v).map f).map _
  rw [h v rest]
  cases out v <;> rfl

theorem reads_skip : Reads skip fun _ => .ok () := skip_lexemes

/-- A reader that takes one lexeme and is refused by containers takes each value as a whole. -/
theorem TakesValues.of_takes (h : ∀ l, Takes r l) (noList : ∃ f, r [.openBracket] = .error f)
    (noObject : ∃ f, r [.openBrace] = .error f) : TakesValues r := by
  have whole (l : Lexeme) (rest : List Lexeme) :
      r ([l] ++ rest) = ((r [l]).map (·.1)).map (·, rest) := by
    cases h l with
    | fails f h =>
        rw [h, List.singleton_append, h]
        rfl
    | takes a h =>
        rw [h, List.singleton_append, h]
        rfl
  have refused {l : Lexeme} (ls rest : List Lexeme) (hl : ∃ f, r [l] = .error f) :
      r (l :: ls ++ rest) = ((r (l :: ls)).map (·.1)).map (·, rest) := by
    obtain ⟨f, hf⟩ := hl
    cases h l with
    | fails g h =>
        rw [h, List.cons_append, h]
        rfl
    | takes a h => cases hf.symm.trans (h [])
  intro v rest
  cases v with
  | null => exact whole .null rest
  | boolean b => exact whole (.boolean b) rest
  | number n => exact whole (.number n.number) rest
  | text content => exact whole (textOf content) rest
  | list vs => exact refused _ rest noList
  | object ms => exact refused _ rest noObject

end

/-! ### Objects -/

/-- The lexemes of an object whose names are texts. -/
def objectLexemes (ms : List (String × Value)) : List Lexeme :=
  objectOf (ms.map fun m => (m.1, m.2.lexemes))

/-- The text of an object whose names are texts. -/
def objectText (ms : List (String × Value)) : List Char :=
  writeObject (ms.map fun m => (m.1, m.2.write))

/-- The text of an object is cut into its lexemes. -/
theorem lex_objectText (ms : List (String × Value)) :
    lex ((objectText ms).map some) = objectLexemes ms := by
  have hcut : Cut (objectText ms) (objectLexemes ms) := by
    apply cut_writeObject
    rw [List.forall₂_map_left_iff, List.forall₂_map_right_iff, List.forall₂_same]
    exact fun m _ => ⟨rfl, m.2.cut_write⟩
  exact hcut.lex_eq

section

variable {σ : Type} {handler : σ → String → Except Fault (Reader σ)}

/-- What a member makes of a state. -/
def takeMember (handler : σ → String → Except Fault (Reader σ)) (s : σ) (m : String × Value) :
    Except Fault σ := do
  let r ← handler s m.1
  m.2.read r

/-- What members make of a state, one after the other. -/
def takeMembers (handler : σ → String → Except Fault (Reader σ)) (s : σ)
    (ms : List (String × Value)) : Except Fault σ :=
  ms.foldlM (takeMember handler) s

theorem takeMembers_cons (s : σ) (m : String × Value) (ms : List (String × Value)) :
    takeMembers handler s (m :: ms) =
      (takeMember handler s m).bind fun t => takeMembers handler t ms := List.foldlM_cons

theorem takeMembers_append (s : σ) (front back : List (String × Value)) :
    takeMembers handler s (front ++ back) =
      (takeMembers handler s front).bind fun t => takeMembers handler t back := List.foldlM_append

/-- The readers that a handler chooses take each value as a whole. -/
def Orderly (handler : σ → String → Except Fault (Reader σ)) : Prop :=
  ∀ s name r, handler s name = .ok r → TakesValues r

/-- Members that are read by orderly readers come to what they make of the state. -/
theorem Orderly.outcome (h : Orderly handler) (s : σ) (ms : List (String × Value)) :
    Outcome handler s (ms.map fun m => (m.1, m.2.lexemes)) (takeMembers handler s ms) := by
  induction ms generalizing s with
  | nil => exact .nil s
  | cons m ms ih =>
      rw [takeMembers_cons, List.map_cons]
      refine .cons (fun rest => ?_) fun t _ => ih t
      cases hr : handler s m.1 with
      | error f =>
          rw [takeMember, hr]
          change (do let r ← handler s m.1; r (m.2.lexemes ++ rest)) = _
          rw [hr]
          rfl
      | ok r =>
          rw [takeMember, hr]
          exact readMember_memberOf hr (h s m.1 r hr m.2) rest

end

/-! ### Records -/

namespace Record

variable {σ : Type} {r : Record σ}

/-- The readers of a record take each value as a whole. -/
structure Orderly (r : Record σ) : Prop where
  members : ∀ m ∈ r.members, ∀ s, TakesValues (m.read s)
  others : ∀ f, r.others = .read f → ∀ name s, TakesValues (f name s)

theorem Orderly.handler (h : r.Orderly) : Json.Orderly r.handler := by
  rintro ⟨seen, s⟩ name q hq
  unfold Record.handler at hq
  cases hfind : r.members.find? (·.name == name) with
  | none =>
      rw [hfind] at hq
      cases hothers : r.others with
      | refused => simp [hothers] at hq
      | skipped =>
          simp only [hothers, Except.ok.injEq] at hq
          subst hq
          exact (reads_skip.map fun _ => (seen, s)).takesValues
      | read f =>
          simp only [hothers, Except.ok.injEq] at hq
          subst hq
          exact ((h.others f hothers name s).map fun t => (seen, t)).takesValues
  | some m =>
      have hm : m ∈ r.members := List.mem_of_find?_eq_some hfind
      rw [hfind] at hq
      dsimp only at hq
      split at hq
      · cases hq
      · cases hq
        exact ((h.members m hm s).map fun t => (name :: seen, t)).takesValues

/-- What a record makes of the members of an object. -/
def take (r : Record σ) (s : σ) (ms : List (String × Value)) : Except Fault σ := do
  let (seen, s) ← takeMembers r.handler ([], s) ms
  barring (r.lack? seen) (.ok s)

theorem take_eq_ok_iff {s t : σ} {ms : List (String × Value)} : r.take s ms = .ok t ↔
    ∃ seen, takeMembers r.handler ([], s) ms = .ok (seen, t) ∧ r.lack? seen = none := by
  rw [take]
  cases takeMembers r.handler ([], s) ms with
  | error f => exact iff_of_false nofun fun ⟨_, h, _⟩ => nomatch h
  | ok u =>
      obtain ⟨seen, u⟩ := u
      change barring (r.lack? seen) (.ok u) = .ok t ↔ _
      cases hlack : r.lack? seen with
      | some f =>
          refine iff_of_false nofun ?_
          rintro ⟨_, ⟨⟩, hnone⟩
          cases hlack.symm.trans hnone
      | none =>
          constructor
          · rintro ⟨⟩
            exact ⟨seen, rfl, hlack⟩
          · rintro ⟨_, ⟨⟩, -⟩
            rfl

/-- A record that is written as an object is read member by member. -/
theorem Orderly.readObject_eq (h : r.Orderly) (s : σ) (ms : List (String × Value))
    (rest : List Lexeme) :
    r.readObject s (objectLexemes ms ++ rest) = (r.take s ms).map (·, rest) := by
  have hobject := (h.handler.outcome ([], s) ms).readObject_eq rest
  rw [objectLexemes, objectOf, List.cons_append, List.append_assoc]
  simp only [readObject, List.singleton_append, hobject, take]
  cases takeMembers r.handler ([], s) ms with
  | error f => rfl
  | ok t =>
      obtain ⟨seen, t⟩ := t
      simp only [bind, Except.bind, Except.map]
      cases r.lack? seen <;> rfl

/-- A member of a record is read once, and another member as the record says. -/
theorem Orderly.takeMember_eq (h : r.Orderly) (seen : List String) (s : σ) (name : String)
    (v : Value) : takeMember r.handler (seen, s) (name, v) =
      match r.members.find? (·.name == name) with
      | some m =>
        if seen.contains name then .error (duplicate name)
        else (v.read (m.read s)).map fun t => (name :: seen, t)
      | none =>
        match r.others with
        | .refused => .error (r.unknown name)
        | .skipped => .ok (seen, s)
        | .read f => (v.read (f name s)).map fun t => (seen, t) := by
  simp only [takeMember, Record.handler]
  cases hfind : r.members.find? (·.name == name) with
  | none =>
      cases hothers : r.others with
      | refused => rfl
      | skipped => exact (reads_skip.map fun _ => (seen, s)).read_eq v
      | read f => exact ((h.others f hothers name s).map fun t => (seen, t)).read_eq v
  | some m =>
      have hm := h.members m (List.mem_of_find?_eq_some hfind) s
      dsimp only
      split
      · rfl
      · exact (hm.map fun t => (name :: seen, t)).read_eq v

end Record

end FederatedAccess.Json
