import FederatedAccess.Proofs.Json.Members
import FederatedAccess.Proofs.Replies
import FederatedAccess.Proofs.Text.Pieces
import FederatedAccess.Proofs.Text.RoundTrip

/-!
# What the absolute expiry tells

The member holds an integer of 64 bits, as a number or as a text with blanks around it, or null. In
a document of its own and in a token document it is read as the same, every other value is refused,
and what is written is read back.
-/

namespace FederatedAccess.ExpiresOn

open Json

/-- An integer has 64 bits. -/
def Fits (n : Int) : Prop := -(Nat.pow 2 63 : Int) ≤ n ∧ n < Nat.pow 2 63

/-- What a value tells of the expiry: null tells nothing, and an integer of 64 bits tells itself,
written as a number or as a text of its digits, perhaps with a sign, zeros and blanks around it. -/
inductive Tells : Value → Option Int → Prop
  | null : Tells .null none
  | number {numeral n} (integer : numeral.integer? = some n) (fits : Fits n) :
      Tells (.number numeral) (some n)
  | text {before core behind n} (hbefore : ∀ c ∈ before, Text.isBlank c = true)
      (hbehind : ∀ c ∈ behind, Text.isBlank c = true) (signed : Decimal.Signed core n)
      (fits : Fits n) : Tells (.text (some (String.ofList (before ++ core ++ behind)))) (some n)

/-! ### Values -/

section

variable {v : Value} {x : Option Int}

theorem trim_signed {before core behind : List Char} {n : Int}
    (hbefore : ∀ c ∈ before, Text.isBlank c = true)
    (hbehind : ∀ c ∈ behind, Text.isBlank c = true) (signed : Decimal.Signed core n) :
    Text.trim (before ++ core ++ behind) = core :=
  Text.trim_append hbefore hbehind signed.ne_nil
    (fun c hc => signed.not_isBlank c (List.mem_of_mem_head? hc))
    (fun c hc => signed.not_isBlank c (List.mem_of_mem_getLast? hc))

/-- A text is read as the integer that it stands for between its blanks. -/
theorem ofText_eq_ok_iff {s : String} : ofText s = .ok x ↔ Tells (.text (some s)) x := by
  constructor
  · intro h
    unfold ofText at h
    split at h
    · rename_i n hread
      obtain rfl := Except.ok.inj h
      obtain ⟨signed, fits⟩ := Decimal.readInt_eq_ok_iff.mp hread
      obtain ⟨before, behind, hs, hbefore, hbehind⟩ := Text.exists_trim s.toList
      rw [← String.ofList_toList (s := s), hs]
      exact .text hbefore hbehind signed fits
    · cases h
  · rintro (_ | _ | ⟨hbefore, hbehind, signed, fits⟩)
    have hread : Decimal.readInt 64 _ = _ := Decimal.readInt_eq_ok_iff.mpr ⟨signed, fits⟩
    rw [ofText, String.toList_ofList, trim_signed hbefore hbehind signed, hread]

/-- What a value tells is seen where it begins. -/
theorem judge_lexemes (v : Value) (rest : List Lexeme) :
    judge (v.lexemes ++ rest) = judge v.lexemes := by
  cases v <;> exact TokenDocument.judge_cons _ _ _

theorem reads_reader :
    Reads reader fun v => barring (v.fault? (some room) 0) (judge v.lexemes) := by
  intro v rest
  change _ = (barring (v.fault? (some room) 0) (judge v.lexemes)).map _
  rw [reader, check_lexemes, judge_lexemes]
  cases v.fault? (some room) 0 <;> rfl

theorem judge_number_eq_ok_iff {k : Number} :
    barring (scalarFault? true (.number k)) (judge [.number k]) = .ok x ↔
      ∃ n, k.int64? = some n ∧ x = some n := by
  cases k with
  | natural n =>
      by_cases hn : n < Nat.pow 2 63 <;>
        simp [barring, scalarFault?, judge, Number.int64?, hn, eq_comm]
  | negative n => simp [barring, scalarFault?, judge, Number.int64?, eq_comm]
  | real below magnitude => simp [barring, scalarFault?, judge, Number.int64?]
  | excessive => simp [barring, scalarFault?, Number.int64?]

/-- The member is read as what its value tells, and refused if that tells nothing of an expiry. -/
theorem read_eq_ok_iff : v.read reader = .ok x ↔ Tells v x := by
  rw [reads_reader.read_eq]
  cases v with
  | null =>
      constructor
      · rintro ⟨⟩
        exact .null
      · rintro ⟨⟩
        rfl
  | boolean b => exact iff_of_false nofun nofun
  | number numeral =>
      refine judge_number_eq_ok_iff.trans ⟨?_, ?_⟩
      · rintro ⟨n, hn, rfl⟩
        obtain ⟨integer, fits⟩ := Numeral.int64?_number.mp hn
        exact .number integer fits
      · rintro (_ | ⟨integer, fits⟩)
        exact ⟨_, Numeral.int64?_number.mpr ⟨integer, fits⟩, rfl⟩
  | text content =>
      cases content with
      | none => exact iff_of_false nofun nofun
      | some s => exact ofText_eq_ok_iff
  | list vs =>
      have hjudge : judge (Value.list vs).lexemes = .error _ := rfl
      rw [hjudge]
      cases (Value.list vs).fault? (some room) 0 <;> exact iff_of_false nofun nofun
  | object ms =>
      have hjudge : judge (Value.object ms).lexemes = .error _ := rfl
      rw [hjudge]
      cases (Value.object ms).fault? (some room) 0 <;> exact iff_of_false nofun nofun

end

/-! ### Documents of their own -/

theorem record_orderly : record.Orderly where
  members m hm _ := by
    obtain rfl := List.mem_singleton.mp hm
    exact reads_reader.takesValues
  others := nofun

/-- No member is called as the absolute expiry is. -/
def Unnamed (ms : List (String × Value)) : Prop := ∀ m ∈ ms, m.1 ≠ "expires_on"

theorem unnamed_nil : Unnamed [] := fun _ h => absurd h List.not_mem_nil

section

variable {ms front back : List (String × Value)} {v : Value}

/-- Members of other names are passed over. -/
theorem takeMembers_of_unnamed (h : Unnamed ms) (t : List String × Option Int) :
    takeMembers record.handler t ms = .ok t := by
  induction ms with
  | nil => rfl
  | cons m ms ih =>
      obtain ⟨hm, hms⟩ := List.forall_mem_cons.mp h
      have hother : record.members.find? (·.name == m.1) = none :=
        List.find?_eq_none.mpr (by simpa [record] using Ne.symm hm)
      have hmember := record_orderly.takeMember_eq t.1 t.2 m.1 m.2
      rw [hother] at hmember
      rw [takeMembers_cons, hmember]
      exact ih hms

theorem take_of_unnamed (h : Unnamed ms) : record.take none ms = .ok none := by
  rw [Record.take, takeMembers_of_unnamed h]
  rfl

/-- The record is read as its only member. -/
theorem take_member (hfront : Unnamed front) (hback : Unnamed back) :
    record.take none (front ++ ("expires_on", v) :: back) = v.read reader := by
  have hmember : takeMember record.handler ([], none) ("expires_on", v) =
      (v.read reader).map fun x => (["expires_on"], x) :=
    record_orderly.takeMember_eq [] none "expires_on" v
  have hmembers : takeMembers record.handler ([], none) (front ++ ("expires_on", v) :: back) =
      (v.read reader).map fun x => (["expires_on"], x) := by
    rw [takeMembers_append, takeMembers_of_unnamed hfront]
    change takeMembers record.handler ([], none) (("expires_on", v) :: back) = _
    rw [takeMembers_cons, hmember]
    cases v.read reader with
    | error f => rfl
    | ok x => exact takeMembers_of_unnamed hback _
  rw [Record.take, hmembers]
  cases v.read reader <;> rfl

/-- A document of its own is read as the members of its object. -/
theorem ofJson_eq_ok_iff {document : String} (h : lex (source document) = objectLexemes ms)
    {x : Option Int} : ofJson document = .ok x ↔ record.take none ms = .ok x := by
  have hread : record.read none (objectLexemes ms) = (record.take none ms).map (·, []) := by
    have hobject := record_orderly.readObject_eq none ms []
    rwa [List.append_nil] at hobject
  rw [ofJson, readAll_eq_ok_iff, h, hread]
  cases record.take none ms <;> simp [Except.map]

end

/-! ### What is written -/

/-- The members of a document of its own. -/
def membersOf (x : Option Int) : List (String × Value) :=
  (x.map fun n => ("expires_on", Value.number (.ofInt n))).toList

theorem lex_source_objectText (ms : List (String × Value)) :
    lex (source (String.ofList (objectText ms))) = objectLexemes ms := by
  rw [source, String.toList_ofList]
  exact lex_objectText ms

theorem toJson_eq (x : Option Int) : toJson x = String.ofList (objectText (membersOf x)) := by
  cases x with
  | none => rfl
  | some n =>
      change String.ofList (writeObject [("expires_on", Decimal.ofInt n)]) =
        String.ofList (writeObject [("expires_on", (Numeral.ofInt n).write)])
      rw [Numeral.write_ofInt]

theorem ofJson_toJson {x : Option Int} (fits : ∀ n, x = some n → Fits n) :
    ofJson (toJson x) = .ok x := by
  rw [toJson_eq, ofJson_eq_ok_iff (lex_source_objectText _)]
  cases x with
  | none => exact take_of_unnamed unnamed_nil
  | some n =>
      have htells : Tells (.number (.ofInt n)) (some n) :=
        .number (Numeral.integer?_ofInt n) (fits n rfl)
      have hmember : record.take none ([] ++ [("expires_on", Value.number (.ofInt n))]) = _ :=
        take_member unnamed_nil unnamed_nil
      exact hmember.trans (read_eq_ok_iff.mpr htells)

end FederatedAccess.ExpiresOn

/-! ### Token documents -/

namespace FederatedAccess.TokenDocument

open Json ExpiresOn

/-- A state in which something else was found of the absolute expiry. -/
def Progress.mark (es : List (Except Fault (Option Int))) (x : Option Int) (p : Progress) :
    Progress := ⟨{ p.document with expiresOn := x }, es⟩

section

variable {p : Progress} {es : List (Except Fault (Option Int))} {x : Option Int}

theorem reads_readOther (name : String) (p : Progress) : Reads (readOther name p) fun v =>
    barring (v.fault? (some room) 0) (.ok (if name = "expires_on" then
      { p with expiries := p.expiries ++ [judge v.lexemes] } else p)) := by
  intro v rest
  change _ = (barring (v.fault? (some room) 0) _).map _
  rw [readOther, check_lexemes, judge_lexemes]
  cases v.fault? (some room) 0 with
  | some f => rfl
  | none =>
      simp only [barring, Option.elim_none, Except.map]
      split <;> rfl

/-- What a member of the record makes of a value, and that it leaves the expiry as it was found. -/
structure Takes (a : Member Progress) : Prop where
  values : ∀ p, TakesValues (a.read p)
  blind : ∀ p es x (v : Value),
    v.read (a.read (p.mark es x)) = (v.read (a.read p)).map (Progress.mark es x)

theorem member_takes {α : Type} {r : Reader α} (hr : TakesValues r) (name : String)
    (optional : Bool) {set : TokenDocument → α → TokenDocument}
    (hset : ∀ d x a, set { d with expiresOn := x } a = { set d a with expiresOn := x }) :
    Takes (member name optional r set) := by
  have hread (p : Progress) : Reads ((member name optional r set).read p) fun v =>
      (v.read r).map fun a => { p with document := set p.document a } :=
    hr.map fun a => ({ p with document := set p.document a } : Progress)
  refine ⟨fun p => (hread p).takesValues, fun p es x v => ?_⟩
  rw [(hread (p.mark es x)).read_eq, (hread p).read_eq]
  cases v.read r with
  | error f => rfl
  | ok a => exact congrArg (fun d => Except.ok (Progress.mk d es)) (hset p.document x a)

theorem takes_of_mem {a : Member Progress} (ha : a ∈ record.members) : Takes a := by
  have hstring : TakesValues (readString "a string") :=
    .of_takes (readString_takes _) ⟨_, rfl⟩ ⟨_, rfl⟩
  have hperhaps : TakesValues (readOption (readString "a string")) :=
    .of_takes (readOption_takes (readString_takes _)) ⟨_, rfl⟩ ⟨_, rfl⟩
  have hnumber : TakesValues (readOption readNat64) :=
    .of_takes (readOption_takes readNat64_takes) ⟨_, rfl⟩ ⟨_, rfl⟩
  simp only [record, List.mem_cons, List.not_mem_nil, or_false] at ha
  rcases ha with rfl | rfl | rfl | rfl | rfl
  · exact member_takes hstring _ _ fun _ _ _ => rfl
  · exact member_takes hstring _ _ fun _ _ _ => rfl
  · exact member_takes hnumber _ _ fun _ _ _ => rfl
  · exact member_takes hperhaps _ _ fun _ _ _ => rfl
  · exact member_takes hperhaps _ _ fun _ _ _ => rfl

theorem record_orderly : record.Orderly where
  members a ha p := (takes_of_mem ha).values p
  others f hf name p := by
    obtain rfl := Others.read.inj hf
    exact (reads_readOther name p).takesValues

end

/-! ### Members beside the expiry -/

section

variable {es : List (Except Fault (Option Int))} {x : Option Int} {v : Value}
  {ms front back : List (String × Value)}

/-- Members of other names leave the expiry as it was found. -/
theorem takeMember_mark (t : List String × Progress) {m : String × Value}
    (h : m.1 ≠ "expires_on") : takeMember record.handler (t.1, t.2.mark es x) m =
      (takeMember record.handler t m).map fun t => (t.1, t.2.mark es x) := by
  have hmember := record_orderly.takeMember_eq t.1 t.2 m.1 m.2
  rw [record_orderly.takeMember_eq t.1 (t.2.mark es x) m.1 m.2, hmember]
  cases hfind : record.members.find? (·.name == m.1) with
  | some a =>
      have htakes := takes_of_mem (List.mem_of_find?_eq_some hfind)
      dsimp only
      split
      · rfl
      · rw [htakes.blind]
        cases m.2.read (a.read t.2) <;> rfl
  | none =>
      change (m.2.read (readOther m.1 (t.2.mark es x))).map _ =
        ((m.2.read (readOther m.1 t.2)).map _).map _
      rw [(reads_readOther _ _).read_eq, (reads_readOther _ _).read_eq, if_neg h, if_neg h]
      cases m.2.fault? (some room) 0 <;> rfl

theorem takeMembers_mark (h : Unnamed ms) (t : List String × Progress) :
    takeMembers record.handler (t.1, t.2.mark es x) ms =
      (takeMembers record.handler t ms).map fun t => (t.1, t.2.mark es x) := by
  induction ms generalizing t with
  | nil => rfl
  | cons m ms ih =>
      obtain ⟨hm, hms⟩ := List.forall_mem_cons.mp h
      rw [takeMembers_cons, takeMembers_cons, takeMember_mark t hm]
      cases takeMember record.handler t m with
      | error f => rfl
      | ok u => exact ih hms u

/-- Nothing is found of an expiry that no member is called for. -/
theorem eq_mark_of_unnamed (h : Unnamed ms) {u : List String × Progress}
    (hu : takeMembers record.handler ([], {}) ms = .ok u) : u.2 = u.2.mark [] none := by
  have hmark : takeMembers record.handler ([], {}) ms =
      (takeMembers record.handler ([], {}) ms).map fun t => (t.1, t.2.mark [] none) :=
    takeMembers_mark h ([], {})
  rw [hu] at hmark
  exact congrArg Prod.snd (Except.ok.inj hmark)

/-- The member of the expiry is set aside, and the others are read as without it. -/
theorem takeMembers_eq_ok_iff (hfront : Unnamed front) (hback : Unnamed back)
    {u : List String × Progress} :
    takeMembers record.handler ([], {}) (front ++ ("expires_on", v) :: back) = .ok u ↔
      v.fault? (some room) 0 = none ∧
      ∃ t, takeMembers record.handler ([], {}) (front ++ back) = .ok t ∧
        u = (t.1, t.2.mark [judge v.lexemes] none) := by
  rw [takeMembers_append, takeMembers_append]
  cases hread : takeMembers record.handler ([], {}) front with
  | error f =>
      refine iff_of_false nofun ?_
      rintro ⟨-, t, ht, -⟩
      cases ht
  | ok t =>
      have hmark := eq_mark_of_unnamed hfront hread
      have hmember : takeMember record.handler t ("expires_on", v) =
          barring (v.fault? (some room) 0) (.ok (t.1, t.2.mark [judge v.lexemes] none)) := by
        have hother : takeMember record.handler t ("expires_on", v) =
            (v.read (readOther "expires_on" t.2)).map fun p => (t.1, p) :=
          record_orderly.takeMember_eq t.1 t.2 "expires_on" v
        rw [hother, (reads_readOther _ _).read_eq, if_pos rfl, hmark]
        cases v.fault? (some room) 0 <;> rfl
      change takeMembers record.handler t (("expires_on", v) :: back) = _ ↔ _
      rw [takeMembers_cons, hmember]
      cases v.fault? (some room) 0 with
      | some f =>
          refine iff_of_false nofun ?_
          rintro ⟨hf, -⟩
          cases hf
      | none =>
          change takeMembers record.handler (t.1, t.2.mark [judge v.lexemes] none) back = _ ↔
            none = none ∧ ∃ u', takeMembers record.handler t back = _ ∧ _
          rw [takeMembers_mark hback]
          cases takeMembers record.handler t back <;> simp [Except.map, eq_comm]

/-! ### Whole documents -/

/-- What a document says whose object has the given members. -/
def ofMembers (ms : List (String × Value)) : Except Fault TokenDocument :=
  (record.take {} ms).bind Progress.finish

/-- A body is read as the members of the object that it begins with. -/
theorem readBody_eq {body : List UInt8} {rest : List Lexeme}
    (h : lex (Utf8.decode body) = objectLexemes ms ++ rest) :
    Response.readBody reader body = ofMembers ms := by
  rw [Response.readBody, readFirst, h, reader, record_orderly.readObject_eq, ofMembers]
  cases record.take {} ms with
  | error f => rfl
  | ok p =>
      change (p.finish.map fun d => (d, rest)).map _ = p.finish
      cases p.finish <;> rfl

theorem ofMembers_eq_ok_iff {d : TokenDocument} : ofMembers ms = .ok d ↔
    ∃ seen p, takeMembers record.handler ([], {}) ms = .ok (seen, p) ∧ record.lack? seen = none ∧
      p.finish = .ok d := by
  rw [ofMembers]
  cases htake : record.take {} ms with
  | error f =>
      refine iff_of_false nofun ?_
      rintro ⟨seen, p, hp, hlack, -⟩
      cases htake.symm.trans (Record.take_eq_ok_iff.mpr ⟨seen, hp, hlack⟩)
  | ok p =>
      obtain ⟨seen, hp, hlack⟩ := Record.take_eq_ok_iff.mp htake
      constructor
      · intro hd
        exact ⟨seen, p, hp, hlack, hd⟩
      · rintro ⟨_, _, hp', -, hd⟩
        cases hp.symm.trans hp'
        exact hd

/-- Without a member for it, no expiry is told, and the other members are the document. -/
theorem finish_of_unnamed (h : Unnamed ms) {u : List String × Progress}
    (hu : takeMembers record.handler ([], {}) ms = .ok u) :
    u.2.finish = .ok u.2.document ∧ u.2.document.expiresOn = none := by
  rw [eq_mark_of_unnamed h hu]
  exact ⟨rfl, rfl⟩

theorem expiresOn_of_unnamed (h : Unnamed ms) {d : TokenDocument} (hd : ofMembers ms = .ok d) :
    d.expiresOn = none := by
  obtain ⟨seen, p, hp, -, hfinish⟩ := ofMembers_eq_ok_iff.mp hd
  obtain ⟨hdocument, hnone⟩ := finish_of_unnamed h hp
  cases hdocument.symm.trans hfinish
  exact hnone

/-- A document with a member for the expiry is the document without it and what the member tells. -/
theorem ofMembers_named_iff (hfront : Unnamed front) (hback : Unnamed back) {d' : TokenDocument} :
    ofMembers (front ++ ("expires_on", v) :: back) = .ok d' ↔
      ∃ d x, ofMembers (front ++ back) = .ok d ∧ Tells v x ∧ d' = { d with expiresOn := x } := by
  have hothers : Unnamed (front ++ back) := List.forall_mem_append.mpr ⟨hfront, hback⟩
  have hread (x : Option Int) (sound : v.fault? (some room) 0 = none) :
      judge v.lexemes = .ok x ↔ Tells v x := by
    rw [← read_eq_ok_iff, reads_reader.read_eq, sound]
    rfl
  constructor
  · intro hd'
    obtain ⟨seen, p, hp, hlack, hfinish⟩ := ofMembers_eq_ok_iff.mp hd'
    obtain ⟨sound, ⟨read, q⟩, hq, ⟨⟩⟩ := (takeMembers_eq_ok_iff hfront hback).mp hp
    obtain ⟨hdocument, -⟩ := finish_of_unnamed hothers hq
    cases hjudge : judge v.lexemes with
    | error f =>
        rw [hjudge] at hfinish
        cases hfinish
    | ok x =>
        rw [hjudge] at hfinish
        exact ⟨q.document, x, ofMembers_eq_ok_iff.mpr ⟨read, q, hq, hlack, hdocument⟩,
          (hread x sound).mp hjudge, (Except.ok.inj hfinish).symm⟩
  · rintro ⟨d, x, hd, htells, rfl⟩
    obtain ⟨seen, q, hq, hlack, hfinish⟩ := ofMembers_eq_ok_iff.mp hd
    obtain ⟨hdocument, -⟩ := finish_of_unnamed hothers hq
    cases hdocument.symm.trans hfinish
    have sound : v.fault? (some room) 0 = none := by
      have hok := read_eq_ok_iff.mpr htells
      rw [reads_reader.read_eq] at hok
      cases hfault : v.fault? (some room) 0 with
      | none => rfl
      | some f =>
          rw [hfault] at hok
          cases hok
    refine ofMembers_eq_ok_iff.mpr ⟨seen, _,
      (takeMembers_eq_ok_iff hfront hback).mpr ⟨sound, _, hq, rfl⟩, hlack, ?_⟩
    rw [(hread x sound).mpr htells]
    rfl

end

/-- A directory tells the absolute expiry as one of the members of an object, and each object has a
document. In a document of its own, the expiry is read exactly as what the member tells, and as none
without the member. A token document is read with the member exactly as it is read without it, but
for the expiry, which is what the member tells. An integer that is written plainly tells itself, and
what is written is read back. -/
theorem absolute_expiry_told :
    (∀ ms, lex (source (String.ofList (objectText ms))) = objectLexemes ms) ∧
    (∀ front v back, Unnamed front → Unnamed back →
      (∀ document, lex (source document) = objectLexemes (front ++ ("expires_on", v) :: back) →
        ∀ x, ofJson document = .ok x ↔ Tells v x) ∧
      ∀ body plain rest rest',
        lex (Utf8.decode body) = objectLexemes (front ++ ("expires_on", v) :: back) ++ rest →
        lex (Utf8.decode plain) = objectLexemes (front ++ back) ++ rest' →
        ∀ d', Response.readBody reader body = .ok d' ↔
          ∃ d x, Response.readBody reader plain = .ok d ∧ Tells v x ∧
            d' = { d with expiresOn := x }) ∧
    (∀ ms, Unnamed ms →
      (∀ document, lex (source document) = objectLexemes ms → ofJson document = .ok none) ∧
      ∀ body rest d, lex (Utf8.decode body) = objectLexemes ms ++ rest →
        Response.readBody reader body = .ok d → d.expiresOn = none) ∧
    (∀ n, Fits n →
      (Numeral.ofInt n).write = Decimal.ofInt n ∧ Tells (.number (.ofInt n)) (some n)) ∧
    ∀ x, (∀ n, x = some n → Fits n) → ofJson (toJson x) = .ok x := by
  refine ⟨lex_source_objectText, fun front v back hfront hback => ⟨?own, ?flattened⟩,
    fun ms h => ⟨?ownAbsent, ?flattenedAbsent⟩,
    fun n fits => ⟨Numeral.write_ofInt n, .number (Numeral.integer?_ofInt n) fits⟩,
    fun x => ofJson_toJson⟩
  case own =>
    intro document hdocument x
    rw [ofJson_eq_ok_iff hdocument, take_member hfront hback]
    exact read_eq_ok_iff
  case flattened =>
    intro body plain rest rest' hbody hplain d'
    rw [readBody_eq hbody, readBody_eq hplain]
    exact ofMembers_named_iff hfront hback
  case ownAbsent =>
    intro document hdocument
    exact (ofJson_eq_ok_iff hdocument).mpr (take_of_unnamed h)
  case flattenedAbsent =>
    intro body rest d hbody hd
    rw [readBody_eq hbody] at hd
    exact expiresOn_of_unnamed h hd

/-- An expiry with a sign, zeros and blanks around it is read the same in both documents. -/
theorem spaced_expiry_told :
    ofJson "\x7b\"expires_on\":\" +0042 \"\x7d" = .ok (some 42) ∧
    Response.readBody reader (Utf8.bytes
      "\x7b\"access_token\":\"at\",\"token_type\":\"Bearer\",\"expires_on\":\" +0042 \"\x7d") =
        .ok { accessToken := "at", tokenType := "bearer", expiresOn := some 42 } := by
  obtain ⟨hlex, hnamed, -⟩ := absolute_expiry_told
  have hbytes {s : String} {ms : List (String × Value)} (hs : s = String.ofList (objectText ms)) :
      lex (Utf8.decode (Utf8.bytes s)) = objectLexemes ms ++ [] := by
    rw [Utf8.bytes, Utf8.decode_encode, List.append_nil, ← hlex, ← hs, source]
  have htells : Tells (.text (some " +0042 ")) (some 42) := by
    have signed : Decimal.Signed ['+', '0', '0', '4', '2'] (Decimal.value ['0', '0', '4', '2']) :=
      .plus (by decide) (List.all_eq_true.mp (by decide))
    have hbefore : ∀ c ∈ [' '], Text.isBlank c = true := List.all_eq_true.mp (by decide)
    exact .text hbefore hbefore signed ⟨by decide, by decide⟩
  constructor
  · refine ((hnamed [] (.text (some " +0042 ")) [] unnamed_nil unnamed_nil).1 _ ?_ _).mpr htells
    rw [← hlex]
    exact congrArg (fun s => lex (source s)) (by decide +kernel)
  · refine ((hnamed [("access_token", .text (some "at")), ("token_type", .text (some "Bearer"))]
      (.text (some " +0042 ")) [] (by simp [Unnamed]) unnamed_nil).2 _
      (Utf8.bytes "\x7b\"access_token\":\"at\",\"token_type\":\"Bearer\"\x7d") [] []
      (hbytes (by decide +kernel)) (hbytes (by decide +kernel)) _).mpr
      ⟨{ accessToken := "at", tokenType := "bearer" }, _, ?_, htells, rfl⟩
    decide +kernel

end FederatedAccess.TokenDocument
