import FederatedAccess.Json.Record
import Mathlib.Control.Monad.Basic

/-!
# Documents that differ in a text

Two documents are alike when their lexemes are the same, except that where a text follows the name
of a token it may be another text. Reading alike documents meets the same faults and leaves alike
rests, and only what takes the text of a token sees a difference.
-/

namespace FederatedAccess.Json

/-! ### Passing over values -/

/-- What passing over a value does at a lexeme, whatever follows: it fails, ends, or goes on. -/
inductive Passes (room : Option Nat) (stack : List Bool) (awaited : Awaited) (l : Lexeme) : Prop
  | fails (f : Fault) (h : ∀ rest, pass room stack awaited (l :: rest) = .error f)
  | ends (h : ∀ rest, pass room stack awaited (l :: rest) = .ok rest)
  | goes (stack' : List Bool) (awaited' : Awaited)
      (h : ∀ rest, pass room stack awaited (l :: rest) = pass room stack' awaited' rest)

variable {room : Option Nat} {stack outer : List Bool} {awaited : Awaited} {l : Lexeme}

theorem Passes.of_full {stack' : List Bool} {awaited' : Awaited} (full : Bool)
    (h : ∀ rest, pass room stack awaited (l :: rest) =
      if full then .error .malformed else pass room stack' awaited' rest) :
    Passes room stack awaited l := by
  cases full with
  | true => exact .fails .malformed h
  | false => exact .goes stack' awaited' h

theorem Passes.of_last (last : Prop) [Decidable last]
    (h : ∀ rest, pass room stack awaited (l :: rest) =
      if last then .ok rest else pass room outer .more rest) :
    Passes room stack awaited l := by
  by_cases hlast : last
  · exact .ends fun rest => (h rest).trans (if_pos hlast)
  · exact .goes outer .more fun rest => (h rest).trans (if_neg hlast)

theorem Passes.of_scalar (next : List Lexeme → Except Fault (List Lexeme))
    (h : ∀ rest, pass room stack awaited (l :: rest) =
      match scalarFault? room.isSome l with
      | some f => .error f
      | none => next rest)
    (goes : (∀ rest, pass room stack awaited (l :: rest) = next rest) →
      Passes room stack awaited l) : Passes room stack awaited l := by
  cases hf : scalarFault? room.isSome l with
  | some f => exact .fails f fun rest => (h rest).trans (by rw [hf])
  | none => exact goes fun rest => (h rest).trans (by rw [hf])

theorem passes_value (l : Lexeme) : Passes room stack .value l := by
  cases l with
  | openBracket => exact .of_full (room.any (· ≤ stack.length)) fun _ => rfl
  | openBrace => exact .of_full (room.any (· ≤ stack.length)) fun _ => rfl
  | _ =>
      exact .of_scalar
        (fun rest => if stack.isEmpty = true then .ok rest else pass room stack .more rest)
        (fun _ => rfl) fun h => .of_last (stack.isEmpty = true) h

theorem passes_firstElement (l : Lexeme) : Passes room stack .firstElement l := by
  cases l with
  | openBracket => exact .of_full (room.any (· ≤ stack.length)) fun _ => rfl
  | openBrace => exact .of_full (room.any (· ≤ stack.length)) fun _ => rfl
  | closeBracket => exact .of_last (stack.length ≤ 1) fun _ => rfl
  | _ => exact .of_scalar (pass room stack .more) (fun _ => rfl) fun h => .goes stack .more h

theorem passes_key (l : Lexeme) : Passes room stack .key l := by
  cases l with
  | text content =>
      exact .of_scalar (pass room stack .colon) (fun _ => rfl) fun h => .goes stack .colon h
  | _ => exact .fails _ fun _ => rfl

theorem passes_firstKey (l : Lexeme) : Passes room stack .firstKey l := by
  cases l with
  | closeBrace => exact .of_last (stack.length ≤ 1) fun _ => rfl
  | text content =>
      exact .of_scalar (pass room stack .colon) (fun _ => rfl) fun h => .goes stack .colon h
  | _ => exact .fails _ fun _ => rfl

theorem passes_more (l : Lexeme) : Passes room stack .more l := by
  rcases stack with _ | ⟨_ | _, outer⟩
  · cases l <;> exact .fails .malformed fun _ => rfl
  · cases l with
    | comma => exact .goes _ .value fun _ => rfl
    | closeBracket => exact .of_last (outer.isEmpty = true) fun _ => rfl
    | _ => exact .fails .malformed fun _ => rfl
  · cases l with
    | comma => exact .goes _ .key fun _ => rfl
    | closeBrace => exact .of_last (outer.isEmpty = true) fun _ => rfl
    | _ => exact .fails .malformed fun _ => rfl

/-- Values are passed over one lexeme after the other. -/
theorem passes (awaited : Awaited) (l : Lexeme) : Passes room stack awaited l := by
  cases awaited with
  | value => exact passes_value l
  | firstElement => exact passes_firstElement l
  | firstKey => exact passes_firstKey l
  | key => exact passes_key l
  | colon =>
      cases l with
      | colon => exact .goes stack .value fun _ => rfl
      | _ => exact .fails .malformed fun _ => rfl
  | more => exact passes_more l

/-! ### Alike documents -/

/-- The name of the member that holds the text of a token. -/
def tokenName : String := "access_token"

/-- Where a lexeme stands: behind the name of the text of a token, where that text is awaited, or
anywhere else. -/
inductive Place
  | elsewhere
  | named
  | awaited

/-- Where the lexeme behind a lexeme stands. -/
def Place.next (p : Place) : Lexeme → Place
  | .text (.ok s) => if s = tokenName then .named else .elsewhere
  | .colon =>
    match p with
    | .named => .awaited
    | _ => .elsewhere
  | _ => .elsewhere

/-- Where the value of a member stands. -/
def Place.ofName (name : String) : Place := if name = tokenName then .awaited else .elsewhere

/-- Lexemes that are the same but for the texts of tokens, none of which is empty. -/
inductive Alike : Place → List Lexeme → List Lexeme → Prop
  | nil (p) : Alike p [] []
  | cons {p} (l) {ls ls'} (rest : Alike (p.next l) ls ls') : Alike p (l :: ls) (l :: ls')
  | token {s s' ls ls'} (hs : s ≠ "") (hs' : s' ≠ "") (rest : Alike .elsewhere ls ls') :
      Alike .awaited (.text (.ok s) :: ls) (.text (.ok s') :: ls')

deriving instance DecidableEq for Lexeme

/-- Whether two lexemes are texts of tokens where one is awaited. -/
def Place.allows : Place → Lexeme → Lexeme → Bool
  | .awaited, .text (.ok s), .text (.ok s') => s != "" && s' != ""
  | _, _, _ => false

theorem alike_cons_iff {p : Place} {l l' : Lexeme} {ls ls' : List Lexeme} :
    Alike p (l :: ls) (l' :: ls') ↔
      (l = l' ∧ Alike (p.next l) ls ls') ∨ (p.allows l l' = true ∧ Alike .elsewhere ls ls') := by
  constructor
  · intro h
    cases h with
    | cons l rest => exact .inl ⟨rfl, rest⟩
    | token hs hs' rest => exact .inr ⟨by simp [Place.allows, hs, hs'], rest⟩
  · rintro (⟨rfl, rest⟩ | ⟨allowed, rest⟩)
    · exact .cons l rest
    · unfold Place.allows at allowed
      split at allowed
      · rw [Bool.and_eq_true, bne_iff_ne, bne_iff_ne] at allowed
        exact .token allowed.1 allowed.2 rest
      · cases allowed

instance Alike.decidable : (p : Place) → (ls ls' : List Lexeme) → Decidable (Alike p ls ls')
  | p, [], [] => isTrue (.nil p)
  | _, [], _ :: _ => isFalse nofun
  | _, _ :: _, [] => isFalse nofun
  | p, l :: ls, _ :: ls' =>
    have := Alike.decidable (p.next l) ls ls'
    have := Alike.decidable .elsewhere ls ls'
    decidable_of_iff _ alike_cons_iff.symm

/-- What two readers come to: the same fault, or related values and alike rests. -/
inductive Agree {α : Type} (R : α → α → Prop) :
    Except Fault (α × List Lexeme) → Except Fault (α × List Lexeme) → Prop
  | ok {a a' p ls ls'} (values : R a a') (rests : Alike p ls ls') :
      Agree R (.ok (a, ls)) (.ok (a', ls'))
  | error (f) : Agree R (.error f) (.error f)

/-- Two readers agree on alike documents. -/
def Agrees {α : Type} (R : α → α → Prop) (p : Place) (r r' : Reader α) : Prop :=
  ∀ ⦃ls ls'⦄, Alike p ls ls' → Agree R (r ls) (r' ls')

variable {α β σ : Type} {p : Place} {ls ls' : List Lexeme}

theorem Alike.length_eq (h : Alike p ls ls') : ls.length = ls'.length := by
  induction h with
  | nil => rfl
  | cons l rest ih => exact congrArg Nat.succ ih
  | token hs hs' rest ih => exact congrArg Nat.succ ih

theorem Agree.map {R : α → α → Prop} {S : β → β → Prop} {x x' : Except Fault (α × List Lexeme)}
    (h : Agree R x x') {f g : α → β} (hfg : ∀ a a', R a a' → S (f a) (g a')) :
    Agree S (x.map fun v => (f v.1, v.2)) (x'.map fun v => (g v.1, v.2)) := by
  cases h with
  | ok values rests => exact .ok (hfg _ _ values) rests
  | error f => exact .error f

/-- Passing over sees no difference between texts. -/
theorem pass_text (room : Option Nat) (stack : List Bool) (awaited : Awaited) (s s' : String)
    (rest : List Lexeme) : pass room stack awaited (.text (.ok s) :: rest) =
      pass room stack awaited (.text (.ok s') :: rest) := by
  cases awaited with
  | more => rcases stack with _ | ⟨_ | _, outer⟩ <;> rfl
  | _ => rfl

theorem pass_agrees_cons {room : Option Nat} (rest : Alike p ls ls')
    (ih : ∀ stack awaited, Agree Eq ((pass room stack awaited ls).map ((), ·))
      ((pass room stack awaited ls').map ((), ·)))
    (stack : List Bool) (awaited : Awaited) (l : Lexeme) :
    Agree Eq ((pass room stack awaited (l :: ls)).map ((), ·))
      ((pass room stack awaited (l :: ls')).map ((), ·)) := by
  cases passes awaited l with
  | fails f h =>
      rw [h, h]
      exact .error f
  | ends h =>
      rw [h, h]
      exact .ok rfl rest
  | goes stack' awaited' h =>
      rw [h, h]
      exact ih stack' awaited'

theorem pass_agrees (room : Option Nat) (stack : List Bool) (awaited : Awaited)
    (h : Alike p ls ls') : Agree Eq ((pass room stack awaited ls).map ((), ·))
      ((pass room stack awaited ls').map ((), ·)) := by
  -- the induction is on the documents: a lexeme does the same to the containers on both sides
  induction h generalizing stack awaited with
  | nil => cases awaited <;> exact .error .truncated
  | cons l rest ih => exact pass_agrees_cons rest ih stack awaited l
  | @token s s' ls ls' hs hs' rest ih =>
      rw [pass_text room stack awaited s' s]
      exact pass_agrees_cons rest ih stack awaited (.text (.ok s))

theorem skip_agrees : Agrees Eq p skip skip := fun _ _ h => pass_agrees none [] .value h

theorem check_agrees (room : Nat) : Agrees Eq p (check room) (check room) :=
  fun _ _ h => pass_agrees (some room) [] .value h

/-! ### Readers of values -/

/-- The fault of a value that is not what was expected depends on where it begins only. -/
theorem mismatch_cons (expected : String) (l : Lexeme) (ls ls' : List Lexeme) :
    mismatch expected (l :: ls) = mismatch expected (l :: ls') := by
  cases l <;> rfl

/-- What a reader of one lexeme does at it, whatever follows: it fails, or takes it. -/
inductive Takes (r : Reader α) (l : Lexeme) : Prop
  | fails (f : Fault) (h : ∀ rest, r (l :: rest) = .error f)
  | takes (a : α) (h : ∀ rest, r (l :: rest) = .ok (a, rest))

theorem agrees_of_takes {r : Reader α} (h : ∀ l, Takes r l) (hnil : ∃ f, r [] = .error f) :
    Agrees Eq .elsewhere r r := by
  intro ls ls' alike
  cases alike with
  | nil =>
      obtain ⟨f, hf⟩ := hnil
      rw [hf]
      exact .error f
  | cons l rest =>
      cases h l with
      | fails f h =>
          rw [h, h]
          exact .error f
      | takes a h =>
          rw [h, h]
          exact .ok rfl rest

theorem Takes.of_mismatch {r : Reader α} {l : Lexeme} {expected : String}
    (h : ∀ rest, r (l :: rest) = .error (mismatch expected (l :: rest))) : Takes r l := by
  apply Takes.fails (mismatch expected [l])
  intro rest
  rw [h, mismatch_cons]

theorem readString_takes (expected : String) (l : Lexeme) : Takes (readString expected) l := by
  cases l with
  | text content =>
      cases content with
      | ok s => exact .takes s fun _ => rfl
      | error f => exact .of_mismatch fun _ => rfl
  | _ => exact .of_mismatch fun _ => rfl

theorem readOption_takes {r : Reader α} (h : ∀ l, Takes r l) (l : Lexeme) :
    Takes (readOption r) l := by
  have other (hl : ∀ rest,
      readOption r (l :: rest) = (r (l :: rest)).map fun p => (some p.1, p.2)) :
      Takes (readOption r) l := by
    cases h l with
    | fails f h => exact .fails f fun rest => by rw [hl, h]; rfl
    | takes a h => exact .takes (some a) fun rest => by rw [hl, h]; rfl
  cases l with
  | null => exact .takes none fun _ => rfl
  | _ => exact other fun _ => rfl

/-- The text of a token may be another one. -/
theorem readString_agrees (expected : String) :
    Agrees (fun s s' => s = "" ↔ s' = "") .awaited (readString expected) (readString expected) := by
  intro ls ls' h
  cases h with
  | nil => exact .error _
  | cons l rest =>
      cases readString_takes expected l with
      | fails f h =>
          rw [h, h]
          exact .error f
      | takes a h =>
          rw [h, h]
          exact .ok Iff.rfl rest
  | token hs hs' rest => exact .ok (by simp [hs, hs']) rest

/-! ### Readers of members -/

/-- What two handlers choose for a member: to refuse it, or readers that agree on its value. -/
inductive Chosen (R : σ → σ → Prop) (p : Place) :
    Except Fault (Reader σ) → Except Fault (Reader σ) → Prop
  | refused (f) : Chosen R p (.error f) (.error f)
  | reads {r r'} (h : Agrees R p r r') : Chosen R p (.ok r) (.ok r')

/-- A handler treats related states alike. -/
def Handles (R : σ → σ → Prop) (handler : σ → String → Except Fault (Reader σ)) : Prop :=
  ∀ s s' name, R s s' → Chosen R (.ofName name) (handler s name) (handler s' name)

variable {R : σ → σ → Prop} {handler : σ → String → Except Fault (Reader σ)} {s s' : σ}

theorem next_text (name : String) :
    p.next (.text (.ok name)) = if name = tokenName then .named else .elsewhere := rfl

theorem next_text_colon (name : String) :
    (p.next (.text (.ok name))).next .colon = .ofName name := by
  rw [next_text, Place.ofName]
  split <;> rfl

/-- Nothing but a text can differ, and no text differs behind a name. -/
theorem readColon_agrees {name : String} (alike : Alike (p.next (.text (.ok name))) ls ls') :
    (∃ f, readColon ls = .error f ∧ readColon ls' = .error f) ∨
      ∃ rest rest', readColon ls = .ok rest ∧ readColon ls' = .ok rest' ∧
        Alike (.ofName name) rest rest' := by
  rw [← next_text_colon (p := p)]
  have behind : p.next (.text (.ok name)) ≠ .awaited := by
    rw [next_text]
    split <;> exact nofun
  generalize p.next (.text (.ok name)) = q at alike behind
  cases alike with
  | nil => exact .inl ⟨.truncated, rfl, rfl⟩
  | cons l rest =>
      cases l with
      | colon => exact .inr ⟨_, _, rfl, rfl, rest⟩
      | _ => exact .inl ⟨.malformed, rfl, rfl⟩
  | token => exact absurd rfl behind

theorem readMember_agrees (h : Handles R handler) (hs : R s s') :
    Agrees R .elsewhere (readMember handler s) (readMember handler s') := by
  intro ls ls' alike
  cases alike with
  | nil => exact .error _
  | @cons _ l ls ls' rest =>
      rcases l with _ | _ | _ | _ | _ | _ | _ | _ | _ | (f | name) | _ | _
      case text.ok =>
        have chosen := h s s' name hs
        simp only [readMember]
        generalize handler s name = x, handler s' name = x' at chosen ⊢
        cases chosen with
        | refused f => exact .error f
        | reads agrees =>
            rcases readColon_agrees rest with ⟨f, hf, hf'⟩ | ⟨value, value', hv, hv', alike⟩
            · simp only [bind, Except.bind, hf, hf']
              exact .error f
            · simp only [bind, Except.bind, hv, hv']
              exact agrees alike
      all_goals exact .error _

theorem readMembers_agrees (h : Handles R handler) (n : Nat) (hs : R s s') :
    Agrees R p (readMembers handler n s) (readMembers handler n s') := by
  induction n generalizing s s' p with
  | zero =>
      intro ls ls' _
      exact .error .truncated
  | succ n ih =>
      intro ls ls' alike
      cases alike with
      | nil => exact .error .truncated
      | cons l rest =>
          cases l with
          | closeBrace => exact .ok hs rest
          | comma =>
              have first := readMember_agrees h hs rest
              simp only [readMembers]
              generalize readMember handler s _ = x, readMember handler s' _ = x' at first ⊢
              cases first with
              | ok hs rest => exact ih hs rest
              | error f => exact .error f
          | _ => exact .error .malformed
      | token => exact .error .malformed

theorem readObject_agrees (h : Handles R handler) (hs : R s s') :
    Agrees R .elsewhere (readObject handler s) (readObject handler s') := by
  intro ls ls' alike
  have first := readMember_agrees h hs alike
  have length := alike.length_eq
  cases alike with
  | nil => exact .error .truncated
  | cons l rest =>
      cases l with
      | closeBrace => exact .ok hs rest
      | _ =>
          simp only [readObject, length]
          generalize readMember handler s _ = x, readMember handler s' _ = x' at first ⊢
          cases first with
          | ok hs rest => exact readMembers_agrees h _ hs rest
          | error f => exact .error f

/-! ### Records -/

namespace Record

/-- A record treats related states alike: its members do, and so does what it does with others. -/
structure Treats (R : σ → σ → Prop) (r : Record σ) : Prop where
  members : ∀ m ∈ r.members, ∀ s s', R s s' → Agrees R (.ofName m.name) (m.read s) (m.read s')
  others : ∀ f, r.others = .read f → ∀ name, (∀ m ∈ r.members, m.name ≠ name) → ∀ s s', R s s' →
    Agrees R (.ofName name) (f name s) (f name s')

/-- The same members were read, and the states are related. -/
def Along (R : σ → σ → Prop) (t t' : List String × σ) : Prop := t.1 = t'.1 ∧ R t.2 t'.2

variable {r : Record σ}

theorem Treats.handles (h : r.Treats R) : Handles (Along R) r.handler := by
  rintro ⟨seen, s⟩ ⟨_, s'⟩ name ⟨rfl, hs⟩
  unfold handler
  cases hfind : r.members.find? (·.name == name) with
  | none =>
      have other (m : Member σ) (hm : m ∈ r.members) : m.name ≠ name := by
        simpa using List.find?_eq_none.mp hfind m hm
      dsimp only
      cases hothers : r.others with
      | refused => exact .refused _
      | skipped =>
          exact .reads fun _ _ alike =>
            (skip_agrees alike).map (f := fun _ => (seen, s)) (g := fun _ => (seen, s'))
              fun _ _ _ => ⟨rfl, hs⟩
      | read f =>
          exact .reads fun _ _ alike =>
            (h.others f hothers name other s s' hs alike).map fun _ _ ha => ⟨rfl, ha⟩
  | some m =>
      have hm : m ∈ r.members := List.mem_of_find?_eq_some hfind
      obtain rfl : m.name = name := by simpa using List.find?_some hfind
      dsimp only
      split
      · exact .refused _
      · exact .reads fun _ _ alike =>
          (h.members m hm s s' hs alike).map fun _ _ ha => ⟨rfl, ha⟩

theorem Treats.readObject (h : r.Treats R) (hs : R s s') :
    Agrees R .elsewhere (r.readObject s) (r.readObject s') := by
  intro ls ls' alike
  cases alike with
  | nil => exact .error _
  | @cons _ l ls ls' rest =>
      have other (hl : ∀ s ls, r.readObject s (l :: ls) = .error (mismatch r.title (l :: ls))) :
          Agree R (r.readObject s (l :: ls)) (r.readObject s' (l :: ls')) := by
        rw [hl, hl, mismatch_cons]
        exact .error _
      cases l with
      | openBrace =>
          have start : Along R ([], s) ([], s') := ⟨rfl, hs⟩
          have hobject := readObject_agrees h.handles start rest
          simp only [Record.readObject]
          generalize Json.readObject r.handler ([], s) _ = x,
            Json.readObject r.handler ([], s') _ = x' at hobject ⊢
          cases hobject with
          | error f => exact .error f
          | @ok t t' p ls ls' values rests =>
              obtain ⟨seen, t⟩ := t
              obtain ⟨_, t'⟩ := t'
              obtain ⟨rfl, ht⟩ := values
              simp only [bind, Except.bind]
              cases r.lack? seen with
              | none => exact .ok ht rests
              | some f => exact .error f
      | _ => exact other fun _ _ => rfl

/-- Alike lists hold alike elements, none of which is the text of a token. -/
theorem nextElement_agrees (first : Bool) (hp : first = true → p = .elsewhere)
    (alike : Alike p ls ls') :
    (∃ f, nextElement first ls = .error f ∧ nextElement first ls' = .error f) ∨
      (nextElement first ls = .ok none ∧ nextElement first ls' = .ok none) ∨
      ∃ rest rest', nextElement first ls = .ok (some rest) ∧
        nextElement first ls' = .ok (some rest') ∧ Alike .elsewhere rest rest' := by
  cases first with
  | true =>
      obtain rfl := hp rfl
      cases alike with
      | nil => exact .inl ⟨_, rfl, rfl⟩
      | cons l rest =>
          cases l with
          | closeBracket => exact .inr (.inl ⟨rfl, rfl⟩)
          | _ => exact .inr (.inr ⟨_, _, rfl, rfl, .cons _ rest⟩)
  | false =>
      cases alike with
      | nil => exact .inl ⟨_, rfl, rfl⟩
      | cons l rest =>
          cases l with
          | closeBracket => exact .inr (.inl ⟨rfl, rfl⟩)
          | comma =>
              have behind : Alike .elsewhere _ _ := rest
              cases behind with
              | nil => exact .inl ⟨_, rfl, rfl⟩
              | cons l _ =>
                  cases l with
                  | closeBracket => exact .inl ⟨_, rfl, rfl⟩
                  | _ => exact .inr (.inr ⟨_, _, rfl, rfl, rest⟩)
          | _ => exact .inl ⟨_, rfl, rfl⟩
      | token => exact .inl ⟨_, rfl, rfl⟩

theorem readValues_agrees {ms : List (Member σ)}
    (h : ∀ m ∈ ms, ∀ s s', R s s' → Agrees R .elsewhere (m.read s) (m.read s')) (title : String)
    (i : Nat) (hp : i = 0 → p = .elsewhere) (hs : R s s') :
    Agrees R p (readValues title i ms s) (readValues title i ms s') := by
  induction ms generalizing i p s s' with
  | nil => exact fun _ _ alike => .ok hs alike
  | cons m rest ih =>
      intro ls ls' alike
      have later {q : Place} {t t' : σ} (ht : R t t') : Agrees R q
          (readValues title (i + 1) rest t) (readValues title (i + 1) rest t') :=
        ih (fun m hm => h m (List.mem_cons_of_mem _ hm)) (i + 1) nofun ht
      have next := nextElement_agrees (decide (i = 0)) (by simpa using hp) alike
      simp only [readValues]
      rcases next with ⟨f, hf, hf'⟩ | ⟨hn, hn'⟩ | ⟨value, value', hv, hv', values⟩
      · simp only [bind, Except.bind, hf, hf']
        exact .error f
      · simp only [bind, Except.bind, hn, hn']
        split
        · exact later hs alike
        · exact .error _
      · have first := h m List.mem_cons_self s s' hs values
        simp only [bind, Except.bind, hv, hv']
        generalize m.read s value = x, m.read s' value' = x' at first ⊢
        cases first with
        | error f => exact .error f
        | ok ht rests => exact later ht rests

theorem Treats.read (h : r.Treats R) (plain : ∀ m ∈ r.members, m.name ≠ tokenName) (hs : R s s') :
    Agrees R .elsewhere (r.read s) (r.read s') := by
  have members (m : Member σ) (hm : m ∈ r.members) (s s' : σ) (hs : R s s') :
      Agrees R .elsewhere (m.read s) (m.read s') := by
    have hmember := h.members m hm s s' hs
    rwa [Place.ofName, if_neg (plain m hm)] at hmember
  intro ls ls' alike
  have object := h.readObject hs alike
  cases alike with
  | nil => exact object
  | cons l rest =>
      cases l with
      | openBracket =>
          have values := readValues_agrees members r.listTitle 0 (fun _ => rfl) hs rest
          simp only [Record.read]
          generalize readValues r.listTitle 0 r.members s _ = x,
            readValues r.listTitle 0 r.members s' _ = x' at values ⊢
          cases values with
          | error f => exact .error f
          | ok ht rests =>
              cases rests with
              | nil => exact .error _
              | cons l rest =>
                  cases l with
                  | closeBracket => exact .ok ht rest
                  | _ => exact .error _
              | token => exact .error _
      | _ => exact object

end Record

end FederatedAccess.Json
