import FederatedAccess.Broker

/-!
# Redaction

The texts of assertions and tokens are struck out wherever they are kept: in stored tokens, in the
outcomes of slots, in the cache of the assertion. So are the places where documents break off, for the
text of a token moves what comes after it. What is done with tokens, assertions and failures does not
depend on these, so it can be done before they are struck out or after.
-/

namespace FederatedAccess

/-- What stands in place of a text that is struck out. -/
def mask : String := "<redacted>"

/-- The secret whose text is struck out. -/
def Secret.masked : Secret := ⟨mask⟩

/-- An assertion whose text is struck out. -/
def Assertion.redact (a : Assertion) : Assertion := { a with value := .masked }

/-- A token whose text is struck out. -/
def AccessToken.redact (t : AccessToken) : AccessToken := { t with secret := .masked }

namespace Failure

/-- A failure in which the place is struck out where a document breaks off. -/
def redact : Failure → Failure
  | .exchange (.transient (.unparsable flaw status)) =>
    .exchange (.transient (.unparsable { flaw with spot := {} } status))
  | f => f

/-- Only a document that breaks off has something to strike out. -/
theorem redact_cases (f : Failure) :
    f.redact = f ∨ ∃ flaw status, f = .transient (.unparsable flaw status) := by
  cases f with
  | exchange g =>
      cases g with
      | transient t =>
          cases t with
          | unparsable flaw status => exact .inr ⟨flaw, status, rfl⟩
          | _ => exact .inl rfl
      | _ => exact .inl rfl
  | _ => exact .inl rfl

@[simp] theorem isTimeout_redact (f : Failure) : f.redact.isTimeout = f.isTimeout := by
  rcases f.redact_cases with h | ⟨flaw, status, rfl⟩
  · rw [h]
  · rfl

@[simp] theorem isInvalidAssertion_redact (f : Failure) :
    f.redact.isInvalidAssertion = f.isInvalidAssertion := by
  rcases f.redact_cases with h | ⟨flaw, status, rfl⟩
  · rw [h]
  · rfl

@[simp] theorem message_redact (f : Failure) : f.redact.message = f.message := by
  rcases f.redact_cases with h | ⟨flaw, status, rfl⟩
  · rw [h]
  · rfl

@[simp] theorem redact_redact (f : Failure) : f.redact.redact = f.redact := by
  rcases f.redact_cases with h | ⟨flaw, status, rfl⟩
  · rw [h, h]
  · rfl

end Failure

/-- A result in which what is made of a value is changed, and the failure is struck out. -/
def redactOf {α β : Type} (f : α → β) (r : Except Failure α) : Except Failure β :=
  (r.map f).mapError Failure.redact

@[simp] theorem redactOf_ok {α β : Type} (f : α → β) (a : α) : redactOf f (.ok a) = .ok (f a) := rfl

@[simp] theorem redactOf_error {α β : Type} (f : α → β) (g : Failure) :
    redactOf f (.error g) = .error g.redact := rfl

/-- A result in which the text of the token is struck out. -/
def redactResult : Except Failure AccessToken → Except Failure AccessToken :=
  redactOf AccessToken.redact

@[simp] theorem redactResult_ok (t : AccessToken) : redactResult (.ok t) = .ok t.redact := rfl

@[simp] theorem redactResult_error (f : Failure) : redactResult (.error f) = .error f.redact := rfl

/-- A judgement in which the text of the token is struck out. -/
def Judgement.redact (j : Judgement) : Judgement := { j with result := redactResult j.result }

/-! ### Stored tokens -/

namespace TokenStore

variable {s : TokenStore}

/-- A store in which the texts of tokens are struck out. -/
def redact (s : TokenStore) : TokenStore :=
  { s with entries := s.entries.map fun p => (p.1, p.2.redact) }

theorem find?_redact (k : ScopeKey) : s.redact.find? k = (s.find? k).map AccessToken.redact := by
  obtain ⟨margin, entries⟩ := s
  simp only [redact, find?]
  induction entries with
  | nil => rfl
  | cons p rest ih =>
      rw [List.map_cons, List.lookup_cons, List.lookup_cons, ih]
      cases k == p.1 <;> rfl

theorem get?_redact (scope : ScopeSet) (now : Instant) :
    s.redact.get? scope now = (s.get? scope now).map AccessToken.redact := by
  rw [get?, find?_redact, Option.filter_map]
  rfl

theorem put_redact (t : AccessToken) : s.redact.put t.redact = (s.put t).redact := by
  simp only [put, redact, List.map_cons, List.filter_map]
  rfl

theorem invalidate_redact (scope : ScopeSet) :
    s.redact.invalidate scope = (s.invalidate scope).redact := by
  simp only [invalidate, redact, List.filter_map]
  rfl

theorem purge_redact (now : Instant) : s.redact.purge now = (s.purge now).redact := by
  simp only [purge, redact, List.filter_map]
  rfl

end TokenStore

/-! ### Slots -/

/-- A slot in whose outcome the text of the token is struck out. -/
def Slot.redact (s : Slot) : Slot := { s with outcome := s.outcome.map redactResult }

theorem Slot.shared?_redact (s : Slot) (ticket : Nat) :
    s.redact.shared? ticket = (s.shared? ticket).map redactResult := by
  unfold shared? redact
  dsimp only
  split <;> rfl

namespace Slots

variable {t : Slots}

/-- Slots in whose outcomes the texts of tokens are struck out. -/
def redact (t : Slots) : Slots := { t with stored := t.stored.map Slot.redact }

theorem find?_redact (id : SlotId) : t.redact.find? id = (t.find? id).map Slot.redact :=
  List.find?_map

theorem at?_redact (key : ScopeKey) : t.redact.at? key = (t.at? key).map Slot.redact :=
  List.find?_map

theorem take_redact (key : ScopeKey) :
    t.redact.take key = ((t.take key).1.redact, (t.take key).2.redact) := by
  unfold take
  rw [at?_redact]
  cases t.at? key with
  | some s => rfl
  | none =>
      simp only [Option.map_none, redact, List.map_append]
      rfl

/-- Slots may be changed before outcomes are struck out or after. -/
theorem modify_redact {f g : Slot → Slot} (h : ∀ s, g s.redact = (f s).redact) (id : SlotId) :
    t.redact.modify id g = (t.modify id f).redact := by
  simp only [modify, redact, List.map_map]
  congr 1
  apply List.map_congr_left
  intro s _
  change (if s.id = id then g s.redact else s.redact) = (if s.id = id then f s else s).redact
  split
  · exact h s
  · rfl

theorem release_redact (key : ScopeKey) (id : SlotId) (call : CallId) :
    t.redact.release key id call = (t.release key id call).redact := by
  have exits : t.redact.modify id (·.exit call) = (t.modify id (·.exit call)).redact :=
    modify_redact (f := (·.exit call)) (fun _ => rfl) id
  simp only [release, exits]
  simp only [redact, List.filter_map]
  rfl

theorem prune_redact : t.redact.prune = t.prune.redact := by
  simp only [prune, redact, List.filter_map]
  rfl

end Slots

/-! ### The cache of the assertion -/

namespace AssertionCache

variable {c : AssertionCache}

/-- A cache in whose assertion the text is struck out. -/
def redact (c : AssertionCache) : AssertionCache :=
  { c with stored := c.stored.map Assertion.redact }

/-- What a visit comes to, with the text of the assertion struck out. -/
def Progress.redact : Progress → Progress
  | .shows stored => .shows (stored.map Assertion.redact)
  | .ends r => .ends (redactOf Assertion.redact r)
  | p => p

theorem fresh?_redact (now : Instant) :
    c.redact.fresh? now = (c.fresh? now).map Assertion.redact := by
  rw [fresh?, redact, Option.filter_map]
  rfl

theorem standIn?_redact :
    c.redact.standIn? = c.standIn?.map fun p => (p.1.redact, p.2) := by
  unfold standIn? redact
  dsimp only
  split
  · rw [Option.map_map, Option.map_map]
    rfl
  · rfl

theorem beginRead_redact : c.redact.beginRead = c.beginRead.redact := by
  obtain ⟨ttl, stored, visits⟩ := c
  cases visits <;> rfl

theorem overtake_redact (call : CallId) : c.redact.overtake call = (c.overtake call).redact := by
  unfold overtake
  change (if c.visits.head?.any Visit.reading = true then _ else _) = _
  split <;> rfl

theorem proceed_redact : c.redact.proceed = (c.proceed.1.redact, c.proceed.2.redact) := by
  cases hvisits : c.visits with
  | nil => simp only [proceed, redact, hvisits, Progress.redact]
  | cons v rest =>
      have visits : c.redact.visits = v :: rest := hvisits
      simp only [proceed, hvisits, visits]
      split
      · rfl
      · split
        · rfl
        · rw [beginRead_redact]
          rfl
        · rw [fresh?_redact]
          cases c.fresh? v.now with
          | some a => rfl
          | none =>
              simp only [Option.map_none, beginRead_redact]
              rfl

/-- What the source gave, with the text struck out. -/
def redactRead : Except Failure String → Except Failure String := redactOf fun _ => mask

theorem finish_redact (result : Except Failure String) :
    c.redact.finish (redactRead result) =
      ((c.finish result).1.redact, (c.finish result).2.redact) := by
  cases hvisits : c.visits with
  | nil => simp only [finish, redact, hvisits, Progress.redact]
  | cons v rest =>
      have visits : c.redact.visits = v :: rest := hvisits
      simp only [finish, hvisits, visits]
      split
      · cases result with
        | ok text => rfl
        | error f =>
            simp only [redactRead, redactOf_error, standIn?_redact]
            cases c.standIn? <;> rfl
      · rfl

end AssertionCache

end FederatedAccess
