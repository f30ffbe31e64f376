import FederatedAccess.Failure
import FederatedAccess.Secret

/-!
# The cache of the assertion

The last assertion that was read is kept and used until it is as old as the span of its use. Visits
to the cache are served one after another in order of arrival, and a visit that has to read the
source keeps the others waiting. A read that fails leaves what is stored as it is, and a visit that
came only because of age is then given the stored assertion.
-/

namespace FederatedAccess

/-- A number that tells calls apart. -/
abbrev CallId := Nat

/-- What a visit asks for: an assertion that is not too old, one that is read anew, or just what is
stored. -/
inductive Lookup
  | current
  | forced
  | peek
deriving DecidableEq, Repr

/-- A visit to the cache. -/
structure Visit where
  call : CallId
  lookup : Lookup
  now : Instant
  reading : Bool := false
deriving DecidableEq, Repr

/-- The cache and the visits to it, the one that is served first. -/
structure AssertionCache where
  ttl : Duration
  stored : Option Assertion := none
  visits : List Visit := []

namespace AssertionCache

/-- How a visit goes on: it has to wait, begins to read the source, is shown what is stored, or
ends with an assertion or a failure. -/
inductive Progress
  | waits
  | begins
  | shows (stored : Option Assertion)
  | ends (result : Except Failure Assertion)

/-- The call whose visit is served. -/
def owner? (c : AssertionCache) : Option CallId := c.visits.head?.map Visit.call

/-- The stored assertion, if it is not too old. -/
def fresh? (c : AssertionCache) (now : Instant) : Option Assertion :=
  c.stored.filter fun a => a.age now < c.ttl

/-- Queues a visit. -/
def arrive (c : AssertionCache) (v : Visit) : AssertionCache :=
  { c with visits := c.visits ++ [v] }

/-- Ends the visit that is served. -/
def close (c : AssertionCache) : AssertionCache := { c with visits := c.visits.tail }

/-- Marks the visit that is served as reading. -/
def beginRead (c : AssertionCache) : AssertionCache :=
  match c.visits with
  | [] => c
  | v :: rest => { c with visits := { v with reading := true } :: rest }

/-- Serves the first visit as far as it goes without the source. -/
def proceed (c : AssertionCache) : AssertionCache × Progress :=
  match c.visits with
  | [] => (c, .waits)
  | v :: _ =>
    if v.reading then (c, .waits)
    else
      match v.lookup with
      | .peek => (c.close, .shows c.stored)
      | .forced => (c.beginRead, .begins)
      | .current =>
        match c.fresh? v.now with
        | some a => (c.close, .ends (.ok a))
        | none => (c.beginRead, .begins)

/-- The stored assertion with its age, where it stands in for a read that failed. -/
def standIn? (c : AssertionCache) : Option (Assertion × Duration) :=
  match c.visits with
  | ⟨_, .current, now, _⟩ :: _ => c.stored.map fun a => (a, a.age now)
  | _ => none

/-- Ends the visit that reads with what the source gave. -/
def finish (c : AssertionCache) (result : Except Failure String) : AssertionCache × Progress :=
  match c.visits with
  | [] => (c, .waits)
  | v :: _ =>
    if v.reading then
      match result with
      | .ok text => ({ c.close with stored := some ⟨⟨text⟩, v.now⟩ }, .ends (.ok ⟨⟨text⟩, v.now⟩))
      | .error f =>
        match c.standIn? with
        | some (a, _) => (c.close, .ends (.ok a))
        | none => (c.close, .ends (.error f))
    else (c, .waits)

/-- Gives up a visit, wherever it stands. -/
def leave (c : AssertionCache) (call : CallId) : AssertionCache :=
  { c with visits := c.visits.filter (·.call ≠ call) }

/-- Puts the visit of a call before the others, unless the source is being read. -/
def overtake (c : AssertionCache) (call : CallId) : AssertionCache :=
  if c.visits.head?.any Visit.reading then c
  else { c with visits := c.visits.filter (·.call = call) ++ c.visits.filter (·.call ≠ call) }

/-- Whether the visit of a call reads the source. -/
def isReading (c : AssertionCache) (call : CallId) : Bool :=
  c.visits.head?.any fun v => v.reading && v.call == call

/-- Whether it is the turn of a call whose visit does not read yet. -/
def isTurn (c : AssertionCache) (call : CallId) : Bool :=
  c.visits.head?.any fun v => !v.reading && v.call == call

/-! ### What operations do to the stored assertion -/

@[simp] theorem stored_arrive (c : AssertionCache) (v : Visit) :
    (c.arrive v).stored = c.stored := rfl

@[simp] theorem stored_close (c : AssertionCache) : c.close.stored = c.stored := rfl

@[simp] theorem stored_leave (c : AssertionCache) (call : CallId) :
    (c.leave call).stored = c.stored := rfl

@[simp] theorem stored_overtake (c : AssertionCache) (call : CallId) :
    (c.overtake call).stored = c.stored := by
  unfold overtake
  split <;> rfl

@[simp] theorem stored_beginRead (c : AssertionCache) : c.beginRead.stored = c.stored := by
  unfold beginRead
  split <;> rfl

theorem stored_proceed (c : AssertionCache) : c.proceed.1.stored = c.stored := by
  unfold proceed
  split
  · rfl
  · split
    · rfl
    · split
      · simp
      · simp
      · split <;> simp

/-! ### Whose visit is served, and how it goes on -/

variable {c cache : AssertionCache} {call : CallId}

theorem isTurn_iff :
    c.isTurn call = true ↔ ∃ v rest, c.visits = v :: rest ∧ v.call = call ∧ v.reading = false := by
  cases hv : c.visits with
  | nil => simp [isTurn, hv]
  | cons v rest => simp [isTurn, hv, and_comm]

theorem isReading_iff :
    c.isReading call = true ↔ ∃ v rest, c.visits = v :: rest ∧ v.call = call ∧ v.reading = true := by
  cases hv : c.visits with
  | nil => simp [isReading, hv]
  | cons v rest => simp [isReading, hv, and_comm]

/-- A visit that does not read yet begins to do so, unless it is given an assertion that is not too
old. One that only looks is not considered here. -/
theorem proceed_cases {v : Visit} {rest : List Visit} (hv : c.visits = v :: rest)
    (waiting : v.reading = false) (asks : v.lookup ≠ .peek) :
    c.proceed = ({ c with visits := { v with reading := true } :: rest }, .begins) ∨
      ∃ a, v.lookup = .current ∧ c.fresh? v.now = some a ∧ c.proceed = (c.close, .ends (.ok a)) := by
  simp only [proceed, hv, waiting, Bool.false_eq_true, if_false, beginRead]
  cases hl : v.lookup with
  | peek => exact absurd hl asks
  | forced => exact .inl rfl
  | current =>
    cases ha : c.fresh? v.now with
    | none => exact .inl rfl
    | some a => exact .inr ⟨a, rfl, rfl, rfl⟩

/-- A visit that comes because of age begins to read only if what is stored is too old. -/
theorem stale_of_proceed_eq_begins {v : Visit} {rest : List Visit} (hv : c.visits = v :: rest)
    (current : v.lookup = .current) (h : c.proceed = (cache, .begins)) : c.fresh? v.now = none := by
  cases ha : c.fresh? v.now with
  | none => rfl
  | some a =>
    simp only [proceed, hv, current, ha] at h
    split at h <;> cases h

/-- Only the visit that is served begins to read. -/
theorem of_proceed_eq_begins (h : c.proceed = (cache, .begins)) :
    ∃ v rest, c.visits = v :: rest ∧ v.reading = false ∧
      cache = { c with visits := { v with reading := true } :: rest } := by
  cases hv : c.visits with
  | nil => simp [proceed, hv] at h
  | cons v rest =>
    simp only [proceed, hv] at h
    split at h
    · cases h
    · rename_i waiting
      refine ⟨v, rest, rfl, Bool.eq_false_iff.mpr waiting, ?_⟩
      split at h
      · cases h
      · exact (Prod.mk.inj h).1.symm.trans (by simp [beginRead, hv])
      · split at h
        · cases h
        · exact (Prod.mk.inj h).1.symm.trans (by simp [beginRead, hv])

/-- A visit ends without a read only with a stored assertion that is not too old. -/
theorem of_proceed_eq_ends {r : Except Failure Assertion} (h : c.proceed = (cache, .ends r)) :
    ∃ v a, c.visits = v :: cache.visits ∧ v.reading = false ∧ v.lookup = .current ∧
      c.fresh? v.now = some a ∧ cache.stored = c.stored ∧ r = .ok a := by
  cases hv : c.visits with
  | nil => simp [proceed, hv] at h
  | cons v rest =>
    simp only [proceed, hv] at h
    split at h
    · cases h
    · rename_i waiting
      split at h
      · cases h
      · cases h
      · rename_i current
        split at h
        · rename_i a fresh
          cases h
          exact ⟨v, a, by simp [close, hv], Bool.eq_false_iff.mpr waiting, current, fresh, rfl, rfl⟩
        · cases h

/-- How a read ends a visit: what the source gave, what is stored then, and what is given out. -/
inductive Finished (c : AssertionCache) (v : Visit) :
    Except Failure String → Option Assertion → Except Failure Assertion → Prop
  | read {text} : Finished c v (.ok text) (some ⟨⟨text⟩, v.now⟩) (.ok ⟨⟨text⟩, v.now⟩)
  | stale {f a age} (stands : c.standIn? = some (a, age)) : Finished c v (.error f) c.stored (.ok a)
  | failed {f} (none : c.standIn? = none) : Finished c v (.error f) c.stored (.error f)

/-- A visit that reads ends with what the source gave. -/
theorem finish_cases {v : Visit} {rest : List Visit} (hv : c.visits = v :: rest)
    (reading : v.reading = true) (result : Except Failure String) :
    ∃ cache r, c.finish result = (cache, .ends r) ∧ cache.visits = rest ∧
      Finished c v result cache.stored r := by
  simp only [finish, hv, reading, if_true]
  cases result with
  | ok text => exact ⟨_, _, rfl, by simp [close, hv], .read⟩
  | error f =>
    cases hs : c.standIn? with
    | none => exact ⟨_, _, rfl, by simp [close, hv], .failed hs⟩
    | some p => exact ⟨_, _, rfl, by simp [close, hv], .stale hs⟩

/-- Only the visit that reads ends with what the source gave. -/
theorem of_finish_eq_ends {result : Except Failure String} {r : Except Failure Assertion}
    (h : c.finish result = (cache, .ends r)) :
    ∃ v, c.visits = v :: cache.visits ∧ v.reading = true ∧ Finished c v result cache.stored r := by
  cases hv : c.visits with
  | nil => simp [finish, hv] at h
  | cons v rest =>
    cases hr : v.reading with
    | false => simp [finish, hv, hr] at h
    | true =>
      obtain ⟨cache', r', hfinish, hrest, hfinished⟩ := finish_cases hv hr result
      obtain ⟨rfl, hends⟩ := Prod.mk.inj (h.symm.trans hfinish)
      obtain rfl := Progress.ends.inj hends
      exact ⟨v, by rw [hrest], hr, hfinished⟩

/-- A stored assertion stands in for a read only if the visit came because of age. -/
theorem lookup_of_standIn? {v : Visit} {rest : List Visit} {p : Assertion × Duration}
    (hv : c.visits = v :: rest) (h : c.standIn? = some p) : v.lookup = .current := by
  obtain ⟨call, lookup, now, reading⟩ := v
  cases lookup with
  | current => rfl
  | _ => simp [standIn?, hv] at h

end AssertionCache

end FederatedAccess
