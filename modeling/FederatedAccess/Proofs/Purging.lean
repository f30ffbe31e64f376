import FederatedAccess.Proofs.Broker.Landing
import FederatedAccess.Proofs.Broker.Sweeping
import FederatedAccess.Proofs.TokenProvenance

/-!
# Sweeps cannot be observed

A run in which sweeps are inserted, wherever that may be, comes to the same as the run without them,
as long as the clock does not move back: the same calls end with the same results at the same times,
the same is read, sent, traced and counted, and the same tokens are given out. Only unusable tokens
and slots that nobody holds may be missing from the stores.
-/

namespace FederatedAccess.Broker

/-- The second list of events is the first one with sweeps inserted. -/
inductive Swept : List Event → List Event → Prop
  | nil : Swept [] []
  | same {events swept} (e : Event) (rest : Swept events swept) : Swept (e :: events) (e :: swept)
  | purge {events swept} (rest : Swept events swept) : Swept events (.purge :: swept)

/-- In a run, the clock does not move back. -/
def Forward (b : Broker) : List Event → Prop
  | [] => True
  | e :: rest => b.clock ≤ (b.step e).clock ∧ (b.step e).Forward rest

instance decidableForward (b : Broker) : (events : List Event) → Decidable (b.Forward events)
  | [] => .isTrue trivial
  | e :: rest =>
    have := decidableForward (b.step e) rest
    inferInstanceAs (Decidable (b.clock ≤ (b.step e).clock ∧ (b.step e).Forward rest))

variable {b b' : Broker}

theorem Like.make (config : Config) (x : Exchanger) (clock : Instant) :
    (make config x clock).Like (make config x clock) :=
  ⟨rfl, .empty _ _, fun _ => rfl, fun _ hc => absurd hc List.not_mem_nil⟩

/-- Brokers that differ by sweeps do so after a run in which sweeps are inserted. -/
theorem Like.run (h : b.Like b') (hold : b.Holding) (hold' : b'.Holding)
    {events swept : List Event} (inserted : Swept events swept) (forward : b.Forward events) :
    (b.run events).Like (b'.run swept) := by
  induction inserted generalizing b b' with
  | nil => exact h
  | same e _ ih =>
      exact ih (h.step hold hold' forward.1) (hold.move (move_step b e))
        (hold'.move (move_step b' e)) forward.2
  | purge _ ih => exact ih (h.purge hold') hold (hold'.move (move_step b' .purge)) forward

/-- Wherever sweeps are inserted in a run whose clock does not move back, the journal stays the same
but for the numbers of slots and tickets, and with it the results of calls, the times at which they
end, the requests that are sent, the reads and the spans. The counters stay the same, and so do the
calls that have not ended, the tokens that are given out, and whether a token is stored for a scope
set, unless it is not usable. -/
theorem sweeps_unobservable (config : Config) (x : Exchanger) (clock : Instant)
    {events swept : List Event} (inserted : Swept events swept)
    (forward : (make config x clock).Forward events) :
    let b := (make config x clock).run events
    let b' := (make config x clock).run swept
    b.journal.map Entry.plain = b'.journal.map Entry.plain ∧
      b.metrics = b'.metrics ∧ b.tally = b'.tally ∧ b.time = b'.time ∧ b.clock = b'.clock ∧
      b.calls.map Call.plain = b'.calls.map Call.plain ∧
      (∀ scope, b.usable? scope = b'.usable? scope) ∧
      ∀ scope, b.tokens.holds scope ≠ b'.tokens.holds scope → b.usable? scope = none := by
  intro b b'
  have hold := Holding.make config x clock
  have like : b.Like b' := (Like.make config x clock).run hold hold inserted forward
  refine ⟨(congrArg Broker.journal like.plain :), (congrArg Broker.metrics like.plain :),
    (congrArg Broker.tally like.plain :), like.time, like.clock,
    (congrArg Broker.calls like.plain :), like.usable?, ?_⟩
  intro scope hne
  exact like.tokens.get?_eq_none_of_holds hne

/-! ### A run in which a sweep drops a token and a slot -/

/-- An hour after the clock starts. -/
def nextHour : Instant := ⟨3600 * nanosPerSecond, .utc, by decide⟩

/-- A token is stored, and expires; a call that misses it is cancelled while it queues. -/
def missedRun : List Event :=
  grantingRefresh ++ [.setClock nextHour, .start sampleScope none, .cancel 2]

/-- Another call for the same scope set begins to refresh. -/
def laterRun : List Event := [.start sampleScope none, .proceed 3]

theorem Swept.refl (events : List Event) : Swept events events := by
  induction events with
  | nil => exact .nil
  | cons e rest ih => exact .same e ih

theorem Swept.append {events swept : List Event} (h : Swept events swept) (before : List Event) :
    Swept (before ++ events) (before ++ swept) := by
  induction before with
  | nil => exact h
  | cons e rest ih => exact .same e ih

theorem sweep_unobserved :
    let b := (make sampleConfig sampleExchanger sampleClock).run (missedRun ++ laterRun)
    let b' := (make sampleConfig sampleExchanger sampleClock).run (missedRun ++ .purge :: laterRun)
    (b.tokens.size = 1 ∧ b.calls.map Call.slot = [1]) ∧
      (b'.tokens.size = 0 ∧ b'.calls.map Call.slot = [2]) ∧
      b.journal.map Entry.plain = b'.journal.map Entry.plain ∧ b.metrics = b'.metrics := by
  intro b b'
  have inserted : Swept (missedRun ++ laterRun) (missedRun ++ .purge :: laterRun) :=
    (Swept.purge (.refl laterRun)).append missedRun
  have runs : (make sampleConfig sampleExchanger sampleClock).Forward (missedRun ++ laterRun) ∧
      (b.tokens.size = 1 ∧ b.calls.map Call.slot = [1]) ∧
      b'.tokens.size = 0 ∧ b'.calls.map Call.slot = [2] := by decide +kernel
  obtain ⟨forward, left, swept⟩ := runs
  have same := sweeps_unobservable sampleConfig sampleExchanger sampleClock inserted forward
  exact ⟨left, swept, same.1, same.2.1⟩

end FederatedAccess.Broker
