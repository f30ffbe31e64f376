import FederatedAccess.Proofs.Broker.Polling
import FederatedAccess.Proofs.Broker.Reached

/-!
# Deadlines are respected and never inherited

No call waits beyond its deadline, or at all if it began after it, and no call fails for want of
time before its own deadline has come, on whomever it has waited, as long as the mapper of the
transport leaves it to the broker to say so. That time stops at a deadline
until the call has been served does not keep it from going on: a call whose deadline has come ends
when it is polled a few times, whatever comes in between, even if nobody ever answers it.
-/

namespace FederatedAccess.Broker

/-- In every state that is reached: no live call is past its deadline, unless it began so; if the
mapper tells no fault as a timeout of the caller, whoever ran out of time did so at or after its own
deadline; a call whose deadline has come ends with the
seventh poll at the latest; and when such calls have been polled, time goes on until the next
deadline. -/
theorem deadlines_respected (config : Config) (x : Exchanger) (clock : Instant)
    (events : List Event) :
    let b := (make config x clock).run events
    (∀ c ∈ b.calls, (∃ s ∈ b.journal, s.call = c.id ∧ s.time = c.started ∧
        s.what = .started c.scope c.deadline) ∧
      ∀ limit ∈ c.deadline, b.time ≤ max limit c.started) ∧
    (x.mapper.NeverTimesOut → ∀ pre e post stage, b.journal = pre ++ e :: post →
      e.what = .ended (.error (.timeout stage)) →
      ∃ scope limit, .started scope (some limit) ∈ historyOf pre e.call ∧ limit ≤ e.time) ∧
    (∀ c ∈ b.calls, b.isDue c = true → ∀ between : List (List Event), 7 ≤ between.length →
      ∀ d ∈ (b.run (between.flatMap (· ++ poll c.id))).calls, d.id ≠ c.id) ∧
    ∀ time, b.time ≤ time →
      (∀ c ∈ b.calls, ∀ limit ∈ c.deadline, b.time < limit → time ≤ limit) →
      ((b.run b.settling).step (.tick time)).time = time := by
  intro b
  have made := Reached.make config x clock
  obtain ⟨hb, visiting, -, punctual⟩ : b.Reached := made.run events
  refine ⟨fun c hc => ⟨punctual.begun c hc, fun limit hlimit => ?_⟩,
    fun honest pre e post stage hj he => ?_,
    fun c hc due between enough => ?_, fun time later next => ?_⟩
  · exact punctual.waits c hc _ (Option.map_eq_some_iff.mpr ⟨limit, hlimit, rfl⟩)
  · have unhurried : b.Unhurried := Unhurried.run honest made.coherent .nil events
    exact unhurried pre e post hj stage he
  · exact ended_of_polls hb.holding visiting hc due (Nat.le_trans (b.stepsLeft_le c) enough)
  · exact time_tick_settling hb.holding visiting later next

/-! ### A run in which nobody answers -/

/-- The source of the assertion is read and does not answer until the deadline of the call comes. -/
def unansweredRefresh : List Event :=
  [.start sampleScope (some 5), .proceed 0, .proceed 0, .tick 5]

def overdue : Broker := (make sampleConfig sampleExchanger sampleClock).run unansweredRefresh

/-- The call ends when it is polled, and not before its deadline. -/
theorem unanswered_call_ends :
    overdue.time = 5 ∧ sampleExchanger.mapper.NeverTimesOut ∧
      (∃ c ∈ overdue.calls, overdue.isDue c = true ∧
        ∀ d ∈ (overdue.run ((List.replicate 7 []).flatMap (· ++ poll c.id))).calls, d.id ≠ c.id) ∧
      ∃ pre e, (overdue.step (.expire 0)).journal = pre ++ [e] ∧
        e.what = .ended (.error (.timeout .assertionRead)) ∧
        ∃ scope limit, .started scope (some limit) ∈ historyOf pre e.call ∧ limit ≤ e.time := by
  have hcalls : overdue.calls = [⟨0, sampleScope, 0, some 5, 0, .reading .first⟩] := rfl
  have hlive : (⟨0, sampleScope, 0, some 5, 0, .reading .first⟩ : Call) ∈ overdue.calls :=
    hcalls ▸ List.mem_cons_self
  have respected := deadlines_respected sampleConfig sampleExchanger sampleClock unansweredRefresh
  have expired := deadlines_respected sampleConfig sampleExchanger sampleClock
    (unansweredRefresh ++ [.expire 0])
  have hj : (overdue.step (.expire 0)).journal = (overdue.step (.expire 0)).journal.dropLast ++
      [⟨5, sampleClock, 0, .ended (.error (.timeout .assertionRead))⟩] := rfl
  have honest := Exchanger.standard_neverTimesOut
  exact ⟨rfl, honest, ⟨_, hlive, rfl, respected.2.2.1 _ hlive rfl (List.replicate 7 [])
    (Nat.le_refl 7)⟩, _, _, hj, rfl, expired.2.1 honest _ _ [] _ hj rfl⟩

end FederatedAccess.Broker
