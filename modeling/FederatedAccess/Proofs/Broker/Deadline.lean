import FederatedAccess.Proofs.Broker.Course
import FederatedAccess.Proofs.SharedOutcome

/-!
# Who runs out of time

No call waits beyond its deadline (`Punctual`). Only a call whose deadline has come ends because it
ran out of time: an outcome that it shares is never a timeout, the source cannot make it one, and the
token endpoint can do so only through the mapper of its transport. Where that never does, all calls
that have run out of time did so when their deadlines had come (`Unhurried`).
-/

namespace FederatedAccess

namespace Exchanger

theorem isTimeout_of_prepare {x : Exchanger} {s : Secret} {scope : ScopeSet} {f : Failure}
    (h : x.prepare s scope = .error f) : f.isTimeout = false := by
  unfold prepare at h
  split at h
  · cases h
    rfl
  · split at h
    · cases h
      rfl
    · cases h

/-- Whatever a failed exchange is classified as, it is no timeout of the caller. -/
theorem isTimeout_failure (kind : Classification.Kind) (reason : String) (t : Transient) :
    (kind.failure reason t).isTimeout = false := by
  cases kind <;> rfl

/-- The mapper of this library tells no fault as a timeout of the caller. -/
theorem standard_neverTimesOut : FaultMapper.standard.NeverTimesOut := by
  intro classifier metadata fault
  cases fault with
  | network detail => exact isTimeout_failure _ _ _
  | _ => rfl

/-- No reply makes a call run out of time, unless the mapper tells a fault so. -/
theorem isTimeout_of_conclude {x : Exchanger} (honest : x.mapper.NeverTimesOut) {scope : ScopeSet}
    {requestedAt : Instant} {reply : Reply} {f : Failure}
    (h : (x.conclude scope requestedAt reply).result = .error f) : f.isTimeout = false := by
  have unstructured {body : List Char} {t : Transient}
      (h : (x.judgeUnstructured reply body t).result = .error f) : f.isTimeout = false := by
    unfold judgeUnstructured at h
    split at h
    · cases h
      rfl
    · cases h
      exact isTimeout_failure _ _ _
  unfold conclude at h
  split at h
  · rename_i response _
    unfold judgeResponse at h
    split at h
    · rename_i d _
      cases hg : grant d scope requestedAt with
      | ok t => simp [hg, Except.mapError] at h
      | error reason =>
          rw [hg] at h
          cases h
          rfl
    · cases h
      exact isTimeout_failure _ _ _
    · exact unstructured h
    · exact unstructured h
  · cases h
    exact honest _ _ _

end Exchanger

namespace Broker

variable {b b' w : Broker} {c : Call} {e : Event}

/-! ### Who runs out of time -/

theorem isDue_iff : b.isDue c = true ↔ ∃ limit, c.deadline = some limit ∧ limit ≤ b.time := by
  cases h : c.deadline <;> simp [isDue, h]

theorem Visited.due {f : Failure} (h : Visited b c e (.error f) w) (late : f.isTimeout = true) :
    b.isDue c = true := by
  cases h with
  | fresh _ served =>
      obtain ⟨v, a, -, -, -, -, -, hr⟩ := AssertionCache.of_proceed_eq_ends served
      cases hr
  | @read cache _ result _ served =>
      obtain ⟨u, -, -, finished⟩ := AssertionCache.of_finish_eq_ends served
      generalize cache.stored = stored at finished
      cases result with
      | ok text => cases finished
      | error g =>
          cases finished
          cases late
  | late due => exact due

theorem Refreshed.due {r : Except Failure AccessToken} (honest : b.exchanger.mapper.NeverTimesOut)
    (h : Refreshed b c e r w) (late : timedOut r = true) : b.isDue c = true := by
  cases h with
  | unserved _ due => exact due
  | cutOff _ due => exact due
  | unread _ visited => exact visited.due late
  | unsent _ _ prepared => cases late.symm.trans (Exchanger.isTimeout_of_prepare prepared)
  | granted => cases late
  | refused _ result => cases late.symm.trans (Exchanger.isTimeout_of_conclude honest result)

/-- Only a call whose deadline has come runs out of time. -/
theorem Closing.due {r : Except Failure AccessToken} (honest : b.exchanger.mapper.NeverTimesOut)
    (hb : b.Coherent) (hc : c ∈ b.calls) (h : Closing b c e r w) (late : timedOut r = true) :
    b.isDue c = true := by
  cases h with
  | joins phase slot _ shared =>
      have since := hb.landing.publishedSince hb.holding hb.ledger hc phase slot shared
      cases late.symm.trans (hb.intime (List.append_nil _).symm since)
  | hits => cases late
  | lapses _ due => exact due
  | unpublished refreshed => exact refreshed.due honest late
  | published _ intime => cases late.symm.trans intime

/-! ### Nobody waits beyond a deadline -/

/-- No call waits beyond its deadline. -/
structure Punctual (b : Broker) : Prop where
  begun : ∀ c ∈ b.calls, ∃ s ∈ b.journal,
    s.call = c.id ∧ s.time = c.started ∧ s.what = .started c.scope c.deadline
  waits : ∀ c ∈ b.calls, ∀ t ∈ lastWait c, b.time ≤ t

namespace Punctual

theorem make (config : Config) (x : Exchanger) (clock : Instant) :
    Punctual (make config x clock) :=
  ⟨by simp [Broker.make], by simp [Broker.make]⟩

/-- A step in which no call begins and no time passes. -/
theorem of_log {id : CallId} {log : List Occurrence} (h : b.Punctual)
    (journal : b'.journal = b.journal ++ log.map (b.entry id)) (time : b'.time = b.time)
    (calls : ∀ d ∈ b'.calls, ∃ c ∈ b.calls, d = { c with phase := d.phase }) : b'.Punctual where
  begun d hd := by
    obtain ⟨c, hc, heq⟩ := calls d hd
    obtain ⟨s, hs, hrest⟩ := h.begun c hc
    rw [heq, journal]
    exact ⟨s, List.mem_append_left _ hs, hrest⟩
  waits d hd t ht := by
    obtain ⟨c, hc, heq⟩ := calls d hd
    rw [heq] at ht
    rw [time]
    exact h.waits c hc t ht

/-- A step that logs nothing and lets no time pass. -/
theorem quiet (h : b.Punctual) (journal : b'.journal = b.journal) (time : b'.time = b.time)
    (calls : b'.calls = b.calls) : b'.Punctual := by
  have hj : b'.journal = b.journal ++ [].map (b.entry 0) := by simp [journal]
  exact h.of_log hj time fun d hd => ⟨d, calls ▸ hd, rfl⟩

/-- A call that begins waits no longer than until its deadline or, if that has passed, not at all. -/
theorem queues (h : b.Punctual) (scope : ScopeSet) (deadline : Option Nat) :
    ((b.admitCall scope deadline).joinQueue b.nextCall scope deadline).Punctual := by
  have journal := journal_queue b scope deadline
  refine ⟨fun d hd => ?_, fun d hd t ht => ?_⟩
  · rw [journal]
    rcases List.mem_append.mp hd with hd | hd
    · obtain ⟨s, hs, hrest⟩ := h.begun d hd
      exact ⟨s, List.mem_append_left _ hs, hrest⟩
    · rw [List.mem_singleton.mp hd]
      exact ⟨_, List.mem_append_right _ List.mem_cons_self, rfl, rfl, rfl⟩
  · rcases List.mem_append.mp hd with hd | hd
    · exact h.waits d hd t ht
    · rw [List.mem_singleton.mp hd] at ht
      obtain ⟨limit, -, rfl⟩ := Option.map_eq_some_iff.mp ht
      exact Nat.le_max_right _ _

/-- Every move keeps to the deadlines. -/
theorem move (h : b.Punctual) (m : Move b e b') : b'.Punctual := by
  cases m with
  | idle => exact h
  | @refuses scope deadline =>
      have hl := logged_refused b scope deadline (.error Exchanger.noScope)
      exact h.of_log hl.journal hl.time fun d hd => ⟨d, hl.calls ▸ hd, rfl⟩
  | @serves scope deadline t =>
      have hl := logged_served b scope deadline t
      exact h.of_log hl.journal hl.time fun d hd => ⟨d, hl.calls ▸ hd, rfl⟩
  | queues => exact h.queues _ _
  | @reads c round cache =>
      have hl := logged_reads b c.id cache
      exact h.of_log hl.journal hl.time fun d hd => ⟨d, hl.calls ▸ hd, rfl⟩
  | @goes c e p w live going =>
      obtain ⟨-, log, -, hl⟩ := going.quiet
      have journal : (w.enter c.id p).journal = b.journal ++ log.map (b.entry c.id) := hl.journal
      refine h.of_log journal hl.time fun d hd => ?_
      obtain ⟨u, hu, rfl⟩ := List.mem_map.mp hd
      refine ⟨u, going.frame.1 ▸ hu, ?_⟩
      split <;> rfl
  | @ends c e r w live closing =>
      obtain ⟨log, -, hl, -⟩ := closing.logged
      exact h.of_log (hl.journal_finish r) ((time_finish w c r).trans hl.time)
        fun d hd => ⟨d, closing.frame.1 ▸ (mem_calls_finish.mp hd).1, rfl⟩
  | @cancels c =>
      exact h.of_log (logged_cancelled b c.id).journal rfl
        fun d hd => ⟨d, (List.mem_filter.mp hd).1, rfl⟩
  | ticks later waits => exact ⟨h.begun, waits⟩
  | overtakes => exact h.quiet rfl rfl rfl
  | overtakesVisit => exact h.quiet rfl rfl rfl
  | invalidates => exact h.quiet rfl rfl rfl
  | purges => exact h.quiet rfl rfl rfl
  | sets => exact h.quiet rfl rfl rfl

end Punctual

/-! ### Nobody runs out of time before a deadline -/

/-- Nobody has run out of time before its deadline came. -/
def Unhurried (b : Broker) : Prop :=
  Chronicle (fun pre y => ∀ stage, y.what = .ended (.error (.timeout stage)) →
    ∃ scope limit, .started scope (some limit) ∈ historyOf pre y.call ∧ limit ≤ y.time) b.journal

namespace Unhurried

/-- A step in which nobody runs out of time but whose deadline has come. -/
theorem of_log {id : CallId} {log : List Occurrence} (h : b.Unhurried)
    (journal : b'.journal = b.journal ++ log.map (b.entry id))
    (late : ∀ pre stage post, log = pre ++ .ended (.error (.timeout stage)) :: post →
      ∃ scope limit, .started scope (some limit) ∈ b.history id ∧ limit ≤ b.time) :
    b'.Unhurried := by
  rw [Unhurried, journal]
  apply Chronicle.log h
  intro pre o post he stage hw
  replace hw : o = .ended (.error (.timeout stage)) := hw
  obtain ⟨scope, limit, hstarted, hle⟩ := late pre stage post (hw ▸ he)
  refine ⟨scope, limit, ?_, hle⟩
  rw [historyOf_append]
  exact List.mem_append_left _ hstarted

/-- A step in which nobody runs out of time. -/
theorem of_not_mem {id : CallId} {log : List Occurrence} (h : b.Unhurried)
    (journal : b'.journal = b.journal ++ log.map (b.entry id))
    (none : ∀ stage, .ended (.error (.timeout stage)) ∉ log) : b'.Unhurried :=
  h.of_log journal fun _ stage _ he => absurd (by simp [he]) (none stage)

/-- Where the mapper tells no fault as a timeout, no move makes a call run out of time too early. -/
theorem move (h : b.Unhurried) (honest : b.exchanger.mapper.NeverTimesOut) (hb : b.Coherent)
    (m : Move b e b') : b'.Unhurried := by
  cases m with
  | refuses => exact h.of_not_mem (logged_refused b _ _ _).journal (by simp [Exchanger.noScope])
  | serves => exact h.of_not_mem (logged_served b _ _ _).journal (by simp)
  | queues => exact h.of_not_mem (journal_queue b _ _) fun _ => not_mem_opening_ended _ _ _
  | @reads c round cache => exact h.of_not_mem (logged_reads b c.id cache).journal (by simp)
  | goes _ going =>
      rcases going.logged.2 with ⟨-, hl⟩ | ⟨-, log, work, hl⟩
      · exact h.of_not_mem hl.journal (by simp)
      · exact h.of_not_mem hl.journal fun _ => work.not_mem rfl
  | @ends c e r w live closing =>
      have hc := mem_calls_of_call? live
      obtain ⟨log, farewell, hl, -⟩ := closing.logged
      refine h.of_log (hl.journal_finish r) fun pre stage post he => ?_
      obtain ⟨-, hr⟩ := eq_of_concat_eq he (farewell.not_mem_ended _)
      obtain rfl := Occurrence.ended.inj hr
      obtain ⟨limit, hlimit, hle⟩ := isDue_iff.mp (closing.due honest hb hc rfl)
      exact ⟨c.scope, limit, hlimit ▸ (hb.ledger.living c hc).started, hle⟩
  | @cancels c => exact h.of_not_mem (logged_cancelled b c.id).journal (by simp)
  | _ => exact h

/-- Nobody runs out of time too early in a run. -/
theorem run (honest : b.exchanger.mapper.NeverTimesOut) (hb : b.Coherent) (h : b.Unhurried)
    (events : List Event) : (b.run events).Unhurried := by
  have kept : (b.run events).exchanger.mapper.NeverTimesOut ∧ (b.run events).Coherent ∧
      (b.run events).Unhurried :=
    run_keeps
      (P := fun w => w.exchanger.mapper.NeverTimesOut ∧ w.Coherent ∧ w.Unhurried)
      (fun _ _ _ ⟨honest, hw, h⟩ m =>
        ⟨m.exchanger_eq ▸ honest, hw.move m, h.move honest hw m⟩) ⟨honest, hb, h⟩ events
  exact kept.2.2

end Unhurried

end Broker

end FederatedAccess
