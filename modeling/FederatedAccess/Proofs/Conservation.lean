import FederatedAccess.Proofs.Broker.Arrivals
import FederatedAccess.Proofs.Broker.Balance
import FederatedAccess.Proofs.Broker.Resolution

/-!
# What the counters say

A broker counts in two places, and both say the same at any time. When no call is left and none was
cancelled, the counters add up: every call is in one of five groups, and what was begun was brought
to an end.
-/

namespace FederatedAccess.Broker

variable {b : Broker} {ids : List CallId} {f : CallId → List Occurrence} {p : Occurrence → Bool}

/-! ### Counting calls -/

/-- The histories of all calls that have begun. -/
def histories (b : Broker) : List Occurrence := (List.range b.nextCall).flatMap b.history

/-- The calls that went a way. -/
def taken (b : Broker) (way : Way) : Nat :=
  (List.range b.nextCall).countP fun i => way.takes (b.history i)

/-- The journal holds what happened to the calls that have begun, and nothing else. -/
theorem Ledger.countP_journal (ledger : b.Ledger) (p : Occurrence → Bool) :
    b.journal.countP (fun x => p x.what) = b.histories.countP p := by
  have none : b.journal.countP
      (fun x => p x.what && !(List.range b.nextCall).contains x.call) = 0 := by
    apply List.countP_eq_zero.mpr
    intro x hx hpx
    have hmem : x.what ∈ b.history x.call := mem_historyOf.mpr ⟨x, hx, rfl, rfl⟩
    simp only [Bool.and_eq_true, Bool.not_eq_true', List.contains_eq_mem, List.mem_range,
      decide_eq_false_iff_not, Nat.not_lt] at hpx
    simp [ledger.fresh x.call hpx.2] at hmem
  calc
    b.journal.countP (fun x => p x.what)
      = ((List.range b.nextCall).flatMap (historyOf b.journal)).countP p +
          b.journal.countP (fun x => p x.what && !(List.range b.nextCall).contains x.call) :=
        countP_calls p b.journal List.nodup_range
    _ = b.histories.countP p := by rw [none]; rfl

/-- What happens to each call once at most happens as often as there are calls to which it does. -/
theorem countP_flatMap_of_once (once : ∀ i ∈ ids, (f i).countP p ≤ 1) :
    (ids.flatMap f).countP p = ids.countP fun i => (f i).any p := by
  induction ids with
  | nil => rfl
  | cons i rest ih =>
      have hfirst : (f i).countP p = if (f i).any p then 1 else 0 := by
        split
        · rename_i hany
          have hpos : 0 < (f i).countP p := by
            obtain ⟨o, ho, hpo⟩ := List.any_eq_true.mp hany
            exact List.countP_pos_iff.mpr ⟨o, ho, hpo⟩
          have hle := once i List.mem_cons_self
          omega
        · rename_i hany
          exact List.countP_eq_zero.mpr fun o ho hpo => hany (List.any_eq_true.mpr ⟨o, ho, hpo⟩)
      rw [List.flatMap_cons, List.countP_append, List.countP_cons, hfirst,
        ih fun j hj => once j (List.mem_cons_of_mem _ hj), Nat.add_comm]

/-- Where every call goes one way, the calls are those that went the several ways. -/
theorem length_eq_taken (ways : ∀ i ∈ ids, ∃! way : Way, way.takes (f i) = true) :
    ids.length = (ids.countP fun i => Way.hit.takes (f i)) +
      (ids.countP fun i => Way.coalesced.takes (f i)) + (ids.countP fun i => Way.led.takes (f i)) +
      (ids.countP fun i => Way.refused.takes (f i)) +
      ids.countP fun i => Way.lapsed.takes (f i) := by
  induction ids with
  | nil => rfl
  | cons i rest ih =>
      obtain ⟨way, hway, only⟩ := ways i List.mem_cons_self
      have others (other : Way) : other.takes (f i) = decide (other = way) := by
        by_cases he : other = way
        · subst he
          rw [hway, decide_eq_true rfl]
        · rw [decide_eq_false he]
          exact Bool.eq_false_iff.mpr fun htakes => he (only other htakes)
      have hrest := ih fun j hj => ways j (List.mem_cons_of_mem _ hj)
      simp only [List.countP_cons, List.length_cons, others, hrest]
      cases way <;> simp <;> omega

/-- What is under way in all calls together is under way in some of them. -/
theorem net_flatMap_nonneg {operation : Operation} (h : ∀ i ∈ ids, 0 ≤ net operation (f i)) :
    0 ≤ net operation (ids.flatMap f) := by
  induction ids with
  | nil => exact Int.le_refl 0
  | cons i rest ih =>
      have hfirst := h i List.mem_cons_self
      have hrest := ih fun j hj => h j (List.mem_cons_of_mem _ hj)
      rw [List.flatMap_cons, net_append]
      omega

theorem net_flatMap_eq_zero {operation : Operation} (h : ∀ i ∈ ids, net operation (f i) = 0) :
    net operation (ids.flatMap f) = 0 := by
  induction ids with
  | nil => rfl
  | cons i rest ih =>
      rw [List.flatMap_cons, net_append, h i List.mem_cons_self,
        ih fun j hj => h j (List.mem_cons_of_mem _ hj)]
      rfl

/-! ### What the counts are -/

/-- What counts as an outcome of a call. -/
theorem countsAs_getToken (o : Occurrence) :
    o.countsAs .getToken .attempt = o.isStarted ∧ o.countsAs .getToken .cacheHit = o.isHit ∧
      o.countsAs .getToken .coalesced = o.isJoined ∧
      o.countsAs .getToken .failure = o.isFailure := by
  cases o with
  | span operation => cases operation <;> exact ⟨rfl, rfl, rfl, rfl⟩
  | ended r => cases r <;> exact ⟨rfl, rfl, rfl, rfl⟩
  | readEnded r => cases r <;> exact ⟨rfl, rfl, rfl, rfl⟩
  | exchanged r => cases r <;> exact ⟨rfl, rfl, rfl, rfl⟩
  | _ => exact ⟨rfl, rfl, rfl, rfl⟩

/-- What is counted is what happened to the calls. -/
theorem Reckoned.count_eq (reckoned : b.Reckoned) (ledger : b.Ledger) (operation : Operation)
    (outcome : Outcome) :
    b.tally.count operation outcome = b.histories.countP (·.countsAs operation outcome) := by
  rw [reckoned.tally]
  exact ledger.countP_journal _

/-- The totals that are about calls are what happened to them. -/
theorem Reckoned.totals_eq (reckoned : b.Reckoned) (ledger : b.Ledger) :
    b.metrics.requests = b.histories.countP (·.isStarted) ∧
      b.metrics.cacheHits = b.histories.countP (·.isHit) ∧
      b.metrics.coalesced = b.histories.countP (·.isJoined) ∧
      b.metrics.failures = b.histories.countP (·.isFailure) := by
  have total {outcome : Outcome} {p : Occurrence → Bool}
      (hp : ∀ o : Occurrence, o.countsAs .getToken outcome = p o) :
      b.tally.count .getToken outcome = b.histories.countP p := by
    rw [reckoned.count_eq ledger, funext hp]
  rw [reckoned.metrics]
  exact ⟨total fun o => (countsAs_getToken o).1, total fun o => (countsAs_getToken o).2.1,
    total fun o => (countsAs_getToken o).2.2.1, total fun o => (countsAs_getToken o).2.2.2⟩

/-- What has begun has succeeded, has failed, was cut off or is under way. -/
theorem Reckoned.balance (reckoned : b.Reckoned) (ledger : b.Ledger) (operation : Operation) :
    net operation b.histories + b.tally.count operation .success +
        b.tally.count operation .failure + b.journal.countP (·.what.cutsOff operation) =
      b.tally.count operation .attempt := by
  rw [reckoned.count_eq ledger, reckoned.count_eq ledger, reckoned.count_eq ledger,
    ledger.countP_journal (·.cutsOff operation)]
  exact net_add operation b.histories

/-- What the counters of a broker add up to when all calls have ended. -/
structure Conserved (b : Broker) : Prop where
  ways : ∀ i < b.nextCall, ∃! way : Way, way.takes (b.history i) = true
  begun : b.metrics.requests = b.nextCall
  requests : b.metrics.requests =
    b.metrics.cacheHits + b.metrics.coalesced + b.taken .led + b.taken .refused + b.taken .lapsed
  cacheHits : b.metrics.cacheHits = b.taken .hit
  coalesced : b.metrics.coalesced = b.taken .coalesced
  failures : b.metrics.failures =
    (List.range b.nextCall).countP fun i => (b.history i).any (·.isFailure)
  calls : b.tally.count .getToken .success + b.tally.count .getToken .failure =
    b.tally.count .getToken .attempt
  reads : b.tally.count .readAssertion .success + b.tally.count .readAssertion .failure =
    b.tally.count .readAssertion .attempt
  exchanges : b.tally.count .exchange .success + b.tally.count .exchange .failure +
    b.journal.countP (·.what.cutsOff .exchange) = b.tally.count .exchange .attempt

/-- Where every call has ended, the counters add up. -/
theorem Conserved.of_ended (reached : b.Reached) (resolution : b.Resolution)
    (reckoned : b.Reckoned)
    (ended : ∀ i < b.nextCall, ∃ r, .ended r ∈ b.history i) : b.Conserved := by
  have ledger := reached.coherent.ledger
  have resolved {i : CallId} (hi : i ∈ List.range b.nextCall) :
      ∃ pre r, b.history i = pre ++ [.ended r] ∧ Resolved pre r ∧ Departed pre r := by
    obtain ⟨r, hr⟩ := ended i (List.mem_range.mp hi)
    obtain ⟨pre, y, post, hj, rfl, hwhat, hwhole⟩ := ledger.split_of_ended hr
    exact ⟨_, r, hwhole, resolution.ended pre y post hj r hwhat,
      ledger.departed pre y post hj r hwhat⟩
  have ways : ∀ i ∈ List.range b.nextCall, ∃! way : Way, way.takes (b.history i) = true := by
    intro i hi
    obtain ⟨pre, r, hwhole, hresolved, -⟩ := resolved hi
    rw [hwhole]
    exact hresolved.way
  have once : ∀ i ∈ List.range b.nextCall,
      (b.history i).countP (·.isHit) ≤ 1 ∧ (b.history i).countP (·.isJoined) ≤ 1 := by
    intro i hi
    obtain ⟨pre, r, hwhole, hresolved, -⟩ := resolved hi
    rw [hwhole]
    exact hresolved.once
  have begunOnce : ∀ i ∈ List.range b.nextCall, (b.history i).countP (·.isStarted) = 1 := by
    intro i hi
    obtain ⟨pre, r, hwhole, -, departed⟩ := resolved hi
    rw [hwhole, List.countP_append, departed.countP_isStarted]
    rfl
  have failedOnce : ∀ i ∈ List.range b.nextCall, (b.history i).countP (·.isFailure) ≤ 1 := by
    intro i hi
    obtain ⟨pre, r, hwhole, -, departed⟩ := resolved hi
    have hpre : pre.countP (·.isFailure) = 0 := by
      apply List.countP_eq_zero.mpr
      intro o ho hfailure
      cases o with
      | ended r' => exact departed.not_mem_ended r' ho
      | _ => cases hfailure
    rw [hwhole, List.countP_append, hpre, Nat.zero_add]
    exact List.countP_le_length
  obtain ⟨requests, hits, joins, failures⟩ := reckoned.totals_eq ledger
  have begun : b.metrics.requests = b.nextCall := by
    rw [requests, histories, List.countP_flatMap, Function.comp_def,
      List.map_congr_left begunOnce]
    simp
  have cacheHits : b.metrics.cacheHits = b.taken .hit :=
    hits.trans (countP_flatMap_of_once fun i hi => (once i hi).1)
  have coalesced : b.metrics.coalesced = b.taken .coalesced :=
    joins.trans (countP_flatMap_of_once fun i hi => (once i hi).2)
  have net (operation : Operation) : net operation b.histories = 0 := by
    apply net_flatMap_eq_zero
    intro i hi
    obtain ⟨r, hr⟩ := ended i (List.mem_range.mp hi)
    exact reached.net_of_ended hr
  have balance (operation : Operation) := reckoned.balance ledger operation
  have uncut {operation : Operation} (own : operation ≠ .exchange) :
      b.journal.countP (·.what.cutsOff operation) = 0 := by
    apply List.countP_eq_zero.mpr
    intro x _
    cases operation with
    | exchange => exact absurd rfl own
    | _ => exact Bool.false_ne_true
  refine ⟨fun i hi => ways i (List.mem_range.mpr hi), begun, ?_, cacheHits, coalesced, ?_, ?_, ?_,
    ?_⟩
  · have hlength := length_eq_taken ways
    rw [List.length_range] at hlength
    rw [begun, cacheHits, coalesced, hlength]
    rfl
  · exact failures.trans (countP_flatMap_of_once failedOnce)
  · have hcalls := balance .getToken
    rw [net, uncut (by decide)] at hcalls
    omega
  · have hreads := balance .readAssertion
    rw [net, uncut (by decide)] at hreads
    omega
  · have hexchanges := balance .exchange
    rw [net] at hexchanges
    omega

/-- The totals are those of the tally, and no operation has succeeded, failed or been cut off more
often than it has begun, whoever was cancelled. Where no call is left and none was cancelled, every
call was counted in one of five groups, failures are the calls that failed, and every operation
that has begun has succeeded, has failed or, if it is an exchange, was cut off. -/
theorem counters_conserved (config : Config) (x : Exchanger) (clock : Instant)
    (events : List Event) (b : Broker) (run : (make config x clock).run events = b) :
    b.metrics = b.tally.totals ∧
    (∀ operation, b.tally.count operation .success + b.tally.count operation .failure +
      b.journal.countP (·.what.cutsOff operation) ≤ b.tally.count operation .attempt) ∧
    (b.calls = [] → (∀ i, .cancelled ∉ b.history i) → b.Conserved) := by
  have hmake := Reached.make config x clock
  have reached : b.Reached := run ▸ hmake.run events
  have reckoned : b.Reckoned := run ▸ (Reckoned.make config x clock).run events
  have solvent : b.Solvent := run ▸ (Solvent.make config x clock).run hmake events
  have resolution : b.Resolution :=
    run ▸ (Resolution.make config x clock).run hmake.coherent events
  have ledger := reached.coherent.ledger
  refine ⟨reckoned.metrics, fun operation => ?_, fun idle uncancelled => ?_⟩
  · have hbalance := reckoned.balance ledger operation
    have hnet : 0 ≤ net operation b.histories := net_flatMap_nonneg fun i _ => solvent operation i
    omega
  · refine .of_ended reached resolution reckoned fun i hi => ?_
    have hgone := ledger.gone i hi fun c hc => by simp [idle] at hc
    exact hgone.exit.resolve_right (uncancelled i)

/-! ### A run in which calls go all ways -/

/-- One call asks for nothing. Of three that queue, one is granted a token, one runs out of time and
one shares the token; a last one finds it in the store. -/
def manyWays : List Event :=
  [.start .empty none, .start sampleScope none, .proceed 1, .proceed 1,
    .start sampleScope none, .start sampleScope (some 5), .tick 5, .expire 3,
    .readDone 1 (.ok "assertion"), .replied 1 sampleReply, .proceed 2, .start sampleScope none]

theorem many_ways_conserved :
    ∃ b, (make sampleConfig sampleExchanger sampleClock).run manyWays = b ∧ b.Conserved ∧
      b.metrics = ⟨5, 1, 1, 1, 1, 2⟩ ∧ b.taken .led = 1 ∧ b.taken .refused = 1 ∧
      b.taken .lapsed = 1 := by
  have outcome : let b := (make sampleConfig sampleExchanger sampleClock).run manyWays
      b.calls.isEmpty = true ∧ b.metrics = ⟨5, 1, 1, 1, 1, 2⟩ ∧ b.taken .led = 1 ∧
        b.taken .refused = 1 ∧ b.taken .lapsed = 1 := by decide +kernel
  refine ⟨_, rfl, ?_, outcome.2⟩
  apply (counters_conserved sampleConfig sampleExchanger sampleClock manyWays _ rfl).2.2
  · exact List.isEmpty_iff.mp outcome.1
  · apply not_cancelled_of_events
    · simp [manyWays]
    · simp [history, historyOf, make]

end FederatedAccess.Broker
