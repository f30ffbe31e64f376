import FederatedAccess.Proofs.Broker.Move

/-!
# What is counted

An occurrence counts as an outcome of an operation, or not at all (`Occurrence.mark?`). The tally of
a broker is that of its journal, and its totals are taken from the tally (`Reckoned`): nothing is
counted twice, and nothing in one of the two places alone.
-/

namespace FederatedAccess

/-- What an occurrence counts as. -/
def Occurrence.mark? : Occurrence → Option (Operation × Outcome)
  | .started _ _ => some (.getToken, .attempt)
  | .hit _ => some (.getToken, .cacheHit)
  | .joined _ => some (.getToken, .coalesced)
  | .ended r => some (.getToken, .ofExcept r)
  | .readBegun => some (.readAssertion, .attempt)
  | .readEnded r => some (.readAssertion, .ofExcept r)
  | .span .exchange _ => some (.exchange, .attempt)
  | .exchanged r => some (.exchange, .ofExcept r)
  | _ => none

/-- Whether an occurrence counts as an outcome of an operation. -/
def Occurrence.countsAs (operation : Operation) (outcome : Outcome) (o : Occurrence) : Bool :=
  o.mark? == some (operation, outcome)

/-- The tally of a journal. -/
def tallied (journal : List Entry) : Tally :=
  ⟨fun operation outcome => journal.countP (·.what.countsAs operation outcome)⟩

/-- The totals that a tally shows. -/
def Tally.totals (t : Tally) : Metrics where
  requests := t.count .getToken .attempt
  cacheHits := t.count .getToken .cacheHit
  coalesced := t.count .getToken .coalesced
  exchanges := t.count .exchange .attempt
  assertionReads := t.count .readAssertion .attempt
  failures := t.count .getToken .failure

/-- An entry that counts as nothing leaves the tally of a journal alone. -/
theorem tallied_concat_of_unmarked {j : List Entry} {x : Entry} (h : x.what.mark? = none) :
    tallied (j ++ [x]) = tallied j := by
  simp only [tallied, List.countP_append, List.countP_singleton, Occurrence.countsAs, h]
  simp

/-- An entry adds to the tally of a journal what it counts as. -/
theorem tallied_concat {j : List Entry} {x : Entry} {operation : Operation} {outcome : Outcome}
    (h : x.what.mark? = some (operation, outcome)) :
    tallied (j ++ [x]) = (tallied j).add operation outcome := by
  simp only [tallied, Tally.add, Tally.mk.injEq]
  funext o c
  rw [List.countP_append, List.countP_singleton, Occurrence.countsAs, h]
  by_cases he : o = operation ∧ c = outcome
  · obtain ⟨rfl, rfl⟩ := he
    simp
  · have hne : ¬ (operation = o ∧ outcome = c) := fun he' => he ⟨he'.1.symm, he'.2.symm⟩
    simp [he, hne]

namespace Broker

/-- A broker has counted what is in its journal, and its totals say the same. -/
structure Reckoned (b : Broker) : Prop where
  tally : b.tally = tallied b.journal
  metrics : b.metrics = b.tally.totals

namespace Reckoned

variable {b b' w : Broker} {c : Call} {e : Event} {id : CallId}

theorem make (config : Config) (x : Exchanger) (clock : Instant) : Reckoned (make config x clock) :=
  ⟨rfl, rfl⟩

/-- Only the journal and the counts matter. -/
theorem of_eq (h : b.Reckoned) (journal : b'.journal = b.journal) (tally : b'.tally = b.tally)
    (metrics : b'.metrics = b.metrics) : b'.Reckoned where
  tally := by rw [tally, journal, h.tally]
  metrics := by rw [metrics, tally, h.metrics]

/-- An occurrence that counts as nothing may be entered. -/
theorem note {o : Occurrence} (h : b.Reckoned) (id : CallId) (unmarked : o.mark? = none) :
    (b.note id o).Reckoned where
  tally := by
    rw [journal_note, tallied_concat_of_unmarked unmarked]
    exact h.tally
  metrics := h.metrics

/-- An occurrence is entered and counted, and the totals follow. -/
theorem mark {o : Occurrence} {operation : Operation} {outcome : Outcome} {f : Metrics → Metrics}
    (h : b.Reckoned) (marked : o.mark? = some (operation, outcome))
    (totals : f b.tally.totals = (b.tally.add operation outcome).totals) :
    (((b.note id o).count operation outcome).measure f).Reckoned where
  tally := by
    change b.tally.add operation outcome = tallied (b.journal ++ [b.entry id o])
    rw [tallied_concat (x := b.entry id o) marked, h.tally]
  metrics := by
    change f b.metrics = (b.tally.add operation outcome).totals
    rw [h.metrics, totals]

/-! ### The parts of steps -/

theorem admitCall (h : b.Reckoned) (scope : ScopeSet) (deadline : Option Nat) :
    (b.admitCall scope deadline).Reckoned := by
  have hj : (b.admitCall scope deadline).journal = b.journal ++
      [b.entry b.nextCall (.started scope deadline)] ++
      [b.entry b.nextCall (.span .getToken scope.key)] := rfl
  constructor
  · -- the span is entered after the beginning and before its count, and counts as nothing
    rw [hj, tallied_concat_of_unmarked rfl, tallied_concat rfl, ← h.tally]
    rfl
  · change { b.metrics with requests := b.metrics.requests + 1 } = _
    rw [h.metrics]
    rfl

theorem report (h : b.Reckoned) (r : Except Failure AccessToken) : (b.report id r).Reckoned := by
  cases r with
  | ok t => exact h.mark rfl rfl
  | error f => exact h.mark rfl rfl

theorem recordHit (h : b.Reckoned) (t : AccessToken) : (b.recordHit id t).Reckoned :=
  h.mark rfl rfl

theorem recordJoin (h : b.Reckoned) (r : Except Failure AccessToken) :
    (b.recordJoin id r).Reckoned :=
  h.mark rfl rfl

theorem recordExchange (h : b.Reckoned) (r : Except Failure AccessToken) :
    (b.recordExchange id r).Reckoned := by
  have counted : (((b.note id (.exchanged r)).count .exchange (.ofExcept r)).measure fun m =>
      m).Reckoned := by
    apply h.mark rfl
    cases r <;> rfl
  exact counted

theorem beginRead (h : b.Reckoned) : (b.beginRead id).Reckoned := h.mark rfl rfl

theorem beginExchange (h : b.Reckoned) : (b.beginExchange c).Reckoned := by
  have counted : (((b.note c.id (.span .exchange c.scope.key)).count .exchange .attempt).measure
      fun m => { m with exchanges := m.exchanges + 1 }).Reckoned := h.mark rfl rfl
  exact counted

theorem recordRead (h : b.Reckoned) (r : Except Failure String) :
    (b.recordRead id r).Reckoned := by
  have counted : (((b.note id (.readEnded r)).count .readAssertion (.ofExcept r)).measure fun m =>
      m).Reckoned := by
    apply h.mark rfl
    cases r <;> rfl
  unfold Broker.recordRead
  dsimp only
  split
  · exact Reckoned.note (b := (b.note id _).count .readAssertion _) counted id rfl
  · exact counted

theorem recordReply (h : b.Reckoned) (reply : Reply) (asked : Option Classification.Context) :
    (b.recordReply id reply asked).Reckoned := by
  cases asked with
  | none => exact h.note id rfl
  | some context => exact (h.note id rfl).note id rfl

theorem store (h : b.Reckoned) (t : AccessToken) : (b.store id t).Reckoned :=
  (h.note (o := .stored t) id rfl).of_eq rfl rfl rfl

theorem publish (h : b.Reckoned) (r : Except Failure AccessToken) : (b.publish c r).Reckoned :=
  (h.note (o := .published c.slot r) c.id rfl).of_eq rfl rfl rfl

theorem joinQueue (h : b.Reckoned) (scope : ScopeSet) (deadline : Option Nat) :
    (b.joinQueue id scope deadline).Reckoned :=
  (h.note (o := .queued (b.slots.take scope.key).1.id (b.slots.take scope.key).1.landed) id
    rfl).of_eq rfl rfl rfl

theorem cache (h : b.Reckoned) (cache : AssertionCache) : Reckoned { b with cache } :=
  h.of_eq rfl rfl rfl

theorem finish (h : b.Reckoned) (r : Except Failure AccessToken) : (b.finish c r).Reckoned := by
  have released : Reckoned { b with slots := b.slots.release c.scope.key c.slot c.id } :=
    h.of_eq rfl rfl rfl
  exact (released.report r).of_eq rfl rfl rfl

/-! ### Every move counts what it enters -/

theorem visited {r : Except Failure Assertion} (h : b.Reckoned) (visited : Visited b c e r w) :
    w.Reckoned := by
  cases visited with
  | fresh => exact h.cache _
  | read => exact (h.recordRead _).cache _
  | late => exact (h.recordRead _).cache _

theorem going {p : Phase} (h : b.Reckoned) (going : Going b c e p w) : w.Reckoned := by
  cases going with
  | boards =>
      have boarded : (b.note c.id (.boarded c.slot)).Reckoned := h.note c.id rfl
      exact boarded.cache _
  | sends _ visited => exact (h.visited visited).beginExchange.note c.id rfl
  | rereads =>
      apply cache
      apply note
      · exact (h.recordReply _ _).recordExchange _
      · rfl

theorem refreshed {r : Except Failure AccessToken} (h : b.Reckoned)
    (refreshed : Refreshed b c e r w) : w.Reckoned := by
  cases refreshed with
  | unserved => exact h.cache _
  | cutOff => exact h.note c.id rfl
  | unread _ visited => exact h.visited visited
  | unsent _ visited => exact (h.visited visited).beginExchange.recordExchange _
  | granted => exact ((h.recordReply _ _).recordExchange _).store _
  | refused => exact (h.recordReply _ _).recordExchange _

theorem closing {r : Except Failure AccessToken} (h : b.Reckoned) (closing : Closing b c e r w) :
    w.Reckoned := by
  cases closing with
  | joins => exact h.recordJoin _
  | hits =>
      have boarded : (b.note c.id (.boarded c.slot)).Reckoned := h.note c.id rfl
      exact boarded.recordHit _
  | lapses => exact h
  | unpublished refreshed => exact h.refreshed refreshed
  | published refreshed => exact (h.refreshed refreshed).publish r

theorem move (h : b.Reckoned) (m : Move b e b') : b'.Reckoned := by
  cases m with
  | idle => exact h
  | refuses => exact (h.admitCall _ _).report _
  | serves => exact ((h.admitCall _ _).recordHit _).report _
  | queues => exact (h.admitCall _ _).joinQueue _ _
  | reads => exact (h.cache _).beginRead
  | goes _ going => exact (h.going going).of_eq rfl rfl rfl
  | ends _ closing => exact (h.closing closing).finish _
  | @cancels c =>
      have cancelled : (b.note c.id .cancelled).Reckoned := h.note c.id rfl
      exact cancelled.of_eq rfl rfl rfl
  | overtakes => exact h.of_eq rfl rfl rfl
  | overtakesVisit => exact h.of_eq rfl rfl rfl
  | invalidates => exact h.of_eq rfl rfl rfl
  | purges => exact h.of_eq rfl rfl rfl
  | sets => exact h.of_eq rfl rfl rfl
  | ticks => exact h.of_eq rfl rfl rfl

/-- The counts are those of the journal after every run. -/
theorem run (h : b.Reckoned) (events : List Event) : (b.run events).Reckoned :=
  run_keeps (fun _ _ _ => move) h events

end Reckoned

end Broker

end FederatedAccess
