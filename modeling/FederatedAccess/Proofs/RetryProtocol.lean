import FederatedAccess.Proofs.Broker.Reached

/-!
# Reading and exchanging at most twice

Whatever the source of the assertion and the token endpoint do, a call that refreshes does one of
four things: it gets no assertion, or exchanges one, or is refused once and cannot read the
assertion anew, or exchanges the text that it has just read anew and takes what comes of that. Its
result is that of the last thing it does. Calls that take a stored token or share an outcome neither
read nor exchange.
-/

namespace FederatedAccess.Broker

/-- A call that refreshes follows one of four courses, and its result is that of the last thing it
does. A call that does not refresh neither reads nor exchanges, and no call does so more than
twice. -/
theorem refresh_follows_protocol (config : Config) (x : Exchanger) (clock : Instant)
    (assertion : Option Assertion) (events : List Event) (pre post : List Entry) (e : Entry)
    (r : Except Failure AccessToken)
    (journal : (({ make config x clock with
      cache := ⟨config.ttl, assertion, []⟩ } : Broker).run events).journal = pre ++ e :: post)
    (ended : e.what = .ended r) :
    ((∃ slot, .boarded slot ∈ historyOf pre e.call) → (∀ t, .hit t ∉ historyOf pre e.call) →
      ∃ scope deadline slot n log, historyOf pre e.call =
          [.started scope deadline, .span .getToken scope.key, .queued slot n, .boarded slot] ++
            (log ++ settled r ++ announced slot r) ∧
        Refreshing x scope log r) ∧
    ((∃ t, .hit t ∈ historyOf pre e.call) ∨ (∃ o, .joined o ∈ historyOf pre e.call) ∨
        (∀ slot, .boarded slot ∉ historyOf pre e.call) →
      ∀ o ∈ historyOf pre e.call, o.isWork = true → ∃ key, o = .span .getToken key) ∧
    ∀ i, (historyOf (pre ++ e :: post) i).countP (·.isRead) ≤ 2 ∧
      (historyOf (pre ++ e :: post) i).countP (·.isExchange) ≤ 2 := by
  have course := ((Reached.stocked config x clock assertion).run events).course
  have completed := course.ended pre e post journal r ended
  rw [exchanger_run] at completed
  generalize historyOf pre e.call = h at completed ⊢
  refine ⟨fun ⟨slot, hslot⟩ hmiss => ?_, fun hunled => ?_, fun i => ?_⟩
  · cases completed with
    | @led c n log _ refreshing =>
        exact ⟨c.scope, c.deadline, c.slot, n, log, by simp [opening], refreshing⟩
    | idle _ unled =>
        obtain ⟨t, ht⟩ := unled slot hslot
        exact absurd ht (hmiss t)
  · cases completed with
    | @led c n log _ refreshing =>
        have work := refreshing.isWork
        exfalso
        rcases hunled with ⟨t, ht⟩ | ⟨o, ho⟩ | hnone
        · simp [opening, work.not_mem (o := .hit t) rfl] at ht
        · simp [opening, work.not_mem (o := .joined o) rfl] at ho
        · exact hnone c.slot (by simp)
    | idle none => exact none
  · have modest := course.modest i
    rw [history, journal] at modest
    exact ⟨modest.reads, modest.exchanges⟩

/-! ### A run in which an assertion is refused twice -/

/-- A directory that blames the assertion for everything. -/
def strictExchanger : Exchanger := { sampleExchanger with classifier := fun _ => .invalidAssertion }

/-- A refresh whose assertion is refused, and refused again after it was read anew. -/
def refusedRefresh : List Event :=
  [.start sampleScope none, .proceed 0, .proceed 0, .readDone 0 (.ok "old"),
    .replied 0 ⟨.error (.network "refused"), none⟩, .proceed 0, .readDone 0 (.ok "new"),
    .replied 0 ⟨.error (.network "refused"), none⟩]

set_option maxRecDepth 20000 in
theorem refused_twice_follows_protocol :
    let b := (make sampleConfig strictExchanger sampleClock).run refusedRefresh
    let r : Except Failure AccessToken := .error (.exchange (.invalidAssertion "refused"))
    ∃ pre e log, b.journal = pre ++ [e] ∧ e.what = .ended r ∧
      (historyOf pre 0).countP (·.isRead) = 2 ∧ (historyOf pre 0).countP (·.isExchange) = 2 ∧
      Refreshing strictExchanger sampleScope log r := by
  intro b r
  have hj : b.journal = b.journal.dropLast ++ [⟨0, sampleClock, 0, .ended r⟩] := rfl
  have hboarded : (historyOf b.journal.dropLast 0)[3]? = some (.boarded 0) := rfl
  have hmiss : ((historyOf b.journal.dropLast 0).all fun
      | .hit _ => false
      | _ => true) = true := rfl
  have hprotocol := refresh_follows_protocol sampleConfig strictExchanger sampleClock none
    refusedRefresh b.journal.dropLast [] _ r hj rfl
  obtain ⟨scope, deadline, slot, n, log, hh, refreshing⟩ := hprotocol.1
    ⟨0, List.mem_of_getElem? hboarded⟩ fun t ht => by cases List.all_eq_true.mp hmiss _ ht
  have hstarted : (historyOf b.journal.dropLast 0).head? = some (.started sampleScope none) := rfl
  obtain rfl : scope = sampleScope := by
    rw [show historyOf b.journal.dropLast 0 = _ from hh] at hstarted
    exact (Occurrence.started.inj (Option.some.inj hstarted)).1
  exact ⟨_, _, log, hj, rfl, rfl, rfl, refreshing⟩

end FederatedAccess.Broker
