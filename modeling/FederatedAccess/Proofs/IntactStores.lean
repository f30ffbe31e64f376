import FederatedAccess.Proofs.Broker.Arrivals
import FederatedAccess.Proofs.Broker.Stores
import FederatedAccess.Proofs.SharedOutcome

/-!
# What failed calls leave behind

A call that fails or is cancelled never touches the stored tokens, in whichever of its steps it
comes to its end, and all that any call does to the stored assertion is to replace it by a text that
it has just read. A refresh that succeeds stores one token, under the key of the scope set that the
call asked for.
-/

namespace FederatedAccess.Broker

/-- No step of a call that fails or is cancelled changes the stored tokens. A step of a call changes
the stored assertion only when it ends a read, and then what was read is stored. A refresh that
succeeds changes the stored tokens when it ends, and only at the key of its scope set. -/
theorem failures_leave_stores (config : Config) (x : Exchanger) (clock : Instant)
    (before after : List Event) (e : Event) (id : CallId)
    (actor : e.actor? ((make config x clock).run before) = some id) :
    let b := (make config x clock).run before
    let b' := b.step e
    let h := (b'.run after).history id
    ((∃ f, .ended (.error f) ∈ h) ∨ .cancelled ∈ h → b'.tokens = b.tokens) ∧
    (b'.cache.stored = b.cache.stored ∨ ∃ text now, e = .readDone id (.ok text) ∧
      .readEnded (.ok text) ∈ added b b' id ∧ b'.cache.stored = some ⟨⟨text⟩, now⟩) ∧
    ∀ scope deadline t, .started scope deadline ∈ h → (∃ slot, .boarded slot ∈ h) →
      (∀ u, .hit u ∉ h) → .ended (.ok t) ∈ h →
      (.ended (.ok t) ∉ added b b' id → b'.tokens = b.tokens) ∧
      (.ended (.ok t) ∈ added b b' id → t.scope = scope ∧ b'.tokens = b.tokens.put t ∧
        ∀ k, b'.tokens.find? k = if k = scope.key then some t else b.tokens.find? k) := by
  intro b b' h
  have hb : b.Coherent := (Coherent.make config x clock).run before
  have moved : Move b e b' := move_step b e
  have ledger : (b'.run after).Ledger := ((hb.move moved).run after).ledger
  have hgrown : b'.history id <+: h := (after_run b' after).history id
  have hadded {o : Occurrence} (ho : o ∈ added b b' id) : o ∈ b'.history id :=
    List.mem_of_mem_drop ho
  refine ⟨fun hfail => ?_, moved.deposits actor, fun scope deadline t hs hboarded hmiss ht => ?_⟩
  · cases moved.settles hb actor with
    | none tokens => exact tokens
    | @stores c t _ _ _ _ ended =>
        have ht : .ended (.ok t) ∈ h := hgrown.subset (hadded ((ended _).mpr rfl))
        rcases hfail with ⟨f, hf⟩ | hcancelled
        · cases ledger.ended_eq ht hf
        · exact absurd hcancelled (ledger.not_cancelled ht)
  · cases moved.settles hb actor with
    | none tokens unled =>
        refine ⟨fun _ => tokens, fun hends => ?_⟩
        -- the call has ended, so that it has boarded before if it has boarded at all
        have hwhole : b'.history id = h := ledger.eq_of_ended hgrown (hadded hends)
        obtain ⟨slot, hslot⟩ := hboarded
        obtain ⟨u, hu⟩ := unled t hends slot (hwhole ▸ hslot)
        exact absurd (hgrown.subset hu) (hmiss u)
    | @stores c u live own hscope tokens ended =>
        obtain rfl : u = t := by
          have hu : .ended (.ok u) ∈ h := hgrown.subset (hadded ((ended _).mpr rfl))
          exact Except.ok.inj (ledger.ended_eq hu ht)
        have hstarted : .started c.scope c.deadline ∈ h := by
          have hmem := (hb.ledger.living c live).started
          rw [own] at hmem
          exact hgrown.subset ((moved.history id).subset hmem)
        obtain rfl : scope = c.scope := (ledger.started_eq hs hstarted).1
        refine ⟨fun hstays => absurd ((ended _).mpr rfl) hstays, fun _ => ⟨hscope, tokens, ?_⟩⟩
        intro k
        rw [tokens, TokenStore.find?_put, hscope]

/-! ### A run in which a text is stored and no token -/

/-- A refresh that waits for the source of the assertion. -/
def expectant : Broker :=
  (make sampleConfig sampleExchanger sampleClock).run
    [.start sampleScope none, .proceed 0, .proceed 0]

/-- The same refresh after the source has answered. -/
def supplied : Broker := expectant.step (.readDone 0 (.ok "assertion"))

/-- The connection to the token endpoint is lost. -/
def lostReply : Reply := ⟨.error (.io "reset"), none⟩

set_option maxRecDepth 20000 in
theorem lost_reply_leaves_tokens :
    let r : Except Failure AccessToken := .error (.exchange (.transient (.io "reset")))
    .ended r ∈ (supplied.run [.replied 0 lostReply]).history 0 ∧
      supplied.tokens = expectant.tokens ∧ expectant.cache.stored = none ∧
      ∃ now, supplied.cache.stored = some ⟨⟨"assertion"⟩, now⟩ := by
  intro r
  have hj : (supplied.run [.replied 0 lostReply]).journal =
      (supplied.run [.replied 0 lostReply]).journal.dropLast ++ [⟨0, sampleClock, 0, .ended r⟩] :=
    rfl
  have hended : .ended r ∈ (supplied.run [.replied 0 lostReply]).history 0 := by
    rw [history, hj, historyOf_append]
    exact List.mem_append_right _ List.mem_cons_self
  have hintact := failures_leave_stores sampleConfig sampleExchanger sampleClock
    [.start sampleScope none, .proceed 0, .proceed 0] [.replied 0 lostReply]
    (.readDone 0 (.ok "assertion")) 0 rfl
  have hnone : expectant.cache.stored = none := rfl
  have hsome : supplied.cache.stored.isSome = true := rfl
  have hstored : supplied.cache.stored ≠ expectant.cache.stored := by
    intro he
    rw [he, hnone] at hsome
    cases hsome
  obtain ⟨text, now, hevent, -, hnow⟩ := hintact.2.1.resolve_left hstored
  obtain rfl : "assertion" = text := by
    simpa using hevent
  exact ⟨hended, hintact.1 (.inl ⟨_, hended⟩), hnone, now, hnow⟩

end FederatedAccess.Broker
