import FederatedAccess.Proofs.Broker.Landing

/-!
# One refresh at a time

A call is aboard from the moment it takes its slot in order to refresh until it ends or is
cancelled. Whatever comes in, and in whatever order, no two calls for one key are aboard at a time,
and a slot that a call holds stays the one that is stored under its key.
-/

namespace FederatedAccess.Broker

/-- A call for a key has boarded, and has neither ended nor been cancelled since. -/
def Aboard (b : Broker) (id : CallId) (key : ScopeKey) : Prop :=
  (∃ scope deadline, .started scope deadline ∈ b.history id ∧ scope.key = key) ∧
    (∃ slot, .boarded slot ∈ b.history id) ∧ (∀ r, .ended r ∉ b.history id) ∧
    .cancelled ∉ b.history id

/-- The calls that are aboard are those that have left the queue of their slot. -/
theorem aboard_iff {b : Broker} {id : CallId} {key : ScopeKey} (h : b.Ledger) :
    b.Aboard id key ↔ ∃ c ∈ b.calls, c.id = id ∧ c.scope.key = key ∧ c.phase.isQueued = false := by
  constructor
  · rintro ⟨⟨scope, deadline, hstart, rfl⟩, ⟨slot, hboard⟩, hend, hcancel⟩
    by_cases hlive : ∃ c ∈ b.calls, c.id = id
    · obtain ⟨c, hc, rfl⟩ := hlive
      have hl := h.living c hc
      cases hq : c.phase.isQueued with
      | true =>
          obtain ⟨n, -, hh⟩ := hl.of_queued hq
          simp [hh, opening] at hboard
      | false =>
          exact ⟨c, hc, rfl, (hl.of_started hstart).1 ▸ rfl, hq⟩
    · have hlt : id < b.nextCall := by
        by_contra hge
        simp [h.fresh id (Nat.le_of_not_lt hge)] at hboard
      have hgone := h.gone id hlt fun c hc he => hlive ⟨c, hc, he⟩
      rcases hgone.exit with ⟨r, hr⟩ | hcancelled
      · exact absurd hr (hend r)
      · exact absurd hcancelled hcancel
  · rintro ⟨c, hc, rfl, rfl, hq⟩
    obtain ⟨n, log, hlog, hh⟩ := (h.living c hc).of_aboard hq
    refine ⟨⟨c.scope, c.deadline, (h.living c hc).started, rfl⟩, ⟨c.slot, ?_⟩,
      (h.living c hc).not_mem_ended, ?_⟩
    · simp [hh]
    · simp [hh, opening, hlog.not_mem (o := .cancelled) rfl]

/-- Calls for one key that have taken their slot are one call. -/
theorem Holding.eq_of_aboard {b : Broker} (h : b.Holding) {c d : Call} (hc : c ∈ b.calls)
    (hd : d ∈ b.calls) (hk : c.scope.key = d.scope.key) (cq : c.phase.isQueued = false)
    (dq : d.phase.isQueued = false) : c = d := by
  obtain ⟨s, hs, hid, hkey, -⟩ := h.held c hc
  have hid' := (h.slot_of_key hd hs (hkey.trans hk)).1
  have hhead := (h.taken c hc cq s hs hid).symm.trans (h.taken d hd dq s hs hid')
  exact h.eq_of_id hc hd (Option.some.inj hhead)

/-- A call holds the slot that is stored under its key. -/
theorem Holding.at?_key {b : Broker} (h : b.Holding) {c : Call} (hc : c ∈ b.calls) :
    ∃ s, b.slots.at? c.scope.key = some s ∧ s.id = c.slot ∧ c.id ∈ s.queue := by
  obtain ⟨s, hs, hid, hkey, hq⟩ := h.held c hc
  exact ⟨s, h.slots.at?_eq_some_iff.mpr ⟨hs, hkey⟩, hid, hq⟩

/-- At no time do two calls for one key refresh, and no slot is removed or replaced while a call
holds it. -/
theorem single_flight (config : Config) (x : Exchanger) (clock : Instant) (events : List Event) :
    let b := (make config x clock).run events
    (∀ i j key, b.Aboard i key → b.Aboard j key → i = j) ∧
      (∀ c ∈ b.calls, ∀ d ∈ b.calls, c.scope.key = d.scope.key →
        c.phase.isQueued = false → d.phase.isQueued = false → c = d) ∧
      (∀ c ∈ b.calls, ∃ s, b.slots.at? c.scope.key = some s ∧ s.id = c.slot ∧ c.id ∈ s.queue) ∧
      ∀ next, ∀ c ∈ b.calls, ∀ d ∈ (b.step next).calls, d.id = c.id →
        ∃ s u, b.slots.at? c.scope.key = some s ∧ c.id ∈ s.queue ∧
          (b.step next).slots.at? c.scope.key = some u ∧ c.id ∈ u.queue ∧ u.id = s.id := by
  intro b
  obtain ⟨hold, ledger, -⟩ : b.Coherent := (Coherent.make config x clock).run events
  refine ⟨?_, fun c hc d hd hk => hold.eq_of_aboard hc hd hk, fun c => hold.at?_key, ?_⟩
  · intro i j key hi hj
    obtain ⟨c, hc, rfl, hck, hcq⟩ := (aboard_iff ledger).mp hi
    obtain ⟨d, hd, rfl, hdk, hdq⟩ := (aboard_iff ledger).mp hj
    rw [hold.eq_of_aboard hc hd (hck.trans hdk.symm) hcq hdq]
  · intro next c hc d hd hid
    have hmove := move_step b next
    have hold' := hold.move hmove
    have hprefix := hmove.history c.id
    rw [← hid] at hprefix
    have hdc := (hid ▸ ledger.living c hc).eq ((ledger.move hold hmove).living d hd) hprefix
    obtain ⟨s, hs, hsid, hsq⟩ := hold.at?_key hc
    obtain ⟨u, hu, huid, huq⟩ := hold'.at?_key hd
    exact ⟨s, u, hs, hsq, hdc.1 ▸ hu, hid ▸ huq, by rw [huid, hsid, hdc.2.2]⟩

end FederatedAccess.Broker
