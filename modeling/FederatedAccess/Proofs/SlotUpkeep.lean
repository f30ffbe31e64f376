import FederatedAccess.Proofs.Broker.Landing
import FederatedAccess.Proofs.Broker.Line
import FederatedAccess.Proofs.Broker.Polling
import FederatedAccess.Proofs.SharedOutcome

/-!
# Slots do not leak

A slot is stored because a call that has not ended holds it, or because a call that held it was
cancelled and so did not give it back (`Accounted`). The last holder that ends takes the slot away,
whoever left it behind before, and a sweep drops the slots that nobody holds. When no call is under
way, what is stored was left by calls that were cancelled since the last sweep.
-/

namespace FederatedAccess

/-- After so many entries of a journal, a call that had queued in a slot was cancelled. -/
inductive AbandonedAfter (n : Nat) (slot : SlotId) : List Entry → Prop
  | intro {p q m x r ticket} (queued : q.call = x.call ∧ q.what = .queued slot ticket)
      (after : n ≤ (p ++ q :: m).length) (cancelled : x.what = .cancelled) :
      AbandonedAfter n slot (p ++ q :: m ++ x :: r)

namespace AbandonedAfter

variable {n : Nat} {slot : SlotId} {j : List Entry}

theorem append (h : AbandonedAfter n slot j) (l : List Entry) : AbandonedAfter n slot (j ++ l) := by
  cases h with
  | intro queued after cancelled =>
      rw [List.append_assoc, List.cons_append]
      exact .intro queued after cancelled

theorem of_prefix (h : AbandonedAfter n slot j) {l : List Entry} (hl : j <+: l) :
    AbandonedAfter n slot l := by
  obtain ⟨rest, rfl⟩ := hl
  exact h.append rest

/-- A slot is abandoned only by a cancellation. -/
theorem exists_cancelled (h : AbandonedAfter n slot j) : ∃ x ∈ j.drop n, x.what = .cancelled := by
  cases h with
  | intro _ after cancelled =>
      rw [List.drop_append_of_le_length after]
      exact ⟨_, List.mem_append_right _ List.mem_cons_self, cancelled⟩

end AbandonedAfter

/-- What is logged stores and drops no slot. -/
theorem Slots.ids_foldl_land (log : List Occurrence) (t : Slots) :
    (log.foldl Occurrence.land t).stored.map Slot.id = t.stored.map Slot.id := by
  induction log generalizing t with
  | nil => rfl
  | cons o rest ih =>
      rw [List.foldl_cons, ih]
      cases o with
      | published slot r =>
          simp only [Occurrence.land, Slots.modify, List.map_map]
          refine List.map_congr_left fun s _ => ?_
          simp only [Function.comp_apply]
          split <;> rfl
      | _ => rfl

namespace Broker

/-- Every stored slot is held by a call that has not ended, or was abandoned after so many entries
of the journal. -/
structure Accounted (n : Nat) (b : Broker) : Prop where
  grown : n ≤ b.journal.length
  stored : ∀ s ∈ b.slots.stored,
    (∃ c ∈ b.calls, c.slot = s.id) ∨ AbandonedAfter n s.id b.journal

namespace Accounted

variable {b b' w : Broker} {c : Call} {e : Event} {n : Nat}

theorem make (config : Config) (x : Exchanger) (clock : Instant) :
    Accounted 0 (make config x clock) :=
  ⟨Nat.zero_le _, by simp [Broker.make]⟩

/-- After a sweep, calls that have not ended hold all slots that are stored. -/
theorem purge (h : b.Holding) : b.purge.Accounted b.journal.length where
  grown := Nat.le_refl _
  stored s hs := by
    obtain ⟨hs, hne⟩ := Slots.mem_prune.mp hs
    obtain ⟨i, hi⟩ := List.exists_mem_of_ne_nil _ hne
    obtain ⟨c, hc, -, hslot⟩ := h.holders s hs i hi
    exact .inl ⟨c, hc, hslot⟩

/-- A step that stores no slot and ends no call keeps the account. -/
theorem quiet (h : b.Accounted n) (journal : b.journal <+: b'.journal)
    (calls : ∀ c ∈ b.calls, ∃ d ∈ b'.calls, d.slot = c.slot)
    (slots : ∀ s ∈ b'.slots.stored, ∃ u ∈ b.slots.stored, s.id = u.id) : b'.Accounted n where
  grown := Nat.le_trans h.grown journal.length_le
  stored s hs := by
    obtain ⟨u, hu, hid⟩ := slots s hs
    rw [hid]
    rcases h.stored u hu with ⟨c, hc, hslot⟩ | habandoned
    · obtain ⟨d, hd, hdc⟩ := calls c hc
      exact .inl ⟨d, hd, hdc.trans hslot⟩
    · exact .inr (habandoned.of_prefix journal)

theorem logged {id : CallId} {log : List Occurrence} (h : b.Accounted n)
    (hl : Logged b id log b') : b'.Accounted n := by
  refine h.quiet (hl.journal ▸ List.prefix_append _ _) (fun c hc => ⟨c, hl.calls ▸ hc, rfl⟩)
    fun s hs => ?_
  have hid : s.id ∈ b.slots.stored.map Slot.id := by
    rw [← Slots.ids_foldl_land log, ← hl.slots]
    exact List.mem_map_of_mem hs
  obtain ⟨u, hu, he⟩ := List.mem_map.mp hid
  exact ⟨u, hu, he.symm⟩

/-- A call that begins holds the slot of its key, which may be new. -/
theorem queue (h : b.Accounted n) (scope : ScopeSet) (deadline : Option Nat) :
    ((b.admitCall scope deadline).joinQueue b.nextCall scope deadline).Accounted n where
  grown := by
    rw [journal_queue, List.length_append]
    exact Nat.le_add_right_of_le h.grown
  stored s hs := by
    obtain ⟨u, hu, rfl⟩ := Slots.mem_modify.mp hs
    have hid : (if u.id = ((b.admitCall scope deadline).slots.take scope.key).1.id then
        u.enter b.nextCall else u).id = u.id := by split <;> rfl
    rw [hid, journal_queue]
    rcases Slots.mem_take.mp hu with hu | rfl
    · rcases h.stored u hu with ⟨c, hc, hslot⟩ | habandoned
      · exact .inl ⟨c, List.mem_append_left _ hc, hslot⟩
      · exact .inr (habandoned.append _)
    · exact .inl ⟨_, List.mem_append_right _ List.mem_cons_self, rfl⟩

/-- A call that ends takes its slot away unless somebody else holds it. -/
theorem finish (h : b.Accounted n) (hold : b.Holding) (hc : c ∈ b.calls)
    (r : Except Failure AccessToken) : (b.finish c r).Accounted n where
  grown := by
    have journal := (Logged.refl b c.id).journal_finish r
    rw [journal, List.length_append]
    exact Nat.le_add_right_of_le h.grown
  stored s hs := by
    obtain ⟨⟨u, hu, hs⟩, hkept⟩ := Slots.mem_release.mp hs
    have hid : s.id = u.id := by
      rw [← hs]
      split <;> rfl
    have journal := (Logged.refl b c.id).journal_finish r
    rw [hid, journal]
    have held {d : Call} (hd : d ∈ b.calls) (hne : d.id ≠ c.id) (hslot : d.slot = u.id) :
        ∃ d ∈ (b.finish c r).calls, d.slot = u.id :=
      ⟨d, mem_calls_finish.mpr ⟨hd, hne⟩, hslot⟩
    rcases h.stored u hu with ⟨d, hd, hslot⟩ | habandoned
    · by_cases he : d.id = c.id
      · -- the call that ends held the slot, which is kept, so somebody else queues there
        obtain rfl := hold.eq_of_id hd hc he
        rw [if_pos hslot.symm] at hs
        subst hs
        have hkey := hold.key_of_slot hc hu hslot.symm
        obtain ⟨i, hi⟩ := List.exists_mem_of_ne_nil _ fun hnil => hkept ⟨hkey, hnil⟩
        obtain ⟨hi, hne⟩ := Slot.mem_queue_exit.mp hi
        obtain ⟨d', hd', rfl, hslot'⟩ := hold.holders u hu i hi
        exact .inl (held hd' hne hslot')
      · exact .inl (held hd he hslot)
    · exact .inr (habandoned.append _)

/-- A call that is cancelled leaves its slot behind. -/
theorem cancel (h : b.Accounted n) (hold : b.Holding) (ledger : b.Ledger) (hc : c ∈ b.calls)
    (cache : AssertionCache) :
    (({ b with slots := b.slots.abandon c.slot c.id, cache }.note c.id .cancelled).forget
      c.id).Accounted n where
  grown := by
    change n ≤ (b.journal ++ _).length
    rw [List.length_append]
    exact Nat.le_add_right_of_le h.grown
  stored s hs := by
    obtain ⟨u, hu, hid⟩ := (Slots.Under.abandon b.slots c.slot c.id).like s hs
    rw [hid.id]
    rcases h.stored u hu with ⟨d, hd, hslot⟩ | habandoned
    · by_cases he : d.id = c.id
      · obtain rfl := hold.eq_of_id hd hc he
        obtain ⟨ticket, hopening⟩ := (ledger.living d hd).starts
        have hmem : .queued d.slot ticket ∈ b.history d.id := hopening.subset (by simp [opening])
        obtain ⟨q, hq, hcall, hwhat⟩ := mem_historyOf.mp hmem
        obtain ⟨p, m, hj⟩ := List.append_of_mem hq
        have grown := h.grown
        refine .inr ?_
        change AbandonedAfter n u.id (b.journal ++ [b.entry d.id .cancelled])
        rw [hj] at grown ⊢
        exact .intro ⟨hcall, hslot ▸ hwhat⟩ grown rfl
      · exact .inl ⟨d, List.mem_filter.mpr ⟨hd, decide_eq_true he⟩, hslot⟩
    · exact .inr (habandoned.append _)

/-- Every move accounts for the slots that it leaves. -/
theorem move (h : b.Accounted n) (hold : b.Holding) (ledger : b.Ledger) (m : Move b e b') :
    b'.Accounted n := by
  have under (calls : b'.calls = b.calls) (journal : b'.journal = b.journal)
      (slots : b'.slots.Under b.slots) : b'.Accounted n := by
    refine h.quiet (journal ▸ List.prefix_rfl) (fun c hc => ⟨c, calls ▸ hc, rfl⟩) fun s hs => ?_
    obtain ⟨u, hu, hlike⟩ := slots.like s hs
    exact ⟨u, hu, hlike.id⟩
  cases m with
  | idle => exact h
  | refuses => exact h.logged (logged_refused b _ _ _)
  | serves => exact h.logged (logged_served b _ _ _)
  | queues => exact h.queue _ _
  | reads => exact h.logged (logged_reads b _ _)
  | @goes c e p w _ going =>
      obtain ⟨-, log, -, hl⟩ := going.quiet
      refine (h.logged hl).quiet List.prefix_rfl (fun d hd => ?_) fun s hs => ⟨s, hs, rfl⟩
      refine ⟨_, List.mem_map.mpr ⟨d, hd, rfl⟩, ?_⟩
      split <;> rfl
  | @ends c e r w live closing =>
      obtain ⟨log, -, hl, -⟩ := closing.logged
      obtain ⟨hw, hc, -⟩ := closing.line_eq hold (mem_calls_of_call? live)
      exact (h.logged hl).finish hw hc r
  | cancels live => exact h.cancel hold ledger (mem_calls_of_call? live) _
  | overtakes => exact under rfl rfl (.modify _ _ fun _ => ⟨rfl, rfl, rfl, rfl⟩)
  | overtakesVisit => exact under rfl rfl (.refl _)
  | invalidates => exact under rfl rfl (.refl _)
  | purges => exact under rfl rfl (.filter _ _)
  | sets => exact under rfl rfl (.refl _)
  | ticks => exact under rfl rfl (.refl _)

theorem run (h : b.Accounted n) (hb : b.Coherent) (events : List Event) :
    (b.run events).Accounted n := by
  have both : (b.run events).Coherent ∧ (b.run events).Accounted n :=
    run_keeps (P := fun w => w.Coherent ∧ w.Accounted n)
      (fun _ _ _ hw m => ⟨hw.1.move m, hw.2.move hw.1.holding hw.1.ledger m⟩) ⟨hb, h⟩ events
  exact both.2

/-- When no call is under way and none was cancelled, no slot is stored. -/
theorem stored_eq_nil (h : b.Accounted n) (calls : b.calls = [])
    (kept : ∀ x ∈ b.journal.drop n, x.what ≠ .cancelled) : b.slots.stored = [] := by
  refine List.eq_nil_iff_forall_not_mem.mpr fun s hs => ?_
  rcases h.stored s hs with ⟨c, hc, -⟩ | habandoned
  · simp [calls] at hc
  · obtain ⟨x, hx, hcancelled⟩ := habandoned.exists_cancelled
    exact kept x hx hcancelled

end Accounted

/-! ### The last holder of a slot -/

variable {b b' w : Broker} {c : Call} {e : Event}

/-- A call that is live before a step and has ended after it comes to its end in the step. -/
theorem Move.closing_of_ended (m : Move b e b') (hb : b.Coherent) (hc : c ∈ b.calls)
    {r : Except Failure AccessToken} (ended : .ended r ∈ b'.history c.id) :
    ∃ r w, Closing b c e r w ∧ b' = w.finish c r := by
  have hb' := hb.move m
  have live {d : Call} (hd : d ∈ b'.calls) (hid : d.id = c.id) : False :=
    (hb'.ledger.living d hd).not_mem_ended r (hid ▸ ended)
  by_cases actor : e.actor? b = some c.id
  · cases m.acts hb.holding hc actor with
    | stays calls => exact (live (calls ▸ hc) rfl).elim
    | cancelled journal =>
        rw [history_of_journal journal, if_pos rfl] at ended
        have hliving := (hb.ledger.living c hc).not_mem_ended r
        simp [hliving] at ended
    | advances advance =>
        cases advance with
        | reads => exact (live hc rfl).elim
        | @goes e p w going =>
            have hgoes := List.mem_map_of_mem (f := fun d : Call =>
              if d.id = c.id then { d with phase := p } else d) (going.frame.1 ▸ hc : c ∈ w.calls)
            refine (live hgoes ?_).elim
            split <;> rfl
        | ends closing => exact ⟨_, _, closing, rfl⟩
  · exact (live (((m.spared actor).calls c rfl).mpr hc) rfl).elim

/-- When a call gives back a slot that nobody else holds, the slot is gone, and none is stored under
its key. -/
theorem Holding.free_of_last (h : b.Holding) (hc : c ∈ b.calls)
    (last : ∀ d ∈ b.calls, d.slot = c.slot → d = c) (r : Except Failure AccessToken) {s : Slot}
    (hs : s ∈ (b.finish c r).slots.stored) : s.id ≠ c.slot ∧ s.key ≠ c.scope.key := by
  obtain ⟨u, hu, hlike⟩ := (Slots.Under.release b.slots c.scope.key c.slot c.id).like s hs
  have free : s.key ≠ c.scope.key := by
    intro hkey
    obtain ⟨⟨v, hv, hs⟩, hkept⟩ := Slots.mem_release.mp hs
    have hvkey : v.key = c.scope.key := by
      rw [← hkey, ← hs]
      split <;> rfl
    obtain ⟨hid, -⟩ := h.slot_of_key hc hv hvkey
    rw [if_pos hid] at hs
    subst hs
    refine hkept ⟨hkey, List.eq_nil_iff_forall_not_mem.mpr fun i hi => ?_⟩
    obtain ⟨hi, hne⟩ := Slot.mem_queue_exit.mp hi
    obtain ⟨d, hd, rfl, hslot⟩ := h.holders v hv i hi
    exact hne (congrArg Call.id (last d hd (hslot.trans hid)))
  exact ⟨fun hid => free (hlike.key.trans (h.key_of_slot hc hu (hlike.id.symm.trans hid))), free⟩

/-- Whatever comes in, a slot is stored only as long as a live call holds it or because a call that
held it was cancelled. When no call is under way, none is stored that was not abandoned since the
last sweep, and a sweep drops them all. When the last live holder of a slot ends, no slot is stored
for its key any more. -/
theorem slots_do_not_leak (config : Config) (x : Exchanger) (clock : Instant)
    (events : List Event) :
    let b := (make config x clock).run events
    (∀ s ∈ b.slots.stored, (∃ c ∈ b.calls, c.slot = s.id ∧ c.scope.key = s.key ∧ c.id ∈ s.queue) ∨
      AbandonedAfter 0 s.id b.journal) ∧
    (∀ before after, events = before ++ after →
      (before = [] ∨ ∃ start, before = start ++ [.purge]) → b.calls = [] →
      (∀ y ∈ b.journal.drop ((make config x clock).run before).journal.length,
        y.what ≠ .cancelled) → b.slots.stored = []) ∧
    (b.calls = [] → (b.step .purge).slots.stored = []) ∧
    ∀ e, ∀ c ∈ b.calls, (∀ d ∈ b.calls, d.slot = c.slot → d = c) →
      ∀ r, .ended r ∈ (b.step e).history c.id →
        ∀ s ∈ (b.step e).slots.stored, s.id ≠ c.slot ∧ s.key ≠ c.scope.key := by
  intro b
  have hmake := Coherent.make config x clock
  have hb : b.Coherent := hmake.run events
  refine ⟨?_, ?_, ?_, ?_⟩
  · intro s hs
    have accounted : b.Accounted 0 := (Accounted.make config x clock).run hmake events
    rcases accounted.stored s hs with ⟨c, hc, hslot⟩ | habandoned
    · have hkey := hb.holding.key_of_slot hc hs hslot.symm
      exact .inl ⟨c, hc, hslot, hkey.symm, (hb.holding.slot_of_key hc hs hkey).2⟩
    · exact .inr habandoned
  · intro before after he hswept calls kept
    have hbefore : ((make config x clock).run before).Coherent := hmake.run before
    have fresh : ((make config x clock).run before).Accounted
        ((make config x clock).run before).journal.length := by
      rcases hswept with rfl | ⟨start, rfl⟩
      · exact .make config x clock
      · rw [run_append]
        exact .purge (hmake.run start).holding
    refine Accounted.stored_eq_nil ?_ calls kept
    have hrun : b = ((make config x clock).run before).run after := by
      rw [← run_append, ← he]
    exact hrun ▸ fresh.run hbefore after
  · intro calls
    refine List.eq_nil_iff_forall_not_mem.mpr fun s hs => ?_
    rcases (Accounted.purge hb.holding).stored s hs with ⟨c, hc, -⟩ | habandoned
    · have hnone : c ∈ b.calls := hc
      simp [calls] at hnone
    · obtain ⟨y, hy, -⟩ := habandoned.exists_cancelled
      have hnone : y ∈ b.journal.drop b.journal.length := hy
      simp at hnone
  · intro e c hc last r ended s hs
    have m := move_step b e
    obtain ⟨r', w, closing, he⟩ := m.closing_of_ended hb hc ended
    obtain ⟨hw, hcw, -⟩ := closing.line_eq hb.holding hc
    have lastw : ∀ d ∈ w.calls, d.slot = c.slot → d = c := closing.frame.1 ▸ last
    rw [he] at hs
    exact hw.free_of_last hcw lastw r' hs

/-! ### A run in which a slot is left behind and taken up again -/

/-- A call is cancelled while it queues, and another one for the same scope set begins to read. -/
def takenUp : List Event :=
  [.start sampleScope none, .cancel 0, .start sampleScope none, .proceed 1, .proceed 1]

set_option maxRecDepth 20000 in
theorem abandoned_slot_taken_up :
    let b₀ := (make sampleConfig sampleExchanger sampleClock).run (takenUp.take 2)
    let b := (make sampleConfig sampleExchanger sampleClock).run takenUp
    let last := b.step (.readDone 1 (.error (.missing "/token")))
    (b₀.calls = [] ∧ b₀.slots.stored.map Slot.id = [0] ∧ AbandonedAfter 0 0 b₀.journal) ∧
      (b.calls.map Call.slot = [0] ∧ b.slots.stored.map Slot.id = [0]) ∧
      ∀ s ∈ last.slots.stored, s.id ≠ 0 ∧ s.key ≠ sampleScope.key := by
  intro b₀ b last
  have hb := slots_do_not_leak sampleConfig sampleExchanger sampleClock takenUp
  have hb₀ := slots_do_not_leak sampleConfig sampleExchanger sampleClock (takenUp.take 2)
  refine ⟨⟨rfl, rfl, ?_⟩, ⟨rfl, rfl⟩, fun s hs => ?_⟩
  · have hs : (⟨0, sampleScope.key, 0, none, []⟩ : Slot) ∈ b₀.slots.stored := List.mem_singleton_self _
    exact (hb₀.1 _ hs).resolve_left fun ⟨c, hc, _⟩ => List.not_mem_nil hc
  · let c : Call := ⟨1, sampleScope, 0, none, 0, .reading .first⟩
    have calls : b.calls = [c] := rfl
    have last : ∀ d ∈ b.calls, d.slot = c.slot → d = c := fun d hd _ =>
      List.mem_singleton.mp (calls ▸ hd)
    refine hb.2.2.2 _ c (calls ▸ List.mem_singleton_self c) last
      (.error (.assertion (.missing "/token"))) ?_ s hs
    exact mem_historyOf.mpr ⟨⟨0, sampleClock, 1, .ended _⟩,
      List.mem_of_getElem? (i := 11) rfl, rfl, rfl⟩

end Broker

end FederatedAccess
