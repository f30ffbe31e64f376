import FederatedAccess.Proofs.Broker.Move
import FederatedAccess.Proofs.Broker.Slots

/-!
# One refresh at a time

`Holding` relates the calls of a broker to its slots: every call stands in the queue of the slot
that is stored under its key, every entry of a queue is such a call, and a call that has taken its
slot is the first in the queue. Every move keeps this, whichever call ends, is cancelled, overtakes
or is swept, so that at no time two calls for one key refresh.
-/

namespace FederatedAccess.Broker

/-- The calls of a broker and the queues of its slots agree. -/
structure Holding (b : Broker) : Prop where
  slots : b.slots.WellFormed
  ids : (b.calls.map Call.id).Nodup
  fresh : ∀ c ∈ b.calls, c.id < b.nextCall
  held : ∀ c ∈ b.calls, ∃ s ∈ b.slots.stored,
    s.id = c.slot ∧ s.key = c.scope.key ∧ c.id ∈ s.queue
  holders : ∀ s ∈ b.slots.stored, ∀ i ∈ s.queue, ∃ c ∈ b.calls, c.id = i ∧ c.slot = s.id
  taken : ∀ c ∈ b.calls, c.phase.isQueued = false →
    ∀ s ∈ b.slots.stored, s.id = c.slot → s.queue.head? = some c.id

namespace Holding

variable {b : Broker} {c d : Call}

theorem make (config : Config) (e : Exchanger) (clock : Instant) : Holding (make config e clock) :=
  ⟨Slots.WellFormed.empty, List.nodup_nil, by simp [Broker.make], by simp [Broker.make],
    by simp [Broker.make], by simp [Broker.make]⟩

/-- Only calls, slots and the number of the next call matter. -/
theorem of_eq {b' : Broker} (h : b.Holding) (calls : b'.calls = b.calls)
    (slots : b'.slots = b.slots) (next : b.nextCall ≤ b'.nextCall) : b'.Holding := by
  refine ⟨?_, ?_, ?_, ?_, ?_, ?_⟩
  · exact slots ▸ h.slots
  · exact calls ▸ h.ids
  · rw [calls]; exact fun c hc => Nat.lt_of_lt_of_le (h.fresh c hc) next
  · rw [calls, slots]; exact h.held
  · rw [calls, slots]; exact h.holders
  · rw [calls, slots]; exact h.taken

theorem eq_of_id (h : b.Holding) (hc : c ∈ b.calls) (hd : d ∈ b.calls) (he : c.id = d.id) : c = d :=
  List.inj_on_of_nodup_map h.ids hc hd he

/-- A call that goes on is in the phase that it has entered. -/
theorem of_mem_enter {w : Broker} {p : Phase} (h : b.Holding) (hc : c ∈ b.calls)
    (calls : w.calls = b.calls) (hd : d ∈ (w.enter c.id p).calls) (hid : d.id = c.id) :
    d = { c with phase := p } := by
  obtain ⟨u, hu, rfl⟩ := List.mem_map.mp hd
  have huid : u.id = c.id := by split at hid <;> exact hid
  obtain rfl := h.eq_of_id (calls ▸ hu) hc huid
  exact if_pos rfl

theorem call?_eq_some_iff (h : b.Holding) {id : CallId} :
    b.call? id = some c ↔ c ∈ b.calls ∧ c.id = id :=
  find?_key_eq_some_iff h.ids

/-- A call holds the slot that is stored under its key. -/
theorem slot_of_key (h : b.Holding) {s : Slot} (hc : c ∈ b.calls) (hs : s ∈ b.slots.stored)
    (hk : s.key = c.scope.key) : s.id = c.slot ∧ c.id ∈ s.queue := by
  obtain ⟨u, hu, hid, hkey, hq⟩ := h.held c hc
  obtain rfl : s = u := h.slots.eq_of_key hs hu (hk.trans hkey.symm)
  exact ⟨hid, hq⟩

/-- The slot that a call holds is stored under its key. -/
theorem key_of_slot (h : b.Holding) {s : Slot} (hc : c ∈ b.calls) (hs : s ∈ b.slots.stored)
    (hid : s.id = c.slot) : s.key = c.scope.key := by
  obtain ⟨u, hu, huid, hkey, -⟩ := h.held c hc
  rw [h.slots.eq_of_id hs hu (hid.trans huid.symm), hkey]

/-- Slots that nobody holds may be swept. -/
theorem sweep (h : b.Holding) (p : Slot → Bool) (hp : ∀ s, s.queue ≠ [] → p s = true) :
    Holding { b with slots := { b.slots with stored := b.slots.stored.filter p } } where
  slots := h.slots.filter p
  ids := h.ids
  fresh := h.fresh
  held c hc := by
    obtain ⟨s, hs, hid, hkey, hq⟩ := h.held c hc
    exact ⟨s, List.mem_filter.mpr ⟨hs, hp s (List.ne_nil_of_mem hq)⟩, hid, hkey, hq⟩
  holders s hs := h.holders s (List.mem_filter.mp hs).1
  taken c hc hp s hs := h.taken c hc hp s (List.mem_filter.mp hs).1

/-- A call may be forgotten when it leaves the queue of its slot. -/
theorem leave (h : b.Holding) (hc : c ∈ b.calls) :
    Holding ({ b with slots := b.slots.abandon c.slot c.id }.forget c.id) where
  slots := h.slots.abandon _ _
  ids := (List.filter_sublist.map Call.id).nodup h.ids
  fresh d hd := h.fresh d (List.mem_filter.mp hd).1
  held d hd := by
    obtain ⟨hd, hne⟩ : d ∈ b.calls ∧ d.id ≠ c.id := by simpa [forget] using hd
    obtain ⟨s, hs, hid, hkey, hq⟩ := h.held d hd
    refine ⟨_, Slots.mem_modify.mpr ⟨s, hs, rfl⟩, ?_⟩
    split
    · exact ⟨hid, hkey, by simp [hq, hne]⟩
    · exact ⟨hid, hkey, hq⟩
  holders s hs i hi := by
    obtain ⟨u, hu, rfl⟩ := Slots.mem_modify.mp hs
    have hiu : i ∈ u.queue ∧ ¬ (u.id = c.slot ∧ i = c.id) := by
      split at hi
      · rename_i hslot
        obtain ⟨hi, hne⟩ := Slot.mem_queue_exit.mp hi
        exact ⟨hi, fun hb => hne hb.2⟩
      · rename_i hslot
        exact ⟨hi, fun hb => hslot hb.1⟩
    obtain ⟨d, hd, rfl, hslot⟩ := h.holders u hu i hiu.1
    have hne : d.id ≠ c.id := fun he =>
      hiu.2 ⟨by rw [← hslot, h.eq_of_id hd hc he], he⟩
    refine ⟨d, by simpa [forget] using ⟨hd, hne⟩, rfl, ?_⟩
    split <;> exact hslot
  taken d hd hp s hs hid := by
    obtain ⟨hd, hne⟩ : d ∈ b.calls ∧ d.id ≠ c.id := by simpa [forget] using hd
    obtain ⟨u, hu, rfl⟩ := Slots.mem_modify.mp hs
    split
    · exact Slot.head?_queue_exit (h.taken d hd hp u hu (by simpa [*] using hid)) hne
    · exact h.taken d hd hp u hu (by simpa [*] using hid)

/-- A call that gives its slot back may be forgotten. -/
theorem finish (h : b.Holding) (hc : c ∈ b.calls) (r : Except Failure AccessToken) :
    (b.finish c r).Holding :=
  ((h.leave hc).sweep (fun s => !(s.key == c.scope.key && s.isFree))
    fun s hs => by simp [Slot.isFree, hs]).of_eq rfl rfl (Nat.le_refl _)

theorem cancel (h : b.Holding) (hc : c ∈ b.calls) (cache : AssertionCache) :
    (({ b with slots := b.slots.abandon c.slot c.id, cache }.note c.id .cancelled).forget
      c.id).Holding :=
  (h.leave hc).of_eq rfl rfl (Nat.le_refl _)

theorem publish (h : b.Holding) (c : Call) (r : Except Failure AccessToken) :
    (b.publish c r).Holding where
  slots := h.slots.publish _ _
  ids := h.ids
  fresh := h.fresh
  held d hd := by
    obtain ⟨s, hs, hid, hkey, hq⟩ := h.held d hd
    refine ⟨_, Slots.mem_modify.mpr ⟨s, hs, rfl⟩, ?_⟩
    split <;> exact ⟨hid, hkey, hq⟩
  holders s hs i hi := by
    obtain ⟨u, hu, rfl⟩ := Slots.mem_modify.mp hs
    have hiu : i ∈ u.queue := by split at hi <;> exact hi
    obtain ⟨d, hd, hdi, hslot⟩ := h.holders u hu i hiu
    refine ⟨d, hd, hdi, ?_⟩
    split <;> exact hslot
  taken d hd hp s hs hid := by
    obtain ⟨u, hu, rfl⟩ := Slots.mem_modify.mp hs
    have hu' := h.taken d hd hp u hu (by split at hid <;> exact hid)
    split <;> exact hu'

/-- A call that is first in the queue of its slot may take it. -/
theorem enter (h : b.Holding) (hc : c ∈ b.calls) (phase : Phase)
    (hp : ∀ s ∈ b.slots.stored, s.id = c.slot → s.queue.head? = some c.id) :
    (b.enter c.id phase).Holding := by
  have old : ∀ d ∈ (b.enter c.id phase).calls, ∃ d' ∈ b.calls, d.id = d'.id ∧ d.scope = d'.scope ∧
      d.slot = d'.slot ∧ (d = d' ∨ d'.id = c.id) := by
    intro d hd
    obtain ⟨d', hd', rfl⟩ := List.mem_map.mp hd
    split
    · exact ⟨d', hd', rfl, rfl, rfl, .inr ‹_›⟩
    · exact ⟨d', hd', rfl, rfl, rfl, .inl rfl⟩
  refine ⟨h.slots, ?_, ?_, ?_, ?_, ?_⟩
  · have hids : (b.enter c.id phase).calls.map Call.id = b.calls.map Call.id := by
      simp only [Broker.enter, List.map_map]
      apply List.map_congr_left
      intro d _
      simp only [Function.comp_apply]
      split <;> rfl
    rw [hids]
    exact h.ids
  · intro d hd
    obtain ⟨d', hd', hid, -⟩ := old d hd
    exact hid ▸ h.fresh d' hd'
  · intro d hd
    obtain ⟨d', hd', hid, hscope, hslot, -⟩ := old d hd
    rw [hid, hscope, hslot]
    exact h.held d' hd'
  · intro s hs i hi
    obtain ⟨d, hd, hid, hslot⟩ := h.holders s hs i hi
    refine ⟨_, List.mem_map.mpr ⟨d, hd, rfl⟩, ?_⟩
    split <;> exact ⟨hid, hslot⟩
  · intro d hd hq s hs hid
    obtain ⟨d', hd', hid', -, hslot, rfl | hc'⟩ := old d hd
    · exact h.taken d hd' hq s hs hid
    · obtain rfl := h.eq_of_id hd' hc hc'
      rw [hid']
      exact hp s hs (hid.trans hslot)

/-- While nobody has taken a slot, those that queue for it may change places. -/
theorem overtake (h : b.Holding) (hc : c ∈ b.calls) (free : b.isTaken c.slot = false) :
    Holding { b with slots := b.slots.modify c.slot (·.advance c.id) } where
  slots := h.slots.advance _ _
  ids := h.ids
  fresh := h.fresh
  held d hd := by
    obtain ⟨s, hs, hid, hkey, hq⟩ := h.held d hd
    refine ⟨_, Slots.mem_modify.mpr ⟨s, hs, rfl⟩, ?_⟩
    split
    · exact ⟨hid, hkey, Slot.mem_queue_advance.mpr (.inl hq)⟩
    · exact ⟨hid, hkey, hq⟩
  holders s hs i hi := by
    obtain ⟨u, hu, rfl⟩ := Slots.mem_modify.mp hs
    split at hi
    · rename_i hslot
      rcases Slot.mem_queue_advance.mp hi with hi | rfl
      · obtain ⟨d, hd, hdi, hslot'⟩ := h.holders u hu i hi
        exact ⟨d, hd, hdi, by simpa [hslot] using hslot'⟩
      · exact ⟨c, hc, rfl, by simp [hslot]⟩
    · rename_i hslot
      simpa [hslot] using h.holders u hu i hi
  taken d hd hp s hs hid := by
    obtain ⟨u, hu, rfl⟩ := Slots.mem_modify.mp hs
    -- a slot whose queue changes is not taken, so no call aboard is moved from its head
    have hne : d.slot ≠ c.slot := by
      intro he
      have := List.any_eq_false.mp free d hd
      simp [he, hp] at this
    split at hid
    · rename_i hslot
      exact absurd (hid.symm.trans hslot) hne
    · rename_i hslot
      simpa [hslot] using h.taken d hd hp u hu hid

/-- A slot may be stored for a key before anyone holds it. -/
theorem reserve (h : b.Holding) (key : ScopeKey) :
    Holding { b with slots := (b.slots.take key).2 } where
  slots := h.slots.take key
  ids := h.ids
  fresh := h.fresh
  held c hc := by
    obtain ⟨s, hs, hc⟩ := h.held c hc
    exact ⟨s, Slots.mem_take.mpr (.inl hs), hc⟩
  holders s hs i hi := by
    rcases b.slots.take_cases key with ⟨he, -⟩ | ⟨hnew, -⟩
    · exact h.holders s (he ▸ hs) i hi
    · rcases Slots.mem_take.mp hs with hs | rfl
      · exact h.holders s hs i hi
      · simp [hnew] at hi
  taken c hc hp s hs hid := by
    rcases b.slots.take_cases key with ⟨he, -⟩ | ⟨hnew, -⟩
    · exact h.taken c hc hp s (he ▸ hs) hid
    · rcases Slots.mem_take.mp hs with hs | rfl
      · exact h.taken c hc hp s hs hid
      · obtain ⟨u, hu, huid, -⟩ := h.held c hc
        have hlt := h.slots.fresh u hu
        rw [huid, ← hid, hnew] at hlt
        exact absurd hlt (Nat.lt_irrefl _)

/-- The number of the next call is in no queue. -/
theorem nextCall_not_mem (h : b.Holding) {s : Slot} (hs : s ∈ b.slots.stored) :
    b.nextCall ∉ s.queue := by
  intro hq
  obtain ⟨c, hc, hid, -⟩ := h.holders s hs _ hq
  exact Nat.lt_irrefl _ (hid ▸ h.fresh c hc)

/-- A new call may queue in the slot of its key. -/
theorem receive (h : b.Holding) {s : Slot} (hs : s ∈ b.slots.stored) (hid : c.id = b.nextCall)
    (hslot : c.slot = s.id) (hkey : c.scope.key = s.key) (hq : c.phase.isQueued = true) :
    Holding { b with
      slots := b.slots.modify s.id (·.enter c.id), calls := b.calls ++ [c]
      nextCall := b.nextCall + 1 } where
  slots := h.slots.enter fun u hu => hid ▸ h.nextCall_not_mem hu
  ids := by
    simp only [List.map_append, List.nodup_append]
    refine ⟨h.ids, by simp, ?_⟩
    intro i hi j hj
    obtain ⟨d, hd, rfl⟩ := List.mem_map.mp hi
    simp only [List.map_cons, List.map_nil, List.mem_singleton] at hj
    rw [hj, hid]
    exact Nat.ne_of_lt (h.fresh d hd)
  fresh d hd := by
    rcases List.mem_append.mp hd with hd | hd
    · exact Nat.lt_succ_of_lt (h.fresh d hd)
    · rw [List.mem_singleton.mp hd, hid]
      exact Nat.lt_succ_self _
  held d hd := by
    rcases List.mem_append.mp hd with hd | hd
    · obtain ⟨u, hu, huid, hukey, huq⟩ := h.held d hd
      refine ⟨_, Slots.mem_modify.mpr ⟨u, hu, rfl⟩, ?_⟩
      split
      · exact ⟨huid, hukey, Slot.mem_queue_enter.mpr (.inl huq)⟩
      · exact ⟨huid, hukey, huq⟩
    · obtain rfl := List.mem_singleton.mp hd
      exact ⟨_, Slots.mem_modify.mpr ⟨s, hs, if_pos rfl⟩, hslot.symm, hkey.symm,
        Slot.mem_queue_enter.mpr (.inr rfl)⟩
  holders u hu i hi := by
    obtain ⟨v, hv, rfl⟩ := Slots.mem_modify.mp hu
    have hi' : i ∈ v.queue ∨ v.id = s.id ∧ i = c.id := by
      split at hi
      · rename_i hvs
        exact (Slot.mem_queue_enter.mp hi).imp_right fun hi => ⟨hvs, hi⟩
      · exact .inl hi
    rcases hi' with hi' | ⟨hvs, rfl⟩
    · obtain ⟨d, hd, hdi, hdslot⟩ := h.holders v hv i hi'
      refine ⟨d, List.mem_append_left _ hd, hdi, ?_⟩
      split <;> exact hdslot
    · exact ⟨c, by simp, rfl, by simp [hvs, hslot]⟩
  taken d hd hp u hu huid := by
    obtain ⟨v, hv, rfl⟩ := Slots.mem_modify.mp hu
    rcases List.mem_append.mp hd with hd | hd
    · have hvid : v.id = d.slot := by split at huid <;> exact huid
      have hhead := h.taken d hd hp v hv hvid
      split
      · obtain ⟨rest, hrest⟩ := List.head?_eq_some_iff.mp hhead
        simp [Slot.enter, hrest]
      · exact hhead
    · rw [List.mem_singleton.mp hd, hq] at hp
      cases hp

/-- A call that begins may queue for the slot of its scope set. -/
theorem queue (h : b.Holding) (scope : ScopeSet) (deadline : Option Nat) :
    ((b.admitCall scope deadline).joinQueue b.nextCall scope deadline).Holding := by
  have hreceived := (h.reserve scope.key).receive (c := b.newcomer b.nextCall scope deadline)
    (b.slots.take_mem scope.key) rfl rfl (b.slots.key_take scope.key).symm rfl
  exact hreceived.of_eq rfl rfl (Nat.le_refl _)

/-- A call that refreshes or is about to do so is the first in the queue of its slot. -/
theorem head_of_going {e : Event} {p : Phase} {w : Broker} (h : b.Holding) (hc : c ∈ b.calls)
    (going : Going b c e p w) {s : Slot} (hs : s ∈ b.slots.stored) (hid : s.id = c.slot) :
    s.queue.head? = some c.id := by
  cases going with
  | @boards n u phase slot turn =>
      obtain ⟨hu, huid⟩ := h.slots.find?_eq_some_iff.mp slot
      rw [h.slots.eq_of_id hs hu (hid.trans huid.symm)]
      exact Slot.isTurn_iff.mp turn
  | sends phase => exact h.taken c hc (by simp [phase, Phase.isQueued]) s hs hid
  | rereads phase => exact h.taken c hc (by simp [phase, Phase.isQueued]) s hs hid

theorem goes {e : Event} {p : Phase} {w : Broker} (h : b.Holding) (hc : c ∈ b.calls)
    (going : Going b c e p w) : (w.enter c.id p).Holding := by
  obtain ⟨calls, slots, next, -⟩ := going.frame
  have hw : w.Holding := h.of_eq calls slots (Nat.le_of_eq next.symm)
  exact hw.enter (calls ▸ hc) p fun s hs hid => h.head_of_going hc going (slots ▸ hs) hid

theorem ends {e : Event} {r : Except Failure AccessToken} {w : Broker} (h : b.Holding)
    (hc : c ∈ b.calls) (closing : Closing b c e r w) : (w.finish c r).Holding := by
  suffices hw : w.Holding ∧ c ∈ w.calls from hw.1.finish hw.2 r
  cases closing with
  | joins => exact ⟨h.of_eq rfl rfl (Nat.le_refl _), hc⟩
  | hits => exact ⟨h.of_eq rfl rfl (Nat.le_refl _), hc⟩
  | lapses => exact ⟨h, hc⟩
  | unpublished refreshed =>
      obtain ⟨calls, slots, next⟩ := refreshed.frame
      exact ⟨h.of_eq calls slots (Nat.le_of_eq next.symm), calls ▸ hc⟩
  | published refreshed =>
      obtain ⟨calls, slots, next⟩ := refreshed.frame
      exact ⟨(h.of_eq calls slots (Nat.le_of_eq next.symm)).publish c r, calls ▸ hc⟩

/-- A call that begins and ends at once holds no slot. -/
theorem passes {log : List Occurrence} {b' : Broker} (h : b.Holding)
    (hl : Logged b b.nextCall log b') (hslots : log.foldl Occurrence.land b.slots = b.slots) :
    b'.Holding :=
  h.of_eq hl.calls (hl.slots.trans hslots) (hl.nextCall ▸ Nat.le_add_right _ _)

/-- Every move keeps calls and queues in agreement. -/
theorem move {e : Event} {b' : Broker} (h : b.Holding) (m : Move b e b') : b'.Holding := by
  cases m with
  | idle => exact h
  | refuses => exact h.passes (logged_refused b _ _ _) rfl
  | serves => exact h.passes (logged_served b _ _ _) rfl
  | queues => exact h.queue _ _
  | reads => exact h.of_eq rfl rfl (Nat.le_refl _)
  | goes live going => exact h.goes (mem_calls_of_call? live) going
  | ends live closing => exact h.ends (mem_calls_of_call? live) closing
  | cancels live => exact h.cancel (mem_calls_of_call? live) _
  | overtakes live _ free => exact h.overtake (mem_calls_of_call? live) free
  | overtakesVisit => exact h.of_eq rfl rfl (Nat.le_refl _)
  | invalidates => exact h.of_eq rfl rfl (Nat.le_refl _)
  | purges =>
      have hs := h.sweep (!·.isFree) fun s hs => by simp [Slot.isFree, hs]
      exact hs.of_eq rfl rfl (Nat.le_refl _)
  | sets => exact h.of_eq rfl rfl (Nat.le_refl _)
  | ticks => exact h.of_eq rfl rfl (Nat.le_refl _)

end Holding

end FederatedAccess.Broker
