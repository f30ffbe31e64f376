import FederatedAccess.Proofs.Broker.Actor

/-!
# The line for a slot

The calls that hold the slot of a key stand in a line, in which the first one has taken the slot or
is about to do so. A step leaves the line as it is, adds a newcomer at its end, takes one call out,
or lets a call go ahead of the others (`Shift`). Nobody stands before an earlier call but one that went
ahead while the slot was free (`WentAhead`).
-/

namespace FederatedAccess

namespace Slots

/-- The calls that hold the slot of a key, in the order in which they are served. -/
def queueAt (t : Slots) (key : ScopeKey) : List CallId := (t.at? key).elim [] Slot.queue

variable {t : Slots} {s : Slot} {key : ScopeKey}

theorem at?_eq_none (hn : ∀ s ∈ t.stored, s.key ≠ key) : t.at? key = none :=
  List.find?_eq_none.mpr (by simpa using hn)

theorem queueAt_eq_nil (hn : ∀ s ∈ t.stored, s.key ≠ key) : t.queueAt key = [] := by
  rw [queueAt, at?_eq_none hn]
  rfl

namespace WellFormed

theorem queueAt_eq (h : t.WellFormed) (hs : s ∈ t.stored) (hk : s.key = key) :
    t.queueAt key = s.queue := by
  rw [queueAt, h.at?_eq_some_iff.mpr ⟨hs, hk⟩]
  rfl

/-- Either the slot of a key is stored, or nobody holds it. -/
theorem queueAt_cases (h : t.WellFormed) (key : ScopeKey) :
    (∃ s ∈ t.stored, s.key = key ∧ t.queueAt key = s.queue) ∨
      (∀ s ∈ t.stored, s.key ≠ key) ∧ t.queueAt key = [] := by
  by_cases hn : ∀ s ∈ t.stored, s.key ≠ key
  · exact .inr ⟨hn, queueAt_eq_nil hn⟩
  · obtain ⟨s, hs, hk⟩ : ∃ s ∈ t.stored, s.key = key := by simpa using hn
    exact .inl ⟨s, hs, hk, h.queueAt_eq hs hk⟩

/-- To drop slots that nobody holds changes no line. -/
theorem queueAt_filter (h : t.WellFormed) {p : Slot → Bool} (hp : ∀ s, s.queue ≠ [] → p s = true) :
    Slots.queueAt { t with stored := t.stored.filter p } key = t.queueAt key := by
  rcases h.queueAt_cases key with ⟨s, hs, hk, hq⟩ | ⟨hn, hq⟩
  · rw [hq]
    cases hps : p s with
    | true => exact (h.filter p).queueAt_eq (List.mem_filter.mpr ⟨hs, hps⟩) hk
    | false =>
        have hfree : s.queue = [] := by
          by_contra hne
          cases (hp s hne).symm.trans hps
        rw [hfree]
        refine queueAt_eq_nil fun u hu huk => ?_
        obtain ⟨hu, hpu⟩ := List.mem_filter.mp hu
        obtain rfl := h.eq_of_key hs hu (hk.trans huk.symm)
        cases hpu.symm.trans hps
  · rw [hq]
    exact queueAt_eq_nil fun s hs => hn s (List.mem_filter.mp hs).1

/-- To change a slot changes the line for its key and no other. -/
theorem queueAt_modify (h : t.WellFormed) (hs : s ∈ t.stored) {f : Slot → Slot}
    {g : List CallId → List CallId} (hkey : ∀ u, (f u).key = u.key)
    (hqueue : ∀ u, (f u).queue = g u.queue) :
    (t.modify s.id f).queueAt key = if s.key = key then g (t.queueAt key) else t.queueAt key := by
  have hat : (t.modify s.id f).at? key =
      (t.at? key).map fun u => if u.id = s.id then f u else u := by
    have hsame : ((fun u => decide (u.key = key)) ∘ fun u => if u.id = s.id then f u else u) =
        fun u => decide (u.key = key) := by
      funext u
      simp only [Function.comp_apply]
      split
      · rw [hkey]
      · rfl
    rw [at?, at?, Slots.modify, List.find?_map, hsame]
  rcases h.queueAt_cases key with ⟨u, hu, hk, hq⟩ | ⟨hn, hq⟩
  · rw [queueAt, hat, h.at?_eq_some_iff.mpr ⟨hu, hk⟩, hq, ← hk]
    by_cases hid : u.id = s.id
    · obtain rfl := h.eq_of_id hu hs hid
      simp [hqueue]
    · have hne : s.key ≠ u.key := fun he => hid (congrArg Slot.id (h.eq_of_key hu hs he.symm))
      simp [hid, hne]
  · rw [if_neg (hn s hs), queueAt, hat, hq, at?_eq_none hn]
    rfl

theorem queueAt_take (h : t.WellFormed) (key' : ScopeKey) :
    (t.take key').2.queueAt key = t.queueAt key := by
  rcases t.take_cases key' with ⟨he, -⟩ | ⟨hnew, hn, he⟩
  · rw [he]
  · rcases h.queueAt_cases key with ⟨s, hs, hk, hq⟩ | ⟨hn', hq⟩
    · rw [hq]
      exact (h.take key').queueAt_eq (mem_take.mpr (.inl hs)) hk
    · rw [hq]
      by_cases hk : key' = key
      · have htaken := (h.take key').queueAt_eq (t.take_mem key') ((t.key_take key').trans hk)
        rw [htaken, hnew]
      · refine queueAt_eq_nil fun s hs hsk => ?_
        rcases mem_take.mp hs with hs | rfl
        · exact hn' s hs hsk
        · exact hk ((t.key_take key').symm.trans hsk)

end WellFormed

end Slots

namespace Broker

/-- The calls for a key that hold its slot, in the order in which they are served. -/
def line (b : Broker) (key : ScopeKey) : List CallId := b.slots.queueAt key

variable {b b' w : Broker} {c : Call} {e : Event} {key : ScopeKey} {i : CallId}

namespace Holding

/-- All live calls for a key stand in line, and nobody else does. -/
theorem mem_line (h : b.Holding) : i ∈ b.line key ↔ ∃ c ∈ b.calls, c.id = i ∧ c.scope.key = key := by
  rcases h.slots.queueAt_cases key with ⟨s, hs, hk, hq⟩ | ⟨hn, hq⟩
  · rw [line, hq]
    constructor
    · intro hi
      obtain ⟨c, hc, hid, hslot⟩ := h.holders s hs i hi
      exact ⟨c, hc, hid, (h.key_of_slot hc hs hslot.symm).symm.trans hk⟩
    · rintro ⟨c, hc, rfl, hck⟩
      exact (h.slot_of_key hc hs (hk.trans hck.symm)).2
  · rw [line, hq]
    refine ⟨fun hi => absurd hi List.not_mem_nil, ?_⟩
    rintro ⟨c, hc, -, hck⟩
    obtain ⟨s, hs, -, hk, -⟩ := h.held c hc
    exact absurd (hk.trans hck) (hn s hs)

theorem nodup_line (h : b.Holding) (key : ScopeKey) : (b.line key).Nodup := by
  rcases h.slots.queueAt_cases key with ⟨s, hs, -, hq⟩ | ⟨-, hq⟩
  · rw [line, hq]
    exact h.slots.queues s hs
  · rw [line, hq]
    exact List.nodup_nil

/-- The line of a call is the queue of its slot. -/
theorem line_eq (h : b.Holding) (hc : c ∈ b.calls) :
    ∃ s, b.slots.find? c.slot = some s ∧ b.line c.scope.key = s.queue := by
  obtain ⟨s, hs, hid, hk, -⟩ := h.held c hc
  exact ⟨s, h.slots.find?_eq_some_iff.mpr ⟨hs, hid⟩, h.slots.queueAt_eq hs hk⟩

/-- A live call stands in the line for its own key only. -/
theorem key_of_mem_line (h : b.Holding) (hc : c ∈ b.calls) (hmem : c.id ∈ b.line key) :
    c.scope.key = key := by
  obtain ⟨d, hd, hid, hk⟩ := h.mem_line.mp hmem
  rwa [← h.eq_of_id hd hc hid]

/-- A call that refreshes is the first in line. -/
theorem head?_line_of_aboard (h : b.Holding) (hc : c ∈ b.calls) (aboard : c.phase.isQueued = false) :
    (b.line c.scope.key).head? = some c.id := by
  obtain ⟨s, slot, hqueue⟩ := h.line_eq hc
  obtain ⟨hs, hid⟩ := h.slots.find?_eq_some_iff.mp slot
  rw [hqueue]
  exact h.taken c hc aboard s hs hid

/-- To change the slot of a call changes the line for its key and no other. -/
theorem queueAt_modify (h : b.Holding) (hc : c ∈ b.calls) {f : Slot → Slot}
    {g : List CallId → List CallId} (hkey : ∀ u, (f u).key = u.key)
    (hqueue : ∀ u, (f u).queue = g u.queue) :
    (b.slots.modify c.slot f).queueAt key =
      if c.scope.key = key then g (b.line key) else b.line key := by
  obtain ⟨s, hs, hid, hk, -⟩ := h.held c hc
  rw [← hid, ← hk]
  exact h.slots.queueAt_modify hs hkey hqueue

theorem queueAt_abandon (h : b.Holding) (hc : c ∈ b.calls) :
    (b.slots.abandon c.slot c.id).queueAt key =
      if c.scope.key = key then (b.line key).filter (· ≠ c.id) else b.line key :=
  h.queueAt_modify hc (fun _ => rfl) fun _ => rfl

theorem queueAt_release (h : b.Holding) (hc : c ∈ b.calls) :
    (b.slots.release c.scope.key c.slot c.id).queueAt key =
      if c.scope.key = key then (b.line key).filter (· ≠ c.id) else b.line key := by
  rw [← h.queueAt_abandon hc]
  refine (h.slots.abandon c.slot c.id).queueAt_filter fun s hs => ?_
  simp [Slot.isFree, hs]

theorem queueAt_advance (h : b.Holding) (hc : c ∈ b.calls) :
    (b.slots.modify c.slot (·.advance c.id)).queueAt key =
      if c.scope.key = key then c.id :: (b.line key).filter (· ≠ c.id) else b.line key :=
  h.queueAt_modify (f := (·.advance c.id)) (g := fun q => c.id :: q.filter (· ≠ c.id)) hc
    (fun _ => rfl) fun _ => rfl

/-- To publish an outcome changes no line. -/
theorem queueAt_publish (h : b.Holding) (hc : c ∈ b.calls) (r : Except Failure AccessToken) :
    (b.slots.modify c.slot (·.publish r)).queueAt key = b.line key := by
  have hmodify : (b.slots.modify c.slot (·.publish r)).queueAt key =
      if c.scope.key = key then b.line key else b.line key :=
    h.queueAt_modify (f := (·.publish r)) (g := id) hc (fun _ => rfl) fun _ => rfl
  rw [hmodify, ite_self]

end Holding

/-! ### How steps change the line -/

/-- How a step changes the line for a key. -/
inductive Shift (key : ScopeKey) (b : Broker) (e : Event) (b' : Broker) : Prop
  | stays (line : b'.line key = b.line key)
  | comes (line : b'.line key = b.line key ++ [b.nextCall])
  | leaves {c : Call} (live : c ∈ b.calls) (actor : e.actor? b = some c.id)
      (line : b'.line key = (b.line key).filter (· ≠ c.id))
  | overtakes {c : Call} (live : c ∈ b.calls) (own : c.scope.key = key)
      (free : ∀ d ∈ b.calls, d.scope.key = c.scope.key → d.phase.isQueued = true)
      (event : e = .overtake c.id)
      (line : b'.line key = c.id :: (b.line key).filter (· ≠ c.id))

/-- While nobody has taken the slot of a call, all calls for its key queue. -/
theorem Holding.queued_of_free (h : b.Holding) (hc : c ∈ b.calls)
    (free : b.isTaken c.slot = false) : ∀ d ∈ b.calls, d.scope.key = c.scope.key →
      d.phase.isQueued = true := by
  intro d hd hk
  obtain ⟨s, hs, hid, hkey, -⟩ := h.held c hc
  have slot : d.slot = c.slot := (h.slot_of_key hd hs (hkey.trans hk.symm)).1.symm.trans hid
  have hfree := List.any_eq_false.mp free d hd
  simpa [slot] using hfree

theorem Shift.of_slots (slots : b'.slots = b.slots) : Shift key b e b' :=
  .stays (by rw [line, line, slots])

/-- A call takes itself out of the line for its key. -/
theorem Shift.departs (hc : c ∈ b.calls) (actor : e.actor? b = some c.id)
    (line : b'.line key =
      if c.scope.key = key then (b.line key).filter (· ≠ c.id) else b.line key) :
    Shift key b e b' := by
  by_cases hk : c.scope.key = key
  · exact .leaves hc actor (line.trans (if_pos hk))
  · exact .stays (line.trans (if_neg hk))

/-- A call that ends leaves the line as it was until it gives back its slot. -/
theorem Closing.line_eq {r : Except Failure AccessToken} (h : Closing b c e r w) (hold : b.Holding)
    (hc : c ∈ b.calls) : w.Holding ∧ c ∈ w.calls ∧ ∀ key, w.line key = b.line key := by
  cases h with
  | joins => exact ⟨hold.of_eq rfl rfl (Nat.le_refl _), hc, fun _ => rfl⟩
  | hits => exact ⟨hold.of_eq rfl rfl (Nat.le_refl _), hc, fun _ => rfl⟩
  | lapses => exact ⟨hold, hc, fun _ => rfl⟩
  | unpublished refreshed =>
      obtain ⟨calls, slots, next⟩ := refreshed.frame
      refine ⟨hold.of_eq calls slots (Nat.le_of_eq next.symm), calls ▸ hc, fun key => ?_⟩
      rw [line, line, slots]
  | @published e r w refreshed =>
      obtain ⟨calls, slots, next⟩ := refreshed.frame
      have hw : w.Holding := hold.of_eq calls slots (Nat.le_of_eq next.symm)
      refine ⟨hw.publish c r, calls ▸ hc, fun key => ?_⟩
      have hpublished : (w.publish c r).line key = w.line key :=
        hw.queueAt_publish (calls ▸ hc) r
      rw [hpublished, line, line, slots]

/-- A step leaves the line, adds to it, takes a call out, or lets one go ahead. -/
theorem Move.shift (m : Move b e b') (hold : b.Holding) (key : ScopeKey) : Shift key b e b' := by
  cases m with
  | idle => exact .of_slots rfl
  | refuses => exact .of_slots (logged_refused b _ _ _).slots
  | serves => exact .of_slots (logged_served b _ _ _).slots
  | @queues scope deadline =>
      have htake := hold.slots.take scope.key
      have hline : ((b.admitCall scope deadline).joinQueue b.nextCall scope deadline).line key =
          if (b.slots.take scope.key).1.key = key then
            (b.slots.take scope.key).2.queueAt key ++ [b.nextCall]
          else (b.slots.take scope.key).2.queueAt key :=
        htake.queueAt_modify (g := (· ++ [b.nextCall])) (b.slots.take_mem scope.key) (fun _ => rfl)
          fun _ => rfl
      rw [hold.slots.queueAt_take] at hline
      split at hline
      · exact .comes hline
      · exact .stays hline
  | reads => exact .of_slots rfl
  | goes _ going => exact .of_slots going.frame.2.1
  | @ends c e r w live closing =>
      have hc := mem_calls_of_call? live
      obtain ⟨hw, hcw, hline⟩ := closing.line_eq hold hc
      refine .departs hc closing.actor?_eq ?_
      rw [← hline key]
      exact hw.queueAt_release hcw
  | cancels live =>
      have hc := mem_calls_of_call? live
      exact .departs hc rfl (hold.queueAt_abandon hc)
  | @overtakes c n live phase free =>
      have hc := mem_calls_of_call? live
      have hline : Broker.line { b with slots := b.slots.modify c.slot (·.advance c.id) } key =
          if c.scope.key = key then c.id :: (b.line key).filter (· ≠ c.id) else b.line key :=
        hold.queueAt_advance hc
      split at hline
      · exact .overtakes hc ‹_› (hold.queued_of_free hc free) rfl hline
      · exact .stays hline
  | overtakesVisit => exact .of_slots rfl
  | invalidates => exact .of_slots rfl
  | purges => exact .stays (hold.slots.queueAt_filter fun s hs => by simp [Slot.isFree, hs])
  | sets => exact .of_slots rfl
  | ticks => exact .of_slots rfl

/-- When the first in line leaves, the others keep their places, and it left of its own accord. -/
theorem Move.line_of_leaves {rest : List CallId} (m : Move b e b') (hold : b.Holding)
    (first : b.line key = i :: rest) (left : i ∉ b'.line key) :
    b'.line key = rest ∧ e.actor? b = some i := by
  have nodup := hold.nodup_line key
  rw [first, List.nodup_cons] at nodup
  cases m.shift hold key with
  | stays line => simp [line, first] at left
  | comes line => simp [line, first] at left
  | @leaves c _ actor line =>
      obtain rfl : i = c.id := by
        by_contra hne
        simp [line, first, hne] at left
      refine ⟨?_, actor⟩
      rw [line, first, List.filter_cons_of_neg (by simp)]
      refine List.filter_eq_self.mpr fun j hj => decide_eq_true ?_
      rintro rfl
      exact nodup.1 hj
  | @overtakes c _ _ _ _ line =>
      by_cases hi : i = c.id
      · simp [line, hi] at left
      · simp [line, first, hi] at left

/-! ### Order of arrival -/

/-- A call goes ahead of the others for a key, none of which has taken the slot. -/
def Event.LetsAhead (key : ScopeKey) (b : Broker) (id : CallId) (e : Event) : Prop :=
  e = .overtake id ∧ (∃ c ∈ b.calls, c.id = id ∧ c.scope.key = key) ∧
    ∀ c ∈ b.calls, c.scope.key = key → c.phase.isQueued = true

/-- Somewhere in a run, a call goes ahead of the others for a key. -/
def WentAhead (key : ScopeKey) (b : Broker) (events : List Event) (id : CallId) : Prop :=
  ∃ pre e post, events = pre ++ e :: post ∧ e.LetsAhead key (b.run pre) id

/-- Calls are numbered in order of arrival, and a step puts nobody before an earlier call but one that
goes ahead. -/
theorem Move.arranged {ahead : CallId → Prop} (m : Move b e b') (hold : b.Holding)
    (arranged : (b.line key).Pairwise fun i j => i < j ∨ ahead i) :
    (b'.line key).Pairwise fun i j => i < j ∨ ahead i ∨ e.LetsAhead key b i := by
  have kept : (b.line key).Pairwise fun i j => i < j ∨ ahead i ∨ e.LetsAhead key b i :=
    arranged.imp (Or.imp_right .inl)
  cases m.shift hold key with
  | stays line => exact line ▸ kept
  | comes line =>
      rw [line, List.pairwise_append]
      refine ⟨kept, List.pairwise_singleton _ _, fun i hi j hj => .inl ?_⟩
      obtain ⟨c, hc, rfl, -⟩ := hold.mem_line.mp hi
      rw [List.mem_singleton.mp hj]
      exact hold.fresh c hc
  | leaves _ _ line =>
      rw [line]
      exact kept.filter _
  | @overtakes c live own free event line =>
      rw [line, List.pairwise_cons]
      exact ⟨fun j _ => .inr (.inr ⟨event, ⟨c, live, rfl, own⟩, own ▸ free⟩), kept.filter _⟩

/-- Nobody stands before an earlier call but one that went ahead in the run. -/
theorem arranged_run {ahead : CallId → Prop} (hold : b.Holding)
    (arranged : (b.line key).Pairwise fun i j => i < j ∨ ahead i) (events : List Event) :
    ((b.run events).line key).Pairwise fun i j => i < j ∨ ahead i ∨ b.WentAhead key events i := by
  induction events generalizing b ahead with
  | nil => exact arranged.imp (Or.imp_right .inl)
  | cons e rest ih =>
      have m := move_step b e
      refine (ih (hold.move m) (m.arranged hold arranged)).imp fun {i j} => Or.imp_right ?_
      rintro ((before | now) | ⟨pre, x, post, rfl, later⟩)
      · exact .inl before
      · exact .inr ⟨[], e, rest, rfl, now⟩
      · exact .inr ⟨e :: pre, x, post, rfl, later⟩

/-- The first in line is the first to have come of the calls that are live, or went ahead of them. -/
theorem Holding.first_or_ahead {ahead : CallId → Prop} (h : b.Holding)
    (arranged : (b.line key).Pairwise fun i j => i < j ∨ ahead i)
    (first : (b.line key).head? = some i) :
    (∀ d ∈ b.calls, d.scope.key = key → i ≤ d.id) ∨ ahead i := by
  obtain ⟨rest, hline⟩ := List.head?_eq_some_iff.mp first
  rw [hline, List.pairwise_cons] at arranged
  by_cases hi : ahead i
  · exact .inr hi
  · refine .inl fun d hd own => ?_
    have hmem : d.id ∈ b.line key := h.mem_line.mpr ⟨d, hd, rfl, own⟩
    rw [hline] at hmem
    rcases List.mem_cons.mp hmem with hid | hrest
    · exact Nat.le_of_eq hid.symm
    · exact Nat.le_of_lt ((arranged.1 d.id hrest).resolve_right hi)

end Broker

end FederatedAccess
