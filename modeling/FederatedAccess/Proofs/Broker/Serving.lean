import FederatedAccess.Proofs.Broker.Arrivals

/-!
# Calls that share an outcome in turn

When the leader of some calls for one key has published its result, the calls that queue behind it
hold tickets from before, and take the result one after another (`Serving`). As long as they are
left in their order and have time, no step can give one of them anything else, and each of them has
only to go on in order to end with the result.
-/

namespace FederatedAccess.Broker

/-- The calls for a key, other than the leader, may still wait at a time. -/
def InTime (key : ScopeKey) (leader : CallId) (b : Broker) (time : Nat) : Prop :=
  ∀ c ∈ b.calls, c.scope.key = key → c.id ≠ leader → ∀ limit ∈ c.deadline, time < limit

/-- An event leaves the calls for a key in their order behind the leader: none comes when the leader
has ended, none is cancelled or overtaken, and none runs out of time after the leader has ended. -/
def Event.Orderly (key : ScopeKey) (leader : CallId) (b : Broker) : Event → Prop
  | .start scope _ => scope.key = key → scope.isEmpty = false ∧ ∃ c ∈ b.calls, c.id = leader
  | .cancel id => ∀ c ∈ b.calls, c.id = id → c.scope.key ≠ key
  | .overtake id => ∀ c ∈ b.calls, c.id = id → c.scope.key = key → c.phase.isQueued = false
  | .tick time => (∃ c ∈ b.calls, c.id = leader) ∨ b.InTime key leader time
  | _ => True

/-- All events of a run leave the calls for a key in their order. -/
def Orderly (key : ScopeKey) (leader : CallId) (b : Broker) : List Event → Prop
  | [] => True
  | e :: rest => e.Orderly key leader b ∧ (b.step e).Orderly key leader rest

/-- What the journal holds of a call that has ended with its own result. -/
structure Led (r : Except Failure AccessToken) (h : List Occurrence) : Prop where
  ended : .ended r ∈ h
  only : ∀ r', .ended r' ∈ h → r' = r
  alone : h.countP (·.isJoined) = 0

/-- A refresh ends with its own result. -/
theorem Led.of_aboard {c : Call} {h log : List Occurrence} {r : Except Failure AccessToken}
    (living : Living c h) (farewell : Farewell c log r) (aboard : c.phase.isQueued = false) :
    Led r (h ++ (log ++ [.ended r])) := by
  obtain ⟨n, before, hbefore, hh⟩ := living.of_aboard aboard
  refine ⟨by simp, ?_, ?_⟩
  · intro r' hr'
    simpa [living.not_mem_ended r', farewell.not_mem_ended r'] using hr'
  · have hliving : h.countP (·.isJoined) = 0 := by
      rw [hh, List.countP_append, List.countP_cons_of_neg (by simp [Occurrence.isJoined]),
        hbefore.countP_isJoined]
      rfl
    rw [List.countP_append, List.countP_append, hliving, farewell.countP_isJoined aboard]
    rfl

/-- What the journal holds of a call that has ended with a shared result. -/
def Followed (r : Except Failure AccessToken) (h : List Occurrence) : Prop :=
  ∃ (c : Call) (n : Nat), h = opening c n ++ [.joined r, .ended r]

/-- The leader has ended with a result. Of the calls that came after it, some have been served with
its result, and the others wait for it in the queue. -/
structure Serving (key : ScopeKey) (leader : CallId) (r : Except Failure AccessToken)
    (b₀ b : Broker) (served waiting : List CallId) : Prop where
  coherent : b.Coherent
  later : Later key b₀ b
  arrived : arrivals b₀ b key = leader :: (served ++ waiting)
  led : Led r (b.history leader)
  followed : ∀ i ∈ served, Followed r (b.history i)
  live : ∀ c ∈ b.calls, c.scope.key = key → c.id ∈ waiting
  intime : b.InTime key leader b.time
  queue : waiting ≠ [] → ∃ s ∈ b.slots.stored, s.key = key ∧ s.queue = waiting ∧
    s.outcome = some r ∧
    ∀ c ∈ b.calls, c.scope.key = key → ∃ n, c.phase = .queued n ∧ s.landed ≠ n

/-- A call that may still wait is not cut off. -/
theorem InTime.isDue_eq {key : ScopeKey} {leader : CallId} {b : Broker} {c : Call}
    (h : b.InTime key leader b.time) (hc : c ∈ b.calls) (hk : c.scope.key = key)
    (hne : c.id ≠ leader) : b.isDue c = false := by
  have hlimit := h c hc hk hne
  unfold isDue
  cases hd : c.deadline with
  | none => rfl
  | some limit =>
      rw [Option.any_some, decide_eq_false_iff_not, Nat.not_le]
      exact hlimit limit hd

namespace Serving

variable {key : ScopeKey} {leader : CallId} {r r' : Except Failure AccessToken} {b₀ b b' : Broker}
  {served waiting : List CallId} {c : Call} {e : Event}

/-- A call that waits is not the leader and not served. -/
theorem fresh (h : Serving key leader r b₀ b served waiting) {i : CallId} (hi : i ∈ waiting) :
    i ≠ leader ∧ i ∉ served := by
  have hnodup := h.later.nodup
  rw [h.arrived, List.nodup_cons, List.nodup_append] at hnodup
  constructor
  · rintro rfl
    exact hnodup.1 (List.mem_append_right _ hi)
  · intro hserved
    exact hnodup.2.2.2 i hserved i hi rfl

/-- The leader is no longer live. -/
theorem not_live (h : Serving key leader r b₀ b served waiting) :
    ¬ ∃ c ∈ b.calls, c.id = leader := by
  rintro ⟨c, hc, hid⟩
  have harrived : c.id ∈ arrivals b₀ b key := by
    rw [h.arrived, hid]
    exact List.mem_cons_self
  have hk := h.coherent.key_of_arrivals h.later.journal hc harrived
  exact (h.fresh (h.live c hc hk)).1 hid

/-- A call for the key queues in the slot of the key, where the result is kept for it. -/
theorem shared (h : Serving key leader r b₀ b served waiting) (hc : c ∈ b.calls)
    (hk : c.scope.key = key) : ∃ n s, c.phase = .queued n ∧ b.slots.find? c.slot = some s ∧
      s.queue = waiting ∧ s.shared? n = some r := by
  have hold := h.coherent.holding
  obtain ⟨s, hs, hskey, hqueue, houtcome, htickets⟩ := h.queue (List.ne_nil_of_mem (h.live c hc hk))
  have hsid := (hold.slot_of_key hc hs (hskey.trans hk.symm)).1
  obtain ⟨n, phase, hne⟩ := htickets c hc hk
  exact ⟨n, s, phase, hold.slots.find?_eq_some_iff.mpr ⟨hs, hsid⟩, hqueue,
    Slot.shared?_eq_some_iff.mpr ⟨hne, houtcome⟩⟩

/-- Whatever slot and ticket such a call is found with, the result is kept for it. -/
theorem shared_at {n : Nat} {s : Slot} (h : Serving key leader r b₀ b served waiting)
    (hc : c ∈ b.calls) (hk : c.scope.key = key) (phase : c.phase = .queued n)
    (slot : b.slots.find? c.slot = some s) : s.queue = waiting ∧ s.shared? n = some r := by
  obtain ⟨m, u, queued, hslot, hqueue, hshared⟩ := h.shared hc hk
  obtain rfl : u = s := Option.some.inj (hslot.symm.trans slot)
  obtain rfl : m = n := Phase.queued.inj (queued.symm.trans phase)
  exact ⟨hqueue, hshared⟩

/-- A call that waits is live. -/
theorem call_of_waiting (h : Serving key leader r b₀ b served waiting) {i : CallId}
    (hi : i ∈ waiting) : ∃ c ∈ b.calls, c.id = i ∧ c.scope.key = key := by
  obtain ⟨s, hs, -, hqueue, -⟩ := h.queue (List.ne_nil_of_mem hi)
  obtain ⟨c, hc, hid, -⟩ := h.coherent.holding.holders s hs i (hqueue ▸ hi)
  refine ⟨c, hc, hid, h.coherent.key_of_arrivals h.later.journal hc ?_⟩
  rw [h.arrived, hid]
  exact List.mem_cons_of_mem _ (List.mem_append_right _ hi)

/-- A call that waits has done no more than queue. -/
theorem history_of_waiting (h : Serving key leader r b₀ b served waiting) {i : CallId}
    (hi : i ∈ waiting) : ∃ (c : Call) (n : Nat), b.history i = opening c n := by
  obtain ⟨c, hc, rfl, hk⟩ := h.call_of_waiting hi
  obtain ⟨n, s, phase, -⟩ := h.shared hc hk
  obtain ⟨m, -, hh⟩ := (h.coherent.ledger.living c hc).of_queued (by rw [phase]; rfl)
  exact ⟨c, m, hh⟩

/-- A step that does not concern the calls for the key. -/
theorem aside (h : Serving key leader r b₀ b served waiting) (a : Aside key b b')
    (coherent : b'.Coherent) (next : b.nextCall ≤ b'.nextCall)
    (intime : b.InTime key leader b'.time) : Serving key leader r b₀ b' served waiting := by
  obtain ⟨id, log, hj, hlog, -⟩ := a.journal
  have harrivals : arrivals b₀ b' key = arrivals b₀ b key := arrivals_eq h.later.journal hj hlog
  have hist {i : CallId} (hi : i ∈ leader :: (served ++ waiting)) : b'.history i = b.history i :=
    a.history_eq h.coherent h.later (h.arrived ▸ hi)
  refine ⟨coherent, h.later.step next hj hlog, harrivals.trans h.arrived, ?_, ?_, ?_, ?_, ?_⟩
  · rw [hist List.mem_cons_self]
    exact h.led
  · intro i hi
    rw [hist (List.mem_cons_of_mem _ (List.mem_append_left _ hi))]
    exact h.followed i hi
  · intro c hc hk
    exact h.live c ((a.calls c hk).mp hc) hk
  · intro c hc hk
    exact intime c ((a.calls c hk).mp hc) hk
  · intro hne
    obtain ⟨s, hs, hskey, hqueue, houtcome, htickets⟩ := h.queue hne
    refine ⟨s, a.slots s hs hskey (hqueue ▸ hne), hskey, hqueue, houtcome, ?_⟩
    intro c hc hk
    exact htickets c ((a.calls c hk).mp hc) hk

/-- The call whose turn it is takes the result and leaves the queue to the next one. -/
theorem joins {n : Nat} {s : Slot} (h : Serving key leader r b₀ b served waiting)
    (live : b.call? c.id = some c) (hk : c.scope.key = key) (phase : c.phase = .queued n)
    (slot : b.slots.find? c.slot = some s) (turn : s.isTurn c.id = true)
    (shared : s.shared? n = some r') :
    r' = r ∧ ∃ rest, waiting = c.id :: rest ∧
      Serving key leader r b₀ ((b.recordJoin c.id r).finish c r) (served ++ [c.id]) rest := by
  have hc := mem_calls_of_call? live
  obtain ⟨hqueue, hshared⟩ := h.shared_at hc hk phase slot
  obtain rfl : r = r' := Option.some.inj (hshared.symm.trans shared)
  obtain ⟨rest, hrest⟩ := List.head?_eq_some_iff.mp (Slot.isTurn_iff.mp turn)
  obtain rfl : waiting = c.id :: rest := hqueue.symm.trans hrest
  have moved : Move b (.proceed c.id) ((b.recordJoin c.id r).finish c r) :=
    .ends live (.joins phase slot turn shared)
  have hl := logged_recordJoin b c.id r
  have hj := hl.journal_finish r
  have hslots := slots_finish (b.recordJoin c.id r) c r
  have htime := (time_finish _ c r).trans hl.time
  have hcalls {d : Call} : d ∈ ((b.recordJoin c.id r).finish c r).calls ↔ _ := mem_calls_finish
  rw [hl.slots] at hslots
  rw [hl.calls] at hcalls
  generalize (b.recordJoin c.id r).finish c r = b' at moved hj hslots htime hcalls ⊢
  have hlog : ∀ o ∈ [Occurrence.joined r] ++ [.ended r], o.startsFor key = false := by
    simp [Occurrence.startsFor]
  have harrivals := (arrivals_eq h.later.journal hj hlog).trans h.arrived
  have hist := history_of_journal hj
  obtain ⟨hleader, hserved⟩ := h.fresh List.mem_cons_self
  refine ⟨rfl, rest, rfl, h.coherent.move moved, h.later.step moved.nextCall_le hj hlog,
    ?_, ?_, ?_, ?_, ?_, ?_⟩
  · rw [harrivals, List.append_assoc]
    rfl
  · rw [hist, if_neg hleader.symm, List.append_nil]
    exact h.led
  · intro i hi
    rw [hist]
    rcases List.mem_append.mp hi with hi | hi
    · have hne : i ≠ c.id := fun he => hserved (he ▸ hi)
      rw [if_neg hne, List.append_nil]
      exact h.followed i hi
    · obtain rfl := List.mem_singleton.mp hi
      obtain ⟨m, -, hh⟩ := (h.coherent.ledger.living c hc).of_queued (by rw [phase]; rfl)
      exact ⟨c, m, by rw [if_pos rfl, hh]; rfl⟩
  · intro d hd hdk
    exact (List.mem_cons.mp (h.live d (hcalls.mp hd).1 hdk)).resolve_left (hcalls.mp hd).2
  · intro d hd
    rw [htime]
    exact h.intime d (hcalls.mp hd).1
  · intro hne
    obtain ⟨v, hv, hvkey, hvqueue, houtcome, htickets⟩ := h.queue (List.cons_ne_nil _ _)
    have hvid := (h.coherent.holding.slot_of_key hc hv (hvkey.trans hk.symm)).1
    have hexit := Slot.queue_exit_head (h.coherent.holding.slots.queues v hv) hvqueue
    refine ⟨v.exit c.id, ?_, hvkey, hexit, houtcome, fun d hd => htickets d (hcalls.mp hd).1⟩
    rw [hslots, ← hvid]
    exact Slots.exit_mem_release hv hexit hne c.scope.key

/-- In an orderly step no call for the key does anything but take the result. -/
theorem step (h : Serving key leader r b₀ b served waiting) (orderly : e.Orderly key leader b)
    (m : Move b e b') : ∃ served waiting, Serving key leader r b₀ b' served waiting := by
  have hold := h.coherent.holding
  by_cases hconcerns : e.Concerns key b
  · cases m with
    | idle => exact ⟨_, _, h⟩
    | refuses => exact absurd (orderly hconcerns).2 h.not_live
    | serves => exact absurd (orderly hconcerns).2 h.not_live
    | queues => exact absurd (orderly hconcerns).2 h.not_live
    | reads live phase =>
        have hc := mem_calls_of_call? live
        obtain ⟨n, s, queued, -⟩ := h.shared hc ((hold.concerns_iff hc).mp hconcerns)
        cases queued.symm.trans phase
    | goes live going =>
        have hc := mem_calls_of_call? live
        have hk := (going.concerns_iff hold hc).mp hconcerns
        obtain ⟨n, s, queued, -⟩ := h.shared hc hk
        cases going with
        | boards phase slot _ unshared =>
            cases (h.shared_at hc hk phase slot).2.symm.trans unshared
        | sends phase => cases queued.symm.trans phase
        | rereads phase => cases queued.symm.trans phase
    | @ends c e _ w live closing =>
        have hc := mem_calls_of_call? live
        have hk := (closing.concerns_iff hold hc).mp hconcerns
        obtain ⟨n, s, queued, -⟩ := h.shared hc hk
        have hq : c.phase.isQueued = true := by
          rw [queued]
          rfl
        cases closing with
        | joins phase slot turn shares =>
            obtain ⟨rfl, rest, -, hrest⟩ := h.joins live hk phase slot turn shares
            exact ⟨_, _, hrest⟩
        | hits phase slot _ unshared =>
            cases (h.shared_at hc hk phase slot).2.symm.trans unshared
        | lapses _ due =>
            have hdue := h.intime.isDue_eq hc hk (h.fresh (h.live _ hc hk)).1
            cases hdue.symm.trans due
        | unpublished refreshed => cases hq.symm.trans refreshed.aboard
        | published refreshed => cases hq.symm.trans refreshed.aboard
    | cancels live =>
        have hc := mem_calls_of_call? live
        exact absurd ((hold.concerns_iff hc).mp hconcerns) (orderly _ hc rfl)
    | overtakes live phase =>
        have hc := mem_calls_of_call? live
        have hq := orderly _ hc rfl ((hold.concerns_iff hc).mp hconcerns)
        rw [phase] at hq
        cases hq
    | overtakesVisit live phase =>
        have hc := mem_calls_of_call? live
        obtain ⟨n, s, queued, -⟩ := h.shared hc ((hold.concerns_iff hc).mp hconcerns)
        cases queued.symm.trans phase
    | invalidates => exact hconcerns.elim
    | purges => exact hconcerns.elim
    | sets => exact hconcerns.elim
    | ticks => exact hconcerns.elim
  · have a := m.aside hold hconcerns
    refine ⟨_, _, h.aside a (h.coherent.move m) m.nextCall_le ?_⟩
    rcases m.time_eq with htime | ⟨rfl, -⟩
    · rw [htime]
      exact h.intime
    · exact orderly.resolve_left h.not_live

/-- In an orderly run no call for the key does anything but take the result. -/
theorem run (h : Serving key leader r b₀ b served waiting) (events : List Event)
    (orderly : b.Orderly key leader events) :
    ∃ served waiting, Serving key leader r b₀ (b.run events) served waiting := by
  induction events generalizing b served waiting with
  | nil => exact ⟨_, _, h⟩
  | cons e rest ih =>
      obtain ⟨_, _, hstep⟩ := h.step orderly.1 (move_step b e)
      exact ih hstep orderly.2

/-- The first of those that wait has only to go on. -/
theorem proceeds {i : CallId} {rest : List CallId}
    (h : Serving key leader r b₀ b served (i :: rest)) :
    Serving key leader r b₀ (b.step (.proceed i)) (served ++ [i]) rest := by
  obtain ⟨c, hc, rfl, hk⟩ := h.call_of_waiting List.mem_cons_self
  obtain ⟨n, s, phase, slot, hqueue, shared⟩ := h.shared hc hk
  have live : b.call? c.id = some c := h.coherent.holding.call?_eq_some_iff.mpr ⟨hc, rfl⟩
  have turn : s.isTurn c.id = true := Slot.isTurn_iff.mpr (by rw [hqueue, List.head?_cons])
  have hstep : b.step (.proceed c.id) = (b.recordJoin c.id r).finish c r := by
    simp only [Broker.step, proceed, live, phase, slot, turn, board, shared, if_true]
  obtain ⟨-, rest', hrest, hserving⟩ := h.joins live hk phase slot turn shared
  obtain rfl := (List.cons.inj hrest).2
  rw [hstep]
  exact hserving

/-- When those that wait go on in turn, all of them are served. -/
theorem drains (h : Serving key leader r b₀ b served waiting) :
    Serving key leader r b₀ (b.run (waiting.map .proceed)) (served ++ waiting) [] := by
  induction waiting generalizing b served with
  | nil =>
      rw [List.append_nil]
      exact h
  | cons i rest ih =>
      have hrest := ih h.proceeds
      rw [List.append_assoc] at hrest
      exact hrest

end Serving

end FederatedAccess.Broker
