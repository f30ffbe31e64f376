import FederatedAccess.Proofs.Broker.Serving

/-!
# Calls that gather behind a leader

While the first of some calls for one key refreshes, or waits to do so, the calls that come queue
behind it in their order, all with the ticket of that moment (`Gathering`). Nothing is stored for
the key and nothing is published in its slot until the leader ends, and from then on the others are
served.
-/

namespace FederatedAccess.Broker

/-- The calls for a key that have begun since an earlier state queue behind the leader. -/
structure Gathering (key : ScopeKey) (leader : CallId) (b₀ b : Broker) : Prop where
  coherent : b.Coherent
  later : Later key b₀ b
  unstored : b.tokens.find? key = none
  queue : ∃ s ∈ b.slots.stored, s.key = key ∧ s.queue = arrivals b₀ b key ∧
    s.queue.head? = some leader ∧
    ∀ c ∈ b.calls, c.scope.key = key → c.phase.isQueued = true → c.phase = .queued s.landed

/-- Where no token is stored, none is usable. -/
theorem usable?_eq_none {b : Broker} {scope : ScopeSet} (h : b.tokens.find? scope.key = none) :
    b.usable? scope = none := by
  rw [usable?, TokenStore.get?, h, Option.filter_none]

namespace Gathering

variable {key : ScopeKey} {leader : CallId} {b₀ b b' : Broker} {c : Call} {e : Event}
  {r : Except Failure AccessToken} {w : Broker}

/-- The leader is live. -/
theorem leader_live (h : Gathering key leader b₀ b) : ∃ c ∈ b.calls, c.id = leader := by
  obtain ⟨s, hs, -, -, hhead, -⟩ := h.queue
  obtain ⟨c, hc, hid, -⟩ := h.coherent.holding.holders s hs leader (List.mem_of_head? hhead)
  exact ⟨c, hc, hid⟩

/-- A call for the key has arrived and waits in the slot of the key, if it is not aboard. -/
theorem waits (h : Gathering key leader b₀ b) (hc : c ∈ b.calls) (hk : c.scope.key = key) :
    c.id ∈ arrivals b₀ b key ∧ ∃ s, b.slots.find? c.slot = some s ∧
      s.queue.head? = some leader ∧ (c.phase.isQueued = true → c.phase = .queued s.landed) := by
  have hold := h.coherent.holding
  obtain ⟨s, hs, hskey, hqueue, hhead, htickets⟩ := h.queue
  obtain ⟨hsid, hmem⟩ := hold.slot_of_key hc hs (hskey.trans hk.symm)
  exact ⟨hqueue ▸ hmem, s, hold.slots.find?_eq_some_iff.mpr ⟨hs, hsid⟩, hhead, htickets c hc hk⟩

/-- Only the leader is aboard. -/
theorem eq_leader (h : Gathering key leader b₀ b) (hc : c ∈ b.calls) (hk : c.scope.key = key)
    (aboard : c.phase.isQueued = false) : c.id = leader := by
  obtain ⟨-, s, hslot, hhead, -⟩ := h.waits hc hk
  obtain ⟨hs, hsid⟩ := h.coherent.holding.slots.find?_eq_some_iff.mp hslot
  exact Option.some.inj ((h.coherent.holding.taken c hc aboard s hs hsid).symm.trans hhead)

/-- A step in which no call for the key begins, queues or leaves, and nothing is stored for it. -/
theorem keep {id : CallId} {log : List Occurrence} (h : Gathering key leader b₀ b)
    (m : Move b e b') (hj : b'.journal = b.journal ++ log.map (b.entry id))
    (hlog : ∀ o ∈ log, o.startsFor key = false) (unstored : b'.tokens.find? key = none)
    (slots : ∀ s ∈ b.slots.stored, s.key = key → s.queue ≠ [] → s ∈ b'.slots.stored)
    (calls : ∀ c ∈ b'.calls, c.scope.key = key → c.phase.isQueued = true → c ∈ b.calls) :
    Gathering key leader b₀ b' := by
  obtain ⟨s, hs, hskey, hqueue, hhead, htickets⟩ := h.queue
  have hne : s.queue ≠ [] := List.ne_nil_of_mem (List.mem_of_head? hhead)
  have harrivals := arrivals_eq h.later.journal hj hlog
  refine ⟨h.coherent.move m, h.later.step m.nextCall_le hj hlog, unstored, s,
    slots s hs hskey hne, hskey, hqueue.trans harrivals.symm, hhead, ?_⟩
  intro c hc hk hq
  exact htickets c (calls c hc hk hq) hk hq

/-- A call for the key comes and queues. -/
theorem queues {scope : ScopeSet} {deadline : Option Nat} (coherent : b.Coherent)
    (later : Later scope.key b₀ b) (unstored : b.tokens.find? scope.key = none)
    (some : scope.isEmpty = false)
    (queue : (b.slots.take scope.key).1.queue = arrivals b₀ b scope.key)
    (head : (arrivals b₀ b scope.key ++ [b.nextCall]).head? = .some leader)
    (tickets : ∀ c ∈ b.calls, c.scope.key = scope.key → c.phase.isQueued = true →
      c.phase = .queued (b.slots.take scope.key).1.landed) :
    Gathering scope.key leader b₀
      ((b.admitCall scope deadline).joinQueue b.nextCall scope deadline) := by
  have moved : Move b (.start scope deadline) _ := .queues some (usable?_eq_none unstored)
  have next : ((b.admitCall scope deadline).joinQueue b.nextCall scope deadline).nextCall =
      b.nextCall + 1 := (logged_admitCall b scope deadline).nextCall
  have htokens : ((b.admitCall scope deadline).joinQueue b.nextCall scope deadline).tokens =
      b.tokens := (logged_admitCall b scope deadline).tokens
  have hslots : ((b.admitCall scope deadline).joinQueue b.nextCall scope deadline).slots =
      (b.slots.take scope.key).2.modify (b.slots.take scope.key).1.id (·.enter b.nextCall) := rfl
  have hcalls : ((b.admitCall scope deadline).joinQueue b.nextCall scope deadline).calls =
      b.calls ++ [b.newcomer b.nextCall scope deadline] := rfl
  have hj := journal_queue b scope deadline
  generalize (b.admitCall scope deadline).joinQueue b.nextCall scope deadline = b' at *
  obtain ⟨hlater, harrivals⟩ := later.arrive next hj rfl (by simp [Occurrence.startsFor])
  refine ⟨coherent.move moved, hlater, htokens ▸ unstored,
    (b.slots.take scope.key).1.enter b.nextCall, ?_, b.slots.key_take scope.key, ?_, ?_, ?_⟩
  · rw [hslots]
    exact Slots.mem_modify.mpr ⟨_, b.slots.take_mem scope.key, if_pos rfl⟩
  · rw [harrivals, ← queue]
    rfl
  · rw [← head, ← queue]
    rfl
  · intro c hc hk hq
    rw [hcalls] at hc
    rcases List.mem_append.mp hc with hc | hc
    · exact tickets c hc hk hq
    · rw [List.mem_singleton.mp hc]
      rfl

/-- Another call for the key comes. -/
theorem arrives {scope : ScopeSet} {deadline : Option Nat} (h : Gathering scope.key leader b₀ b)
    (some : scope.isEmpty = false) : Gathering scope.key leader b₀
      ((b.admitCall scope deadline).joinQueue b.nextCall scope deadline) := by
  obtain ⟨s, hs, hskey, hqueue, hhead, htickets⟩ := h.queue
  have htake : (b.slots.take scope.key).1 = s := by
    rcases b.slots.take_cases scope.key with ⟨-, hmem⟩ | ⟨-, hnone, -⟩
    · apply h.coherent.holding.slots.eq_of_key hmem hs
      rw [b.slots.key_take, hskey]
    · exact absurd hskey (hnone s hs)
  rw [hqueue] at hhead
  refine .queues h.coherent h.later h.unstored some (htake ▸ hqueue) ?_ (htake ▸ htickets)
  rw [List.head?_append, hhead]
  rfl

/-- A call goes on to its next wait. -/
theorem goes {p : Phase} (h : Gathering key leader b₀ b) (live : b.call? c.id = some c)
    (going : Going b c e p w) : Gathering key leader b₀ (w.enter c.id p) := by
  obtain ⟨hcalls, hslots, -, htokens⟩ := going.frame
  obtain ⟨log, hj, hlog⟩ : ∃ log : List Occurrence,
      w.journal = b.journal ++ log.map (b.entry c.id) ∧ ∀ o ∈ log, o.startsFor key = false := by
    obtain ⟨-, log, hlog, hl⟩ := going.quiet
    refine ⟨log, hl.journal, fun o ho => ?_⟩
    exact Occurrence.startsFor_eq (Occurrence.isStarted_eq_of_isQuiet (hlog o ho))
  have hstored : ∀ s ∈ b.slots.stored, s.key = key → s.queue ≠ [] →
      s ∈ (w.enter c.id p).slots.stored := fun s hs _ _ => hslots ▸ hs
  refine h.keep (.goes live going) hj hlog (htokens ▸ h.unstored) hstored ?_
  intro d hd _ hq
  obtain ⟨d', hd', rfl⟩ := List.mem_map.mp hd
  split at hq
  · cases going.quiet.1.symm.trans hq
  · rw [if_neg ‹_›]
    exact hcalls ▸ hd'

/-- The leader publishes its result, and the others are served from then on. -/
theorem publishes (h : Gathering key leader b₀ b) (live : b.call? c.id = some c)
    (hk : c.scope.key = key) (refreshed : Refreshed b c e r w) (published : timedOut r = false)
    (intime : b.InTime key leader b.time) :
    ∃ waiting, Serving key leader r b₀ ((w.publish c r).finish c r) [] waiting := by
  have hc := mem_calls_of_call? live
  have hold := h.coherent.holding
  obtain rfl : c.id = leader := h.eq_leader hc hk refreshed.aboard
  obtain ⟨s, hs, hskey, hqueue, hhead, htickets⟩ := h.queue
  obtain ⟨waiting, hwaiting⟩ := List.head?_eq_some_iff.mp hhead
  have hsid := (hold.slot_of_key hc hs (hskey.trans hk.symm)).1
  have closing := Closing.published refreshed published
  have moved : Move b e ((w.publish c r).finish c r) := .ends live closing
  obtain ⟨log, farewell, hl, -⟩ := closing.logged
  have hj := hl.journal_finish r
  have htime := (time_finish (w.publish c r) c r).trans hl.time
  have hcalls {d : Call} : d ∈ ((w.publish c r).finish c r).calls ↔ _ := mem_calls_finish
  rw [closing.frame.1] at hcalls
  have hslots : ((w.publish c r).finish c r).slots =
      (b.slots.modify c.slot (·.publish r)).release c.scope.key c.slot c.id := by
    rw [slots_finish, ← refreshed.frame.2.1]
    rfl
  generalize (w.publish c r).finish c r = b' at moved hj htime hcalls hslots ⊢
  have hlog : ∀ o ∈ log ++ [.ended r], o.startsFor key = false := by
    intro o ho
    rcases List.mem_append.mp ho with ho | ho
    · exact Occurrence.startsFor_eq (farewell.isStarted_eq ho)
    · rw [List.mem_singleton.mp ho]
      rfl
  have harrivals := arrivals_eq h.later.journal hj hlog
  refine ⟨waiting, h.coherent.move moved, h.later.step moved.nextCall_le hj hlog,
    ?_, ?_, ?_, ?_, ?_, ?_⟩
  · rw [harrivals, ← hqueue]
    exact hwaiting
  · rw [history_of_journal hj, if_pos rfl]
    exact .of_aboard (h.coherent.ledger.living c hc) farewell refreshed.aboard
  · intro i hi
    cases hi
  · intro d hd hdk
    obtain ⟨hd, hne⟩ := hcalls.mp hd
    have hmem := (hold.slot_of_key hd hs (hskey.trans hdk.symm)).2
    rw [hwaiting] at hmem
    exact (List.mem_cons.mp hmem).resolve_left hne
  · intro d hd
    rw [htime]
    exact intime d (hcalls.mp hd).1
  · intro hne
    have hpublished : s.publish r ∈ (b.slots.modify c.slot (·.publish r)).stored :=
      Slots.mem_modify.mpr ⟨s, hs, if_pos hsid⟩
    have hexit := Slot.queue_exit_head (s := s.publish r) (hold.slots.queues s hs) hwaiting
    refine ⟨(s.publish r).exit c.id, ?_, hskey, hexit, rfl, ?_⟩
    · rw [hslots, ← hsid]
      rw [← hsid] at hpublished
      exact Slots.exit_mem_release hpublished hexit hne c.scope.key
    · intro d hd hdk
      obtain ⟨hd, hne⟩ := hcalls.mp hd
      have hq : d.phase.isQueued = true := by
        by_contra haboard
        exact hne (h.eq_leader hd hdk (Bool.eq_false_iff.mpr haboard))
      exact ⟨s.landed, htickets d hd hdk hq, Nat.succ_ne_self _⟩

/-- The only call for the key that can end is the leader. -/
theorem ends (h : Gathering key leader b₀ b) (live : b.call? c.id = some c) (hk : c.scope.key = key)
    (closing : Closing b c e r w) (intime : b.InTime key leader b.time)
    (result : ∀ r', .ended r' ∈ (w.finish c r).history leader → timedOut r' = false) :
    ∃ waiting, Serving key leader r b₀ (w.finish c r) [] waiting := by
  have hc := mem_calls_of_call? live
  obtain ⟨-, s, hslot, hhead, hticket⟩ := h.waits hc hk
  obtain ⟨log, -, hl, -⟩ := closing.logged
  cases closing with
  | joins phase slot _ shared =>
      obtain rfl := Option.some.inj (hslot.symm.trans slot)
      -- nothing has landed since the call queued, so there is nothing to share
      have hn := Phase.queued.inj (phase.symm.trans (hticket (by rw [phase]; rfl)))
      exact absurd hn.symm (Slot.shared?_eq_some_iff.mp shared).1
  | hits _ _ _ _ usable => cases usable.symm.trans (usable?_eq_none (hk ▸ h.unstored))
  | lapses phase due waiting =>
      by_cases hid : c.id = leader
      · have hturn : s.isTurn c.id = true := Slot.isTurn_iff.mpr (hid ▸ hhead)
        cases hturn.symm.trans (waiting s hslot)
      · cases due.symm.trans (intime.isDue_eq hc hk hid)
  | unpublished refreshed late =>
      have hended : .ended r ∈ (w.finish c r).history leader := by
        rw [← h.eq_leader hc hk refreshed.aboard, history_of_journal (hl.journal_finish r),
          if_pos rfl]
        simp
      cases late.symm.trans (result r hended)
  | published refreshed published => exact h.publishes live hk refreshed published intime

/-- In an orderly step the calls for the key go on gathering, or the leader publishes its result. -/
theorem step (h : Gathering key leader b₀ b) (orderly : e.Orderly key leader b) (m : Move b e b')
    (intime : b.InTime key leader b.time)
    (result : ∀ r, .ended r ∈ b'.history leader → timedOut r = false) :
    Gathering key leader b₀ b' ∨ ∃ r waiting, Serving key leader r b₀ b' [] waiting := by
  have hold := h.coherent.holding
  by_cases hconcerns : e.Concerns key b
  · cases m with
    | idle => exact .inl h
    | refuses none => cases none.symm.trans (orderly hconcerns).1
    | @serves scope _ _ _ usable =>
        obtain rfl : scope.key = key := hconcerns
        cases usable.symm.trans (usable?_eq_none h.unstored)
    | @queues scope _ some =>
        obtain rfl : scope.key = key := hconcerns
        exact .inl (h.arrives some)
    | @reads c _ cache live phase turn served =>
        have hlog : ∀ o ∈ [Occurrence.readBegun], o.startsFor key = false := by
          simp [Occurrence.startsFor]
        exact .inl (h.keep (.reads live phase turn served) (logged_reads b c.id cache).journal hlog
          h.unstored (fun s hs _ _ => hs) fun d hd _ _ => hd)
    | goes live going => exact .inl (h.goes live going)
    | ends live closing =>
        have hk := (closing.concerns_iff hold (mem_calls_of_call? live)).mp hconcerns
        exact .inr ⟨_, h.ends live hk closing intime result⟩
    | cancels live =>
        have hc := mem_calls_of_call? live
        exact absurd ((hold.concerns_iff hc).mp hconcerns) (orderly _ hc rfl)
    | overtakes live phase =>
        have hc := mem_calls_of_call? live
        have hq := orderly _ hc rfl ((hold.concerns_iff hc).mp hconcerns)
        rw [phase] at hq
        cases hq
    | overtakesVisit live phase =>
        have hj : b.journal = b.journal ++ [].map (b.entry leader) := (List.append_nil _).symm
        exact .inl (h.keep (.overtakesVisit live phase) hj (by simp) h.unstored
          (fun s hs _ _ => hs) fun d hd _ _ => hd)
    | invalidates => exact hconcerns.elim
    | purges => exact hconcerns.elim
    | sets => exact hconcerns.elim
    | ticks => exact hconcerns.elim
  · have a := m.aside hold hconcerns
    obtain ⟨id, log, hj, hlog, -⟩ := a.journal
    exact .inl (h.keep m hj hlog (a.unstored h.unstored) a.slots
      fun c hc hk _ => (a.calls c hk).mp hc)

/-- If the leader ends in an orderly run, and in time for the others, these are served with its
result. -/
theorem run {x : Entry} {events : List Event} (h : Gathering key leader b₀ b)
    (orderly : b.Orderly key leader events) (entered : x ∈ (b.run events).journal)
    (call : x.call = leader) (ended : x.what = .ended r) (intime : timedOut r = false)
    (patient : ∀ i ∈ arrivals b₀ (b.run events) key, i ≠ leader →
      ∀ scope limit, .started scope (some limit) ∈ (b.run events).history i → x.time < limit) :
    ∃ served waiting, Serving key leader r b₀ (b.run events) served waiting := by
  -- the leader is live while the calls gather, so its end lies ahead and bounds the time
  have hfresh {b : Broker} (h : Gathering key leader b₀ b) : x ∉ b.journal := by
    intro hx
    obtain ⟨c, hc, hid⟩ := h.leader_live
    have hended : .ended r ∈ b.history c.id := mem_historyOf.mpr ⟨x, hx, call.trans hid.symm, ended⟩
    exact (h.coherent.ledger.living c hc).not_mem_ended r hended
  induction events generalizing b with
  | nil => exact absurd entered (hfresh h)
  | cons e rest ih =>
      have after := after_run b (e :: rest)
      have hlate : b.time ≤ x.time := by
        obtain ⟨l, hl, hlater⟩ := after.journal
        rw [hl] at entered
        exact hlater x ((List.mem_append.mp entered).resolve_left (hfresh h))
      have hintime : b.InTime key leader b.time := by
        intro c hc hk hne limit hlimit
        have harrived := (arrivals_mono h.later.journal after.grows).subset (h.waits hc hk).1
        have hstarted := (after.history c.id).subset (h.coherent.ledger.living c hc).started
        rw [Option.mem_def.mp hlimit] at hstarted
        exact Nat.lt_of_le_of_lt hlate (patient c.id harrived hne _ _ hstarted)
      have hcoherent : ((b.step e).run rest).Coherent := h.coherent.run (e :: rest)
      have hresult {r' : Except Failure AccessToken} (hr' : .ended r' ∈ (b.step e).history leader) :
          r' = r := by
        have hr : .ended r ∈ ((b.step e).run rest).history leader :=
          mem_historyOf.mpr ⟨x, entered, call, ended⟩
        exact hcoherent.ledger.ended_eq (((after_run (b.step e) rest).history leader).subset hr') hr
      rcases h.step orderly.1 (move_step b e) hintime fun r' hr' => hresult hr' ▸ intime with
        hgathering | ⟨r', waiting, hserving⟩
      · exact ih hgathering orderly.2 entered patient
      · obtain rfl := hresult hserving.led.ended
        exact hserving.run rest orderly.2

end Gathering

end FederatedAccess.Broker
