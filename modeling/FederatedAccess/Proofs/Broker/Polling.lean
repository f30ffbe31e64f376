import FederatedAccess.Proofs.Broker.Arrivals
import FederatedAccess.Proofs.Broker.Deadline
import FederatedAccess.Proofs.Broker.Visiting

/-!
# Calls that are polled at their deadlines

A call whose deadline has come is brought nearer to its end whenever it is polled, that is, goes on
or is cut off, whatever it waits for: a bound on the steps that are left to it (`stepsLeft`) never
grows, whatever else comes in, and each poll lowers it. So no call can keep time from going on.
-/

namespace FederatedAccess.Broker

variable {b b' w : Broker} {c d : Call} {e : Event} {p : Phase}

/-! ### What stays of a call -/

/-- A call changes in nothing but its phase. -/
theorem Move.call_eq (m : Move b e b') (hold : b.Holding) (hc : c ∈ b.calls) (hd : d ∈ b'.calls)
    (hid : d.id = c.id) : d = { c with phase := d.phase } := by
  have same (hd : d ∈ b.calls) : d = { c with phase := d.phase } := by
    rw [hold.eq_of_id hd hc hid]
  cases m with
  | refuses => exact same ((logged_refused b _ _ _).calls ▸ hd)
  | serves => exact same ((logged_served b _ _ _).calls ▸ hd)
  | queues =>
      rcases List.mem_append.mp hd with hd | hd
      · exact same hd
      · rw [List.mem_singleton.mp hd] at hid
        exact absurd hid.symm (Nat.ne_of_lt (hold.fresh c hc))
  | goes _ going =>
      obtain ⟨u, hu, rfl⟩ := List.mem_map.mp hd
      have huid : u.id = c.id := by split at hid <;> exact hid
      obtain rfl := hold.eq_of_id (going.frame.1 ▸ hu) hc huid
      split <;> rfl
  | ends _ closing => exact same (closing.frame.1 ▸ (mem_calls_finish.mp hd).1)
  | cancels => exact same (List.mem_filter.mp hd).1
  | _ => exact same hd

/-- A call that has a smaller number than the next one does not begin again. -/
theorem Move.mem_calls (m : Move b e b') (hd : d ∈ b'.calls) (old : d.id < b.nextCall) :
    ∃ c ∈ b.calls, c.id = d.id := by
  cases m with
  | refuses => exact ⟨d, (logged_refused b _ _ _).calls ▸ hd, rfl⟩
  | serves => exact ⟨d, (logged_served b _ _ _).calls ▸ hd, rfl⟩
  | queues =>
      rcases List.mem_append.mp hd with hd | hd
      · exact ⟨d, hd, rfl⟩
      · rw [List.mem_singleton.mp hd] at old
        exact absurd old (Nat.lt_irrefl _)
  | goes _ going =>
      obtain ⟨u, hu, rfl⟩ := List.mem_map.mp hd
      refine ⟨u, going.frame.1 ▸ hu, ?_⟩
      split <;> rfl
  | ends _ closing => exact ⟨d, closing.frame.1 ▸ (mem_calls_finish.mp hd).1, rfl⟩
  | cancels => exact ⟨d, (List.mem_filter.mp hd).1, rfl⟩
  | _ => exact ⟨d, hd, rfl⟩

/-! ### Steps that are left -/

/-- The steps that a refresh may still take after a round. -/
def roundsLeft : Round → Nat
  | .first => 3
  | .second => 0

/-- How many steps a call may still take before it ends. -/
def stepsLeft (b : Broker) (c : Call) : Nat :=
  match c.phase with
  | .queued _ => 7
  | .reading round => roundsLeft round + if b.cache.isReading c.id then 2 else 3
  | .exchanging round _ _ => roundsLeft round + 1

theorem stepsLeft_pos (b : Broker) (c : Call) : 0 < b.stepsLeft c := by
  unfold stepsLeft
  split
  · decide
  · split <;> omega
  · omega

theorem stepsLeft_le (b : Broker) (c : Call) : b.stepsLeft c ≤ 7 := by
  have hround (round : Round) : roundsLeft round ≤ 3 := by cases round <;> decide
  unfold stepsLeft
  split
  · exact Nat.le_refl 7
  · rename_i round _
    have := hround round
    split <;> omega
  · rename_i round _ _ _
    have := hround round
    omega

/-- A call that goes on has fewer steps left. -/
theorem Advance.stepsLeft_lt (h : Advance b c e b') (hold : b.Holding) (hc : c ∈ b.calls)
    (hd : d ∈ b'.calls) (hid : d.id = c.id) : b'.stepsLeft d < b.stepsLeft c := by
  cases h with
  | @reads round cache phase turn served =>
      obtain rfl := hold.eq_of_id hd hc hid
      obtain ⟨v, rest, hv, hcall, outside⟩ := AssertionCache.isTurn_iff.mp turn
      obtain ⟨u, rest', hu, -, rfl⟩ := AssertionCache.of_proceed_eq_begins served
      obtain ⟨rfl, rfl⟩ := List.cons.inj (hv.symm.trans hu)
      have hbefore : b.cache.isReading d.id = false := by simp [AssertionCache.isReading, hv, outside]
      have hafter : ({ b.cache with visits := { v with reading := true } :: rest } :
          AssertionCache).isReading d.id = true := by simp [AssertionCache.isReading, hcall]
      simp only [stepsLeft, phase, hbefore]
      change roundsLeft round + (if ({ b.cache with visits := { v with reading := true } :: rest } :
          AssertionCache).isReading d.id = true then 2 else 3) < _
      rw [hafter]
      simp
  | goes going =>
      obtain rfl := hold.of_mem_enter hc going.frame.1 hd hid
      cases going with
      | boards phase =>
          simp only [stepsLeft, phase, roundsLeft]
          split <;> omega
      | sends phase =>
          simp only [stepsLeft, phase]
          split <;> omega
      | rereads phase =>
          simp only [stepsLeft, phase, roundsLeft]
          split <;> omega
  | ends => exact absurd hid (mem_calls_finish.mp hd).2

/-- A step of a call either moves it on or changes nothing that counts, and a step of another call
changes nothing. -/
theorem Move.stepsLeft_le (m : Move b e b') (hold : b.Holding) (visiting : b.Visiting)
    (hc : c ∈ b.calls) (hd : d ∈ b'.calls) (hid : d.id = c.id) :
    b'.stepsLeft d ≤ b.stepsLeft c := by
  have visiting' := visiting.move hold m
  have spared (s : Spared b b' c.id) : b'.stepsLeft d ≤ b.stepsLeft c := by
    obtain rfl := hold.eq_of_id ((s.calls d hid).mp hd) hc hid
    have hreading := s.isReading_eq visiting visiting'
    refine Nat.le_of_eq ?_
    simp only [stepsLeft, hreading]
  by_cases actor : e.actor? b = some c.id
  · cases m.acts hold hc actor with
    | advances advance => exact Nat.le_of_lt (advance.stepsLeft_lt hold hc hd hid)
    | cancelled _ gone => exact absurd hid (gone d hd)
    | stays calls journal visits => exact spared (.quiet calls journal visits)
  · exact spared (m.spared actor)

/-! ### Polls -/

/-- A call whose deadline has come is polled: it goes on if it can, and is cut off otherwise. -/
def poll (id : CallId) : List Event := [.proceed id, .expire id]

/-- A call whose deadline has come either goes on or, where it cannot, is cut off. -/
theorem advance_of_isDue (hold : b.Holding) (visiting : b.Visiting) (hc : c ∈ b.calls)
    (due : b.isDue c = true) :
    Advance b c (.proceed c.id) (b.step (.proceed c.id)) ∨
      b.step (.proceed c.id) = b ∧ Advance b c (.expire c.id) (b.step (.expire c.id)) := by
  have live : b.call? c.id = some c := hold.call?_eq_some_iff.mpr ⟨hc, rfl⟩
  cases phase : c.phase with
  | queued n =>
      obtain ⟨s, hs, hsid, -⟩ := hold.held c hc
      have slot : b.slots.find? c.slot = some s := hold.slots.find?_eq_some_iff.mpr ⟨hs, hsid⟩
      cases turn : s.isTurn c.id with
      | true =>
          refine .inl ?_
          simp only [step, proceed, live, phase, slot, turn, if_true]
          exact advance_board phase slot turn
      | false =>
          refine .inr ⟨?_, ?_⟩
          · simp [step, proceed, live, phase, slot, turn]
          · simp only [step, expire, live, due, phase, slot, turn, Option.any_some, if_true,
              Bool.false_eq_true, if_false]
            refine .ends (.lapses phase due fun u hu => ?_)
            rwa [← Option.some.inj (slot.symm.trans hu)]
  | reading round =>
      cases turn : b.cache.isTurn c.id with
      | true =>
          refine .inl ?_
          obtain ⟨v, rest, hv, hcall, outside⟩ := AssertionCache.isTurn_iff.mp turn
          have asks : v.lookup ≠ .peek := by
            rw [visiting.lookup_eq hold hc phase (by simp [hv]) hcall]
            cases round <;> simp [Round.lookup]
          rcases AssertionCache.proceed_cases hv outside asks with served | ⟨a, -, -, served⟩
          · simp only [step, proceed, live, phase, turn, served, if_true]
            exact .reads phase turn served
          · simp only [step, proceed, live, phase, turn, served, if_true]
            exact advance_withAssertion phase (.fresh turn served)
      | false =>
          refine .inr ⟨by simp [step, proceed, live, phase, turn], ?_⟩
          cases reading : b.cache.isReading c.id with
          | true =>
              obtain ⟨v, rest, hv, -, inside⟩ := AssertionCache.isReading_iff.mp reading
              obtain ⟨cache, r, served, -⟩ :=
                AssertionCache.finish_cases hv inside (.error (.timeout .assertionRead))
              simp only [step, expire, live, due, phase, reading, endRead, served, if_true]
              exact advance_withAssertion phase (.late due reading served)
          | false =>
              simp only [step, expire, live, due, phase, reading, turn, if_true,
                Bool.false_eq_true, if_false]
              exact advance_conclude (.unserved phase due ⟨reading, turn⟩)
  | exchanging round a requestedAt =>
      refine .inr ⟨by simp [step, proceed, live, phase], ?_⟩
      simp only [step, expire, live, due, phase, if_true]
      exact advance_conclude (.cutOff phase due)

/-- A poll of a call whose deadline has come leaves it fewer steps. -/
theorem stepsLeft_poll (hold : b.Holding) (visiting : b.Visiting) (hc : c ∈ b.calls)
    (due : b.isDue c = true) (hd : d ∈ (b.run (poll c.id)).calls) (hid : d.id = c.id) :
    (b.run (poll c.id)).stepsLeft d < b.stepsLeft c := by
  have proceeded := move_step b (.proceed c.id)
  have expired := move_step (b.step (.proceed c.id)) (.expire c.id)
  have hold' := hold.move proceeded
  change d ∈ ((b.step (.proceed c.id)).step (.expire c.id)).calls at hd
  change ((b.step (.proceed c.id)).step (.expire c.id)).stepsLeft d < _
  rcases advance_of_isDue hold visiting hc due with advanced | ⟨same, advanced⟩
  · have old : d.id < (b.step (.proceed c.id)).nextCall := by
      rw [hid]
      exact Nat.lt_of_lt_of_le (hold.fresh c hc) proceeded.nextCall_le
    obtain ⟨u, hu, huid⟩ := expired.mem_calls hd old
    calc ((b.step (.proceed c.id)).step (.expire c.id)).stepsLeft d
        ≤ (b.step (.proceed c.id)).stepsLeft u :=
          expired.stepsLeft_le hold' (visiting.move hold proceeded) hu hd huid.symm
      _ < b.stepsLeft c := advanced.stepsLeft_lt hold hc hu (huid.trans hid)
  · rw [same] at hd ⊢
    exact advanced.stepsLeft_lt hold hc hd hid

/-! ### Runs -/

theorem run_append (b : Broker) (l l' : List Event) : b.run (l ++ l') = (b.run l).run l' :=
  List.foldl_append

/-- One state comes after another, and calls that were there at first have changed in nothing but
their phases and have no more steps left. -/
structure Remains (b b' : Broker) : Prop where
  calls : ∀ d ∈ b'.calls, d.id < b.nextCall →
    ∃ c ∈ b.calls, d = { c with phase := d.phase } ∧ b'.stepsLeft d ≤ b.stepsLeft c
  next : b.nextCall ≤ b'.nextCall
  time : b.time ≤ b'.time

namespace Remains

theorem refl (b : Broker) : Remains b b :=
  ⟨fun d hd _ => ⟨d, hd, rfl, Nat.le_refl _⟩, Nat.le_refl _, Nat.le_refl _⟩

theorem trans {b'' : Broker} (h : Remains b b') (h' : Remains b' b'') : Remains b b'' where
  calls d hd old := by
    obtain ⟨u, hu, heq, hle⟩ := h'.calls d hd (Nat.lt_of_lt_of_le old h.next)
    have huid : u.id = d.id := by rw [heq]
    obtain ⟨c, hc, heq', hle'⟩ := h.calls u hu (huid ▸ old)
    exact ⟨c, hc, by rw [heq, heq'], Nat.le_trans hle hle'⟩
  next := Nat.le_trans h.next h'.next
  time := Nat.le_trans h.time h'.time

theorem move (m : Move b e b') (hold : b.Holding) (visiting : b.Visiting) : Remains b b' where
  calls d hd old := by
    obtain ⟨c, hc, hid⟩ := m.mem_calls hd old
    exact ⟨c, hc, m.call_eq hold hc hd hid.symm, m.stepsLeft_le hold visiting hc hd hid.symm⟩
  next := m.nextCall_le
  time := by
    rcases m.time_eq with htime | ⟨-, htime⟩
    · exact Nat.le_of_eq htime.symm
    · exact htime

theorem run (hold : b.Holding) (visiting : b.Visiting) (events : List Event) :
    (b.run events).Holding ∧ (b.run events).Visiting ∧ Remains b (b.run events) :=
  run_keeps (P := fun w => w.Holding ∧ w.Visiting ∧ Remains b w)
    (fun _ _ _ ⟨hold, visiting, h⟩ m =>
      ⟨hold.move m, visiting.move hold m, h.trans (.move m hold visiting)⟩)
    ⟨hold, visiting, .refl b⟩ events

/-- A call that is live was so before, if it had begun. -/
theorem origin (h : Remains b b') (hold : b.Holding) (hc : c ∈ b.calls) (hd : d ∈ b'.calls)
    (hid : d.id = c.id) : d = { c with phase := d.phase } ∧ b'.stepsLeft d ≤ b.stepsLeft c := by
  obtain ⟨u, hu, heq, hle⟩ := h.calls d hd (hid ▸ hold.fresh c hc)
  have huid : u.id = d.id := by rw [heq]
  obtain rfl := hold.eq_of_id hu hc (huid.trans hid)
  exact ⟨heq, hle⟩

/-- A deadline that has come stays so. -/
theorem isDue (h : Remains b b') (heq : d = { c with phase := p }) (due : b.isDue c = true) :
    b'.isDue d = true := by
  obtain ⟨limit, hlimit, hle⟩ := isDue_iff.mp due
  exact isDue_iff.mpr ⟨limit, by rw [heq, ← hlimit], Nat.le_trans hle h.time⟩

end Remains

/-- Whatever comes in between, a call whose deadline has come ends when it is polled often enough. -/
theorem ended_of_polls (hold : b.Holding) (visiting : b.Visiting) (hc : c ∈ b.calls)
    (due : b.isDue c = true) {between : List (List Event)}
    (enough : b.stepsLeft c ≤ between.length) :
    ∀ d ∈ (b.run (between.flatMap (· ++ poll c.id))).calls, d.id ≠ c.id := by
  induction between generalizing b c with
  | nil =>
      have hpos := b.stepsLeft_pos c
      rw [List.length_nil] at enough
      omega
  | cons events rest ih =>
      intro d hd hid
      rw [List.flatMap_cons, run_append, run_append] at hd
      obtain ⟨hold₁, visiting₁, remains₁⟩ := Remains.run hold visiting events
      obtain ⟨hold₂, visiting₂, remains₂⟩ := Remains.run hold₁ visiting₁ (poll c.id)
      obtain ⟨-, -, remains₃⟩ := Remains.run hold₂ visiting₂ (rest.flatMap (· ++ poll c.id))
      have old : d.id < b.nextCall := hid ▸ hold.fresh c hc
      -- the call would have to be live after the other events and after the poll
      obtain ⟨u, hu, heq, -⟩ := remains₃.calls d hd
        (Nat.lt_of_lt_of_le old (Nat.le_trans remains₁.next remains₂.next))
      have huid : u.id = c.id := by rw [← hid, heq]
      obtain ⟨v, hv, heq', -⟩ := remains₂.calls u hu
        (Nat.lt_of_lt_of_le (huid ▸ hold.fresh c hc) remains₁.next)
      have hvid : v.id = c.id := by rw [← huid, heq']
      obtain ⟨hphase, hle⟩ := remains₁.origin hold hc hv hvid
      have due₁ := remains₁.isDue hphase due
      have hlt : ((b.run events).run (poll c.id)).stepsLeft u < (b.run events).stepsLeft v := by
        rw [← hvid] at hu ⊢
        exact stepsLeft_poll hold₁ visiting₁ hv due₁ hu (huid.trans hvid.symm)
      rw [List.length_cons] at enough
      have hgone := ih hold₂ visiting₂ hu (remains₂.isDue heq' due₁) (by omega)
      rw [huid] at hgone
      exact hgone d hd hid

/-! ### Time goes on -/

/-- Whether an event is a part of a poll. -/
def Event.isPoll : Event → Bool
  | .proceed _ => true
  | .expire _ => true
  | _ => false

/-- Polls let no time pass and begin no calls. -/
theorem Move.of_isPoll (m : Move b e b') (h : e.isPoll = true) :
    b'.time = b.time ∧ b'.nextCall = b.nextCall := by
  have still : b'.time = b.time := by
    rcases m.time_eq with htime | ⟨rfl, -⟩
    · exact htime
    · cases h
  refine ⟨still, ?_⟩
  cases m with
  | refuses => cases h
  | serves => cases h
  | queues => cases h
  | goes _ going => exact going.frame.2.2.1
  | ends _ closing => exact closing.frame.2
  | _ => rfl

theorem run_of_isPoll (b : Broker) {events : List Event} (h : ∀ e ∈ events, e.isPoll = true) :
    (b.run events).time = b.time ∧ (b.run events).nextCall = b.nextCall := by
  induction events generalizing b with
  | nil => exact ⟨rfl, rfl⟩
  | cons e rest ih =>
      obtain ⟨htime, hnext⟩ := (move_step b e).of_isPoll (h e List.mem_cons_self)
      obtain ⟨htime', hnext'⟩ := ih (b.step e) fun f hf => h f (List.mem_cons_of_mem _ hf)
      exact ⟨htime'.trans htime, hnext'.trans hnext⟩

/-- Polls of all calls whose deadlines have come, often enough for each of them to end. -/
def settling (b : Broker) : List Event :=
  (b.calls.filter b.isDue).flatMap fun c => (List.replicate 7 (poll c.id)).flatten

theorem isPoll_of_mem_settling (h : e ∈ b.settling) : e.isPoll = true := by
  obtain ⟨c, -, he⟩ := List.mem_flatMap.mp h
  obtain ⟨l, hl, he⟩ := List.mem_flatten.mp he
  rw [List.eq_of_mem_replicate hl] at he
  rcases List.mem_pair.mp he with rfl | rfl <;> rfl

theorem run_settling (b : Broker) :
    (b.run b.settling).time = b.time ∧ (b.run b.settling).nextCall = b.nextCall :=
  run_of_isPoll b fun _ => isPoll_of_mem_settling

/-- After these polls only calls are left whose deadlines are still to come. -/
theorem isDue_eq_of_settling (hold : b.Holding) (visiting : b.Visiting)
    (hd : d ∈ (b.run b.settling).calls) :
    ∃ c ∈ b.calls, d = { c with phase := d.phase } ∧ b.isDue c = false := by
  obtain ⟨hold', -, remains⟩ := Remains.run hold visiting b.settling
  obtain ⟨c, hc, heq, -⟩ := remains.calls d hd (b.run_settling.2 ▸ hold'.fresh d hd)
  refine ⟨c, hc, heq, Bool.eq_false_iff.mpr fun due => ?_⟩
  obtain ⟨before, after, hsplit⟩ := List.append_of_mem (List.mem_filter.mpr ⟨hc, due⟩)
  -- the seven polls of the call among the others
  let between : List (List Event) :=
    (before.flatMap fun c => (List.replicate 7 (poll c.id)).flatten) :: List.replicate 6 []
  have hpolls : b.settling = between.flatMap (· ++ poll c.id) ++
      after.flatMap fun c => (List.replicate 7 (poll c.id)).flatten := by
    simp [settling, hsplit, between, List.replicate]
  have enough : b.stepsLeft c ≤ between.length := b.stepsLeft_le c
  have hgone := ended_of_polls hold visiting hc due enough
  obtain ⟨hold₁, visiting₁, remains₁⟩ :=
    Remains.run hold visiting (between.flatMap (· ++ poll c.id))
  obtain ⟨-, -, remains₂⟩ := Remains.run hold₁ visiting₁
    (after.flatMap fun c => (List.replicate 7 (poll c.id)).flatten)
  rw [hpolls, run_append] at hd
  have hid : d.id = c.id := by rw [heq]
  obtain ⟨u, hu, heq', -⟩ := remains₂.calls d hd
    (Nat.lt_of_lt_of_le (hid ▸ hold.fresh c hc) remains₁.next)
  exact hgone u hu (by rw [← hid, heq'])

/-- Once the calls whose deadlines have come are polled, time goes on until the next deadline. -/
theorem time_tick_settling (hold : b.Holding) (visiting : b.Visiting) {time : Nat}
    (later : b.time ≤ time)
    (next : ∀ c ∈ b.calls, ∀ limit ∈ c.deadline, b.time < limit → time ≤ limit) :
    ((b.run b.settling).step (.tick time)).time = time := by
  have htime := b.run_settling.1
  have waits : (b.run b.settling).calls.all (fun c => (lastWait c).all (time ≤ ·)) = true := by
    refine List.all_eq_true.mpr fun d hd => ?_
    obtain ⟨c, hc, heq, due⟩ := isDue_eq_of_settling hold visiting hd
    rw [heq]
    cases hdeadline : c.deadline with
    | none => simp [lastWait]
    | some limit =>
        have hlimit : b.time < limit := by simpa [isDue, hdeadline] using due
        have hle : time ≤ max limit c.started :=
          Nat.le_trans (next c hc limit hdeadline hlimit) (Nat.le_max_left _ _)
        simpa [lastWait, hdeadline] using hle
  simp only [step, tick, htime, later, waits, and_self, if_true]

end FederatedAccess.Broker
