import FederatedAccess.Proofs.Broker.Likeness

/-!
# What a sweep leaves alone

Brokers that differ by sweeps do so after every step, as long as the clock does not move back: a call
that goes on in one of them goes on in the other in the same way, from the same place in the line to
the same next wait or to the same end.
-/

namespace FederatedAccess.Broker

variable {b b' w w' : Broker} {c c' d d' : Call}

namespace Twins

/-! ### How calls end and go on -/

/-- Two calls are for the same key in both brokers or in none. -/
theorem slot_eq_iff (h : Twins b b' c c') (hd : d ∈ b.calls) (hd' : d' ∈ b'.calls)
    (hid : d.id = d'.id) : d.slot = c.slot ↔ d'.slot = c'.slot := by
  have scope : d.scope = d'.scope :=
    (congrArg Call.scope (h.like.same_of_id h.hold h.hold' hd hd' hid) :)
  rw [h.hold.slot_eq_iff h.live hd, h.hold'.slot_eq_iff h.live' hd', scope, h.scope]

/-- The calls find their slots, and it is the turn of the same call there. -/
theorem slots (h : Twins b b' c c') : ∃ s s', b.slots.find? c.slot = some s ∧
    b'.slots.find? c'.slot = some s' ∧ ∀ i, s'.isTurn i = s.isTurn i := by
  obtain ⟨s, slot, line⟩ := h.hold.line_eq h.live
  obtain ⟨s', slot', line'⟩ := h.hold'.line_eq h.live'
  have queue : s'.queue = s.queue := by rw [← line, ← line', ← h.scope, h.like.lines]
  exact ⟨s, s', slot, slot', fun i => by rw [Slot.isTurn, Slot.isTurn, queue]⟩

/-- Lines stay the same when the two calls change those for their key in the same way. -/
theorem lines (h : Twins b b' c c') {g : CallId → List CallId → List CallId} {key : ScopeKey}
    (line : w.line key = if c.scope.key = key then g c.id (b.line key) else b.line key)
    (line' : w'.line key = if c'.scope.key = key then g c'.id (b'.line key) else b'.line key) :
    w.line key = w'.line key := by
  rw [line, line', h.scope, h.id, h.like.lines]

/-- A call ends. -/
theorem finish (h : Twins b b' c c') (r : Except Failure AccessToken) :
    (b.finish c r).Like (b'.finish c' r) where
  plain := by rw [plain_finish, plain_finish, h.like.plain, h.id]
  tokens := h.like.tokens
  lines _ := h.lines (g := fun i q => q.filter (· ≠ i)) (h.hold.queueAt_release h.live)
    (h.hold'.queueAt_release h.live')
  shares d hd d' hd' hid :=
    (h.like.shares d (List.mem_filter.mp hd).1 d' (List.mem_filter.mp hd').1 hid).under
      (.release _ _ _ _) (.release _ _ _ _)

/-- A call leaves its slot behind. -/
theorem abandon (h : Twins b b' c c') :
    (({ b with slots := b.slots.abandon c.slot c.id } : Broker).forget c.id).Like
      (({ b' with slots := b'.slots.abandon c'.slot c'.id } : Broker).forget c'.id) where
  plain := by
    rw [plain_forget, plain_forget, h.id]
    exact congrArg (Broker.forget · c'.id) h.like.plain
  tokens := h.like.tokens
  lines _ := h.lines (g := fun i q => q.filter (· ≠ i)) (h.hold.queueAt_abandon h.live)
    (h.hold'.queueAt_abandon h.live')
  shares d hd d' hd' hid :=
    (h.like.shares d (List.mem_filter.mp hd).1 d' (List.mem_filter.mp hd').1 hid).under
      (.abandon _ _ _) (.abandon _ _ _)

/-- A call that queues goes ahead of the others. -/
theorem advance (h : Twins b b' c c') :
    Like { b with slots := b.slots.modify c.slot (·.advance c.id) }
      { b' with slots := b'.slots.modify c'.slot (·.advance c'.id) } where
  plain := h.like.plain
  tokens := h.like.tokens
  lines _ := h.lines (g := fun i q => i :: q.filter (· ≠ i)) (h.hold.queueAt_advance h.live)
    (h.hold'.queueAt_advance h.live')
  shares d hd d' hd' hid :=
    (h.like.shares d hd d' hd' hid).under (.modify _ _ fun _ => ⟨rfl, rfl, rfl, rfl⟩)
      (.modify _ _ fun _ => ⟨rfl, rfl, rfl, rfl⟩)

/-- An outcome is published. -/
theorem publish (h : Twins b b' c c') (r : Except Failure AccessToken) :
    Twins (b.publish c r) (b'.publish c' r) c c' where
  like :=
    { plain := by rw [plain_publish, plain_publish, h.like.plain, h.id]
      tokens := h.like.tokens
      lines := fun key => (h.hold.queueAt_publish h.live r).trans
        ((h.like.lines key).trans (h.hold'.queueAt_publish h.live' r).symm)
      shares := fun d hd d' hd' hid =>
        (h.like.shares d hd d' hd' hid).publish (h.slot_eq_iff hd hd' hid) r }
  hold := h.hold.publish c r
  hold' := h.hold'.publish c' r
  live := h.live
  live' := h.live'
  same := h.same

/-- A call that has refreshed ends. -/
theorem conclude (h : Twins b b' c c') (r : Except Failure AccessToken) :
    (b.conclude c r).Like (b'.conclude c' r) := by
  unfold Broker.conclude
  split
  · exact h.finish r
  · exact (h.publish r).finish r

/-- A call goes on in a phase in which it does not queue. -/
theorem enter (h : Twins b b' c c') {phase : Phase} (aboard : phase.isQueued = false) :
    (b.enter c.id phase).Like (b'.enter c'.id phase) where
  plain := by rw [plain_enter, plain_enter, h.like.plain, h.id]
  tokens := h.like.tokens
  lines := h.like.lines
  shares d hd d' hd' hid := by
    obtain ⟨u, hu, rfl⟩ := List.mem_map.mp hd
    obtain ⟨u', hu', rfl⟩ := List.mem_map.mp hd'
    intro n n' hn hn'
    split at hn
    · replace hn : phase = .queued n := hn
      rw [hn] at aboard
      cases aboard
    · split at hn'
      · replace hn' : phase = .queued n' := hn'
        rw [hn'] at aboard
        cases aboard
      · rename_i hne hne'
        rw [if_neg hne, if_neg hne'] at hid ⊢
        exact h.like.shares u hu u' hu' hid n n' hn hn'

theorem seek (h : Twins b b' c c') (round : Round) : (b.seek c round).Like (b'.seek c' round) := by
  have visits : Twins (b.visit c.id round) (b'.visit c'.id round) c c' :=
    h.withCache (by rw [h.id, h.like.cache, h.like.clock])
  exact visits.enter rfl

theorem afterExchange (h : Twins b b' c c') (round : Round) (r : Except Failure AccessToken) :
    (b.afterExchange c round r).Like (b'.afterExchange c' round r) := by
  cases r with
  | ok t => exact (h.store t).conclude (.ok t)
  | error f =>
      simp only [Broker.afterExchange]
      split
      · exact (h.note rfl).seek .second
      · exact h.conclude (.error f)

theorem endExchange (h : Twins b b' c c') (round : Round) (r : Except Failure AccessToken) :
    (b.endExchange c round r).Like (b'.endExchange c' round r) :=
  (h.recordExchange r).afterExchange round r

theorem exchange (h : Twins b b' c c') (round : Round) (a : Assertion) :
    (b.exchange c round a).Like (b'.exchange c' round a) := by
  unfold Broker.exchange
  rw [← h.like.exchanger, ← h.scope, ← h.like.clock]
  cases b.exchanger.prepare a.value c.scope with
  | error f => exact h.beginExchange.endExchange round (.error f)
  | ok request => exact (h.beginExchange.note rfl).enter rfl

theorem withAssertion (h : Twins b b' c c') (round : Round) (r : Except Failure Assertion) :
    (b.withAssertion c round r).Like (b'.withAssertion c' round r) := by
  cases r with
  | error f => exact h.conclude (.error f)
  | ok a => exact h.exchange round a

theorem endRead (h : Twins b b' c c') (round : Round) (r : Except Failure String) :
    (b.endRead c round r).Like (b'.endRead c' round r) := by
  unfold Broker.endRead
  rw [← h.like.cache]
  obtain ⟨cache, progress⟩ := b.cache.finish r
  cases progress with
  | ends r' => exact ((h.recordRead r).withCache rfl).withAssertion round r'
  | _ => exact h.like

theorem board (h : Twins b b' c c') {s s' : Slot} {n n' : Nat} (hn : c.phase = .queued n)
    (hn' : c'.phase = .queued n') (slot : b.slots.find? c.slot = some s)
    (slot' : b'.slots.find? c'.slot = some s') : (b.board c s n).Like (b'.board c' s' n') := by
  obtain ⟨hs, hid⟩ := h.hold.slots.find?_eq_some_iff.mp slot
  obtain ⟨hs', hid'⟩ := h.hold'.slots.find?_eq_some_iff.mp slot'
  have boarded : Twins (b.note c.id (.boarded c.slot)) (b'.note c'.id (.boarded c'.slot)) c c' :=
    h.note rfl
  unfold Broker.board
  rw [h.shares.shared? hn hn' hs hid hs' hid', ← h.scope, ← h.like.usable?]
  cases s'.shared? n' with
  | some r => exact (h.recordJoin r).finish r
  | none =>
      cases b.usable? c.scope with
      | some t => exact (boarded.recordHit t).finish (.ok t)
      | none => exact boarded.seek .first

end Twins

/-! ### Steps -/

/-- A call that begins takes the last place in the line for its key. -/
theorem Holding.line_joinQueue (hold : b.Holding) (id : CallId) (scope : ScopeSet)
    (deadline : Option Nat) (key : ScopeKey) : (b.joinQueue id scope deadline).line key =
      if scope.key = key then b.line key ++ [id] else b.line key := by
  have hmodify : (b.joinQueue id scope deadline).line key =
      if (b.slots.take scope.key).1.key = key then
        (b.slots.take scope.key).2.queueAt key ++ [id]
      else (b.slots.take scope.key).2.queueAt key :=
    (hold.slots.take scope.key).queueAt_modify (g := (· ++ [id])) (b.slots.take_mem scope.key)
      (fun _ => rfl) fun _ => rfl
  rw [hmodify, hold.slots.queueAt_take, b.slots.key_take]
  rfl

/-- A call that begins changes nothing but the queue of the slot that it takes. -/
theorem like_take_of_joinQueue {s : Slot} {id : CallId} {scope : ScopeSet} {deadline : Option Nat}
    (hs : s ∈ (b.joinQueue id scope deadline).slots.stored) :
    ∃ u ∈ (b.slots.take scope.key).2.stored, s.Like u :=
  (Slots.Under.modify _ _ (f := (·.enter id)) fun _ => ⟨rfl, rfl, rfl, rfl⟩).like s hs

/-- The slot of a live call is the one that was stored before another call began. -/
theorem Holding.like_of_joinQueue (hold : b.Holding) (hd : d ∈ b.calls) (id : CallId)
    (scope : ScopeSet) (deadline : Option Nat) :
    ∀ s ∈ (b.joinQueue id scope deadline).slots.stored, s.id = d.slot →
      ∃ u ∈ b.slots.stored, s.Like u := by
  intro s hs hid
  obtain ⟨u, hu, hlike⟩ := like_take_of_joinQueue hs
  obtain ⟨v, hv, hvid, -⟩ := hold.held d hd
  have same : u = v := (hold.slots.take scope.key).eq_of_id hu (Slots.mem_take.mpr (.inl hv))
    (hlike.id.symm.trans (hid.trans hvid.symm))
  exact ⟨v, hv, same ▸ hlike⟩

/-- The ticket of a call that begins is the count of its slot. -/
theorem Holding.landed_of_joinQueue (hold : b.Holding) (id : CallId) (scope : ScopeSet)
    (deadline : Option Nat) {n : Nat} (hn : (b.newcomer id scope deadline).phase = .queued n) :
    ∀ s ∈ (b.joinQueue id scope deadline).slots.stored,
      s.id = (b.newcomer id scope deadline).slot → s.landed = n := by
  intro s hs hid
  obtain ⟨u, hu, hlike⟩ := like_take_of_joinQueue hs
  have taken : u = (b.slots.take scope.key).1 := (hold.slots.take scope.key).eq_of_id hu
    (b.slots.take_mem scope.key) (hlike.id.symm.trans hid)
  rw [hlike.landed, taken]
  exact Phase.queued.inj hn

namespace Like

section

variable (h : b.Like b') (hold : b.Holding) (hold' : b'.Holding)
include h hold hold'

theorem joinQueue {id : CallId} (fresh : ∀ d ∈ b.calls, d.id ≠ id)
    (fresh' : ∀ d ∈ b'.calls, d.id ≠ id) (scope : ScopeSet) (deadline : Option Nat) :
    (b.joinQueue id scope deadline).Like (b'.joinQueue id scope deadline) where
  plain := by rw [plain_joinQueue, plain_joinQueue, h.plain, h.time]
  tokens := h.tokens
  lines key := by rw [hold.line_joinQueue, hold'.line_joinQueue, h.lines]
  shares d hd d' hd' hid := by
    rcases List.mem_append.mp hd with hd | hd
    · rcases List.mem_append.mp hd' with hd' | hd'
      · exact (h.shares d hd d' hd' hid).of_like (hold.like_of_joinQueue hd id scope deadline)
          (hold'.like_of_joinQueue hd' id scope deadline)
      · rw [List.mem_singleton.mp hd'] at hid
        exact absurd hid (fresh d hd)
    · rcases List.mem_append.mp hd' with hd' | hd'
      · rw [List.mem_singleton.mp hd] at hid
        exact absurd hid.symm (fresh' d' hd')
      · intro n n' hn hn' s hs hid s' hs' hid'
        rw [List.mem_singleton.mp hd] at hn hid
        rw [List.mem_singleton.mp hd'] at hn' hid'
        have count := hold.landed_of_joinQueue id scope deadline hn s hs hid
        have count' := hold'.landed_of_joinQueue id scope deadline hn' s' hs' hid'
        exact ⟨by rw [count, count', Nat.add_comm], fun moved => absurd count moved⟩

theorem start (scope : ScopeSet) (deadline : Option Nat) :
    (b.start scope deadline).Like (b'.start scope deadline) := by
  have begun := h.admitCall scope deadline
  unfold Broker.start
  rw [← h.nextCall, ← h.usable?]
  dsimp only
  split
  · exact begun.report _ _
  · cases b.usable? scope with
    | some t => exact (begun.recordHit _ t).report _ _
    | none =>
        exact begun.joinQueue (hold.of_eq rfl rfl (Nat.le_succ _))
          (hold'.of_eq rfl rfl (Nat.le_succ _)) (fun d hd => Nat.ne_of_lt (hold.fresh d hd))
          (fun d hd => Nat.ne_of_lt (h.nextCall ▸ hold'.fresh d hd)) scope deadline

theorem proceed (id : CallId) : (b.proceed id).Like (b'.proceed id) := by
  rcases h.call?_cases hold hold' id with ⟨hnone, hnone'⟩ | ⟨c, c', live, live', twins⟩
  · simp only [Broker.proceed, hnone, hnone']
    exact h
  · cases hp : c.phase with
    | queued n =>
        obtain ⟨n', hp'⟩ := twins.queued hp
        obtain ⟨s, s', slot, slot', turn⟩ := twins.slots
        simp only [Broker.proceed, live, live', hp, hp', slot, slot', turn]
        split
        · exact twins.board hp hp' slot slot'
        · exact h
    | reading round =>
        have hp' := twins.phase hp rfl
        simp only [Broker.proceed, live, live', hp, hp', ← h.cache]
        split
        · obtain ⟨served, progress⟩ := b.cache.proceed
          cases progress with
          | ends r => exact (twins.withCache rfl).withAssertion round r
          | begins => exact (h.withCache rfl).beginRead id
          | _ => exact h
        · exact h
    | exchanging round a requestedAt =>
        have hp' := twins.phase hp rfl
        simp only [Broker.proceed, live, live', hp, hp']
        exact h

theorem readDone (id : CallId) (result : Except ReadFailure String) :
    (b.readDone id result).Like (b'.readDone id result) := by
  rcases h.call?_cases hold hold' id with ⟨hnone, hnone'⟩ | ⟨c, c', live, live', twins⟩
  · simp only [Broker.readDone, hnone, hnone']
    exact h
  · cases hp : c.phase with
    | queued n =>
        obtain ⟨n', hp'⟩ := twins.queued hp
        simp only [Broker.readDone, live, live', hp, hp']
        exact h
    | reading round =>
        have hp' := twins.phase hp rfl
        simp only [Broker.readDone, live, live', hp, hp', ← h.cache]
        split
        · exact twins.endRead round _
        · exact h
    | exchanging round a requestedAt =>
        have hp' := twins.phase hp rfl
        simp only [Broker.readDone, live, live', hp, hp']
        exact h

theorem replied (id : CallId) (reply : Reply) : (b.replied id reply).Like (b'.replied id reply) := by
  rcases h.call?_cases hold hold' id with ⟨hnone, hnone'⟩ | ⟨c, c', live, live', twins⟩
  · simp only [Broker.replied, hnone, hnone']
    exact h
  · obtain rfl := id_eq_of_call? live
    cases hp : c.phase with
    | queued n =>
        obtain ⟨n', hp'⟩ := twins.queued hp
        simp only [Broker.replied, live, live', hp, hp']
        exact h
    | reading round =>
        have hp' := twins.phase hp rfl
        simp only [Broker.replied, live, live', hp, hp']
        exact h
    | exchanging round a requestedAt =>
        have hp' := twins.phase hp rfl
        have recorded := twins.recordReply reply
          (b.exchanger.conclude c.scope requestedAt reply).asked
        rw [← twins.id] at recorded
        simp only [Broker.replied, live, live', hp, hp', ← h.exchanger, ← twins.scope]
        exact recorded.endExchange round _

theorem expire (id : CallId) : (b.expire id).Like (b'.expire id) := by
  rcases h.call?_cases hold hold' id with ⟨hnone, hnone'⟩ | ⟨c, c', live, live', twins⟩
  · simp only [Broker.expire, hnone, hnone']
    exact h
  · have due : b'.isDue c' = b.isDue c := twins.isDue
    cases hp : c.phase with
    | queued n =>
        obtain ⟨n', hp'⟩ := twins.queued hp
        obtain ⟨s, s', slot, slot', turn⟩ := twins.slots
        simp only [Broker.expire, live, live', hp, hp', due, slot, slot', Option.any_some, turn]
        split
        · split
          · exact h
          · exact twins.finish _
        · exact h
    | reading round =>
        have hp' := twins.phase hp rfl
        have left : Twins { b with cache := b.cache.leave id } { b' with cache := b.cache.leave id }
            c c' := twins.withCache rfl
        simp only [Broker.expire, live, live', hp, hp', due, ← h.cache]
        split
        · split
          · exact twins.endRead round _
          · split
            · exact h
            · exact left.conclude _
        · exact h
    | exchanging round a requestedAt =>
        have hp' := twins.phase hp rfl
        have cut : Twins (b.note id .cutOff) (b'.note id .cutOff) c c' := by
          have noted : Twins (b.note c.id .cutOff) (b'.note c'.id .cutOff) c c' := twins.note rfl
          rwa [← twins.id, id_eq_of_call? live] at noted
        simp only [Broker.expire, live, live', hp, hp', due]
        split
        · exact cut.conclude _
        · exact h

theorem cancel (id : CallId) : (b.cancel id).Like (b'.cancel id) := by
  rcases h.call?_cases hold hold' id with ⟨hnone, hnone'⟩ | ⟨c, c', live, live', twins⟩
  · simp only [Broker.cancel, hnone, hnone']
    exact h
  · obtain rfl := id_eq_of_call? live
    have abandoned := twins.abandon
    rw [← twins.id] at abandoned
    simp only [Broker.cancel, live, live', ← h.cache]
    exact (abandoned.withCache rfl).note c.id rfl

theorem overtake (id : CallId) : (b.overtake id).Like (b'.overtake id) := by
  rcases h.call?_cases hold hold' id with ⟨hnone, hnone'⟩ | ⟨c, c', live, live', twins⟩
  · simp only [Broker.overtake, hnone, hnone']
    exact h
  · obtain rfl := id_eq_of_call? live
    cases hp : c.phase with
    | queued n =>
        obtain ⟨n', hp'⟩ := twins.queued hp
        have taken : b'.isTaken c'.slot = b.isTaken c.slot := by
          rw [Bool.eq_iff_iff, hold'.isTaken_iff twins.live', hold.isTaken_iff twins.live, h.plain,
            twins.scope]
        simp only [Broker.overtake, live, live', hp, hp', taken]
        split
        · exact h
        · have ahead := twins.advance
          rwa [← twins.id] at ahead
    | reading round =>
        have hp' := twins.phase hp rfl
        simp only [Broker.overtake, live, live', hp, hp', ← h.cache]
        exact h.withCache rfl
    | exchanging round a requestedAt =>
        have hp' := twins.phase hp rfl
        simp only [Broker.overtake, live, live', hp, hp']
        exact h

end

theorem tick (h : b.Like b') (time : Nat) : (b.tick time).Like (b'.tick time) := by
  have kept (w : Broker) : (w.tick time).clock = w.clock ∧ (w.tick time).tokens = w.tokens ∧
      (w.tick time).slots = w.slots ∧ (w.tick time).calls = w.calls := by
    unfold Broker.tick
    split <;> exact ⟨rfl, rfl, rfl, rfl⟩
  obtain ⟨clock, tokens, slots, calls⟩ := kept b
  obtain ⟨-, tokens', slots', calls'⟩ := kept b'
  refine ⟨?_, ?_, ?_, ?_⟩
  · rw [plain_tick, plain_tick, h.plain]
  · rw [clock, tokens, tokens']
    exact h.tokens
  · intro key
    rw [line, line, slots, slots']
    exact h.lines key
  · rw [calls, calls', slots, slots']
    exact h.shares

theorem invalidate (h : b.Like b') (scope : ScopeSet) :
    (b.invalidate scope).Like (b'.invalidate scope) where
  plain := h.plain
  tokens := h.tokens.invalidate scope
  lines := h.lines
  shares := h.shares

theorem setClock (h : b.Like b') {t : Instant} (forward : b.clock ≤ t) :
    (b.setClock t).Like (b'.setClock t) where
  plain := congrArg (Broker.setClock · t) h.plain
  tokens := h.tokens.later forward
  lines := h.lines
  shares := h.shares

theorem symm (h : b.Like b') : b'.Like b where
  plain := h.plain.symm
  tokens := h.clock ▸ h.tokens.symm
  lines key := (h.lines key).symm
  shares d hd d' hd' hid := (h.shares d' hd' d hd hid.symm).symm

/-- A sweep leaves a broker like the other one. -/
theorem purge (h : b.Like b') (hold' : b'.Holding) : b.Like b'.purge where
  plain := h.plain
  tokens := by
    have swept := h.tokens.purge
    rwa [h.clock] at swept ⊢
  lines key := by
    rw [h.lines]
    exact (hold'.slots.queueAt_filter fun s hs => by simp [Slot.isFree, hs]).symm
  shares d hd d' hd' hid := (h.shares d hd d' hd' hid).under (.refl _) (.filter _ _)

/-- Like brokers stay so in every step that does not set the clock back. -/
theorem step (h : b.Like b') (hold : b.Holding) (hold' : b'.Holding) {e : Event}
    (forward : b.clock ≤ (b.step e).clock) : (b.step e).Like (b'.step e) := by
  cases e with
  | start scope deadline => exact h.start hold hold' scope deadline
  | proceed id => exact h.proceed hold hold' id
  | readDone id result => exact h.readDone hold hold' id result
  | replied id reply => exact h.replied hold hold' id reply
  | expire id => exact h.expire hold hold' id
  | cancel id => exact h.cancel hold hold' id
  | overtake id => exact h.overtake hold hold' id
  | invalidate scope => exact h.invalidate scope
  | purge => exact ((h.purge hold').symm.purge hold).symm
  | setClock t => exact h.setClock forward
  | tick time => exact h.tick time

end Like

end FederatedAccess.Broker
