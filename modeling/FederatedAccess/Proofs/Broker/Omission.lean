import FederatedAccess.Proofs.Broker.Move
import FederatedAccess.Proofs.Grant

/-!
# What an invalidation leaves alone

The token of one scope set makes no difference to calls for others: a step that is not about calls
for its key does the same whether the token is dropped before it or after it, and so does a run of
such steps.
-/

namespace FederatedAccess

namespace TokenStore

variable {s : TokenStore} {scope other : ScopeSet}

theorem find?_invalidate_of_ne (h : other.key ≠ scope.key) :
    (s.invalidate scope).find? other.key = s.find? other.key := by
  rw [find?_invalidate, if_neg h]

/-- Dropping a token does not change what is given out for other keys. -/
theorem get?_invalidate_of_ne (h : other.key ≠ scope.key) (now : Instant) :
    (s.invalidate scope).get? other now = s.get? other now := by
  rw [get?, find?_invalidate_of_ne h]
  rfl

theorem holds_invalidate_of_ne (h : other.key ≠ scope.key) :
    (s.invalidate scope).holds other = s.holds other := by
  rw [holds, find?_invalidate_of_ne h]
  rfl

theorem put_invalidate {t : AccessToken} (h : t.scope.key ≠ scope.key) :
    (s.invalidate scope).put t = (s.put t).invalidate scope := by
  have hkeep : decide (t.scope.key ≠ scope.key) = true := decide_eq_true h
  simp only [put, invalidate, List.filter_cons, hkeep, List.filter_filter, Bool.and_comm, if_true]

theorem purge_invalidate (now : Instant) :
    (s.invalidate scope).purge now = (s.purge now).invalidate scope := by
  simp only [purge, invalidate, List.filter_filter, Bool.and_comm]

theorem invalidate_comm : (s.invalidate scope).invalidate other = (s.invalidate other).invalidate
    scope := by
  simp only [invalidate, List.filter_filter, Bool.and_comm]

end TokenStore

namespace Broker

variable {b b' : Broker} {c : Call} {scope : ScopeSet}

/-! ### Parts of steps -/

theorem usable?_invalidate {other : ScopeSet} (h : other.key ≠ scope.key) :
    (b.invalidate scope).usable? other = b.usable? other :=
  TokenStore.get?_invalidate_of_ne h b.clock

theorem store_invalidate {t : AccessToken} (h : t.scope.key ≠ scope.key) (id : CallId) :
    (b.invalidate scope).store id t = (b.store id t).invalidate scope := by
  have hput := TokenStore.put_invalidate (s := b.tokens) h
  simp only [store, invalidate, note, hput]

theorem conclude_invalidate (r : Except Failure AccessToken) :
    (b.invalidate scope).conclude c r = (b.conclude c r).invalidate scope := by
  unfold conclude
  split <;> rfl

theorem afterExchange_invalidate {r : Except Failure AccessToken} (round : Round)
    (h : ∀ t, r = .ok t → t.scope.key ≠ scope.key) :
    (b.invalidate scope).afterExchange c round r =
      (b.afterExchange c round r).invalidate scope := by
  cases r with
  | ok t =>
      simp only [afterExchange]
      rw [store_invalidate (h t rfl), conclude_invalidate]
  | error f =>
      simp only [afterExchange]
      split
      · rfl
      · exact conclude_invalidate _

theorem endExchange_invalidate {r : Except Failure AccessToken} (round : Round)
    (h : ∀ t, r = .ok t → t.scope.key ≠ scope.key) :
    (b.invalidate scope).endExchange c round r = (b.endExchange c round r).invalidate scope :=
  afterExchange_invalidate (b := b.recordExchange c.id r) round h

theorem exchange_invalidate (round : Round) (a : Assertion) :
    (b.invalidate scope).exchange c round a = (b.exchange c round a).invalidate scope := by
  have same : (b.invalidate scope).exchanger = b.exchanger := rfl
  cases h : b.exchanger.prepare a.value c.scope with
  | error f =>
      simp only [exchange, same, h]
      apply endExchange_invalidate (b := b.beginExchange c)
      intro t ht
      cases ht
  | ok request =>
      simp only [exchange, same, h]
      rfl

theorem withAssertion_invalidate (round : Round) (r : Except Failure Assertion) :
    (b.invalidate scope).withAssertion c round r =
      (b.withAssertion c round r).invalidate scope := by
  cases r with
  | error f => exact conclude_invalidate _
  | ok a => exact exchange_invalidate round a

theorem recordRead_invalidate (id : CallId) (r : Except Failure String) :
    (b.invalidate scope).recordRead id r = (b.recordRead id r).invalidate scope := by
  have same : (b.invalidate scope).cache = b.cache := rfl
  cases r with
  | ok text => rfl
  | error f =>
      cases h : b.cache.standIn? with
      | none =>
          simp only [recordRead, same, h]
          rfl
      | some stale =>
          simp only [recordRead, same, h]
          rfl

theorem endRead_invalidate (round : Round) (r : Except Failure String) :
    (b.invalidate scope).endRead c round r = (b.endRead c round r).invalidate scope := by
  have same : (b.invalidate scope).cache = b.cache := rfl
  cases h : b.cache.finish r with
  | mk cache progress =>
      cases progress with
      | ends r' =>
          simp only [endRead, same, h, recordRead_invalidate]
          exact withAssertion_invalidate (b := { b.recordRead c.id r with cache }) round r'
      | _ => simp only [endRead, same, h]

theorem board_invalidate (h : c.scope.key ≠ scope.key) (s : Slot) (ticket : Nat) :
    (b.invalidate scope).board c s ticket = (b.board c s ticket).invalidate scope := by
  unfold board
  rw [usable?_invalidate h]
  split
  · rfl
  · dsimp only
    split <;> rfl

/-! ### Steps -/

/-- No call that has not ended asks for a key. -/
def Idle (b : Broker) (key : ScopeKey) : Prop := ∀ c ∈ b.calls, c.scope.key ≠ key

theorem start_invalidate {other : ScopeSet} (h : other.key ≠ scope.key) (deadline : Option Nat) :
    (b.invalidate scope).start other deadline = (b.start other deadline).invalidate scope := by
  unfold start
  rw [usable?_invalidate h]
  dsimp only
  split
  · rfl
  · split <;> rfl

theorem proceed_invalidate (idle : b.Idle scope.key) (id : CallId) :
    (b.invalidate scope).proceed id = (b.proceed id).invalidate scope := by
  have same : (b.invalidate scope).call? id = b.call? id := rfl
  have slots : (b.invalidate scope).slots = b.slots := rfl
  have cache : (b.invalidate scope).cache = b.cache := rfl
  cases hc : b.call? id with
  | none => simp only [proceed, same, hc]
  | some c =>
      have apart := idle c (mem_calls_of_call? hc)
      cases hp : c.phase with
      | queued ticket =>
          cases hs : b.slots.find? c.slot with
          | none => simp only [proceed, same, hc, hp, slots, hs]
          | some s =>
              simp only [proceed, same, hc, hp, slots, hs]
              split
              · exact board_invalidate apart s ticket
              · rfl
      | reading round =>
          simp only [proceed, same, hc, hp, cache]
          split
          · cases hserved : b.cache.proceed with
            | mk served progress =>
                cases progress with
                | ends r => exact withAssertion_invalidate (b := { b with cache := served }) round r
                | _ => rfl
          · rfl
      | exchanging => simp only [proceed, same, hc, hp]

theorem readDone_invalidate (id : CallId) (result : Except ReadFailure String) :
    (b.invalidate scope).readDone id result = (b.readDone id result).invalidate scope := by
  have same : (b.invalidate scope).call? id = b.call? id := rfl
  have cache : (b.invalidate scope).cache = b.cache := rfl
  cases hc : b.call? id with
  | none => simp only [readDone, same, hc]
  | some c =>
      cases hp : c.phase with
      | reading round =>
          simp only [readDone, same, hc, hp, cache]
          split
          · exact endRead_invalidate round _
          · rfl
      | _ => simp only [readDone, same, hc, hp]

theorem recordReply_invalidate (id : CallId) (reply : Reply)
    (asked : Option Classification.Context) :
    (b.invalidate scope).recordReply id reply asked =
      (b.recordReply id reply asked).invalidate scope := by
  cases asked <;> rfl

theorem replied_invalidate (idle : b.Idle scope.key) (id : CallId) (reply : Reply) :
    (b.invalidate scope).replied id reply = (b.replied id reply).invalidate scope := by
  have same : (b.invalidate scope).call? id = b.call? id := rfl
  have exchanger : (b.invalidate scope).exchanger = b.exchanger := rfl
  cases hc : b.call? id with
  | none => simp only [replied, same, hc]
  | some c =>
      have apart := idle c (mem_calls_of_call? hc)
      cases hp : c.phase with
      | exchanging round a requestedAt =>
          simp only [replied, same, hc, hp, exchanger]
          rw [recordReply_invalidate]
          apply endExchange_invalidate
          intro t ht
          rw [(Exchanger.grants_of_conclude ht).1]
          exact apart
      | _ => simp only [replied, same, hc, hp]

theorem expire_invalidate (id : CallId) :
    (b.invalidate scope).expire id = (b.expire id).invalidate scope := by
  have same : (b.invalidate scope).call? id = b.call? id := rfl
  have slots : (b.invalidate scope).slots = b.slots := rfl
  have cache : (b.invalidate scope).cache = b.cache := rfl
  cases hc : b.call? id with
  | none => simp only [expire, same, hc]
  | some c =>
      have due : (b.invalidate scope).isDue c = b.isDue c := rfl
      cases hp : c.phase with
      | queued ticket =>
          simp only [expire, same, hc, hp, slots, due]
          split
          · split <;> rfl
          · rfl
      | reading round =>
          simp only [expire, same, hc, hp, cache, due]
          split
          · split
            · exact endRead_invalidate round _
            · split
              · rfl
              · exact conclude_invalidate (b := { b with cache := b.cache.leave id }) _
          · rfl
      | exchanging round a requestedAt =>
          simp only [expire, same, hc, hp, due]
          split
          · exact conclude_invalidate (b := b.note id .cutOff) _
          · rfl

theorem cancel_invalidate (id : CallId) :
    (b.invalidate scope).cancel id = (b.cancel id).invalidate scope := by
  have same : (b.invalidate scope).call? id = b.call? id := rfl
  cases hc : b.call? id with
  | none => simp only [cancel, same, hc]
  | some c =>
      simp only [cancel, same, hc]
      rfl

theorem overtake_invalidate (id : CallId) :
    (b.invalidate scope).overtake id = (b.overtake id).invalidate scope := by
  have same : (b.invalidate scope).call? id = b.call? id := rfl
  cases hc : b.call? id with
  | none => simp only [overtake, same, hc]
  | some c =>
      have taken : (b.invalidate scope).isTaken c.slot = b.isTaken c.slot := rfl
      cases hp : c.phase with
      | queued ticket =>
          simp only [overtake, same, hc, hp, taken]
          split <;> rfl
      | reading round =>
          simp only [overtake, same, hc, hp]
          rfl
      | exchanging => simp only [overtake, same, hc, hp]

theorem tick_invalidate (time : Nat) :
    (b.invalidate scope).tick time = (b.tick time).invalidate scope := by
  unfold tick
  change (if b.time ≤ time ∧ b.calls.all (fun c => (lastWait c).all (time ≤ ·)) = true
    then _ else _) = _
  split <;> rfl

/-- Where nobody asks for a key, a step does the same whether the token of the key is dropped before
it or after it. -/
theorem step_invalidate (idle : b.Idle scope.key) {e : Event}
    (he : ∀ other deadline, e = .start other deadline → other.key ≠ scope.key) :
    (b.invalidate scope).step e = (b.step e).invalidate scope := by
  cases e with
  | start other deadline => exact start_invalidate (he other deadline rfl) deadline
  | proceed id => exact proceed_invalidate idle id
  | readDone id result => exact readDone_invalidate id result
  | replied id reply => exact replied_invalidate idle id reply
  | expire id => exact expire_invalidate id
  | cancel id => exact cancel_invalidate id
  | overtake id => exact overtake_invalidate id
  | invalidate other =>
      change { b with tokens := (b.tokens.invalidate scope).invalidate other } = _
      rw [TokenStore.invalidate_comm]
      rfl
  | purge =>
      change { b with slots := _, tokens := (b.tokens.invalidate scope).purge b.clock } = _
      rw [TokenStore.purge_invalidate]
      rfl
  | setClock t => rfl
  | tick time => exact tick_invalidate time

/-- Nobody asks for a key as long as nobody begins to. -/
theorem Idle.step {key : ScopeKey} (idle : b.Idle key) {e : Event}
    (he : ∀ other deadline, e = .start other deadline → other.key ≠ key) : (b.step e).Idle key := by
  intro d hd
  rcases (move_step b e).scope_of_mem hd with ⟨c, hc, hscope⟩ | ⟨deadline, hstart, -⟩
  · rw [← hscope]
    exact idle c hc
  · exact he d.scope deadline hstart

/-- As long as nobody asks for a key, a run is the same with the token of the key and without it. -/
theorem run_invalidate (idle : b.Idle scope.key) {events : List Event}
    (apart : ∀ other deadline, .start other deadline ∈ events → other.key ≠ scope.key) :
    (b.invalidate scope).run events = (b.run events).invalidate scope := by
  induction events generalizing b with
  | nil => rfl
  | cons e rest ih =>
      have he (other : ScopeSet) (deadline : Option Nat) (h : e = .start other deadline) :
          other.key ≠ scope.key := apart other deadline (h ▸ List.mem_cons_self)
      calc
        (b.invalidate scope).run (e :: rest)
          = ((b.step e).invalidate scope).run rest := by
            rw [← step_invalidate idle he]
            rfl
        _ = (b.run (e :: rest)).invalidate scope :=
            ih (idle.step he) fun other deadline h => apart other deadline (List.mem_cons_of_mem _ h)

end Broker

end FederatedAccess
