import FederatedAccess.Proofs.Redaction

/-!
# What a broker does does not depend on secrets

Every step does the same whether the texts of assertions and tokens are struck out before it or
after it. Of a reply only the judgement counts: the exchange goes on with what the reply comes to.
-/

namespace FederatedAccess

/-- A phase in which the text of the assertion is struck out. -/
def Phase.redact : Phase → Phase
  | .exchanging round a requestedAt => .exchanging round a.redact requestedAt
  | p => p

/-- A call in whose phase the text of the assertion is struck out. -/
def Call.redact (c : Call) : Call := { c with phase := c.phase.redact }

/-- A request in whose form the text of the assertion is struck out. -/
def TokenRequest.redact (r : TokenRequest) : TokenRequest :=
  { r with form := r.form.map fun p => if p.1 = "client_assertion" then (p.1, mask) else p }

/-- What stands in place of a reply that is struck out. -/
def Reply.unseen : Reply := ⟨.error .timeout, none⟩

/-- An occurrence in which the texts of assertions and tokens, replies, and the places where documents
break off are struck out. -/
def Occurrence.redact : Occurrence → Occurrence
  | .hit t => .hit t.redact
  | .joined outcome => .joined (redactResult outcome)
  | .readEnded result => .readEnded (AssertionCache.redactRead result)
  | .sent _ scope request => .sent .masked scope request.redact
  | .answered _ => .answered .unseen
  | .exchanged result => .exchanged (redactResult result)
  | .stale failure age => .stale failure.redact age
  | .rejected failure => .rejected failure.redact
  | .stored t => .stored t.redact
  | .published slot outcome => .published slot (redactResult outcome)
  | .ended result => .ended (redactResult result)
  | w => w

/-- An entry in which the texts of assertions and tokens, and replies, are struck out. -/
def Entry.redact (x : Entry) : Entry := { x with what := x.what.redact }

theorem Exchanger.prepare_redact (e : Exchanger) (a : Secret) (scope : ScopeSet) :
    e.prepare .masked scope = (e.prepare a scope).map TokenRequest.redact := by
  unfold prepare
  split
  · rfl
  · split
    · rfl
    · rfl

/-- A request that cannot be made fails without a document. -/
theorem Exchanger.redact_of_prepare {e : Exchanger} {a : Secret} {scope : ScopeSet} {f : Failure}
    (h : e.prepare a scope = .error f) : f.redact = f := by
  unfold prepare at h
  split at h
  · cases h
    rfl
  · split at h
    · cases h
      rfl
    · cases h

namespace Broker

/-- A broker in which the texts of assertions and tokens, and replies, are struck out. -/
def redact (b : Broker) : Broker :=
  { b with
    tokens := b.tokens.redact
    cache := b.cache.redact
    slots := b.slots.redact
    calls := b.calls.map Call.redact
    journal := b.journal.map Entry.redact }

variable {b : Broker} {c : Call}

/-! ### Parts of steps -/

@[simp] theorem redact_note (id : CallId) (what : Occurrence) :
    (b.note id what).redact = b.redact.note id what.redact := by
  simp only [note, redact, List.map_append]
  rfl

@[simp] theorem redact_count (operation : Operation) (outcome : Outcome) :
    (b.count operation outcome).redact = b.redact.count operation outcome := rfl

@[simp] theorem redact_measure (f : Metrics → Metrics) :
    (b.measure f).redact = b.redact.measure f := rfl

theorem call?_redact (id : CallId) : b.redact.call? id = (b.call? id).map Call.redact :=
  List.find?_map

@[simp] theorem redact_enter (id : CallId) (phase : Phase) :
    (b.enter id phase).redact = b.redact.enter id phase.redact := by
  simp only [enter, redact, List.map_map]
  congr 1
  apply List.map_congr_left
  intro c _
  change (if c.id = id then _ else c).redact = if c.id = id then _ else c.redact
  split <;> rfl

@[simp] theorem redact_forget (id : CallId) : (b.forget id).redact = b.redact.forget id := by
  simp only [forget, redact, List.filter_map]
  rfl

theorem ofExcept_redactResult (r : Except Failure AccessToken) :
    Outcome.ofExcept (redactResult r) = .ofExcept r := by
  cases r <;> rfl

@[simp] theorem redact_report (id : CallId) (r : Except Failure AccessToken) :
    (b.report id r).redact = b.redact.report id (redactResult r) := by
  cases r with
  | ok t =>
      simp only [report, redact_measure, redact_count, redact_note]
      rfl
  | error f =>
      simp only [report, redact_measure, redact_count, redact_note]
      rfl

theorem redact_with_slots (slots : Slots) :
    { b with slots }.redact = { b.redact with slots := slots.redact } := rfl

theorem redact_with_calls (slots : Slots) (calls : List Call) :
    { b with slots, calls }.redact =
      { b.redact with slots := slots.redact, calls := calls.map Call.redact } := rfl

theorem redact_with_tokens (tokens : TokenStore) :
    { b with tokens }.redact = { b.redact with tokens := tokens.redact } := rfl

theorem redact_with_cache (cache : AssertionCache) :
    { b with cache }.redact = { b.redact with cache := cache.redact } := rfl

@[simp] theorem redact_finish (r : Except Failure AccessToken) :
    (b.finish c r).redact = b.redact.finish c.redact (redactResult r) := by
  rw [finish, redact_forget, redact_report, redact_with_slots, ← Slots.release_redact]
  rfl

theorem usable?_redact (scope : ScopeSet) :
    b.redact.usable? scope = (b.usable? scope).map AccessToken.redact :=
  TokenStore.get?_redact scope b.clock

@[simp] theorem redact_recordHit (id : CallId) (t : AccessToken) :
    (b.recordHit id t).redact = b.redact.recordHit id t.redact := by
  simp only [recordHit, redact_measure, redact_count, redact_note]
  rfl

@[simp] theorem redact_publish (r : Except Failure AccessToken) :
    (b.publish c r).redact = b.redact.publish c.redact (redactResult r) := by
  rw [publish, redact_note, redact_with_slots,
    ← Slots.modify_redact (f := (·.publish r)) (g := (·.publish (redactResult r))) fun _ => rfl]
  rfl

@[simp] theorem timedOut_redactResult (r : Except Failure AccessToken) :
    timedOut (redactResult r) = timedOut r := by
  cases r with
  | ok t => rfl
  | error f => exact f.isTimeout_redact

@[simp] theorem redact_conclude (r : Except Failure AccessToken) :
    (b.conclude c r).redact = b.redact.conclude c.redact (redactResult r) := by
  unfold conclude
  rw [timedOut_redactResult]
  split
  · exact redact_finish r
  · rw [redact_finish, redact_publish]

@[simp] theorem redact_seek (round : Round) :
    (b.seek c round).redact = b.redact.seek c.redact round := by
  simp only [seek, redact_enter]
  rfl

@[simp] theorem redact_store (id : CallId) (t : AccessToken) :
    (b.store id t).redact = b.redact.store id t.redact := by
  rw [store, redact_note, redact_with_tokens, ← TokenStore.put_redact]
  rfl

@[simp] theorem redact_afterExchange (round : Round) (r : Except Failure AccessToken) :
    (b.afterExchange c round r).redact =
      b.redact.afterExchange c.redact round (redactResult r) := by
  cases r with
  | ok t =>
      simp only [afterExchange, redactResult_ok, redact_conclude, redact_store]
      rfl
  | error f =>
      simp only [afterExchange, redactResult_error, Failure.isInvalidAssertion_redact]
      split
      · rw [redact_seek, redact_note]
        rfl
      · rw [redact_conclude, redactResult_error]

@[simp] theorem redact_endExchange (round : Round) (r : Except Failure AccessToken) :
    (b.endExchange c round r).redact = b.redact.endExchange c.redact round (redactResult r) := by
  rw [endExchange, redact_afterExchange]
  simp only [recordExchange, redact_count, redact_note]
  rw [endExchange, recordExchange, ofExcept_redactResult]
  rfl

@[simp] theorem redact_beginExchange :
    (b.beginExchange c).redact = b.redact.beginExchange c.redact := by
  simp only [beginExchange, redact_count, redact_note, redact_measure]
  rfl

theorem redact_exchange (round : Round) (a : Assertion) :
    (b.exchange c round a).redact = b.redact.exchange c.redact round a.redact := by
  have hprepare : b.redact.exchanger.prepare a.redact.value c.redact.scope =
      (b.exchanger.prepare a.value c.scope).map TokenRequest.redact :=
    b.exchanger.prepare_redact a.value c.scope
  unfold exchange
  rw [hprepare]
  cases prepared : b.exchanger.prepare a.value c.scope with
  | error f =>
      simp only [Except.map, redact_endExchange, redact_beginExchange, redactResult_error,
        Exchanger.redact_of_prepare prepared]
  | ok request =>
      simp only [Except.map, redact_enter, redact_note, redact_beginExchange]
      rfl

theorem redact_withAssertion (round : Round) (r : Except Failure Assertion) :
    (b.withAssertion c round r).redact =
      b.redact.withAssertion c.redact round (redactOf Assertion.redact r) := by
  cases r with
  | error f => exact redact_conclude _
  | ok a => exact redact_exchange round a

theorem redact_recordRead (id : CallId) (r : Except Failure String) :
    (b.recordRead id r).redact = b.redact.recordRead id (AssertionCache.redactRead r) := by
  have hstands : b.redact.cache.standIn? = b.cache.standIn?.map fun p => (p.1.redact, p.2) :=
    AssertionCache.standIn?_redact
  cases r with
  | ok text =>
      simp only [recordRead, redact_count, redact_note]
      rfl
  | error f =>
      simp only [recordRead, AssertionCache.redactRead, redactOf_error, hstands]
      cases b.cache.standIn? with
      | none =>
          simp only [Option.map_none, redact_count, redact_note]
          rfl
      | some stale =>
          simp only [Option.map_some, redact_count, redact_note]
          rfl

theorem redact_endRead (round : Round) (r : Except Failure String) :
    (b.endRead c round r).redact =
      b.redact.endRead c.redact round (AssertionCache.redactRead r) := by
  have hfinish : b.redact.cache.finish (AssertionCache.redactRead r) =
      ((b.cache.finish r).1.redact, (b.cache.finish r).2.redact) := AssertionCache.finish_redact r
  unfold endRead
  rw [hfinish]
  obtain ⟨cache, progress⟩ := b.cache.finish r
  cases progress with
  | ends r' =>
      simp only [AssertionCache.Progress.redact]
      rw [redact_withAssertion, redact_with_cache, redact_recordRead]
      rfl
  | _ => rfl

@[simp] theorem redact_recordJoin (id : CallId) (outcome : Except Failure AccessToken) :
    (b.recordJoin id outcome).redact = b.redact.recordJoin id (redactResult outcome) := by
  simp only [recordJoin, redact_measure, redact_count, redact_note]
  rfl

theorem redact_board (s : Slot) (ticket : Nat) :
    (b.board c s ticket).redact = b.redact.board c.redact s.redact ticket := by
  have husable : b.redact.usable? c.redact.scope = (b.usable? c.scope).map AccessToken.redact :=
    usable?_redact c.scope
  unfold board
  rw [Slot.shared?_redact, husable]
  cases s.shared? ticket with
  | some outcome =>
      simp only [Option.map_some, redact_finish, redact_recordJoin]
      rfl
  | none =>
      cases b.usable? c.scope with
      | some t =>
          simp only [Option.map_some, Option.map_none, redact_finish, redact_recordHit, redact_note]
          rfl
      | none =>
          simp only [Option.map_none, redact_seek, redact_note]
          rfl

/-! ### Steps -/

theorem redact_admitCall (scope : ScopeSet) (deadline : Option Nat) :
    (b.admitCall scope deadline).redact = b.redact.admitCall scope deadline := by
  simp only [admitCall, redact_measure, redact_count, redact_note]
  rfl

theorem redact_joinQueue (id : CallId) (scope : ScopeSet) (deadline : Option Nat) :
    (b.joinQueue id scope deadline).redact = b.redact.joinQueue id scope deadline := by
  have htake : b.redact.slots.take scope.key =
      ((b.slots.take scope.key).1.redact, (b.slots.take scope.key).2.redact) :=
    Slots.take_redact scope.key
  have hslots := Slots.modify_redact (t := (b.slots.take scope.key).2) (f := (·.enter id))
    (g := (·.enter id)) (fun _ => rfl) (b.slots.take scope.key).1.id
  have hcalls : (b.calls ++ [b.newcomer id scope deadline]).map Call.redact =
      b.redact.calls ++ [b.redact.newcomer id scope deadline] := by
    rw [List.map_append, newcomer, newcomer, htake]
    rfl
  unfold joinQueue
  rw [redact_note, htake, redact_with_calls, hcalls]
  dsimp only
  rw [← hslots]
  rfl

theorem redact_start (scope : ScopeSet) (deadline : Option Nat) :
    (b.start scope deadline).redact = b.redact.start scope deadline := by
  unfold start
  rw [usable?_redact]
  split
  · rw [redact_report, redact_admitCall]
    rfl
  · cases b.usable? scope with
    | some t =>
        simp only [Option.map_some, redact_report, redact_recordHit, redact_admitCall]
        rfl
    | none =>
        simp only [Option.map_none, redact_joinQueue, redact_admitCall]
        rfl

theorem redact_beginRead (id : CallId) : (b.beginRead id).redact = b.redact.beginRead id := by
  simp only [beginRead, redact_measure, redact_count, redact_note]
  rfl

theorem redact_proceed (id : CallId) : (b.proceed id).redact = b.redact.proceed id := by
  have hslots (slot : SlotId) :
      b.redact.slots.find? slot = (b.slots.find? slot).map Slot.redact := Slots.find?_redact slot
  have hserved : b.redact.cache.proceed =
      (b.cache.proceed.1.redact, b.cache.proceed.2.redact) := AssertionCache.proceed_redact
  unfold proceed
  rw [call?_redact]
  cases b.call? id with
  | none => rfl
  | some c =>
      obtain ⟨call, scope, started, deadline, slot, phase⟩ := c
      cases phase with
      | queued ticket =>
          simp only [Option.map_some, Call.redact, Phase.redact, hslots]
          cases b.slots.find? slot with
          | none => rfl
          | some s =>
              simp only [Option.map_some]
              change _ = if s.isTurn id = true then _ else _
              split
              · exact redact_board s ticket
              · rfl
      | reading round =>
          simp only [Option.map_some, Call.redact, Phase.redact, hserved]
          change _ = if b.cache.isTurn id = true then _ else _
          split
          · obtain ⟨served, progress⟩ := b.cache.proceed
            cases progress with
            | ends r => exact redact_withAssertion round r
            | begins => exact redact_beginRead id
            | _ => rfl
          · rfl
      | exchanging => rfl

theorem redact_readDone (id : CallId) (result : Except ReadFailure String) :
    (b.readDone id result).redact = b.redact.readDone id (result.map fun _ => mask) := by
  have hresult : (result.map fun _ => mask).mapError .assertion =
      AssertionCache.redactRead (result.mapError .assertion) := by
    cases result <;> rfl
  unfold readDone
  rw [call?_redact, hresult]
  cases b.call? id with
  | none => rfl
  | some c =>
      obtain ⟨call, scope, started, deadline, slot, phase⟩ := c
      cases phase with
      | reading round =>
          change _ = if b.cache.isReading id = true then _ else _
          dsimp only
          split
          · exact redact_endRead round _
          · rfl
      | _ => rfl

theorem redact_recordReply (id : CallId) (reply : Reply)
    (asked : Option Classification.Context) :
    (b.recordReply id reply asked).redact = b.redact.recordReply id .unseen asked := by
  cases asked with
  | none => exact redact_note id _
  | some context =>
      simp only [recordReply, redact_note]
      rfl

/-- The token endpoint answers a call, and the answer comes to what is said of it. -/
def repliedAs (b : Broker) (id : CallId) (reply : Reply) (judge : ScopeSet → Instant → Judgement) :
    Broker :=
  match b.call? id with
  | none => b
  | some c =>
    match c.phase with
    | .exchanging round _ requestedAt =>
      let judgement := judge c.scope requestedAt
      (b.recordReply id reply judgement.asked).endExchange c round judgement.result
    | _ => b

/-- Only what a reply comes to counts. -/
theorem redact_replied (id : CallId) (reply : Reply) :
    (b.replied id reply).redact = b.redact.repliedAs id .unseen fun scope requestedAt =>
      (b.exchanger.conclude scope requestedAt reply).redact := by
  unfold replied repliedAs
  rw [call?_redact]
  cases b.call? id with
  | none => rfl
  | some c =>
      obtain ⟨call, scope, started, deadline, slot, phase⟩ := c
      cases phase with
      | exchanging round a requestedAt =>
          dsimp only
          rw [redact_endExchange, redact_recordReply]
          rfl
      | _ => rfl

theorem redact_expire (id : CallId) : (b.expire id).redact = b.redact.expire id := by
  have hslots (slot : SlotId) :
      b.redact.slots.find? slot = (b.slots.find? slot).map Slot.redact := Slots.find?_redact slot
  unfold expire
  rw [call?_redact]
  cases b.call? id with
  | none => rfl
  | some c =>
      have due : b.redact.isDue c.redact = b.isDue c := rfl
      simp only [Option.map_some, due]
      split
      · obtain ⟨call, scope, started, deadline, slot, phase⟩ := c
        cases phase with
        | queued ticket =>
            simp only [Call.redact, Phase.redact, hslots, Option.any_map]
            change _ = if (b.slots.find? slot).any (·.isTurn id) = true then _ else _
            split
            · rfl
            · exact redact_finish _
        | reading round =>
            change _ = if b.cache.isReading id = true then _
              else if b.cache.isTurn id = true then _ else _
            dsimp only
            split
            · exact redact_endRead round _
            · split
              · rfl
              · exact redact_conclude _
        | exchanging round a requestedAt =>
            dsimp only
            rw [redact_conclude, redact_note]
            rfl
      · rfl

theorem redact_cancel (id : CallId) : (b.cancel id).redact = b.redact.cancel id := by
  have habandon (slot : SlotId) :
      b.redact.slots.abandon slot id = (b.slots.abandon slot id).redact :=
    Slots.modify_redact (f := (·.exit id)) (fun _ => rfl) slot
  unfold cancel
  rw [call?_redact]
  cases b.call? id with
  | none => rfl
  | some c =>
      simp only [Option.map_some, redact_forget, redact_note]
      change _ = ({ b.redact with
        slots := b.redact.slots.abandon c.slot id, cache := _ }.note id .cancelled).forget id
      rw [habandon]
      rfl

theorem isTaken_redact (slot : SlotId) : b.redact.isTaken slot = b.isTaken slot := by
  simp only [isTaken, redact, List.any_map]
  congr 1
  funext c
  obtain ⟨call, scope, started, deadline, slot, phase⟩ := c
  cases phase <;> rfl

theorem redact_overtake (id : CallId) : (b.overtake id).redact = b.redact.overtake id := by
  have hadvance (slot : SlotId) : b.redact.slots.modify slot (·.advance id) =
      (b.slots.modify slot (·.advance id)).redact :=
    Slots.modify_redact (f := (·.advance id)) (fun _ => rfl) slot
  unfold overtake
  rw [call?_redact]
  cases b.call? id with
  | none => rfl
  | some c =>
      obtain ⟨call, scope, started, deadline, slot, phase⟩ := c
      cases phase with
      | queued ticket =>
          simp only [Option.map_some, Call.redact, Phase.redact, isTaken_redact, hadvance]
          split <;> rfl
      | reading round =>
          change _ = { b.redact with cache := b.cache.redact.overtake id }
          rw [AssertionCache.overtake_redact]
          rfl
      | exchanging => rfl

theorem redact_tick (time : Nat) : (b.tick time).redact = b.redact.tick time := by
  have hcalls : b.redact.calls.all (fun c => (lastWait c).all (time ≤ ·)) =
      b.calls.all fun c => (lastWait c).all (time ≤ ·) := List.all_map
  unfold tick
  rw [hcalls, apply_ite redact]
  rfl

theorem redact_invalidate (scope : ScopeSet) :
    (b.invalidate scope).redact = b.redact.invalidate scope := by
  rw [invalidate, redact_with_tokens, ← TokenStore.invalidate_redact]
  rfl

theorem redact_purge : b.purge.redact = b.redact.purge := by
  have hslots : b.redact.slots.prune = b.slots.prune.redact := Slots.prune_redact
  have htokens : b.redact.tokens.purge b.redact.clock = (b.tokens.purge b.clock).redact :=
    TokenStore.purge_redact b.clock
  rw [purge, purge, hslots, htokens]
  rfl

end Broker

end FederatedAccess
