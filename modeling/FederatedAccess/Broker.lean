import FederatedAccess.Broker.Slot
import FederatedAccess.Exchange
import FederatedAccess.Observation
import FederatedAccess.TokenStore

/-!
# The broker

A broker answers calls for tokens. A call takes a stored token if one is usable; otherwise it takes
the slot of its scope set, where it shares the outcome of a refresh that ended while it queued, or
refreshes itself: it gets the assertion, exchanges it, and once, when the assertion is refused,
reads it anew and exchanges again.

Calls go on in steps between the points where they may have to wait: for the slot, for the cache of
the assertion, for its source, and for the token endpoint. A state holds everything that outlives a
step, and a journal of what has happened. Between two steps anything else may come in, such as
steps of other calls, cancellations, or changes of the clock.

Slots and the cache are served in order of arrival, unless a call overtakes others. It can do so as
long as what they wait for is not taken: a lock promises no more than that one call at a time holds
it.
-/

namespace FederatedAccess

/-- Whether an assertion is exchanged for the first time in a refresh or after it was refused. -/
inductive Round
  | first
  | second
deriving DecidableEq, Repr

/-- What the cache is asked for: an assertion that is not too old, then one that is read anew. -/
def Round.lookup : Round → Lookup
  | .first => .current
  | .second => .forced

/-- Where a call waits. -/
inductive Phase
  | queued (ticket : Nat)
  | reading (round : Round)
  | exchanging (round : Round) (assertion : Assertion) (requestedAt : Instant)
deriving DecidableEq

/-- Whether a call waits for its slot. -/
def Phase.isQueued : Phase → Bool
  | .queued _ => true
  | _ => false

/-- A call that has not ended. Instants of waiting are in milliseconds of a clock of their own. -/
structure Call where
  id : CallId
  scope : ScopeSet
  started : Nat
  deadline : Option Nat
  slot : SlotId
  phase : Phase

/-- What happens to a call. -/
inductive Occurrence
  | started (scope : ScopeSet) (deadline : Option Nat)
  | span (operation : Operation) (key : ScopeKey)
  | hit (token : AccessToken)
  | queued (slot : SlotId) (ticket : Nat)
  | boarded (slot : SlotId)
  | joined (outcome : Except Failure AccessToken)
  | readBegun
  | readEnded (result : Except Failure String)
  | stale (failure : Failure) (age : Duration)
  | sent (assertion : Secret) (scope : ScopeSet) (request : TokenRequest)
  | answered (reply : Reply)
  | asked (context : Classification.Context)
  | exchanged (result : Except Failure AccessToken)
  | cutOff
  | rejected (failure : Failure)
  | stored (token : AccessToken)
  | published (slot : SlotId) (outcome : Except Failure AccessToken)
  | ended (result : Except Failure AccessToken)
  | cancelled

/-- An occurrence, when it happened, what the clock showed, and to which call it happened. -/
structure Entry where
  time : Nat
  clock : Instant
  call : CallId
  what : Occurrence

/-- The state of a broker. -/
structure Broker where
  exchanger : Exchanger
  clock : Instant
  tokens : TokenStore
  cache : AssertionCache
  time : Nat := 0
  slots : Slots := {}
  calls : List Call := []
  nextCall : CallId := 0
  metrics : Metrics := {}
  tally : Tally := Tally.zero
  journal : List Entry := []

namespace Broker

/-- A broker without tokens and calls. -/
def make (c : Config) (e : Exchanger) (clock : Instant) : Broker :=
  { exchanger := e, clock, tokens := TokenStore.empty c.margin, cache := ⟨c.ttl, none, []⟩ }

/-- The broker for a configuration, which is checked first. -/
def ofConfig (c : Config) (clock : Instant) : Except SetupFailure Broker :=
  match c.fault? with
  | some f => .error (.config f)
  | none =>
    match Exchanger.ofConfig c with
    | .ok e => .ok (make c e clock)
    | .error f => .error f

/-! ### Parts of steps -/

/-- Enters an occurrence in the journal. -/
def note (b : Broker) (call : CallId) (what : Occurrence) : Broker :=
  { b with journal := b.journal ++ [⟨b.time, b.clock, call, what⟩] }

/-- Counts an outcome of an operation. -/
def count (b : Broker) (operation : Operation) (outcome : Outcome) : Broker :=
  { b with tally := b.tally.add operation outcome }

/-- Changes the totals. -/
def measure (b : Broker) (f : Metrics → Metrics) : Broker :=
  { b with metrics := f b.metrics }

/-- The call with a number, if it has not ended. -/
def call? (b : Broker) (id : CallId) : Option Call := b.calls.find? (·.id = id)

/-- Moves a call to another phase. -/
def enter (b : Broker) (id : CallId) (phase : Phase) : Broker :=
  { b with calls := b.calls.map fun c => if c.id = id then { c with phase } else c }

/-- Forgets a call. -/
def forget (b : Broker) (id : CallId) : Broker :=
  { b with calls := b.calls.filter (·.id ≠ id) }

/-- Counts and enters the result of a call. -/
def report (b : Broker) (id : CallId) (result : Except Failure AccessToken) : Broker :=
  ((b.note id (.ended result)).count .getToken (.ofExcept result)).measure fun m =>
    match result with
    | .ok _ => m
    | .error _ => { m with failures := m.failures + 1 }

/-- Ends a call that holds a slot. -/
def finish (b : Broker) (c : Call) (result : Except Failure AccessToken) : Broker :=
  ({ b with slots := b.slots.release c.scope.key c.slot c.id }.report c.id result).forget c.id

/-- The usable token of a scope set. -/
def usable? (b : Broker) (scope : ScopeSet) : Option AccessToken := b.tokens.get? scope b.clock

/-- Counts a token that was taken from the store. -/
def recordHit (b : Broker) (id : CallId) (token : AccessToken) : Broker :=
  ((b.note id (.hit token)).count .getToken .cacheHit).measure fun m =>
    { m with cacheHits := m.cacheHits + 1 }

/-- Publishes the result of a refresh to the calls behind it. -/
def publish (b : Broker) (c : Call) (result : Except Failure AccessToken) : Broker :=
  { b with slots := b.slots.modify c.slot (·.publish result) }.note c.id (.published c.slot result)

/-- Whether a result is that the caller ran out of time. -/
def timedOut : Except Failure AccessToken → Bool
  | .ok _ => false
  | .error f => f.isTimeout

/-- Ends a call that has refreshed. All but timeouts are published. -/
def conclude (b : Broker) (c : Call) (result : Except Failure AccessToken) : Broker :=
  if timedOut result then b.finish c result else (b.publish c result).finish c result

/-- Queues the visit of a call to the cache of the assertion. -/
def visit (b : Broker) (id : CallId) (round : Round) : Broker :=
  { b with cache := b.cache.arrive { call := id, lookup := round.lookup, now := b.clock } }

/-- Sends a call to the cache of the assertion. -/
def seek (b : Broker) (c : Call) (round : Round) : Broker :=
  (b.visit c.id round).enter c.id (.reading round)

/-- Stores the token that a call was granted. -/
def store (b : Broker) (id : CallId) (t : AccessToken) : Broker :=
  { b with tokens := b.tokens.put t }.note id (.stored t)

/-- Goes on after an exchange. The first time a refused assertion is read anew. -/
def afterExchange (b : Broker) (c : Call) (round : Round)
    (result : Except Failure AccessToken) : Broker :=
  match result with
  | .ok t => (b.store c.id t).conclude c (.ok t)
  | .error f =>
    if round = .first ∧ f.isInvalidAssertion then (b.note c.id (.rejected f)).seek c .second
    else b.conclude c (.error f)

/-- Counts and enters the result of an exchange. -/
def recordExchange (b : Broker) (id : CallId) (result : Except Failure AccessToken) : Broker :=
  (b.note id (.exchanged result)).count .exchange (.ofExcept result)

/-- Counts the result of an exchange and goes on. -/
def endExchange (b : Broker) (c : Call) (round : Round)
    (result : Except Failure AccessToken) : Broker :=
  (b.recordExchange c.id result).afterExchange c round result

/-- Counts an exchange that begins. -/
def beginExchange (b : Broker) (c : Call) : Broker :=
  ((b.measure fun m => { m with exchanges := m.exchanges + 1 }).note c.id
    (.span .exchange c.scope.key)).count .exchange .attempt

/-- Exchanges an assertion, up to the point where the reply is awaited. -/
def exchange (b : Broker) (c : Call) (round : Round) (assertion : Assertion) : Broker :=
  match b.exchanger.prepare assertion.value c.scope with
  | .error f => (b.beginExchange c).endExchange c round (.error f)
  | .ok request =>
    ((b.beginExchange c).note c.id (.sent assertion.value c.scope request)).enter c.id
      (.exchanging round assertion b.clock)

/-- Goes on with what the cache of the assertion gave. -/
def withAssertion (b : Broker) (c : Call) (round : Round) (result : Except Failure Assertion) :
    Broker :=
  match result with
  | .ok a => b.exchange c round a
  | .error f => b.conclude c (.error f)

/-- Counts and enters what the source gave, and that an old assertion stands in for a failure. -/
def recordRead (b : Broker) (id : CallId) (result : Except Failure String) : Broker :=
  let counted := (b.note id (.readEnded result)).count .readAssertion (.ofExcept result)
  match result, b.cache.standIn? with
  | .error f, some (_, age) => counted.note id (.stale f age)
  | _, _ => counted

/-- Ends the read of a call with what the source gave. -/
def endRead (b : Broker) (c : Call) (round : Round) (result : Except Failure String) : Broker :=
  match b.cache.finish result with
  | (cache, .ends r) => { b.recordRead c.id result with cache }.withAssertion c round r
  | _ => b

/-- Counts a call that shares an outcome. -/
def recordJoin (b : Broker) (id : CallId) (outcome : Except Failure AccessToken) : Broker :=
  ((b.note id (.joined outcome)).count .getToken .coalesced).measure fun m =>
    { m with coalesced := m.coalesced + 1 }

/-- Takes the slot at the turn of a call: shares an outcome, takes a stored token, or refreshes. -/
def board (b : Broker) (c : Call) (s : Slot) (ticket : Nat) : Broker :=
  match s.shared? ticket with
  | some outcome => (b.recordJoin c.id outcome).finish c outcome
  | none =>
    let boarded := b.note c.id (.boarded c.slot)
    match b.usable? c.scope with
    | some t => (boarded.recordHit c.id t).finish c (.ok t)
    | none => boarded.seek c .first

/-! ### Steps -/

/-- Numbers, counts and enters a call that begins. -/
def admitCall (b : Broker) (scope : ScopeSet) (deadline : Option Nat) : Broker :=
  let id := b.nextCall
  ((({ b with nextCall := id + 1 }.note id (.started scope deadline)).note id
    (.span .getToken scope.key)).count .getToken .attempt).measure fun m =>
      { m with requests := m.requests + 1 }

/-- A call that comes to the slot of its scope set. -/
def newcomer (b : Broker) (id : CallId) (scope : ScopeSet) (deadline : Option Nat) : Call :=
  let s := (b.slots.take scope.key).1
  ⟨id, scope, b.time, deadline, s.id, .queued s.landed⟩

/-- Queues a call for the slot of its scope set. -/
def joinQueue (b : Broker) (id : CallId) (scope : ScopeSet) (deadline : Option Nat) : Broker :=
  let s := (b.slots.take scope.key).1
  { b with
    slots := (b.slots.take scope.key).2.modify s.id (·.enter id)
    calls := b.calls ++ [b.newcomer id scope deadline] }.note id (.queued s.id s.landed)

/-- A call begins: it takes a stored token or queues for the slot of its scope set. -/
def start (b : Broker) (scope : ScopeSet) (deadline : Option Nat) : Broker :=
  let id := b.nextCall
  let begun := b.admitCall scope deadline
  if scope.isEmpty then begun.report id (.error Exchanger.noScope)
  else
    match b.usable? scope with
    | some t => (begun.recordHit id t).report id (.ok t)
    | none => begun.joinQueue id scope deadline

/-- Counts a read that begins. -/
def beginRead (b : Broker) (id : CallId) : Broker :=
  ((b.note id .readBegun).count .readAssertion .attempt).measure fun m =>
    { m with assertionReads := m.assertionReads + 1 }

/-- A call goes on where it is its turn. -/
def proceed (b : Broker) (id : CallId) : Broker :=
  match b.call? id with
  | none => b
  | some c =>
    match c.phase with
    | .queued ticket =>
      match b.slots.find? c.slot with
      | some s => if s.isTurn id then b.board c s ticket else b
      | none => b
    | .reading round =>
      if b.cache.isTurn id then
        match b.cache.proceed with
        | (cache, .begins) => { b with cache }.beginRead id
        | (cache, .ends r) => { b with cache }.withAssertion c round r
        | _ => b
      else b
    | .exchanging _ _ _ => b

/-- The source answers the call that reads it. -/
def readDone (b : Broker) (id : CallId) (result : Except ReadFailure String) : Broker :=
  match b.call? id with
  | none => b
  | some c =>
    match c.phase with
    | .reading round =>
      if b.cache.isReading id then b.endRead c round (result.mapError .assertion) else b
    | _ => b

/-- Enters a reply of the token endpoint, and what the classifier is asked about it. -/
def recordReply (b : Broker) (id : CallId) (reply : Reply)
    (asked : Option Classification.Context) : Broker :=
  match asked with
  | some context => (b.note id (.answered reply)).note id (.asked context)
  | none => b.note id (.answered reply)

/-- The token endpoint answers a call. -/
def replied (b : Broker) (id : CallId) (reply : Reply) : Broker :=
  match b.call? id with
  | none => b
  | some c =>
    match c.phase with
    | .exchanging round _ requestedAt =>
      let judgement := b.exchanger.conclude c.scope requestedAt reply
      (b.recordReply id reply judgement.asked).endExchange c round judgement.result
    | _ => b

/-- Whether the deadline of a call has come. -/
def isDue (b : Broker) (c : Call) : Bool := c.deadline.any (· ≤ b.time)

/-- The deadline of a call cuts off what it waits for. A call whose turn has come goes on
instead. -/
def expire (b : Broker) (id : CallId) : Broker :=
  match b.call? id with
  | none => b
  | some c =>
    if b.isDue c then
      match c.phase with
      | .queued _ =>
        if (b.slots.find? c.slot).any (·.isTurn id) then b
        else b.finish c (.error (.timeout .waitingForRefresh))
      | .reading round =>
        if b.cache.isReading id then b.endRead c round (.error (.timeout .assertionRead))
        else if b.cache.isTurn id then b
        else
          { b with cache := b.cache.leave id }.conclude c (.error (.timeout .assertionRead))
      | .exchanging _ _ _ => (b.note id .cutOff).conclude c (.error (.timeout .exchange))
    else b

/-- A call is dropped where it waits. It gives up its turn but does not give back its slot. -/
def cancel (b : Broker) (id : CallId) : Broker :=
  match b.call? id with
  | none => b
  | some c =>
    ({ b with slots := b.slots.abandon c.slot id, cache := b.cache.leave id }.note id
      .cancelled).forget id

/-- Whether a call has taken a slot and not given it back. -/
def isTaken (b : Broker) (slot : SlotId) : Bool :=
  b.calls.any fun c => c.slot == slot && !c.phase.isQueued

/-- A call goes ahead of those that wait with it, unless what it waits for is taken. -/
def overtake (b : Broker) (id : CallId) : Broker :=
  match b.call? id with
  | none => b
  | some c =>
    match c.phase with
    | .queued _ =>
      if b.isTaken c.slot then b else { b with slots := b.slots.modify c.slot (·.advance id) }
    | .reading _ => { b with cache := b.cache.overtake id }
    | .exchanging _ _ _ => b

/-- Drops the token of a scope set. -/
def invalidate (b : Broker) (scope : ScopeSet) : Broker :=
  { b with tokens := b.tokens.invalidate scope }

/-- Drops tokens that are no longer usable and slots that nobody holds. -/
def purge (b : Broker) : Broker :=
  { b with slots := b.slots.prune, tokens := b.tokens.purge b.clock }

/-- Sets the clock. -/
def setClock (b : Broker) (t : Instant) : Broker := { b with clock := t }

/-- The latest time at which a call may still wait. -/
def lastWait (c : Call) : Option Nat := c.deadline.map (max · c.started)

/-- Lets time pass, but not beyond a deadline at which a call still has to be served. -/
def tick (b : Broker) (time : Nat) : Broker :=
  if b.time ≤ time ∧ b.calls.all (fun c => (lastWait c).all (time ≤ ·)) then { b with time } else b

/-- What may come in. -/
inductive Event
  | start (scope : ScopeSet) (deadline : Option Nat)
  | proceed (id : CallId)
  | readDone (id : CallId) (result : Except ReadFailure String)
  | replied (id : CallId) (reply : Reply)
  | expire (id : CallId)
  | cancel (id : CallId)
  | overtake (id : CallId)
  | invalidate (scope : ScopeSet)
  | purge
  | setClock (t : Instant)
  | tick (time : Nat)

/-- The state after an event. -/
def step (b : Broker) : Event → Broker
  | .start scope deadline => b.start scope deadline
  | .proceed id => b.proceed id
  | .readDone id result => b.readDone id result
  | .replied id reply => b.replied id reply
  | .expire id => b.expire id
  | .cancel id => b.cancel id
  | .overtake id => b.overtake id
  | .invalidate scope => b.invalidate scope
  | .purge => b.purge
  | .setClock t => b.setClock t
  | .tick time => b.tick time

/-- The state after events in order. -/
def run (b : Broker) (events : List Event) : Broker := events.foldl step b

end Broker

end FederatedAccess
