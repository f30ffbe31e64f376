import FederatedAccess.Assertion.Cache
import FederatedAccess.Observation

/-!
# Using the cache of the assertion on its own

Calls to the cache arrive at any time, and those that ask for an assertion may have deadlines. The
desk numbers the calls, lets the source answer, cuts calls off at their deadlines, and lists what each
call was given. Time does not pass beyond a deadline at which a call still has to be served.
-/

namespace FederatedAccess

/-- What a call to the cache is given. -/
inductive DeskAnswer
  | shown (stored : Option Assertion)
  | result (r : Except Failure Assertion)

/-- A reuse of an old assertion after a failed read. -/
structure Reuse where
  failure : Failure
  age : Duration

/-- When a call came, and until when it waits. -/
structure Caller where
  started : Nat
  deadline : Option Nat

/-- The latest time at which a call may still wait. -/
def Caller.lastWait (c : Caller) : Option Nat := c.deadline.map (max · c.started)

/-- The deadline with which a lookup waits. One that only shows what is stored waits without. -/
def Lookup.within (lookup : Lookup) (deadline : Option Nat) : Option Nat :=
  match lookup with
  | .peek => none
  | .current | .forced => deadline

/-- The cache with all the calls that have come, of which those that have not ended visit it. -/
structure AssertionDesk where
  cache : AssertionCache
  time : Nat := 0
  callers : List Caller := []
  answers : List (CallId × DeskAnswer) := []
  reads : Nat := 0
  tally : Tally := Tally.zero
  reuses : List Reuse := []

namespace AssertionDesk

/-- The desk of an empty cache. -/
def make (ttl : Duration) : AssertionDesk := { cache := ⟨ttl, none, []⟩ }

/-- The number of the call that comes next. -/
def nextCall (d : AssertionDesk) : CallId := d.callers.length

/-- A call arrives. -/
def arrive (d : AssertionDesk) (lookup : Lookup) (now : Instant) (deadline : Option Nat) :
    AssertionDesk :=
  { d with
    cache := d.cache.arrive { call := d.nextCall, lookup, now }
    callers := d.callers ++ [⟨d.time, lookup.within deadline⟩] }

/-- Gives a call its answer. -/
def answer (d : AssertionDesk) (call : CallId) (a : DeskAnswer) : AssertionDesk :=
  { d with answers := d.answers ++ [(call, a)] }

/-- Takes the cache as it is after a step of a call. -/
def follow (d : AssertionDesk) (call : CallId) :
    AssertionCache × AssertionCache.Progress → AssertionDesk
  | (cache, .begins) =>
    { d with cache, reads := d.reads + 1, tally := d.tally.add .readAssertion .attempt }
  | (cache, .shows stored) => { d with cache }.answer call (.shown stored)
  | (cache, .ends r) => { d with cache }.answer call (.result r)
  | (cache, .waits) => { d with cache }

/-- A call goes on at its turn. -/
def proceed (d : AssertionDesk) (call : CallId) : AssertionDesk :=
  if d.cache.isTurn call then d.follow call d.cache.proceed else d

/-- Ends the read of a call. -/
def endRead (d : AssertionDesk) (call : CallId) (result : Except Failure String) : AssertionDesk :=
  let reuses := match result, d.cache.standIn? with
    | .error failure, some (_, age) => d.reuses ++ [⟨failure, age⟩]
    | _, _ => d.reuses
  { d with tally := d.tally.add .readAssertion (.ofExcept result), reuses }.follow call
    (d.cache.finish result)

/-- The source answers the call that reads it. -/
def readDone (d : AssertionDesk) (call : CallId) (result : Except ReadFailure String) :
    AssertionDesk :=
  if d.cache.isReading call then d.endRead call (result.mapError .assertion) else d

/-- The deadline of a call, if it has not ended. -/
def deadline? (d : AssertionDesk) (call : CallId) : Option Nat :=
  if d.cache.visits.any (·.call == call) then d.callers[call]?.bind Caller.deadline else none

/-- The deadline of a call cuts off what it waits for. -/
def expire (d : AssertionDesk) (call : CallId) : AssertionDesk :=
  if (d.deadline? call).any (· ≤ d.time) then
    if d.cache.isReading call then d.endRead call (.error (.timeout .assertionRead))
    else if d.cache.isTurn call then d
    else
      { d with cache := d.cache.leave call }.answer call
        (.result (.error (.timeout .assertionRead)))
  else d

/-- A call is dropped where it waits. -/
def cancel (d : AssertionDesk) (call : CallId) : AssertionDesk :=
  { d with cache := d.cache.leave call }

/-- A call goes ahead of the others, unless the source is being read. -/
def overtake (d : AssertionDesk) (call : CallId) : AssertionDesk :=
  { d with cache := d.cache.overtake call }

/-- The latest time at which the call of a visit may still wait. -/
def lastWait (d : AssertionDesk) (v : Visit) : Option Nat :=
  d.callers[v.call]?.bind Caller.lastWait

/-- Lets time pass, but not beyond a deadline at which a call still has to be served. -/
def tick (d : AssertionDesk) (time : Nat) : AssertionDesk :=
  if d.time ≤ time ∧ d.cache.visits.all (fun v => (d.lastWait v).all (time ≤ ·)) then { d with time }
  else d

/-- What may come in. -/
inductive Event
  | arrive (lookup : Lookup) (now : Instant) (deadline : Option Nat)
  | proceed (call : CallId)
  | readDone (call : CallId) (result : Except ReadFailure String)
  | expire (call : CallId)
  | cancel (call : CallId)
  | overtake (call : CallId)
  | tick (time : Nat)

/-- The state after an event. -/
def step (d : AssertionDesk) : Event → AssertionDesk
  | .arrive lookup now deadline => d.arrive lookup now deadline
  | .proceed call => d.proceed call
  | .readDone call result => d.readDone call result
  | .expire call => d.expire call
  | .cancel call => d.cancel call
  | .overtake call => d.overtake call
  | .tick time => d.tick time

/-- The state after events in order. -/
def run (d : AssertionDesk) (events : List Event) : AssertionDesk := events.foldl step d

end AssertionDesk

end FederatedAccess
