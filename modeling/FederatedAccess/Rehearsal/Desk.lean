import FederatedAccess.Assertion.Desk
import FederatedAccess.Rehearsal.Session

/-!
# Rehearsals of the cache of the assertion

Calls to the cache of the assertion are rehearsed with a scripted source.
-/

namespace FederatedAccess.Rehearsal

/-- A call to the cache, with the span after which it is cut off. -/
structure DeskCommand where
  lookup : Lookup
  now : Instant
  timeout : Option Nat

namespace Desk

/-- A call begins. -/
def launch (c : DeskCommand) (time : Nat) (w : World) (d : AssertionDesk) :
    World × AssertionDesk × Begun DeskAnswer :=
  (w, d.step (.arrive c.lookup c.now (some (time + c.timeout.getD unlimited))), .call d.nextCall)

/-- The call whose turn at the cache has come. -/
def turns (d : AssertionDesk) : List CallId :=
  (d.cache.owner?.filter d.cache.isTurn).toList

/-- The cache and its callers as what is rehearsed. -/
def subject : Subject AssertionDesk DeskCommand DeskAnswer where
  launch := launch
  turns := turns
  isReading d call := d.cache.isReading call
  isSending _ _ := false
  deadline? := AssertionDesk.deadline?
  result? d call := d.answers.lookup call
  barge d call := d.step (.overtake call)
  proceed d call := d.step (.proceed call)
  readDone d call result := d.step (.readDone call result)
  replied d _ _ := d
  expire d call := d.step (.expire call)
  cancel d call := d.step (.cancel call)
  tick d time := d.step (.tick time)

/-- A rehearsal that begins with an empty cache. -/
def session (ttl : Duration) (source : List ScriptedRead) :
    Session AssertionDesk DeskCommand DeskAnswer where
  subject := subject
  state := .make ttl
  world := { source := .script source }
  time := 0

end Desk

end FederatedAccess.Rehearsal
