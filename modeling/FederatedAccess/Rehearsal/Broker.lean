import FederatedAccess.Broker
import FederatedAccess.Rehearsal.Session

/-!
# Rehearsals of a broker

Calls to a broker and changes of what surrounds it are rehearsed with scripted replies and with
assertions from a script or a folder.
-/

namespace FederatedAccess.Rehearsal

/-- What is asked of a broker or done around it. -/
inductive BrokerCommand
  | get (scope : ScopeSet) (timeout : Option Nat)
  | invalidate (scope : ScopeSet)
  | purge
  | advance (span : Duration)
  | setClock (time : Instant)
  | pause (span : Nat)
  | respond (replies : List ScriptedReply)
  | write (path : String) (content : List UInt8)
  | makeFolder (path : String)
  | remove (path : String)
  | look

/-- What a command comes to. -/
inductive BrokerAnswer
  | result (r : Except Failure AccessToken)
  | dropped (held : Bool)
  | swept (count : Nat)
  | clock (time : Option Instant)
  | done

namespace Broker

/-- A command begins. -/
def launch (c : BrokerCommand) (time : Nat) (w : World) (b : Broker) :
    World × Broker × Begun BrokerAnswer :=
  match c with
  | .get scope timeout =>
    (w, b.step (.start scope (some (time + timeout.getD unlimited))), .call b.nextCall)
  | .invalidate scope => (w, b.step (.invalidate scope), .done (.dropped (b.tokens.holds scope)))
  | .purge => (w, b.step .purge, .done (.swept (b.tokens.purgeCount b.clock)))
  | .advance span =>
    match b.clock.add? span with
    | some t => (w, b.step (.setClock t), .done (.clock (some t)))
    | none => (w, b, .done (.clock none))
  | .setClock t => (w, b.step (.setClock t), .done (.clock (some t)))
  | .pause span => (w, b, .later span .done)
  | .respond replies => ({ w with replies := w.replies ++ replies }, b, .done .done)
  | .write path content => ({ w with folder := w.folder.write path content }, b, .done .done)
  | .makeFolder path => ({ w with folder := w.folder.makeFolder path }, b, .done .done)
  | .remove path => ({ w with folder := w.folder.remove path }, b, .done .done)
  | .look => (w, b, .done .done)

/-- The call at the head of a slot, if it waits for its turn there. -/
def slotTurn? (b : Broker) (s : Slot) : Option CallId :=
  s.queue.head?.filter fun id =>
    match (b.call? id).map Call.phase with
    | some (.queued _) => true
    | _ => false

/-- The calls whose turn has come, at the cache of the assertion or at a slot. -/
def turns (b : Broker) : List CallId :=
  (b.cache.owner?.filter b.cache.isTurn).toList ++ b.slots.stored.filterMap (slotTurn? b)

/-- Whether a call waits for the token endpoint. -/
def isSending (b : Broker) (id : CallId) : Bool :=
  match (b.call? id).map Call.phase with
  | some (.exchanging _ _ _) => true
  | _ => false

/-- The result of a call that has ended. -/
def result? (b : Broker) (id : CallId) : Option BrokerAnswer :=
  b.journal.findSome? fun e =>
    match e.what with
    | .ended r => if e.call = id then some (.result r) else none
    | _ => none

/-- The broker as what is rehearsed. -/
def subject : Subject Broker BrokerCommand BrokerAnswer where
  launch := launch
  turns := turns
  isReading b id := b.cache.isReading id
  isSending := isSending
  deadline? b id := (b.call? id).bind Call.deadline
  result? := result?
  barge b id := b.step (.overtake id)
  proceed b id := b.step (.proceed id)
  readDone b id result := b.step (.readDone id result)
  replied b id reply := b.step (.replied id reply)
  expire b id := b.step (.expire id)
  cancel b id := b.step (.cancel id)
  tick b time := b.step (.tick time)

/-- A rehearsal that begins with a broker. -/
def session (b : Broker) (world : World) : Session Broker BrokerCommand BrokerAnswer where
  subject := subject
  state := b
  world
  time := b.time

end Broker

end FederatedAccess.Rehearsal
