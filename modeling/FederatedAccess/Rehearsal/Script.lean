import FederatedAccess.Assertion.Folder
import FederatedAccess.Exchange

/-!
# Scripts for a rehearsal

In a rehearsal the source of the assertion and the token endpoint follow scripts. An item is taken
when a read begins or a request is sent, and takes effect at once or after a delay. When a script
has run out, its partner fails.
-/

namespace FederatedAccess.Rehearsal

/-- How long an effect takes: none, none but for what can go on before, a span, or for ever. -/
inductive Pace
  | atOnce
  | soon
  | after (span : Nat)
  | never
deriving DecidableEq, Repr

/-- The pace of a delay in milliseconds. -/
def Pace.ofDelay (delay : Nat) : Pace := if delay = 0 then .atOnce else .after delay

/-- The span, in milliseconds, that stands for no limit: thirty years. -/
def unlimited : Nat := 30 * 365 * 86400 * 1000

/-- What a read gives. -/
structure ScriptedRead where
  result : Except ReadFailure String
  pace : Pace := .atOnce

/-- What a request gets. -/
structure ScriptedReply where
  reply : Reply
  pace : Pace := .atOnce

/-- The read after the end of a script. -/
def lastRead : ScriptedRead := { result := .error (.missing "/script") }

/-- The body of the reply after the end of a script. -/
def lastBody : String :=
  "\x7b\"error\":\"temporarily_unavailable\",\"error_description\":\"script exhausted\"\x7d"

/-- The reply after the end of a script. -/
def lastReply : ScriptedReply where
  reply :=
    ⟨.ok ⟨503, some (Utf8.bytes Response.jsonType), Utf8.bytes lastBody⟩, some ⟨some 503, none⟩⟩

/-- Where assertions come from. -/
inductive Source
  | script (items : List ScriptedRead)
  | file (path : String)

/-- The partners of what is rehearsed. -/
structure World where
  source : Source
  folder : Folder := {}
  replies : List ScriptedReply := []
  reads : Nat := 0

namespace World

/-- The read that is next, and what is left to read. A file is read in no time, but others may go
on meanwhile. -/
def nextRead (w : World) : ScriptedRead × Source :=
  match w.source with
  | .file path => (⟨w.folder.readAssertion path, .soon⟩, w.source)
  | .script [] => (lastRead, w.source)
  | .script (item :: rest) => (item, .script rest)

/-- Begins a read. -/
def beginRead (w : World) : ScriptedRead × World :=
  (w.nextRead.1, { w with source := w.nextRead.2, reads := w.reads + 1 })

/-- Takes the reply to a request. -/
def takeReply (w : World) : ScriptedReply × World :=
  match w.replies with
  | [] => (lastReply, w)
  | item :: rest => (item, { w with replies := rest })

end World

end FederatedAccess.Rehearsal
