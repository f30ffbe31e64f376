import FederatedAccess.Exchange
import FederatedAccess.Http.Status

/-!
# Replies over a connection

What a transport reports of a connection depends on how far the other side gets: nobody may listen,
the connection may end or stall before the headers or inside the body, or the response arrives.
Metadata is remembered as soon as the headers have arrived. Redirects are responses like others.
-/

namespace FederatedAccess.Wire

/-- How a server treats a request. -/
inductive Conduct
  | complete
  | drop
  | truncate
  | stall
  | stallBody
deriving DecidableEq, Repr

/-- What a server sends. -/
structure Script where
  status : Nat
  headers : List (String × List UInt8)
  body : List UInt8
  conduct : Conduct := .complete
deriving DecidableEq, Repr

/-- The first value of a header, whose name is compared without regard to case. -/
def header? (headers : List (String × List UInt8)) (name : String) : Option (List UInt8) :=
  (headers.find? fun h => Text.lowerAscii h.1 == name).map (·.2)

/-- What is remembered of a response whose headers have arrived. -/
def metadata (s : Script) (now : Instant) : Metadata :=
  ⟨some s.status, (header? s.headers "retry-after").bind (RetryAfter.read · now)⟩

/-- The response when all of it has arrived. -/
def response (s : Script) : Response :=
  ⟨s.status, header? s.headers "content-type", s.body⟩

/-- The description of a failed connection. -/
def connectionFault : TransportFault := .network "error sending request"

/-- The description of a body that breaks off. -/
def brokenBody : TransportFault := .network "error decoding response body"

/-- The address in descriptions that are not about a connection. -/
def noAddress : String := "http://no.url.provided.local/"

/-- The description of a failure that is known by its code alone. -/
def statusFault (code : Nat) : TransportFault := .network (Status.describe code noAddress)

/-- What a transport reports of one connection; without a script nobody listens. -/
def reply (now : Instant) : Option Script → Reply
  | none => ⟨.error connectionFault, none⟩
  | some s =>
    match s.conduct with
    | .complete => ⟨.ok (response s), some (metadata s now)⟩
    | .drop => ⟨.error connectionFault, none⟩
    | .truncate => ⟨.error brokenBody, some (metadata s now)⟩
    | .stall => ⟨.error .timeout, none⟩
    | .stallBody => ⟨.error .timeout, some (metadata s now)⟩

end FederatedAccess.Wire
