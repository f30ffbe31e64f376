import FederatedAccess.AccessToken
import FederatedAccess.Classification
import FederatedAccess.Config
import FederatedAccess.Exchange.Form
import FederatedAccess.Exchange.Response
import FederatedAccess.Exchange.Target
import FederatedAccess.Http.Metadata

/-!
# Exchanging an assertion for a token

An exchange posts a form with the assertion to the token endpoint and turns the answer, or the lack
of one, into a token or a failure. Sending is not done here: `Exchanger.prepare` makes the request
and `Exchanger.conclude` judges the reply, and what lies between them is up to a transport. A
transport brings a mapper with it, which says what the faults below the protocol come to.
-/

namespace FederatedAccess

/-- What failed below the protocol. -/
inductive TransportFault
  | clientBuild (detail : String)
  | timeout
  | network (detail : String)
  | io (detail : String)
  | request
  | other (summary : String)
deriving DecidableEq, Repr

/-- What a transport reports: a response or a fault, and what it remembered of a response. -/
structure Reply where
  outcome : Except TransportFault Response
  metadata : Option Metadata

namespace Reply

/-- The status that was remembered. -/
def status (r : Reply) : Option Nat := r.metadata.bind Metadata.status

/-- The time to wait that was remembered. -/
def retryAfter (r : Reply) : Option Duration := r.metadata.bind Metadata.retryAfter

end Reply

/-- Tells what a fault below the protocol comes to, from what the transport remembers of a response,
and what it asked the classifier about, if it did. -/
abbrev FaultMapper :=
  Classification.Classifier → Option Metadata → TransportFault →
    Failure × Option Classification.Context

/-- A request of the token endpoint. -/
structure TokenRequest where
  target : String
  form : List (String × String)
deriving DecidableEq, Repr

namespace TokenRequest

/-- The method. -/
def method : String := "POST"

/-- The headers. -/
def headers : List (String × String) :=
  [("accept", "application/json"), ("content-type", "application/x-www-form-urlencoded")]

/-- The body. -/
def body (r : TokenRequest) : String := String.ofList (Form.encode r.form)

end TokenRequest

/-- What came of an exchange, and the facts that the classifier was asked about, if it was. -/
structure Judgement where
  result : Except Failure AccessToken
  asked : Option Classification.Context := none

namespace Classification

/-- The failure of a kind; a failure that may pass is described further. -/
def Kind.failure (kind : Kind) (reason : String) (transient : Transient) : Failure :=
  match kind with
  | .invalidAssertion => .exchange (.invalidAssertion reason)
  | .insufficientPermissions => .exchange (.insufficientPermissions reason)
  | .invalidScope => .exchange (.invalidScope reason)
  | .transient => .transient transient

end Classification

namespace FaultMapper

/-- The mapper for the transport of this library. -/
def standard : FaultMapper := fun classifier metadata fault =>
  let status := metadata.bind Metadata.status
  let retryAfter := metadata.bind Metadata.retryAfter
  match fault with
  | .clientBuild detail => (.setup (.clientBuild detail), none)
  | .timeout =>
    (.transient (.endpoint "Request timed out while calling the token endpoint." status retryAfter),
      none)
  | .network detail =>
    ((classifier Classification.networkFailure).failure detail (.network detail),
      some Classification.networkFailure)
  | .io detail => (.transient (.io detail), none)
  | .request => (.setup .request, none)
  | .other summary =>
    (.transient (.endpoint
      ("HTTP client error occurred while calling the token endpoint: " ++ summary ++ ".")
      status retryAfter), none)

/-- No fault is told as that the caller ran out of time: this is for the broker to say. -/
def NeverTimesOut (m : FaultMapper) : Prop :=
  ∀ classifier metadata fault, (m classifier metadata fault).1.isTimeout = false

end FaultMapper

/-- Who exchanges, where, how failures are classified, what faults of the transport come to, and how
the parser of documents tells where a response is none. -/
structure Exchanger where
  clientId : ClientId
  endpoint : Url
  classifier : Classification.Classifier := Classification.standard
  mapper : FaultMapper := FaultMapper.standard
  locate : Response → Json.Spot := fun _ => {}

namespace Exchanger

/-- The exchanger for a configuration. -/
def ofConfig (c : Config) : Except SetupFailure Exchanger :=
  match c.tokenEndpoint with
  | .ok u => .ok { clientId := c.clientId, endpoint := u }
  | .error f => .error f

/-- The text in diagnostics. -/
def render (e : Exchanger) : String :=
  "TokenExchangeClient \x7b token_endpoint: " ++ Text.Quoted.encode e.endpoint.render ++ ", .. \x7d"

/-! ### The request -/

/-- The name of the kind of assertion. -/
def assertionType : String := "urn:ietf:params:oauth:client-assertion-type:jwt-bearer"

/-- The failure of a request for no scope. -/
def noScope : Failure := .exchange (.invalidScope "At least one scope is required.")

/-- The fields of the form. -/
def form (e : Exchanger) (assertion : Secret) (scope : ScopeSet) : List (String × String) :=
  [("grant_type", "client_credentials"), ("scope", scope.normalized),
    ("client_id", e.clientId.text), ("client_assertion_type", assertionType),
    ("client_assertion", assertion.expose)]

/-- The request for a token, if one can be made. -/
def prepare (e : Exchanger) (assertion : Secret) (scope : ScopeSet) :
    Except Failure TokenRequest :=
  if scope.isEmpty then .error noScope
  else
    match Target.ofUrl e.endpoint with
    | .error f =>
      .error (.transient (.endpoint ("failed to prepare request: " ++ f.message) none none))
    | .ok target => .ok ⟨String.ofList target, e.form assertion scope⟩

/-! ### The reply -/

/-- The reason for which no token can be built. -/
def unusable : AccessToken.Fault → Unusable
  | .missingToken => .emptyToken
  | .missingExpiry => .missingExpiry
  | .nonPositiveLifetime => .nonPositiveLifetime
  | .expiryOutOfRange => .expiryOutOfRange

/-- The token that a document grants. A lifetime counts from the moment of the request and takes
precedence over an instant of expiry. -/
def grant (d : TokenDocument) (scope : ScopeSet) (requestedAt : Instant) :
    Except Unusable AccessToken :=
  let draft : AccessToken.Draft :=
    { scope, secret := some d.accessToken, tokenType := d.typeLabel, issuedAt := requestedAt }
  let build := fun draft : AccessToken.Draft => draft.build.mapError unusable
  match d.expiresIn, d.expiresOn with
  | some n, _ =>
    if n < Nat.pow 2 63 then build { draft with expiresIn := some (.ofSeconds n) }
    else .error .expiresInRange
  | none, some n =>
    match Instant.ofSeconds? n with
    | some t => build { draft with expiresAt := some t }
    | none => .error .expiresOnRange
  | none, none => build draft

/-- What an error document comes to. -/
def judgeRefusal (e : Exchanger) (reply : Reply) (d : ErrorDocument) : Judgement :=
  let context : Classification.Context :=
    { status := reply.status, code := some d.code, description := d.description }
  ⟨.error ((e.classifier context).failure d.reason
    (.endpoint d.reason reply.status reply.retryAfter)), some context⟩

/-- The status of a response that blames the request. -/
def clientError? (reply : Reply) : Option Nat :=
  reply.status.filter fun s => 400 ≤ s && !Classification.isServiceFailure s

/-- What a body comes to that is no document. It is looked at only if the request is blamed. -/
def judgeUnstructured (e : Exchanger) (reply : Reply) (body : List Char) (transient : Transient) :
    Judgement :=
  match clientError? reply with
  | none => ⟨.error (.transient transient), none⟩
  | some status =>
    let context := Classification.Context.withBody { status := some status } body
    let reason := "HTTP " ++ String.ofList (Decimal.ofNat status) ++ ": " ++ transient.message
    ⟨.error ((e.classifier context).failure reason transient), some context⟩

/-- What a response comes to. -/
def judgeResponse (e : Exchanger) (scope : ScopeSet) (requestedAt : Instant) (reply : Reply)
    (response : Response) : Judgement :=
  match response.receive with
  | .token d =>
    ⟨(grant d scope requestedAt).mapError fun reason => .transient (.unusable reason), none⟩
  | .refused d => e.judgeRefusal reply d
  | .unparsable category =>
    e.judgeUnstructured reply (Utf8.decodeLossy response.body)
      (.unparsable ⟨category, e.locate response⟩ reply.status)
  | .improper summary =>
    e.judgeUnstructured reply summary.toList (.endpoint summary reply.status reply.retryAfter)

/-- What a fault below the protocol comes to. -/
def judgeFault (e : Exchanger) (reply : Reply) (fault : TransportFault) : Judgement :=
  let (failure, asked) := e.mapper e.classifier reply.metadata fault
  ⟨.error failure, asked⟩

/-- What a reply comes to. -/
def conclude (e : Exchanger) (scope : ScopeSet) (requestedAt : Instant) (reply : Reply) :
    Judgement :=
  match reply.outcome with
  | .ok response => e.judgeResponse scope requestedAt reply response
  | .error fault => e.judgeFault reply fault

end Exchanger

end FederatedAccess
