import FederatedAccess.Config.Fault
import FederatedAccess.Time.Duration

/-!
# Failures

What can go wrong when a token is asked for, from reading the assertion to the answer of the token
endpoint. Every failure says whether trying again may help, and whether it blames the assertion,
which is the one cause that is retried at once.
-/

namespace FederatedAccess

/-- Why no assertion could be read. -/
inductive ReadFailure
  | missing (path : String)
  | unreadable (path detail : String)
  | empty (path : String)
deriving Repr, DecidableEq

namespace ReadFailure

/-- The path that was to be read. -/
def path : ReadFailure → String
  | .missing path => path
  | .unreadable path _ => path
  | .empty path => path

/-- The message for a failure. -/
def message : ReadFailure → String
  | .missing path => "Assertion file " ++ path ++ " does not exist."
  | .unreadable path _ => "Assertion file " ++ path ++ " could not be read."
  | .empty path => "Assertion file " ++ path ++ " is empty."

end ReadFailure

/-- Why a response that could be read yields no token. -/
inductive Unusable
  | expiresInRange
  | expiresOnRange
  | emptyToken
  | missingExpiry
  | nonPositiveLifetime
  | expiryOutOfRange
deriving Repr, DecidableEq

/-- The description of a reason. -/
def Unusable.message : Unusable → String
  | .expiresInRange => "expires_in is out of range"
  | .expiresOnRange => "expires_on is out of range"
  | .emptyToken => "access_token is empty"
  | .missingExpiry => "neither expires_in nor expires_on is present"
  | .nonPositiveLifetime => "token lifetime is not positive"
  | .expiryOutOfRange => "token expiry is out of range"

/-- Where reading a document stopped. -/
structure Json.Spot where
  line : Nat := 0
  column : Nat := 0
deriving Repr, DecidableEq

/-- Why a text is no document of the kind expected, and where it stops being one. -/
structure Json.Flaw where
  category : Json.Category
  spot : Json.Spot := {}
deriving Repr, DecidableEq

/-- A text that is no JSON. -/
def Json.Flaw.malformed : Json.Flaw := { category := .malformed }

instance : Coe Json.Flaw Json.Category := ⟨Json.Flaw.category⟩

/-- A failure that may pass. -/
inductive Transient
  | endpoint (summary : String) (status : Option Nat) (retryAfter : Option Duration)
  | unparsable (flaw : Json.Flaw) (status : Option Nat)
  | unusable (reason : Unusable)
  | network (detail : String)
  | io (detail : String)
deriving Repr, DecidableEq

namespace Transient

/-- The message for a failure. -/
def message : Transient → String
  | .endpoint summary _ _ => "Token endpoint returned an unexpected response: " ++ summary
  | .unparsable _ _ => "Token endpoint returned malformed JSON."
  | .unusable reason =>
    "Token endpoint returned an unusable token response: " ++ reason.message ++ "."
  | .network _ => "Network error occurred while calling the token endpoint."
  | .io _ => "I/O error occurred while calling the token endpoint."

/-- The status of the response, if there was one and it is known. -/
def status : Transient → Option Nat
  | .endpoint _ status _ => status
  | .unparsable _ status => status
  | _ => none

/-- How long the endpoint asked to wait. -/
def retryAfter : Transient → Option Duration
  | .endpoint _ _ retryAfter => retryAfter
  | _ => none

end Transient

/-- Why an exchange yields no token. -/
inductive ExchangeFailure
  | invalidAssertion (reason : String)
  | insufficientPermissions (reason : String)
  | invalidScope (reason : String)
  | transient (t : Transient)
deriving Repr, DecidableEq

/-- The message for a failure. -/
def ExchangeFailure.message : ExchangeFailure → String
  | .invalidAssertion reason => "Identity provider rejected the client assertion: " ++ reason
  | .insufficientPermissions reason =>
    "Workload identity lacks the requested permissions: " ++ reason
  | .invalidScope reason => "Requested scope is invalid: " ++ reason
  | .transient t => t.message

/-- Why work could not be set up. -/
inductive SetupFailure
  | config (fault : Config.Fault)
  | clientBuild (detail : String)
  | emptyBundle
  | request
  | endpointUrl
deriving Repr, DecidableEq

/-- The message for a failure. -/
def SetupFailure.message : SetupFailure → String
  | .config fault => fault.message
  | .clientBuild _ => "HTTP client could not be constructed."
  | .emptyBundle => "Root certificate bundle contains no certificate."
  | .request => "Token request could not be constructed."
  | .endpointUrl => "Token endpoint URL is invalid."

/-- What a caller was waiting for when its deadline passed. -/
inductive Stage
  | waitingForRefresh
  | assertionRead
  | exchange
deriving Repr, DecidableEq

/-- The stages in order. -/
def Stage.all : List Stage := [.waitingForRefresh, .assertionRead, .exchange]

/-- The description of a stage. -/
def Stage.label : Stage → String
  | .waitingForRefresh => "waiting for an in-flight refresh"
  | .assertionRead => "reading the assertion"
  | .exchange => "exchanging the assertion"

/-- Why a token could not be had. -/
inductive Failure
  | assertion (f : ReadFailure)
  | exchange (f : ExchangeFailure)
  | setup (f : SetupFailure)
  | timeout (stage : Stage)
deriving Repr, DecidableEq

namespace Failure

/-- A failure that may pass. -/
def transient (t : Transient) : Failure := .exchange (.transient t)

/-- The message for a failure. -/
def message : Failure → String
  | .assertion f => f.message
  | .exchange f => f.message
  | .setup f => f.message
  | .timeout stage => "Deadline elapsed while " ++ stage.label ++ "."

/-- Whether the same call may succeed later without a change. -/
def isRetryable : Failure → Bool
  | .assertion _ => true
  | .exchange (.transient _) => true
  | .exchange _ => false
  | .setup _ => false
  | .timeout _ => true

/-- Whether the token endpoint refused the assertion. -/
def isInvalidAssertion : Failure → Bool
  | .exchange (.invalidAssertion _) => true
  | _ => false

/-- Whether the caller ran out of time. -/
def isTimeout : Failure → Bool
  | .timeout _ => true
  | _ => false

/-- The status of the response, where it is known and the failure may pass. -/
def status : Failure → Option Nat
  | .exchange (.transient t) => t.status
  | _ => none

/-- How long the endpoint asked to wait, where the failure may pass. -/
def retryAfter : Failure → Option Duration
  | .exchange (.transient t) => t.retryAfter
  | _ => none

/-- The text of the cause that lies outside the library. -/
def cause? : Failure → Option String
  | .assertion (.unreadable _ detail) => some detail
  | .exchange (.transient (.network detail)) => some detail
  | .exchange (.transient (.io detail)) => some detail
  | .setup (.clientBuild detail) => some detail
  | _ => none

/-- A failure that blames the assertion is not retried by the caller. -/
theorem isRetryable_of_isInvalidAssertion {f : Failure} (h : f.isInvalidAssertion = true) :
    f.isRetryable = false := by
  cases f with
  | exchange f =>
      cases f with
      | invalidAssertion reason => rfl
      | _ => cases h
  | _ => cases h

end Failure

end FederatedAccess
