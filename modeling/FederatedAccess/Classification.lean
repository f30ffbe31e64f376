import FederatedAccess.Number.Decimal
import FederatedAccess.Text.LetterCase
import FederatedAccess.Text.Search

/-!
# Classifying failed exchanges

A failed exchange is sorted by what is known of it: the status, the fields of an error document, or
the start of a body that is none. Failures of the network and of the service may pass whatever else
is known. Otherwise the first of these decides: the directory's own error number, the error code,
words of the description, words of the body, the status.
-/

namespace FederatedAccess.Classification

/-- The kinds of failed exchanges. -/
inductive Kind
  | invalidAssertion
  | insufficientPermissions
  | invalidScope
  | transient
deriving Repr, DecidableEq

/-- What is known of a failed exchange. -/
structure Context where
  status : Option Nat := none
  code : Option String := none
  description : Option String := none
  preview : Option String := none
  network : Bool := false
deriving Repr, DecidableEq

/-- A classifier gives each failed exchange a kind. -/
abbrev Classifier := Context → Kind

/-- The number of characters of a body that are kept. -/
def previewLimit : Nat := 256

/-- The start of a body, with an ellipsis if the body goes on. -/
def previewOf (body : List Char) : List Char :=
  if previewLimit < body.length then body.take previewLimit ++ ['…'] else body

/-- The context with the start of a body. -/
def Context.withBody (c : Context) (body : List Char) : Context :=
  { c with preview := some (String.ofList (previewOf body)) }

/-- What is known when no response came. -/
def networkFailure : Context := { network := true }

/-- Whether a status reports a failure of the service, or that it asks for fewer requests. -/
def isServiceFailure (status : Nat) : Bool :=
  status == 429 || 500 ≤ status

/-- The word before the directory's error number. -/
def marker : List Char := "AADSTS".toList

/-- The digits after the first marker of a text, as a number of 32 bits. -/
def directoryNumber? (text : List Char) : Option Nat :=
  match Text.after? marker text with
  | none => none
  | some rest => (Decimal.readNat (Nat.pow 2 32 - 1) (rest.takeWhile Decimal.isDigit)).toOption

/-- The directory's error number in the description. -/
def Context.directoryNumber? (c : Context) : Option Nat :=
  c.description.bind fun d => Classification.directoryNumber? d.toList

/-- The kind of a known error number. -/
def ofNumber (n : Nat) : Option Kind :=
  if n = 70011 ∨ n = 500011 ∨ n = 1002012 then some .invalidScope
  else if n = 50027 ∨ n = 700024 ∨ n = 700027 ∨ n = 700211 ∨ n = 700212 ∨ n = 700213 then
    some .invalidAssertion
  else if n = 65001 ∨ n = 70021 ∨ n = 700016 ∨ n = 7000112 then some .insufficientPermissions
  else none

/-- Whether a word in lower case occurs in a text, the case of ASCII letters ignored. -/
def mentions (text word : String) : Bool :=
  Text.occursIn word.toList (Text.lowerAscii text).toList

/-- The kind of a known error code. -/
def ofCode (code : String) (description : Option String) : Option Kind :=
  let code := Text.lowerAscii code
  if code = "invalid_scope" then some .invalidScope
  else if code = "invalid_client" ∨ code = "invalid_grant" then some .invalidAssertion
  else if code = "unauthorized_client" ∨ code = "access_denied" then some .insufficientPermissions
  else if code = "temporarily_unavailable" ∨ code = "server_error" then some .transient
  else if code = "invalid_request" ∧ description.any (mentions · "assertion") then
    some .invalidAssertion
  else none

/-- The kind that the words of a text suggest. -/
def ofWords (text : String) : Option Kind :=
  if mentions text "invalid_scope" then some .invalidScope
  else if mentions text "invalid_client" ∨ mentions text "invalid_grant" ∨
      mentions text "assertion" then some .invalidAssertion
  else if mentions text "unauthorized_client" ∨ mentions text "access_denied" then
    some .insufficientPermissions
  else if mentions text "temporarily_unavailable" ∨ mentions text "server_error" then
    some .transient
  else none

/-- The kind that is left when only the status is known. -/
def ofStatus : Option Nat → Kind
  | some 400 => .invalidScope
  | some 401 => .invalidAssertion
  | some 403 => .insufficientPermissions
  | _ => .transient

/-- The classifier for directories. -/
def standard : Classifier := fun c =>
  if c.network ∨ c.status.any isServiceFailure then .transient
  else
    (c.directoryNumber?.bind ofNumber
      |>.or (c.code.bind (ofCode · c.description))
      |>.or (c.description.bind ofWords)
      |>.or (c.preview.bind ofWords)).getD (ofStatus c.status)

/-- A failure of the network or of the service may pass, whatever else is known of it. -/
theorem standard_eq_transient {c : Context}
    (h : c.network = true ∨ c.status.any isServiceFailure = true) : standard c = .transient := by
  simp [standard, h]

end FederatedAccess.Classification
