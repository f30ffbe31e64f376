import FederatedAccess.Json.Reader
import FederatedAccess.Json.Writer
import FederatedAccess.Time.Calendar

/-!
# Secrets

Tokens and assertions are secret. A secret shows nothing of itself in messages and diagnostics;
only `expose` gives its text.
-/

namespace FederatedAccess

/-- A text that must not be shown. -/
structure Secret where
  expose : String
deriving DecidableEq

namespace Secret

/-- What is shown in place of a secret. -/
def display (_ : Secret) : String := "<redacted>"

/-- What diagnostics show. -/
def render (_ : Secret) : String := "TokenSecret(<redacted>)"

/-- Reads a secret from a JSON document that is a string. -/
def ofJson (document : String) : Except Json.Fault Secret :=
  (Json.readAll (Json.readString "a string") (Json.source document)).map Secret.mk

/-- Writes the text of a secret as a JSON string. -/
def toJson (s : Secret) : String := String.ofList (Json.writeString s.expose)

end Secret

/-- A signed statement of identity, and when it was read from its source. -/
structure Assertion where
  value : Secret
  readAt : Instant
deriving DecidableEq

namespace Assertion

/-- Assertions are compared by their texts and by what their instants count. -/
instance : BEq Assertion := ⟨fun a b => a.value == b.value && a.readAt.nanos == b.readAt.nanos⟩

/-- The time since the assertion was read. -/
def age (a : Assertion) (now : Instant) : Duration := now.since a.readAt

/-- What diagnostics show. -/
def render (a : Assertion) : String :=
  "Assertion \x7b value: " ++ a.value.render ++ ", read_at: " ++ a.readAt.render ++ " \x7d"

end Assertion

end FederatedAccess
