import FederatedAccess.Scope
import FederatedAccess.Secret

/-!
# Access tokens

A token is issued for a scope set and expires. It is usable while the present is earlier than its
expiry less a safety margin; it is not where the calendar has no expiry less the margin at the offset
of the expiry.
-/

namespace FederatedAccess

/-- A token. Nothing is said of its text and its lifetime: what is built from a draft is sound. -/
structure AccessToken where
  secret : Secret
  tokenType : String
  scope : ScopeSet
  issuedAt : Instant
  expiresAt : Instant
deriving DecidableEq

namespace AccessToken

/-- Why no token can be made. -/
inductive Fault
  | missingToken
  | missingExpiry
  | nonPositiveLifetime
  | expiryOutOfRange
deriving Repr, DecidableEq

/-- The message for a fault. -/
def Fault.message : Fault → String
  | .missingToken => "Access token value is required."
  | .missingExpiry => "Expiry must be supplied via expires_at or expires_in."
  | .nonPositiveLifetime => "Access token lifetime must be positive."
  | .expiryOutOfRange => "Access token expiry is out of range."

/-- What a token is made of. -/
structure Draft where
  scope : ScopeSet
  secret : Option String := none
  tokenType : String := "Bearer"
  issuedAt : Instant
  expiresAt : Option Instant := none
  expiresIn : Option Duration := none

/-- The expiry of a draft. A lifetime takes precedence over an instant. -/
def Draft.expiry (d : Draft) : Except Fault Instant :=
  match d.expiresIn, d.expiresAt with
  | some lifetime, _ =>
    match d.issuedAt.add? lifetime with
    | some t => .ok t
    | none => .error .expiryOutOfRange
  | none, some t => .ok t
  | none, none => .error .missingExpiry

/-- The token of a draft. -/
def Draft.build (d : Draft) : Except Fault AccessToken :=
  let text := d.secret.getD ""
  if text = "" then .error .missingToken
  else
    match d.expiry with
    | .error f => .error f
    | .ok expiresAt =>
      if d.issuedAt < expiresAt then .ok ⟨⟨text⟩, d.tokenType, d.scope, d.issuedAt, expiresAt⟩
      else .error .nonPositiveLifetime

/-- A token has a text and a lifetime. -/
structure IsSound (t : AccessToken) : Prop where
  nonempty : t.secret.expose ≠ ""
  positive : t.issuedAt < t.expiresAt

/-- The tokens of drafts are sound. -/
theorem Draft.isSound_of_build {d : Draft} {t : AccessToken} (h : d.build = .ok t) : t.IsSound := by
  unfold Draft.build at h
  dsimp only at h
  split at h
  · cases h
  · rename_i nonempty
    split at h
    · cases h
    · split at h
      · rename_i positive
        cases h
        exact ⟨nonempty, positive⟩
      · cases h

/-- The instant from which the token should be replaced, if the calendar has it. -/
def refreshAt? (t : AccessToken) (margin : Duration) : Option Instant :=
  t.expiresAt.sub? margin

/-- Whether the token may still be used. -/
def isUsable (t : AccessToken) (now : Instant) (margin : Duration) : Bool :=
  match t.refreshAt? margin with
  | some r => now < r
  | none => false

/-- A token is usable exactly when the calendar has the expiry less the margin and the present comes
before that. -/
theorem isUsable_iff {t : AccessToken} {now : Instant} {margin : Duration} :
    t.isUsable now margin = true ↔ now.nanos + margin.nanos < t.expiresAt.nanos ∧
      t.expiresAt.offset.Reaches (t.expiresAt.nanos - margin.nanos) := by
  unfold isUsable refreshAt?
  cases h : t.expiresAt.sub? margin with
  | some r =>
    obtain ⟨difference, offset⟩ := Instant.sub?_eq_some_iff.mp h
    have reaches := difference ▸ offset ▸ r.inRange
    rw [decide_eq_true_iff, Instant.lt_def, difference]
    simp only [reaches, and_true]
    omega
  | none => simp [Instant.at?_eq_none_iff.mp h]

/-- Whether the token has expired. -/
def isExpired (t : AccessToken) (now : Instant) : Bool := t.expiresAt ≤ now

/-- The time left until the expiry, negative after it. -/
def remaining (t : AccessToken) (now : Instant) : Duration := t.expiresAt.since now

/-- The value of the authorization header. -/
def header (t : AccessToken) : String := t.tokenType ++ " " ++ t.secret.expose

/-- What diagnostics show. -/
def render (t : AccessToken) : String :=
  "AccessToken \x7b secret: \"<redacted>\", token_type: " ++ Text.Quoted.encode t.tokenType ++
    ", scope: " ++ t.scope.render ++ ", issued_at: " ++ t.issuedAt.render ++
    ", expires_at: " ++ t.expiresAt.render ++ " \x7d"

end AccessToken

end FederatedAccess
