import FederatedAccess.Identifier

/-!
# Faults of configurations

A configuration is checked before any work is done with it. Each fault names what is wrong and, for
addresses, the text of the address.
-/

namespace FederatedAccess.Config

/-- Why a configuration is refused. -/
inductive Fault
  | missingAssertionFile
  | identifier (kind : Identifier.Kind) (fault : Identifier.Fault)
  | authorityNotUrl (text : String)
  | authorityInsecure (url : String)
  | authorityHasQuery (url : String)
  | endpointNotUrl (text : String)
  | endpointInsecure (url : String)
  | endpointHasQuery (url : String)
  | marginNotPositive
  | negativeTtl
deriving Repr, DecidableEq

/-- The message for a fault. -/
def Fault.message : Fault → String
  | .missingAssertionFile => "Assertion file path is required."
  | .identifier kind fault => fault.message kind
  | .authorityNotUrl text => "Authority host is not a valid URL: " ++ text ++ "."
  | .authorityInsecure url => "Authority host must use HTTPS: " ++ url ++ "."
  | .authorityHasQuery url => "Authority host must not contain a query or fragment: " ++ url ++ "."
  | .endpointNotUrl text => "Token endpoint is not a valid URL: " ++ text ++ "."
  | .endpointInsecure url => "Token endpoint must use HTTPS: " ++ url ++ "."
  | .endpointHasQuery url => "Token endpoint must not contain a query or fragment: " ++ url ++ "."
  | .marginNotPositive => "Safety margin must be positive."
  | .negativeTtl => "Assertion TTL cannot be negative."

end FederatedAccess.Config
