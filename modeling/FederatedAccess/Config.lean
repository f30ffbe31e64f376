import FederatedAccess.Failure
import FederatedAccess.Json.Record
import FederatedAccess.Json.Writer
import FederatedAccess.Url

/-!
# Configurations

A configuration names the identity, the authority that issues tokens for it, the file that holds
the assertion, and two spans of time: how long an assertion is used before it is read again, and
how long before its expiry a token is no longer given out. A checked configuration sends assertions
only over encrypted connections or to this machine.
-/

namespace FederatedAccess

/-- What is needed to ask for tokens. -/
structure Config where
  clientId : ClientId
  tenantId : TenantId
  authorityHost : Url
  endpointOverride : Option Url
  assertionFile : String
  ttl : Duration
  margin : Duration
deriving DecidableEq

namespace Config

/-- The authority of the public cloud. -/
def publicAuthority : Url :=
  ⟨"https".toList, some ⟨[], none, .name "login.microsoftonline.com".toList, none⟩,
    .segments [[]], none, none⟩

/-- The time for which an assertion is used. -/
def defaultTtl : Duration := .ofSeconds 300

/-- The time before expiry at which a token is no longer given out. -/
def defaultMargin : Duration := .ofSeconds 300

/-! ### Checking -/

/-- What may be wrong with the address of an endpoint. -/
inductive Defect
  | hasQuery
  | insecure
deriving Repr, DecidableEq

/-- Whether an address is reached over an encrypted connection or not left this machine. -/
def isSecure (u : Url) : Bool :=
  u.scheme == "https".toList || (u.scheme == "http".toList && u.host?.any Host.isLoopback)

/-- What is wrong with the address of an endpoint. -/
def defect? (u : Url) : Option Defect :=
  if u.query.isSome ∨ u.fragment.isSome then some .hasQuery
  else if isSecure u then none
  else some .insecure

/-- The fault of an authority. -/
def authorityFault (u : Url) : Defect → Fault
  | .hasQuery => .authorityHasQuery u.render
  | .insecure => .authorityInsecure u.render

/-- The fault of a given endpoint. -/
def endpointFault (u : Url) : Defect → Fault
  | .hasQuery => .endpointHasQuery u.render
  | .insecure => .endpointInsecure u.render

/-- The first thing that is wrong with a configuration. -/
def fault? (c : Config) : Option Fault :=
  if c.assertionFile = "" then some .missingAssertionFile
  else if c.margin.nanos ≤ 0 then some .marginNotPositive
  else if c.ttl.nanos < 0 then some .negativeTtl
  else
    match defect? c.authorityHost, c.endpointOverride with
    | some d, _ => some (authorityFault c.authorityHost d)
    | none, some u => (defect? u).map (endpointFault u)
    | none, none => none

/-- What a configuration is built from. -/
structure Draft where
  clientId : ClientId
  tenantId : TenantId
  authorityHost : Option Url := none
  endpointOverride : Option Url := none
  assertionFile : Option String := none
  ttl : Duration := defaultTtl
  margin : Duration := defaultMargin

/-- The configuration of a draft without any check. -/
def Draft.unchecked (d : Draft) : Config :=
  ⟨d.clientId, d.tenantId, d.authorityHost.getD publicAuthority, d.endpointOverride,
    d.assertionFile.getD "", d.ttl, d.margin⟩

/-- The configuration of a draft, if nothing is wrong with it. -/
def Draft.build (d : Draft) : Except Fault Config :=
  match d.unchecked.fault? with
  | some f => .error f
  | none => .ok d.unchecked

/-! ### Addresses -/

/-- The text without slashes at its end. -/
def trimSlashes (cs : List Char) : List Char :=
  (cs.reverse.dropWhile (· == '/')).reverse

/-- The address of the tenant at the authority. -/
def authority (c : Config) : Except SetupFailure Url :=
  match Url.read (trimSlashes c.authorityHost.write ++ '/' :: c.tenantId.text.toList ++ ['/']) with
  | some u => .ok u
  | none => .error .endpointUrl

/-- The segments of the token endpoint under the address of a tenant. -/
def endpointSegments : List (List Char) :=
  ["oauth2".toList, "v2.0".toList, "token".toList]

/-- The token endpoint: the given one, or else the one under the address of the tenant. -/
def tokenEndpoint (c : Config) : Except SetupFailure Url :=
  match c.endpointOverride with
  | some u => .ok u
  | none =>
    match c.authority with
    | .error f => .error f
    | .ok u =>
      match u.sibling? endpointSegments with
      | some e => .ok e
      | none => .error .endpointUrl

/-! ### Documents -/

/-- The members of a document that describes a configuration. -/
structure Document where
  clientId : String := ""
  tenantId : String := ""
  authorityHost : Option String := none
  tokenEndpoint : Option String := none
  assertionFile : String := ""
  ttlSeconds : Int := defaultTtl.wholeSeconds
  marginSeconds : Int := defaultMargin.wholeSeconds

namespace Document

/-- A member of type `α` that is put into the document by `set`. -/
def member {α : Type} (name : String) (optional : Bool) (r : Json.Reader α)
    (set : Document → α → Document) : Json.Member Document :=
  ⟨name, optional, fun d ls => (r ls).map fun p => (set d p.1, p.2)⟩

/-- The form of the document. -/
def record : Json.Record Document where
  title := "struct RawCredentialConfig"
  others := .refused
  members := [
    member "client_id" false (Json.readString "a string") fun d v => { d with clientId := v },
    member "tenant_id" false (Json.readString "a string") fun d v => { d with tenantId := v },
    member "authority_host" true (Json.readOption (Json.readString "a string"))
      fun d v => { d with authorityHost := v },
    member "token_endpoint" true (Json.readOption (Json.readString "a string"))
      fun d v => { d with tokenEndpoint := v },
    member "assertion_file" false (Json.readString "path string")
      fun d v => { d with assertionFile := v },
    member "assertion_ttl_secs" true Json.readInt64 fun d v => { d with ttlSeconds := v },
    member "safety_margin_secs" true Json.readInt64 fun d v => { d with marginSeconds := v }]

/-- Reads an identifier of a document. -/
def identifier (kind : Identifier.Kind) (text : String) : Except Fault (Identifier kind) :=
  (Identifier.make kind text).mapError (.identifier kind)

/-- Reads an address of a document, if there is one. -/
def address (fault : String → Fault) : Option String → Except Fault (Option Url)
  | none => .ok none
  | some text =>
    match Url.parse text with
    | some u => .ok (some u)
    | none => .error (fault text)

/-- The configuration that a document describes. -/
def toConfig (d : Document) : Except Fault Config := do
  let clientId ← identifier .client d.clientId
  let tenantId ← identifier .tenant d.tenantId
  let authorityHost ← address .authorityNotUrl d.authorityHost
  let endpointOverride ← address .endpointNotUrl d.tokenEndpoint
  Draft.build ⟨clientId, tenantId, authorityHost, endpointOverride, some d.assertionFile,
    .ofSeconds d.ttlSeconds, .ofSeconds d.marginSeconds⟩

end Document

/-- Reads a configuration. -/
def reader : Json.Reader Config := fun ls =>
  match Document.record.read {} ls with
  | .error f => .error f
  | .ok (d, rest) =>
    match d.toConfig with
    | .ok c => .ok (c, rest)
    | .error f => .error (.mismatch f.message)

/-- Reads a configuration from a JSON document. -/
def ofJson (document : String) : Except Json.Fault Config :=
  Json.readAll reader (Json.source document)

/-- The members of the document for a configuration; spans are in whole seconds. -/
def members (c : Config) : List (String × List Char) :=
  [("client_id", Json.writeString c.clientId.text),
    ("tenant_id", Json.writeString c.tenantId.text),
    ("authority_host", Json.writeString c.authorityHost.render)] ++
  (c.endpointOverride.map fun u => ("token_endpoint", Json.writeString u.render)).toList ++
  [("assertion_file", Json.writeString c.assertionFile),
    ("assertion_ttl_secs", Decimal.ofInt c.ttl.wholeSeconds),
    ("safety_margin_secs", Decimal.ofInt c.margin.wholeSeconds)]

/-- Writes a configuration as a JSON document. -/
def toJson (c : Config) : String := String.ofList (Json.writeObject c.members)

end Config

end FederatedAccess
