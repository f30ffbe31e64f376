import FederatedAccess.Exchange.ExpiresOn
import FederatedAccess.Text.LetterCase

/-!
# Responses of the token endpoint

A response with status 200 must carry a token document, and one with another status an error
document. What follows the first value of a body is ignored. A media type is asked for only with
status 200, and only where the response names one.
-/

namespace FederatedAccess

/-- A response of the token endpoint. -/
structure Response where
  status : Nat
  contentType : Option (List UInt8)
  body : List UInt8
deriving DecidableEq, Repr

/-- What a token document says. -/
structure TokenDocument where
  accessToken : String := ""
  tokenType : String := ""
  expiresIn : Option Nat := none
  expiresOn : Option Int := none
deriving DecidableEq, Repr

/-- What an error document says. -/
structure ErrorDocument where
  code : String := ""
  description : Option String := none
deriving DecidableEq, Repr

namespace TokenDocument

/-- A document under construction; what it says on the absolute expiry is looked at last. -/
structure Progress where
  document : TokenDocument := {}
  expiries : List (Except Json.Fault (Option Int)) := []

/-- Reads an unsigned integer of 64 bits. -/
def readNat64 : Json.Reader Nat
  | .number (.natural n) :: rest => .ok (n, rest)
  | ls => .error (Json.mismatch "u64" ls)

/-- Reads a member that the record does not name. The absolute expiry is kept for later. -/
def readOther (name : String) (p : Progress) : Json.Reader Progress := fun ls =>
  match Json.check ExpiresOn.room ls with
  | .error f => .error f
  | .ok ((), rest) =>
    if name = "expires_on" then
      .ok ({ p with expiries := p.expiries ++ [ExpiresOn.judge ls] }, rest)
    else .ok (p, rest)

/-- A member of type `α` that is put into the document by `set`. -/
def member {α : Type} (name : String) (optional : Bool) (r : Json.Reader α)
    (set : TokenDocument → α → TokenDocument) : Json.Member Progress :=
  ⟨name, optional, fun p ls => (r ls).map fun v =>
    ({ p with document := set p.document v.1 }, v.2)⟩

/-- The form of the document. -/
def record : Json.Record Progress where
  title := "struct StandardTokenResponse"
  others := .read readOther
  members := [
    member "access_token" false (Json.readString "a string") fun d v =>
      { d with accessToken := v },
    member "token_type" false (Json.readString "a string") fun d v =>
      { d with tokenType := Text.lower v },
    member "expires_in" true (Json.readOption readNat64) fun d v => { d with expiresIn := v },
    member "refresh_token" true (Json.readOption (Json.readString "a string")) fun d _ => d,
    member "scope" true (Json.readOption (Json.readString "a string")) fun d _ => d]

/-- The document, with what it says on the absolute expiry. -/
def Progress.finish (p : Progress) : Except Json.Fault TokenDocument :=
  match p.expiries with
  | [] => .ok p.document
  | .error f :: _ => .error f
  | [.ok v] => .ok { p.document with expiresOn := v }
  | .ok _ :: _ :: _ => .error (Json.Record.duplicate "expires_on")

/-- Reads a document, which is an object. -/
def reader : Json.Reader TokenDocument := fun ls =>
  match record.readObject {} ls with
  | .error f => .error f
  | .ok (p, rest) => p.finish.map fun d => (d, rest)

/-- The name of the token type in headers. -/
def typeLabel (d : TokenDocument) : String :=
  if d.tokenType = "bearer" then "Bearer"
  else if d.tokenType = "mac" then "MAC"
  else d.tokenType

end TokenDocument

namespace ErrorDocument

/-- The form of the document. -/
def record : Json.Record ErrorDocument where
  title := "struct StandardErrorResponse"
  others := .skipped
  members := [
    ⟨"error", false, fun d ls =>
      (Json.readString "a string" ls).map fun v => ({ d with code := v.1 }, v.2)⟩,
    ⟨"error_description", true, fun d ls =>
      (Json.readOption (Json.readString "a string") ls).map fun v =>
        ({ d with description := v.1 }, v.2)⟩,
    ⟨"error_uri", true, fun d ls =>
      (Json.readOption (Json.readString "a string") ls).map fun v => (d, v.2)⟩]

/-- Reads a document. -/
def reader : Json.Reader ErrorDocument := record.read {}

/-- The text that tells people of the error. -/
def reason (d : ErrorDocument) : String :=
  match d.description with
  | some text => d.code ++ ": " ++ text
  | none => d.code

end ErrorDocument

/-- What a response turns out to be. -/
inductive Received
  | token (document : TokenDocument)
  | refused (document : ErrorDocument)
  | unparsable (category : Json.Category)
  | improper (summary : String)
deriving DecidableEq, Repr

namespace Response

/-- Bytes that may occur in the text of a header. -/
def isVisible (b : UInt8) : Bool := (32 ≤ b && b < 127) || b == 9

/-- The media type of JSON. -/
def jsonType : String := "application/json"

/-- Whether a media type is the one of JSON, with or without parameters. -/
def isJson (value : List UInt8) : Bool :=
  value.all isVisible &&
    jsonType.toList.isPrefixOf (value.map fun b => (Char.ofNat b.toNat).toLower)

/-- The value of a header in diagnostics. -/
def renderHeader (value : List UInt8) : String :=
  String.ofList ('"' :: (value.flatMap fun b =>
    if b == 34 then ['\\', '"']
    else if isVisible b then [Char.ofNat b.toNat]
    else '\\' :: 'x' :: Nat.toDigits 16 b.toNat) ++ ['"'])

/-- The summary for a media type other than that of JSON. -/
def wrongType (value : List UInt8) : String :=
  "unexpected response Content-Type: " ++ renderHeader value ++ ", should be `" ++ jsonType ++ "`"

/-- Reads the first value of the body. -/
def readBody {α : Type} (r : Json.Reader α) (body : List UInt8) : Except Json.Fault α :=
  Json.readFirst r (Utf8.decode body)

/-- Reads a response. -/
def receive (r : Response) : Received :=
  if r.status ≠ 200 then
    if r.body.isEmpty then .improper "server returned empty error response"
    else
      match readBody ErrorDocument.reader r.body with
      | .ok d => .refused d
      | .error f => .unparsable f.category
  else
    match r.contentType.filter (!isJson ·) with
    | some value => .improper (wrongType value)
    | none =>
      if r.body.isEmpty then .improper "server returned empty response body"
      else
        match readBody TokenDocument.reader r.body with
        | .ok d => .token d
        | .error f => .unparsable f.category

end Response

end FederatedAccess
