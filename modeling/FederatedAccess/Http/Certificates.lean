import FederatedAccess.Failure
import FederatedAccess.Text.Base64
import FederatedAccess.Text.Quoted

/-!
# Trusted certificates

A bundle is a text in which certificates stand between marker lines, among sections of other kinds
and lines of no meaning. The certificates of all bundles are trusted in addition to the built-in
ones, and names may be tied to addresses. Certificates are looked into when the client is built.
-/

namespace FederatedAccess

namespace Bundle

/-- A section of a bundle. -/
structure Section where
  kind : List Char
  content : List UInt8
deriving DecidableEq, Repr

/-- The mark of the first line of a section. -/
def beginMark : List Char := "-----BEGIN ".toList

/-- The mark of the last line of a section. -/
def endMark : List Char := "-----END ".toList

/-- The hyphens at the end of a marker line. -/
def rule : List Char := "-----".toList

/-- Characters that may follow a line. -/
def isPadding (c : Char) : Bool := c == '\n' || c == '\r' || c == ' '

/-- A line without what may follow it. -/
def trimLine (line : List Char) : List Char :=
  (line.reverse.dropWhile isPadding).reverse

/-- The kind of section that a line begins. A marker line that is not closed is a fault. -/
def begun? (line : List Char) : Option (Option (List Char)) :=
  if beginMark.isPrefixOf line then
    let back := (line.reverse.filter (!isPadding ·)).takeWhile (· == '-')
    if back.length = rule.length then
      some (some (((trimLine line).take ((trimLine line).length - rule.length)).drop
        beginMark.length))
    else some none
  else none

/-- Reads lines; a section that has begun is held with the text it has so far. -/
def readLines : Option (List Char × List Char) → List (List Char) → Option (List Section)
  | none, [] => some []
  | some _, [] => none
  | current, line :: rest =>
    match begun? line with
    | some none => none
    | some (some kind) => readLines (some (kind, [])) rest
    | none =>
      match current with
      | none => readLines none rest
      | some (kind, text) =>
        if (endMark ++ kind ++ rule).isPrefixOf line then do
          let content ← Base64.decode? Base64.standard text
          let sections ← readLines none rest
          return ⟨kind, content⟩ :: sections
        else readLines (some (kind, text ++ trimLine line)) rest

/-- The certificates of a bundle, unless a section of it is broken. -/
def certificates? (text : String) : Option (List (List UInt8)) :=
  (readLines none (text.toList.splitOnP fun c => c == '\n' || c == '\r')).map fun sections =>
    (sections.filter (·.kind == "CERTIFICATE".toList)).map Section.content

end Bundle

namespace Der

/-- An element: its tag and its content. -/
structure Element where
  tag : UInt8
  content : List UInt8
deriving DecidableEq, Repr

/-- Reads a length, whose bytes after the first are counted by it. -/
def readLength : List UInt8 → Option (Nat × List UInt8)
  | [] => none
  | b :: rest =>
    if b < 0x80 then some (b.toNat, rest)
    else
      let count := b.toNat - 0x80
      let ds := rest.take count
      if 1 ≤ count ∧ count ≤ 4 ∧ ds.length = count then
        some (ds.foldl (fun n d => n * 256 + d.toNat) 0, rest.drop count)
      else none

/-- Reads the elements that bytes consist of, at most the given number. -/
def readElements : Nat → List UInt8 → Option (List Element)
  | _, [] => some []
  | 0, _ :: _ => none
  | n + 1, tag :: rest => do
    let (size, rest) ← readLength rest
    if size ≤ rest.length then
      let tail ← readElements n (rest.drop size)
      return ⟨tag, rest.take size⟩ :: tail
    else none

/-- The tags of the elements that bytes consist of. -/
def tags? (bytes : List UInt8) : Option (List UInt8) :=
  (readElements bytes.length bytes).map (·.map Element.tag)

/-- The tags of a certificate before its public key: version, serial number, algorithm, issuer,
validity, subject. The version may be missing. -/
def certificateTags : List UInt8 := [0xA0, 0x02, 0x30, 0x30, 0x30, 0x30, 0x30]

/-- Whether bytes are laid out as a certificate. -/
def isCertificate (bytes : List UInt8) : Bool :=
  match readElements bytes.length bytes with
  | some [⟨0x30, outer⟩] =>
    match readElements outer.length outer with
    | some [⟨0x30, body⟩, ⟨0x30, _⟩, ⟨0x03, _⟩] =>
      (tags? body).any fun ts =>
        certificateTags.isPrefixOf ts || certificateTags.tail.isPrefixOf ts
    | _ => false
  | _ => false

end Der

/-- What a client is built from: certificates, and names tied to addresses. -/
structure ClientDraft where
  certificates : List (List UInt8) := []
  addresses : List (String × String) := []

namespace ClientDraft

/-- Trusts the certificates of a bundle. -/
def trust (d : ClientDraft) (bundle : String) : Except SetupFailure ClientDraft :=
  match Bundle.certificates? bundle with
  | none => .error (.clientBuild "invalid certificate encoding")
  | some [] => .error .emptyBundle
  | some certificates => .ok { d with certificates := d.certificates ++ certificates }

/-- Ties a name to an address. -/
def tie (d : ClientDraft) (host address : String) : ClientDraft :=
  { d with addresses := d.addresses ++ [(host, address)] }

/-- Looks into the certificates. -/
def build (d : ClientDraft) : Except SetupFailure Unit :=
  if d.certificates.all Der.isCertificate then .ok ()
  else .error (.clientBuild "invalid certificate")

/-- The text in diagnostics. -/
def render (d : ClientDraft) : String :=
  "ReqwestHttpClientBuilder \x7b root_certificates: " ++
    String.ofList (Decimal.ofNat d.certificates.length) ++ ", resolve: [" ++
    ", ".intercalate (d.addresses.map fun a =>
      "(" ++ Text.Quoted.encode a.1 ++ ", " ++ a.2 ++ ")") ++ "] \x7d"

/-- The text of a handle in diagnostics. -/
def handleText : String := "InstrumentedHandle(..)"

end ClientDraft

end FederatedAccess
