import FederatedAccess.Json.Record
import FederatedAccess.Json.Writer
import FederatedAccess.Text.Blank

/-!
# Absolute expiry

Directories tell the expiry of a token in seconds from 1970 as well, as a number or as a text that
holds one.
-/

namespace FederatedAccess.ExpiresOn

/-- The greatest number of containers that may be open inside a member. -/
def room : Nat := 126

/-- Reads a number from a text with blanks around it. -/
def ofText (s : String) : Except Json.Fault (Option Int) :=
  match Decimal.readInt 64 (Text.trim s.toList) with
  | .ok n => .ok (some n)
  | .error f => .error (.mismatch f.message)

/-- What the value at the front says. -/
def judge : List Json.Lexeme → Except Json.Fault (Option Int)
  | .null :: _ => .ok none
  | .number (.negative n) :: _ => .ok (some (-(n : Int)))
  | .number (.natural n) :: _ =>
    if n < Nat.pow 2 63 then .ok (some n)
    else .error (.mismatch "data did not match any variant of untagged enum NumberOrString")
  | .text (.ok s) :: _ => ofText s
  | _ => .error (.mismatch "data did not match any variant of untagged enum NumberOrString")

/-- Reads the value of the member. -/
def reader : Json.Reader (Option Int) := fun ls =>
  match Json.check room ls with
  | .error f => .error f
  | .ok ((), rest) => (judge ls).map fun v => (v, rest)

/-- The form of a document with this member. -/
def record : Json.Record (Option Int) where
  title := "struct EntraTokenFields"
  others := .skipped
  members := [⟨"expires_on", true, fun _ => reader⟩]

/-- Reads the expiry from a JSON document. -/
def ofJson (document : String) : Except Json.Fault (Option Int) :=
  Json.readAll (record.read none) (Json.source document)

/-- Writes the expiry as a JSON document. -/
def toJson (v : Option Int) : String :=
  String.ofList (Json.writeObject ((v.map fun n => ("expires_on", Decimal.ofInt n)).toList))

end FederatedAccess.ExpiresOn
