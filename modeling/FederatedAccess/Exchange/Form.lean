import FederatedAccess.Url.Percent

/-!
# Forms

A form is a list of names and values. It is written as pairs with equals signs between them and
ampersands in between, where a space becomes a plus sign and all other characters outside a small
class are escaped. Beside the writer stands the reader.
-/

namespace FederatedAccess.Form

/-- Characters that stand for themselves. -/
def isPlain (c : Char) : Bool :=
  c.isAlphanum || c == '*' || c == '-' || c == '.' || c == '_'

/-- The written form of one character. -/
def encodeChar (c : Char) : List Char :=
  if c = ' ' then ['+'] else Percent.encodeChar isPlain c

/-- The written form of a name or a value. -/
def encodeText (cs : List Char) : List Char :=
  cs.flatMap encodeChar

/-- The written form of a pair. -/
def encodePair (p : String × String) : List Char :=
  encodeText p.1.toList ++ '=' :: encodeText p.2.toList

/-- The written form of a form. -/
def encode (pairs : List (String × String)) : List Char :=
  ['&'].intercalate (pairs.map encodePair)

/-- The text of a written name or value. -/
def decodeText (cs : List Char) : List Char :=
  Utf8.decodeLossy (Percent.decode (cs.map fun c => if c = '+' then ' ' else c))

/-- The pair that is written in a piece. Without an equals sign the value is empty. -/
def decodePair (piece : List Char) : String × String :=
  (String.ofList (decodeText (piece.takeWhile (· != '='))),
    String.ofList (decodeText ((piece.dropWhile (· != '=')).drop 1)))

/-- The form that is written in a text. -/
def decode (cs : List Char) : List (String × String) :=
  ((cs.splitOnP (· == '&')).filter (!·.isEmpty)).map decodePair

end FederatedAccess.Form
