import FederatedAccess.Number.Decimal

/-!
# Writing JSON

Values are written without blanks. A string escapes its quotes, its backslashes and its control
characters and nothing else.
-/

namespace FederatedAccess.Json

/-- A hexadecimal digit in lower case. -/
def hexChar (n : Nat) : Char :=
  if n < 10 then Char.ofNat (n + '0'.toNat) else Char.ofNat (n - 10 + 'a'.toNat)

/-- The written form of one character. -/
def escape (c : Char) : List Char :=
  if c = '"' ∨ c = '\\' then ['\\', c]
  else if c = '\n' then ['\\', 'n']
  else if c = '\r' then ['\\', 'r']
  else if c = '\t' then ['\\', 't']
  else if c = '\x08' then ['\\', 'b']
  else if c = '\x0c' then ['\\', 'f']
  else if c.toNat < 0x20 then ['\\', 'u', '0', '0', hexChar (c.toNat / 16), hexChar (c.toNat % 16)]
  else [c]

/-- Writes a string. -/
def writeString (s : String) : List Char :=
  '"' :: s.toList.flatMap escape ++ ['"']

/-- Writes values with commas between them. -/
def writeSeparated : List (List Char) → List Char
  | [] => []
  | [v] => v
  | v :: vs => v ++ ',' :: writeSeparated vs

/-- Writes a list of values. -/
def writeList (vs : List (List Char)) : List Char :=
  '[' :: writeSeparated vs ++ [']']

/-- Writes an object with its members in order. -/
def writeObject (ms : List (String × List Char)) : List Char :=
  '{' :: writeSeparated (ms.map fun m => writeString m.1 ++ ':' :: m.2) ++ ['}']

end FederatedAccess.Json
