import FederatedAccess.Text.Printable

/-!
# Quoted text

Text in diagnostics stands between double quotes. Quotes and backslashes are escaped, the usual
control characters have short escapes, and all else that is not printable is written as a code
point in hexadecimal.
-/

namespace FederatedAccess.Text.Quoted

/-- The written form of one character. -/
def escape (c : Char) : List Char :=
  if c = '\x00' then ['\\', '0']
  else if c = '\t' then ['\\', 't']
  else if c = '\n' then ['\\', 'n']
  else if c = '\r' then ['\\', 'r']
  else if c = '"' || c = '\\' then ['\\', c]
  else if isPrintable c then [c]
  else ['\\', 'u', '\x7b'] ++ Nat.toDigits 16 c.toNat ++ ['\x7d']

/-- The text between quotes. -/
def encode (s : String) : String :=
  String.ofList ('"' :: s.toList.flatMap escape ++ ['"'])

/-- Several texts in brackets. -/
def encodeList (xs : List String) : String :=
  "[" ++ ", ".intercalate (xs.map encode) ++ "]"

end FederatedAccess.Text.Quoted
