import FederatedAccess.Text.LetterCase
import FederatedAccess.Text.Printable
import FederatedAccess.Url.Punycode

/-!
# Domain names

A name is brought into one form before hosts are compared: letters become small, other forms of a
character become the usual one, and labels outside ASCII are written in ASCII after a mark.

## Implementation notes

The form is that of the Unicode mapping for domain names where a name consists of characters that
stand for themselves, of letters with a small form, of full width forms and full stops, and of what is
left out. The rest of that mapping is approximated: characters are neither composed nor decomposed, so
that other compatible forms stay what they are, and characters that join the one before are refused
but for a dot above after a small i. Hosts that need these are refused here and may be accepted there.
-/

namespace FederatedAccess.Domain

/-- Characters that no name may hold. -/
def isForbidden (c : Char) : Bool :=
  c.toNat ≤ 0x20 || c.toNat == 0x7F || "%#/:<>?@[\\]^|".toList.contains c

/-- Characters that are left out of names. -/
def ignored : List Text.Range := Text.Range.readAll
  "AD 34F 180B-180D 180F 200B 2060 2064 FE00-FE0F FEFF E0100-E01EF"

/-- Full stops other than the usual one. -/
def fullStops : List Char := ['。', '．', '｡']

/-- The dot above, into which the capital I with a dot falls apart. -/
def dotAbove : Char := '\u0307'

/-- The usual form of a character, if names may hold it. Of the forms that are compatible with another
character only the full width ones are brought to it, and marks that join the character before are not
printable by themselves. -/
def mapChar (c : Char) : Option (List Char) :=
  let n := c.toNat
  if n < 0x80 then some [c.toLower]
  else if Text.Range.hit ignored n then some []
  else if fullStops.contains c then some ['.']
  else if 0xFF01 ≤ n ∧ n ≤ 0xFF5E then some [(Char.ofNat (n - 0xFEE0)).toLower]
  else if Text.isPrintable c || c == dotAbove then some (Text.lowerChar c)
  else none

/-- Whether a text is in its usual form, where `before` stands before it: each character is its own
usual form, and a dot above stands after a small i. -/
def isSettled (before : Char) : List Char → Bool
  | [] => true
  | c :: rest =>
    mapChar c == some [c] && (c != dotAbove || before == 'i') && isSettled c rest

/-- The usual form of a name, character by character. Of the characters that join the one before, it
may hold a dot above after a small i; a name with another is refused and not composed. -/
def mapName (cs : List Char) : Option (List Char) :=
  ((cs.mapM mapChar).map List.flatten).filter (isSettled '.')

/-- The mark of labels that are written in ASCII. -/
def mark : List Char := "xn--".toList

/-- Whether a label after the mark stands for text that would be written so. -/
def isFaithful (tail : List Char) : Bool :=
  match Punycode.decode tail with
  | none => false
  | some cs => cs.any (!Punycode.isBasic ·) && mapName cs == some cs && !cs.contains '.'

/-- A label in ASCII. -/
def labelToAscii (label : List Char) : Option (List Char) :=
  let marked := mark.isPrefixOf label
  if label.all Punycode.isBasic then
    if marked && !isFaithful (label.drop mark.length) then none else some label
  else if marked then none
  else some (mark ++ Punycode.encode label)

/-- A name in ASCII. -/
def toAscii (cs : List Char) : Option (List Char) := do
  let mapped ← mapName cs
  let labels ← (mapped.splitOnP (· == '.')).mapM labelToAscii
  let name := ['.'].intercalate labels
  if name.any isForbidden then none else some name

end FederatedAccess.Domain
