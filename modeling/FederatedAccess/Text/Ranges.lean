/-!
# Ranges of code points

Properties of characters are given as text, one hexadecimal range after another, so that a table
stays readable. The readers here turn such a text into lists that are searched.
-/

namespace FederatedAccess.Text

/-- The value of a hexadecimal digit. -/
def hexDigit? (c : Char) : Option Nat :=
  if '0' ≤ c ∧ c ≤ '9' then some (c.toNat - '0'.toNat)
  else if 'a' ≤ c ∧ c ≤ 'f' then some (c.toNat - 'a'.toNat + 10)
  else if 'A' ≤ c ∧ c ≤ 'F' then some (c.toNat - 'A'.toNat + 10)
  else none

/-- The value of hexadecimal digits, other characters being ignored. -/
def hexValue (cs : List Char) : Nat :=
  (cs.filterMap hexDigit?).foldl (fun n d => n * 16 + d) 0

/-- A range of code points, both ends included. -/
structure Range where
  first : Nat
  last : Nat
deriving Repr, DecidableEq

namespace Range

/-- Reads one code point, or two joined by a hyphen. -/
def read (cs : List Char) : Range :=
  match cs.splitOnP (· == '-') with
  | [one] => ⟨hexValue one, hexValue one⟩
  | first :: last :: _ => ⟨hexValue first, hexValue last⟩
  | [] => ⟨0, 0⟩

/-- Reads ranges separated by spaces. -/
def readAll (text : String) : List Range :=
  (text.toList.splitOnP (· == ' ')).map read

/-- Whether some range contains the code point. -/
def hit (ranges : List Range) (n : Nat) : Bool :=
  ranges.any fun r => r.first ≤ n && n ≤ r.last

end Range

/-- A range whose members, taken at every stride, move by the same distance. -/
structure Shift extends Range where
  stride : Nat
  target : Nat
deriving Repr, DecidableEq

namespace Shift

/-- Reads a range, a stride after a slash if it is not one, and after `>` the image of the first
member. -/
def read (cs : List Char) : Shift :=
  match cs.splitOnP (· == '>') with
  | [left, right] =>
    match left.splitOnP (· == '/') with
    | [range, stride] => ⟨Range.read range, hexValue stride, hexValue right⟩
    | _ => ⟨Range.read left, 1, hexValue right⟩
  | _ => ⟨⟨0, 0⟩, 1, 0⟩

/-- Reads shifts separated by spaces. -/
def readAll (text : String) : List Shift :=
  (text.toList.splitOnP (· == ' ')).map read

/-- Moves a code point by the shift that covers it, if one does. -/
def apply (shifts : List Shift) (n : Nat) : Nat :=
  match shifts.find? (fun s => s.first ≤ n && n ≤ s.last && (n - s.first) % s.stride == 0) with
  | some s => s.target + (n - s.first)
  | none => n

end Shift

end FederatedAccess.Text
