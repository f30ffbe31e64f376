/-!
# Decimal integers

Integers are written with as few digits as possible and read with an optional sign, leading zeros
being allowed. Reading goes from left to right and reports the first thing that is wrong.
-/

namespace FederatedAccess.Decimal

/-- The value of a decimal digit. -/
def digit? (c : Char) : Option Nat :=
  if '0' ≤ c ∧ c ≤ '9' then some (c.toNat - '0'.toNat) else none

/-- Whether the character is a decimal digit. -/
def isDigit (c : Char) : Bool :=
  (digit? c).isSome

/-- The value of digits, other characters counting as zero. -/
def value (cs : List Char) : Nat :=
  cs.foldl (fun n c => n * 10 + (digit? c).getD 0) 0

/-- The digits of a natural number. -/
def ofNat (n : Nat) : List Char :=
  Nat.toDigits 10 n

/-- The digits of an integer after a hyphen when it is negative. -/
def ofInt : Int → List Char
  | .ofNat n => ofNat n
  | .negSucc n => '-' :: ofNat (n + 1)

/-- A number with at least the given count of digits. -/
def padded (width n : Nat) : List Char :=
  let ds := ofNat n
  List.replicate (width - ds.length) '0' ++ ds

/-- Why a text is not an integer of the wanted range. -/
inductive Fault
  | empty
  | badDigit
  | tooLarge
  | tooSmall
deriving Repr, DecidableEq

/-- The description of a fault. -/
def Fault.message : Fault → String
  | .empty => "cannot parse integer from empty string"
  | .badDigit => "invalid digit found in string"
  | .tooLarge => "number too large to fit in target type"
  | .tooSmall => "number too small to fit in target type"

/-- Adds digits to a value as long as it does not exceed the limit. -/
def readDigits (limit : Nat) (excess : Fault) : Nat → List Char → Except Fault Nat
  | n, [] => .ok n
  | n, c :: rest =>
    match digit? c with
    | none => .error .badDigit
    | some d => if n * 10 + d ≤ limit then readDigits limit excess (n * 10 + d) rest else .error excess

/-- Reads a natural number up to a limit; a plus sign may precede it. -/
def readNat (limit : Nat) : List Char → Except Fault Nat
  | [] => .error .empty
  | ['+'] => .error .badDigit
  | '+' :: ds => readDigits limit .tooLarge 0 ds
  | ds => readDigits limit .tooLarge 0 ds

/-- Reads an integer of `bits` bits in two's complement. -/
def readInt (bits : Nat) : List Char → Except Fault Int
  | [] => .error .empty
  | ['+'] => .error .badDigit
  | ['-'] => .error .badDigit
  | '-' :: ds => (readDigits (Nat.pow 2 (bits - 1)) .tooSmall 0 ds).map fun n => -(n : Int)
  | '+' :: ds => (readDigits (Nat.pow 2 (bits - 1) - 1) .tooLarge 0 ds).map fun n => (n : Int)
  | ds => (readDigits (Nat.pow 2 (bits - 1) - 1) .tooLarge 0 ds).map fun n => (n : Int)

end FederatedAccess.Decimal
