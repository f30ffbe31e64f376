/-!
# Base 64

Three bytes are written as four characters of an alphabet. Keys use the alphabet that is safe in
URLs, without padding; certificates use the standard alphabet with padding.
-/

namespace FederatedAccess.Base64

/-- An alphabet differs from the others in its last two characters only. -/
structure Alphabet where
  plus : Char
  slash : Char

/-- The alphabet that is safe in URLs. -/
def urlSafe : Alphabet := ⟨'-', '_'⟩

/-- The standard alphabet. -/
def standard : Alphabet := ⟨'+', '/'⟩

namespace Alphabet

/-- The character for a value below 64. -/
def char (a : Alphabet) (n : Nat) : Char :=
  if n < 26 then Char.ofNat (n + 'A'.toNat)
  else if n < 52 then Char.ofNat (n - 26 + 'a'.toNat)
  else if n < 62 then Char.ofNat (n - 52 + '0'.toNat)
  else if n = 62 then a.plus
  else a.slash

/-- The value of a character. -/
def value? (a : Alphabet) (c : Char) : Option Nat :=
  if 'A' ≤ c ∧ c ≤ 'Z' then some (c.toNat - 'A'.toNat)
  else if 'a' ≤ c ∧ c ≤ 'z' then some (c.toNat - 'a'.toNat + 26)
  else if '0' ≤ c ∧ c ≤ '9' then some (c.toNat - '0'.toNat + 52)
  else if c = a.plus then some 62
  else if c = a.slash then some 63
  else none

end Alphabet

/-- Writes bytes without padding. -/
def encode (a : Alphabet) : List UInt8 → List Char
  | [] => []
  | [x] =>
    let n := x.toNat * 16
    [a.char (n / 64), a.char (n % 64)]
  | [x, y] =>
    let n := (x.toNat * 256 + y.toNat) * 4
    [a.char (n / 4096), a.char (n / 64 % 64), a.char (n % 64)]
  | x :: y :: z :: rest =>
    let n := (x.toNat * 256 + y.toNat) * 256 + z.toNat
    a.char (n / 262144) :: a.char (n / 4096 % 64) :: a.char (n / 64 % 64) :: a.char (n % 64) ::
      encode a rest

/-- Reads padded text. Every group is complete, padding occurs only at the end, and the bits that
padding leaves over are zero. -/
def decode? (a : Alphabet) : List Char → Option (List UInt8)
  | [] => some []
  | [p, q, '=', '='] => do
    let n := (← a.value? p) * 64 + (← a.value? q)
    if n % 16 = 0 then some [(n / 16).toUInt8] else none
  | [p, q, r, '='] => do
    let n := ((← a.value? p) * 64 + (← a.value? q)) * 64 + (← a.value? r)
    if n % 4 = 0 then some [(n / 1024).toUInt8, (n / 4).toUInt8] else none
  | p :: q :: r :: s :: rest => do
    let n := (((← a.value? p) * 64 + (← a.value? q)) * 64 + (← a.value? r)) * 64 + (← a.value? s)
    let tail ← decode? a rest
    return (n / 65536).toUInt8 :: (n / 256).toUInt8 :: n.toUInt8 :: tail
  | _ => none

end FederatedAccess.Base64
