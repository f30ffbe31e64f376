/-!
# Binary floating point

Non-negative values of the 64-bit binary format, held as an integer times a power of two. Every
operation rounds the exact result to the nearest value, a tie going to the even integer.
-/

namespace FederatedAccess

/-- The value `mantissa * 2 ^ exponent`. -/
structure Binary64 where
  mantissa : Nat
  exponent : Int
deriving Repr, DecidableEq

namespace Binary64

/-- The smallest exponent. -/
def minExponent : Int := -1074

/-- The largest exponent. -/
def maxExponent : Int := 971

/-- Zero. -/
def zero : Binary64 := ⟨0, minExponent⟩

/-- Multiplies a fraction by a power of two. -/
def scale (num den : Nat) (k : Int) : Nat × Nat :=
  if 0 ≤ k then (num * Nat.pow 2 k.toNat, den) else (num, den * Nat.pow 2 (-k).toNat)

/-- The nearest integer to a fraction, a tie going to the even one. -/
def roundEven (num den : Nat) : Nat :=
  let q := num / den
  let r := num % den
  if 2 * r < den then q
  else if den < 2 * r then q + 1
  else if q % 2 = 0 then q else q + 1

/-- The value nearest to a positive fraction at an exponent, which is corrected by one when the
integer has too few or too many bits; nothing when the value is too large. -/
def settle (num den : Nat) : Nat → Int → Option Binary64
  | 0, _ => none
  | tries + 1, e =>
    let (n, d) := scale num den (-e)
    if n < d * Nat.pow 2 52 ∧ minExponent < e then settle num den tries (e - 1)
    else
      let m := roundEven n d
      if Nat.pow 2 53 ≤ m then settle num den tries (e + 1)
      else if maxExponent < e then none
      else some ⟨m, e⟩

/-- The value nearest to a fraction; nothing when it is too large. -/
def ofRatio (num den : Nat) : Option Binary64 :=
  if num = 0 then some zero
  else settle num den 4 (max minExponent ((num.log2 : Int) - den.log2 - 52))

/-- The value nearest to an integer. -/
def ofNat (n : Nat) : Option Binary64 :=
  ofRatio n 1

/-- The rounded product. -/
def mul (a b : Binary64) : Option Binary64 :=
  let (n, d) := scale (a.mantissa * b.mantissa) 1 (a.exponent + b.exponent)
  ofRatio n d

/-- The rounded quotient by a positive value. -/
def div (a b : Binary64) : Option Binary64 :=
  let (n, d) := scale a.mantissa b.mantissa (a.exponent - b.exponent)
  ofRatio n d

/-- Divides by `10 ^ 308` until the remaining power of ten is one that can be represented. -/
def divideDown : Nat → Binary64 → Nat → Option (Binary64 × Nat)
  | 0, x, k => if k ≤ 308 then some (x, k) else some (zero, 0)
  | steps + 1, x, k =>
    if k ≤ 308 then some (x, k)
    else do
      let tenth ← ofNat (Nat.pow 10 308)
      divideDown steps (← x.div tenth) (k - 308)

/-- A decimal number `significand * 10 ^ power`: the significand and the power of ten are rounded,
then their product or quotient; nothing when the value is too large. -/
def ofDecimal (significand : Nat) (power : Int) : Option Binary64 := do
  let x ← ofNat significand
  if 0 ≤ power then
    if 308 < power then
      if significand = 0 then some zero else none
    else x.mul (← ofNat (Nat.pow 10 power.toNat))
  else
    let (y, k) ← divideDown 4 x (-power).toNat
    y.div (← ofNat (Nat.pow 10 k))

end Binary64

end FederatedAccess
