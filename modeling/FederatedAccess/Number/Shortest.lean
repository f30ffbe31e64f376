import FederatedAccess.Number.Binary64
import FederatedAccess.Number.Decimal

/-!
# Shortest decimal form

A binary value is written with the fewest digits that read back as it, and of those the nearest.
The candidates with a given count of digits are the two neighbours of the value on that decimal
grid, compared in exact arithmetic.
-/

namespace FederatedAccess.Binary64

/-- Decimal digits and the power of ten of the first one. -/
structure Scientific where
  digits : List Char
  power : Int
deriving Repr, DecidableEq

/-- The value and half the distance to each neighbour, as numerators over one denominator. -/
structure Span where
  value : Nat
  below : Nat
  above : Nat
  den : Nat

/-- The reals that round to the value lie within the span, its ends included when the mantissa is
even. -/
def span (x : Binary64) : Span :=
  let lower := if x.mantissa = Nat.pow 2 52 ∧ minExponent < x.exponent then 1 else 2
  let (unit, den) := scale 1 4 x.exponent
  ⟨4 * x.mantissa * unit, lower * unit, 2 * unit, den⟩

/-- Whether `n * 10 ^ p` reads back as the value. -/
def readsBack (x : Binary64) (n : Nat) (p : Int) : Bool :=
  let s := x.span
  let (up, down) := if 0 ≤ p then (Nat.pow 10 p.toNat, 1) else (1, Nat.pow 10 (-p).toNat)
  let point := n * up * s.den
  let low := (s.value - s.below) * down
  let high := (s.value + s.above) * down
  if x.mantissa % 2 = 0 then low ≤ point && point ≤ high else low < point && point < high

/-- The power of ten of the first digit of a positive fraction, searched from a bound. -/
def leadingPower (num den : Nat) : Nat → Int → Int
  | 0, p => p
  | steps + 1, p =>
    let (n, d) :=
      if 0 ≤ p then (num, den * Nat.pow 10 p.toNat) else (num * Nat.pow 10 (-p).toNat, den)
    if d ≤ n then p else leadingPower num den steps (p - 1)

/-- The candidates on the grid of `count` digits, the nearer one first. -/
def candidates (x : Binary64) (lead : Int) (count : Nat) : List (Nat × Int) :=
  let s := x.span
  let p := lead - (count - 1)
  let (n, d) :=
    if 0 ≤ p then (s.value, s.den * Nat.pow 10 p.toNat)
    else (s.value * Nat.pow 10 (-p).toNat, s.den)
  let q := n / d
  let r := n % d
  if 2 * r < d ∨ (2 * r = d ∧ q % 2 = 0) then [(q, p), (q + 1, p)] else [(q + 1, p), (q, p)]

/-- The first grid with a candidate that reads back decides. -/
def search (x : Binary64) (lead : Int) : List Nat → Option (Nat × Int)
  | [] => none
  | count :: rest =>
    match (candidates x lead count).find? fun c => readsBack x c.1 c.2 with
    | some c => some c
    | none => search x lead rest

/-- The shortest form of a value; zero has one digit. -/
def shortest (x : Binary64) : Scientific :=
  if x.mantissa = 0 then ⟨['0'], 0⟩
  else
    let s := x.span
    let lead := leadingPower s.value s.den 700 309
    match search x lead ((List.range 17).map (· + 1)) with
    | none => ⟨['0'], 0⟩
    | some (n, p) =>
      let ds := Decimal.ofNat n
      let kept := (ds.reverse.dropWhile (· == '0')).reverse
      ⟨kept, p + (ds.length - 1 : Nat)⟩

/-- How a decimal form is laid out: the powers written positionally and the least width of an
exponent. -/
structure Layout where
  lowest : Int
  highest : Int
  exponentWidth : Nat

/-- Positional from `10 ^ -5` to below `10 ^ 16`, with a point and at least one digit after it;
exponents have a sign and two digits. -/
def diagnostic : Layout := ⟨-5, 15, 2⟩

/-- The text of digits and a power under a layout. -/
def Layout.render (l : Layout) (s : Scientific) : List Char :=
  if l.lowest ≤ s.power ∧ s.power ≤ l.highest then
    if s.power < 0 then
      ['0', '.'] ++ List.replicate ((-s.power).toNat - 1) '0' ++ s.digits
    else
      let whole := s.power.toNat + 1
      let filled := s.digits ++ List.replicate (whole - s.digits.length) '0'
      let fraction := filled.drop whole
      filled.take whole ++ '.' :: (if fraction.isEmpty then ['0'] else fraction)
  else
    let fraction := s.digits.drop 1
    s.digits.take 1 ++ (if fraction.isEmpty then [] else '.' :: fraction) ++
      'e' :: (if s.power < 0 then '-' else '+') ::
        Decimal.padded l.exponentWidth s.power.natAbs

end FederatedAccess.Binary64
