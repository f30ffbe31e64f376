/-!
# Punycode

Text outside ASCII is written in ASCII letters and digits: first the ASCII characters, then, in
ascending order of code points, the place of every other character as a number of variable length.
The weights of its digits adapt to the numbers written before.
-/

namespace FederatedAccess.Punycode

/-- The character of a digit below 36. -/
def digitChar (d : Nat) : Char :=
  if d < 26 then Char.ofNat (d + 'a'.toNat) else Char.ofNat (d - 26 + '0'.toNat)

/-- The digit of a character. -/
def digit? (c : Char) : Option Nat :=
  if 'a' ≤ c ∧ c ≤ 'z' then some (c.toNat - 'a'.toNat)
  else if 'A' ≤ c ∧ c ≤ 'Z' then some (c.toNat - 'A'.toNat)
  else if '0' ≤ c ∧ c ≤ '9' then some (c.toNat - '0'.toNat + 26)
  else none

/-- The least digit that does not end a number, at the place with offset `k`. -/
def threshold (k bias : Nat) : Nat :=
  min 26 (max 1 (k - bias))

theorem threshold_pos (k bias : Nat) : 1 ≤ threshold k bias := by
  unfold threshold
  omega

theorem threshold_le (k bias : Nat) : threshold k bias ≤ 26 := by
  unfold threshold
  omega

/-- Divides a number until it is small, and counts the steps in units of 36. -/
def shrink (delta k : Nat) : Nat × Nat :=
  if 455 < delta then shrink (delta / 35) (k + 36) else (delta, k)
termination_by delta
decreasing_by exact Nat.div_lt_self (by omega) (by omega)

/-- The bias for the number after `delta`, the count of characters being `count`. -/
def adapt (delta count : Nat) (first : Bool) : Nat :=
  let halved := if first then delta / 700 else delta / 2
  let (small, k) := shrink (halved + halved / count) 0
  k + 36 * small / (small + 38)

/-- The digits of a number from the place with offset `k`. -/
def digits (bias k q : Nat) : List Char :=
  let t := threshold k bias
  if q < t then [digitChar q]
  else digitChar (t + (q - t) % (36 - t)) :: digits bias (k + 36) ((q - t) / (36 - t))
termination_by q
decreasing_by
  have h₁ := threshold_pos k bias
  exact Nat.lt_of_le_of_lt (Nat.div_le_self _ _) (by omega)

/-- What is kept while characters are placed. -/
structure Progress where
  next : Nat
  delta : Nat
  bias : Nat
  done : Nat
  output : List Char

/-- Looks at one character while those with code point `m` are placed. -/
def Progress.visit (basic m : Nat) (p : Progress) (c : Char) : Progress :=
  if c.toNat < m then { p with delta := p.delta + 1 }
  else if c.toNat = m then
    { p with
      delta := 0
      bias := adapt p.delta (p.done + 1) (p.done = basic)
      done := p.done + 1
      output := p.output ++ digits p.bias 36 p.delta }
  else p

/-- Places all characters with code point `m`. -/
def Progress.place (basic : Nat) (cs : List Char) (p : Progress) (m : Nat) : Progress :=
  let start := { p with delta := p.delta + (m - p.next) * (p.done + 1) }
  let placed := cs.foldl (visit basic m) start
  { placed with delta := placed.delta + 1, next := m + 1 }

/-- Whether a character belongs to ASCII. -/
def isBasic (c : Char) : Bool := c.toNat < 0x80

/-- Inserts a number into an ascending list, unless it is there. -/
def insert (n : Nat) : List Nat → List Nat
  | [] => [n]
  | m :: rest => if n < m then n :: m :: rest else if n = m then m :: rest else m :: insert n rest

/-- Writes text in ASCII. -/
def encode (cs : List Char) : List Char :=
  let basic := cs.filter isBasic
  let others := ((cs.filter (!isBasic ·)).map Char.toNat).foldr insert []
  let start := if basic.isEmpty then [] else basic ++ ['-']
  (others.foldl (Progress.place basic.length cs) ⟨0x80, 0, 72, basic.length, start⟩).output

/-- What is kept while places are read. -/
structure Reading where
  output : List Char
  next : Nat
  bias : Nat
  start : Nat
  place : Nat
  weight : Nat
  k : Nat

/-- Puts a character at the place that was read. -/
def Reading.put (r : Reading) : Option Reading :=
  let count := r.output.length + 1
  let n := r.next + r.place / count
  if n.isValidChar then
    let i := r.place % count
    some ⟨r.output.take i ++ Char.ofNat n :: r.output.drop i, n,
      adapt (r.place - r.start) count (r.start = 0), i + 1, i + 1, 1, 36⟩
  else none

/-- Reads digits up to the end. -/
def Reading.run : Reading → List Char → Option (List Char)
  | r, [] => if r.k = 36 then some r.output else none
  | r, c :: rest => do
    let d ← digit? c
    let t := threshold r.k r.bias
    let r := { r with place := r.place + d * r.weight }
    if d < t then (← r.put).run rest
    else run { r with weight := r.weight * (36 - t), k := r.k + 36 } rest

/-- Reads text written in ASCII. -/
def decode (cs : List Char) : Option (List Char) :=
  let tail := (cs.reverse.takeWhile (· != '-')).reverse
  let basic := (cs.take (cs.length - tail.length)).dropLast
  if cs.all isBasic then Reading.run ⟨basic, 0x80, 72, 0, 0, 1, 36⟩ tail else none

end FederatedAccess.Punycode
