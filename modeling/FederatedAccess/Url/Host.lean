import FederatedAccess.Number.Decimal
import FederatedAccess.Url.Domain
import FederatedAccess.Url.Percent

/-!
# Hosts

A host is a name or an address of the Internet protocol in version 4 or 6. Addresses have several
written forms and one printed form.
-/

namespace FederatedAccess

/-- The host of a URL. A name may be empty where the scheme allows it. -/
inductive Host
  | name (text : List Char)
  | ipv4 (address : UInt32)
  | ipv6 (groups : List UInt16)
deriving DecidableEq, Repr

namespace Host

/-- The value of digits in a base, if all are digits of that base. -/
def valueIn? (base : Nat) (cs : List Char) : Option Nat :=
  if cs.all (fun c => (Text.hexDigit? c).any (· < base)) then
    some (cs.foldl (fun n c => n * base + (Text.hexDigit? c).getD 0) 0)
  else none

/-- A part of an address in version 4: decimal, octal after a zero, or hexadecimal after `0x`. -/
def readPart (cs : List Char) : Option Nat :=
  match cs with
  | [] => none
  | '0' :: 'x' :: ds => valueIn? 16 ds
  | '0' :: 'X' :: ds => valueIn? 16 ds
  | '0' :: ds => valueIn? 8 ds
  | ds => valueIn? 10 ds

/-- The parts between full stops, less an empty last one. -/
def parts (cs : List Char) : List (List Char) :=
  let ps := cs.splitOnP (· == '.')
  if ps.getLast? = some [] then ps.dropLast else ps

/-- Whether the last part is a number, so that the host can only be an address. -/
def endsInNumber (cs : List Char) : Bool :=
  match (parts cs).getLast? with
  | none => false
  | some last => (!last.isEmpty && last.all Decimal.isDigit) || (readPart last).isSome

/-- Adds up the parts before the last, each in its own byte. -/
def sumParts (last : Nat) : Nat → List Nat → Nat
  | _, [] => last
  | byte, n :: rest => n * Nat.pow 256 (3 - byte) + sumParts last (byte + 1) rest

/-- Reads an address in version 4; the last part fills the bytes that are left. -/
def readIpv4 (cs : List Char) : Option Host := do
  let ps := parts cs
  if 4 < ps.length then none
  else
    let ns ← ps.mapM readPart
    let last ← ns.getLast?
    let before := ns.dropLast
    if last < Nat.pow 256 (4 - before.length) ∧ before.all (· ≤ 255) then
      some (.ipv4 (sumParts last 0 before).toUInt32)
    else none

/-- A group of an address in version 6. -/
def readGroup (cs : List Char) : Option UInt16 :=
  if cs.isEmpty ∨ 4 < cs.length then none else (valueIn? 16 cs).map Nat.toUInt16

/-- A byte in decimal without leading zeros. -/
def readByte (cs : List Char) : Option Nat :=
  if cs.isEmpty ∨ (cs.head? = some '0' ∧ cs.length ≠ 1) then none
  else (valueIn? 10 cs).filter (· ≤ 255)

/-- The two groups of an address in version 4 that ends one in version 6. -/
def readQuad (cs : List Char) : Option (List UInt16) :=
  match (cs.splitOnP (· == '.')).mapM readByte with
  | some [a, b, c, d] => some [(a * 256 + b).toUInt16, (c * 256 + d).toUInt16]
  | _ => none

/-- Reads groups separated by colons; the last may be an address in version 4 where `quad` holds.
No text is no groups. -/
def readGroups (quad : Bool) (cs : List Char) : Option (List UInt16) :=
  if cs.isEmpty then some []
  else
    let texts := cs.splitOnP (· == ':')
    match texts.getLast? with
    | none => none
    | some last => do
      let front ← texts.dropLast.mapM readGroup
      let back ← if quad && last.contains '.' then readQuad last else (readGroup last).map ([·])
      return front ++ back

/-- Splits a text at its first double colon. -/
def splitDouble : List Char → Option (List Char × List Char)
  | ':' :: ':' :: rest => some ([], rest)
  | c :: rest => (splitDouble rest).map fun p => (c :: p.1, p.2)
  | [] => none

/-- Reads an address in version 6. A double colon stands for the groups that are missing. -/
def readIpv6 (cs : List Char) : Option Host :=
  match splitDouble cs with
  | none => do
    let groups ← readGroups true cs
    if groups.length = 8 then some (.ipv6 groups) else none
  | some (left, right) => do
    let front ← readGroups false left
    let back ← readGroups true right
    let count := front.length + back.length
    if count ≤ 7 then some (.ipv6 (front ++ List.replicate (8 - count) 0 ++ back)) else none

/-- Reads an address in version 6 between brackets, or else hands the text on. -/
def readBracketed (other : List Char → Option Host) : List Char → Option Host
  | '[' :: rest =>
    if rest.getLast? = some ']' then readIpv6 rest.dropLast else none
  | cs => other cs

/-- Reads a host under a scheme whose hosts are names of the domain system or addresses. -/
def readDomain (cs : List Char) : Option Host :=
  readBracketed (fun cs => do
    let name ← Domain.toAscii (← Utf8.decode? (Percent.decode cs))
    if name.isEmpty then none
    else if endsInNumber name then readIpv4 name
    else some (.name name)) cs

/-- Characters that end or break a host under any scheme. -/
def isForbidden (c : Char) : Bool :=
  c == '\x00' || "\t\n\r #/:<>?@[\\]^|".toList.contains c

/-- Characters outside ASCII and control characters are escaped. -/
def isPlain (c : Char) : Bool :=
  0x20 ≤ c.toNat && c.toNat < 0x7F

/-- Reads a host under a scheme that gives names no meaning. -/
def readPlain (cs : List Char) : Option Host :=
  readBracketed (fun cs =>
    if cs.any isForbidden then none else some (.name (Percent.encode isPlain cs))) cs

/-- The bytes of an address in version 4. -/
def bytes (address : UInt32) : List Nat :=
  let n := address.toNat
  [n / 16777216, n / 65536 % 256, n / 256 % 256, n % 256]

/-- The length of the run of zeros at the front. -/
def zeroRun (groups : List UInt16) : Nat :=
  (groups.takeWhile (· == 0)).length

/-- The start and the length of the first longest run of zeros. -/
def longestZeros : Nat → List UInt16 → Nat × Nat
  | start, [] => (start, 0)
  | start, g :: rest =>
    let here := zeroRun (g :: rest)
    let later := longestZeros (start + 1) rest
    if later.2 ≤ here then (start, here) else later

/-- Groups in hexadecimal with colons between them. -/
def renderGroups (groups : List UInt16) : List Char :=
  [':'].intercalate (groups.map fun g => Nat.toDigits 16 g.toNat)

/-- The printed form of an address in version 6. -/
def renderIpv6 (groups : List UInt16) : List Char :=
  let (start, count) := longestZeros 0 groups
  if count < 2 then renderGroups groups
  else renderGroups (groups.take start) ++ [':', ':'] ++ renderGroups (groups.drop (start + count))

/-- The printed form. -/
def render : Host → List Char
  | .name text => text
  | .ipv4 address => ['.'].intercalate ((bytes address).map Decimal.ofNat)
  | .ipv6 groups => '[' :: renderIpv6 groups ++ [']']

/-- Whether the host is this machine. -/
def isLoopback : Host → Bool
  | .name text => text.map Char.toLower == "localhost".toList
  | .ipv4 address => address.toNat / 16777216 == 127
  | .ipv6 groups => groups == [0, 0, 0, 0, 0, 0, 0, 1]

end Host

end FederatedAccess
