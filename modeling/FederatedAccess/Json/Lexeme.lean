import FederatedAccess.Number.Shortest
import FederatedAccess.Text.Quoted

/-!
# JSON lexemes

A document is first cut into lexemes. What cannot be cut becomes a lexeme too, so that a reader
meets problems in the order of the text. A string that is passed over may hold escapes which do not
form text, and a number that is passed over may be too large, so both lexemes say what a reader of
their value would find.

Documents are read as a list whose elements are characters, or `none` for bytes that are none.
-/

namespace FederatedAccess.Json

/-- Why a document cannot be read as a value of the wanted type. -/
inductive Fault
  | malformed
  | truncated
  | mismatch (message : String)
deriving Repr, DecidableEq

/-- A fault without its message. -/
inductive Category
  | malformed
  | truncated
  | mismatch
deriving Repr, DecidableEq

/-- The category of a fault. -/
def Fault.category : Fault → Category
  | .malformed => .malformed
  | .truncated => .truncated
  | .mismatch _ => .mismatch

/-- A number as it is told apart by readers. -/
inductive Number
  | natural (n : Nat)
  | negative (n : Nat)
  | real (below : Bool) (magnitude : Binary64)
  | excessive
deriving Repr, DecidableEq

/-- The pieces of a document. -/
inductive Lexeme
  | openBracket
  | closeBracket
  | openBrace
  | closeBrace
  | comma
  | colon
  | null
  | boolean (b : Bool)
  | number (n : Number)
  | text (content : Except Fault String)
  | brokenText (read skipped : Fault)
  | broken (fault : Fault)

/-- Decoded text, with `none` for bytes that are no character. -/
abbrev Source := List (Option Char)

/-- Whether at least four bytes are left. -/
def fourBytesLeft (cs : Source) : Bool :=
  4 ≤ (cs.take 4).foldl (fun n c => n + (c.map Char.utf8Size).getD 1) 0

/-- The fault of an escape with too few digits. -/
def shortEscape (cs : Source) : Fault :=
  if fourBytesLeft cs then .malformed else .truncated

/-- The value of four hexadecimal digits. -/
def fourDigits? (a b c d : Option Char) : Option Nat := do
  let digit := fun (o : Option Char) => o.bind Text.hexDigit?
  return (((← digit a) * 16 + (← digit b)) * 16 + (← digit c)) * 16 + (← digit d)

/-- The character of an escape with one letter. -/
def simpleEscape? (c : Char) : Option Char :=
  match c with
  | '"' => some '"'
  | '\\' => some '\\'
  | '/' => some '/'
  | 'b' => some '\x08'
  | 'f' => some '\x0c'
  | 'n' => some '\n'
  | 'r' => some '\r'
  | 't' => some '\t'
  | _ => none

/-- The first unit of a pair. -/
def isHighSurrogate (n : Nat) : Bool := 0xD800 ≤ n && n ≤ 0xDBFF

/-- The second unit of a pair. -/
def isLowSurrogate (n : Nat) : Bool := 0xDC00 ≤ n && n ≤ 0xDFFF

/-- The character of a pair of units. -/
def pairChar (high low : Nat) : Char :=
  Char.ofNat (0x10000 + (high - 0xD800) * 0x400 + (low - 0xDC00))

/-- Adds a character in front of text that was read. -/
def prepend (c : Char) : Except Fault (List Char × Source) → Except Fault (List Char × Source)
  | .ok (cs, rest) => .ok (c :: cs, rest)
  | .error f => .error f

/-- Reads the text of a string after its opening quote. Bytes that are no character count as a
fault once the string has ended. -/
def readText : Source → Except Fault (List Char × Source)
  | [] => .error .truncated
  | none :: rest =>
    match readText rest with
    | .error f => .error f
    | .ok _ => .error .malformed
  | some c :: rest =>
    if c = '"' then .ok ([], rest)
    else if c = '\\' then
      match rest with
      | [] => .error .truncated
      | none :: _ => .error .malformed
      | some e :: r₁ =>
        if e = 'u' then
          match r₁ with
          | a₁ :: a₂ :: a₃ :: a₄ :: r₂ =>
            match fourDigits? a₁ a₂ a₃ a₄ with
            | none => .error .malformed
            | some high =>
              if isLowSurrogate high then .error .malformed
              else if isHighSurrogate high then
                match r₂ with
                | [] => .error .truncated
                | some '\\' :: r₃ =>
                  match r₃ with
                  | [] => .error .truncated
                  | some 'u' :: r₄ =>
                    match r₄ with
                    | b₁ :: b₂ :: b₃ :: b₄ :: r₅ =>
                      match fourDigits? b₁ b₂ b₃ b₄ with
                      | none => .error .malformed
                      | some low =>
                        if isLowSurrogate low then prepend (pairChar high low) (readText r₅)
                        else .error .malformed
                    | short => .error (shortEscape short)
                  | _ => .error .malformed
                | _ => .error .malformed
              else prepend (Char.ofNat high) (readText r₂)
          | short => .error (shortEscape short)
        else
          match simpleEscape? e with
          | some d => prepend d (readText r₁)
          | none => .error .malformed
    else if c.toNat < 0x20 then .error .malformed
    else prepend c (readText rest)

/-- Passes over a string after its opening quote. -/
def skipText : Source → Except Fault Source
  | [] => .error .truncated
  | none :: rest => skipText rest
  | some c :: rest =>
    if c = '"' then .ok rest
    else if c = '\\' then
      match rest with
      | [] => .error .truncated
      | none :: _ => .error .malformed
      | some e :: r₁ =>
        if e = 'u' then
          match r₁ with
          | a₁ :: a₂ :: a₃ :: a₄ :: r₂ =>
            match fourDigits? a₁ a₂ a₃ a₄ with
            | none => .error .malformed
            | some _ => skipText r₂
          | short => .error (shortEscape short)
        else
          match simpleEscape? e with
          | some _ => skipText r₁
          | none => .error .malformed
    else if c.toNat < 0x20 then .error .malformed
    else skipText rest

/-- Whether the element is a decimal digit. -/
def isDigit (c : Option Char) : Bool := c.any Decimal.isDigit

/-- The digits at the front and what follows them. -/
def spanDigits (cs : Source) : List Nat × Source :=
  ((cs.takeWhile isDigit).map fun c => ((c.bind Decimal.digit?).getD 0), cs.dropWhile isDigit)

/-- The largest significand that is kept exactly. -/
def maxSignificand : Nat := Nat.pow 2 64 - 1

/-- Appends digits to a significand until one does not fit, and counts those appended. -/
def gather : Nat → Nat → List Nat → Nat × Nat
  | significand, used, [] => (significand, used)
  | significand, used, d :: ds =>
    if significand * 10 + d ≤ maxSignificand then gather (significand * 10 + d) (used + 1) ds
    else (significand, used)

/-- The number with the given sign, whole digits, fraction digits and exponent. Digits of the
significand past the limit count as zeros. -/
def makeNumber (below : Bool) (whole : List Nat) (fraction : Option (List Nat))
    (exponent : Option Int) : Number :=
  let (sig₁, used₁) := gather 0 0 whole
  let dropped := whole.length - used₁
  let fits := !below || (0 < sig₁ && sig₁ ≤ Nat.pow 2 63)
  if dropped = 0 ∧ fraction.isNone ∧ exponent.isNone ∧ fits then
    if below then .negative sig₁ else .natural sig₁
  else
    let (sig₂, used₂) := gather sig₁ 0 (fraction.getD [])
    match Binary64.ofDecimal sig₂ (dropped - used₂ + exponent.getD 0) with
    | some x => .real below x
    | none => .excessive

/-- The fault when a digit is missing: there is nothing left, or something else. -/
def missingDigit : Source → Fault
  | [] => .truncated
  | _ => .malformed

/-- Reads the exponent if there is one. -/
def readExponent (cs : Source) : Except Fault (Option Int × Source) :=
  match cs with
  | some e :: rest =>
    if e = 'e' ∨ e = 'E' then
      let (below, rest) :=
        match rest with
        | some '+' :: r => (false, r)
        | some '-' :: r => (true, r)
        | r => (false, r)
      let (ds, tail) := spanDigits rest
      if ds.isEmpty then .error (missingDigit tail)
      else
        let n : Nat := ds.foldl (fun n d => n * 10 + d) 0
        .ok (some (if below then -(n : Int) else n), tail)
    else .ok (none, cs)
  | _ => .ok (none, cs)

/-- Reads the fraction if there is one. -/
def readFraction (cs : Source) : Except Fault (Option (List Nat) × Source) :=
  match cs with
  | some '.' :: rest =>
    let (ds, tail) := spanDigits rest
    if ds.isEmpty then .error (missingDigit tail) else .ok (some ds, tail)
  | _ => .ok (none, cs)

/-- Reads a number without its sign. A leading zero is the only whole digit. -/
def readMagnitude (below : Bool) (cs : Source) : Except Fault (Number × Source) := do
  let (whole, rest) := spanDigits cs
  if whole.isEmpty then throw (missingDigit rest)
  if whole.head? = some 0 ∧ whole.length ≠ 1 then throw .malformed
  let (fraction, rest) ← readFraction rest
  let (exponent, rest) ← readExponent rest
  return (makeNumber below whole fraction exponent, rest)

/-- Reads the rest of a literal word. -/
def readWord : List Char → Source → Except Fault Source
  | [], rest => .ok rest
  | _ :: _, [] => .error .truncated
  | c :: word, d :: rest => if d = some c then readWord word rest else .error .malformed

/-- The string lexeme after an opening quote, with what follows it. -/
def lexText (cs : Source) : Lexeme × Source :=
  match skipText cs with
  | .ok rest => (.text ((readText cs).map fun r => String.ofList r.1), rest)
  | .error skipped =>
    match readText cs with
    | .error read => (.brokenText read skipped, [])
    | .ok _ => (.brokenText skipped skipped, [])

/-- A lexeme whose reading may fail, with what follows it. -/
def lexemeOf {α : Type} (f : α → Lexeme) : Except Fault (α × Source) → Lexeme × Source
  | .ok (a, rest) => (f a, rest)
  | .error fault => (.broken fault, [])

/-- The lexeme that a character begins, with what follows it. -/
def lexOne (c : Char) (rest : Source) : Lexeme × Source :=
  match c with
  | '[' => (.openBracket, rest)
  | ']' => (.closeBracket, rest)
  | '{' => (.openBrace, rest)
  | '}' => (.closeBrace, rest)
  | ',' => (.comma, rest)
  | ':' => (.colon, rest)
  | '"' => lexText rest
  | 'n' => lexemeOf (fun _ => .null) ((readWord ['u', 'l', 'l'] rest).map ((), ·))
  | 't' => lexemeOf (fun _ => .boolean true) ((readWord ['r', 'u', 'e'] rest).map ((), ·))
  | 'f' => lexemeOf (fun _ => .boolean false) ((readWord ['a', 'l', 's', 'e'] rest).map ((), ·))
  | '-' => lexemeOf .number (readMagnitude true rest)
  | c =>
    if Decimal.isDigit c then lexemeOf .number (readMagnitude false (some c :: rest))
    else (.broken .malformed, [])

/-- The blanks between lexemes. -/
def isGap (c : Char) : Bool := c == ' ' || c == '\n' || c == '\t' || c == '\r'

/-- Cuts at most the given number of lexemes. -/
def lexFrom : Nat → Source → List Lexeme
  | 0, _ => []
  | _, [] => []
  | _, none :: _ => [.broken .malformed]
  | n + 1, some c :: rest =>
    if isGap c then lexFrom n rest
    else
      let (l, tail) := lexOne c rest
      l :: lexFrom n tail

/-- The lexemes of a document. -/
def lex (cs : Source) : List Lexeme := lexFrom cs.length cs

end FederatedAccess.Json
