import FederatedAccess.Json.Lexeme
import FederatedAccess.Text.Utf8

/-!
# Reading JSON values

Readers take lexemes from the front and stop at the first problem. A value of the wrong kind is
reported by its kind and by what was expected. Values that nobody asks for are passed over, either
strictly, so that their strings are text and their numbers are in range, or leniently.
-/

namespace FederatedAccess.Json

/-- A reader takes lexemes from the front. -/
abbrev Reader (α : Type) := List Lexeme → Except Fault (α × List Lexeme)

/-- The description of a number in a mismatch. -/
def Number.describe : Number → Except Fault String
  | .natural n => .ok ("integer `" ++ String.ofList (Decimal.ofNat n) ++ "`")
  | .negative n => .ok ("integer `-" ++ String.ofList (Decimal.ofNat n) ++ "`")
  | .real below x =>
    .ok ("floating point `" ++ (if below then "-" else "") ++
      String.ofList (Binary64.diagnostic.render x.shortest) ++ "`")
  | .excessive => .error .malformed

/-- The description of the value at the front, or the fault that reading it meets. -/
def describe : List Lexeme → Except Fault String
  | [] => .error .truncated
  | .null :: _ => .ok "null"
  | .boolean b :: _ => .ok (if b then "boolean `true`" else "boolean `false`")
  | .number n :: _ => n.describe
  | .text content :: _ => content.map fun s => "string " ++ Text.Quoted.encode s
  | .openBracket :: _ => .ok "sequence"
  | .openBrace :: _ => .ok "map"
  | .brokenText fault _ :: _ => .error fault
  | .broken fault :: _ => .error fault
  | _ => .error .malformed

/-- The fault of a value that is not what was expected. -/
def mismatch (expected : String) (ls : List Lexeme) : Fault :=
  match describe ls with
  | .ok found => .mismatch ("invalid type: " ++ found ++ ", expected " ++ expected)
  | .error fault => fault

/-- Reads a string. -/
def readString (expected : String) : Reader String
  | .text (.ok s) :: rest => .ok (s, rest)
  | ls => .error (mismatch expected ls)

/-- Reads an integer of 64 bits. -/
def readInt64 : Reader Int
  | .number (.natural n) :: rest =>
    if n < Nat.pow 2 63 then .ok (n, rest)
    else .error (.mismatch ("invalid value: integer `" ++ String.ofList (Decimal.ofNat n) ++
      "`, expected i64"))
  | .number (.negative n) :: rest => .ok (-(n : Int), rest)
  | ls => .error (mismatch "i64" ls)

/-- Reads null or a value. -/
def readOption {α : Type} (r : Reader α) : Reader (Option α)
  | .null :: rest => .ok (none, rest)
  | ls => (r ls).map fun p => (some p.1, p.2)

/-- What may come next inside containers. -/
inductive Awaited
  | value
  | firstElement
  | firstKey
  | key
  | colon
  | more

/-- The fault of a key that is none. -/
def keyFault : Lexeme → Fault
  | .text (.error fault) => fault
  | .brokenText fault _ => fault
  | _ => .malformed

/-- Whether a value at the front is acceptable when it is passed over. -/
def scalarFault? (strict : Bool) : Lexeme → Option Fault
  | .null => none
  | .boolean _ => none
  | .number .excessive => if strict then some .malformed else none
  | .number _ => none
  | .text (.error fault) => if strict then some fault else none
  | .text (.ok _) => none
  | .brokenText read skipped => some (if strict then read else skipped)
  | .broken fault => some fault
  | _ => some .malformed

/-- Passes over a value. Containers that are open are held innermost first, `true` for an object;
`room` bounds their number when the value is passed over strictly. -/
def pass (room : Option Nat) : List Bool → Awaited → List Lexeme → Except Fault (List Lexeme)
  | _, _, [] => .error .truncated
  | stack, .value, l :: rest =>
    let full := room.any (· ≤ stack.length)
    match l with
    | .openBracket => if full then .error .malformed else pass room (false :: stack) .firstElement rest
    | .openBrace => if full then .error .malformed else pass room (true :: stack) .firstKey rest
    | l =>
      match scalarFault? room.isSome l with
      | some fault => .error fault
      | none => if stack.isEmpty then .ok rest else pass room stack .more rest
  | stack, .firstElement, l :: rest =>
    let full := room.any (· ≤ stack.length)
    match l with
    | .closeBracket =>
      if stack.length ≤ 1 then .ok rest else pass room stack.tail .more rest
    | .openBracket => if full then .error .malformed else pass room (false :: stack) .firstElement rest
    | .openBrace => if full then .error .malformed else pass room (true :: stack) .firstKey rest
    | l =>
      match scalarFault? room.isSome l with
      | some fault => .error fault
      | none => pass room stack .more rest
  | stack, .firstKey, l :: rest =>
    match l with
    | .closeBrace => if stack.length ≤ 1 then .ok rest else pass room stack.tail .more rest
    | .text content =>
      match scalarFault? room.isSome (.text content) with
      | some fault => .error fault
      | none => pass room stack .colon rest
    | .brokenText read skipped => .error (if room.isSome then read else skipped)
    | _ => .error .malformed
  | stack, .key, l :: rest =>
    match l with
    | .text content =>
      match scalarFault? room.isSome (.text content) with
      | some fault => .error fault
      | none => pass room stack .colon rest
    | .brokenText read skipped => .error (if room.isSome then read else skipped)
    | _ => .error .malformed
  | stack, .colon, l :: rest =>
    match l with
    | .colon => pass room stack .value rest
    | _ => .error .malformed
  | stack, .more, l :: rest =>
    match stack, l with
    | true :: _, .comma => pass room stack .key rest
    | false :: _, .comma => pass room stack .value rest
    | true :: outer, .closeBrace => if outer.isEmpty then .ok rest else pass room outer .more rest
    | false :: outer, .closeBracket => if outer.isEmpty then .ok rest else pass room outer .more rest
    | _, _ => .error .malformed

/-- Passes over a value whatever its strings and numbers are. -/
def skip : Reader Unit := fun ls => (pass none [] .value ls).map ((), ·)

/-- Passes over a value whose strings are text, whose numbers are in range and which opens at most
`room` containers inside one another. -/
def check (room : Nat) : Reader Unit := fun ls => (pass (some room) [] .value ls).map ((), ·)

/-- Reads a colon. -/
def readColon : List Lexeme → Except Fault (List Lexeme)
  | .colon :: rest => .ok rest
  | [] => .error .truncated
  | _ => .error .malformed

/-- Reads a key and lets the handler choose the reader of the value. The handler may refuse the
key before the value is looked at. -/
def readMember {σ : Type} (handler : σ → String → Except Fault (Reader σ)) (s : σ) : Reader σ
  | .text (.ok k) :: rest => do
    let r ← handler s k
    r (← readColon rest)
  | [] => .error .truncated
  | l :: _ => .error (keyFault l)

/-- Reads the members of an object after the first, up to its end. -/
def readMembers {σ : Type} (handler : σ → String → Except Fault (Reader σ)) :
    Nat → σ → Reader σ
  | 0, _, _ => .error .truncated
  | _, s, .closeBrace :: rest => .ok (s, rest)
  | n + 1, s, .comma :: rest =>
    match readMember handler s rest with
    | .ok (t, rest) => readMembers handler n t rest
    | .error fault => .error fault
  | _, _, [] => .error .truncated
  | _, _, _ => .error .malformed

/-- Reads the members of an object after its opening brace. -/
def readObject {σ : Type} (handler : σ → String → Except Fault (Reader σ)) (s : σ) : Reader σ
  | .closeBrace :: rest => .ok (s, rest)
  | [] => .error .truncated
  | ls =>
    match readMember handler s ls with
    | .ok (t, rest) => readMembers handler ls.length t rest
    | .error fault => .error fault

/-- What a list holds next: an element, at the lexemes given, or its end. -/
def nextElement (first : Bool) : List Lexeme → Except Fault (Option (List Lexeme))
  | [] => .error .truncated
  | .closeBracket :: _ => .ok none
  | .comma :: rest =>
    if first then .ok (some (.comma :: rest))
    else
      match rest with
      | [] => .error .truncated
      | .closeBracket :: _ => .error .malformed
      | rest => .ok (some rest)
  | ls => if first then .ok (some ls) else .error .malformed

/-- Reads the end of a list. -/
def endList : List Lexeme → Except Fault (List Lexeme)
  | .closeBracket :: rest => .ok rest
  | [] => .error .truncated
  | _ => .error .malformed

/-- Reads the elements of a list, up to its end. -/
def readElements {α : Type} (r : Reader α) : Nat → Bool → Reader (List α)
  | 0, _, _ => .error .truncated
  | n + 1, first, ls => do
    match ← nextElement first ls with
    | none => return ([], ← endList ls)
    | some ls =>
      let (a, rest) ← r ls
      let (as, rest) ← readElements r n false rest
      return (a :: as, rest)

/-- Reads a list. -/
def readList {α : Type} (r : Reader α) : Reader (List α)
  | .openBracket :: rest => readElements r (rest.length + 1) true rest
  | ls => .error (mismatch "a sequence" ls)

/-- Reads a document that holds one value and nothing else. -/
def readAll {α : Type} (r : Reader α) (cs : Source) : Except Fault α := do
  let (a, rest) ← r (lex cs)
  if rest.isEmpty then return a else throw .malformed

/-- Reads the first value of a document, whatever follows it. -/
def readFirst {α : Type} (r : Reader α) (cs : Source) : Except Fault α :=
  (r (lex cs)).map (·.1)

/-- Text as the source of a document. -/
def source (s : String) : Source := s.toList.map some

end FederatedAccess.Json
