import FederatedAccess.Json.Reader

/-!
# Reading records

A record has named members in a fixed order. It is written as an object, whose members come in any
order, or as a list of the values in the order of the members, where members that may be missing
can be left out at the end.
-/

namespace FederatedAccess.Json

/-- A member of a record under construction. -/
structure Member (σ : Type) where
  name : String
  optional : Bool
  read : σ → Reader σ

/-- What is done with members that are none of the record's. -/
inductive Others (σ : Type)
  | refused
  | skipped
  | read (f : String → σ → Reader σ)

/-- A record: how it is called in messages, its members, and what is done with others. -/
structure Record (σ : Type) where
  title : String
  members : List (Member σ)
  others : Others σ

namespace Record

variable {σ : Type}

/-- A name as messages quote it. -/
def quote (name : String) : String := "`" ++ name ++ "`"

/-- The fault of a member that is none of the record's. -/
def unknown (r : Record σ) (name : String) : Fault :=
  .mismatch ("unknown field " ++ quote name ++ ", expected one of " ++
    ", ".intercalate (r.members.map (quote ·.name)))

/-- The fault of a member that occurs again. -/
def duplicate (name : String) : Fault := .mismatch ("duplicate field " ++ quote name)

/-- The fault of a member that is missing. -/
def missing (name : String) : Fault := .mismatch ("missing field " ++ quote name)

/-- Chooses how the value after a key is read; the state lists the members that were read. -/
def handler (r : Record σ) (s : List String × σ) (name : String) :
    Except Fault (Reader (List String × σ)) :=
  match r.members.find? (·.name == name) with
  | none =>
    match r.others with
    | .refused => .error (r.unknown name)
    | .skipped => .ok fun ls => (skip ls).map fun p => (s, p.2)
    | .read f => .ok fun ls => (f name s.2 ls).map fun p => ((s.1, p.1), p.2)
  | some m =>
    if s.1.contains name then .error (duplicate name)
    else .ok fun ls => (m.read s.2 ls).map fun p => ((name :: s.1, p.1), p.2)

/-- The fault of the first member that was not read and may not be missing. -/
def lack? (r : Record σ) (seen : List String) : Option Fault :=
  (r.members.find? fun m => !m.optional && !seen.contains m.name).map (missing ·.name)

/-- The description of a list that is too short. -/
def listTitle (r : Record σ) : String :=
  let count := r.members.length
  r.title ++ " with " ++ String.ofList (Decimal.ofNat count) ++
    (if count = 1 then " element" else " elements")

/-- Reads the values of a list, each for its member. -/
def readValues (title : String) : Nat → List (Member σ) → σ → Reader σ
  | _, [], s, ls => .ok (s, ls)
  | i, m :: rest, s, ls => do
    match ← nextElement (i = 0) ls with
    | some ls =>
      let (s, ls) ← m.read s ls
      readValues title (i + 1) rest s ls
    | none =>
      if m.optional then readValues title (i + 1) rest s ls
      else
        throw (.mismatch ("invalid length " ++ String.ofList (Decimal.ofNat i) ++ ", expected " ++
          title))

/-- Reads a record that is written as an object, starting from the given state. -/
def readObject (r : Record σ) (s : σ) : Reader σ
  | .openBrace :: rest => do
    let ((seen, s), rest) ← Json.readObject r.handler ([], s) rest
    match r.lack? seen with
    | some fault => throw fault
    | none => return (s, rest)
  | ls => .error (mismatch r.title ls)

/-- Reads a record in either form, starting from the given state. -/
def read (r : Record σ) (s : σ) : Reader σ
  | .openBracket :: rest => do
    let (s, rest) ← readValues r.listTitle 0 r.members s rest
    return (s, ← endList rest)
  | ls => r.readObject s ls

end Record

end FederatedAccess.Json
