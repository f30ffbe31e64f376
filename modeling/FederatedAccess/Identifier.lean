import FederatedAccess.Json.Reader
import FederatedAccess.Json.Writer
import FederatedAccess.Text.Blank

/-!
# Identifiers

Client and tenant identifiers are texts that can stand in a request form and in a path segment. The
type holds only texts that pass the check, so no route to an identifier goes around it.
-/

namespace FederatedAccess

namespace Identifier

/-- What an identifier names. -/
inductive Kind
  | client
  | tenant
deriving Repr, DecidableEq

/-- The word for a kind in messages. -/
def Kind.label : Kind → String
  | .client => "Client"
  | .tenant => "Tenant"

/-- Why a text is no identifier. -/
inductive Fault
  | empty
  | blank
  | separator
  | tooLong
deriving Repr, DecidableEq

/-- The message for a fault. -/
def Fault.message (kind : Kind) : Fault → String
  | .empty => kind.label ++ " identifier cannot be empty."
  | .blank => kind.label ++ " identifier contains whitespace."
  | .separator => kind.label ++ " identifier contains a path separator."
  | .tooLong => kind.label ++ " identifier exceeds 256 bytes."

/-- Characters that would end a path segment. -/
def isSeparator (c : Char) : Bool :=
  c == '/' || c == '\\' || c == '?' || c == '#'

/-- The greatest length in bytes. -/
def maxSize : Nat := 256

/-- The first thing that is wrong with a text. -/
def fault? (s : String) : Option Fault :=
  if s.toList.isEmpty then some .empty
  else if s.toList.any Text.isBlank then some .blank
  else if s.toList.any isSeparator then some .separator
  else if maxSize < Utf8.size s then some .tooLong
  else none

end Identifier

/-- A checked identifier. -/
structure Identifier (kind : Identifier.Kind) where
  text : String
  valid : Identifier.fault? text = none
deriving DecidableEq

/-- The identifier of an application. -/
abbrev ClientId := Identifier .client

/-- The identifier of a directory. -/
abbrev TenantId := Identifier .tenant

namespace Identifier

variable {kind : Kind}

/-- The identifier with a text, or what is wrong with the text. -/
def make (kind : Kind) (s : String) : Except Fault (Identifier kind) :=
  match h : fault? s with
  | none => .ok ⟨s, h⟩
  | some f => .error f

/-- Reads an identifier from a text, which becomes its text as it stands. -/
def parse (kind : Kind) (text : String) : Except Fault (Identifier kind) := make kind text

/-- Turns a text that is handed over into an identifier. -/
def convert (kind : Kind) (text : String) : Except Fault (Identifier kind) :=
  match h : fault? text with
  | some f => .error f
  | none => .ok ⟨text, h⟩

/-- Reads an identifier from a JSON string. -/
def reader (kind : Kind) : Json.Reader (Identifier kind) := fun ls =>
  match Json.readString "a string" ls with
  | .error f => .error f
  | .ok (s, rest) =>
    match convert kind s with
    | .ok i => .ok (i, rest)
    | .error f => .error (.mismatch (f.message kind))

/-- Reads an identifier from a JSON document. -/
def ofJson (kind : Kind) (document : String) : Except Json.Fault (Identifier kind) :=
  Json.readAll (reader kind) (Json.source document)

/-- Writes an identifier as a JSON string. -/
def toJson (i : Identifier kind) : String :=
  String.ofList (Json.writeString i.text)

/-- The text in diagnostics. -/
def render (i : Identifier kind) : String :=
  kind.label ++ "(" ++ i.text ++ ")"

/-- Identifiers are ordered by the bytes of their texts. -/
def order (a b : Identifier kind) : Ordering := Utf8.order a.text b.text

theorem make_eq_ok_iff {s : String} {i : Identifier kind} : make kind s = .ok i ↔ i.text = s := by
  unfold make
  constructor
  · intro h
    split at h
    · cases h
      rfl
    · cases h
  · rintro rfl
    split
    · rfl
    · rename_i f hf
      rw [i.valid] at hf
      cases hf

theorem make_eq_error_iff {s : String} {f : Fault} :
    make kind s = .error f ↔ fault? s = some f := by
  unfold make
  split
  · rename_i h
    simp [h]
  · rename_i g h
    simp [h]

/-- It does not matter whether a text is given or handed over. -/
theorem convert_eq_make (kind : Kind) (text : String) : convert kind text = make kind text := by
  unfold convert
  split
  · exact (make_eq_error_iff.mpr ‹_›).symm
  · exact (make_eq_ok_iff.mpr rfl).symm

end Identifier

end FederatedAccess
