import FederatedAccess.Digest.Sha256
import FederatedAccess.Json.Reader
import FederatedAccess.Json.Writer
import FederatedAccess.Text.Base64
import FederatedAccess.Text.Blank

/-!
# Scope sets

A token is asked for a set of scopes. The set is held as a strictly ascending list of entries, so
neither order nor repetition of what was asked survives. Joined by spaces the entries form the text
that is sent, and the digest of that text is the key under which work for the set is shared.
-/

namespace FederatedAccess

namespace Scope

/-- Why texts form no scope set. -/
inductive Fault
  | empty
  | blank (scope : String)
deriving Repr, DecidableEq

/-- The message for a fault. -/
def Fault.message : Fault → String
  | .empty => "Scope entries cannot be empty."
  | .blank scope => "Scope contains whitespace: " ++ scope ++ "."

/-- What is wrong with a single scope. -/
def fault? (s : String) : Option Fault :=
  if s.toList.isEmpty then some .empty
  else if s.toList.any Text.isBlank then some (.blank s)
  else none

/-- Inserts an entry into an ascending list, unless it is there. -/
def insert (s : String) : List String → List String
  | [] => [s]
  | x :: rest =>
    if Utf8.before s x then s :: x :: rest
    else if Utf8.before x s then x :: insert s rest
    else x :: rest

theorem mem_insert {s y : String} {xs : List String} (h : y ∈ insert s xs) : y = s ∨ y ∈ xs := by
  induction xs with
  | nil => simpa [insert] using h
  | cons x rest ih =>
      simp only [insert] at h
      split at h
      · simpa using h
      · split at h
        · rcases List.mem_cons.mp h with rfl | h
          · simp
          · rcases ih h with rfl | h
            · simp
            · simp [h]
        · exact Or.inr h

theorem pairwise_insert {s : String} {xs : List String} (h : xs.Pairwise Utf8.before) :
    (insert s xs).Pairwise Utf8.before := by
  induction xs with
  | nil => simp [insert]
  | cons x rest ih =>
      have hx := List.pairwise_cons.mp h
      simp only [insert]
      split
      · rename_i hs
        refine List.pairwise_cons.mpr ⟨fun y hy => ?_, h⟩
        rcases List.mem_cons.mp hy with rfl | hy
        · exact hs
        · exact Utf8.before_trans hs (hx.1 y hy)
      · split
        · rename_i hs
          refine List.pairwise_cons.mpr ⟨fun y hy => ?_, ih hx.2⟩
          rcases mem_insert hy with rfl | hy
          · exact hs
          · exact hx.1 y hy
        · exact h

/-- The ascending list of the given entries. -/
def sort (xs : List String) : List String :=
  xs.foldr insert []

theorem mem_sort {y : String} {xs : List String} (h : y ∈ sort xs) : y ∈ xs := by
  induction xs with
  | nil => simp [sort] at h
  | cons x rest ih =>
      rcases mem_insert (show y ∈ insert x (sort rest) from h) with rfl | h
      · simp
      · exact List.mem_cons_of_mem _ (ih h)

theorem pairwise_sort (xs : List String) : (sort xs).Pairwise Utf8.before := by
  induction xs with
  | nil => simp [sort]
  | cons x rest ih => exact pairwise_insert ih

/-- Whether an ascending list holds a string. The string is compared with the entry in the middle, and
then sought in the half that is left. -/
def search (x : String) (xs : List String) : Bool :=
  let middle := xs.length / 2
  if h : middle < xs.length then
    match Utf8.order x xs[middle] with
    | .lt => search x (xs.take middle)
    | .eq => true
    | .gt => search x (xs.drop (middle + 1))
  else false
termination_by xs.length
decreasing_by
  all_goals
    simp only [List.length_take, List.length_drop]
    omega

end Scope

/-- A set of scopes. -/
structure ScopeSet where
  entries : List String
  valid : ∀ s ∈ entries, Scope.fault? s = none
  ascending : entries.Pairwise Utf8.before
deriving DecidableEq

/-- The fingerprint of a scope set. -/
structure ScopeKey where
  text : String
deriving DecidableEq, Repr

namespace ScopeSet

/-- The set without scopes. -/
def empty : ScopeSet := ⟨[], by simp, by simp⟩

/-- The set of the given scopes; the first faulty one in the list is reported. -/
def ofList (xs : List String) : Except Scope.Fault ScopeSet :=
  match h : xs.findSome? Scope.fault? with
  | some f => .error f
  | none =>
    .ok ⟨Scope.sort xs, fun _ hs => List.findSome?_eq_none_iff.mp h _ (Scope.mem_sort hs),
      Scope.pairwise_sort xs⟩

/-- The number of scopes. -/
def size (s : ScopeSet) : Nat := s.entries.length

/-- Whether there are no scopes. -/
def isEmpty (s : ScopeSet) : Bool := s.entries.isEmpty

/-- Whether the set holds a scope. -/
def contains (s : ScopeSet) (x : String) : Bool := Scope.search x s.entries

/-- The scopes joined by spaces. -/
def normalized (s : ScopeSet) : String := " ".intercalate s.entries

/-- The digest of the joined scopes, as text that is safe in URLs. -/
def key (s : ScopeSet) : ScopeKey :=
  ⟨String.ofList (Base64.encode Base64.urlSafe (Sha256.digest (Utf8.bytes s.normalized)))⟩

/-- What a set gives to a hasher: the bytes of its key and a byte that ends them. -/
def hashWith {σ : Type} (write : σ → List UInt8 → σ) (state : σ) (s : ScopeSet) : σ :=
  write (write state (Utf8.bytes s.key.text)) [0xFF]

/-- Reads scopes separated by blanks. The empty text is the empty set; blanks alone are not. -/
def parse (text : String) : Except Scope.Fault ScopeSet :=
  if text.toList.isEmpty then .ok empty
  else if text.toList.all Text.isBlank then .error .empty
  else ofList ((Text.words text.toList).map String.ofList)

/-- Reads a scope set from a JSON list of strings. -/
def reader : Json.Reader ScopeSet := fun ls =>
  match Json.readList (Json.readString "a string") ls with
  | .error f => .error f
  | .ok (xs, rest) =>
    match ofList xs with
    | .ok s => .ok (s, rest)
    | .error f => .error (.mismatch f.message)

/-- Reads a scope set from a JSON document. -/
def ofJson (document : String) : Except Json.Fault ScopeSet :=
  Json.readAll reader (Json.source document)

/-- Writes a scope set as a JSON list. -/
def toJson (s : ScopeSet) : String :=
  String.ofList (Json.writeList (s.entries.map Json.writeString))

/-- The text in diagnostics. -/
def render (s : ScopeSet) : String :=
  "ScopeSet(" ++ Text.Quoted.encodeList s.entries ++ ")"

end ScopeSet

/-- Writes a key as a JSON string. -/
def ScopeKey.toJson (k : ScopeKey) : String :=
  String.ofList (Json.writeString k.text)

/-- Keys are ordered by their bytes. -/
def ScopeKey.order (a b : ScopeKey) : Ordering := Utf8.order a.text b.text

end FederatedAccess
