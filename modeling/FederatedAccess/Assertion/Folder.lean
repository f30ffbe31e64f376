import FederatedAccess.Failure
import FederatedAccess.Text.Blank

/-!
# Files with assertions

The platform keeps the assertion in a file below a folder and replaces it from time to time. A path
is followed name by name; what it leads to, if anything, is read as text without the blanks at its
end.
-/

namespace FederatedAccess

/-- What a name stands for. -/
inductive FolderEntry
  | file (content : List UInt8)
  | folder
deriving DecidableEq, Repr

/-- The entries below a folder, by the names that lead to them. -/
structure Folder where
  entries : List (List String × FolderEntry) := []
deriving DecidableEq, Repr

namespace Folder

/-- Why a path cannot be followed or read. -/
inductive Fault
  | absent
  | notFolder
  | isFolder
  | longName
  | badPath
  | badText
deriving DecidableEq, Repr

/-- The description of a fault. -/
def Fault.message : Fault → String
  | .absent => "no such file or folder"
  | .notFolder => "not a folder"
  | .isFolder => "is a folder"
  | .longName => "name too long"
  | .badPath => "path contains a null character"
  | .badText => "content is not text"

/-- The greatest size of a name. -/
def maxName : Nat := 255

/-- The size that no path reaches. -/
def maxPath : Nat := 4096

/-- The entry at a place. The place without names is the folder itself. -/
def lookUp (f : Folder) (place : List String) : Option FolderEntry :=
  if place.isEmpty then some .folder else f.entries.lookup place

/-- The names of a path. -/
def names (path : String) : List String :=
  (path.toList.splitOnP (· == '/')).map String.ofList

/-- Follows names from a place. -/
def follow (f : Folder) : List String → List String → Except Fault FolderEntry
  | place, [] =>
    match f.lookUp place with
    | some e => .ok e
    | none => .error .absent
  | place, name :: rest =>
    match f.lookUp place with
    | none => .error .absent
    | some (.file _) => .error .notFolder
    | some .folder =>
      if name = "" ∨ name = "." then follow f place rest
      else if name = ".." then
        if place.isEmpty then .error .absent else follow f place.dropLast rest
      else if maxName < Utf8.size name then .error .longName
      else follow f (place ++ [name]) rest

/-- The entry that a path leads to. Only the top itself lies on an absolute path. -/
def find (f : Folder) (path : String) : Except Fault FolderEntry :=
  if path.toList.contains '\x00' then .error .badPath
  else if maxPath ≤ Utf8.size path then .error .longName
  else
    match names path with
    | [""] => .error .absent
    | "" :: rest => if rest.all (· = "") then .ok .folder else follow ⟨[]⟩ [] rest
    | ns => f.follow [] ns

/-- The text of the file that a path leads to. -/
def readText (f : Folder) (path : String) : Except Fault (List Char) :=
  match f.find path with
  | .error fault => .error fault
  | .ok .folder => .error .isFolder
  | .ok (.file content) =>
    match Utf8.decode? content with
    | some cs => .ok cs
    | none => .error .badText

/-- Reads the assertion that a path leads to. -/
def readAssertion (f : Folder) (path : String) : Except ReadFailure String :=
  match f.readText path with
  | .error .absent => .error (.missing path)
  | .error fault => .error (.unreadable path fault.message)
  | .ok cs =>
    let text := Text.trimEnd cs
    if text.isEmpty then .error (.empty path) else .ok (String.ofList text)

/-- The place that a path names, whether it exists or not. -/
def place (path : String) : List String :=
  (names path).foldl (fun p n =>
    if n = "" ∨ n = "." then p else if n = ".." then p.dropLast else p ++ [n]) []

/-- Puts an entry at a place. -/
def put (f : Folder) (spot : List String) (e : FolderEntry) : Folder :=
  ⟨(spot, e) :: f.entries.filter (·.1 ≠ spot)⟩

/-- Makes folders of the places on the way, shortest first, where nothing is. -/
def makeFolders (f : Folder) (spot : List String) : Folder :=
  ((List.range spot.length).map fun i => spot.take (i + 1)).foldl
    (fun f p => if (f.lookUp p).isNone then f.put p .folder else f) f

/-- Makes a folder, with those above it. -/
def makeFolder (f : Folder) (path : String) : Folder :=
  f.makeFolders (place path)

/-- Writes a file. -/
def write (f : Folder) (path : String) (content : List UInt8) : Folder :=
  let spot := place path
  match (f.makeFolders spot.dropLast).lookUp spot with
  | some .folder => f
  | _ => (f.makeFolders spot.dropLast).put spot (.file content)

/-- Removes what a path leads to, with all that is below it. -/
def remove (f : Folder) (path : String) : Folder :=
  let spot := place path
  ⟨f.entries.filter fun e => !spot.isPrefixOf e.1⟩

end Folder

end FederatedAccess
