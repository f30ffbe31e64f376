import FederatedAccess.Url.Host

/-!
# URLs

A URL is cut at its delimiters into scheme, authority, path, query and fragment, and each part is
then read on its own. Under the schemes of the web the authority is never missing, backslashes
count as slashes, and the usual number of a scheme's socket is left out. Parts are held in their
written form, so printing a URL only joins them.
-/

namespace FederatedAccess

/-- Who is asked: an optional user, a host, and a socket number where it is not the usual one. -/
structure Authority where
  username : List Char
  password : Option (List Char)
  host : Host
  socket : Option Nat
deriving DecidableEq, Repr

/-- A path is a list of segments, or text without structure. -/
inductive UrlPath
  | segments (ss : List (List Char))
  | opaqueText (cs : List Char)
deriving DecidableEq, Repr

/-- A URL in parts. -/
structure Url where
  scheme : List Char
  authority : Option Authority
  path : UrlPath
  query : Option (List Char)
  fragment : Option (List Char)
deriving DecidableEq, Repr

namespace Url

/-! ### Character classes -/

/-- Characters that stand for themselves in a fragment. -/
def isFragmentPlain (c : Char) : Bool :=
  0x20 < c.toNat && c.toNat < 0x7F && !"\"<>`".toList.contains c

/-- Characters that stand for themselves in a path. -/
def isPathPlain (c : Char) : Bool :=
  isFragmentPlain c && !"#?\x7b\x7d".toList.contains c

/-- Characters that stand for themselves in a user name or password. -/
def isUserPlain (c : Char) : Bool :=
  isPathPlain c && !"/:;=@[\\]^|".toList.contains c

/-- Characters that stand for themselves in a query. -/
def isQueryPlain (special : Bool) (c : Char) : Bool :=
  0x20 < c.toNat && c.toNat < 0x7F && !"\"#<>".toList.contains c && !(special && c == '\'')

/-- Characters dropped at both ends of a text. -/
def isEdge (c : Char) : Bool := c.toNat ≤ 0x20

/-- Characters dropped everywhere. -/
def isBreak (c : Char) : Bool := c == '\t' || c == '\n' || c == '\r'

/-- Characters of a scheme after its first letter. -/
def isSchemeChar (c : Char) : Bool :=
  c.isAlphanum || c == '+' || c == '-' || c == '.'

/-- Whether a character ends a path segment. -/
def isSlash (special : Bool) (c : Char) : Bool :=
  c == '/' || (special && c == '\\')

/-- Whether a character ends the part before the query. -/
def isPathEnd (c : Char) : Bool := c == '?' || c == '#'

/-! ### Schemes -/

/-- The scheme of local files. -/
def fileScheme : List Char := "file".toList

/-- The schemes of the web with their usual socket numbers. -/
def specialSchemes : List (List Char × Option Nat) :=
  [("http".toList, some 80), ("https".toList, some 443), ("ws".toList, some 80),
    ("wss".toList, some 443), ("ftp".toList, some 21), (fileScheme, none)]

/-- Whether a scheme is one of the web. -/
def isSpecial (scheme : List Char) : Bool := (specialSchemes.lookup scheme).isSome

/-- The usual socket number of a scheme. -/
def usualSocket (scheme : List Char) : Option Nat := (specialSchemes.lookup scheme).join

/-! ### Paths -/

/-- Whether a segment stands for the present level. -/
def isHere (s : List Char) : Bool :=
  let t := s.map Char.toLower
  t == ".".toList || t == "%2e".toList

/-- Whether a segment stands for the level above. -/
def isUp (s : List Char) : Bool :=
  let t := s.map Char.toLower
  t == "..".toList || t == ".%2e".toList || t == "%2e.".toList || t == "%2e%2e".toList

/-- Whether a segment names a drive. -/
def isDrive : List Char → Bool
  | [c, d] => c.isAlpha && (d == ':' || d == '|')
  | _ => false

/-- Leaves the last level. A drive is never left. -/
def leave (file : Bool) (above : List (List Char)) : List (List Char) :=
  match above with
  | [s] => if file && isDrive s then above else []
  | _ => above.dropLast

/-- The written form of the segment after those above. -/
def writeSegment (file : Bool) (above : List (List Char)) (s : List Char) : List Char :=
  match file && above.isEmpty && isDrive s, s with
  | true, [c, _] => [c, ':']
  | _, s => s

/-- Goes through segments from the left, following those that stand for levels. -/
def descend (file : Bool) (above : List (List Char)) : List (List Char) → List (List Char)
  | [] => above
  | [s] =>
    if isUp s then leave file above ++ [[]]
    else if isHere s then above ++ [[]]
    else above ++ [writeSegment file above s]
  | s :: rest =>
    if isUp s then descend file (leave file above) rest
    else if isHere s then descend file above rest
    else descend file (above ++ [writeSegment file above s]) rest

/-- Under the file scheme, empty segments at the front are dropped. -/
def dropEmpty (ss : List (List Char)) : List (List Char) :=
  match ss.dropWhile List.isEmpty with
  | [] => [[]]
  | kept => kept

/-- Reads the segments of a path whose first slash has been dropped. -/
def readSegments (scheme cs : List Char) : List (List Char) :=
  let file := scheme == fileScheme
  let ss := descend file [] ((cs.splitOnP (isSlash (isSpecial scheme))).map
    (Percent.encode isPathPlain))
  if file then dropEmpty ss else ss

/-- Reads the path after an authority. -/
def readPath (scheme cs : List Char) : List (List Char) :=
  match cs with
  | [] => if isSpecial scheme then readSegments scheme [] else []
  | c :: rest => if isSlash (isSpecial scheme) c then readSegments scheme rest else
      readSegments scheme cs

/-! ### Authorities -/

/-- Splits a text at its last at sign. -/
def splitUser (cs : List Char) : Option (List Char × List Char) :=
  match cs.splitOnP (· == '@') with
  | [] => none
  | [_] => none
  | pieces => pieces.getLast?.map fun last => (['@'].intercalate pieces.dropLast, last)

/-- Cuts off the host, which ends at a colon outside brackets. -/
def cutHost : Bool → List Char → List Char × List Char
  | _, [] => ([], [])
  | inside, c :: rest =>
    if c = ':' ∧ inside = false then ([], c :: rest)
    else
      let (host, tail) := cutHost (if c = '[' then true else if c = ']' then false else inside) rest
      (c :: host, tail)

/-- Reads a socket number; the usual number of the scheme and no digits at all yield none. -/
def readSocket (scheme : List Char) : List Char → Option (Option Nat)
  | [] => some none
  | _ :: ds =>
    if ds.isEmpty then some none
    else if ds.all Decimal.isDigit then
      let n := Decimal.value ds
      if n < 65536 then some (if usualSocket scheme = some n then none else some n) else none
    else none

/-- The user name and the password before an at sign. -/
def readUser (cs : List Char) : List Char × Option (List Char) :=
  let name := cs.takeWhile (· != ':')
  let secret := (cs.drop name.length).drop 1
  (Percent.encode isUserPlain name,
    if secret.isEmpty then none else some (Percent.encode isUserPlain secret))

/-- Reads an authority; `more` says whether something follows it. An empty host stands alone, and
only under schemes that allow it. -/
def readAuthority (scheme : List Char) (more : Bool) (cs : List Char) : Option Authority := do
  let (user, place) := (splitUser cs).getD ([], cs)
  let marked := (splitUser cs).isSome
  let (username, password) := readUser user
  let (hostText, socketText) := cutHost false place
  if hostText.isEmpty then
    if isSpecial scheme || !username.isEmpty || password.isSome || !socketText.isEmpty ||
      (marked && user.isEmpty && more) then none
    else some ⟨[], none, .name [], none⟩
  else
    let host ← if isSpecial scheme then Host.readDomain hostText else Host.readPlain hostText
    let socket ← readSocket scheme socketText
    return ⟨username, password, host, socket⟩

/-- Reads the host of a file. This machine is left out. -/
def readFileHost (cs : List Char) : Option Authority := do
  if cs.isEmpty then return ⟨[], none, .name [], none⟩
  else
    let host ← Host.readDomain cs
    return ⟨[], none, if host = .name "localhost".toList then .name [] else host, none⟩

/-! ### Reading -/

/-- The text without the characters that are dropped. -/
def clean (cs : List Char) : List Char :=
  (((cs.dropWhile isEdge).reverse.dropWhile isEdge).reverse).filter (!isBreak ·)

/-- Cuts off the scheme, in lower case. -/
def cutScheme (cs : List Char) : Option (List Char × List Char) :=
  let scheme := cs.takeWhile isSchemeChar
  match scheme, cs.drop scheme.length with
  | c :: _, ':' :: rest => if c.isAlpha then some (scheme.map Char.toLower, rest) else none
  | _, _ => none

/-- Reads the query and the fragment. -/
def readTail (special : Bool) (cs : List Char) : Option (List Char) × Option (List Char) :=
  let front := cs.takeWhile (· != '#')
  let query := match front with
    | '?' :: q => some (Percent.encode (isQueryPlain special) q)
    | _ => none
  let fragment := match cs.drop front.length with
    | _ :: f => some (Percent.encode isFragmentPlain f)
    | [] => none
  (query, fragment)

/-- Whether a text starts with two slashes. -/
def startsTwice (isSlash : Char → Bool) (cs : List Char) : Bool :=
  match cs with
  | c :: d :: _ => isSlash c && isSlash d
  | _ => false

/-- Reads authority and path under a scheme of the web, any number of slashes before them. -/
def readWeb (scheme cs : List Char) : Option (Option Authority × UrlPath) := do
  let cs := cs.dropWhile (isSlash true)
  let place := cs.takeWhile (!isSlash true ·)
  let rest := cs.drop place.length
  let authority ← readAuthority scheme (!rest.isEmpty) place
  return (some authority, .segments (readPath scheme rest))

/-- Reads host and path of a file. Without two slashes there is no host, and a drive is none. -/
def readFile (cs : List Char) : Option (Option Authority × UrlPath) := do
  let thisMachine : Authority := ⟨[], none, .name [], none⟩
  if startsTwice (isSlash true) cs then
    let cs := cs.drop 2
    let place := cs.takeWhile (!isSlash true ·)
    if isDrive place then return (some thisMachine, .segments (readSegments fileScheme cs))
    else
      let path := readPath fileScheme (cs.drop place.length)
      let host ← readFileHost place
      return (some (if path.head?.any isDrive then thisMachine else host), .segments path)
  else return (some thisMachine, .segments (readPath fileScheme cs))

/-- Reads authority and path under any other scheme. -/
def readOther (scheme : List Char) (more : Bool) (cs : List Char) :
    Option (Option Authority × UrlPath) := do
  if startsTwice (isSlash false) cs then
    let cs := cs.drop 2
    let place := cs.takeWhile (!isSlash false ·)
    let rest := cs.drop place.length
    let authority ← readAuthority scheme (more || !rest.isEmpty) place
    return (some authority, .segments (readPath scheme rest))
  else
    match cs with
    | '/' :: rest => return (none, .segments (readSegments scheme rest))
    | _ => return (none, .opaqueText (Percent.encode Host.isPlain cs))

/-- Reads a URL. -/
def read (cs : List Char) : Option Url := do
  let (scheme, rest) ← cutScheme (clean cs)
  let front := rest.takeWhile (!isPathEnd ·)
  let tail := rest.drop front.length
  let (authority, path) ←
    if scheme = fileScheme then readFile front
    else if isSpecial scheme then readWeb scheme front
    else readOther scheme (!tail.isEmpty) front
  let (query, fragment) := readTail (isSpecial scheme) tail
  return ⟨scheme, authority, path, query, fragment⟩

/-- Reads a URL from a string. -/
def parse (s : String) : Option Url := read s.toList

/-! ### Writing -/

/-- The user before a host, with the at sign. -/
def writeUser (a : Authority) : List Char :=
  match a.password with
  | none => if a.username.isEmpty then [] else a.username ++ ['@']
  | some secret => a.username ++ ':' :: secret ++ ['@']

/-- The socket number after a host, with the colon. -/
def writeSocket : Option Nat → List Char
  | none => []
  | some n => ':' :: Decimal.ofNat n

/-- The authority with its slashes. -/
def writeAuthority (a : Authority) : List Char :=
  '/' :: '/' :: writeUser a ++ a.host.render ++ writeSocket a.socket

/-- Segments, each after a slash. -/
def writeSegments (ss : List (List Char)) : List Char :=
  ss.flatMap ('/' :: ·)

/-- The part between scheme and query. Without an authority, a path must not look like one. -/
def writePlace : Option Authority → UrlPath → List Char
  | some a, .segments ss => writeAuthority a ++ writeSegments ss
  | some a, .opaqueText cs => writeAuthority a ++ cs
  | none, .segments ([] :: s :: rest) => '/' :: '.' :: writeSegments ([] :: s :: rest)
  | none, .segments ss => writeSegments ss
  | none, .opaqueText cs => cs

/-- A part that may be missing, after its delimiter. -/
def writePart (delimiter : Char) : Option (List Char) → List Char
  | none => []
  | some cs => delimiter :: cs

/-- The printed form. -/
def write (u : Url) : List Char :=
  u.scheme ++ ':' :: writePlace u.authority u.path ++ writePart '?' u.query ++
    writePart '#' u.fragment

/-- The printed form as a string. -/
def render (u : Url) : String := String.ofList u.write

/-! ### Parts and relatives -/

/-- The host, unless it is missing or empty. -/
def host? (u : Url) : Option Host :=
  (u.authority.map Authority.host).filter (· != .name [])

/-- The URL whose path has other segments in place of the last. Text without structure has no
segments to replace. -/
def sibling? (u : Url) (ss : List (List Char)) : Option Url :=
  match u.path with
  | .segments own =>
    some { u with path := .segments (own.dropLast ++ ss), query := none, fragment := none }
  | .opaqueText _ => none

end Url

end FederatedAccess
