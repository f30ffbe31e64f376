import FederatedAccess.Number.Decimal
import FederatedAccess.Url

/-!
# Request targets

A request names its target by the printed form of a URL without the fragment. The form is checked
once more before anything is sent: it is bounded in length, and what stands between scheme and path
must be a host with an optional user and socket number.
-/

namespace FederatedAccess.Target

/-- Why a text is no target. -/
inductive Fault
  | tooLong
  | badChar
  | badAuthority
  | badForm
  | schemeTooLong
deriving Repr, DecidableEq

/-- The message for a fault. -/
def Fault.message : Fault → String
  | .tooLong => "uri too long"
  | .badChar => "invalid uri character"
  | .badAuthority => "invalid authority"
  | .badForm => "invalid format"
  | .schemeTooLong => "scheme too long"

/-- The greatest length of a target. -/
def maxSize : Nat := 65534

/-- The greatest length of a scheme. -/
def maxSchemeSize : Nat := 64

/-- Cuts off a scheme that two slashes follow. -/
def cutScheme (cs : List Char) : Option (List Char × List Char) :=
  let scheme := cs.takeWhile Url.isSchemeChar
  match cs.drop scheme.length with
  | ':' :: '/' :: '/' :: rest => some (scheme, rest)
  | _ => none

/-- Characters that may stand before the path. -/
def isAuthorityChar (c : Char) : Bool :=
  c.isAlphanum || "!$&'()*+,-.:;=?@[]_~%".toList.contains c

/-- Whether a character ends the part before the path. -/
def isAuthorityEnd (c : Char) : Bool := c == '/' || c == '?' || c == '#'

/-- Whether brackets enclose one address, and colons elsewhere separate at most one number. -/
def isPlace (cs : List Char) : Bool :=
  let inner := cs.dropWhile (· != '[')
  let outside := if inner.isEmpty then cs else (inner.dropWhile (· != ']')).drop 1
  cs.count '[' ≤ 1 && cs.count '[' == cs.count ']' &&
    (inner.isEmpty || inner.contains ']') && outside.count ':' ≤ 1 && !outside.contains '%' &&
    cs.count ':' ≤ 8

/-- Checks what stands before the path. -/
def checkAuthority (cs : List Char) : Except Fault Unit :=
  let pieces := cs.splitOnP (· == '@')
  let place := pieces.getLast?.getD []
  if cs.any (!isAuthorityChar ·) then .error .badChar
  else if !isPlace place ∨ (1 < pieces.length ∧ place.isEmpty) then .error .badAuthority
  else .ok ()

/-- Characters that a path may hold. -/
def isPathChar (c : Char) : Bool :=
  0x20 < c.toNat && c.toNat < 0x7F && !"#<>?`".toList.contains c

/-- The target of a request to a URL. -/
def ofUrl (u : Url) : Except Fault (List Char) :=
  let cs := u.write
  if maxSize < cs.length then .error .tooLong
  else
    match cutScheme cs with
    | none =>
      match checkAuthority (cs.takeWhile (!isAuthorityEnd ·)) with
      | .error f => .error f
      | .ok () => if cs.any isAuthorityEnd then .error .badForm else .ok cs
    | some (scheme, rest) =>
      let authority := rest.takeWhile (!isAuthorityEnd ·)
      let path := (rest.drop authority.length).takeWhile (!Url.isPathEnd ·)
      if maxSchemeSize < scheme.length then .error .schemeTooLong
      else
        match checkAuthority authority with
        | .error f => .error f
        | .ok () =>
          if authority.isEmpty then .error .badForm
          else if path.any (!isPathChar ·) then .error .badChar
          else
            .ok (scheme ++ ':' :: '/' :: '/' :: authority ++ (if path.isEmpty then ['/'] else path) ++
              Url.writePart '?' u.query)

end FederatedAccess.Target
