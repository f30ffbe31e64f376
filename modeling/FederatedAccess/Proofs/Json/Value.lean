import FederatedAccess.Proofs.Documents
import FederatedAccess.Proofs.Json.Numeral
import FederatedAccess.Proofs.Json.ReadBack

/-!
# Values and their lexemes

A value is cut into its lexemes, whatever ends it. Passing over it meets the first defect inside it,
or takes its lexemes and nothing else. Readers that take each value as a whole read an object member
by member, so that what an object is read as does not depend on what follows it.
-/

namespace FederatedAccess.Json

/-- A value as documents hold it. A string whose escapes form no text has no content. -/
inductive Value
  | null
  | boolean (b : Bool)
  | number (n : Numeral)
  | text (content : Option String)
  | list (vs : List Value)
  | object (ms : List (Option String × Value))

/-- The lexeme of a string. -/
def textOf (content : Option String) : Lexeme := .text (content.elim (.error .malformed) .ok)

mutual

/-- The lexemes of a value. -/
def Value.lexemes : Value → List Lexeme
  | .null => [.null]
  | .boolean b => [.boolean b]
  | .number n => [.number n.number]
  | .text content => [textOf content]
  | .list vs => listOf (elementLexemes vs)
  | .object ms => .openBrace :: (joined (memberLexemes ms) ++ [.closeBrace])
termination_by structural v => v

/-- The lexemes of each element of a list. -/
def elementLexemes : List Value → List (List Lexeme)
  | [] => []
  | v :: vs => v.lexemes :: elementLexemes vs
termination_by structural vs => vs

/-- The lexemes of each member of an object. -/
def memberLexemes : List (Option String × Value) → List (List Lexeme)
  | [] => []
  | (name, v) :: ms => (textOf name :: .colon :: v.lexemes) :: memberLexemes ms
termination_by structural ms => ms

end

/-- The text of a string; a lone half of a pair forms no text. -/
def writeText : Option String → List Char
  | some s => writeString s
  | none => ['"', '\\', 'u', 'd', '8', '0', '0', '"']

mutual

/-- The text of a value. -/
def Value.write : Value → List Char
  | .null => ['n', 'u', 'l', 'l']
  | .boolean true => ['t', 'r', 'u', 'e']
  | .boolean false => ['f', 'a', 'l', 's', 'e']
  | .number n => n.write
  | .text content => writeText content
  | .list vs => writeList (elementTexts vs)
  | .object ms => '\x7b' :: (writeSeparated (memberTexts ms) ++ ['\x7d'])
termination_by structural v => v

/-- The text of each element of a list. -/
def elementTexts : List Value → List (List Char)
  | [] => []
  | v :: vs => v.write :: elementTexts vs
termination_by structural vs => vs

/-- The text of each member of an object. -/
def memberTexts : List (Option String × Value) → List (List Char)
  | [] => []
  | (name, v) :: ms => (writeText name ++ ':' :: v.write) :: memberTexts ms
termination_by structural ms => ms

end

/-! ### Cutting -/

/-- A string with a lone half of a pair is passed over, but its text cannot be read. -/
theorem lexText_lone (rest : Source) :
    lexText (some '\\' :: some 'u' :: some 'd' :: some '8' :: some '0' :: some '0' ::
      some '"' :: rest) = (textOf none, rest) := by
  have hdigits : fourDigits? (some 'd') (some '8') (some '0') (some '0') = some 0xD800 := by decide
  generalize hcs : some '\\' :: some 'u' :: some 'd' :: some '8' :: some '0' :: some '0' ::
    some '"' :: rest = cs
  have hskip : skipText cs = .ok rest := by
    rw [← hcs, skipText.eq_def]
    simp [hdigits, skipText_quote]
  have hread : readText cs = .error .malformed := by
    rw [← hcs, readText.eq_def]
    simp [hdigits, isLowSurrogate, isHighSurrogate]
  rw [lexText, hskip, hread]
  rfl

theorem cut_writeText (content : Option String) : Cut (writeText content) [textOf content] := by
  cases content with
  | some s => exact cut_writeString s
  | none => exact Cut.one rfl fun rest _ => lexText_lone rest

mutual

/-- A value is cut into its lexemes. -/
theorem Value.cut_write (v : Value) : Cut v.write v.lexemes := by
  cases v with
  | null => exact Cut.one rfl fun _ _ => rfl
  | boolean b =>
      cases b with
      | true => exact Cut.one rfl fun _ _ => rfl
      | false => exact Cut.one rfl fun _ _ => rfl
  | number n => exact n.cut_write
  | text content => exact cut_writeText content
  | list vs => exact cut_writeList (cut_elementTexts vs)
  | object ms =>
      have hclose : Cut ['\x7d'] [.closeBrace] := Cut.nil.mark rfl fun _ => rfl
      exact ((cut_writeSeparated (cut_memberTexts ms)).append hclose (ends_mark rfl)).mark rfl
        fun _ => rfl
termination_by structural v

theorem cut_elementTexts (vs : List Value) :
    List.Forall₂ Cut (elementTexts vs) (elementLexemes vs) := by
  cases vs with
  | nil => exact .nil
  | cons v vs => exact .cons v.cut_write (cut_elementTexts vs)
termination_by structural vs

theorem cut_memberTexts (ms : List (Option String × Value)) :
    List.Forall₂ Cut (memberTexts ms) (memberLexemes ms) := by
  cases ms with
  | nil => exact .nil
  | cons m ms =>
      obtain ⟨name, v⟩ := m
      have hvalue : Cut (':' :: v.write) (.colon :: v.lexemes) := v.cut_write.mark rfl fun _ => rfl
      exact .cons ((cut_writeText name).append hvalue (ends_mark rfl)) (cut_memberTexts ms)
termination_by structural ms

end

/-! ### Passing over -/

section

variable (room : Option Nat)

mutual

/-- The first defect for which a value inside the given number of containers is not passed over. -/
def Value.fault? (depth : Nat) : Value → Option Fault
  | .null => none
  | .boolean _ => none
  | .number n => scalarFault? room.isSome (.number n.number)
  | .text content => scalarFault? room.isSome (textOf content)
  | .list vs => if room.any (· ≤ depth) then some .malformed else elementFault? (depth + 1) vs
  | .object ms => if room.any (· ≤ depth) then some .malformed else memberFault? (depth + 1) ms
termination_by structural v => v

/-- The first defect in the elements of a list. -/
def elementFault? (depth : Nat) : List Value → Option Fault
  | [] => none
  | v :: vs => (v.fault? depth).or (elementFault? depth vs)
termination_by structural vs => vs

/-- The first defect in the members of an object. -/
def memberFault? (depth : Nat) : List (Option String × Value) → Option Fault
  | [] => none
  | (name, v) :: ms =>
    (scalarFault? room.isSome (textOf name)).or ((v.fault? depth).or (memberFault? depth ms))
termination_by structural ms => ms

end

/-- A result unless there is a fault. -/
def barring {α : Type} (fault : Option Fault) (x : Except Fault α) : Except Fault α :=
  fault.elim x .error

theorem barring_or {α : Type} (f g : Option Fault) (x : Except Fault α) :
    barring (f.or g) x = barring f (barring g x) := by
  cases f <;> rfl

/-- Going on after a value inside the containers that are open. -/
def after (stack : List Bool) (rest : List Lexeme) : Except Fault (List Lexeme) :=
  if stack.isEmpty then .ok rest else pass room stack .more rest

variable {room}

/-- A value takes the place of a first element as of a later one. -/
theorem pass_firstElement (v : Value) {stack : List Bool} (inside : stack ≠ [])
    (rest : List Lexeme) : pass room stack .firstElement (v.lexemes ++ rest) =
      pass room stack .value (v.lexemes ++ rest) := by
  obtain ⟨b, outer, rfl⟩ := List.exists_cons_of_ne_nil inside
  cases v <;> rfl

theorem pass_scalar (l : Lexeme) (noList : l ≠ .openBracket) (noObject : l ≠ .openBrace)
    (stack : List Bool) (rest : List Lexeme) : pass room stack .value (l :: rest) =
      barring (scalarFault? room.isSome l) (after room stack rest) := by
  rw [pass.eq_def]
  cases hfault : scalarFault? room.isSome l <;> cases l <;> simp_all [barring, after]

/-- A name is passed over with its colon. -/
theorem pass_name (room : Option Nat) (name : Option String) (stack : List Bool)
    (rest : List Lexeme) :
    pass room stack .key (textOf name :: .colon :: rest) =
      barring (scalarFault? room.isSome (textOf name)) (pass room stack .value rest) := by
  rw [pass.eq_def]
  dsimp only [textOf]
  cases scalarFault? room.isSome (.text (name.elim (.error .malformed) .ok)) <;> rfl

mutual

/-- Passing over a value meets its first defect, or goes on after it. -/
theorem Value.pass_lexemes (v : Value) (stack : List Bool) (rest : List Lexeme) :
    pass room stack .value (v.lexemes ++ rest) =
      barring (v.fault? room stack.length) (after room stack rest) := by
  cases v with
  | null => rfl
  | boolean b => rfl
  | number n => exact pass_scalar (.number n.number) nofun nofun stack rest
  | text content => exact pass_scalar (textOf content) nofun nofun stack rest
  | list vs =>
      change (if room.any (· ≤ stack.length) then .error .malformed
        else pass room (false :: stack) .firstElement
          (joined (elementLexemes vs) ++ [.closeBracket] ++ rest)) =
        barring (if room.any (· ≤ stack.length) then some .malformed
          else elementFault? room (stack.length + 1) vs) _
      split
      · rfl
      · cases vs with
        | nil => cases stack <;> rfl
        | cons v vs =>
            rw [elementLexemes, joined, List.append_assoc, List.append_assoc,
              pass_firstElement v (List.cons_ne_nil _ _), v.pass_lexemes (false :: stack),
              elementFault?, barring_or, ← pass_elements vs]
            rfl
  | object ms =>
      change (if room.any (· ≤ stack.length) then .error .malformed
        else pass room (true :: stack) .firstKey
          (joined (memberLexemes ms) ++ [.closeBrace] ++ rest)) =
        barring (if room.any (· ≤ stack.length) then some .malformed
          else memberFault? room (stack.length + 1) ms) _
      split
      · rfl
      · cases ms with
        | nil => cases stack <;> rfl
        | cons m ms =>
            obtain ⟨name, v⟩ := m
            rw [memberFault?, barring_or, barring_or, ← pass_members ms]
            have hname := pass_name room name (true :: stack)
              (v.lexemes ++ ((memberLexemes ms).flatMap (.comma :: ·) ++ .closeBrace :: rest))
            rw [v.pass_lexemes (true :: stack)] at hname
            rw [memberLexemes, joined, List.append_assoc, List.append_assoc]
            exact hname
termination_by structural v

/-- The elements after the first are passed over up to the end of their list. -/
theorem pass_elements (vs : List Value) (stack : List Bool) (rest : List Lexeme) :
    pass room (false :: stack) .more
        ((elementLexemes vs).flatMap (.comma :: ·) ++ .closeBracket :: rest) =
      barring (elementFault? room (stack.length + 1) vs) (after room stack rest) := by
  cases vs with
  | nil => rfl
  | cons v vs =>
      rw [elementLexemes, List.flatMap_cons, List.append_assoc, elementFault?, barring_or,
        ← pass_elements vs]
      exact v.pass_lexemes (false :: stack) _
termination_by structural vs

/-- The members after the first are passed over up to the end of their object. -/
theorem pass_members (ms : List (Option String × Value)) (stack : List Bool) (rest : List Lexeme) :
    pass room (true :: stack) .more
        ((memberLexemes ms).flatMap (.comma :: ·) ++ .closeBrace :: rest) =
      barring (memberFault? room (stack.length + 1) ms) (after room stack rest) := by
  cases ms with
  | nil => rfl
  | cons m ms =>
      obtain ⟨name, v⟩ := m
      have hname := pass_name room name (true :: stack)
        (v.lexemes ++ ((memberLexemes ms).flatMap (.comma :: ·) ++ .closeBrace :: rest))
      rw [v.pass_lexemes (true :: stack)] at hname
      rw [memberLexemes, List.flatMap_cons, List.append_assoc, memberFault?, barring_or, barring_or,
        ← pass_members ms]
      exact hname
termination_by structural ms

end

mutual

/-- A value that is passed over leniently has no defect. -/
theorem Value.fault?_none (v : Value) (depth : Nat) : v.fault? none depth = none := by
  cases v with
  | number n =>
      change scalarFault? false (.number n.number) = none
      cases n.number <;> rfl
  | text content => cases content <;> rfl
  | list vs => exact elementFault?_none vs (depth + 1)
  | object ms => exact memberFault?_none ms (depth + 1)
  | _ => rfl
termination_by structural v

theorem elementFault?_none (vs : List Value) (depth : Nat) :
    elementFault? none depth vs = none := by
  cases vs with
  | nil => rfl
  | cons v vs => rw [elementFault?, v.fault?_none, elementFault?_none vs, Option.or_none]
termination_by structural vs

theorem memberFault?_none (ms : List (Option String × Value)) (depth : Nat) :
    memberFault? none depth ms = none := by
  cases ms with
  | nil => rfl
  | cons m ms =>
      obtain ⟨name, v⟩ := m
      rw [memberFault?, v.fault?_none, memberFault?_none ms]
      cases name <;> rfl
termination_by structural ms

end

theorem skip_lexemes (v : Value) (rest : List Lexeme) :
    skip (v.lexemes ++ rest) = .ok ((), rest) := by
  rw [skip, v.pass_lexemes [] rest, v.fault?_none]
  rfl

theorem check_lexemes (room : Nat) (v : Value) (rest : List Lexeme) :
    check room (v.lexemes ++ rest) = (barring (v.fault? (some room) 0) (.ok ())).map (·, rest) := by
  rw [check, v.pass_lexemes [] rest, List.length_nil]
  cases v.fault? (some room) 0 <;> rfl

end

end FederatedAccess.Json
