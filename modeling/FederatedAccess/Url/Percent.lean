import FederatedAccess.Text.Ranges
import FederatedAccess.Text.Utf8

/-!
# Percent escapes

Characters that may not stand for themselves are written as the bytes of their UTF-8 form, each
after a percent sign and in hexadecimal.
-/

namespace FederatedAccess.Percent

/-- A hexadecimal digit in upper case. -/
def hexChar (n : Nat) : Char :=
  if n < 10 then Char.ofNat (n + '0'.toNat) else Char.ofNat (n - 10 + 'A'.toNat)

/-- The escape of a byte. -/
def escape (b : UInt8) : List Char :=
  ['%', hexChar (b.toNat / 16), hexChar (b.toNat % 16)]

/-- A character as it is, if it is plain, and otherwise escaped. -/
def encodeChar (plain : Char → Bool) (c : Char) : List Char :=
  if plain c then [c] else (String.utf8EncodeChar c).flatMap escape

/-- Escapes the characters that are not plain. -/
def encode (plain : Char → Bool) (cs : List Char) : List Char :=
  cs.flatMap (encodeChar plain)

/-- The bytes that a text with escapes stands for. A percent sign that begins no escape stands for
itself. -/
def decode : List Char → List UInt8
  | '%' :: a :: b :: rest =>
    match Text.hexDigit? a, Text.hexDigit? b with
    | some x, some y => (x * 16 + y).toUInt8 :: decode rest
    | _, _ => 37 :: decode (a :: b :: rest)
  | c :: rest => String.utf8EncodeChar c ++ decode rest
  | [] => []

/-- A text of plain characters is written as it is. -/
theorem encode_eq_self {plain : Char → Bool} {cs : List Char} (h : ∀ c ∈ cs, plain c = true) :
    encode plain cs = cs := by
  induction cs with
  | nil => rfl
  | cons c rest ih =>
      have hc : encodeChar plain c = [c] := if_pos (h c (by simp))
      have hr := ih fun d hd => h d (by simp [hd])
      simp only [encode, List.flatMap_cons, hc] at hr ⊢
      simp [hr]

end FederatedAccess.Percent
