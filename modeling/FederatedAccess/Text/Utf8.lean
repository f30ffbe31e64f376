/-!
# UTF-8

Text is written as bytes and bytes are read as text. Reading never fails: a group of bytes that
starts no character is kept as `none`, so a caller may refuse it, skip it or show a replacement
character. Strings are ordered by their bytes.
-/

namespace FederatedAccess.Utf8

/-- The bytes of a text. -/
def encode (cs : List Char) : List UInt8 :=
  cs.flatMap String.utf8EncodeChar

/-- The bytes of a string. -/
def bytes (s : String) : List UInt8 :=
  encode s.toList

/-- The number of bytes of a string. -/
def size (s : String) : Nat :=
  (bytes s).length

@[simp] theorem encode_nil : encode [] = [] := rfl

@[simp] theorem encode_append (a b : List Char) : encode (a ++ b) = encode a ++ encode b := by
  simp [encode]

/-- Strings are ordered by their bytes, the first difference deciding. -/
def before (a b : String) : Prop :=
  bytes a < bytes b

instance (a b : String) : Decidable (before a b) :=
  inferInstanceAs (Decidable (bytes a < bytes b))

/-- The three-way form of the order by bytes. -/
def order (a b : String) : Ordering :=
  if before a b then .lt else if before b a then .gt else .eq

theorem not_before_self (a : String) : ¬before a a :=
  List.lt_irrefl _

theorem before_trans {a b c : String} (hab : before a b) (hbc : before b c) : before a c :=
  List.lt_trans hab hbc

/-- How many bytes the character starting with this byte takes; zero when none starts with it. -/
def width (b : UInt8) : Nat :=
  if b < 0x80 then 1
  else if b < 0xC2 then 0
  else if b < 0xE0 then 2
  else if b < 0xF0 then 3
  else if b < 0xF5 then 4
  else 0

/-- Bytes after the second of a character lie between `80` and `BF`. -/
def isTail (b : UInt8) : Bool :=
  0x80 ≤ b && b ≤ 0xBF

/-- The second byte has a narrower range after some first bytes, which keeps out overlong forms,
surrogates and values past the last code point. -/
def isSecond (first second : UInt8) : Bool :=
  let low : UInt8 := if first == 0xE0 then 0xA0 else if first == 0xF0 then 0x90 else 0x80
  let high : UInt8 := if first == 0xED then 0x9F else if first == 0xF4 then 0x8F else 0xBF
  low ≤ second && second ≤ high

/-- The six low bits that a later byte contributes. -/
def payload (b : UInt8) : Nat :=
  b.toNat % 64

/-- Reads bytes as characters; a maximal group of bytes that begins a character without completing
it becomes one `none`. -/
def decode : List UInt8 → List (Option Char)
  | [] => []
  | b₀ :: r₀ =>
    match width b₀ with
    | 0 => none :: decode r₀
    | 1 => some (Char.ofNat b₀.toNat) :: decode r₀
    | w =>
      match r₀ with
      | [] => [none]
      | b₁ :: r₁ =>
        if isSecond b₀ b₁ then
          if w = 2 then some (Char.ofNat (b₀.toNat % 32 * 64 + payload b₁)) :: decode r₁
          else match r₁ with
            | [] => [none]
            | b₂ :: r₂ =>
              if isTail b₂ then
                if w = 3 then
                  some (Char.ofNat ((b₀.toNat % 16 * 64 + payload b₁) * 64 + payload b₂)) ::
                    decode r₂
                else match r₂ with
                  | [] => [none]
                  | b₃ :: r₃ =>
                    if isTail b₃ then
                      some (Char.ofNat
                        (((b₀.toNat % 8 * 64 + payload b₁) * 64 + payload b₂) * 64 + payload b₃)) ::
                        decode r₃
                    else none :: decode (b₃ :: r₃)
              else none :: decode (b₂ :: r₂)
        else none :: decode (b₁ :: r₁)

/-- Reads bytes as text, U+FFFD standing for each group that is no character. -/
def decodeLossy (bs : List UInt8) : List Char :=
  (decode bs).map (·.getD '\uFFFD')

/-- Reads bytes as text if they are one. -/
def decode? (bs : List UInt8) : Option (List Char) :=
  (decode bs).mapM id

end FederatedAccess.Utf8
