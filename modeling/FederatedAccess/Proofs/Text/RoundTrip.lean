import FederatedAccess.Url.Percent

/-!
# Written text is read back

The bytes of a text are read as the text, and what is written with percent escapes stands for the
bytes of the text, whichever characters are escaped.
-/

namespace FederatedAccess

namespace Utf8

/-! ### Bytes of one character -/

theorem toNat_ofNat_of_lt {k : Nat} (h : k < 256) : (UInt8.ofNat k).toNat = k := by
  rw [UInt8.toNat_ofNat', Nat.mod_eq_of_lt h]

theorem width_ofNat {k : Nat} (h : k < 256) : width (UInt8.ofNat k) =
    if k < 0x80 then 1 else if k < 0xC2 then 0 else if k < 0xE0 then 2 else if k < 0xF0 then 3
      else if k < 0xF5 then 4 else 0 := by
  simp only [width, UInt8.lt_iff_toNat_lt, toNat_ofNat_of_lt h]
  rfl

theorem isTail_ofNat (n : Nat) : isTail (UInt8.ofNat (n % 64 + 128)) = true := by
  have hlt : n % 64 < 64 := Nat.mod_lt n (by decide)
  simp only [isTail, UInt8.le_iff_toNat_le, toNat_ofNat_of_lt (show n % 64 + 128 < 256 by omega),
    Bool.and_eq_true, decide_eq_true_eq]
  exact ⟨Nat.le_add_left _ _, by change _ ≤ 191; omega⟩

theorem payload_ofNat (n : Nat) : payload (UInt8.ofNat (n % 64 + 128)) = n % 64 := by
  have hlt : n % 64 < 64 := Nat.mod_lt n (by decide)
  rw [payload, toNat_ofNat_of_lt (by omega)]
  omega

theorem isSecond_ofNat {k n : Nat} (hk : k < 256) (overlong : k = 0xE0 → 32 ≤ n % 64)
    (overlong' : k = 0xF0 → 16 ≤ n % 64) (surrogate : k = 0xED → n % 64 < 32)
    (beyond : k = 0xF4 → n % 64 < 16) :
    isSecond (UInt8.ofNat k) (UInt8.ofNat (n % 64 + 128)) = true := by
  have hlt : n % 64 < 64 := Nat.mod_lt n (by decide)
  have hfirst (v : UInt8) : (UInt8.ofNat k == v) = decide (k = v.toNat) := by
    rw [Bool.eq_iff_iff, beq_iff_eq, decide_eq_true_iff, ← UInt8.toNat_inj, toNat_ofNat_of_lt hk]
  simp only [isSecond, hfirst, UInt8.le_iff_toNat_le,
    toNat_ofNat_of_lt (show n % 64 + 128 < 256 by omega), Bool.and_eq_true, decide_eq_true_eq]
  constructor
  · split
    · have := overlong ‹_›
      change 160 ≤ _
      omega
    · split
      · have := overlong' ‹_›
        change 144 ≤ _
        omega
      · exact Nat.le_add_left _ _
  · split
    · have := surrogate ‹_›
      change _ ≤ 159
      omega
    · split
      · have := beyond ‹_›
        change _ ≤ 143
        omega
      · change _ ≤ 191
        omega

/-! ### Groups of bytes -/

variable {b₀ b₁ b₂ b₃ : UInt8}

theorem decode_one (first : width b₀ = 1) (rest : List UInt8) :
    decode (b₀ :: rest) = some (Char.ofNat b₀.toNat) :: decode rest := by
  rw [decode, first]
  rfl

theorem decode_two (first : width b₀ = 2) (second : isSecond b₀ b₁ = true) (rest : List UInt8) :
    decode (b₀ :: b₁ :: rest) =
      some (Char.ofNat (b₀.toNat % 32 * 64 + payload b₁)) :: decode rest := by
  rw [decode, first]
  simp only [second, if_true]

theorem decode_three (first : width b₀ = 3) (second : isSecond b₀ b₁ = true)
    (third : isTail b₂ = true) (rest : List UInt8) :
    decode (b₀ :: b₁ :: b₂ :: rest) =
      some (Char.ofNat ((b₀.toNat % 16 * 64 + payload b₁) * 64 + payload b₂)) :: decode rest := by
  rw [decode, first]
  simp [second, third]

theorem decode_four (first : width b₀ = 4) (second : isSecond b₀ b₁ = true)
    (third : isTail b₂ = true) (fourth : isTail b₃ = true) (rest : List UInt8) :
    decode (b₀ :: b₁ :: b₂ :: b₃ :: rest) =
      some (Char.ofNat
        (((b₀.toNat % 8 * 64 + payload b₁) * 64 + payload b₂) * 64 + payload b₃)) ::
          decode rest := by
  rw [decode, first]
  simp [second, third, fourth]

/-- The bytes of a character are read as the character, whatever follows. -/
theorem decode_utf8EncodeChar (c : Char) (rest : List UInt8) :
    decode (String.utf8EncodeChar c ++ rest) = some c :: decode rest := by
  have hvalid : c.toNat < 0xD800 ∨ 0xDFFF < c.toNat ∧ c.toNat < 0x110000 := c.valid
  obtain ⟨n, hn⟩ : ∃ n, c.toNat = n := ⟨_, rfl⟩
  have hchar {m : Nat} (hm : m = n) : Char.ofNat m = c := by rw [hm, ← hn, Char.ofNat_toNat]
  have hval : c.val.toNat = n := hn
  rw [hn] at hvalid
  simp only [String.utf8EncodeChar, hval]
  split
  · have first : width (UInt8.ofNat n) = 1 := by
      rw [width_ofNat (by omega), if_pos (by omega)]
    rw [List.singleton_append, decode_one first, toNat_ofNat_of_lt (by omega), hchar rfl]
  · split
    · have first : width (UInt8.ofNat (n / 64 % 32 + 192)) = 2 := by
        rw [width_ofNat (by omega), if_neg (by omega), if_neg (by omega), if_pos (by omega)]
      have second : isSecond (UInt8.ofNat (n / 64 % 32 + 192)) (UInt8.ofNat (n % 64 + 128)) = true :=
        isSecond_ofNat (by omega) (by omega) (by omega) (by omega) (by omega)
      rw [List.cons_append, List.singleton_append, decode_two first second, payload_ofNat,
        toNat_ofNat_of_lt (by omega), hchar (by omega)]
    · split
      · have first : width (UInt8.ofNat (n / 4096 % 16 + 224)) = 3 := by
          rw [width_ofNat (by omega), if_neg (by omega), if_neg (by omega), if_neg (by omega),
            if_pos (by omega)]
        have second : isSecond (UInt8.ofNat (n / 4096 % 16 + 224))
            (UInt8.ofNat (n / 64 % 64 + 128)) = true :=
          isSecond_ofNat (by omega) (by omega) (by omega) (by omega) (by omega)
        rw [List.cons_append, List.cons_append, List.singleton_append,
          decode_three first second (isTail_ofNat n), payload_ofNat, payload_ofNat,
          toNat_ofNat_of_lt (by omega), hchar (by omega)]
      · have first : width (UInt8.ofNat (n / 262144 % 8 + 240)) = 4 := by
          rw [width_ofNat (by omega), if_neg (by omega), if_neg (by omega), if_neg (by omega),
            if_neg (by omega), if_pos (by omega)]
        have second : isSecond (UInt8.ofNat (n / 262144 % 8 + 240))
            (UInt8.ofNat (n / 4096 % 64 + 128)) = true :=
          isSecond_ofNat (by omega) (by omega) (by omega) (by omega) (by omega)
        rw [List.cons_append, List.cons_append, List.cons_append, List.singleton_append,
          decode_four first second (isTail_ofNat _) (isTail_ofNat n), payload_ofNat, payload_ofNat,
          payload_ofNat, toNat_ofNat_of_lt (by omega), hchar (by omega)]

/-- The bytes of a text are read as the text. -/
theorem decode_encode (cs : List Char) : decode (encode cs) = cs.map some := by
  induction cs with
  | nil => rw [encode_nil, decode, List.map_nil]
  | cons c rest ih =>
      calc
        decode (encode (c :: rest))
          = decode (String.utf8EncodeChar c ++ encode rest) := by rw [encode, List.flatMap_cons]; rfl
        _ = some c :: decode (encode rest) := decode_utf8EncodeChar c _
        _ = (c :: rest).map some := by rw [ih, List.map_cons]

theorem decodeLossy_encode (cs : List Char) : decodeLossy (encode cs) = cs := by
  rw [decodeLossy, decode_encode, List.map_map]
  exact List.map_id cs

/-- Texts are told by their bytes. -/
theorem bytes_inj {a b : String} : bytes a = bytes b ↔ a = b := by
  constructor
  · intro h
    have hread := congrArg decodeLossy h
    rw [bytes, bytes, decodeLossy_encode, decodeLossy_encode] at hread
    exact String.toList_inj.mp hread
  · rintro rfl
    rfl

end Utf8

/-! ### Percent escapes -/

namespace Percent

theorem hexDigit?_hexChar {n : Nat} (h : n < 16) : Text.hexDigit? (hexChar n) = some n := by
  have all : ∀ d : Fin 16, Text.hexDigit? (hexChar d) = some d.val := by decide
  exact all ⟨n, h⟩

/-- An escape stands for its byte, whatever follows. -/
theorem decode_escape (b : UInt8) (rest : List Char) :
    decode (escape b ++ rest) = b :: decode rest := by
  have hlt := b.toNat_lt
  have hb : (b.toNat / 16 * 16 + b.toNat % 16).toUInt8 = b := by
    rw [Nat.div_add_mod']
    exact UInt8.ofNat_toNat
  simp only [escape, List.cons_append, List.nil_append, decode,
    hexDigit?_hexChar (show b.toNat / 16 < 16 by omega),
    hexDigit?_hexChar (show b.toNat % 16 < 16 by omega), hb]

theorem decode_escapes (bs : List UInt8) (rest : List Char) :
    decode (bs.flatMap escape ++ rest) = bs ++ decode rest := by
  induction bs with
  | nil => rfl
  | cons b bs ih =>
      rw [List.flatMap_cons, List.append_assoc, decode_escape, ih, List.cons_append]

/-- A character that is no percent sign stands for its bytes. -/
theorem decode_cons {c : Char} (h : c ≠ '%') (rest : List Char) :
    decode (c :: rest) = String.utf8EncodeChar c ++ decode rest := by
  rw [decode]
  rintro a b rest' rfl
  exact absurd rfl h

/-- What is written with escapes stands for the bytes of the text, as long as percent signs are
escaped. -/
theorem decode_encode {plain : Char → Bool} (h : plain '%' = false) (cs : List Char) :
    decode (encode plain cs) = Utf8.encode cs := by
  induction cs with
  | nil => rfl
  | cons c rest ih =>
      have hc (tail : List Char) :
          decode (encodeChar plain c ++ tail) = String.utf8EncodeChar c ++ decode tail := by
        unfold encodeChar
        split
        · rename_i hplain
          refine decode_cons ?_ tail
          rintro rfl
          cases h.symm.trans hplain
        · exact decode_escapes _ tail
      calc
        decode (encode plain (c :: rest))
          = decode (encodeChar plain c ++ encode plain rest) := by rw [encode, List.flatMap_cons]; rfl
        _ = String.utf8EncodeChar c ++ Utf8.encode rest := by rw [hc, ih]
        _ = Utf8.encode (c :: rest) := by rw [Utf8.encode, Utf8.encode, List.flatMap_cons]

/-- A character is written in percent signs and hexadecimal digits, if it is not plain. -/
theorem mem_encodeChar {plain : Char → Bool} {c d : Char} (h : d ∈ encodeChar plain c) :
    plain d = true ∨ d = '%' ∨ d.isAlphanum = true := by
  have hexes : ∀ n : Fin 16, (hexChar n).isAlphanum = true := by decide
  unfold encodeChar at h
  split at h
  · rename_i hplain
    exact .inl (List.mem_singleton.mp h ▸ hplain)
  · obtain ⟨b, -, hd⟩ := List.mem_flatMap.mp h
    have hlt := b.toNat_lt
    simp only [escape, List.mem_cons, List.not_mem_nil, or_false] at hd
    rcases hd with rfl | rfl | rfl
    · exact .inr (.inl rfl)
    · exact .inr (.inr (hexes ⟨b.toNat / 16, by omega⟩))
    · exact .inr (.inr (hexes ⟨b.toNat % 16, by omega⟩))

end Percent

end FederatedAccess
