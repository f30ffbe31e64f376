import FederatedAccess.Text.Base64

/-!
# Written bytes tell the bytes

A character stands for one value below 64, so the characters of a group tell its bytes. Groups of
one, two and three bytes have different numbers of characters.
-/

namespace FederatedAccess.Base64

theorem value?_char {n : Nat} (h : n < 64) : urlSafe.value? (urlSafe.char n) = some n := by
  have all : ∀ k : Fin 64, urlSafe.value? (urlSafe.char k) = some k.val := by decide
  exact all ⟨n, h⟩

theorem char_inj {m n : Nat} (hm : m < 64) (hn : n < 64) (h : urlSafe.char m = urlSafe.char n) :
    m = n := by
  have hvalue := congrArg urlSafe.value? h
  rw [value?_char hm, value?_char hn] at hvalue
  exact Option.some.inj hvalue

/-- Different bytes are written differently. -/
theorem encode_injective : Function.Injective (encode urlSafe) := by
  intro bs
  induction bs using encode.induct with
  | case1 =>
      intro cs h
      match cs with
      | [] => rfl
      | [_] | [_, _] | _ :: _ :: _ :: _ => simp [encode] at h
  | case2 x =>
      intro cs h
      match cs with
      | [x'] =>
          have hx := x.toNat_lt
          have hx' := x'.toNat_lt
          simp only [encode, List.cons.injEq] at h
          have h₁ := char_inj (by omega) (by omega) h.1
          have h₂ := char_inj (by omega) (by omega) h.2.1
          obtain rfl : x = x' := UInt8.toNat_inj.mp (by omega)
          rfl
      | [] | [_, _] | _ :: _ :: _ :: _ => simp [encode] at h
  | case3 x y =>
      intro cs h
      match cs with
      | [x', y'] =>
          have hx := x.toNat_lt
          have hx' := x'.toNat_lt
          have hy := y.toNat_lt
          have hy' := y'.toNat_lt
          simp only [encode, List.cons.injEq] at h
          have h₁ := char_inj (by omega) (by omega) h.1
          have h₂ := char_inj (by omega) (by omega) h.2.1
          have h₃ := char_inj (by omega) (by omega) h.2.2.1
          obtain rfl : x = x' := UInt8.toNat_inj.mp (by omega)
          obtain rfl : y = y' := UInt8.toNat_inj.mp (by omega)
          rfl
      | [] | [_] | _ :: _ :: _ :: _ => simp [encode] at h
  | case4 x y z rest ih =>
      intro cs h
      match cs with
      | x' :: y' :: z' :: rest' =>
          have hx := x.toNat_lt
          have hx' := x'.toNat_lt
          have hy := y.toNat_lt
          have hy' := y'.toNat_lt
          have hz := z.toNat_lt
          have hz' := z'.toNat_lt
          simp only [encode, List.cons.injEq] at h
          have h₁ := char_inj (by omega) (by omega) h.1
          have h₂ := char_inj (by omega) (by omega) h.2.1
          have h₃ := char_inj (by omega) (by omega) h.2.2.1
          have h₄ := char_inj (by omega) (by omega) h.2.2.2.1
          obtain rfl : x = x' := UInt8.toNat_inj.mp (by omega)
          obtain rfl : y = y' := UInt8.toNat_inj.mp (by omega)
          obtain rfl : z = z' := UInt8.toNat_inj.mp (by omega)
          rw [ih h.2.2.2.2]
      | [] | [_] | [_, _] => simp [encode] at h

end FederatedAccess.Base64
