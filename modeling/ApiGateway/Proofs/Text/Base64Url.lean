import ApiGateway.Proofs.Text.Utf8
import ApiGateway.Text.Base64Url

/-!
# Reading back base 64

The bytes that were written are read back, and a text is read only if it is the written form of the bytes
that are read: no second text stands for them.
-/

namespace ApiGateway.Text.Base64Url

/-! ## Digits -/

theorem value?_digit {value : Nat} (hvalue : value < 64) : value? (digit value) = some value := by
  have hall : ∀ value : Fin 64, value? (digit value) = some value.val := by decide
  exact hall ⟨value, hvalue⟩

theorem lt_of_value? {c : Char} {value : Nat} (hvalue : value? c = some value) :
    value < 64 ∧ c.toNat < 128 := by
  simp only [value?, Char.le_def, UInt32.le_iff_toNat_le, Char.toNat_val, Char.reduceVal,
    ← Char.toNat_inj, Char.reduceToNat] at hvalue
  grind

theorem digit_of_value? {c : Char} {value : Nat} (hvalue : value? c = some value) : digit value = c := by
  have hall : ∀ code : Fin 128, (value? (Char.ofNat code)).all fun value => digit value = Char.ofNat code := by
    decide
  have hc := hall ⟨c.toNat, (lt_of_value? hvalue).2⟩
  simp only [Char.ofNat_toNat, hvalue, Option.all_some, decide_eq_true_eq] at hc
  exact hc

theorem digit_ne_dot (value : Nat) : digit value ≠ '.' := by
  by_cases hvalue : value < 64
  · have hall : ∀ value : Fin 64, digit value ≠ '.' := by decide
    exact hall ⟨value, hvalue⟩
  · rw [digit, if_neg (by omega), if_neg (by omega), if_neg (by omega), if_neg (by omega)]
    decide

/-! ## Texts -/

theorem dot_not_mem_encode (bytes : List UInt8) : '.' ∉ encode bytes := by
  fun_induction encode bytes with
  | case1 => exact List.not_mem_nil
  | case2 => simp [Ne.symm (digit_ne_dot _)]
  | case3 => simp [Ne.symm (digit_ne_dot _)]
  | case4 a b c rest ih => simp [Ne.symm (digit_ne_dot _), ih]

/-- What has been written is read back. -/
theorem decode?_encode (bytes : List UInt8) : decode? (encode bytes) = some bytes := by
  have hbyte : ∀ {value : Nat} {byte : UInt8}, value = byte.toNat → value.toUInt8 = byte := by
    rintro value byte rfl
    exact UInt8.ofNat_toNat
  fun_induction encode bytes with
  | case1 => rfl
  | case2 a =>
      have ha := a.toNat_lt
      rw [decode?, value?_digit (by omega), value?_digit (by omega)]
      simp only [Option.bind_eq_bind, Option.bind_some]
      rw [if_pos (by omega), hbyte (by omega : _ = a.toNat)]
      rfl
  | case3 a b =>
      have ha := a.toNat_lt
      have hb := b.toNat_lt
      rw [decode?, value?_digit (by omega), value?_digit (by omega), value?_digit (by omega)]
      simp only [Option.bind_eq_bind, Option.bind_some]
      rw [if_pos (by omega), hbyte (by omega : _ = a.toNat), hbyte (by omega : _ = b.toNat)]
      rfl
  | case4 a b c rest ih =>
      have ha := a.toNat_lt
      have hb := b.toNat_lt
      have hc := c.toNat_lt
      rw [decode?, value?_digit (by omega), value?_digit (by omega), value?_digit (by omega),
        value?_digit (by omega), ih]
      simp only [Option.bind_eq_bind, Option.bind_some]
      rw [hbyte (by omega : _ = a.toNat), hbyte (by omega : _ = b.toNat), hbyte (by omega : _ = c.toNat)]
      rfl

/-- A text is read only if it is the written form of what is read. -/
theorem encode_of_decode? {text : List Char} {bytes : List UInt8} (hdecode : decode? text = some bytes) :
    encode bytes = text := by
  have htoNat : ∀ {value : Nat}, value < 256 → value.toUInt8.toNat = value := fun h => toNat_ofNat h
  fun_induction decode? text generalizing bytes with
  | case1 =>
      cases hdecode
      rfl
  | case2 => cases hdecode
  | case3 c d =>
      simp only [Option.bind_eq_bind, Option.bind_eq_some_iff] at hdecode
      obtain ⟨first, hfirst, second, hsecond, hbytes⟩ := hdecode
      have hbounds := And.intro (lt_of_value? hfirst).1 (lt_of_value? hsecond).1
      split at hbytes
      · cases hbytes
        rw [encode, htoNat (by omega), ← digit_of_value? hfirst, ← digit_of_value? hsecond,
          (by omega : (first * 4 + second / 16) / 4 = first),
          (by omega : (first * 4 + second / 16) % 4 * 16 = second)]
      · cases hbytes
  | case4 c d e =>
      simp only [Option.bind_eq_bind, Option.bind_eq_some_iff] at hdecode
      obtain ⟨first, hfirst, second, hsecond, third, hthird, hbytes⟩ := hdecode
      have hbounds := And.intro (lt_of_value? hfirst).1 (And.intro (lt_of_value? hsecond).1
        (lt_of_value? hthird).1)
      split at hbytes
      · cases hbytes
        rw [encode, htoNat (by omega), htoNat (by omega), ← digit_of_value? hfirst,
          ← digit_of_value? hsecond, ← digit_of_value? hthird,
          (by omega : (first * 4 + second / 16) / 4 = first),
          (by omega : (first * 4 + second / 16) % 4 * 16 + (second % 16 * 16 + third / 4) / 16 = second),
          (by omega : (second % 16 * 16 + third / 4) % 16 * 4 = third)]
      · cases hbytes
  | case5 c d e f rest ih =>
      simp only [Option.bind_eq_bind, Option.bind_eq_some_iff] at hdecode
      obtain ⟨first, hfirst, second, hsecond, third, hthird, fourth, hfourth, others, hothers, hbytes⟩ :=
        hdecode
      have hbounds := And.intro (And.intro (lt_of_value? hfirst).1 (lt_of_value? hsecond).1)
        (And.intro (lt_of_value? hthird).1 (lt_of_value? hfourth).1)
      cases hbytes
      rw [encode, htoNat (by omega), htoNat (by omega), htoNat (by omega), ih hothers,
        ← digit_of_value? hfirst, ← digit_of_value? hsecond, ← digit_of_value? hthird,
        ← digit_of_value? hfourth,
        (by omega : (first * 4 + second / 16) / 4 = first),
        (by omega : (first * 4 + second / 16) % 4 * 16 + (second % 16 * 16 + third / 4) / 16 = second),
        (by omega : (second % 16 * 16 + third / 4) % 16 * 4 + (third % 4 * 64 + fourth) / 64 = third),
        (by omega : (third % 4 * 64 + fourth) % 64 = fourth)]

theorem decode?_eq_some_iff {text : List Char} {bytes : List UInt8} :
    decode? text = some bytes ↔ text = encode bytes := by
  constructor
  · exact fun hdecode => (encode_of_decode? hdecode).symm
  · rintro rfl
    exact decode?_encode bytes

end ApiGateway.Text.Base64Url
