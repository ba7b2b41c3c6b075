import ApiGateway.Text.Utf8

/-!
# Reading back UTF-8

Every text is read back from its bytes.  The first byte of a character tells how many follow, and each
byte that follows adds six bits.
-/

namespace ApiGateway.Text

theorem utf8_append (left right : List Char) : utf8 (left ++ right) = utf8 left ++ utf8 right :=
  List.flatMap_append

theorem utf8_cons (c : Char) (text : List Char) :
    utf8 (c :: text) = String.utf8EncodeChar c ++ utf8 text := rfl

/-- A character below 128 is one byte. -/
theorem utf8EncodeChar_of_ascii {c : Char} (hascii : c.toNat < 128) :
    String.utf8EncodeChar c = [UInt8.ofNat c.toNat] := by
  have hle : c.val.toNat ≤ 0x7f := Nat.le_of_lt_succ hascii
  rw [String.utf8EncodeChar, if_pos hle]
  rfl

theorem toNat_ofNat {n : Nat} (hn : n < 256) : (UInt8.ofNat n).toNat = n := by
  rw [UInt8.toNat_ofNat', Nat.mod_eq_of_lt hn]

/-! ## One character -/

/-- A byte that follows adds six bits. -/
theorem continuation_cons {value bits count : Nat} {low high : UInt8} (bytes : List UInt8)
    (hbits : bits < 64) (hlow : low.toNat ≤ bits + 0x80) (hhigh : bits + 0x80 ≤ high.toNat) :
    continuation value low high (count + 1) (UInt8.ofNat (bits + 0x80) :: bytes) =
      continuation (value * 64 + bits) 0x80 0xBF count bytes := by
  have hbyte : (UInt8.ofNat (bits + 0x80)).toNat = bits + 0x80 := toNat_ofNat (by omega)
  have hinside : low ≤ UInt8.ofNat (bits + 0x80) ∧ UInt8.ofNat (bits + 0x80) ≤ high := by
    rw [UInt8.le_iff_toNat_le, UInt8.le_iff_toNat_le, hbyte]
    exact ⟨hlow, hhigh⟩
  rw [continuation, if_pos hinside, hbyte, Nat.add_sub_cancel]

/-- A further byte may hold any six bits, but for the one after the first. -/
theorem continuation_any {value bits count : Nat} (bytes : List UInt8) (hbits : bits < 64) :
    continuation value 0x80 0xBF (count + 1) (UInt8.ofNat (bits + 0x80) :: bytes) =
      continuation (value * 64 + bits) 0x80 0xBF count bytes := by
  refine continuation_cons bytes hbits ?_ ?_
  · simp
  · simp only [UInt8.reduceToNat]
    omega

theorem decodeOne_one {value : Nat} (bytes : List UInt8) (hhigh : value < 0x80) :
    decodeOne (UInt8.ofNat value) bytes = (some value, bytes) := by
  have hfirst : (UInt8.ofNat value).toNat = value := toNat_ofNat (by omega)
  simp only [decodeOne, UInt8.lt_iff_toNat_lt, hfirst, UInt8.reduceToNat]
  rw [if_pos hhigh]

theorem decodeOne_two {value : Nat} (bytes : List UInt8) (hlow : 0x80 ≤ value)
    (hhigh : value < 0x800) :
    decodeOne (UInt8.ofNat (value / 64 % 0x20 + 0xC0))
      (UInt8.ofNat (value % 0x40 + 0x80) :: bytes) = (some value, bytes) := by
  have hfirst : (UInt8.ofNat (value / 64 % 0x20 + 0xC0)).toNat = value / 64 + 0xC0 := by
    rw [toNat_ofNat (by omega)]
    omega
  simp only [decodeOne, UInt8.lt_iff_toNat_lt, hfirst, UInt8.reduceToNat]
  rw [if_neg (by omega), if_neg (by omega), if_pos (by omega), continuation_any bytes (by omega),
    continuation]
  congr 2
  omega

/-- Three bytes do not hold surrogates. -/
theorem decodeOne_three {value : Nat} (bytes : List UInt8) (hlow : 0x800 ≤ value)
    (hhigh : value < 0x10000) (hscalar : value < 0xD800 ∨ 0xDFFF < value) :
    decodeOne (UInt8.ofNat (value / 4096 % 0x10 + 0xE0))
      (UInt8.ofNat (value / 64 % 0x40 + 0x80) :: UInt8.ofNat (value % 0x40 + 0x80) :: bytes) =
        (some value, bytes) := by
  have hfirst : (UInt8.ofNat (value / 4096 % 0x10 + 0xE0)).toNat = value / 4096 + 0xE0 := by
    rw [toNat_ofNat (by omega)]
    omega
  simp only [decodeOne, UInt8.lt_iff_toNat_lt, hfirst, UInt8.reduceToNat, ← UInt8.toNat_inj]
  rw [if_neg (by omega), if_neg (by omega), if_neg (by omega), if_pos (by omega)]
  have hsecond := @continuation_cons (value / 4096 + 0xE0 - 0xE0) (value / 64 % 0x40) 1
    (if value / 4096 + 0xE0 = 0xE0 then 0xA0 else 0x80)
    (if value / 4096 + 0xE0 = 0xED then 0x9F else 0xBF)
    (UInt8.ofNat (value % 0x40 + 0x80) :: bytes) (by omega)
    (by split <;> simp only [UInt8.reduceToNat] <;> omega)
    (by split <;> simp only [UInt8.reduceToNat] <;> omega)
  rw [hsecond, continuation_any bytes (by omega), continuation]
  congr 2
  omega

/-- Four bytes hold no more than the last code point. -/
theorem decodeOne_four {value : Nat} (bytes : List UInt8) (hlow : 0x10000 ≤ value)
    (hhigh : value < 0x110000) :
    decodeOne (UInt8.ofNat (value / 262144 % 0x08 + 0xF0))
      (UInt8.ofNat (value / 4096 % 0x40 + 0x80) :: UInt8.ofNat (value / 64 % 0x40 + 0x80) ::
        UInt8.ofNat (value % 0x40 + 0x80) :: bytes) = (some value, bytes) := by
  have hfirst : (UInt8.ofNat (value / 262144 % 0x08 + 0xF0)).toNat = value / 262144 + 0xF0 := by
    rw [toNat_ofNat (by omega)]
    omega
  simp only [decodeOne, UInt8.lt_iff_toNat_lt, hfirst, UInt8.reduceToNat, ← UInt8.toNat_inj]
  rw [if_neg (by omega), if_neg (by omega), if_neg (by omega), if_neg (by omega), if_pos (by omega)]
  have hsecond := @continuation_cons (value / 262144 + 0xF0 - 0xF0) (value / 4096 % 0x40) 2
    (if value / 262144 + 0xF0 = 0xF0 then 0x90 else 0x80)
    (if value / 262144 + 0xF0 = 0xF4 then 0x8F else 0xBF)
    (UInt8.ofNat (value / 64 % 0x40 + 0x80) :: UInt8.ofNat (value % 0x40 + 0x80) :: bytes) (by omega)
    (by split <;> simp only [UInt8.reduceToNat] <;> omega)
    (by split <;> simp only [UInt8.reduceToNat] <;> omega)
  rw [hsecond, continuation_any _ (by omega), continuation_any bytes (by omega), continuation]
  congr 2
  omega

/-! ## Texts -/

theorem decodeParts_cons {byte : UInt8} {bytes rest : List UInt8} {code : Nat}
    (hone : decodeOne byte bytes = (some code, rest)) :
    decodeParts (byte :: bytes) = some (Char.ofNat code) :: decodeParts rest := by
  rw [decodeParts]
  split
  next other after hread =>
    rw [hone] at hread
    cases hread
    rfl

/-- A character is read back, and reading goes on behind it. -/
theorem decodeParts_utf8EncodeChar (c : Char) (bytes : List UInt8) :
    decodeParts (String.utf8EncodeChar c ++ bytes) = some c :: decodeParts bytes := by
  have hback : Char.ofNat c.val.toNat = c := Char.ofNat_toNat c
  have hvalid : c.val.toNat < 0xD800 ∨ 0xDFFF < c.val.toNat ∧ c.val.toNat < 0x110000 := c.valid
  rw [String.utf8EncodeChar]
  split
  · next hsmall =>
    rw [List.singleton_append, decodeParts_cons (decodeOne_one bytes (by omega)), hback]
  · split
    · next hlow hhigh =>
      rw [List.cons_append, List.singleton_append,
        decodeParts_cons (decodeOne_two bytes (by omega) (by omega)), hback]
    · split
      · next hlow hhigh =>
        rw [List.cons_append, List.cons_append, List.singleton_append,
          decodeParts_cons (decodeOne_three bytes (by omega) (by omega) (by omega)), hback]
      · next hlow =>
        rw [List.cons_append, List.cons_append, List.cons_append, List.singleton_append,
          decodeParts_cons (decodeOne_four bytes (by omega) (by omega)), hback]

theorem decodeParts_utf8 (text : List Char) : decodeParts (utf8 text) = text.map some := by
  induction text with
  | nil => rw [utf8, List.flatMap_nil, decodeParts, List.map_nil]
  | cons c text ih => rw [utf8_cons, decodeParts_utf8EncodeChar, ih, List.map_cons]

/-- A text is read back from its bytes. -/
theorem ofUtf8_utf8 (text : List Char) : ofUtf8 (utf8 text) = text := by
  rw [ofUtf8, decodeParts_utf8, List.map_map]
  exact List.map_id text

end ApiGateway.Text
