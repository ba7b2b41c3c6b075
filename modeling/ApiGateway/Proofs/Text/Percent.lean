import ApiGateway.Proofs.Text.Utf8
import ApiGateway.Text.Percent

/-!
# Resolving escapes

What escaping writes is ASCII, has none of the marks that part a query, and is resolved to the bytes
that it was written for.
-/

namespace ApiGateway.Text

/-- A text of ASCII characters has one byte for each. -/
theorem utf8_of_ascii {text : List Char} (hascii : ∀ c ∈ text, c.toNat < 128) :
    utf8 text = text.map fun c => UInt8.ofNat c.toNat := by
  induction text with
  | nil => rfl
  | cons c text ih =>
      rw [utf8_cons, utf8EncodeChar_of_ascii (hascii c (.head text)),
        ih fun other hother => hascii other (.tail c hother)]
      rfl

namespace Percent

/-! ## One byte -/

theorem decode_cons_of_ne {byte : UInt8} (rest : List UInt8) (hne : byte ≠ 37) :
    decode (byte :: rest) = byte :: decode rest := by
  rw [decode]
  intro a b after heq
  exact absurd heq hne

theorem decode_digits {high low : UInt8} {a b : UInt8} (rest : List UInt8)
    (hhigh : digitValue? a = some high) (hlow : digitValue? b = some low) :
    decode (37 :: a :: b :: rest) = (high * 16 + low) :: decode rest := by
  rw [decode]
  simp only [hhigh, hlow]

/-- What is true of each value of a digit. -/
theorem of_lt_sixteen {P : UInt8 → Prop} (hall : ∀ n : Fin 16, P (UInt8.ofNat n)) {value : UInt8}
    (hvalue : value < 16) : P value := by
  have hsmall : value.toNat < 16 := by simpa [UInt8.lt_iff_toNat_lt] using hvalue
  have hdigit := hall ⟨value.toNat, hsmall⟩
  rwa [UInt8.ofNat_toNat] at hdigit

/-- A digit that is written is read as its value. -/
theorem digitValue?_digit (value : UInt8) (hvalue : value < 16) :
    digitValue? (UInt8.ofNat (digit value).toNat) = some value :=
  of_lt_sixteen (P := fun value => digitValue? (UInt8.ofNat (digit value).toNat) = some value)
    (by decide) hvalue

theorem isUnreserved_digit (value : UInt8) (hvalue : value < 16) :
    (digit value).toNat < 128 ∧ isUnreserved (UInt8.ofNat (digit value).toNat) = true :=
  of_lt_sixteen (P := fun value =>
    (digit value).toNat < 128 ∧ isUnreserved (UInt8.ofNat (digit value).toNat) = true) (by decide) hvalue

/-- A byte is put together from its two digits. -/
theorem halves (byte : UInt8) :
    byte / 16 < 16 ∧ byte % 16 < 16 ∧ byte / 16 * 16 + byte % 16 = byte := by
  have hbound := byte.toNat_lt
  have hsixteen : (16 : UInt8).toNat = 16 := rfl
  refine ⟨?_, ?_, ?_⟩
  · rw [UInt8.lt_iff_toNat_lt, UInt8.toNat_div, hsixteen]
    omega
  · rw [UInt8.lt_iff_toNat_lt, UInt8.toNat_mod, hsixteen]
    omega
  · rw [← UInt8.toNat_inj, UInt8.toNat_add, UInt8.toNat_mul, UInt8.toNat_div, UInt8.toNat_mod,
      hsixteen]
    omega

/-! ## Escaped texts -/

def IsEscaped (c : Char) : Prop :=
  c = '%' ∨ c.toNat < 128 ∧ isUnreserved (UInt8.ofNat c.toNat) = true

theorem isEscaped_of_mem_escape {byte : UInt8} {c : Char} (hmem : c ∈ escape byte) : IsEscaped c := by
  obtain ⟨hhigh, hlow, -⟩ := halves byte
  simp only [escape, List.mem_cons, List.not_mem_nil, or_false] at hmem
  rcases hmem with rfl | rfl | rfl
  · exact Or.inl rfl
  · exact Or.inr (isUnreserved_digit _ hhigh)
  · exact Or.inr (isUnreserved_digit _ hlow)

/-- Unreserved bytes are ASCII. -/
theorem lt_of_isUnreserved {byte : UInt8} (hfree : isUnreserved byte = true) :
    byte.toNat < 128 ∧ byte ≠ 37 := by
  simp only [isUnreserved, Bool.or_eq_true, Bool.and_eq_true, decide_eq_true_eq, beq_iff_eq,
    UInt8.le_iff_toNat_le, ne_eq, ← UInt8.toNat_inj, UInt8.reduceToNat] at hfree ⊢
  omega

/-- A byte that stands for itself, as the character it is. -/
theorem toNat_ofNat_toNat {byte : UInt8} (hascii : byte.toNat < 128) :
    (Char.ofNat byte.toNat).toNat = byte.toNat := by
  have hvalid : byte.toNat.isValidChar := Or.inl (by omega)
  rw [Char.ofNat, dif_pos hvalid]
  rfl

theorem isEscaped_of_mem_encode {text : List Char} {c : Char} (hmem : c ∈ encode text) :
    IsEscaped c := by
  rw [encode, encodeBytes, List.mem_flatMap] at hmem
  obtain ⟨byte, -, hbyte⟩ := hmem
  split at hbyte
  · next hfree =>
    rw [List.mem_singleton] at hbyte
    subst hbyte
    have hascii := (lt_of_isUnreserved hfree).1
    refine Or.inr ?_
    rw [toNat_ofNat_toNat hascii, UInt8.ofNat_toNat]
    exact ⟨hascii, hfree⟩
  · exact isEscaped_of_mem_escape hbyte

theorem IsEscaped.lt {c : Char} (hescaped : IsEscaped c) : c.toNat < 128 := by
  rcases hescaped with rfl | ⟨hascii, -⟩
  · decide
  · exact hascii

/-- Resolving gives back the bytes. -/
theorem decode_encodeBytes (bytes rest : List UInt8) :
    decode (utf8 (encodeBytes isUnreserved bytes) ++ rest) = bytes ++ decode rest := by
  induction bytes with
  | nil => rfl
  | cons byte bytes ih =>
      rw [encodeBytes, List.flatMap_cons, utf8_append, List.append_assoc]
      split
      · next hfree =>
        obtain ⟨hascii, hne⟩ := lt_of_isUnreserved hfree
        have hchar := toNat_ofNat_toNat hascii
        rw [utf8_of_ascii (by simpa [hchar] using hascii), List.map_singleton, hchar,
          UInt8.ofNat_toNat, List.singleton_append, decode_cons_of_ne _ hne]
        exact congrArg (byte :: ·) ih
      · obtain ⟨hhigh, hlow, hwhole⟩ := halves byte
        rw [utf8_of_ascii fun c hc => (isEscaped_of_mem_escape hc).lt]
        refine (decode_digits _ (digitValue?_digit _ hhigh) (digitValue?_digit _ hlow)).trans ?_
        rw [hwhole]
        exact congrArg (byte :: ·) ih

theorem decode_encode (text : List Char) : decode (utf8 (encode text)) = utf8 text := by
  have hdecode := decode_encodeBytes (utf8 text) []
  rwa [List.append_nil, decode, List.append_nil] at hdecode

end Percent

end ApiGateway.Text
