import ApiGateway.Proofs.Text.Utf8

/-!
# Bytes that are read as text

Bytes are read as text only if they are what the text is written with.  The bounds on the bytes that follow
the first leave out longer spellings of a character, and code points that are no character.
-/

namespace ApiGateway.Text

theorem val_ofNat {code : Nat} (hvalid : code.isValidChar) : (Char.ofNat code).val.toNat = code := by
  rw [Char.ofNat, dif_pos hvalid]
  rfl

/-! ## One character -/

/-- A further byte that is read lies within its bounds and adds six bits. -/
theorem continuation_eq_some {value count code : Nat} {low high : UInt8} {bytes rest : List UInt8}
    (hlow : 0x80 ≤ low.toNat)
    (hread : continuation value low high (count + 1) bytes = (some code, rest)) :
    ∃ bits later, bytes = UInt8.ofNat (bits + 0x80) :: later ∧ low.toNat ≤ bits + 0x80 ∧
      bits + 0x80 ≤ high.toNat ∧
      continuation (value * 64 + bits) 0x80 0xBF count later = (some code, rest) := by
  cases bytes with
  | nil => cases hread
  | cons byte later =>
      rw [continuation] at hread
      split at hread
      · next hinside =>
        rw [UInt8.le_iff_toNat_le, UInt8.le_iff_toNat_le] at hinside
        have hback : byte.toNat - 0x80 + 0x80 = byte.toNat := by omega
        refine ⟨byte.toNat - 0x80, later, ?_, ?_, ?_, hread⟩
        · rw [hback, UInt8.ofNat_toNat]
        · omega
        · omega
      · cases hread

theorem continuation_any_eq_some {value count code : Nat} {bytes rest : List UInt8}
    (hread : continuation value 0x80 0xBF (count + 1) bytes = (some code, rest)) :
    ∃ bits later, bytes = UInt8.ofNat (bits + 0x80) :: later ∧ bits < 64 ∧
      continuation (value * 64 + bits) 0x80 0xBF count later = (some code, rest) := by
  obtain ⟨bits, later, hbytes, -, hhigh, hrest⟩ := continuation_eq_some (by decide) hread
  simp only [UInt8.reduceToNat] at hhigh
  exact ⟨bits, later, hbytes, by omega, hrest⟩

/-- The two bounds on the first further byte, which leave out what is written shorter and what is no
character. -/
theorem continuation_bounded_eq_some {value count code : Nat} {byte exceptLow exceptHigh low high : UInt8}
    {bytes rest : List UInt8} (hlow : 0x80 ≤ low.toNat) (hhigh : high.toNat ≤ 0xBF)
    (hread : continuation value (if byte = exceptLow then low else 0x80)
      (if byte = exceptHigh then high else 0xBF) (count + 1) bytes = (some code, rest)) :
    ∃ bits later, bytes = UInt8.ofNat (bits + 0x80) :: later ∧ bits < 64 ∧
      (byte.toNat = exceptLow.toNat → low.toNat ≤ bits + 0x80) ∧
      (byte.toNat = exceptHigh.toNat → bits + 0x80 ≤ high.toNat) ∧
      continuation (value * 64 + bits) 0x80 0xBF count later = (some code, rest) := by
  obtain ⟨bits, later, hbytes, hleast, hmost, hrest⟩ := continuation_eq_some (by split <;> simp [hlow]) hread
  refine ⟨bits, later, hbytes, ?_, fun hsame => ?_, fun hsame => ?_, hrest⟩
  · split at hmost
    · omega
    · simp only [UInt8.reduceToNat] at hmost
      omega
  · rwa [if_pos (UInt8.toNat_inj.mp hsame)] at hleast
  · rwa [if_pos (UInt8.toNat_inj.mp hsame)] at hmost

/-- The bytes of a character that is read are those it is written with. -/
theorem decodeOne_eq_some {byte : UInt8} {bytes rest : List UInt8} {code : Nat}
    (hread : decodeOne byte bytes = (some code, rest)) :
    code.isValidChar ∧ byte :: bytes = String.utf8EncodeChar (Char.ofNat code) ++ rest := by
  have htop := byte.toNat_lt
  simp only [decodeOne, UInt8.lt_iff_toNat_lt, UInt8.reduceToNat] at hread
  split at hread
  · next hone =>
    cases hread
    have hvalid : byte.toNat.isValidChar := Or.inl (by omega)
    refine ⟨hvalid, ?_⟩
    rw [String.utf8EncodeChar, val_ofNat hvalid, if_pos (by omega), UInt8.ofNat_toNat,
      List.singleton_append]
  split at hread
  · cases hread
  split at hread
  · next hlow htwo =>
    obtain ⟨bits, later, rfl, hbits, hend⟩ := continuation_any_eq_some hread
    cases hend
    have hvalid : ((byte.toNat - 0xC0) * 64 + bits).isValidChar := Or.inl (by omega)
    refine ⟨hvalid, ?_⟩
    rw [String.utf8EncodeChar, val_ofNat hvalid, if_neg (by omega), if_pos (by omega),
      (by omega : ((byte.toNat - 0xC0) * 64 + bits) / 64 % 0x20 + 0xC0 = byte.toNat), UInt8.ofNat_toNat,
      (by omega : ((byte.toNat - 0xC0) * 64 + bits) % 0x40 = bits)]
    rfl
  split at hread
  · next hlow hthree =>
    obtain ⟨bits, later, rfl, hbits, hfirst, hlast, hrest⟩ :=
      continuation_bounded_eq_some (by decide) (by decide) hread
    obtain ⟨bits', later, rfl, hbits', hend⟩ := continuation_any_eq_some hrest
    cases hend
    simp only [UInt8.reduceToNat] at hfirst hlast
    have hvalid : (((byte.toNat - 0xE0) * 64 + bits) * 64 + bits').isValidChar := by
      show _ ∨ _
      omega
    refine ⟨hvalid, ?_⟩
    rw [String.utf8EncodeChar, val_ofNat hvalid, if_neg (by omega), if_neg (by omega),
      if_pos (by omega),
      (by omega : (((byte.toNat - 0xE0) * 64 + bits) * 64 + bits') / 4096 % 0x10 + 0xE0 = byte.toNat),
      UInt8.ofNat_toNat,
      (by omega : (((byte.toNat - 0xE0) * 64 + bits) * 64 + bits') / 64 % 0x40 = bits),
      (by omega : (((byte.toNat - 0xE0) * 64 + bits) * 64 + bits') % 0x40 = bits')]
    rfl
  split at hread
  · next hlow hfour =>
    obtain ⟨bits, later, rfl, hbits, hfirst, hlast, hrest⟩ :=
      continuation_bounded_eq_some (by decide) (by decide) hread
    obtain ⟨bits', later, rfl, hbits', hrest'⟩ := continuation_any_eq_some hrest
    obtain ⟨bits'', later, rfl, hbits'', hend⟩ := continuation_any_eq_some hrest'
    cases hend
    simp only [UInt8.reduceToNat] at hfirst hlast
    have hvalid : ((((byte.toNat - 0xF0) * 64 + bits) * 64 + bits') * 64 + bits'').isValidChar := by
      show _ ∨ _
      omega
    refine ⟨hvalid, ?_⟩
    rw [String.utf8EncodeChar, val_ofNat hvalid, if_neg (by omega), if_neg (by omega),
      if_neg (by omega),
      (by omega : ((((byte.toNat - 0xF0) * 64 + bits) * 64 + bits') * 64 + bits'') / 262144 % 0x08 + 0xF0 =
        byte.toNat), UInt8.ofNat_toNat,
      (by omega : ((((byte.toNat - 0xF0) * 64 + bits) * 64 + bits') * 64 + bits'') / 4096 % 0x40 = bits),
      (by omega : ((((byte.toNat - 0xF0) * 64 + bits) * 64 + bits') * 64 + bits'') / 64 % 0x40 = bits'),
      (by omega : ((((byte.toNat - 0xF0) * 64 + bits) * 64 + bits') * 64 + bits'') % 0x40 = bits'')]
    rfl
  · cases hread

/-! ## Texts -/

/-- A text is read back from its bytes. -/
theorem ofUtf8?_utf8 (text : List Char) : ofUtf8? (utf8 text) = some text := by
  rw [ofUtf8?, decodeParts_utf8]
  induction text with
  | nil => rfl
  | cons c text ih => rw [List.map_cons, List.mapM_cons, ih]; rfl

/-- Bytes are read only if they are those that the text is written with. -/
theorem utf8_of_ofUtf8? {bytes : List UInt8} {text : List Char} (hread : ofUtf8? bytes = some text) :
    utf8 text = bytes := by
  rw [ofUtf8?] at hread
  fun_induction decodeParts bytes generalizing text with
  | case1 =>
      cases hread
      rfl
  | case2 byte bytes code rest hone ih =>
      simp only [List.mapM_cons, Option.bind_eq_bind, Option.bind_eq_some_iff, id_eq,
        Option.map_eq_some_iff] at hread
      obtain ⟨c, ⟨known, rfl, rfl⟩, later, hlater, htext⟩ := hread
      cases htext
      rw [utf8_cons, ih hlater]
      exact (decodeOne_eq_some hone).2.symm

theorem ofUtf8?_eq_some_iff {bytes : List UInt8} {text : List Char} :
    ofUtf8? bytes = some text ↔ bytes = utf8 text := by
  constructor
  · exact fun hread => (utf8_of_ofUtf8? hread).symm
  · rintro rfl
    exact ofUtf8?_utf8 text

end ApiGateway.Text
