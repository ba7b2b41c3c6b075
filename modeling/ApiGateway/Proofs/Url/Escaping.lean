import ApiGateway.Proofs.Text.Percent
import ApiGateway.Url

/-!
# Escaped texts

A text is escaped character by character: a character that is kept stands for itself, and any other becomes
bytes written as a percent sign and two digits.  Percent signs and digits are kept, so what is escaped once
stays as it is.
-/

namespace ApiGateway

namespace Text

/-- All bytes of a character above 127 are above 127 as well. -/
theorem le_of_mem_utf8EncodeChar {c : Char} (hhigh : 128 ≤ c.toNat) {byte : UInt8}
    (hbyte : byte ∈ String.utf8EncodeChar c) : 128 ≤ byte.toNat := by
  have hlead : ∀ bits mark : Nat, bits + mark < 256 → 128 ≤ mark →
      128 ≤ (UInt8.ofNat (bits + mark)).toNat := by
    intro bits mark hbound hmark
    rw [toNat_ofNat hbound]
    omega
  have hvalue : ¬ c.val.toNat ≤ 127 := Nat.not_le_of_lt hhigh
  rw [String.utf8EncodeChar, if_neg hvalue] at hbyte
  split at hbyte
  · simp only [List.mem_cons, List.not_mem_nil, or_false] at hbyte
    rcases hbyte with rfl | rfl <;> exact hlead _ _ (by omega) (by omega)
  · split at hbyte
    · simp only [List.mem_cons, List.not_mem_nil, or_false] at hbyte
      rcases hbyte with rfl | rfl | rfl <;> exact hlead _ _ (by omega) (by omega)
    · simp only [List.mem_cons, List.not_mem_nil, or_false] at hbyte
      rcases hbyte with rfl | rfl | rfl | rfl <;> exact hlead _ _ (by omega) (by omega)

/-- What is checked of each character of a text. -/
theorem forall_mem_of_all {P : Char → Prop} [DecidablePred P] {text : List Char}
    (hall : text.all (fun c => decide (P c)) = true) : ∀ c ∈ text, P c := fun c hc =>
  of_decide_eq_true (List.all_eq_true.mp hall c hc)

/-- What is true of each of the ASCII characters. -/
theorem of_ascii {P : Char → Prop} (hall : ∀ n : Fin 128, P (Char.ofNat n)) {c : Char}
    (hascii : c.toNat < 128) : P c := by
  have hchar := hall ⟨c.toNat, hascii⟩
  rwa [Char.ofNat_toNat] at hchar

end Text

namespace Url

open ApiGateway.Text (utf8 utf8_append utf8EncodeChar_of_ascii)
open ApiGateway.Text.Percent (digit escape encodeBytes)

variable {kept : UInt8 → Bool}

theorem escapeWith_append (kept : UInt8 → Bool) (left right : List Char) :
    escapeWith kept (left ++ right) = escapeWith kept left ++ escapeWith kept right := by
  rw [escapeWith, utf8_append]
  exact List.flatMap_append

theorem escapeWith_cons (kept : UInt8 → Bool) (c : Char) (text : List Char) :
    escapeWith kept (c :: text) = escapeWith kept [c] ++ escapeWith kept text :=
  escapeWith_append kept [c] text

/-- A text is escaped character by character. -/
theorem escapeWith_eq_flatMap (kept : UInt8 → Bool) (text : List Char) :
    escapeWith kept text = text.flatMap fun c => escapeWith kept [c] := by
  induction text with
  | nil => rfl
  | cons c text ih => rw [escapeWith_cons, ih, List.flatMap_cons]

def IsKept (kept : UInt8 → Bool) (c : Char) : Prop :=
  c.toNat < 128 ∧ kept (UInt8.ofNat c.toNat) = true

instance (kept : UInt8 → Bool) (c : Char) : Decidable (IsKept kept c) :=
  inferInstanceAs (Decidable (_ ∧ _))

theorem escapeWith_of_isKept {c : Char} (hkept : IsKept kept c) : escapeWith kept [c] = [c] := by
  obtain ⟨hascii, hkept⟩ := hkept
  have hbyte : (UInt8.ofNat c.toNat).toNat = c.toNat := Text.toNat_ofNat (by omega)
  rw [escapeWith, utf8, List.flatMap_singleton, utf8EncodeChar_of_ascii hascii, encodeBytes,
    List.flatMap_singleton, if_pos hkept, hbyte, Char.ofNat_toNat]

def KeepsAscii (kept : UInt8 → Bool) : Prop :=
  ∀ byte, kept byte = true → 32 ≤ byte.toNat ∧ byte.toNat < 127

theorem keepsAscii_keptBut (excluded : String) : KeepsAscii (keptBut excluded) := by
  intro byte hkept
  simp only [keptBut, isPrintable, Bool.and_eq_true, decide_eq_true_eq, UInt8.le_iff_toNat_le,
    UInt8.lt_iff_toNat_lt, UInt8.reduceToNat] at hkept
  exact hkept.1

theorem utf8EncodeChar_ne_nil (c : Char) : String.utf8EncodeChar c ≠ [] := by
  rw [String.utf8EncodeChar]
  split
  · exact List.cons_ne_nil _ _
  · split
    · exact List.cons_ne_nil _ _
    · split <;> exact List.cons_ne_nil _ _

/-- A character that is not kept becomes bytes that are not kept. -/
theorem escapeWith_of_not_isKept (hascii : KeepsAscii kept) {c : Char} (hnot : ¬ IsKept kept c) :
    (∀ byte ∈ String.utf8EncodeChar c, kept byte = false) ∧
      escapeWith kept [c] = (String.utf8EncodeChar c).flatMap escape := by
  have hbytes : ∀ byte ∈ String.utf8EncodeChar c, kept byte = false := by
    intro byte hbyte
    by_cases hhigh : 128 ≤ c.toNat
    · have hbound := Text.le_of_mem_utf8EncodeChar hhigh hbyte
      exact Bool.eq_false_iff.mpr fun hkept => by
        have := (hascii byte hkept).2
        omega
    · have hlow : c.toNat < 128 := by omega
      rw [utf8EncodeChar_of_ascii hlow, List.mem_singleton] at hbyte
      subst hbyte
      exact Bool.eq_false_iff.mpr fun hkept => hnot ⟨hlow, hkept⟩
  refine ⟨hbytes, ?_⟩
  rw [escapeWith, utf8, List.flatMap_singleton, encodeBytes, List.flatMap_def, List.flatMap_def]
  refine congrArg List.flatten (List.map_congr_left fun byte hbyte => ?_)
  rw [hbytes byte hbyte, if_neg Bool.false_ne_true]

def IsDigit (c : Char) : Prop :=
  c ∈ "0123456789ABCDEF".toList

theorem isDigit_digit {value : UInt8} (hvalue : value < 16) : IsDigit (digit value) := by
  have hall : ∀ n : Fin 16, IsDigit (digit (UInt8.ofNat n)) := by
    unfold IsDigit
    decide
  exact Text.Percent.of_lt_sixteen (P := fun value => IsDigit (digit value)) hall hvalue

/-- An escaped text has only what is kept, percent signs and digits. -/
theorem mem_escapeWith (hascii : KeepsAscii kept) {text : List Char} {c : Char}
    (hmem : c ∈ escapeWith kept text) : c ∈ text ∧ IsKept kept c ∨ c = '%' ∨ IsDigit c := by
  rw [escapeWith_eq_flatMap, List.mem_flatMap] at hmem
  obtain ⟨d, hd, hmem⟩ := hmem
  by_cases hkept : IsKept kept d
  · rw [escapeWith_of_isKept hkept, List.mem_singleton] at hmem
    exact Or.inl (hmem ▸ ⟨hd, hkept⟩)
  · rw [(escapeWith_of_not_isKept hascii hkept).2, List.mem_flatMap] at hmem
    obtain ⟨byte, -, hbyte⟩ := hmem
    obtain ⟨hhigh, hlow, -⟩ := Text.Percent.halves byte
    simp only [escape, List.mem_cons, List.not_mem_nil, or_false] at hbyte
    rcases hbyte with rfl | rfl | rfl
    · exact Or.inr (Or.inl rfl)
    · exact Or.inr (Or.inr (isDigit_digit hhigh))
    · exact Or.inr (Or.inr (isDigit_digit hlow))

structure KeepsEscapes (kept : UInt8 → Bool) : Prop where
  ascii : KeepsAscii kept
  percent : IsKept kept '%'
  digits : ∀ c ∈ "0123456789ABCDEF".toList, IsKept kept c

theorem keepsEscapes_keptInPath : KeepsEscapes keptInPath where
  ascii := keepsAscii_keptBut _
  percent := by decide
  digits := Text.forall_mem_of_all (by decide)

theorem keepsEscapes_keptInUser : KeepsEscapes keptInUser where
  ascii := keepsAscii_keptBut _
  percent := by decide
  digits := Text.forall_mem_of_all (by decide)

theorem KeepsEscapes.isKept_of_mem (hkeeps : KeepsEscapes kept) {text : List Char} {c : Char}
    (hmem : c ∈ escapeWith kept text) : IsKept kept c := by
  rcases mem_escapeWith hkeeps.ascii hmem with ⟨-, hkept⟩ | rfl | hdigit
  · exact hkept
  · exact hkeeps.percent
  · exact hkeeps.digits c hdigit

/-- What is kept stays as it is. -/
theorem escapeWith_eq_self {text : List Char} (hkept : ∀ c ∈ text, IsKept kept c) :
    escapeWith kept text = text := by
  induction text with
  | nil => rfl
  | cons c text ih =>
      rw [escapeWith_cons, escapeWith_of_isKept (hkept c (.head text)),
        ih fun d hd => hkept d (.tail c hd)]
      rfl

/-- The escapes of a character. -/
theorem length_flatMap_escape (c : Char) : 3 ≤ ((String.utf8EncodeChar c).flatMap escape).length := by
  cases hbytes : String.utf8EncodeChar c with
  | nil => exact absurd hbytes (utf8EncodeChar_ne_nil c)
  | cons byte bytes =>
      rw [List.flatMap_cons, List.length_append, escape]
      simp only [List.length_cons, List.length_nil]
      omega

/-- Nothing escapes to nothing. -/
theorem length_escapeWith (hascii : KeepsAscii kept) (c : Char) : 1 ≤ (escapeWith kept [c]).length := by
  by_cases hkept : IsKept kept c
  · rw [escapeWith_of_isKept hkept]
    exact Nat.le_refl 1
  · have hlength := length_flatMap_escape c
    rw [(escapeWith_of_not_isKept hascii hkept).2]
    omega

/-! ## Some characters escaped -/

/-- The second text is the first with some of its characters escaped. -/
inductive EscapesTo : List Char → List Char → Prop where
  | nil : EscapesTo [] []
  | keep (c : Char) {text escaped : List Char} (hrest : EscapesTo text escaped) :
      EscapesTo (c :: text) (c :: escaped)
  | escape (c : Char) {text escaped : List Char} (hrest : EscapesTo text escaped) :
      EscapesTo (c :: text) ((String.utf8EncodeChar c).flatMap escape ++ escaped)

theorem escapesTo_escapeWith (hascii : KeepsAscii kept) (text : List Char) :
    EscapesTo text (escapeWith kept text) := by
  induction text with
  | nil => exact .nil
  | cons c text ih =>
      rw [escapeWith_cons]
      by_cases hkept : IsKept kept c
      · rw [escapeWith_of_isKept hkept]
        exact .keep c ih
      · rw [(escapeWith_of_not_isKept hascii hkept).2]
        exact .escape c ih

/-- Of the escaped texts that have only what is kept, escaping what is not kept gives the shortest.  One that
is as short has all characters that are kept. -/
theorem EscapesTo.length_le (hascii : KeepsAscii kept) {text escaped : List Char}
    (hescapes : EscapesTo text escaped) (hall : ∀ c ∈ escaped, IsKept kept c) :
    (escapeWith kept text).length ≤ escaped.length ∧
      (escaped.length ≤ (escapeWith kept text).length → ∀ c ∈ text, IsKept kept c → c ∈ escaped) := by
  induction hescapes with
  | nil => exact ⟨Nat.le_refl 0, fun _ c hc => nomatch hc⟩
  | @keep c text escaped hrest ih =>
      obtain ⟨hle, hshort⟩ := ih fun d hd => hall d (.tail c hd)
      rw [escapeWith_cons, escapeWith_of_isKept (hall c (.head escaped)), List.singleton_append,
        List.length_cons, List.length_cons]
      refine ⟨Nat.succ_le_succ hle, fun hlength d hd hkept => ?_⟩
      rcases List.mem_cons.mp hd with rfl | hd
      · exact .head escaped
      · exact .tail c (hshort (Nat.le_of_succ_le_succ hlength) d hd hkept)
  | @escape c text escaped hrest ih =>
      obtain ⟨hle, hshort⟩ := ih fun d hd => hall d (List.mem_append_right _ hd)
      have hlength := length_flatMap_escape c
      rw [escapeWith_cons, List.length_append, List.length_append]
      by_cases hkept : IsKept kept c
      · rw [escapeWith_of_isKept hkept, List.length_singleton]
        exact ⟨by omega, fun hless => by omega⟩
      · rw [(escapeWith_of_not_isKept hascii hkept).2]
        refine ⟨by omega, fun hless d hd hdkept => ?_⟩
        rcases List.mem_cons.mp hd with rfl | hd
        · exact absurd hdkept hkept
        · exact List.mem_append_right _ (hshort (by omega) d hd hdkept)

end Url

end ApiGateway
