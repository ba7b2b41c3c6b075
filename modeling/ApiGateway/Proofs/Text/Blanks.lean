import ApiGateway.Text.Blank
import ApiGateway.Text.Case
import ApiGateway.Text.Scan
import Mathlib.Data.List.DropRight

/-!
# Trimming and lowering

Characters that are dropped at the ends do not matter there, and a text is trimmed once and for all.
Lowering ASCII letters touches neither blanks nor what is no letter.
-/

namespace ApiGateway.Text

section Trim

variable {drop : Char → Bool}

theorem trimEnd_eq_rdropWhile (text : List Char) : trimEnd drop text = text.rdropWhile drop := rfl

theorem trim_append_left {front : List Char} (hfront : ∀ c ∈ front, drop c = true) (text : List Char) :
    trim drop (front ++ text) = trim drop text := by
  rw [trim, List.dropWhile_append_of_pos hfront, trim]

theorem trim_append_right {back : List Char} (hback : ∀ c ∈ back, drop c = true) (text : List Char) :
    trim drop (text ++ back) = trim drop text := by
  have hnone : back.dropWhile drop = [] := List.dropWhile_eq_nil_iff.mpr hback
  rw [trim, trim, List.dropWhile_append]
  split
  · next hempty =>
    rw [List.isEmpty_iff] at hempty
    rw [hnone, hempty]
  · have hreversed : ∀ c ∈ back.reverse, drop c = true := fun c hc => hback c (List.mem_reverse.mp hc)
    rw [trimEnd, List.reverse_append, List.dropWhile_append_of_pos hreversed, trimEnd]

/-- A trimmed text starts with no character that is dropped. -/
theorem dropWhile_trim (text : List Char) : (trim drop text).dropWhile drop = trim drop text := by
  obtain ⟨back, hback⟩ : trim drop text <+: text.dropWhile drop := by
    rw [trim, trimEnd_eq_rdropWhile]
    exact List.rdropWhile_prefix drop _
  cases htrimmed : trim drop text with
  | nil => rfl
  | cons c rest =>
      have hhead := List.head?_dropWhile_not drop text
      rw [← hback, htrimmed] at hhead
      exact List.dropWhile_cons_of_neg (by simpa using hhead)

theorem trim_trim (text : List Char) : trim drop (trim drop text) = trim drop text := by
  rw [trim, dropWhile_trim, trim, trimEnd_eq_rdropWhile, trimEnd_eq_rdropWhile]
  exact List.rdropWhile_idempotent drop _

end Trim

/-! ## Small letters -/

theorem isUpper_eq (c : Char) : c.isUpper = decide (c.val ≥ 'A'.val ∧ c.val ≤ 'Z'.val) := rfl

theorem isUpper_iff {c : Char} : c.isUpper = true ↔ 65 ≤ c.toNat ∧ c.toNat ≤ 90 := by
  simp [isUpper_eq, UInt32.le_iff_toNat_le, ← Char.toNat_val]

theorem toLower_of_isUpper_eq_false {c : Char} (hsmall : c.isUpper = false) : c.toLower = c := by
  have hnot : ¬ (c.val ≥ 'A'.val ∧ c.val ≤ 'Z'.val) := by simpa [isUpper_eq] using hsmall
  exact dif_neg hnot

theorem toNat_toLower (c : Char) :
    c.toLower.toNat = if 65 ≤ c.toNat ∧ c.toNat ≤ 90 then c.toNat + 32 else c.toNat := by
  by_cases hcapital : c.val ≥ 'A'.val ∧ c.val ≤ 'Z'.val
  · have hbounds : 65 ≤ c.toNat ∧ c.toNat ≤ 90 := isUpper_iff.mp (by simpa [isUpper_eq] using hcapital)
    have hlowered : c.toLower.val = c.val + ('a'.val - 'A'.val) := congrArg Char.val (dif_pos hcapital)
    rw [if_pos hbounds, ← Char.toNat_val, hlowered, UInt32.toNat_add]
    exact Nat.mod_eq_of_lt (by show c.toNat + 32 < _; omega)
  · have hsmall : c.isUpper = false := by simpa [isUpper_eq] using hcapital
    rw [toLower_of_isUpper_eq_false hsmall, if_neg]
    rw [← isUpper_iff, hsmall]
    exact Bool.false_ne_true

theorem isBlank_toLower (c : Char) : isBlank c.toLower = isBlank c := by
  rw [Bool.eq_iff_iff]
  simp only [isBlank, toNat_toLower, Bool.or_eq_true, Bool.and_eq_true, decide_eq_true_eq, beq_iff_eq]
  split <;> omega

theorem isUpper_toLower (c : Char) : c.toLower.isUpper = false := by
  rw [← Bool.not_eq_true, isUpper_iff, toNat_toLower]
  split <;> omega

theorem lowerAscii_eq_self {text : List Char} (hsmall : ∀ c ∈ text, c.isUpper = false) :
    lowerAscii text = text := by
  rw [lowerAscii, List.map_congr_left fun c hc => toLower_of_isUpper_eq_false (hsmall c hc)]
  exact List.map_id text

end ApiGateway.Text
