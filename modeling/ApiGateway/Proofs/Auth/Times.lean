import ApiGateway.Auth.Token
import ApiGateway.Proofs.Json.Reading

/-!
# Points in time

A number is a point in time if it is natural and has 64 bits, or if it is a fraction within the same range,
which counts as the natural number that is nearest to it.
-/

namespace ApiGateway

namespace Decimal.Binary64

def ratio (number : Binary64) : Nat × Nat :=
  if 0 ≤ number.magnitude.2 then (number.magnitude.1 * Nat.pow 2 number.magnitude.2.toNat, 1)
  else (number.magnitude.1, Nat.pow 2 (-number.magnitude.2).toNat)

end Decimal.Binary64

namespace Auth.Token

/-- A natural number of 64 bits is a time.  A fraction below the same limit that is not negative stands for
the nearest natural number, a half for the next. -/
inductive IsTime : Json → Nat → Prop where
  | natural {value : Nat} (hvalue : value < Nat.pow 2 64) : IsTime (.natural value) value
  | fraction {value : Decimal.Binary64} {seconds : Nat} (hfinite : value.isFinite = true)
      (hsign : value.isNegative = true → value.ratio.1 = 0)
      (hrange : value.ratio.1 < Nat.pow 2 64 * value.ratio.2)
      (hleast : 2 * seconds * value.ratio.2 ≤ 2 * value.ratio.1 + value.ratio.2)
      (hmost : 2 * value.ratio.1 < (2 * seconds + 1) * value.ratio.2) : IsTime (.fraction value) seconds

theorem halves_eq_iff {numerator denominator seconds : Nat} (hpositive : 0 < denominator) :
    (2 * numerator / denominator + 1) / 2 = seconds ↔
      2 * seconds * denominator ≤ 2 * numerator + denominator ∧
        2 * numerator < (2 * seconds + 1) * denominator := by
  have hmost : 2 * numerator / denominator < 2 * seconds + 1 ↔
      2 * numerator < (2 * seconds + 1) * denominator := Nat.div_lt_iff_lt_mul hpositive
  have hleast : 2 * seconds ≤ (2 * numerator + denominator) / denominator ↔
      2 * seconds * denominator ≤ 2 * numerator + denominator := Nat.le_div_iff_mul_le hpositive
  rw [Nat.add_div_right _ hpositive] at hleast
  rw [← hmost, ← hleast]
  omega

theorem ratio_positive (value : Decimal.Binary64) : 0 < value.ratio.2 := by
  rw [Decimal.Binary64.ratio]
  split
  · exact Nat.one_pos
  · exact Nat.pow_pos Nat.two_pos

theorem floor_eq (value : Decimal.Binary64) : value.floor = value.ratio.1 / value.ratio.2 := by
  simp only [Decimal.Binary64.floor, Decimal.Binary64.ratio]
  by_cases hpower : 0 ≤ value.magnitude.2 <;> simp [hpower]

theorem numerator_eq_zero_iff (value : Decimal.Binary64) :
    value.ratio.1 = 0 ↔ value.magnitude.1 = 0 := by
  rw [Decimal.Binary64.ratio]
  split
  · exact Nat.mul_eq_zero.trans (or_iff_left (Nat.ne_of_gt (Nat.pow_pos Nat.two_pos)))
  · exact Iff.rfl

/-- The rounding of a fraction in terms of numerator and denominator. -/
theorem rounded?_eq (value : Decimal.Binary64) :
    rounded? value =
      if value.isFinite = false ∨ value.isNegative = true ∧ value.ratio.1 ≠ 0 then none
      else if value.ratio.1 / value.ratio.2 < Nat.pow 2 64 then
        some ((2 * value.ratio.1 / value.ratio.2 + 1) / 2)
      else none := by
  have hhalves : (if 0 ≤ value.magnitude.2 then 2 * value.magnitude.1 * Nat.pow 2 value.magnitude.2.toNat
      else 2 * value.magnitude.1 / Nat.pow 2 (-value.magnitude.2).toNat) =
        2 * value.ratio.1 / value.ratio.2 := by
    simp only [Decimal.Binary64.ratio]
    by_cases hpower : 0 ≤ value.magnitude.2
    · simp [hpower, Nat.mul_assoc]
    · simp [hpower]
  simp only [rounded?, hhalves, Bool.not_eq_true', ne_eq, floor_eq, numerator_eq_zero_iff]

theorem rounded?_eq_some_iff {value : Decimal.Binary64} {seconds : Nat} :
    rounded? value = some seconds ↔ IsTime (.fraction value) seconds := by
  rw [rounded?_eq]
  have hrange := Nat.div_lt_iff_lt_mul (y := Nat.pow 2 64) (x := value.ratio.1) (ratio_positive value)
  constructor
  · intro hrounded
    split at hrounded
    · cases hrounded
    · next hplain =>
      split at hrounded
      · next hsmall =>
        obtain ⟨hleast, hmost⟩ := (halves_eq_iff (ratio_positive value)).mp (Option.some.inj hrounded)
        rw [not_or, not_and, Classical.not_not] at hplain
        exact .fraction (by simpa using hplain.1) hplain.2 (hrange.mp hsmall) hleast hmost
      · cases hrounded
  · rintro (⟨_⟩ | ⟨hfinite, hsign, hsmall, hleast, hmost⟩)
    rw [if_neg, if_pos (hrange.mpr hsmall), (halves_eq_iff (ratio_positive value)).mpr ⟨hleast, hmost⟩]
    rw [not_or, not_and, Classical.not_not]
    exact ⟨by simp [hfinite], hsign⟩

theorem time?_eq_some_iff {value : Json} (hbounded : value.IsBounded) {seconds : Nat} :
    time? value = some seconds ↔ IsTime value seconds := by
  cases hbounded with
  | natural hvalue =>
      constructor
      · intro htime
        cases htime
        exact .natural hvalue
      · rintro ⟨-⟩
        rfl
  | fraction value => exact rounded?_eq_some_iff
  | null | bool | negative | string | array | object =>
      constructor
      · intro htime
        cases htime
      · intro htime
        cases htime

end Auth.Token

end ApiGateway
