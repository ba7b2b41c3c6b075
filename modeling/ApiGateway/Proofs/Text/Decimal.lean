/-!
# Decimal digits

The digits in which a number is written: those of its tenth part, and a last one.
-/

namespace ApiGateway.Text

/-- What holds of single digits and of one more digit holds of the digits of every number. -/
theorem decimal_induction {motive : Nat → List Char → Prop}
    (single : ∀ digit, digit < 10 → motive digit [Nat.digitChar digit])
    (longer : ∀ tenth digit, 0 < tenth → digit < 10 → motive tenth (Nat.toDigits 10 tenth) →
      motive (tenth * 10 + digit) (Nat.toDigits 10 tenth ++ [Nat.digitChar digit]))
    (number : Nat) : motive number (Nat.toDigits 10 number) := by
  induction number using Nat.strongRecOn with
  | _ number ih =>
      by_cases hsingle : number < 10
      · rw [Nat.toDigits_of_lt_base hsingle]
        exact single number hsingle
      · have hlonger : 10 ≤ number := Nat.le_of_not_lt hsingle
        have htenth := longer (number / 10) (number % 10) (Nat.div_pos hlonger (by decide))
          (Nat.mod_lt number (by decide)) (ih (number / 10) (by omega))
        rw [Nat.div_add_mod'] at htenth
        rw [Nat.toDigits_of_base_le (by decide) hlonger]
        exact htenth

theorem isDigit_digitChar {digit : Nat} (hdigit : digit < 10) : (Nat.digitChar digit).isDigit = true := by
  rw [Nat.isDigit_digitChar]
  exact decide_eq_true hdigit

/-- Only zero is written with a zero in front. -/
theorem exists_head_toDigits {number : Nat} (hpositive : 0 < number) :
    ∃ first rest, Nat.toDigits 10 number = first :: rest ∧ first ≠ '0' ∧ first.isDigit = true := by
  obtain ⟨first, rest, hdigits, hfirst⟩ :
      ∃ first rest, Nat.toDigits 10 number = first :: rest ∧ first ≠ '0' := by
    induction number using decimal_induction with
    | single digit hdigit => exact ⟨_, [], rfl, mt Nat.digitChar_eq_zero.mp (Nat.ne_of_gt hpositive)⟩
    | longer tenth digit htenth hdigit ih =>
        obtain ⟨first, rest, hdigits, hfirst⟩ := ih htenth
        exact ⟨first, rest ++ [Nat.digitChar digit], by rw [hdigits, List.cons_append], hfirst⟩
  have hmem : first ∈ Nat.toDigits 10 number := hdigits ▸ .head rest
  exact ⟨first, rest, hdigits, hfirst, Nat.isDigit_of_mem_toDigits (by decide) (by decide) hmem⟩

end ApiGateway.Text
