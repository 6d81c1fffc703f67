import Dot1x.Base.Sine
import Dot1x.Hash.Standard

/-!
# The constants of the hash

The program writes out one constant for each step. They are said to come from the sine of the number
of the step, as the whole part of a multiple of its absolute value, and they do.
-/

namespace Dot1x.Hash

open Dot1x.Base

/-- The constant of a step, as the standard defines it: steps are counted from one. -/
noncomputable def sine (i : ℕ) : UInt32 := UInt32.ofNat ⌊4294967296 * |Real.sin (i + 1 : ℕ)|⌋₊

/-- What was computed of a sine is far enough from where its constant would be another one. -/
def Certified (i : ℕ) : Prop :=
  let numerator := 2 ^ 60 * (pointPower (i + 1)).2.natAbs
  let denominator := pointDenominator (i + 1)
  (constant i).toNat * 2 ^ 28 * denominator + denominator ≤ numerator ∧
    numerator + denominator < ((constant i).toNat + 1) * 2 ^ 28 * denominator

instance (i : ℕ) : Decidable (Certified i) := inferInstanceAs (Decidable (_ ∧ _))

/-- The bounds hold for all the constants, by calculation. -/
private theorem certified_all : ∀ i < 64, Certified i := by decide +kernel

/-- A constant that is certified is the one of the standard. -/
theorem Certified.floor_eq {i : ℕ} (hi : i < 64) (h : Certified i) :
    ⌊4294967296 * |Real.sin (i + 1 : ℕ)|⌋₊ = (constant i).toNat := by
  obtain ⟨hbelow, habove⟩ := h
  have hpos : (0 : ℝ) < pointDenominator (i + 1) :=
    Nat.cast_pos.mpr (Nat.pow_pos (Nat.factorial_pos seriesTerms))
  have hnear := (abs_abs_sub_abs_le _ _).trans (abs_sin_sub_le (n := i + 1) (by omega))
  rw [abs_div, abs_of_pos hpos, abs_le] at hnear
  generalize hq : |((pointPower (i + 1)).2 : ℝ)| / pointDenominator (i + 1) = q at hnear
  have hnumerator : ((pointPower (i + 1)).2.natAbs : ℝ) = q * pointDenominator (i + 1) := by
    rw [← hq, div_mul_cancel₀ _ hpos.ne', Nat.cast_natAbs, Int.cast_abs]
  have hlow : ((constant i).toNat : ℝ) * 2 ^ 28 + 1 ≤ 2 ^ 60 * q := by
    have hcast : ((constant i).toNat : ℝ) * 2 ^ 28 * pointDenominator (i + 1) +
        pointDenominator (i + 1) ≤ 2 ^ 60 * (q * pointDenominator (i + 1)) := by
      rw [← hnumerator]
      exact_mod_cast hbelow
    refine le_of_mul_le_mul_right ?_ hpos
    linarith
  have hhigh : 2 ^ 60 * q + 1 < (((constant i).toNat : ℝ) + 1) * 2 ^ 28 := by
    have hcast : 2 ^ 60 * (q * pointDenominator (i + 1)) + (pointDenominator (i + 1) : ℝ) <
        (((constant i).toNat : ℝ) + 1) * 2 ^ 28 * pointDenominator (i + 1) := by
      rw [← hnumerator]
      exact_mod_cast habove
    refine lt_of_mul_lt_mul_right ?_ hpos.le
    linarith
  rw [Nat.floor_eq_iff (by positivity)]
  obtain ⟨hleft, hright⟩ := hnear
  constructor
  · linarith
  · linarith

/-- The hash of the program has the constants of the standard. -/
theorem digest_constant : digest constant = digest sine := by
  apply digest_congr
  intro i hi
  rw [sine, (certified_all i hi).floor_eq hi, UInt32.ofNat_toNat]

end Dot1x.Hash
