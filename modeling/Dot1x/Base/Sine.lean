import Mathlib.Analysis.Complex.Exponential
import Mathlib.Analysis.Complex.Trigonometric
import Mathlib.Tactic.LinearCombination

/-!
# The sine of a natural number

The powers of a rational point close to the point of the unit circle at one radian are close to the
points at two radians, three radians and so on. The rational point is a partial sum of the series of
the exponential function, over a common denominator, so that all that is computed are whole numbers.
-/

namespace Dot1x.Base

open Complex (I)

/-- A Gaussian integer as a pair. -/
def gaussian (p : ℤ × ℤ) : ℂ := p.1 + p.2 * I

/-- The imaginary part of a Gaussian integer is its second component. -/
theorem gaussian_im (p : ℤ × ℤ) : (gaussian p).im = p.2 := by
  simp [gaussian]

/-- The product of Gaussian integers. -/
def gaussianMul (p q : ℤ × ℤ) : ℤ × ℤ := (p.1 * q.1 - p.2 * q.2, p.1 * q.2 + p.2 * q.1)

/-- The product of pairs is that of Gaussian integers. -/
theorem gaussian_mul (p q : ℤ × ℤ) : gaussian (gaussianMul p q) = gaussian p * gaussian q := by
  have hI : I * I = -1 := Complex.I_mul_I
  simp only [gaussian, gaussianMul]
  push_cast
  linear_combination (-(p.2 : ℂ) * q.2) * hI

/-- The powers of the imaginary unit. -/
def unitPower : ℕ → ℤ × ℤ
  | 0 => (1, 0)
  | n + 1 => gaussianMul (unitPower n) (0, 1)

/-- The powers of the unit are those of `I`. -/
theorem gaussian_unitPower (n : ℕ) : gaussian (unitPower n) = I ^ n := by
  induction n with
  | zero => simp [unitPower, gaussian]
  | succ n ih => rw [unitPower, gaussian_mul, ih, pow_succ]; simp [gaussian]

/-- The partial sums of the series at the imaginary unit, times a factorial. -/
def seriesSum : ℕ → ℤ × ℤ
  | 0 => (1, 0)
  | n + 1 => ((n + 1) * (seriesSum n).1 + (unitPower (n + 1)).1,
      (n + 1) * (seriesSum n).2 + (unitPower (n + 1)).2)

/-- The sum of the series in integers is the exponential series at `I`, over a common denominator.
-/
theorem gaussian_seriesSum (n : ℕ) : gaussian (seriesSum n) / n.factorial =
    ∑ m ∈ Finset.range (n + 1), I ^ m / m.factorial := by
  induction n with
  | zero => simp [seriesSum, gaussian]
  | succ n ih =>
    have hstep : gaussian (seriesSum (n + 1)) = (n + 1) * gaussian (seriesSum n) + I ^ (n + 1) := by
      rw [← gaussian_unitPower]
      simp only [gaussian, seriesSum]
      push_cast
      ring
    have hfact : ((n.factorial : ℕ) : ℂ) ≠ 0 := Nat.cast_ne_zero.mpr n.factorial_ne_zero
    have hsucc : (n + 1 : ℂ) ≠ 0 := Nat.cast_add_one_ne_zero n
    rw [Finset.sum_range_succ, ← ih, hstep, Nat.factorial_succ]
    push_cast
    field_simp

/-- Powers of close points are close. -/
theorem norm_pow_sub_pow_le {z w : ℂ} {e : ℝ} (hz : ‖z‖ = 1) (h : ‖z - w‖ ≤ e) (n : ℕ) :
    ‖z ^ n - w ^ n‖ ≤ (1 + e) ^ n - 1 := by
  have hw : ‖w‖ ≤ 1 + e := by
    calc ‖w‖ = ‖z - (z - w)‖ := by rw [sub_sub_cancel]
      _ ≤ ‖z‖ + ‖z - w‖ := norm_sub_le _ _
      _ ≤ 1 + e := by rw [hz]; gcongr
  induction n with
  | zero => simp
  | succ n ih =>
    calc ‖z ^ (n + 1) - w ^ (n + 1)‖ = ‖z ^ n * (z - w) + (z ^ n - w ^ n) * w‖ := by ring_nf
      _ ≤ ‖z ^ n * (z - w)‖ + ‖(z ^ n - w ^ n) * w‖ := norm_add_le _ _
      _ = ‖z - w‖ + ‖z ^ n - w ^ n‖ * ‖w‖ := by
        rw [Complex.norm_mul, Complex.norm_mul, Complex.norm_pow, hz, one_pow, one_mul]
      _ ≤ e + ((1 + e) ^ n - 1) * (1 + e) := by
        gcongr
        exact (norm_nonneg _).trans ih
      _ = (1 + e) ^ (n + 1) - 1 := by ring

/-- How many terms of the series are used, less one. -/
def seriesTerms : ℕ := 23

/-- The powers of the partial sum. -/
def pointPower : ℕ → ℤ × ℤ
  | 0 => (1, 0)
  | n + 1 => gaussianMul (pointPower n) (seriesSum seriesTerms)

/-- The powers of the point are those of the exponential series. -/
theorem gaussian_pointPower (n : ℕ) :
    gaussian (pointPower n) = gaussian (seriesSum seriesTerms) ^ n := by
  induction n with
  | zero => simp [pointPower, gaussian]
  | succ n ih => rw [pointPower, gaussian_mul, ih, pow_succ]

/-- The common denominator of a power. -/
def pointDenominator (n : ℕ) : ℕ := seriesTerms.factorial ^ n

/-- The partial sum is close to the point at one radian. -/
theorem norm_exp_I_sub_le :
    ‖Complex.exp I - gaussian (seriesSum seriesTerms) / seriesTerms.factorial‖ ≤ 1 / 2 ^ 70 := by
  rw [gaussian_seriesSum]
  have hbound := Complex.exp_bound (x := I) (by rw [Complex.norm_I]) (n := seriesTerms + 1) (by decide)
  refine hbound.trans ?_
  rw [Complex.norm_I, one_pow, one_mul]
  norm_num [seriesTerms, Nat.factorial]

/-- The sine of a number up to 64 is close to what was computed. -/
theorem abs_sin_sub_le {n : ℕ} (hn : n ≤ 64) :
    |Real.sin n - (pointPower n).2 / pointDenominator n| ≤ 1 / 2 ^ 60 := by
  have hnorm : ‖Complex.exp I‖ = 1 := by
    have hunit := Complex.norm_exp_ofReal_mul_I 1
    rwa [Complex.ofReal_one, one_mul] at hunit
  have hpow := norm_pow_sub_pow_le hnorm norm_exp_I_sub_le n
  have hsmall : (1 + 1 / 2 ^ 70 : ℝ) ^ n - 1 ≤ 1 / 2 ^ 60 := by
    have hmono : (1 + 1 / 2 ^ 70 : ℝ) ^ n ≤ (1 + 1 / 2 ^ 70) ^ 64 :=
      pow_le_pow_right₀ (by norm_num) hn
    have hlast : (1 + 1 / 2 ^ 70 : ℝ) ^ 64 - 1 ≤ 1 / 2 ^ 60 := by norm_num
    linarith
  have hexp : (Complex.exp I ^ n).im = Real.sin n := by
    rw [← Complex.exp_nat_mul, ← Complex.ofReal_natCast, Complex.exp_ofReal_mul_I_im]
  have hpoint : ((gaussian (seriesSum seriesTerms) / seriesTerms.factorial) ^ n).im =
      (pointPower n).2 / pointDenominator n := by
    rw [div_pow, ← gaussian_pointPower, ← Nat.cast_pow, Complex.div_natCast_im, gaussian_im]
    rfl
  rw [← hexp, ← hpoint, ← Complex.sub_im]
  exact (Complex.abs_im_le_norm _).trans (hpow.trans hsmall)

end Dot1x.Base
