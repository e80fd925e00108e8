import Mathlib.Analysis.Real.Sqrt
import Mathlib.Tactic.FieldSimp
import Mathlib.Tactic.Linarith
import Mathlib.Tactic.LinearCombination
import Mathlib.Tactic.Positivity
import Mathlib.Tactic.Ring

/-!
# Inverting a quadratic length

A length `a x² + b x` with `0 ≤ a` and `0 < b` grows with `x`, and its stable inverse `2 s / (b + √(b² + 4 a s))` is
exact on both sides, also where `a` is zero.  A quadratic length whose slope is right at both ends of a curve is never
shorter than the curve if the curve's own slope is convex, as that of a spiral is.
-/

namespace SoemMotion.Lib

variable {a b s x : ℝ}

/-- The inverse of `a x² + b x`. -/
noncomputable def quadraticInverse (a b s : ℝ) : ℝ := 2 * s / (b + √(b ^ 2 + 4 * a * s))

theorem quadraticInverse_nonneg (hb : 0 < b) (hs : 0 ≤ s) : 0 ≤ quadraticInverse a b s :=
  div_nonneg (by linarith) (add_nonneg hb.le (Real.sqrt_nonneg _))

@[simp] theorem quadraticInverse_zero (a b : ℝ) : quadraticInverse a b 0 = 0 := by
  simp [quadraticInverse]

theorem quadraticInverse_apply (ha : 0 ≤ a) (hb : 0 < b) (hx : 0 ≤ x) :
    quadraticInverse a b (a * x ^ 2 + b * x) = x := by
  have hroot : √(b ^ 2 + 4 * a * (a * x ^ 2 + b * x)) = b + 2 * a * x := by
    rw [show b ^ 2 + 4 * a * (a * x ^ 2 + b * x) = (b + 2 * a * x) ^ 2 by ring]
    exact Real.sqrt_sq (by positivity)
  have hden : b + (b + 2 * a * x) ≠ 0 := by positivity
  rw [quadraticInverse, hroot, div_eq_iff hden]
  ring

theorem apply_quadraticInverse (ha : 0 ≤ a) (hb : 0 < b) (hs : 0 ≤ s) :
    a * quadraticInverse a b s ^ 2 + b * quadraticInverse a b s = s := by
  obtain ⟨r, hr⟩ : ∃ r, r = √(b ^ 2 + 4 * a * s) := ⟨_, rfl⟩
  have hsq : r ^ 2 = b ^ 2 + 4 * a * s := by
    rw [hr]
    exact Real.sq_sqrt (by positivity)
  have hden : b + r ≠ 0 := by
    have : 0 ≤ r := hr ▸ Real.sqrt_nonneg _
    positivity
  rw [quadraticInverse, ← hr]
  field_simp
  linear_combination (-s) * hsq

/-- The length grows with its argument, so its inverse does. -/
theorem quadraticInverse_lt {t : ℝ} (ha : 0 ≤ a) (hb : 0 < b) (hs : 0 ≤ s) (hst : s < t) :
    quadraticInverse a b s < quadraticInverse a b t := by
  by_contra hle
  have hle := not_lt.1 hle
  have ht := quadraticInverse_nonneg (a := a) hb (hs.trans hst.le)
  have hsq := mul_le_mul_of_nonneg_left (pow_le_pow_left₀ ht hle 2) ha
  have hlin := mul_le_mul_of_nonneg_left hle hb.le
  have hs' := apply_quadraticInverse ha hb hs
  have ht' := apply_quadraticInverse ha hb (hs.trans hst.le)
  linarith

/-- The slope of a spiral at a fraction `t` of the way is at most the average of its slopes at both ends. -/
theorem sqrt_le_chord {m M c t : ℝ} (ht : 0 ≤ t) (ht' : t ≤ 1) :
    √(((1 - t) * m + t * M) ^ 2 + c ^ 2) ≤ (1 - t) * √(m ^ 2 + c ^ 2) + t * √(M ^ 2 + c ^ 2) := by
  have ht₀ : 0 ≤ 1 - t := sub_nonneg.2 ht'
  refine Real.sqrt_le_iff.2 ⟨by positivity, ?_⟩
  have hm := Real.sq_sqrt (add_nonneg (sq_nonneg m) (sq_nonneg c))
  have hM := Real.sq_sqrt (add_nonneg (sq_nonneg M) (sq_nonneg c))
  -- the Cauchy-Schwarz inequality for `(m, c)` and `(M, c)`
  have hprod : m * M + c ^ 2 ≤ √(m ^ 2 + c ^ 2) * √(M ^ 2 + c ^ 2) := by
    rw [← Real.sqrt_mul (by positivity)]
    refine Real.le_sqrt_of_sq_le ?_
    nlinarith [sq_nonneg (m * c - M * c)]
  have hcross := mul_le_mul_of_nonneg_left hprod (mul_nonneg ht ht₀)
  have hsq : ((1 - t) * √(m ^ 2 + c ^ 2) + t * √(M ^ 2 + c ^ 2)) ^ 2 = (1 - t) ^ 2 * (m ^ 2 + c ^ 2) +
      2 * (t * (1 - t) * (√(m ^ 2 + c ^ 2) * √(M ^ 2 + c ^ 2))) + t ^ 2 * (M ^ 2 + c ^ 2) := by
    linear_combination (1 - t) ^ 2 * hm + t ^ 2 * hM
  linarith

end SoemMotion.Lib
