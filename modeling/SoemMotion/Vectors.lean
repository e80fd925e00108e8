import SoemMotion.PoseMath

/-!
# Vectors in exact arithmetic

What the operations on vectors compute over the reals: the scalar product is bilinear, the magnitude is its square root.
-/

namespace SoemMotion

theorem pmSq_real (x : ℝ) : pmSq x = x ^ 2 := (sq x).symm

theorem pmSqrt_real (x : ℝ) : pmSqrt x = Real.sqrt x := by
  unfold pmSqrt
  split
  · rfl
  · rename_i h
    exact (Real.sqrt_eq_zero_of_nonpos (not_lt.1 h)).symm

theorem pmCartMag_real (v : PmCartesian ℝ) : pmCartMag v = Real.sqrt (v.x ^ 2 + v.y ^ 2 + v.z ^ 2) := by
  unfold pmCartMag pmSq
  rw [pmSqrt_real, sq, sq, sq]

theorem pmCartMagSq_eq (v : PmCartesian ℝ) : pmCartMagSq v = pmCartMag v ^ 2 := by
  rw [pmCartMag_real, Real.sq_sqrt (by positivity), sq, sq, sq]
  rfl

/-! ### Scalar products -/

attribute [ext] PmCartesian

section Dot

variable (u v w : PmCartesian ℝ) (d : ℝ)

theorem pmCartCartDot_comm : pmCartCartDot u v = pmCartCartDot v u := by
  unfold pmCartCartDot
  ring

@[simp] theorem pmCartCartDot_add_left : pmCartCartDot (pmCartCartAdd u v) w = pmCartCartDot u w +
    pmCartCartDot v w := by
  simp only [pmCartCartDot, pmCartCartAdd]
  ring

@[simp] theorem pmCartCartDot_sub_left : pmCartCartDot (pmCartCartSub u v) w =
    pmCartCartDot u w - pmCartCartDot v w := by
  simp only [pmCartCartDot, pmCartCartSub]
  ring

@[simp] theorem pmCartCartDot_scal_left : pmCartCartDot (pmCartScalMult u d) w = d * pmCartCartDot u w := by
  simp only [pmCartCartDot, pmCartScalMult]
  ring

@[simp] theorem pmCartCartDot_add_right : pmCartCartDot w (pmCartCartAdd u v) = pmCartCartDot w u +
    pmCartCartDot w v := by
  simp only [pmCartCartDot_comm w, pmCartCartDot_add_left]

@[simp] theorem pmCartCartDot_sub_right : pmCartCartDot w (pmCartCartSub u v) =
    pmCartCartDot w u - pmCartCartDot w v := by
  simp only [pmCartCartDot_comm w, pmCartCartDot_sub_left]

@[simp] theorem pmCartCartDot_scal_right : pmCartCartDot w (pmCartScalMult u d) = d * pmCartCartDot w u := by
  simp only [pmCartCartDot_comm w, pmCartCartDot_scal_left]

theorem pmCartMag_eq_dot : pmCartMag v = √(pmCartCartDot v v) := by
  rw [pmCartMag_real, pmCartCartDot, sq, sq, sq]

theorem pmCartCartDot_self_nonneg : 0 ≤ pmCartCartDot v v := by
  unfold pmCartCartDot
  nlinarith [mul_self_nonneg v.x, mul_self_nonneg v.y, mul_self_nonneg v.z]

theorem pmCartCartDot_self_eq_zero_iff : pmCartCartDot v v = 0 ↔ v = ⟨0, 0, 0⟩ := by
  unfold pmCartCartDot
  constructor
  · intro h
    have hx := mul_self_nonneg v.x
    have hy := mul_self_nonneg v.y
    have hz := mul_self_nonneg v.z
    ext
    · exact mul_self_eq_zero.1 (by linarith)
    · exact mul_self_eq_zero.1 (by linarith)
    · exact mul_self_eq_zero.1 (by linarith)
  · rintro rfl
    simp

variable {v d}

theorem pmCartMag_eq_of_dot (hd : 0 ≤ d) (h : pmCartCartDot v v = d ^ 2) : pmCartMag v = d := by
  rw [pmCartMag_eq_dot, h, Real.sqrt_sq hd]

/-- Scaling to the length one. -/
theorem pmCartUnit_of_mag (hd : pmCartMag v = d) (hne : d ≠ 0) : pmCartUnit v = pmCartScalMult v (1 / d) := by
  have hsize : pmSqrt (pmSq v.x + pmSq v.y + pmSq v.z) = d := hd
  unfold pmCartUnit pmCartScalMult
  simp only [hsize, beq_real, hne, decide_false, Bool.false_eq_true, if_false, mul_one_div]

end Dot

end SoemMotion
