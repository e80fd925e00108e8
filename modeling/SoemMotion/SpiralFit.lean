import Mathlib.Analysis.Calculus.Deriv.Pow
import Mathlib.Analysis.Calculus.Deriv.Add
import Mathlib.Analysis.Calculus.Deriv.Comp
import Mathlib.Analysis.Calculus.Deriv.Mul
import Mathlib.Analysis.InnerProductSpace.Basic
import Mathlib.Topology.Algebra.Module.ModuleTopology
import SoemMotion.Lib.Length
import SoemMotion.Tc
import SoemMotion.Vectors

/-!
# The arc length of a spiral

The length of a spiral is fitted by a quadratic in its angle, taken from the end of the smaller radius.  Its slope is
right at both ends and too large between them, so the fit is never shorter than the spiral, and it is inverted exactly.
A helix is taken to rise with the fitted length and not with the angle: where the slope is below its average it rises
faster than that, so a helix that is also a spiral is too fast at its inner end.
-/

namespace SoemMotion

open Lib Set

/-! ### The fit -/

/-- A circle as `pmCircleInit` makes them: it turns, and its radius stays positive up to its end. -/
structure PmCircle.Proper (circle : PmCircle ℝ) : Prop where
  angle : 0 < circle.angle
  start : 0 < circle.radius
  «end» : 0 ≤ circle.radius + circle.spiral

/-- The angle from the end of the smaller radius. -/
noncomputable def outAngle (circle : PmCircle ℝ) (x : ℝ) : ℝ := if circle.spiral < 0 then circle.angle - x else x

/-- The growth of the radius per radian, away from that end. -/
noncomputable def spiralRate (circle : PmCircle ℝ) : ℝ := |circle.spiral| / circle.angle

/-- The radius at that end. -/
noncomputable def innerRadius (circle : PmCircle ℝ) : ℝ :=
  if circle.spiral < 0 then circle.radius + circle.spiral else circle.radius

/-- The slope of the length at an angle from the inner end. -/
noncomputable def outSlope (circle : PmCircle ℝ) (x : ℝ) : ℝ :=
  √((innerRadius circle + spiralRate circle * x) ^ 2 + spiralRate circle ^ 2)

/-- The fit without its check. -/
noncomputable abbrev spiralFit (circle : PmCircle ℝ) : SpiralArcLengthFit ℝ := (findSpiralArcLengthFit circle).1

theorem fsign_neg_iff (f : ℝ) : fsign f < 0 ↔ f < 0 := by
  unfold fsign
  split
  · rename_i h
    simp [not_lt.2 h.le, not_lt.2 zero_le_one]
  · split
    · simp_all
    · simp_all

section Fit

variable {circle : PmCircle ℝ}

theorem spiralFit_eq (circle : PmCircle ℝ) : spiralFit circle =
    { b0 := (outSlope circle circle.angle - outSlope circle 0) / (2 * circle.angle)
      b1 := outSlope circle 0
      totalPlanarLength := (outSlope circle circle.angle - outSlope circle 0) / (2 * circle.angle) * circle.angle ^ 2 +
        outSlope circle 0 * circle.angle
      spiralIn := decide (circle.spiral < 0) } := by
  have hrate (h : circle.spiral < 0) : circle.spiral / circle.angle * -1 = |circle.spiral| / circle.angle := by
    rw [abs_of_neg h]
    ring
  have hrate' (h : ¬ circle.spiral < 0) : circle.spiral / circle.angle = |circle.spiral| / circle.angle := by
    rw [abs_of_nonneg (not_lt.1 h)]
  unfold spiralFit findSpiralArcLengthFit
  simp only [fsign_neg_iff, pmSqrt_real, pmSq_real, outSlope, innerRadius, spiralRate, mul_zero, add_zero]
  by_cases h : circle.spiral < 0
  · simp only [h, if_true, hrate h]
    split <;> rfl
  · simp only [h, if_false, hrate' h]
    split <;> rfl

theorem innerRadius_nonneg (h : circle.Proper) : 0 ≤ innerRadius circle := by
  unfold innerRadius
  split
  · exact h.end
  · exact h.start.le

theorem spiralRate_nonneg (h : circle.Proper) : 0 ≤ spiralRate circle := div_nonneg (abs_nonneg _) h.angle.le

/-- The inner slope is positive: an end of radius zero is the end of a spiral. -/
theorem b1_pos (h : circle.Proper) : 0 < (spiralFit circle).b1 := by
  rw [spiralFit_eq]
  refine Real.sqrt_pos.2 ?_
  rw [mul_zero, add_zero]
  by_cases hin : circle.spiral < 0
  · have : 0 < spiralRate circle := div_pos (abs_pos.2 hin.ne) h.angle
    positivity
  · have : 0 < innerRadius circle := by
      rw [innerRadius, if_neg hin]
      exact h.start
    positivity

theorem b0_nonneg (h : circle.Proper) : 0 ≤ (spiralFit circle).b0 := by
  rw [spiralFit_eq]
  refine div_nonneg (sub_nonneg.2 (Real.sqrt_le_sqrt (add_le_add_left (pow_le_pow_left₀ ?_ ?_ 2) _))) ?_
  · rw [mul_zero, add_zero]
    exact innerRadius_nonneg h
  · exact add_le_add le_rfl (mul_le_mul_of_nonneg_left h.angle.le (spiralRate_nonneg h))
  · exact mul_nonneg zero_le_two h.angle.le

theorem totalPlanarLength_eq (circle : PmCircle ℝ) : (spiralFit circle).totalPlanarLength =
    (spiralFit circle).b0 * circle.angle ^ 2 + (spiralFit circle).b1 * circle.angle := by
  rw [spiralFit_eq]

theorem totalPlanarLength_pos (h : circle.Proper) : 0 < (spiralFit circle).totalPlanarLength := by
  rw [totalPlanarLength_eq]
  have h₀ := b0_nonneg h
  have h₁ := b1_pos h
  have ha := h.angle
  positivity

/-! ### Its inverse -/

/-- The share of the length from the end of the smaller radius. -/
noncomputable def outShare (circle : PmCircle ℝ) (t : ℝ) : ℝ := if circle.spiral < 0 then 1 - t else t

theorem outShare_mem {t : ℝ} (ht : t ∈ Icc 0 1) : outShare circle t ∈ Icc 0 1 := by
  unfold outShare
  split
  · exact ⟨sub_nonneg.2 ht.2, sub_le_self _ ht.1⟩
  · exact ht

/-- The angle for a share of the length. -/
noncomputable def angleOfShare (circle : PmCircle ℝ) (t : ℝ) : ℝ :=
  outAngle circle (quadraticInverse (spiralFit circle).b0 (spiralFit circle).b1
    (outShare circle t * (spiralFit circle).totalPlanarLength))

/-- The discriminant is not negative on the arc. -/
theorem pmCircleAngleFromParam_eq (h : circle.Proper) {t : ℝ} (ht : t ∈ Icc 0 1) :
    pmCircleAngleFromParam circle (spiralFit circle) t = some (angleOfShare circle t) := by
  have hin : (spiralFit circle).spiralIn = decide (circle.spiral < 0) := by rw [spiralFit_eq]
  have hs : 0 ≤ outShare circle t * (spiralFit circle).totalPlanarLength :=
    mul_nonneg (outShare_mem ht).1 (totalPlanarLength_pos h).le
  have hdisc (s : ℝ) : (spiralFit circle).b1 ^ 2 - 4 * (spiralFit circle).b0 * -s =
      (spiralFit circle).b1 ^ 2 + 4 * (spiralFit circle).b0 * s := by ring
  have hroot (r s : ℝ) : 2 * -s / (-(spiralFit circle).b1 - r) = 2 * s / ((spiralFit circle).b1 + r) := by
    rw [mul_neg, ← neg_add', neg_div_neg_eq]
  have hnonneg : ¬ (spiralFit circle).b1 ^ 2 +
      4 * (spiralFit circle).b0 * (outShare circle t * (spiralFit circle).totalPlanarLength) < 0 := by
    have := mul_nonneg (mul_nonneg zero_le_four (b0_nonneg h)) hs
    have := sq_nonneg (spiralFit circle).b1
    linarith
  unfold pmCircleAngleFromParam angleOfShare outAngle quadraticInverse
  unfold outShare at hnonneg ⊢
  simp only [hin, decide_eq_true_eq, pmSq_real, pmSqrt_real, hdisc, hroot, hnonneg, if_false]

theorem quadraticInverse_total (h : circle.Proper) : quadraticInverse (spiralFit circle).b0 (spiralFit circle).b1
    (spiralFit circle).totalPlanarLength = circle.angle := by
  rw [totalPlanarLength_eq]
  exact quadraticInverse_apply (b0_nonneg h) (b1_pos h) h.angle.le

theorem angleOfShare_zero (h : circle.Proper) : angleOfShare circle 0 = 0 := by
  unfold angleOfShare outAngle outShare
  split
  · rw [sub_zero, one_mul, quadraticInverse_total h, sub_self]
  · rw [zero_mul, quadraticInverse_zero]

theorem angleOfShare_one (h : circle.Proper) : angleOfShare circle 1 = circle.angle := by
  unfold angleOfShare outAngle outShare
  split
  · rw [sub_self, zero_mul, quadraticInverse_zero, sub_zero]
  · rw [one_mul, quadraticInverse_total h]

theorem angleOfShare_strictMono (h : circle.Proper) : StrictMonoOn (angleOfShare circle) (Icc 0 1) := by
  have hlt {t u : ℝ} (ht : 0 ≤ t) (htu : t < u) := quadraticInverse_lt (b0_nonneg h) (b1_pos h)
    (mul_nonneg ht (totalPlanarLength_pos h).le) (mul_lt_mul_of_pos_right htu (totalPlanarLength_pos h))
  intro t ht u hu htu
  unfold angleOfShare outAngle outShare
  split
  · have := hlt (sub_nonneg.2 hu.2) (sub_lt_sub_left htu 1)
    linarith
  · exact hlt ht.1 htu

theorem findSpiralArcLengthFit_eq (circle : PmCircle ℝ) : findSpiralArcLengthFit circle =
    match pmCircleAngleFromParam circle (spiralFit circle) 1 with
    | none => (spiralFit circle, false)
    | some angle => (spiralFit circle, !decide (tpAngleEpsilon < fabs (angle - circle.angle))) := by
  obtain ⟨fit, hfit⟩ : ∃ fit, findSpiralArcLengthFit circle = match pmCircleAngleFromParam circle fit 1 with
    | none => (fit, false)
    | some angle => (fit, !decide (tpAngleEpsilon < fabs (angle - circle.angle))) := by
    unfold findSpiralArcLengthFit
    dsimp only
    generalize SpiralArcLengthFit.mk _ _ _ _ = fit
    refine ⟨fit, ?_⟩
    cases pmCircleAngleFromParam circle fit 1
    · rfl
    · simp
  have hsame : spiralFit circle = fit := by
    rw [spiralFit, hfit]
    split <;> rfl
  rw [hsame, hfit]

/-- The check of the fit passes. -/
theorem findSpiralArcLengthFit_accepts (h : circle.Proper) : (findSpiralArcLengthFit circle).2 = true := by
  have hexact : ¬ (tpAngleEpsilon : ℝ) < fabs 0 := by
    rw [fabs_real, abs_zero, not_lt]
    unfold tpAngleEpsilon
    norm_num
  rw [findSpiralArcLengthFit_eq, pmCircleAngleFromParam_eq h (right_mem_Icc.2 zero_le_one), angleOfShare_one h]
  simp [hexact]

/-- The length of the path. -/
noncomputable def helicalLength (circle : PmCircle ℝ) : ℝ :=
  pmSqrt (pmSq (spiralFit circle).totalPlanarLength + pmCartMagSq circle.rHelix)

theorem helicalLength_eq (circle : PmCircle ℝ) : helicalLength circle =
    √((spiralFit circle).totalPlanarLength ^ 2 + pmCartMag circle.rHelix ^ 2) := by
  rw [helicalLength, pmSqrt_real, pmSq_real, pmCartMagSq_eq]

theorem helicalLength_pos (h : circle.Proper) : 0 < helicalLength circle := by
  have := totalPlanarLength_pos h
  rw [helicalLength_eq]
  exact Real.sqrt_pos.2 (by positivity)

theorem pmCircleAngleFromProgress_eq (h : circle.Proper) {p : ℝ} (hp : p ∈ Icc 0 (helicalLength circle)) :
    pmCircleAngleFromProgress circle (spiralFit circle) p = some (angleOfShare circle (p / helicalLength circle)) :=
  pmCircleAngleFromParam_eq h
    ⟨div_nonneg hp.1 (helicalLength_pos h).le, (div_le_one (helicalLength_pos h)).2 hp.2⟩

/-! ### Its slope -/

/-- The slope of the length of the spiral in its plane. -/
noncomputable def planarSlope (circle : PmCircle ℝ) (x : ℝ) : ℝ :=
  √((circle.radius + circle.spiral * (x / circle.angle)) ^ 2 + (circle.spiral / circle.angle) ^ 2)

/-- The slope of the length of the path. -/
noncomputable def pathSlope (circle : PmCircle ℝ) (x : ℝ) : ℝ :=
  √((circle.radius + circle.spiral * (x / circle.angle)) ^ 2 + (circle.spiral / circle.angle) ^ 2 +
    (pmCartMag circle.rHelix / circle.angle) ^ 2)

/-- The fitted length up to an angle. -/
noncomputable def fittedLength (circle : PmCircle ℝ) (x : ℝ) : ℝ :=
  if circle.spiral < 0 then (spiralFit circle).totalPlanarLength -
    ((spiralFit circle).b0 * (circle.angle - x) ^ 2 + (spiralFit circle).b1 * (circle.angle - x))
  else (spiralFit circle).b0 * x ^ 2 + (spiralFit circle).b1 * x

/-- The progress at an angle. -/
noncomputable def progressAt (circle : PmCircle ℝ) (x : ℝ) : ℝ :=
  fittedLength circle x / (spiralFit circle).totalPlanarLength * helicalLength circle

theorem outAngle_mem {x : ℝ} (hx : x ∈ Icc 0 circle.angle) : outAngle circle x ∈ Icc 0 circle.angle := by
  unfold outAngle
  split
  · exact ⟨sub_nonneg.2 hx.2, sub_le_self _ hx.1⟩
  · exact hx

theorem angleOfShare_fittedLength (h : circle.Proper) {x : ℝ} (hx : x ∈ Icc 0 circle.angle) :
    angleOfShare circle (fittedLength circle x / (spiralFit circle).totalPlanarLength) = x := by
  have htotal := (totalPlanarLength_pos h).ne'
  unfold angleOfShare outAngle outShare fittedLength
  split
  · rw [sub_div, div_self htotal, sub_sub_cancel, div_mul_cancel₀ _ htotal,
      quadraticInverse_apply (b0_nonneg h) (b1_pos h) (sub_nonneg.2 hx.2), sub_sub_cancel]
  · rw [div_mul_cancel₀ _ htotal, quadraticInverse_apply (b0_nonneg h) (b1_pos h) hx.1]

theorem fittedLength_mem (h : circle.Proper) {x : ℝ} (hx : x ∈ Icc 0 circle.angle) :
    fittedLength circle x ∈ Icc 0 (spiralFit circle).totalPlanarLength := by
  have h₀ := b0_nonneg h
  have h₁ := b1_pos h
  have hout {y : ℝ} (hy : y ∈ Icc 0 circle.angle) :
      (spiralFit circle).b0 * y ^ 2 + (spiralFit circle).b1 * y ∈ Icc 0 (spiralFit circle).totalPlanarLength := by
    rw [totalPlanarLength_eq]
    refine ⟨add_nonneg (mul_nonneg h₀ (sq_nonneg y)) (mul_nonneg h₁.le hy.1), add_le_add ?_ ?_⟩
    · exact mul_le_mul_of_nonneg_left (pow_le_pow_left₀ hy.1 hy.2 2) h₀
    · exact mul_le_mul_of_nonneg_left hy.2 h₁.le
  unfold fittedLength
  split
  · have hy := hout ⟨sub_nonneg.2 hx.2, sub_le_self _ hx.1⟩
    exact ⟨sub_nonneg.2 hy.2, sub_le_self _ hy.1⟩
  · exact hout hx

/-- The angle that belongs to a progress is the one whose fitted length is that far along. -/
theorem pmCircleAngleFromProgress_progressAt (h : circle.Proper) {x : ℝ} (hx : x ∈ Icc 0 circle.angle) :
    pmCircleAngleFromProgress circle (spiralFit circle) (progressAt circle x) = some x := by
  have hlen := helicalLength_pos h
  have hmem := fittedLength_mem h hx
  have hshare : fittedLength circle x / (spiralFit circle).totalPlanarLength ∈ Icc 0 1 :=
    ⟨div_nonneg hmem.1 (totalPlanarLength_pos h).le, (div_le_one (totalPlanarLength_pos h)).2 hmem.2⟩
  rw [progressAt, pmCircleAngleFromProgress_eq h
    ⟨mul_nonneg hshare.1 hlen.le, mul_le_of_le_one_left hlen.le hshare.2⟩, mul_div_cancel_right₀ _ hlen.ne',
    angleOfShare_fittedLength h hx]

theorem hasDerivAt_fittedLength (circle : PmCircle ℝ) (x : ℝ) : HasDerivAt (fittedLength circle)
    (2 * (spiralFit circle).b0 * outAngle circle x + (spiralFit circle).b1) x := by
  have hout (y : ℝ) : HasDerivAt (fun y => (spiralFit circle).b0 * y ^ 2 + (spiralFit circle).b1 * y)
      (2 * (spiralFit circle).b0 * y + (spiralFit circle).b1) y :=
    ((((hasDerivAt_id y).pow 2).const_mul _).add ((hasDerivAt_id y).const_mul _)).congr_deriv (by simp; ring)
  by_cases hin : circle.spiral < 0
  · have hfun : fittedLength circle = fun y => (spiralFit circle).totalPlanarLength -
        ((spiralFit circle).b0 * (circle.angle - y) ^ 2 + (spiralFit circle).b1 * (circle.angle - y)) := by
      funext y
      rw [fittedLength, if_pos hin]
    rw [hfun, outAngle, if_pos hin]
    have hback : HasDerivAt (fun y => circle.angle - y) (-1) x := (hasDerivAt_id x).const_sub circle.angle
    exact ((HasDerivAt.comp x (hout (circle.angle - x)) hback).const_sub _).congr_deriv (by ring)
  · have hfun : fittedLength circle = fun y => (spiralFit circle).b0 * y ^ 2 + (spiralFit circle).b1 * y := by
      funext y
      rw [fittedLength, if_neg hin]
    rw [hfun, outAngle, if_neg hin]
    exact hout x

theorem outSlope_outAngle (h : circle.Proper) (x : ℝ) : outSlope circle (outAngle circle x) = planarSlope circle x := by
  have ha := h.angle.ne'
  unfold outSlope planarSlope outAngle innerRadius spiralRate
  congr 1
  by_cases hin : circle.spiral < 0
  · rw [if_pos hin, if_pos hin, abs_of_neg hin]
    field_simp
    ring
  · rw [if_neg hin, if_neg hin, abs_of_nonneg (not_lt.1 hin)]
    ring

/-- The slope of the fit is the chord of the slope of the spiral. -/
theorem outSlope_le (h : circle.Proper) {y : ℝ} (hy : y ∈ Icc 0 circle.angle) :
    outSlope circle y ≤ 2 * (spiralFit circle).b0 * y + (spiralFit circle).b1 := by
  have ha := h.angle.ne'
  have hchord := sqrt_le_chord (m := innerRadius circle) (M := innerRadius circle + spiralRate circle * circle.angle)
    (c := spiralRate circle) (div_nonneg hy.1 h.angle.le) ((div_le_one h.angle).2 hy.2)
  have hradius : (1 - y / circle.angle) * innerRadius circle +
      y / circle.angle * (innerRadius circle + spiralRate circle * circle.angle) =
      innerRadius circle + spiralRate circle * y := by
    field_simp
    ring
  rw [hradius] at hchord
  refine hchord.trans_eq ?_
  rw [spiralFit_eq]
  unfold outSlope
  rw [mul_zero, add_zero]
  field_simp
  ring

theorem planarSlope_le (h : circle.Proper) {x : ℝ} (hx : x ∈ Icc 0 circle.angle) :
    planarSlope circle x ≤ 2 * (spiralFit circle).b0 * outAngle circle x + (spiralFit circle).b1 := by
  rw [← outSlope_outAngle h]
  exact outSlope_le h (outAngle_mem hx)

theorem deriv_progressAt (circle : PmCircle ℝ) (x : ℝ) : deriv (progressAt circle) x =
    (2 * (spiralFit circle).b0 * outAngle circle x + (spiralFit circle).b1) / (spiralFit circle).totalPlanarLength *
      helicalLength circle :=
  (((hasDerivAt_fittedLength circle x).div_const _).mul_const _).deriv

/-! ### The results -/

/-- What holds of the fit and its inverse for every circle. -/
structure FitSound (circle : PmCircle ℝ) : Prop where
  accepts : (findSpiralArcLengthFit circle).2 = true
  start : pmCircleAngleFromProgress circle (spiralFit circle) 0 = some 0
  stop : pmCircleAngleFromProgress circle (spiralFit circle) (helicalLength circle) = some circle.angle
  increasing : ∃ angle, StrictMonoOn angle (Icc 0 (helicalLength circle)) ∧
    ∀ p ∈ Icc 0 (helicalLength circle), pmCircleAngleFromProgress circle (spiralFit circle) p = some (angle p)
  inverse : ∀ x ∈ Icc 0 circle.angle, pmCircleAngleFromProgress circle (spiralFit circle) (progressAt circle x) = some x
  slope : ∀ x ∈ Icc 0 circle.angle, planarSlope circle x ≤ deriv (fittedLength circle) x

/-- At no angle does the path get longer faster than the progress along it. -/
def NeverFaster (circle : PmCircle ℝ) : Prop :=
  ∀ x ∈ Icc 0 circle.angle, pathSlope circle x ≤ deriv (progressAt circle) x

theorem fitSound (h : circle.Proper) : FitSound circle where
  accepts := findSpiralArcLengthFit_accepts h
  start := by
    rw [pmCircleAngleFromProgress_eq h (left_mem_Icc.2 (helicalLength_pos h).le), zero_div, angleOfShare_zero h]
  stop := by
    rw [pmCircleAngleFromProgress_eq h (right_mem_Icc.2 (helicalLength_pos h).le), div_self (helicalLength_pos h).ne',
      angleOfShare_one h]
  increasing := by
    have hlen := helicalLength_pos h
    have hshare {p : ℝ} (hp : p ∈ Icc 0 (helicalLength circle)) : p / helicalLength circle ∈ Icc 0 1 :=
      ⟨div_nonneg hp.1 hlen.le, (div_le_one hlen).2 hp.2⟩
    refine ⟨fun p => angleOfShare circle (p / helicalLength circle), fun p hp q hq hpq => ?_, fun p hp => ?_⟩
    · exact angleOfShare_strictMono h (hshare hp) (hshare hq) ((div_lt_div_iff_of_pos_right hlen).2 hpq)
    · exact pmCircleAngleFromProgress_eq h hp
  inverse := fun x hx => pmCircleAngleFromProgress_progressAt h hx
  slope := fun x hx => by
    rw [(hasDerivAt_fittedLength circle x).deriv]
    exact planarSlope_le h hx

theorem pathSlope_sq (circle : PmCircle ℝ) (x : ℝ) :
    pathSlope circle x ^ 2 = planarSlope circle x ^ 2 + (pmCartMag circle.rHelix / circle.angle) ^ 2 := by
  unfold pathSlope planarSlope
  rw [Real.sq_sqrt (by positivity), Real.sq_sqrt (by positivity)]

theorem outAngle_outAngle (x : ℝ) : outAngle circle (outAngle circle x) = x := by
  unfold outAngle
  split
  · ring
  · rfl

/-- The quadratic part of the fit belongs to the spiral. -/
theorem b0_eq_zero_iff (h : circle.Proper) : (spiralFit circle).b0 = 0 ↔ circle.spiral = 0 := by
  have ha := h.angle
  rw [spiralFit_eq]
  constructor
  · intro hzero
    by_contra hne
    have hrate : 0 < spiralRate circle := div_pos (abs_pos.2 hne) ha
    have hlt : outSlope circle 0 < outSlope circle circle.angle := by
      refine Real.sqrt_lt_sqrt (by positivity) (add_lt_add_left (pow_lt_pow_left₀ ?_ ?_ two_ne_zero) _)
      · rw [mul_zero, add_zero, lt_add_iff_pos_right]
        exact mul_pos hrate ha
      · rw [mul_zero, add_zero]
        exact innerRadius_nonneg h
    exact (div_pos (sub_pos.2 hlt) (mul_pos two_pos ha)).ne' hzero
  · intro hspiral
    simp [outSlope, spiralRate, hspiral]

/-- The slope of the progress at the inner end is the one of the spiral, stretched with the whole path. -/
theorem neverFaster_inner (h : circle.Proper) (hn : NeverFaster circle) :
    pmCartMag circle.rHelix = 0 ∨ circle.spiral = 0 := by
  have ha := h.angle
  have htotal := totalPlanarLength_pos h
  have hb := b1_pos h
  have hinner := hn (outAngle circle 0) (outAngle_mem (left_mem_Icc.2 ha.le))
  have hplanar : planarSlope circle (outAngle circle 0) = (spiralFit circle).b1 := by
    rw [← outSlope_outAngle h, outAngle_outAngle, spiralFit_eq]
  rw [deriv_progressAt, outAngle_outAngle, mul_zero, zero_add, helicalLength_eq] at hinner
  have hsq := pow_le_pow_left₀ (Real.sqrt_nonneg _) hinner 2
  rw [← pathSlope, pathSlope_sq, hplanar, mul_pow, Real.sq_sqrt (by positivity), mul_add, ← mul_pow,
    div_mul_cancel₀ _ htotal.ne', add_le_add_iff_left, ← mul_pow] at hsq
  by_contra hnot
  rw [not_or] at hnot
  have hhelix : 0 < pmCartMag circle.rHelix := by
    refine lt_of_le_of_ne ?_ (Ne.symm hnot.1)
    rw [pmCartMag_real]
    exact Real.sqrt_nonneg _
  have hle : pmCartMag circle.rHelix / circle.angle ≤
      (spiralFit circle).b1 / (spiralFit circle).totalPlanarLength * pmCartMag circle.rHelix :=
    le_of_sq_le_sq hsq (by positivity)
  -- the whole length would be no more than its slope at the inner end gives
  have hshort : (spiralFit circle).totalPlanarLength ≤ (spiralFit circle).b1 * circle.angle := by
    rw [div_le_iff₀ ha, div_mul_eq_mul_div, div_mul_eq_mul_div, le_div_iff₀ htotal] at hle
    nlinarith
  have hlong : 0 < (spiralFit circle).b0 :=
    lt_of_le_of_ne (b0_nonneg h) fun hzero => hnot.2 ((b0_eq_zero_iff h).1 hzero.symm)
  rw [totalPlanarLength_eq] at hshort
  have := mul_pos hlong (pow_pos ha 2)
  linarith

theorem neverFaster_flat (h : circle.Proper) (hflat : pmCartMag circle.rHelix = 0) : NeverFaster circle := by
  intro x hx
  have htotal := totalPlanarLength_pos h
  have hpath : pathSlope circle x = planarSlope circle x := by
    rw [pathSlope, hflat, zero_div, zero_pow two_ne_zero, add_zero, planarSlope]
  have hlen : helicalLength circle = (spiralFit circle).totalPlanarLength := by
    rw [helicalLength_eq, hflat, zero_pow two_ne_zero, add_zero, Real.sqrt_sq htotal.le]
  rw [deriv_progressAt, hpath, hlen, div_mul_cancel₀ _ htotal.ne']
  exact planarSlope_le h hx

theorem neverFaster_circle (h : circle.Proper) (hcircle : circle.spiral = 0) : NeverFaster circle := by
  intro x hx
  have ha := h.angle
  have hb := b1_pos h
  have hzero := (b0_eq_zero_iff h).2 hcircle
  have hplanar := planarSlope_le h hx
  rw [hzero, mul_zero, zero_mul, zero_add] at hplanar
  have hscale : (spiralFit circle).b1 / ((spiralFit circle).b1 * circle.angle) = 1 / circle.angle := by
    field_simp
  rw [deriv_progressAt, helicalLength_eq, totalPlanarLength_eq, hzero, mul_zero, zero_mul, zero_mul, zero_add, zero_add,
    hscale]
  refine le_of_sq_le_sq ?_ (by positivity)
  calc pathSlope circle x ^ 2
      = planarSlope circle x ^ 2 + (pmCartMag circle.rHelix / circle.angle) ^ 2 := pathSlope_sq circle x
    _ ≤ (spiralFit circle).b1 ^ 2 + (pmCartMag circle.rHelix / circle.angle) ^ 2 :=
        add_le_add (pow_le_pow_left₀ (Real.sqrt_nonneg _) hplanar 2) le_rfl
    _ = (1 / circle.angle * √(((spiralFit circle).b1 * circle.angle) ^ 2 + pmCartMag circle.rHelix ^ 2)) ^ 2 := by
        rw [mul_pow, Real.sq_sqrt (by positivity)]
        field_simp

end Fit

/-- The fit of every circle is sound, and the path is never faster than the progress along it exactly when the circle
does not rise or is no spiral. -/
theorem findSpiralArcLengthFit_iff (circle : PmCircle ℝ) (h : circle.Proper) :
    (FitSound circle ∧ NeverFaster circle ↔ pmCartMag circle.rHelix = 0 ∨ circle.spiral = 0) ∧ FitSound circle := by
  refine ⟨⟨fun hn => neverFaster_inner h hn.2, fun hor => ⟨fitSound h, ?_⟩⟩, fitSound h⟩
  rcases hor with hflat | hcircle
  · exact neverFaster_flat h hflat
  · exact neverFaster_circle h hcircle

/-- A spiral of one radian from the unit circle outwards that rises by `rise`. -/
def risingSpiral (rise : ℝ) : PmCircle ℝ where
  center := ⟨0, 0, 0⟩
  normal := ⟨0, 0, 1⟩
  rTan := ⟨1, 0, 0⟩
  rPerp := ⟨0, 1, 0⟩
  rHelix := ⟨0, 0, rise⟩
  radius := 1
  angle := 1
  spiral := 1

theorem risingSpiral_proper (rise : ℝ) : (risingSpiral rise).Proper where
  angle := one_pos
  start := one_pos
  «end» := add_nonneg zero_le_one zero_le_one

theorem findSpiralArcLengthFit_iff_flat : (FitSound (risingSpiral 0) ∧ NeverFaster (risingSpiral 0) ↔
    pmCartMag (risingSpiral 0).rHelix = 0 ∨ (risingSpiral 0).spiral = 0) ∧ FitSound (risingSpiral 0) :=
  findSpiralArcLengthFit_iff (risingSpiral 0) (risingSpiral_proper 0)

/-- A helix that is a spiral is faster than its progress at the inner end. -/
theorem risingSpiral_faster : ¬ (FitSound (risingSpiral 1) ∧ NeverFaster (risingSpiral 1)) := by
  rintro ⟨-, hn⟩
  rcases neverFaster_inner (risingSpiral_proper 1) hn with hflat | hcircle
  · rw [pmCartMag_real] at hflat
    norm_num [risingSpiral] at hflat
  · exact one_ne_zero hcircle

end SoemMotion
