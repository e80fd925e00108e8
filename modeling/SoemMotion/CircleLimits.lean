import SoemMotion.Tc
import SoemMotion.Vectors

/-!
# The acceleration along a helix

The limits of a circular segment are derived from an effective radius, `h² / r + r` for a circle of the radius `r` with
the rise `h`.  The radius of curvature of its path is `(h / φ)² / r + r`, for the angle `φ` over which it rises, so the
effective radius is too large for a helix of more than one radian.
-/

namespace SoemMotion

/-- The radius of curvature of a helix. -/
noncomputable def helixRadius (circle : PmCircle ℝ) : ℝ :=
  (circle.radius ^ 2 + (pmCartMag circle.rHelix / circle.angle) ^ 2) / circle.radius

/-- The acceleration stays within `a` at every speed up to the limit. -/
def KeepsAcceleration (circle : PmCircle ℝ) (limits : PmCircleLimits ℝ) (a : ℝ) : Prop :=
  ∀ v, 0 ≤ v → v ≤ limits.vMax → (limits.accRatio * a) ^ 2 +
    (v ^ 2 * circle.radius / (circle.radius ^ 2 + (pmCartMag circle.rHelix / circle.angle) ^ 2)) ^ 2 ≤ a ^ 2

/-- The effective radius is not too large: the circle is flat or its angle at most one radian, and the lower bound of
the effective radius does no harm. -/
def RadiusHolds (circle : PmCircle ℝ) (v a : ℝ) : Prop :=
  (circle.angle ≤ 1 ∨ pmCartMag circle.rHelix = 0) ∧
    (doubleFuzz ≤ helixRadius circle ∨ blendAccRatioNormal * a * doubleFuzz < v ^ 2)

theorem blendAccRatioNormal_sq : (blendAccRatioNormal : ℝ) ^ 2 = 1 - blendAccRatioTangential ^ 2 := by
  unfold blendAccRatioNormal pmSq blendAccRatioTangential
  rw [pmSqrt_real, Real.sq_sqrt (by norm_num), sq]

theorem blendAccRatioNormal_pos : (0 : ℝ) < blendAccRatioNormal := by
  unfold blendAccRatioNormal pmSq blendAccRatioTangential
  rw [pmSqrt_real]
  exact Real.sqrt_pos.2 (by norm_num)

section Circle

variable {circle : PmCircle ℝ} {v a : ℝ}

theorem pmCircleEffectiveMinRadius_eq (hr : 0 < circle.radius) (hspiral : circle.spiral = 0) :
    pmCircleEffectiveMinRadius circle = (circle.radius ^ 2 + pmCartMag circle.rHelix ^ 2) / circle.radius := by
  have hcube : √(circle.radius ^ 2 * circle.radius ^ 2 * circle.radius ^ 2) = circle.radius ^ 3 := by
    rw [show circle.radius ^ 2 * circle.radius ^ 2 * circle.radius ^ 2 = (circle.radius ^ 3) ^ 2 by ring,
      Real.sqrt_sq (pow_nonneg hr.le 3)]
  unfold pmCircleEffectiveMinRadius
  simp only [hspiral, zero_div, pmSq_real, zero_pow two_ne_zero, zero_add, add_zero, pmSqrt_real, hcube, pmCartMagSq_eq]
  field_simp
  ring

/-- The normal acceleration the limits leave room for, and the radius they take it to have. -/
theorem pmCircleActualMaxVel_spec (hr : 0 < circle.radius) (hspiral : circle.spiral = 0) (hv : 0 < v) (ha : 0 < a) :
    ∃ n R, 0 < n ∧ 0 ≤ (pmCircleActualMaxVel circle v a).vMax ∧ (pmCircleActualMaxVel circle v a).vMax ^ 2 = n * R ∧
      ((pmCircleActualMaxVel circle v a).accRatio * a) ^ 2 = a ^ 2 - n ^ 2 ∧
      ((blendAccRatioNormal * a * max (pmCircleEffectiveMinRadius circle) doubleFuzz < v ^ 2 ∧
          R = pmCircleEffectiveMinRadius circle) ∨
        (v ^ 2 ≤ blendAccRatioNormal * a * max (pmCircleEffectiveMinRadius circle) doubleFuzz ∧
          R = max (pmCircleEffectiveMinRadius circle) doubleFuzz)) := by
  have hE : 0 < pmCircleEffectiveMinRadius circle := by
    rw [pmCircleEffectiveMinRadius_eq hr hspiral]
    positivity
  have hM : 0 < max (pmCircleEffectiveMinRadius circle) doubleFuzz := lt_max_of_lt_left hE
  have hcut : 0 < blendAccRatioNormal * a := mul_pos blendAccRatioNormal_pos ha
  unfold pmCircleActualMaxVel
  simp only [pmSq_real, fmax_real, pmSqrt_real]
  split
  · rename_i h
    refine ⟨blendAccRatioNormal * a, pmCircleEffectiveMinRadius circle, hcut, Real.sqrt_nonneg _,
      Real.sq_sqrt (mul_pos hcut hE).le, ?_, .inl ⟨(lt_div_iff₀ hM).1 h, rfl⟩⟩
    rw [mul_pow, mul_pow, blendAccRatioNormal_sq]
    ring
  · rename_i h
    refine ⟨v ^ 2 / max (pmCircleEffectiveMinRadius circle) doubleFuzz, _, by positivity, hv.le,
      (div_mul_cancel₀ _ hM.ne').symm, ?_, .inr ⟨(div_le_iff₀ hM).1 (not_lt.1 h), rfl⟩⟩
    have hratio : v ^ 2 / max (pmCircleEffectiveMinRadius circle) doubleFuzz / a ≤ blendAccRatioNormal :=
      (div_le_iff₀ ha).2 (not_lt.1 h)
    have hsq : (v ^ 2 / max (pmCircleEffectiveMinRadius circle) doubleFuzz / a) ^ 2 ≤ 1 := by
      calc (v ^ 2 / max (pmCircleEffectiveMinRadius circle) doubleFuzz / a) ^ 2
          ≤ blendAccRatioNormal ^ 2 := pow_le_pow_left₀ (by positivity) hratio 2
        _ = 1 - blendAccRatioTangential ^ 2 := blendAccRatioNormal_sq
        _ ≤ 1 := sub_le_self _ (sq_nonneg _)
    rw [mul_pow, Real.sq_sqrt (sub_nonneg.2 hsq)]
    field_simp

/-- The limits keep the acceleration when the radius they take the curve to have is not above its own. -/
theorem keepsAcceleration_iff {limits : PmCircleLimits ℝ} {n R : ℝ} (hr : 0 < circle.radius) (hn : 0 < n)
    (hvel : 0 ≤ limits.vMax) (hsq : limits.vMax ^ 2 = n * R) (hratio : (limits.accRatio * a) ^ 2 = a ^ 2 - n ^ 2) :
    KeepsAcceleration circle limits a ↔ R ≤ helixRadius circle := by
  have hden : 0 < circle.radius ^ 2 + (pmCartMag circle.rHelix / circle.angle) ^ 2 := by positivity
  have hnormal (w : ℝ) : w ^ 2 * circle.radius / (circle.radius ^ 2 + (pmCartMag circle.rHelix / circle.angle) ^ 2) =
      w ^ 2 / helixRadius circle := by
    rw [helixRadius, div_div_eq_mul_div]
  have hpos : 0 < helixRadius circle := div_pos hden hr
  unfold KeepsAcceleration
  simp only [hratio, hnormal]
  constructor
  · intro h
    have hmax := h limits.vMax hvel le_rfl
    have hle : n * R / helixRadius circle ≤ n := by
      rw [← hsq]
      exact le_of_sq_le_sq (by linarith) hn.le
    exact (mul_le_mul_iff_right₀ hn).1 ((div_le_iff₀ hpos).1 hle)
  · intro h w hw hle
    have hacc : w ^ 2 / helixRadius circle ≤ n := by
      rw [div_le_iff₀ hpos]
      calc w ^ 2
          ≤ limits.vMax ^ 2 := pow_le_pow_left₀ hw hle 2
        _ = n * R := hsq
        _ ≤ n * helixRadius circle := mul_le_mul_of_nonneg_left h hn.le
    have := pow_le_pow_left₀ (div_nonneg (sq_nonneg w) hpos.le) hacc 2
    linarith

/-- The effective radius is not above the radius of curvature. -/
theorem effectiveMinRadius_le_iff (hr : 0 < circle.radius) (hangle : 0 < circle.angle) (hspiral : circle.spiral = 0) :
    pmCircleEffectiveMinRadius circle ≤ helixRadius circle ↔ circle.angle ≤ 1 ∨ pmCartMag circle.rHelix = 0 := by
  rw [pmCircleEffectiveMinRadius_eq hr hspiral, helixRadius, div_le_div_iff_of_pos_right hr, add_le_add_iff_left,
    div_pow, le_div_iff₀ (pow_pos hangle 2)]
  have hh := sq_nonneg (pmCartMag circle.rHelix)
  constructor
  · intro h
    by_contra hnot
    rw [not_or, not_le] at hnot
    have hpos : 0 < pmCartMag circle.rHelix ^ 2 := lt_of_le_of_ne hh (Ne.symm (pow_ne_zero 2 hnot.2))
    exact absurd h (not_le.2 (lt_mul_of_one_lt_right hpos (one_lt_pow₀ hnot.1 two_ne_zero)))
  · rintro (h | h)
    · exact mul_le_of_le_one_right hh (pow_le_one₀ hangle.le h)
    · simp [h]

end Circle

/-- The limits of a circular segment keep its acceleration exactly when the effective radius holds. -/
theorem pmCircleActualMaxVel_iff (circle : PmCircle ℝ) (v a : ℝ) (hr : 0 < circle.radius) (hangle : 0 < circle.angle)
    (hspiral : circle.spiral = 0) (hv : 0 < v) (ha : 0 < a) :
    KeepsAcceleration circle (pmCircleActualMaxVel circle v a) a ↔ RadiusHolds circle v a := by
  obtain ⟨n, R, hn, hvel, hsq, hratio, hcase⟩ := pmCircleActualMaxVel_spec hr hspiral hv ha
  have hcut : 0 < blendAccRatioNormal * a := mul_pos blendAccRatioNormal_pos ha
  rw [keepsAcceleration_iff hr hn hvel hsq hratio, RadiusHolds, ← effectiveMinRadius_le_iff hr hangle hspiral]
  rcases hcase with ⟨hfast, rfl⟩ | ⟨hslow, rfl⟩
  · refine ⟨fun h => ⟨h, ?_⟩, fun h => h.1⟩
    by_cases hfuzz : doubleFuzz ≤ pmCircleEffectiveMinRadius circle
    · exact .inl (hfuzz.trans h)
    · rw [max_eq_right (not_le.1 hfuzz).le] at hfast
      exact .inr hfast
  · rw [max_le_iff]
    refine ⟨fun h => ⟨h.1, .inl h.2⟩, fun ⟨h, hor⟩ => ⟨h, ?_⟩⟩
    rcases hor with hfuzz | hfuzz
    · exact hfuzz
    · -- the lower bound is not in effect, so it is below the effective radius
      have hlt := (mul_lt_mul_iff_right₀ hcut).1 (hfuzz.trans_le hslow)
      rcases lt_max_iff.1 hlt with hE | hE
      · exact hE.le.trans h
      · exact absurd hE (lt_irrefl _)

/-- An arc of the unit circle that rises by one. -/
def risingArc (angle : ℝ) : PmCircle ℝ where
  center := ⟨0, 0, 0⟩
  normal := ⟨0, 0, 1⟩
  rTan := ⟨1, 0, 0⟩
  rPerp := ⟨0, 1, 0⟩
  rHelix := ⟨0, 0, 1⟩
  radius := 1
  angle := angle
  spiral := 0

theorem pmCircleActualMaxVel_iff_radian :
    KeepsAcceleration (risingArc 1) (pmCircleActualMaxVel (risingArc 1) 1 1) 1 ↔ RadiusHolds (risingArc 1) 1 1 :=
  pmCircleActualMaxVel_iff (risingArc 1) 1 1 one_pos one_pos rfl one_pos one_pos

/-- A helix of two radians. -/
theorem risingArc_accelerates : ¬ KeepsAcceleration (risingArc 2) (pmCircleActualMaxVel (risingArc 2) 1 1) 1 := by
  have hr : 0 < (risingArc 2).radius := one_pos
  obtain ⟨n, R, hn, hvel, hsq, hratio, hcase⟩ := pmCircleActualMaxVel_spec (v := 1) (a := 1) hr rfl one_pos one_pos
  have hle : pmCircleEffectiveMinRadius (risingArc 2) ≤ R := by
    rcases hcase with ⟨-, rfl⟩ | ⟨-, rfl⟩
    · exact le_rfl
    · exact le_max_left _ _
  rw [keepsAcceleration_iff hr hn hvel hsq hratio]
  intro h
  rcases (effectiveMinRadius_le_iff hr two_pos rfl).1 (hle.trans h) with hangle | hflat
  · exact absurd hangle (not_le.2 one_lt_two)
  · rw [pmCartMag_real] at hflat
    norm_num [risingArc] at hflat

end SoemMotion
