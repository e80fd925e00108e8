import Mathlib.Analysis.SpecialFunctions.Trigonometric.Deriv
import SoemMotion.SpiralFit

/-!
# The circle through a start and an end

`pmCircleInit` measures the angle from the radius to the start to the radius to the end with an arc cosine, and takes
the side of the plane from a triple product.  Where neither is too close to zero the angle is the swept one, and the
circle it returns starts and ends at the points it was made from, whatever it grows, rises and turns in between.  The
slope that `SpiralFit` compares with the progress is the speed of its points.
-/

namespace SoemMotion

open Real

/-! ### The plane of the circle -/

/-- The centre, moved into the plane of the start. -/
noncomputable def circleCenter (start center normal : PmCartesian ℝ) : PmCartesian ℝ :=
  pmCartCartAdd (pmCartCartProj (pmCartCartSub start center) normal) center

/-- The unit normal, which a negative turn points the other way. -/
noncomputable def circleNormal (normal : PmCartesian ℝ) (turn : Int) : PmCartesian ℝ :=
  if turn < 0 then pmCartScalMult (pmCartUnit normal) (-1) else pmCartUnit normal

/-- The vector of the plane at an angle from the vector `t`. -/
noncomputable def planeVector (t n : PmCartesian ℝ) (x : ℝ) : PmCartesian ℝ :=
  pmCartCartAdd (pmCartScalMult t (cos x)) (pmCartScalMult (pmCartCartCross n t) (sin x))

section Plane

variable {t n : PmCartesian ℝ} {r : ℝ}

/-- A unit normal and a vector of the length `r` perpendicular to it. -/
structure Radial (t n : PmCartesian ℝ) (r : ℝ) : Prop where
  pos : 0 < r
  unit : pmCartCartDot n n = 1
  sq : pmCartCartDot t t = r ^ 2
  perp : pmCartCartDot n t = 0

theorem dot_cross_self (h : Radial t n r) : pmCartCartDot (pmCartCartCross n t) (pmCartCartCross n t) = r ^ 2 := by
  have hlagrange : pmCartCartDot (pmCartCartCross n t) (pmCartCartCross n t) =
      pmCartCartDot n n * pmCartCartDot t t - pmCartCartDot n t ^ 2 := by
    simp only [pmCartCartDot, pmCartCartCross]
    ring
  rw [hlagrange, h.unit, h.sq, h.perp]
  ring

theorem dot_cross_right (t n : PmCartesian ℝ) : pmCartCartDot t (pmCartCartCross n t) = 0 := by
  simp only [pmCartCartDot, pmCartCartCross]
  ring

theorem dot_cross_left (t n : PmCartesian ℝ) : pmCartCartDot n (pmCartCartCross n t) = 0 := by
  simp only [pmCartCartDot, pmCartCartCross]
  ring

theorem planeVector_sq (h : Radial t n r) (x : ℝ) : pmCartCartDot (planeVector t n x) (planeVector t n x) = r ^ 2 := by
  simp only [planeVector, pmCartCartDot_add_left, pmCartCartDot_add_right, pmCartCartDot_scal_left,
    pmCartCartDot_scal_right, h.sq, dot_cross_self h, dot_cross_right, pmCartCartDot_comm (pmCartCartCross n t) t]
  linear_combination r ^ 2 * sin_sq_add_cos_sq x

theorem dot_planeVector (h : Radial t n r) (x : ℝ) : pmCartCartDot t (planeVector t n x) = r ^ 2 * cos x := by
  simp only [planeVector, pmCartCartDot_add_right, pmCartCartDot_scal_right, h.sq, dot_cross_right]
  ring

/-- The triple product has the sign of the sine. -/
theorem triple_planeVector (h : Radial t n r) (x : ℝ) :
    pmCartCartDot (pmCartCartCross t (planeVector t n x)) n = r ^ 2 * sin x := by
  have htriple : pmCartCartDot (pmCartCartCross t (planeVector t n x)) n =
      sin x * (pmCartCartDot n n * pmCartCartDot t t - pmCartCartDot n t ^ 2) := by
    simp only [planeVector, pmCartCartDot, pmCartCartCross, pmCartCartAdd, pmCartScalMult]
    ring
  rw [htriple, h.unit, h.sq, h.perp]
  ring

theorem planeVector_mag (h : Radial t n r) (x : ℝ) : pmCartMag (planeVector t n x) = r :=
  pmCartMag_eq_of_dot h.pos.le (planeVector_sq h x)

theorem planeVector_zero (t n : PmCartesian ℝ) : planeVector t n 0 = t := by
  simp [planeVector, pmCartCartAdd, pmCartScalMult]

theorem cartFuzz_pos : (0 : ℝ) < cartFuzz := by
  unfold cartFuzz
  norm_num

/-- The angle that is measured is the swept one. -/
theorem pmCircleSweep_eq (h : Radial t n r) {x : ℝ} (hx : 0 ≤ x) (hx' : x < 2 * π)
    (hclear : x = π ∨ cartFuzz ≤ r ^ 2 * |sin x|) : pmCircleSweep t (planeVector t n x) n r = x := by
  have hcos : pmCartCartDot t (planeVector t n x) / (r * r) = cos x := by
    rw [dot_planeVector h, ← sq, mul_div_cancel_left₀ _ (pow_ne_zero 2 h.pos.ne')]
  unfold pmCircleSweep
  simp only [hcos, triple_planeVector h, not_lt.2 (cos_le_one x), not_lt.2 (neg_one_le_cos x), if_false, acos_real,
    pi_real]
  rcases hclear with rfl | hclear
  · rw [sin_pi, mul_zero, if_pos cartFuzz_pos, cos_pi, arccos_neg_one]
    ring
  · by_cases hle : x ≤ π
    · rw [abs_of_nonneg (sin_nonneg_of_nonneg_of_le_pi hx hle)] at hclear
      rw [if_neg (not_lt.2 hclear), arccos_cos hx hle]
    · -- the reflex angle: the arc cosine is measured the other way round
      have hback : sin x = -sin (2 * π - x) := by rw [sin_two_pi_sub, neg_neg]
      have hpos : 0 ≤ sin (2 * π - x) := sin_nonneg_of_nonneg_of_le_pi (by linarith) (by linarith [not_le.1 hle])
      have hneg : r ^ 2 * sin x < cartFuzz := by
        have := mul_nonneg (sq_nonneg r) hpos
        have := cartFuzz_pos
        rw [hback]
        linarith
      rw [if_pos hneg, ← cos_two_pi_sub, arccos_cos (by linarith) (by linarith [not_le.1 hle])]
      ring

end Plane

/-! ### A circular move -/

/-- The radius to the start. -/
noncomputable def startRadius (start center normal : PmCartesian ℝ) : PmCartesian ℝ :=
  pmCartCartSub start (circleCenter start center normal)

/-- The radius to the projection of the end. -/
noncomputable def endRadius (start stop center normal : PmCartesian ℝ) (turn : Int) : PmCartesian ℝ :=
  pmCartPlaneProj (pmCartCartSub stop (circleCenter start center normal)) (circleNormal normal turn)

/-- A move whose radii are not zero, and whose start and end are either at the same place of the plane or far enough
apart, with a swept angle whose sine the triple product can tell from zero. -/
structure CircleMove (start stop center normal : PmCartesian ℝ) (turn : Int) : Prop where
  normal_ne : normal ≠ ⟨0, 0, 0⟩
  start_pos : 0 < pmCartMag (startRadius start center normal)
  stop_pos : 0 < pmCartMag (endRadius start stop center normal turn)
  swept : pmCartPlaneProj start normal = pmCartPlaneProj stop normal ∨
    cartFuzz ≤ pmCartCartDisp (pmCartPlaneProj start normal) (pmCartPlaneProj stop normal) ∧
      ∃ alpha, 0 ≤ alpha ∧ alpha < 2 * π ∧
        endRadius start stop center normal turn =
          pmCartScalMult (planeVector (startRadius start center normal) (circleNormal normal turn) alpha)
            (pmCartMag (endRadius start stop center normal turn) / pmCartMag (startRadius start center normal)) ∧
        (alpha = π ∨ cartFuzz ≤ pmCartMag (startRadius start center normal) ^ 2 * |sin alpha|)

section Move

variable {start stop center normal : PmCartesian ℝ} {turn : Int}

theorem dot_self_pos {v : PmCartesian ℝ} (h : v ≠ ⟨0, 0, 0⟩) : 0 < pmCartCartDot v v :=
  lt_of_le_of_ne (pmCartCartDot_self_nonneg v) fun hzero => h ((pmCartCartDot_self_eq_zero_iff v).1 hzero.symm)

/-- The normal of the circle is a multiple of the given one. -/
theorem circleNormal_eq (h : normal ≠ ⟨0, 0, 0⟩) (turn : Int) : ∃ k, circleNormal normal turn =
    pmCartScalMult normal k ∧
    k ^ 2 * pmCartCartDot normal normal = 1 := by
  have hpos := dot_self_pos h
  have hsqrt := Real.sqrt_pos.2 hpos
  have hunit : pmCartUnit normal = pmCartScalMult normal (1 / √(pmCartCartDot normal normal)) :=
    pmCartUnit_of_mag (pmCartMag_eq_dot normal) hsqrt.ne'
  have hone : (1 / √(pmCartCartDot normal normal)) ^ 2 * pmCartCartDot normal normal = 1 := by
    rw [div_pow, Real.sq_sqrt hpos.le, one_pow, one_div_mul_cancel hpos.ne']
  unfold circleNormal
  split
  · refine ⟨-(1 / √(pmCartCartDot normal normal)), ?_, by rw [neg_sq, hone]⟩
    rw [hunit]
    simp [pmCartScalMult]
  · exact ⟨1 / √(pmCartCartDot normal normal), hunit, hone⟩

theorem dot_startRadius (h : normal ≠ ⟨0, 0, 0⟩) : pmCartCartDot normal (startRadius start center normal) = 0 := by
  have hpos := (dot_self_pos h).ne'
  have hsub : startRadius start center normal = pmCartCartSub (pmCartCartSub start center)
      (pmCartCartProj (pmCartCartSub start center) normal) := by
    simp only [startRadius, circleCenter, pmCartCartSub, pmCartCartAdd, PmCartesian.mk.injEq]
    refine ⟨?_, ?_, ?_⟩ <;> ring
  rw [hsub, pmCartCartDot_sub_right, pmCartCartProj, pmCartCartDot_scal_right, div_mul_cancel₀ _ hpos,
    pmCartCartDot_comm, sub_self]

/-- The frame of the circle. -/
theorem CircleMove.radial (h : CircleMove start stop center normal turn) :
    Radial (startRadius start center normal) (circleNormal normal turn)
      (pmCartMag (startRadius start center normal)) := by
  obtain ⟨k, hk, hone⟩ := circleNormal_eq h.normal_ne turn
  refine ⟨h.start_pos, ?_, ?_, ?_⟩
  · rw [hk, pmCartCartDot_scal_left, pmCartCartDot_scal_right, ← mul_assoc, ← sq, hone]
  · rw [pmCartMag_eq_dot, Real.sq_sqrt (pmCartCartDot_self_nonneg _)]
  · rw [hk, pmCartCartDot_scal_left, dot_startRadius h.normal_ne, mul_zero]

theorem pmCartPlaneProj_sub (u v n : PmCartesian ℝ) :
    pmCartPlaneProj (pmCartCartSub u v) n = pmCartCartSub (pmCartPlaneProj u n) (pmCartPlaneProj v n) := by
  simp only [pmCartPlaneProj, pmCartCartProj, pmCartCartDot_sub_left, sub_div]
  simp only [pmCartCartSub, pmCartScalMult, PmCartesian.mk.injEq]
  refine ⟨?_, ?_, ?_⟩ <;> ring

theorem pmCartPlaneProj_scal (v n : PmCartesian ℝ) {k : ℝ} (hk : k ≠ 0) :
    pmCartPlaneProj v (pmCartScalMult n k) = pmCartPlaneProj v n := by
  have hscale : k * pmCartCartDot v n / (k * (k * pmCartCartDot n n)) * k = pmCartCartDot v n / pmCartCartDot n n := by
    field_simp
  simp only [pmCartPlaneProj, pmCartCartProj, pmCartCartDot_scal_left, pmCartCartDot_scal_right]
  rw [← hscale]
  simp only [pmCartCartSub, pmCartScalMult, PmCartesian.mk.injEq]
  refine ⟨?_, ?_, ?_⟩ <;> ring

theorem pmCartPlaneProj_of_perp {v n : PmCartesian ℝ} (h : pmCartCartDot v n = 0) : pmCartPlaneProj v n = v := by
  simp [pmCartPlaneProj, pmCartCartProj, h, pmCartCartSub, pmCartScalMult]

/-- The projections of the start and the end at the same place give the same radius. -/
theorem endRadius_eq_start (h : normal ≠ ⟨0, 0, 0⟩)
    (hsame : pmCartPlaneProj start normal = pmCartPlaneProj stop normal) :
    endRadius start stop center normal turn = startRadius start center normal := by
  obtain ⟨k, hk, hone⟩ := circleNormal_eq h turn
  have hne : k ≠ 0 := by
    rintro rfl
    norm_num at hone
  rw [endRadius, hk, pmCartPlaneProj_scal _ _ hne, pmCartPlaneProj_sub, ← hsame, ← pmCartPlaneProj_sub]
  exact pmCartPlaneProj_of_perp (by rw [pmCartCartDot_comm]; exact dot_startRadius h)

theorem pmCartCartDisp_eq (u v : PmCartesian ℝ) : pmCartCartDisp u v = pmCartMag (pmCartCartSub u v) := by
  unfold pmCartCartDisp pmCartMag pmCartCartSub pmSq
  congr 1
  ring

/-- The vector `rEnd` of `pmCircleInit`. -/
noncomputable def scaledEnd (start stop center normal : PmCartesian ℝ) (turn : Int) : PmCartesian ℝ :=
  let rScaled := pmCartScalMult (pmCartUnit (endRadius start stop center normal turn))
    (pmCartCartDisp start (circleCenter start center normal))
  if pmCartMag rScaled == 0 then
    pmCartCartAdd rScaled (pmCartScalMult (circleNormal normal turn) doubleFuzz) else rScaled

/-- The angle without whole turns. -/
noncomputable def singleAngle (start stop center normal : PmCartesian ℝ) (turn : Int) : ℝ :=
  if pmCartCartDisp (pmCartPlaneProj start normal) (pmCartPlaneProj stop normal) < cartFuzz then 2 * π
  else pmCircleSweep (startRadius start center normal) (scaledEnd start stop center normal turn)
    (circleNormal normal turn) (pmCartCartDisp start (circleCenter start center normal))

/-- The number of whole turns. -/
def wholeTurns (turn : Int) : Int := if turn < 0 then -1 - turn else turn

theorem pmCircleInit_angle (hpos : 0 < singleAngle start stop center normal turn) :
    (pmCircleInit start stop center normal turn).angle =
      if 0 < wholeTurns turn then singleAngle start stop center normal turn + (wholeTurns turn : ℝ) * 2 * π
      else singleAngle start stop center normal turn := by
  have hne : (if 0 < wholeTurns turn then singleAngle start stop center normal turn + (wholeTurns turn : ℝ) * 2 * π
      else singleAngle start stop center normal turn) ≠ 0 := by
    split
    · rename_i h
      have : (0 : ℝ) < wholeTurns turn := by exact_mod_cast h
      have := pi_pos
      positivity
    · exact hpos.ne'
  have heq : (pmCircleInit start stop center normal turn).angle =
      if (if 0 < wholeTurns turn then singleAngle start stop center normal turn + (wholeTurns turn : ℝ) * 2 * π
        else singleAngle start stop center normal turn) == 0 then
        (if 0 < wholeTurns turn then singleAngle start stop center normal turn + (wholeTurns turn : ℝ) * 2 * π
          else singleAngle start stop center normal turn) + circleFuzz / 2
      else if 0 < wholeTurns turn then singleAngle start stop center normal turn + (wholeTurns turn : ℝ) * 2 * π
        else singleAngle start stop center normal turn := rfl
  rw [heq, beq_real, decide_eq_false hne]
  rfl

theorem scal_cancel (v : PmCartesian ℝ) {a b : ℝ} (ha : a ≠ 0) (hb : b ≠ 0) :
    pmCartScalMult (pmCartScalMult (pmCartScalMult v (a / b)) (1 / a)) b = v := by
  ext <;> simp only [pmCartScalMult] <;> field_simp

theorem scaledEnd_eq (h : CircleMove start stop center normal turn) {alpha : ℝ}
    (hend : endRadius start stop center normal turn =
      pmCartScalMult (planeVector (startRadius start center normal) (circleNormal normal turn) alpha)
        (pmCartMag (endRadius start stop center normal turn) / pmCartMag (startRadius start center normal))) :
    scaledEnd start stop center normal turn =
      planeVector (startRadius start center normal) (circleNormal normal turn) alpha := by
  have hscaled : pmCartScalMult (pmCartUnit (endRadius start stop center normal turn))
      (pmCartCartDisp start (circleCenter start center normal)) =
      planeVector (startRadius start center normal) (circleNormal normal turn) alpha := by
    rw [pmCartUnit_of_mag rfl h.stop_pos.ne', pmCartCartDisp_eq, ← startRadius,
      ← scal_cancel (planeVector (startRadius start center normal) (circleNormal normal turn) alpha) h.stop_pos.ne'
        h.start_pos.ne', ← hend]
  unfold scaledEnd
  simp only [hscaled, planeVector_mag h.radial, beq_real, h.start_pos.ne', decide_false, Bool.false_eq_true, if_false]

/-- A start and an end at the same place of the plane make a full turn. -/
theorem singleAngle_same (hsame : pmCartPlaneProj start normal = pmCartPlaneProj stop normal) :
    singleAngle start stop center normal turn = 2 * π := by
  have hzero : pmCartCartDisp (pmCartPlaneProj start normal) (pmCartPlaneProj stop normal) < cartFuzz := by
    rw [hsame, pmCartCartDisp_eq, pmCartMag_real]
    simpa [pmCartCartSub] using cartFuzz_pos
  rw [singleAngle, if_pos hzero]

/-- A start and an end far enough apart make the swept angle. -/
theorem CircleMove.singleAngle_swept (h : CircleMove start stop center normal turn)
    (hapart : cartFuzz ≤ pmCartCartDisp (pmCartPlaneProj start normal) (pmCartPlaneProj stop normal)) {alpha : ℝ}
    (hα : 0 ≤ alpha) (hα' : alpha < 2 * π) (hend : endRadius start stop center normal turn =
      pmCartScalMult (planeVector (startRadius start center normal) (circleNormal normal turn) alpha)
        (pmCartMag (endRadius start stop center normal turn) / pmCartMag (startRadius start center normal)))
    (hclear : alpha = π ∨ cartFuzz ≤ pmCartMag (startRadius start center normal) ^ 2 * |sin alpha|) :
    singleAngle start stop center normal turn = alpha := by
  rw [singleAngle, if_neg (not_lt.2 hapart), scaledEnd_eq h hend, pmCartCartDisp_eq]
  exact pmCircleSweep_eq h.radial hα hα' hclear

/-- The end lies at the angle of the circle. -/
theorem CircleMove.single (h : CircleMove start stop center normal turn) :
    0 < singleAngle start stop center normal turn ∧ endRadius start stop center normal turn =
      pmCartScalMult (planeVector (startRadius start center normal) (circleNormal normal turn)
        (singleAngle start stop center normal turn))
        (pmCartMag (endRadius start stop center normal turn) / pmCartMag (startRadius start center normal)) := by
  rcases h.swept with hsame | ⟨hapart, alpha, hα, hα', hend, hclear⟩
  · have hfull : planeVector (startRadius start center normal) (circleNormal normal turn) (2 * π) =
        startRadius start center normal := by
      simp [planeVector, pmCartCartAdd, pmCartScalMult]
    rw [singleAngle_same hsame, hfull, endRadius_eq_start h.normal_ne hsame, div_self h.start_pos.ne']
    exact ⟨two_pi_pos, by simp [pmCartScalMult]⟩
  · have hangle := h.singleAngle_swept hapart hα hα' hend hclear
    have hne : alpha ≠ 0 := by
      rintro rfl
      rcases hclear with hπ | hclear
      · exact pi_pos.ne hπ
      · rw [sin_zero, abs_zero, mul_zero] at hclear
        exact absurd hclear (not_le.2 cartFuzz_pos)
    rw [hangle]
    exact ⟨lt_of_le_of_ne hα hne.symm, hend⟩

end Move

/-! ### Points of a circle -/

/-- The vectors of a circle: a radius, the perpendicular to it in its plane, and a rise along its normal. -/
structure PmCircle.Framed (circle : PmCircle ℝ) : Prop where
  radial : Radial circle.rTan circle.normal circle.radius
  perp : circle.rPerp = pmCartCartCross circle.normal circle.rTan
  helix : ∃ k, circle.rHelix = pmCartScalMult circle.normal k

section Point

variable {circle : PmCircle ℝ} {x : ℝ}

theorem pmCirclePoint_eq (h : circle.Framed) (ha : circle.angle ≠ 0) (x : ℝ) : pmCirclePoint circle x =
    pmCartCartAdd circle.center
      (pmCartCartAdd (pmCartScalMult (planeVector circle.rTan circle.normal x)
        (1 + x / circle.angle * circle.spiral / circle.radius)) (pmCartScalMult circle.rHelix (x / circle.angle))) := by
  have hradial : pmCartCartAdd (pmCartScalMult circle.rTan (Arith.cos x)) (pmCartScalMult circle.rPerp (Arith.sin x)) =
      planeVector circle.rTan circle.normal x := by rw [h.perp]; rfl
  have hunit : pmCartUnit (planeVector circle.rTan circle.normal x) =
      pmCartScalMult (planeVector circle.rTan circle.normal x) (1 / circle.radius) :=
    pmCartUnit_of_mag (planeVector_mag h.radial x) h.radial.pos.ne'
  unfold pmCirclePoint
  simp only [hradial, hunit, beq_real, ha, decide_false, Bool.false_eq_true, if_false]
  simp only [pmCartCartAdd, pmCartScalMult, PmCartesian.mk.injEq]
  refine ⟨?_, ?_, ?_⟩ <;> ring

theorem pmCirclePoint_zero (h : circle.Framed) (ha : circle.angle ≠ 0) :
    pmCirclePoint circle 0 = pmCartCartAdd circle.center circle.rTan := by
  rw [pmCirclePoint_eq h ha, planeVector_zero]
  simp [pmCartCartAdd, pmCartScalMult]

theorem pmCirclePoint_angle (h : circle.Framed) (ha : circle.angle ≠ 0) : pmCirclePoint circle circle.angle =
    pmCartCartAdd circle.center (pmCartCartAdd (pmCartScalMult (planeVector circle.rTan circle.normal circle.angle)
      ((circle.radius + circle.spiral) / circle.radius)) circle.rHelix) := by
  have hr := h.radial.pos.ne'
  rw [pmCirclePoint_eq h ha, div_self ha, one_mul, add_div, div_self hr]
  simp [pmCartScalMult]

theorem dot_planeVector_planeVector {t n : PmCartesian ℝ} {r : ℝ} (h : Radial t n r) (x y : ℝ) :
    pmCartCartDot (planeVector t n x) (planeVector t n y) = r ^ 2 * cos (x - y) := by
  simp only [planeVector, pmCartCartDot_add_left, pmCartCartDot_add_right, pmCartCartDot_scal_left,
    pmCartCartDot_scal_right, h.sq, dot_cross_self h, dot_cross_right, pmCartCartDot_comm (pmCartCartCross n t) t,
    cos_sub]
  ring

theorem dot_normal_planeVector {t n : PmCartesian ℝ} {r : ℝ} (h : Radial t n r) (x : ℝ) :
    pmCartCartDot n (planeVector t n x) = 0 := by
  simp only [planeVector, pmCartCartDot_add_right, pmCartCartDot_scal_right, h.perp, dot_cross_left, mul_zero, add_zero]

/-- The derivative of the point by the angle. -/
noncomputable def circleVelocity (circle : PmCircle ℝ) (x : ℝ) : PmCartesian ℝ :=
  pmCartCartAdd (pmCartCartAdd
    (pmCartScalMult (planeVector circle.rTan circle.normal x) (circle.spiral / circle.angle / circle.radius))
    (pmCartScalMult (planeVector circle.rTan circle.normal (x + π / 2))
      (1 + x / circle.angle * circle.spiral / circle.radius)))
    (pmCartScalMult circle.rHelix (1 / circle.angle))

theorem hasDerivAt_coordinate {f : ℝ → ℝ} {f' : ℝ} (c a b h k m x : ℝ)
    (hf : ∀ y, f y = c + ((a * cos y + b * sin y) * (1 + y * k) + h * (y * m)))
    (hf' : f' = (a * cos x + b * sin x) * k + (a * cos (x + π / 2) + b * sin (x + π / 2)) * (1 + x * k) + h * m) :
    HasDerivAt f f' x := by
  rw [funext hf, hf', cos_add_pi_div_two, sin_add_pi_div_two]
  have hdir := ((hasDerivAt_cos x).const_mul a).add ((hasDerivAt_sin x).const_mul b)
  have hscale := ((hasDerivAt_id x).mul_const k).const_add 1
  have hrise := ((hasDerivAt_id x).mul_const m).const_mul h
  exact (((hdir.mul hscale).add hrise).const_add c).congr_deriv (by simp; ring)

theorem circleVelocity_mag (h : circle.Framed) : pmCartMag (circleVelocity circle x) = pathSlope circle x := by
  obtain ⟨k, hk⟩ := h.helix
  have hr := h.radial.pos.ne'
  have hcross : cos (x - (x + π / 2)) = 0 := by rw [sub_add_cancel_left, cos_neg, cos_pi_div_two]
  have hcross' : cos (x + π / 2 - x) = 0 := by rw [add_sub_cancel_left, cos_pi_div_two]
  have hhelix : pmCartMag circle.rHelix ^ 2 = k ^ 2 := by
    rw [pmCartMag_eq_dot, Real.sq_sqrt (pmCartCartDot_self_nonneg _), hk, pmCartCartDot_scal_left,
      pmCartCartDot_scal_right, h.radial.unit]
    ring
  rw [pmCartMag_eq_dot, pathSlope, div_pow (pmCartMag circle.rHelix), hhelix]
  congr 1
  simp only [circleVelocity, hk, pmCartCartDot_add_left, pmCartCartDot_add_right, pmCartCartDot_scal_left,
    pmCartCartDot_scal_right, dot_planeVector_planeVector h.radial, dot_normal_planeVector h.radial, h.radial.unit,
    pmCartCartDot_comm _ circle.normal, sub_self, cos_zero, hcross, hcross']
  field_simp
  ring

/-- The point moves along the circle with the slope of the path. -/
theorem pmCirclePoint_speed (h : circle.Framed) (ha : circle.angle ≠ 0) (x : ℝ) :
    HasDerivAt (fun y => (pmCirclePoint circle y).x) (circleVelocity circle x).x x ∧
    HasDerivAt (fun y => (pmCirclePoint circle y).y) (circleVelocity circle x).y x ∧
    HasDerivAt (fun y => (pmCirclePoint circle y).z) (circleVelocity circle x).z x ∧
    pmCartMag (circleVelocity circle x) = pathSlope circle x := by
  have hpoint := pmCirclePoint_eq h ha
  refine ⟨?_, ?_, ?_, circleVelocity_mag h⟩
  · refine hasDerivAt_coordinate circle.center.x circle.rTan.x (pmCartCartCross circle.normal circle.rTan).x
      circle.rHelix.x (circle.spiral / circle.angle / circle.radius) (1 / circle.angle) x (fun y => ?_) ?_
    · simp only [hpoint, planeVector, pmCartCartAdd, pmCartScalMult]
      ring
    · simp only [circleVelocity, planeVector, pmCartCartAdd, pmCartScalMult]
      ring
  · refine hasDerivAt_coordinate circle.center.y circle.rTan.y (pmCartCartCross circle.normal circle.rTan).y
      circle.rHelix.y (circle.spiral / circle.angle / circle.radius) (1 / circle.angle) x (fun y => ?_) ?_
    · simp only [hpoint, planeVector, pmCartCartAdd, pmCartScalMult]
      ring
    · simp only [circleVelocity, planeVector, pmCartCartAdd, pmCartScalMult]
      ring
  · refine hasDerivAt_coordinate circle.center.z circle.rTan.z (pmCartCartCross circle.normal circle.rTan).z
      circle.rHelix.z (circle.spiral / circle.angle / circle.radius) (1 / circle.angle) x (fun y => ?_) ?_
    · simp only [hpoint, planeVector, pmCartCartAdd, pmCartScalMult]
      ring
    · simp only [circleVelocity, planeVector, pmCartCartAdd, pmCartScalMult]
      ring

/-- At no angle is the point faster than the progress. -/
def PmCircle.PointsNeverFaster (circle : PmCircle ℝ) : Prop :=
  ∀ x ∈ Set.Icc 0 circle.angle, ∀ v : PmCartesian ℝ, HasDerivAt (fun y => (pmCirclePoint circle y).x) v.x x →
    HasDerivAt (fun y => (pmCirclePoint circle y).y) v.y x → HasDerivAt (fun y => (pmCirclePoint circle y).z) v.z x →
      pmCartMag v ≤ deriv (progressAt circle) x

/-- The slope of the path is the speed of the point. -/
theorem PmCircle.Framed.neverFaster_iff (h : circle.Framed) (ha : circle.angle ≠ 0) :
    NeverFaster circle ↔ circle.PointsNeverFaster := by
  refine forall₂_congr fun x _ => ⟨fun hslope v hx hy hz => ?_, fun hpoints => ?_⟩
  · obtain ⟨hx', hy', hz', hmag⟩ := pmCirclePoint_speed h ha x
    have hv : v = circleVelocity circle x := by
      ext
      · exact hx.unique hx'
      · exact hy.unique hy'
      · exact hz.unique hz'
    rw [hv, hmag]
    exact hslope
  · obtain ⟨hx, hy, hz, hmag⟩ := pmCirclePoint_speed h ha x
    rw [← hmag]
    exact hpoints _ hx hy hz

end Point

/-! ### The circle of a move -/

section Init

variable {start stop center normal : PmCartesian ℝ} {turn : Int}

theorem CircleMove.framed (h : CircleMove start stop center normal turn) :
    (pmCircleInit start stop center normal turn).Framed := by
  refine ⟨?_, rfl, ?_⟩
  · show Radial (startRadius start center normal) (circleNormal normal turn)
      (pmCartCartDisp start (circleCenter start center normal))
    rw [pmCartCartDisp_eq]
    exact h.radial
  · refine ⟨pmCartCartDot (pmCartCartSub stop (circleCenter start center normal)) (circleNormal normal turn) /
      pmCartCartDot (circleNormal normal turn) (circleNormal normal turn), ?_⟩
    show pmCartCartSub (pmCartCartSub stop (circleCenter start center normal))
      (endRadius start stop center normal turn) = pmCartScalMult (circleNormal normal turn) _
    simp [endRadius, pmCartPlaneProj, pmCartCartProj, pmCartCartSub, pmCartScalMult]

/-- The angle is the swept one, with whole turns added. -/
theorem CircleMove.angle_eq (h : CircleMove start stop center normal turn) : ∃ k : ℕ,
    (pmCircleInit start stop center normal turn).angle = singleAngle start stop center normal turn + k * (2 * π) := by
  have hturns : (0 : Int) ≤ wholeTurns turn := by
    unfold wholeTurns
    split <;> omega
  obtain ⟨k, hk⟩ := Int.eq_ofNat_of_zero_le hturns
  refine ⟨k, ?_⟩
  rw [pmCircleInit_angle h.single.1, hk]
  split
  · rw [Int.cast_natCast]
    ring
  · rename_i hzero
    have : k = 0 := by simpa using hzero
    rw [this, Nat.cast_zero, zero_mul, add_zero]

theorem pmCircleInit_radius (start stop center normal : PmCartesian ℝ) (turn : Int) :
    (pmCircleInit start stop center normal turn).radius = pmCartMag (startRadius start center normal) :=
  pmCartCartDisp_eq start (circleCenter start center normal)

/-- The radius and its growth add up to the radius at the end. -/
theorem pmCircleInit_spiral (start stop center normal : PmCartesian ℝ) (turn : Int) :
    (pmCircleInit start stop center normal turn).radius + (pmCircleInit start stop center normal turn).spiral =
      pmCartMag (endRadius start stop center normal turn) :=
  add_sub_cancel _ _

theorem CircleMove.proper (h : CircleMove start stop center normal turn) :
    (pmCircleInit start stop center normal turn).Proper := by
  refine ⟨?_, ?_, ?_⟩
  · obtain ⟨k, hk⟩ := h.angle_eq
    rw [hk]
    have := h.single.1
    have := pi_pos
    positivity
  · rw [pmCircleInit_radius]
    exact h.start_pos
  · rw [pmCircleInit_spiral]
    exact h.stop_pos.le

theorem CircleMove.point_start (h : CircleMove start stop center normal turn) :
    pmCirclePoint (pmCircleInit start stop center normal turn) 0 = start := by
  rw [pmCirclePoint_zero h.framed h.proper.angle.ne']
  show pmCartCartAdd (circleCenter start center normal) (startRadius start center normal) = start
  simp [startRadius, pmCartCartAdd, pmCartCartSub]

/-- The end is reached whatever the circle grows and rises, and after any number of turns. -/
theorem CircleMove.point_stop (h : CircleMove start stop center normal turn) :
    pmCirclePoint (pmCircleInit start stop center normal turn)
    (pmCircleInit start stop center normal turn).angle = stop := by
  have hturns : planeVector (startRadius start center normal) (circleNormal normal turn)
      (pmCircleInit start stop center normal turn).angle =
      planeVector (startRadius start center normal) (circleNormal normal turn)
        (singleAngle start stop center normal turn) := by
    obtain ⟨k, hk⟩ := h.angle_eq
    rw [hk, planeVector, cos_add_nat_mul_two_pi, sin_add_nat_mul_two_pi, planeVector]
  rw [pmCirclePoint_angle h.framed h.proper.angle.ne', pmCircleInit_spiral, pmCircleInit_radius]
  show pmCartCartAdd (circleCenter start center normal) (pmCartCartAdd (pmCartScalMult (planeVector
    (startRadius start center normal) (circleNormal normal turn) (pmCircleInit start stop center normal turn).angle) _)
    (pmCartCartSub (pmCartCartSub stop (circleCenter start center normal))
      (endRadius start stop center normal turn))) = stop
  rw [hturns, ← h.single.2]
  simp [pmCartCartAdd, pmCartCartSub]

/-- On the circle of a move no point is faster than the progress exactly if the circle does not rise or is no
spiral. -/
theorem CircleMove.pointsNeverFaster_iff (h : CircleMove start stop center normal turn) :
    (pmCircleInit start stop center normal turn).PointsNeverFaster ↔
      pmCartMag (pmCircleInit start stop center normal turn).rHelix = 0 ∨
        (pmCircleInit start stop center normal turn).spiral = 0 := by
  rw [← h.framed.neverFaster_iff h.proper.angle.ne']
  refine ⟨neverFaster_inner h.proper, fun hor => ?_⟩
  rcases hor with hflat | hcircle
  · exact neverFaster_flat h.proper hflat
  · exact neverFaster_circle h.proper hcircle

end Init

end SoemMotion
