import Mathlib.Analysis.InnerProductSpace.PiL2
import SoemMotion.BlendArcs
import SoemMotion.BlendPlane
import SoemMotion.LineBlend
import SoemMotion.Lib.Turn

/-!
# The path around a corner

In Euclidean space the arc between two lines is a turn: of the radius to its start towards the direction of the first
line, by the angle between the directions.  So it takes over the direction of the first line, hands over that of the
second, and, since half its angle is the complement of half the angle of the corner, stays within
`RPlan / sin theta - RPlan` of the lines it replaces.
-/

namespace SoemMotion

open Real Lib

/-! ### Vectors as points -/

noncomputable def PmCartesian.toPoint (v : PmCartesian ℝ) : EuclideanSpace ℝ (Fin 3) := WithLp.toLp 2 v.get

section Points

variable (u v : PmCartesian ℝ) (d : ℝ)

theorem toPoint_apply (i : Fin 3) : v.toPoint i = v.get i := rfl

@[simp] theorem toPoint_add : (pmCartCartAdd u v).toPoint = u.toPoint + v.toPoint := by
  ext i
  fin_cases i <;> rfl

@[simp] theorem toPoint_sub : (pmCartCartSub u v).toPoint = u.toPoint - v.toPoint := by
  ext i
  fin_cases i <;> rfl

@[simp] theorem toPoint_scal : (pmCartScalMult v d).toPoint = d • v.toPoint := by
  ext i
  fin_cases i <;> exact mul_comm _ _

theorem inner_toPoint : inner ℝ u.toPoint v.toPoint = pmCartCartDot u v := by
  rw [PiLp.inner_apply, Fin.sum_univ_three]
  simp only [toPoint_apply, RCLike.inner_apply, conj_trivial, pmCartCartDot, PmCartesian.get]
  ring

variable {u v} in
theorem toPoint_inj (h : u.toPoint = v.toPoint) : u = v := by
  have hget (i : Fin 3) : u.get i = v.get i := congrFun (congrArg WithLp.ofLp h) i
  ext
  · exact hget 0
  · exact hget 1
  · exact hget 2

theorem norm_toPoint : ‖v.toPoint‖ = pmCartMag v := by
  rw [norm_eq_sqrt_real_inner, inner_toPoint, pmCartMag_eq_dot]

end Points

/-! ### The arc as a turn -/

/-- The arc comes along `u₁` for the length `L`, turns by `phi` about `center`, from the radius `r` on, and leaves along
`u₂`. -/
structure ArcJoins (arc : SphericalArc ℝ) (center r : EuclideanSpace ℝ (Fin 3)) (u₁ u₂ : PmCartesian ℝ)
    (R L phi : ℝ) : Prop where
  pos : 0 < R
  phi_pos : 0 < phi
  phi_lt : phi < π
  line : 0 ≤ L
  quarter : Quarter r (R • u₁.toPoint) R
  place : ∀ p, 0 ≤ p → (arcPoint arc p).toPoint = enterTurn center r u₁.toPoint R L p
  length : arcLength arc = R * phi + L
  leaves : turn (R • u₁.toPoint) (-r) phi = R • u₂.toPoint

section Joins

variable {geom : BlendGeom3 ℝ} {param : BlendParameters ℝ} {arc : SphericalArc ℝ}

theorem centerScale_pos (h : Corner geom.u1 geom.u2 param.theta) (hR : 0 < param.RPlan) : 0 < centerScale param :=
  mul_pos (div_pos hR h.sin_pos) (one_div_pos.2 (mul_pos two_pos h.cos_pos))

theorem RPlan_eq (h : Corner geom.u1 geom.u2 param.theta) (hR : 0 < param.RPlan) :
    param.RPlan = centerScale param * sin (arccos (pmCartCartDot geom.u1 geom.u2)) := by
  have hk := centerScale_pos h hR
  rw [sin_arccos, ← sqrt_sq hR.le, RPlan_sq h, sqrt_mul (sq_nonneg _), sqrt_sq hk.le]

theorem blendFindPoints3_quarter (h : Corner geom.u1 geom.u2 param.theta) (htan₁ : geom.uTan1 = geom.u1)
    (htan₂ : geom.uTan2 = geom.u2) (hR : 0 < param.RPlan) (hd : param.dPlan = param.RPlan / tan param.theta) :
    Quarter (pmCartCartSub (blendFindPoints3 (blendCalculateNormals3 geom) param).arcStart
        (blendFindPoints3 (blendCalculateNormals3 geom) param).arcCenter).toPoint
      (param.RPlan • geom.u1.toPoint) param.RPlan := by
  have hradii := blendFindPoints3_radii h htan₁ htan₂ hR hd
  refine ⟨?_, ?_, ?_⟩
  · rw [norm_toPoint, pmCartMag_eq_of_dot hR.le hradii.start_sq]
  · rw [norm_smul, norm_toPoint, pmCartMag_eq_of_dot zero_le_one (by rw [h.unit₁, one_pow]), mul_one,
      Real.norm_of_nonneg hR.le]
  · rw [real_inner_smul_right, inner_toPoint, blendFindPoints3_rStart h htan₁ htan₂ hd]
    simp [h.unit₁, pmCartCartDot_comm geom.u2 geom.u1]

/-- The radius to the end is the one to the start, turned by the angle between the directions. -/
theorem blendFindPoints3_turn (h : Corner geom.u1 geom.u2 param.theta) (htan₁ : geom.uTan1 = geom.u1)
    (htan₂ : geom.uTan2 = geom.u2) (hR : 0 < param.RPlan) (hd : param.dPlan = param.RPlan / tan param.theta) :
    turn (pmCartCartSub (blendFindPoints3 (blendCalculateNormals3 geom) param).arcStart
        (blendFindPoints3 (blendCalculateNormals3 geom) param).arcCenter).toPoint
      (param.RPlan • geom.u1.toPoint) (arccos (pmCartCartDot geom.u1 geom.u2)) =
    (pmCartCartSub (blendFindPoints3 (blendCalculateNormals3 geom) param).arcEnd
      (blendFindPoints3 (blendCalculateNormals3 geom) param).arcCenter).toPoint := by
  have hcos := cos_arccos h.lt_dot.le h.dot_lt.le
  have hsin : sin (arccos (pmCartCartDot geom.u1 geom.u2)) * sin (arccos (pmCartCartDot geom.u1 geom.u2)) =
      1 - pmCartCartDot geom.u1 geom.u2 ^ 2 := by
    rw [← sq, sin_sq, hcos]
  rw [blendFindPoints3_rStart h htan₁ htan₂ hd, blendFindPoints3_rEnd h htan₁ htan₂ hd, turn, hcos, RPlan_eq h hR,
    smul_smul, mul_left_comm, hsin]
  simp only [toPoint_scal, toPoint_sub]
  module

theorem blendFindPoints3_leaves (h : Corner geom.u1 geom.u2 param.theta) (htan₁ : geom.uTan1 = geom.u1)
    (htan₂ : geom.uTan2 = geom.u2) (hR : 0 < param.RPlan) (hd : param.dPlan = param.RPlan / tan param.theta) :
    turn (param.RPlan • geom.u1.toPoint)
      (-(pmCartCartSub (blendFindPoints3 (blendCalculateNormals3 geom) param).arcStart
        (blendFindPoints3 (blendCalculateNormals3 geom) param).arcCenter).toPoint)
      (arccos (pmCartCartDot geom.u1 geom.u2)) = param.RPlan • geom.u2.toPoint := by
  rw [blendFindPoints3_rStart h htan₁ htan₂ hd, turn, cos_arccos h.lt_dot.le h.dot_lt.le, RPlan_eq h hR]
  simp only [toPoint_scal, toPoint_sub]
  module

/-- The arc through the points of a blend, with the part of the first line that it has consumed. -/
theorem arcInitFromPoints_joins (h : Corner geom.u1 geom.u2 param.theta) (htan₁ : geom.uTan1 = geom.u1)
    (htan₂ : geom.uTan2 = geom.u2) (hR : 0 < param.RPlan) (hd : param.dPlan = param.RPlan / tan param.theta)
    (hline : 0 ≤ arc.lineLength) (hdir : arc.uTan = geom.u1)
    {points : BlendPoints3 ℝ} (hpoints : points = blendFindPoints3 (blendCalculateNormals3 geom) param)
    (hok : (arcInitFromPoints arc points.arcStart points.arcEnd points.arcCenter).2 = .ok) :
    ArcJoins (arcInitFromPoints arc points.arcStart points.arcEnd points.arcCenter).1 points.arcCenter.toPoint
      (pmCartCartSub points.arcStart points.arcCenter).toPoint geom.u1 geom.u2 param.RPlan arc.lineLength
      (arccos (pmCartCartDot geom.u1 geom.u2)) := by
  have hradii := blendFindPoints3_radii h htan₁ htan₂ hR hd
  have hturn := blendFindPoints3_turn h htan₁ htan₂ hR hd
  rw [← hpoints] at hradii hturn
  refine ⟨hR, arccos_pos.2 h.dot_lt, arccos_lt_pi.2 h.lt_dot, hline,
    hpoints ▸ blendFindPoints3_quarter h htan₁ htan₂ hR hd, ?_, ?_,
    hpoints ▸ blendFindPoints3_leaves h htan₁ htan₂ hR hd⟩
  · intro p hp
    have hstart : points.arcStart.toPoint = points.arcCenter.toPoint +
        (pmCartCartSub points.arcStart points.arcCenter).toPoint := by
      rw [toPoint_sub, add_sub_cancel]
    rw [arcInitFromPoints_eq hradii hok]
    unfold arcPoint enterTurn
    dsimp only
    by_cases hle : p ≤ arc.lineLength
    · rw [if_pos hle]
      by_cases hpos : 0 < arc.lineLength
      · rw [if_pos ⟨sub_nonpos.2 hle, hpos⟩, hdir, toPoint_add, toPoint_scal, ← hstart, add_comm]
      · -- without a consumed line the first place is the start of the arc
        have hzero : arc.lineLength = 0 := le_antisymm (not_lt.1 hpos) hline
        have hp0 : p = 0 := le_antisymm (hle.trans hzero.le) hp
        rw [if_neg fun hc => hpos hc.2, ← hstart, hzero, hp0]
        simp [hradii.sin_pos.ne']
    · rw [if_neg fun hc => hle (sub_nonpos.1 hc.1), if_neg hle]
      simp only [toPoint_add, toPoint_scal, sin_real, div_eq_inv_mul]
      rw [← hturn, interpolation_eq_turn hradii.sin_pos.ne']
  · rw [arcInitFromPoints_eq hradii hok]
    rfl

end Joins

/-! ### The direction of the path -/

namespace ArcJoins

variable {arc : SphericalArc ℝ} {center r : EuclideanSpace ℝ (Fin 3)} {u₁ u₂ : PmCartesian ℝ} {R L phi : ℝ}

theorem place_zero (h : ArcJoins arc center r u₁ u₂ R L phi) :
    (arcPoint arc 0).toPoint = center + r - L • u₁.toPoint := by
  rw [h.place 0 le_rfl, enterTurn, if_pos h.line, zero_sub, neg_smul, ← sub_eq_add_neg]

theorem line_lt_length (h : ArcJoins arc center r u₁ u₂ R L phi) : L < arcLength arc := by
  rw [h.length]
  linarith [mul_pos h.pos h.phi_pos]

theorem angle_length (h : ArcJoins arc center r u₁ u₂ R L phi) : R⁻¹ * (arcLength arc - L) = phi := by
  rw [h.length, add_sub_cancel_right, inv_mul_cancel_left₀ h.pos.ne']

theorem length_pos (h : ArcJoins arc center r u₁ u₂ R L phi) : 0 < arcLength arc := h.line.trans_lt h.line_lt_length

theorem place_length (h : ArcJoins arc center r u₁ u₂ R L phi) :
    (arcPoint arc (arcLength arc)).toPoint = center + turn r (R • u₁.toPoint) phi := by
  rw [h.place _ h.length_pos.le, enterTurn, if_neg (not_le.2 h.line_lt_length), h.angle_length]

theorem dir_zero (h : ArcJoins arc center r u₁ u₂ R L phi) : enterTurnDir r u₁.toPoint R L 0 = u₁.toPoint :=
  if_pos h.line

theorem dir_length (h : ArcJoins arc center r u₁ u₂ R L phi) :
    enterTurnDir r u₁.toPoint R L (arcLength arc) = u₂.toPoint := by
  rw [enterTurnDir, if_neg (not_le.2 h.line_lt_length), h.angle_length, h.leaves, smul_smul,
    inv_mul_cancel₀ h.pos.ne', one_smul]

theorem hasDerivWithinAt (h : ArcJoins arc center r u₁ u₂ R L phi) {p : ℝ} (hp : p ∈ Set.Icc 0 (arcLength arc)) :
    HasDerivWithinAt (fun q => (arcPoint arc q).toPoint) (enterTurnDir r u₁.toPoint R L p)
      (Set.Icc 0 (arcLength arc)) p :=
  (hasDerivAt_enterTurn h.pos.ne' p).hasDerivWithinAt.congr (fun q hq => h.place q hq.1) (h.place p hp.1)

theorem derivWithin_eq (h : ArcJoins arc center r u₁ u₂ R L phi) {p : ℝ} (hp : p ∈ Set.Icc 0 (arcLength arc)) :
    derivWithin (fun q => (arcPoint arc q).toPoint) (Set.Icc 0 (arcLength arc)) p =
      enterTurnDir r u₁.toPoint R L p :=
  (h.hasDerivWithinAt hp).derivWithin (uniqueDiffOn_Icc h.length_pos p hp)

theorem contDiffOn (h : ArcJoins arc center r u₁ u₂ R L phi) :
    ContDiffOn ℝ 1 (fun q => (arcPoint arc q).toPoint) (Set.Icc 0 (arcLength arc)) := by
  have hderiv : deriv (enterTurn center r u₁.toPoint R L) = enterTurnDir r u₁.toPoint R L :=
    funext fun p => (hasDerivAt_enterTurn h.pos.ne' p).deriv
  have hsmooth : ContDiff ℝ 1 (enterTurn center r u₁.toPoint R L) := by
    refine contDiff_one_iff_deriv.2 ⟨fun p => (hasDerivAt_enterTurn h.pos.ne' p).differentiableAt, ?_⟩
    rw [hderiv]
    exact continuous_enterTurnDir h.pos.ne'
  exact hsmooth.contDiffOn.congr fun q hq => h.place q hq.1

/-! ### The distance from the corner -/

section Corner

variable {b : EuclideanSpace ℝ (Fin 3)} {theta : ℝ}

/-- The lines meet at `b`, where half the angle between them is `theta`. -/
structure Meets (center r : EuclideanSpace ℝ (Fin 3)) (u₁ u₂ : PmCartesian ℝ) (R phi theta : ℝ)
    (b : EuclideanSpace ℝ (Fin 3)) : Prop where
  half : phi = π - 2 * theta
  start : center + r = b - (R / tan theta) • u₁.toPoint
  stop : center + turn r (R • u₁.toPoint) phi = b + (R / tan theta) • u₂.toPoint

variable (h : ArcJoins arc center r u₁ u₂ R L phi) (hb : Meets center r u₁ u₂ R phi theta b)

include h hb

theorem theta_range : 0 < theta ∧ theta < π / 2 := by
  have := hb.half
  exact ⟨by linarith [h.phi_lt], by linarith [h.phi_pos]⟩

theorem sin_theta_pos : 0 < sin theta :=
  sin_pos_of_pos_of_lt_pi (h.theta_range hb).1 (by linarith [(h.theta_range hb).2, pi_pos])

/-- The foot of the perpendicular from a point of the first half of the arc is not beyond the corner. -/
theorem foot_le {x : ℝ} (hx : 0 ≤ x) (hhalf : x ≤ phi / 2) : 0 ≤ R * sin x ∧ R * sin x ≤ R / tan theta := by
  obtain ⟨hlow, hhigh⟩ := h.theta_range hb
  have hphi := hb.half
  have hs := h.sin_theta_pos hb
  refine ⟨mul_nonneg h.pos.le (sin_nonneg_of_nonneg_of_le_pi hx (by linarith)), ?_⟩
  have hle : sin x ≤ cos theta := by
    rw [← sin_pi_div_two_sub]
    exact sin_le_sin_of_le_of_le_pi_div_two (by linarith [pi_pos]) (by linarith) (by linarith)
  have hcos : 0 ≤ cos theta := cos_nonneg_of_neg_pi_div_two_le_of_le (by linarith) hhigh.le
  rw [tan_eq_sin_div_cos, div_div_eq_mul_div, mul_div_assoc]
  refine mul_le_mul_of_nonneg_left (hle.trans ?_) h.pos.le
  exact le_div_self hcos hs (sin_le_one theta)

theorem height_le {x : ℝ} (hx : 0 ≤ x) (hhalf : x ≤ phi / 2) : (1 - cos x) * R ≤ R / sin theta - R := by
  obtain ⟨hlow, hhigh⟩ := h.theta_range hb
  have hphi := hb.half
  have hle : sin theta ≤ cos x := by
    rw [← cos_pi_div_two_sub]
    exact cos_le_cos_of_nonneg_of_le_pi hx (by linarith) (by linarith)
  have hdiv : R * (1 - sin theta) + R ≤ R / sin theta := by
    rw [le_div_iff₀ (h.sin_theta_pos hb)]
    nlinarith [h.pos, sq_nonneg (1 - sin theta)]
  nlinarith [h.pos, mul_le_mul_of_nonneg_left hle h.pos.le]

/-- The first half of the arc is near the first line. -/
theorem near_first {x : ℝ} (hx : 0 ≤ x) (hhalf : x ≤ phi / 2) : ∃ d, 0 ≤ d ∧ d ≤ R / tan theta ∧
    dist (center + turn r (R • u₁.toPoint) x) (b - d • u₁.toPoint) ≤ R / sin theta - R := by
  obtain ⟨hfoot, hfoot'⟩ := h.foot_le hb hx hhalf
  refine ⟨R / tan theta - R * sin x, by linarith, by linarith, ?_⟩
  have heq : b - (R / tan theta - R * sin x) • u₁.toPoint = center + (r + sin x • R • u₁.toPoint) := by
    rw [← add_assoc, hb.start, smul_smul, sub_smul, mul_comm (sin x)]
    abel
  rw [heq, dist_eq_norm, add_sub_add_left_eq_sub, h.quarter.norm_turn_sub_tangent]
  exact h.height_le hb hx hhalf

/-- The second half is near the second line: it is the first half of the way back. -/
theorem near_second {x : ℝ} (hhalf : phi / 2 ≤ x) (hx : x ≤ phi) : ∃ d, 0 ≤ d ∧ d ≤ R / tan theta ∧
    dist (center + turn r (R • u₁.toPoint) x) (b + d • u₂.toPoint) ≤ R / sin theta - R := by
  obtain ⟨hfoot, hfoot'⟩ := h.foot_le hb (x := phi - x) (by linarith) (by linarith)
  refine ⟨R / tan theta - R * sin (phi - x), by linarith, by linarith, ?_⟩
  have hquarter := h.quarter.turned phi
  rw [h.leaves] at hquarter
  have hback : turn r (R • u₁.toPoint) x =
      turn (turn r (R • u₁.toPoint) phi) (R • u₂.toPoint) (-(phi - x)) := by
    rw [← h.leaves, turn_turn, neg_sub, add_sub_cancel]
  have heq : b + (R / tan theta - R * sin (phi - x)) • u₂.toPoint =
      center + (turn r (R • u₁.toPoint) phi + sin (-(phi - x)) • R • u₂.toPoint) := by
    rw [← add_assoc, hb.stop, smul_smul, sin_neg, sub_smul, neg_mul, neg_smul, mul_comm (sin (phi - x))]
    abel
  rw [heq, hback, dist_eq_norm, add_sub_add_left_eq_sub, hquarter.norm_turn_sub_tangent, cos_neg]
  exact h.height_le hb (by linarith) (by linarith)

/-- The middle of the arc lies between its centre and the corner. -/
theorem dist_corner : dist (center + turn r (R • u₁.toPoint) (phi / 2)) b = R / sin theta - R := by
  obtain ⟨hlow, hhigh⟩ := h.theta_range hb
  have hs := h.sin_theta_pos hb
  have hhalf : phi / 2 = π / 2 - theta := by rw [hb.half]; ring
  have hcorner : b = center + (1 / sin theta) • turn r (R • u₁.toPoint) (phi / 2) := by
    have hc : cos (phi / 2) = sin theta := by rw [hhalf, cos_pi_div_two_sub]
    have hs' : sin (phi / 2) = cos theta := by rw [hhalf, sin_pi_div_two_sub]
    have hb' : b = center + r + (R / tan theta) • u₁.toPoint := by rw [hb.start, sub_add_cancel]
    have htan : R / tan theta = 1 / sin theta * (cos theta * R) := by
      rw [tan_eq_sin_div_cos]
      field_simp
    rw [hb', turn, hc, hs', smul_add, smul_smul, one_div_mul_cancel hs.ne', one_smul, smul_smul, smul_smul, htan,
      add_assoc]
    ring_nf
  have hnorm : dist (center + turn r (R • u₁.toPoint) (phi / 2)) b =
      ‖(1 - 1 / sin theta) • turn r (R • u₁.toPoint) (phi / 2)‖ := by
    rw [dist_eq_norm]
    congr 1
    rw [hcorner, add_sub_add_left_eq_sub, sub_smul, one_smul]
  have hge : 1 ≤ 1 / sin theta := (one_le_div hs).2 (sin_le_one theta)
  rw [hnorm, norm_smul, h.quarter.norm_turn, Real.norm_of_nonpos (by linarith), neg_sub, sub_mul, one_mul,
    one_div_mul_eq_div]

end Corner

end ArcJoins

end SoemMotion
