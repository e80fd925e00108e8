import SoemMotion.BlendLimits

/-!
# The arc between two lines

Half the angle of a corner is the angle between either line and the bisector, and the centre of a blend arc lies on the
bisector where the radii to the two end points are perpendicular to the lines.  In terms of the scalar product `c` of
the two directions the radii are `k (c u₁ - u₂)` and `k (u₁ - c u₂)`, so the angle between them is the one between the
directions, and the spherical interpolation between them keeps their length.
-/

namespace SoemMotion

open Real

/-! ### The half angle -/

/-- Two unit directions that are neither parallel nor opposite, and half the angle between them. -/
structure Corner (u₁ u₂ : PmCartesian ℝ) (theta : ℝ) : Prop where
  unit₁ : pmCartCartDot u₁ u₁ = 1
  unit₂ : pmCartCartDot u₂ u₂ = 1
  parallel : u₁ ≠ u₂
  opposite : u₁ ≠ pmCartScalMult u₂ (-1)
  theta_eq : theta = findIntersectionAngle u₁ u₂

namespace Corner

variable {u₁ u₂ : PmCartesian ℝ} {theta : ℝ}

theorem sub_eq_zero {u v : PmCartesian ℝ} (h : pmCartCartSub u v = ⟨0, 0, 0⟩) : u = v := by
  rw [pmCartCartSub, PmCartesian.mk.injEq] at h
  ext
  · linarith [h.1]
  · linarith [h.2.1]
  · linarith [h.2.2]

theorem dot_lt (h : Corner u₁ u₂ theta) : pmCartCartDot u₁ u₂ < 1 := by
  by_contra hle
  have hzero : pmCartCartDot (pmCartCartSub u₁ u₂) (pmCartCartSub u₁ u₂) = 0 := by
    have hnonneg := pmCartCartDot_self_nonneg (pmCartCartSub u₁ u₂)
    simp only [pmCartCartDot_sub_left, pmCartCartDot_sub_right, h.unit₁, h.unit₂, pmCartCartDot_comm u₂ u₁] at hnonneg ⊢
    linarith [not_lt.1 hle]
  exact h.parallel (sub_eq_zero ((pmCartCartDot_self_eq_zero_iff _).1 hzero))

theorem lt_dot (h : Corner u₁ u₂ theta) : -1 < pmCartCartDot u₁ u₂ := by
  by_contra hle
  have hzero : pmCartCartDot (pmCartCartSub u₁ (pmCartScalMult u₂ (-1)))
      (pmCartCartSub u₁ (pmCartScalMult u₂ (-1))) = 0 := by
    have hnonneg := pmCartCartDot_self_nonneg (pmCartCartSub u₁ (pmCartScalMult u₂ (-1)))
    simp only [pmCartCartDot_sub_left, pmCartCartDot_sub_right, pmCartCartDot_scal_left, pmCartCartDot_scal_right,
      h.unit₁, h.unit₂, pmCartCartDot_comm u₂ u₁] at hnonneg ⊢
    linarith [not_lt.1 hle]
  exact h.opposite (sub_eq_zero ((pmCartCartDot_self_eq_zero_iff _).1 hzero))

theorem two_theta (h : Corner u₁ u₂ theta) : 2 * theta = arccos (-pmCartCartDot u₁ u₂) := by
  have hhigh : ¬ 1 < pmCartCartDot u₁ u₂ := not_lt.2 h.dot_lt.le
  have hlow : ¬ pmCartCartDot u₁ u₂ < -1 := not_lt.2 h.lt_dot.le
  rw [h.theta_eq, findIntersectionAngle, satInplace, if_neg hhigh, if_neg hlow, acos_real]
  ring

theorem theta_pos (h : Corner u₁ u₂ theta) : 0 < theta := by
  have := arccos_pos.2 (by linarith [h.lt_dot] : -pmCartCartDot u₁ u₂ < 1)
  linarith [h.two_theta]

theorem theta_lt (h : Corner u₁ u₂ theta) : theta < π / 2 := by
  have := arccos_lt_pi.2 (by linarith [h.dot_lt] : -1 < -pmCartCartDot u₁ u₂)
  linarith [h.two_theta]

theorem sin_pos (h : Corner u₁ u₂ theta) : 0 < sin theta :=
  sin_pos_of_pos_of_lt_pi h.theta_pos (by linarith [h.theta_lt, pi_pos])

theorem cos_pos (h : Corner u₁ u₂ theta) : 0 < cos theta :=
  cos_pos_of_mem_Ioo ⟨by linarith [h.theta_pos, pi_pos], h.theta_lt⟩

theorem two_cos_sq (h : Corner u₁ u₂ theta) : 2 * cos theta ^ 2 = 1 - pmCartCartDot u₁ u₂ := by
  have hcos := cos_arccos (by linarith [h.dot_lt] : -1 ≤ -pmCartCartDot u₁ u₂) (by linarith [h.lt_dot])
  rw [← h.two_theta, cos_two_mul] at hcos
  linarith

theorem two_sin_sq (h : Corner u₁ u₂ theta) : 2 * sin theta ^ 2 = 1 + pmCartCartDot u₁ u₂ := by
  linarith [sin_sq_add_cos_sq theta, h.two_cos_sq]

/-- The bisector. -/
theorem normal_eq (h : Corner u₁ u₂ theta) : pmCartUnit (pmCartCartSub u₂ u₁) =
    pmCartScalMult (pmCartCartSub u₂ u₁) (1 / (2 * cos theta)) := by
  refine pmCartUnit_of_mag (pmCartMag_eq_of_dot (mul_pos two_pos h.cos_pos).le ?_) (mul_pos two_pos h.cos_pos).ne'
  simp only [pmCartCartDot_sub_left, pmCartCartDot_sub_right, h.unit₁, h.unit₂, pmCartCartDot_comm u₂ u₁]
  linarith [h.two_cos_sq]

end Corner

/-! ### The three points -/

section Points

variable {geom : BlendGeom3 ℝ} {param : BlendParameters ℝ}

/-- The distance of the centre from the corner, in units of the difference of the directions. -/
noncomputable def centerScale (param : BlendParameters ℝ) : ℝ :=
    param.RPlan / sin param.theta * (1 / (2 * cos param.theta))

theorem blendFindPoints3_center (h : Corner geom.u1 geom.u2 param.theta) (htan₁ : geom.uTan1 = geom.u1)
    (htan₂ : geom.uTan2 = geom.u2) : (blendFindPoints3 (blendCalculateNormals3 geom) param).arcCenter =
      pmCartCartAdd (pmCartScalMult (pmCartCartSub geom.u2 geom.u1) (centerScale param)) geom.P := by
  unfold blendFindPoints3 blendCalculateNormals3
  simp only [htan₁, htan₂, h.normal_eq, sin_real]
  simp only [pmCartCartAdd, pmCartScalMult, centerScale, PmCartesian.mk.injEq]
  refine ⟨?_, ?_, ?_⟩ <;> ring

theorem dPlan_eq (h : Corner geom.u1 geom.u2 param.theta) (hd : param.dPlan = param.RPlan / tan param.theta) :
    param.dPlan = (1 - pmCartCartDot geom.u1 geom.u2) * centerScale param := by
  have hs := h.sin_pos.ne'
  have hc := h.cos_pos.ne'
  rw [hd, ← h.two_cos_sq, tan_eq_sin_div_cos, centerScale]
  field_simp

theorem RPlan_sq (h : Corner geom.u1 geom.u2 param.theta) :
    param.RPlan ^ 2 = centerScale param ^ 2 * (1 - pmCartCartDot geom.u1 geom.u2 ^ 2) := by
  have hs := h.sin_pos.ne'
  have hc := h.cos_pos.ne'
  have hprod : 1 - pmCartCartDot geom.u1 geom.u2 ^ 2 = 2 * sin param.theta ^ 2 * (2 * cos param.theta ^ 2) := by
    rw [h.two_sin_sq, h.two_cos_sq]
    ring
  rw [hprod, centerScale]
  field_simp

/-- The radius to the start, in terms of the directions. -/
theorem blendFindPoints3_rStart (h : Corner geom.u1 geom.u2 param.theta) (htan₁ : geom.uTan1 = geom.u1)
    (htan₂ : geom.uTan2 = geom.u2) (hd : param.dPlan = param.RPlan / tan param.theta) :
    pmCartCartSub (blendFindPoints3 (blendCalculateNormals3 geom) param).arcStart
        (blendFindPoints3 (blendCalculateNormals3 geom) param).arcCenter =
      pmCartScalMult (pmCartCartSub (pmCartScalMult geom.u1 (pmCartCartDot geom.u1 geom.u2)) geom.u2)
        (centerScale param) := by
  rw [blendFindPoints3_center h htan₁ htan₂]
  unfold blendFindPoints3 blendCalculateNormals3
  simp only [dPlan_eq h hd, pmCartCartAdd, pmCartCartSub, pmCartScalMult, PmCartesian.mk.injEq]
  refine ⟨?_, ?_, ?_⟩ <;> ring

theorem blendFindPoints3_rEnd (h : Corner geom.u1 geom.u2 param.theta) (htan₁ : geom.uTan1 = geom.u1)
    (htan₂ : geom.uTan2 = geom.u2) (hd : param.dPlan = param.RPlan / tan param.theta) :
    pmCartCartSub (blendFindPoints3 (blendCalculateNormals3 geom) param).arcEnd
        (blendFindPoints3 (blendCalculateNormals3 geom) param).arcCenter =
      pmCartScalMult (pmCartCartSub geom.u1 (pmCartScalMult geom.u2 (pmCartCartDot geom.u1 geom.u2)))
        (centerScale param) := by
  rw [blendFindPoints3_center h htan₁ htan₂]
  unfold blendFindPoints3 blendCalculateNormals3
  simp only [dPlan_eq h hd, pmCartCartAdd, pmCartCartSub, pmCartScalMult, PmCartesian.mk.injEq]
  refine ⟨?_, ?_, ?_⟩ <;> ring

end Points

/-! ### The interpolation -/

/-- The weights of a spherical interpolation keep the length. -/
theorem slerp_sq {phi x : ℝ} (hphi : sin phi ≠ 0) : (sin (phi - x) / sin phi) ^ 2 + (sin x / sin phi) ^ 2 +
    2 * (sin (phi - x) / sin phi) * (sin x / sin phi) * cos phi = 1 := by
  have hsub := sin_sub phi x
  have hphi₂ := sin_sq_add_cos_sq phi
  have hx₂ := sin_sq_add_cos_sq x
  field_simp
  rw [hsub]
  linear_combination sin phi ^ 2 * hx₂ - sin x ^ 2 * hphi₂

section Arc

variable {arc : SphericalArc ℝ} {start stop center : PmCartesian ℝ} {R c : ℝ}

/-- Two radii of the same length and the cosine of the angle between them. -/
structure Radii (start stop center : PmCartesian ℝ) (R c : ℝ) : Prop where
  pos : 0 < R
  start_sq : pmCartCartDot (pmCartCartSub start center) (pmCartCartSub start center) = R ^ 2
  stop_sq : pmCartCartDot (pmCartCartSub stop center) (pmCartCartSub stop center) = R ^ 2
  dot : pmCartCartDot (pmCartCartSub start center) (pmCartCartSub stop center) = R ^ 2 * c
  neg_one_lt : -1 < c
  lt_one : c < 1

theorem Radii.sin_pos (h : Radii start stop center R c) : 0 < sin (arccos c) :=
  sin_pos_of_pos_of_lt_pi (arccos_pos.2 h.lt_one) (arccos_lt_pi.2 h.neg_one_lt)

theorem arcInitFromPoints_eq (h : Radii start stop center R c)
    (hok : (arcInitFromPoints arc start stop center).2 = .ok) :
    (arcInitFromPoints arc start stop center).1 =
      { arc with
        start := start
        «end» := stop
        center := center
        rStart := pmCartCartSub start center
        rEnd := pmCartCartSub stop center
        radius := R
        angle := arccos c
        spiral := R - R
        sangle := sin (arccos c) } := by
  have hne := h.pos.ne'
  have hmag₀ : pmCartMag (pmCartCartSub start center) = R := pmCartMag_eq_of_dot h.pos.le h.start_sq
  have hmag₁ : pmCartMag (pmCartCartSub stop center) = R := pmCartMag_eq_of_dot h.pos.le h.stop_sq
  have hdot : pmCartCartDot (pmCartScalMult (pmCartCartSub start center) (1 / R))
      (pmCartScalMult (pmCartCartSub stop center) (1 / R)) = c := by
    rw [pmCartCartDot_scal_left, pmCartCartDot_scal_right, h.dot]
    field_simp
  unfold arcInitFromPoints at hok ⊢
  simp only [hmag₀, hmag₁, hdot, acos_real, sin_real] at hok ⊢
  split at hok
  · cases hok
  · rename_i hradius
    rw [if_neg hradius]
    split at hok
    · cases hok
    · rename_i hangle
      rw [if_neg hangle]

/-- What a spherical arc without a consumed line does. -/
structure ArcExact (arc : SphericalArc ℝ) (start stop center : PmCartesian ℝ) (R : ℝ) : Prop where
  start : arcPoint arc 0 = start
  stop : arcPoint arc (arcLength arc) = stop
  between : ∀ p, 0 ≤ p → p ≤ arcLength arc → pmCartMag (pmCartCartSub (arcPoint arc p) center) = R

theorem slerp_mag (h : Radii start stop center R c) (x : ℝ) :
    pmCartMag (pmCartCartAdd (pmCartScalMult (pmCartCartSub start center) (sin (arccos c - x) / sin (arccos c)))
      (pmCartScalMult (pmCartCartSub stop center) (sin x / sin (arccos c)))) = R := by
  have hslerp := slerp_sq (x := x) h.sin_pos.ne'
  rw [cos_arccos h.neg_one_lt.le h.lt_one.le] at hslerp
  refine pmCartMag_eq_of_dot h.pos.le ?_
  simp only [pmCartCartDot_add_left, pmCartCartDot_add_right, pmCartCartDot_scal_left, pmCartCartDot_scal_right,
    h.start_sq, h.stop_sq, h.dot, pmCartCartDot_comm (pmCartCartSub stop center) (pmCartCartSub start center)]
  linear_combination R ^ 2 * hslerp

theorem arcInitFromPoints_exact (h : Radii start stop center R c) (hline : arc.lineLength = 0)
    (hok : (arcInitFromPoints arc start stop center).2 = .ok) :
    ArcExact (arcInitFromPoints arc start stop center).1 start stop center R := by
  have hR := h.pos.ne'
  have hs := h.sin_pos.ne'
  rw [arcInitFromPoints_eq h hok]
  constructor
  · simp [arcPoint, hline, hs, pmCartCartAdd, pmCartScalMult, pmCartCartSub]
  · simp [arcPoint, arcLength, hline, hs, hR, pmCartCartAdd, pmCartScalMult, pmCartCartSub]
  · intro p _ _
    have hcancel (w : PmCartesian ℝ) : pmCartCartSub (pmCartCartAdd center w) center = w := by
      simp [pmCartCartSub, pmCartCartAdd]
    simp only [arcPoint, hline, lt_irrefl, and_false, if_false, sin_real, hcancel]
    exact slerp_mag h _

end Arc

/-! ### The result -/

/-- The arc touches both lines, at the distance `dPlan` from the corner, and stays at the distance `RPlan` from its
centre. -/
structure BlendExact (geom : BlendGeom3 ℝ) (param : BlendParameters ℝ) (points : BlendPoints3 ℝ) : Prop where
  start : points.arcStart = pmCartCartSub geom.P (pmCartScalMult geom.u1 param.dPlan)
  stop : points.arcEnd = pmCartCartAdd geom.P (pmCartScalMult geom.u2 param.dPlan)
  startRadius : pmCartMag (pmCartCartSub points.arcStart points.arcCenter) = param.RPlan
  endRadius : pmCartMag (pmCartCartSub points.arcEnd points.arcCenter) = param.RPlan
  startTangent : pmCartCartDot (pmCartCartSub points.arcStart points.arcCenter) geom.u1 = 0
  endTangent : pmCartCartDot (pmCartCartSub points.arcEnd points.arcCenter) geom.u2 = 0
  arc : ∀ arc : SphericalArc ℝ, arc.lineLength = 0 →
    (arcInitFromPoints arc points.arcStart points.arcEnd points.arcCenter).2 = .ok →
    ArcExact (arcInitFromPoints arc points.arcStart points.arcEnd points.arcCenter).1 points.arcStart points.arcEnd
      points.arcCenter param.RPlan

section Points

variable {geom : BlendGeom3 ℝ} {param : BlendParameters ℝ}

theorem blendFindPoints3_radii (h : Corner geom.u1 geom.u2 param.theta) (htan₁ : geom.uTan1 = geom.u1)
    (htan₂ : geom.uTan2 = geom.u2) (hR : 0 < param.RPlan) (hd : param.dPlan = param.RPlan / tan param.theta) :
    Radii (blendFindPoints3 (blendCalculateNormals3 geom) param).arcStart
      (blendFindPoints3 (blendCalculateNormals3 geom) param).arcEnd
      (blendFindPoints3 (blendCalculateNormals3 geom) param).arcCenter param.RPlan
      (pmCartCartDot geom.u1 geom.u2) := by
  refine ⟨hR, ?_, ?_, ?_, h.lt_dot, h.dot_lt⟩
  all_goals
    simp only [blendFindPoints3_rStart h htan₁ htan₂ hd, blendFindPoints3_rEnd h htan₁ htan₂ hd, RPlan_sq h,
      pmCartCartDot_sub_left, pmCartCartDot_sub_right, pmCartCartDot_scal_left, pmCartCartDot_scal_right, h.unit₁,
      h.unit₂, pmCartCartDot_comm geom.u2 geom.u1]
    ring

end Points

theorem blendFindPoints3_exact (geom : BlendGeom3 ℝ) (param : BlendParameters ℝ)
    (h : Corner geom.u1 geom.u2 param.theta) (htan₁ : geom.uTan1 = geom.u1) (htan₂ : geom.uTan2 = geom.u2)
    (hR : 0 < param.RPlan) (hd : param.dPlan = param.RPlan / tan param.theta) :
    BlendExact geom param (blendFindPoints3 (blendCalculateNormals3 geom) param) := by
  have hradii := blendFindPoints3_radii h htan₁ htan₂ hR hd
  constructor
  · simp only [blendFindPoints3, blendCalculateNormals3, pmCartCartAdd, pmCartCartSub, pmCartScalMult,
      PmCartesian.mk.injEq]
    refine ⟨?_, ?_, ?_⟩ <;> ring
  · simp only [blendFindPoints3, blendCalculateNormals3, pmCartCartAdd, PmCartesian.mk.injEq]
    refine ⟨?_, ?_, ?_⟩ <;> ring
  · exact pmCartMag_eq_of_dot hR.le hradii.start_sq
  · exact pmCartMag_eq_of_dot hR.le hradii.stop_sq
  · rw [blendFindPoints3_rStart h htan₁ htan₂ hd]
    simp [h.unit₁, pmCartCartDot_comm geom.u2 geom.u1]
  · rw [blendFindPoints3_rEnd h htan₁ htan₂ hd]
    simp [h.unit₂]
  · intro arc hline hok
    exact arcInitFromPoints_exact hradii hline hok

/-- The directions of two lines at a right angle. -/
def squareTurn : BlendGeom3 ℝ where
  u1 := ⟨1, 0, 0⟩
  u2 := ⟨0, 1, 0⟩
  P := ⟨0, 0, 0⟩
  normal := ⟨0, 0, 0⟩
  binormal := ⟨0, 0, 0⟩
  uTan1 := ⟨1, 0, 0⟩
  uTan2 := ⟨0, 1, 0⟩

/-- The parameters of an arc of radius one between them. -/
noncomputable def squareArc : BlendParameters ℝ :=
  { squareCorner with
    theta := findIntersectionAngle squareTurn.u1 squareTurn.u2
    RPlan := 1
    dPlan := 1 / tan (findIntersectionAngle squareTurn.u1 squareTurn.u2) }

theorem blendFindPoints3_exact_square :
    BlendExact squareTurn squareArc (blendFindPoints3 (blendCalculateNormals3 squareTurn) squareArc) := by
  refine blendFindPoints3_exact squareTurn squareArc ⟨?_, ?_, ?_, ?_, rfl⟩ rfl rfl one_pos rfl
  · simp [squareTurn, pmCartCartDot]
  · simp [squareTurn, pmCartCartDot]
  · simp [squareTurn]
  · simp [squareTurn, pmCartScalMult]

end SoemMotion
