import SoemMotion.BlendPath
import SoemMotion.CircleLimits
import SoemMotion.QueueDeque
import SoemMotion.SegmentMotion

/-!
# What rounding a corner does to the path

Where `tpCreateLineLineBlend` succeeds, the arc it returns starts where the first line now ends, or where that line
started if it has been consumed, and ends where the second now starts, with the directions of the lines and within the
tolerance of the corner.
-/

namespace SoemMotion

open Real Lib

/-! ### The back of the queue -/

section Queue

variable {α : Type} {q q' : Tcq α} {a tc : α} {rest : List α}

theorem setLast_items (hw : q.WF) (h : q.items = rest ++ [a]) (tc : α) : (q.setLast tc).items = rest ++ [tc] := by
  have hn := hw.len_nonneg
  have hlen : q.len.toNat = rest.length + 1 := by
    rw [← items_length, h, List.length_append, List.length_singleton]
  have hindex : q.len - 1 = (rest.length : Int) := by omega
  rw [setLast_eq_setItem hw (by omega), hindex, setItem_items hw (by omega), h]
  simp

theorem tcqPopBack_items (hw : q.WF) (h : q.items = rest ++ [a]) (hpop : tcqPopBack q = some q') :
    q'.items = rest := by
  have hitems := (tcqPopBack_holds (hw.holds rfl h)).2.items
  have hsame : ((TcqCall.popBack).apply q).2 = q' := by
    show (tcqPopBack q).getD q = q'
    rw [hpop, Option.getD_some]
  rw [hsame] at hitems
  simpa [TcqCall.onList] using hitems

end Queue

/-! ### Lines -/

/-- The segment is the line from `a` to `b` in `xyz`. -/
structure Tc.Straight (tc : Tc ℝ) (a b : PmCartesian ℝ) : Prop where
  coords : ∃ abc uvw, tc.coords = .line ⟨pmCartLineInit a b, abc, uvw⟩
  target : tc.target = lineLength a b

/-- A line that is not taken for a point, with positive velocities and no negative tolerance, no longer than when it was
appended. -/
structure Tc.Blendable (tc : Tc ℝ) (a b : PmCartesian ℝ) : Prop extends tc.Straight a b where
  long : (pmCartLineInit a b).tmagZero = false
  reqvel : 0 < tc.reqvel
  maxvel : 0 < tc.maxvel
  tolerance : 0 ≤ tc.tolerance
  nominal : tc.target ≤ tc.nominalLength

theorem pmCartLineInit_start (a b : PmCartesian ℝ) : (pmCartLineInit a b).start = a := by
  unfold pmCartLineInit
  dsimp only
  split <;> rfl

theorem pmCartLineInit_tmag (a b : PmCartesian ℝ) : (pmCartLineInit a b).tmag = lineLength a b := by
  unfold pmCartLineInit
  dsimp only
  split <;> rfl

theorem pmCartLineInit_uVec {a b : PmCartesian ℝ} (h : (pmCartLineInit a b).tmagZero = false) :
    (pmCartLineInit a b).uVec = pmCartUnit (pmCartCartSub b a) := by
  unfold pmCartLineInit at h ⊢
  dsimp only at h ⊢
  split at h
  · cases h
  · rename_i hfar
    rw [if_neg hfar]

namespace Tc.Blendable

variable {tc : Tc ℝ} {a b : PmCartesian ℝ}

theorem length_pos (h : tc.Blendable a b) : 0 < lineLength a b := by
  refine lt_of_le_of_ne ?_ (pmCartMag_ne_zero h.long).symm
  unfold lineLength
  rw [← norm_toPoint]
  exact norm_nonneg _

theorem target_pos (h : tc.Blendable a b) : 0 < tc.target := h.target ▸ h.length_pos

/-- The end of a line, from its start. -/
theorem toPoint_end (h : tc.Blendable a b) :
    b.toPoint = a.toPoint + tc.target • (pmCartUnit (pmCartCartSub b a)).toPoint := by
  have hne := h.length_pos.ne'
  have hcancel : tc.target * (1 / lineLength a b) = 1 := by rw [h.target, mul_one_div_cancel hne]
  rw [pmCartUnit_of_mag rfl hne, toPoint_scal]
  show _ = _ + _ • (1 / lineLength a b) • _
  rw [smul_smul, hcancel, one_smul, toPoint_sub, add_sub_cancel]

theorem unit (h : tc.Blendable a b) :
    pmCartCartDot (pmCartUnit (pmCartCartSub b a)) (pmCartUnit (pmCartCartSub b a)) = 1 := by
  have hne := h.length_pos.ne'
  have hdot : pmCartCartDot (pmCartCartSub b a) (pmCartCartSub b a) = lineLength a b ^ 2 := by
    unfold lineLength
    rw [pmCartMag_eq_dot, sq_sqrt (pmCartCartDot_self_nonneg _)]
  rw [pmCartUnit_of_mag rfl hne]
  simp only [pmCartCartDot_scal_left, pmCartCartDot_scal_right, hdot]
  show 1 / lineLength a b * (1 / lineLength a b * lineLength a b ^ 2) = 1
  field_simp

end Tc.Blendable

/-! ### The corner -/

/-- The corner of the lines from `a` to `b` and from `b` to `c`. -/
noncomputable def lineCorner (a b c : PmCartesian ℝ) : BlendGeom3 ℝ where
  u1 := pmCartUnit (pmCartCartSub b a)
  u2 := pmCartUnit (pmCartCartSub c b)
  P := b
  normal := ⟨0, 0, 0⟩
  binormal := ⟨0, 0, 0⟩
  uTan1 := pmCartUnit (pmCartCartSub b a)
  uTan2 := pmCartUnit (pmCartCartSub c b)

section Init

variable {env : TpEnv ℝ} {cfg : BlendConfig ℝ} {prevTc tc : Tc ℝ} {a b c : PmCartesian ℝ}

/-- Half the angle of the corner. -/
noncomputable def cornerTheta (a b c : PmCartesian ℝ) : ℝ :=
  findIntersectionAngle (lineCorner a b c).u1 (lineCorner a b c).u2

/-- Lines that are not nearly parallel, and the limits of the blend. -/
structure BlendInit (env : TpEnv ℝ) (cfg : BlendConfig ℝ) (prevTc tc : Tc ℝ) (a b c : PmCartesian ℝ)
    (param : BlendParameters ℝ) : Prop where
  low : tpAngleEpsilon ≤ cornerTheta a b c
  high : tpAngleEpsilon ≤ π / 2 - cornerTheta a b c
  kinematics : blendParamKinematics env cfg (blendCalculateNormals3 (lineCorner a b c)) (cornerTheta a b c)
    (fmin prevTc.target (prevTc.nominalLength * blendDistFraction)) (tc.target * blendDistFraction) prevTc tc =
      some param

theorem blendGeom3Init_eq (hprev : prevTc.Blendable a b) (htc : tc.Blendable b c) : blendGeom3Init prevTc tc =
    if π / 2 - cornerTheta a b c < tpAngleEpsilon then .error .tolerance
    else if cornerTheta a b c < tpAngleEpsilon then .error .tolerance
    else .ok (blendCalculateNormals3 (lineCorner a b c), cornerTheta a b c) := by
  obtain ⟨abc, uvw, hcoords⟩ := hprev.coords
  obtain ⟨abc', uvw', hcoords'⟩ := htc.coords
  unfold blendGeom3Init tcGetEndTangentUnitVector tcGetStartTangentUnitVector tcGetIntersectionPoint
  rw [hcoords, hcoords']
  dsimp only
  rw [pmCartLineInit_uVec hprev.long, pmCartLineInit_uVec htc.long, pmCartLineInit_start]
  rfl

theorem blendInit3FromLineLine_iff (hprev : prevTc.Blendable a b) (htc : tc.Blendable b c) {geom : BlendGeom3 ℝ}
    {param : BlendParameters ℝ} : blendInit3FromLineLine env cfg prevTc tc = .ok (geom, param) ↔
      geom = blendCalculateNormals3 (lineCorner a b c) ∧ BlendInit env cfg prevTc tc a b c param := by
  obtain ⟨abc, uvw, hcoords⟩ := hprev.coords
  obtain ⟨abc', uvw', hcoords'⟩ := htc.coords
  unfold blendInit3FromLineLine
  rw [hcoords, hcoords', blendGeom3Init_eq hprev htc]
  constructor
  · intro h
    by_cases hhigh : π / 2 - cornerTheta a b c < tpAngleEpsilon
    · rw [if_pos hhigh] at h
      cases h
    · by_cases hlow : cornerTheta a b c < tpAngleEpsilon
      · rw [if_neg hhigh, if_pos hlow] at h
        cases h
      · rw [if_neg hhigh, if_neg hlow] at h
        dsimp only at h
        split at h
        · cases h
        · rename_i hkin
          cases h
          exact ⟨rfl, not_lt.1 hlow, not_lt.1 hhigh, hkin⟩
  · rintro ⟨rfl, h⟩
    rw [if_neg (not_lt.2 h.high), if_neg (not_lt.2 h.low)]
    dsimp only
    rw [h.kinematics]

theorem findIntersectionAngle_of_dot {u v : PmCartesian ℝ} (hlow : -1 ≤ pmCartCartDot u v)
    (hhigh : pmCartCartDot u v ≤ 1) : findIntersectionAngle u v = arccos (-pmCartCartDot u v) / 2 := by
  rw [findIntersectionAngle, satInplace, if_neg (not_lt.2 hhigh), if_neg (not_lt.2 hlow), acos_real]

variable {param : BlendParameters ℝ}

theorem BlendInit.corner (h : BlendInit env cfg prevTc tc a b c param) (hprev : prevTc.Blendable a b)
    (htc : tc.Blendable b c) : Corner (lineCorner a b c).u1 (lineCorner a b c).u2 (cornerTheta a b c) := by
  have heps : (0 : ℝ) < tpAngleEpsilon := by norm_num [tpAngleEpsilon]
  have hlow := h.low
  have hhigh := h.high
  refine ⟨hprev.unit, htc.unit, ?_, ?_, rfl⟩
  · -- in a straight line the angle is half a turn
    intro heq
    have hdot : pmCartCartDot (lineCorner a b c).u1 (lineCorner a b c).u2 = 1 := by
      rw [heq]
      exact htc.unit
    have htheta : cornerTheta a b c = π / 2 := by
      rw [cornerTheta, findIntersectionAngle_of_dot (by rw [hdot]; norm_num) hdot.le, hdot, arccos_neg_one]
    linarith
  · -- on the way back it is zero
    intro heq
    have hdot : pmCartCartDot (lineCorner a b c).u1 (lineCorner a b c).u2 = -1 := by
      have hunit : pmCartCartDot (lineCorner a b c).u2 (lineCorner a b c).u2 = 1 := htc.unit
      rw [heq, pmCartCartDot_scal_left, hunit]
      ring
    have htheta : cornerTheta a b c = 0 := by
      rw [cornerTheta, findIntersectionAngle_of_dot hdot.ge (by rw [hdot]; norm_num), hdot, neg_neg, arccos_one,
        zero_div]
    linarith

theorem blendAltitudeVel_pos {geom : BlendGeom3 ℝ} {theta phi : ℝ} (h : Corner geom.u1 geom.u2 theta)
    (hphi : phi = π - theta * 2) (hprev : prevTc.Blendable a b) (htc : tc.Blendable b c) :
    0 < blendAltitudeVel geom phi prevTc tc := by
  obtain ⟨abc, uvw, hcoords⟩ := hprev.coords
  obtain ⟨abc', uvw', hcoords'⟩ := htc.coords
  have hphi₀ : 0 < phi := by linarith [h.theta_lt]
  have hphi₁ : phi < π := by linarith [h.theta_pos]
  have hcos : 0 < cos (min phi (π * 0.49)) := by
    refine cos_pos_of_mem_Ioo ⟨?_, ?_⟩
    · have := lt_min hphi₀ (by positivity : (0 : ℝ) < π * 0.49)
      linarith [pi_pos]
    · have := min_le_right phi (π * 0.49)
      linarith [pi_pos]
  have hfirst : 0 < min prevTc.maxvel (tc.maxvel / cos (min phi (π * 0.49))) :=
    lt_min hprev.maxvel (div_pos htc.maxvel hcos)
  have hsecond : 0 < min tc.maxvel (prevTc.maxvel / cos (min phi (π * 0.49))) :=
    lt_min htc.maxvel (div_pos hprev.maxvel hcos)
  have hbase (v₁ v₂ : ℝ) (hv₁ : 0 < v₁) (hv₂ : 0 < v₂) :
      0 < pmCartMag (pmCartCartSub (pmCartScalMult geom.u2 v₂) (pmCartScalMult geom.u1 v₁)) := by
    rw [pmCartMag_eq_dot]
    refine sqrt_pos.2 ?_
    simp only [pmCartCartDot_sub_left, pmCartCartDot_sub_right, pmCartCartDot_scal_left, pmCartCartDot_scal_right,
      h.unit₁, h.unit₂, pmCartCartDot_comm geom.u2 geom.u1]
    nlinarith [mul_pos (mul_pos hv₁ hv₂) (by linarith [h.dot_lt] : 0 < 1 - pmCartCartDot geom.u1 geom.u2),
      sq_nonneg (v₂ - v₁)]
  unfold blendAltitudeVel
  rw [hcoords, hcoords']
  simp only [fmin_real, cos_real, sin_real, pi_real]
  refine div_pos (mul_pos two_pos (mul_pos (half_pos (mul_pos hfirst hsecond)) ?_)) (hbase _ _ hfirst hsecond)
  exact sin_pos_of_pos_of_lt_pi hphi₀ hphi₁

/-! ### The limits -/

/-- The plane of the corner. -/
noncomputable def cornerNormal (a b c : PmCartesian ℝ) : PmCartesian ℝ :=
  (blendCalculateNormals3 (lineCorner a b c)).binormal

theorem cornerNormal_unit (h : Corner (lineCorner a b c).u1 (lineCorner a b c).u2 (cornerTheta a b c)) :
    pmCartMagSq (cornerNormal a b c) = 1 ∧ pmCartCartDot (lineCorner a b c).u1 (cornerNormal a b c) = 0 ∧
      pmCartCartDot (lineCorner a b c).u2 (cornerNormal a b c) = 0 := by
  have hcross : ∀ u v : PmCartesian ℝ, pmCartCartDot (pmCartCartCross u v) (pmCartCartCross u v) =
      pmCartCartDot u u * pmCartCartDot v v - pmCartCartDot u v ^ 2 := by
    intro u v
    simp only [pmCartCartDot, pmCartCartCross]
    ring
  have hperp : ∀ u v : PmCartesian ℝ, pmCartCartDot u (pmCartCartCross u v) = 0 ∧
      pmCartCartDot v (pmCartCartCross u v) = 0 := by
    intro u v
    simp only [pmCartCartDot, pmCartCartCross]
    constructor <;> ring
  have hpos : 0 < 1 - pmCartCartDot (lineCorner a b c).u1 (lineCorner a b c).u2 ^ 2 := by
    nlinarith [h.dot_lt, h.lt_dot]
  have hmag : pmCartMag (pmCartCartCross (lineCorner a b c).u1 (lineCorner a b c).u2) =
      √(1 - pmCartCartDot (lineCorner a b c).u1 (lineCorner a b c).u2 ^ 2) := by
    rw [pmCartMag_eq_dot, hcross, h.unit₁, h.unit₂, one_mul]
  have hunit : cornerNormal a b c = pmCartScalMult (pmCartCartCross (lineCorner a b c).u1 (lineCorner a b c).u2)
      (1 / √(1 - pmCartCartDot (lineCorner a b c).u1 (lineCorner a b c).u2 ^ 2)) :=
    pmCartUnit_of_mag hmag (sqrt_pos.2 hpos).ne'
  obtain ⟨hu, hv⟩ := hperp (lineCorner a b c).u1 (lineCorner a b c).u2
  refine ⟨?_, ?_, ?_⟩
  · rw [pmCartMagSq_eq, pmCartMag_eq_dot, sq_sqrt (pmCartCartDot_self_nonneg _), hunit, pmCartCartDot_scal_left,
      pmCartCartDot_scal_right, hcross, h.unit₁, h.unit₂, one_mul]
    have hsq := sq_sqrt hpos.le
    have hne := (sqrt_pos.2 hpos).ne'
    field_simp
    exact hsq.symm
  · rw [hunit, pmCartCartDot_scal_right, hu, mul_zero]
  · rw [hunit, pmCartCartDot_scal_right, hv, mul_zero]

/-- The limits of the blend, field by field. -/
structure BlendLimits (env : TpEnv ℝ) (cfg : BlendConfig ℝ) (prevTc tc : Tc ℝ) (a b c : PmCartesian ℝ)
    (param : BlendParameters ℝ) : Prop where
  theta : param.theta = cornerTheta a b c
  phi : param.phi = π - cornerTheta a b c * 2
  L1 : param.L1 = min prevTc.target (prevTc.nominalLength * 0.5)
  L2 : param.L2 = tc.target * 0.5
  tolerance : param.tolerance = tcFindBlendTolerance prevTc tc
  plane : calculateInscribedDiameter (cornerNormal a b c) cfg.accBound = some param.aMax
  aNMax : param.aNMax = param.aMax * blendAccRatioNormal
  vGoal : param.vGoal = min (max (tcGetMaxTargetVel prevTc env.maxAxisScale) (tcGetMaxTargetVel tc env.maxAxisScale))
    (max (blendAltitudeVel (blendCalculateNormals3 (lineCorner a b c)) (π - cornerTheta a b c * 2) prevTc tc) 0)

theorem BlendInit.limits (h : BlendInit env cfg prevTc tc a b c param) : BlendLimits env cfg prevTc tc a b c param := by
  obtain ⟨aMax, hplane, heq⟩ := Option.map_eq_some_iff.1 h.kinematics
  subst heq
  exact ⟨rfl, rfl, by rw [fmin_real]; rfl, rfl, rfl, hplane, rfl, by simp only [fmin_real, fmax_real, pi_real]⟩

theorem tcFindBlendTolerance_pos (hprev : prevTc.Blendable a b) (htc : tc.Blendable b c) :
    0 < tcFindBlendTolerance prevTc tc := by
  have hnominal {s : Tc ℝ} {p q : PmCartesian ℝ} (h : s.Blendable p q) : 0 < s.nominalLength * 0.25 :=
    mul_pos (h.target_pos.trans_le h.nominal) (by norm_num)
  have hpos {s : Tc ℝ} {p q : PmCartesian ℝ} (h : s.Blendable p q) :
      0 < if s.tolerance == 0 then s.nominalLength * 0.25 else s.tolerance := by
    rw [beq_real]
    by_cases hzero : s.tolerance = 0
    · rw [if_pos (decide_eq_true hzero)]
      exact hnominal h
    · rw [decide_eq_false hzero, if_neg Bool.false_ne_true]
      exact lt_of_le_of_ne h.tolerance (Ne.symm hzero)
  unfold tcFindBlendTolerance
  simp only [fmin_real]
  exact lt_min (lt_min (lt_min (hpos hprev) (hpos htc)) (hnominal hprev)) (hnominal htc)

theorem tcGetMaxTargetVel_pos {s : Tc ℝ} {p q : PmCartesian ℝ} (h : s.Blendable p q) {scale : ℝ} (hscale : 0 < scale) :
    0 < tcGetMaxTargetVel s scale := by
  unfold tcGetMaxTargetVel
  dsimp only
  rw [fmin_real]
  refine lt_min ?_ h.maxvel
  split
  · exact mul_pos h.reqvel hscale
  · exact h.maxvel

theorem BlendLimits.corner (h : BlendLimits env cfg prevTc tc a b c param)
    (hcorner : Corner (lineCorner a b c).u1 (lineCorner a b c).u2 (cornerTheta a b c)) (hprev : prevTc.Blendable a b)
    (htc : tc.Blendable b c) (hbound : ∀ i, 0 < cfg.accBound.get i) (hscale : 0 < env.maxAxisScale) :
    param.Corner := by
  have hnominal := hprev.target_pos.trans_le hprev.nominal
  obtain ⟨d, hd, hleast⟩ := calculateInscribedDiameter_eq (cornerNormal_unit hcorner).1 hbound
  have haMax : 0 < param.aMax := by
    rw [← Option.some.inj (hd.symm.trans h.plane)]
    exact (sq_mul_le_of_least (cornerNormal_unit hcorner).1 hbound hleast 0).1
  refine ⟨?_, ?_, ?_, ?_, ?_, ?_, haMax, ?_, ?_⟩
  · rw [h.theta]
    exact hcorner.theta_pos
  · rw [h.theta]
    exact hcorner.theta_lt
  · rw [h.phi, h.theta, mul_comm]
  · rw [h.L1]
    exact lt_min hprev.target_pos (mul_pos hnominal (by norm_num))
  · rw [h.L2]
    exact mul_pos htc.target_pos (by norm_num)
  · rw [h.tolerance]
    exact tcFindBlendTolerance_pos hprev htc
  · rw [h.aNMax]
    exact mul_pos haMax blendAccRatioNormal_pos
  · have haltitude : 0 < blendAltitudeVel (blendCalculateNormals3 (lineCorner a b c)) (π - cornerTheta a b c * 2) prevTc
        tc := blendAltitudeVel_pos hcorner rfl hprev htc
    rw [h.vGoal]
    exact lt_min (lt_max_of_lt_left (tcGetMaxTargetVel_pos hprev hscale)) (lt_max_of_lt_left haltitude)

end Init

/-! ### The blend -/

section Create

variable {env : TpEnv ℝ} {cfg : BlendConfig ℝ} {tp tp' : Tp ℝ} {prevTc tc tc' : Tc ℝ} {blendTc : BlendTc ℝ}
  {a b c : PmCartesian ℝ} {rest : List (Tc ℝ)}

/-- The points of an arc between the two lines. -/
noncomputable def cornerPoints (a b c : PmCartesian ℝ) (param : BlendParameters ℝ) : BlendPoints3 ℝ :=
  blendFindPoints3 (blendCalculateNormals3 (lineCorner a b c)) param

/-- The radius to the start of the arc. -/
noncomputable def cornerRadius (a b c : PmCartesian ℝ) (param : BlendParameters ℝ) : EuclideanSpace ℝ (Fin 3) :=
  (pmCartCartSub (cornerPoints a b c param).arcStart (cornerPoints a b c param).arcCenter).toPoint

/-- The angle between the lines. -/
noncomputable def cornerAngle (a b c : PmCartesian ℝ) : ℝ :=
  arccos (pmCartCartDot (lineCorner a b c).u1 (lineCorner a b c).u2)

/-- What is left of the first line: the line up to the start of the arc, or, for an arc that begins with it, its
length. -/
inductive FirstLine (a start : PmCartesian ℝ) (length : ℝ) (rest : List (Tc ℝ)) : ℝ → List (Tc ℝ) → Prop
  | kept {prevTc : Tc ℝ} (h : prevTc.Straight a start) : FirstLine a start length rest 0 (rest ++ [prevTc])
  | consumed : FirstLine a start length rest length rest

/-- A blend that has been made, with the limits `param₀`, the parameters `param` and the length `L` that its arc has
before it turns. -/
structure BlendMade (env : TpEnv ℝ) (cfg : BlendConfig ℝ) (prevTc tc : Tc ℝ) (a b c : PmCartesian ℝ)
    (rest : List (Tc ℝ)) (tp' : Tp ℝ) (tc' : Tc ℝ) (blendTc : BlendTc ℝ) (param₀ param : BlendParameters ℝ) (L : ℝ) :
    Prop where
  init : BlendInit env cfg prevTc tc a b c param₀
  param_eq : blendComputeParameters param₀ = (param, .ok)
  arc : arcFromBlendPoints3 (cornerPoints a b c param) (blendCalculateNormals3 (lineCorner a b c)) L =
    (blendTc.arc, .ok)
  target : blendTc.target = arcLength blendTc.arc
  maxvel : blendTc.maxvel ≤ param.vPlan
  maxaccel : blendTc.maxaccel = param.aMax
  accRatio : blendTc.accRatioTan = blendAccRatioTangential
  next : tc'.Straight (cornerPoints a b c param).arcEnd c
  first : FirstLine a (cornerPoints a b c param).arcStart (prevTc.target - param.dPlan) rest L tp'.queue.items

theorem tcShortenEnd_straight (s : Tc ℝ) (abc uvw : PmCartLine ℝ) (p q start : PmCartesian ℝ) :
    (tcShortenEnd s ⟨pmCartLineInit p q, abc, uvw⟩ start).Straight p start := by
  refine ⟨⟨abc, uvw, ?_⟩, ?_⟩
  · show Coords.line ⟨pmCartLineInit (pmCartLineInit p q).start start, abc, uvw⟩ = _
    rw [pmCartLineInit_start]
  · show (pmCartLineInit (pmCartLineInit p q).start start).tmag = _
    rw [pmCartLineInit_start, pmCartLineInit_tmag]

theorem tcShortenStart_straight (s : Tc ℝ) (abc uvw : PmCartLine ℝ) (p q stop : PmCartesian ℝ) :
    (tcShortenStart s ⟨pmCartLineInit p q, abc, uvw⟩ stop).Straight stop q := by
  refine ⟨⟨abc, uvw, ?_⟩, ?_⟩
  · show Coords.line ⟨pmCartLineInit stop (pmCartLineInit p q).end, abc, uvw⟩ = _
    rw [pmCartLineInit_end]
  · show (pmCartLineInit stop (pmCartLineInit p q).end).tmag = _
    rw [pmCartLineInit_end, pmCartLineInit_tmag]

theorem tpCreateLineLineBlend_ok (hprev : prevTc.Blendable a b) (htc : tc.Blendable b c) (hw : tp.queue.WF)
    (hitems : tp.queue.items = rest ++ [prevTc])
    (h : tpCreateLineLineBlend env cfg tp prevTc tc = (tp', tc', .ok blendTc)) :
    ∃ param₀ param L, BlendMade env cfg prevTc tc a b c rest tp' tc' blendTc param₀ param L := by
  obtain ⟨abc, uvw, hcoords⟩ := hprev.coords
  obtain ⟨abc', uvw', hcoords'⟩ := htc.coords
  unfold tpCreateLineLineBlend at h
  rw [hcoords, hcoords'] at h
  cases hinit : blendInit3FromLineLine env cfg prevTc tc with
  | error err =>
    rw [hinit] at h
    cases h
  | ok found =>
    obtain ⟨geom, param₀⟩ := found
    obtain ⟨rfl, hinit'⟩ := (blendInit3FromLineLine_iff hprev htc).1 hinit
    rw [hinit] at h
    dsimp only at h
    obtain ⟨⟨param, resBlend⟩, hparam⟩ : ∃ r, r = blendComputeParameters param₀ := ⟨_, rfl⟩
    rw [← hparam] at h
    dsimp only at h
    split at h
    · cases h
    rename_i hok
    obtain rfl := not_not.1 hok
    obtain ⟨⟨consume, L⟩, hconsume⟩ : ∃ r, r = blendCheckConsume param (cornerPoints a b c param) prevTc
        cfg.arcBlendGapCycles := ⟨_, rfl⟩
    obtain ⟨⟨arc, resArc⟩, harc⟩ : ∃ r, r = arcFromBlendPoints3 (cornerPoints a b c param)
        (blendCalculateNormals3 (lineCorner a b c)) L := ⟨_, rfl⟩
    unfold cornerPoints at hconsume harc
    rw [← hconsume] at h
    dsimp only at h
    rw [← harc] at h
    dsimp only at h
    split at h
    · cases h
    rename_i hok'
    obtain rfl := not_not.1 hok'
    -- the choice between the blends changes neither of the lines
    generalize tpChooseBestBlend env tp prevTc tc _ = chosen at h
    obtain ⟨prevTc₁, tc₁, best⟩ := chosen
    dsimp only at h
    split at h
    · cases h
    have hmaxvel : fmin param.vPlan (arcLength arc / tp.cycleTime) ≤ param.vPlan := by
      rw [fmin_real]
      exact min_le_left _ _
    have hlength : L = if consume then prevTc.target - param.dPlan else 0 := by
      unfold blendCheckConsume at hconsume
      cases hconsume
      rfl
    have hset := setLast_items hw hitems prevTc₁
    have hwset := setLast_wf hw prevTc₁
    cases consume with
    | true =>
      rw [if_pos rfl] at h hlength
      cases hpop : tcqPopBack (tp.queue.setLast prevTc₁) with
      | none =>
        rw [hpop] at h
        cases h
      | some queue =>
        rw [hpop] at h
        cases h
        refine ⟨param₀, param, L, hinit', hparam.symm, harc.symm, rfl, hmaxvel, rfl, rfl, ?_, ?_⟩
        · obtain ⟨hcoords₁, htarget₁⟩ := tcShortenStart_straight tc₁ abc' uvw' b c (cornerPoints a b c param).arcEnd
          exact ⟨hcoords₁, htarget₁⟩
        · rw [hlength]
          show FirstLine _ _ _ _ _ queue.items
          rw [tcqPopBack_items hwset hset hpop]
          exact .consumed
    | false =>
      rw [if_neg Bool.false_ne_true] at h hlength
      cases h
      refine ⟨param₀, param, L, hinit', hparam.symm, harc.symm, rfl, hmaxvel, rfl, rfl, ?_, ?_⟩
      · obtain ⟨hcoords₁, htarget₁⟩ := tcShortenStart_straight tc₁ abc' uvw' b c (cornerPoints a b c param).arcEnd
        exact ⟨hcoords₁, htarget₁⟩
      · rw [hlength]
        show FirstLine _ _ _ _ _ (Tcq.items ((tp.queue.setLast prevTc₁).setLast _))
        rw [setLast_items hwset hset]
        obtain ⟨hcoords₁, htarget₁⟩ := tcShortenEnd_straight prevTc₁ abc uvw a b (cornerPoints a b c param).arcStart
        exact .kept ⟨hcoords₁, htarget₁⟩

theorem blendComputeParameters_theta (param : BlendParameters ℝ) :
    (blendComputeParameters param).1.theta = param.theta := by
  unfold blendComputeParameters
  simp only [apply_ite Prod.fst, ite_self]

/-- An arc of less than the position tolerance is not made. -/
theorem RPlan_pos_of_ok {param₀ param : BlendParameters ℝ} (h : blendComputeParameters param₀ = (param, .ok)) :
    0 < param.RPlan := by
  by_contra hle
  have hsmall : (blendComputeParameters param₀).1.RPlan < tpPosEpsilon := by
    rw [h]
    exact (not_lt.1 hle).trans_lt one_pos
  have hfail : (blendComputeParameters param₀).2 = .fail := by
    unfold blendComputeParameters at hsmall ⊢
    simp only [apply_ite Prod.fst, ite_self] at hsmall
    dsimp only
    rw [if_pos hsmall]
  rw [h] at hfail
  cases hfail

namespace BlendMade

variable {param₀ param : BlendParameters ℝ} {L : ℝ}

section Fits

variable (h : BlendMade env cfg prevTc tc a b c rest tp' tc' blendTc param₀ param L)

include h

theorem theta_eq : param.theta = cornerTheta a b c := by
  have htheta := blendComputeParameters_theta param₀
  rw [h.param_eq] at htheta
  exact htheta.trans h.init.limits.theta

theorem dPlan_eq : param.dPlan = param.RPlan / tan param.theta := by
  have hd := blendComputeParameters_dPlan param₀
  rw [h.param_eq] at hd
  rw [h.theta_eq, ← h.init.limits.theta]
  exact hd

variable (hprev : prevTc.Blendable a b) (htc : tc.Blendable b c)

include hprev htc

theorem corner : Corner (lineCorner a b c).u1 (lineCorner a b c).u2 param.theta := by
  rw [h.theta_eq]
  exact h.init.corner hprev htc

theorem dPlan_nonneg : 0 ≤ param.dPlan := by
  rw [h.dPlan_eq]
  exact div_nonneg (RPlan_pos_of_ok h.param_eq).le (tan_pos_of_pos_of_lt_pi_div_two
    (h.corner hprev htc).theta_pos (h.corner hprev htc).theta_lt).le

theorem meets : ArcJoins.Meets (cornerPoints a b c param).arcCenter.toPoint
    (cornerRadius a b c param)
    (lineCorner a b c).u1 (lineCorner a b c).u2 param.RPlan
    (cornerAngle a b c) param.theta b.toPoint := by
  have hcorner := h.corner hprev htc
  have htwo := hcorner.two_theta
  rw [arccos_neg] at htwo
  change 2 * param.theta = π - cornerAngle a b c at htwo
  have hturn : turn (cornerRadius a b c param)
      (param.RPlan • (lineCorner a b c).u1.toPoint)
      (cornerAngle a b c) =
        (pmCartCartSub (cornerPoints a b c param).arcEnd (cornerPoints a b c param).arcCenter).toPoint :=
    blendFindPoints3_turn hcorner rfl rfl (RPlan_pos_of_ok h.param_eq) h.dPlan_eq
  have hstart : (cornerPoints a b c param).arcStart.toPoint =
      -param.dPlan • (lineCorner a b c).u1.toPoint + b.toPoint := by
    show (pmCartCartAdd (pmCartScalMult (lineCorner a b c).u1 (-param.dPlan)) b).toPoint = _
    rw [toPoint_add, toPoint_scal]
  have hstop : (cornerPoints a b c param).arcEnd.toPoint =
      param.dPlan • (lineCorner a b c).u2.toPoint + b.toPoint := by
    show (pmCartCartAdd (pmCartScalMult (lineCorner a b c).u2 param.dPlan) b).toPoint = _
    rw [toPoint_add, toPoint_scal]
  refine ⟨by linarith, ?_, ?_⟩
  · rw [cornerRadius, toPoint_sub, add_sub_cancel, hstart, h.dPlan_eq, neg_smul, neg_add_eq_sub]
  · rw [hturn, toPoint_sub, add_sub_cancel, hstop, h.dPlan_eq, add_comm]

variable (hbound : ∀ i, 0 < cfg.accBound.get i) (hscale : 0 < env.maxAxisScale)

include hbound hscale

theorem room : param.RPlan ≤ tan param.theta * blendRoom param₀ := by
  have hle := RPlan_le (h.init.limits.corner (h.init.corner hprev htc) hprev htc hbound hscale)
  rw [h.param_eq] at hle
  rw [h.theta_eq, ← h.init.limits.theta]
  exact hle

/-- The arc takes no more of the lines than their limits allow. -/
theorem dPlan_le : param.dPlan ≤ prevTc.target ∧ param.dPlan ≤ tc.target * 0.5 := by
  have htan : 0 < tan param.theta :=
    tan_pos_of_pos_of_lt_pi_div_two (h.corner hprev htc).theta_pos (h.corner hprev htc).theta_lt
  have hle : param.dPlan ≤ min param₀.L1 param₀.L2 := by
    rw [h.dPlan_eq, div_le_iff₀' htan]
    exact (h.room hprev htc hbound hscale).trans (mul_le_mul_of_nonneg_left (min_le_left _ _) htan.le)
  rw [h.init.limits.L1, h.init.limits.L2] at hle
  exact ⟨hle.trans ((min_le_left _ _).trans (min_le_left _ _)), hle.trans (min_le_right _ _)⟩

theorem deviation : param.RPlan / sin param.theta - param.RPlan ≤ tcFindBlendTolerance prevTc tc := by
  have hlimits := h.init.limits
  have hroom := h.room hprev htc hbound hscale
  rw [h.theta_eq, ← hlimits.theta] at hroom ⊢
  rw [← hlimits.tolerance]
  exact deviation_le (hlimits.corner (h.init.corner hprev htc) hprev htc hbound hscale) hroom

theorem L_range : 0 ≤ L ∧ L + param.dPlan ≤ prevTc.target := by
  obtain ⟨hle, -⟩ := h.dPlan_le hprev htc hbound hscale
  have hfirst := h.first
  generalize tp'.queue.items = left at hfirst
  cases hfirst with
  | kept => exact ⟨le_rfl, by linarith⟩
  | consumed => exact ⟨by linarith, by linarith⟩

theorem joins : ArcJoins blendTc.arc (cornerPoints a b c param).arcCenter.toPoint
    (cornerRadius a b c param)
    (lineCorner a b c).u1 (lineCorner a b c).u2 param.RPlan L
    (cornerAngle a b c) := by
  have harc := h.arc
  unfold arcFromBlendPoints3 at harc
  dsimp only at harc
  have hpoints : cornerPoints a b c param = blendFindPoints3 (blendCalculateNormals3 (lineCorner a b c)) param := rfl
  have hjoins := arcInitFromPoints_joins (h.corner hprev htc) rfl rfl (RPlan_pos_of_ok h.param_eq) h.dPlan_eq
    (h.L_range hprev htc hbound hscale).1 rfl hpoints (congrArg Prod.snd harc)
  have hfst := congrArg Prod.fst harc
  dsimp only at hfst hjoins
  rw [hfst] at hjoins
  exact hjoins

end Fits

end BlendMade

end Create

/-! ### The path -/

/-- The place on a blend arc, as a function of the progress. -/
noncomputable def BlendTc.place (blendTc : BlendTc ℝ) (p : ℝ) : EuclideanSpace ℝ (Fin 3) :=
  (arcPoint blendTc.arc p).toPoint

/-- The direction of a blend arc. -/
noncomputable def BlendTc.direction (blendTc : BlendTc ℝ) (p : ℝ) : EuclideanSpace ℝ (Fin 3) :=
  derivWithin blendTc.place (Set.Icc 0 blendTc.target) p

/-- The queue after the segments `rest` ends in a line from `a` to `s`, or `s` is `a` and no line is left. -/
inductive EndsAt (a s : PmCartesian ℝ) (rest : List (Tc ℝ)) : List (Tc ℝ) → Prop
  | kept {prevTc : Tc ℝ} (h : prevTc.Straight a s) : EndsAt a s rest (rest ++ [prevTc])
  | consumed (h : s = a) : EndsAt a s rest rest

/-- The path along the lines from `a` to `b` and on to `c`, rounded at `b`. -/
structure CornerRounded (prevTc tc : Tc ℝ) (a b c : PmCartesian ℝ) (rest : List (Tc ℝ)) (tp' : Tp ℝ) (tc' : Tc ℝ)
    (blendTc : BlendTc ℝ) : Prop where
  first : EndsAt a (arcPoint blendTc.arc 0) rest tp'.queue.items
  next : tc'.Straight (arcPoint blendTc.arc blendTc.target) c
  half : tc.target / 2 ≤ tc'.target
  length : 0 < blendTc.target
  start_mem : blendTc.place 0 ∈ segment ℝ a.toPoint b.toPoint
  stop_mem : blendTc.place blendTc.target ∈ segment ℝ b.toPoint c.toPoint
  smooth : ContDiffOn ℝ 1 blendTc.place (Set.Icc 0 blendTc.target)
  speed : ∀ p ∈ Set.Icc 0 blendTc.target, ‖blendTc.direction p‖ = 1
  enters : blendTc.direction 0 = (pmCartUnit (pmCartCartSub b a)).toPoint
  leaves : blendTc.direction blendTc.target = (pmCartUnit (pmCartCartSub c b)).toPoint
  near : ∀ p ∈ Set.Icc 0 blendTc.target, ∃ q ∈ segment ℝ a.toPoint b.toPoint ∪ segment ℝ b.toPoint c.toPoint,
    dist (blendTc.place p) q ≤ tcFindBlendTolerance prevTc tc
  corner : ∃ p ∈ Set.Icc 0 blendTc.target, dist (blendTc.place p) b.toPoint ≤ tcFindBlendTolerance prevTc tc

namespace Tc.Blendable

variable {tc : Tc ℝ} {a b : PmCartesian ℝ} {x : ℝ}

theorem mem_of_start (h : tc.Blendable a b) (hx : 0 ≤ x) (hle : x ≤ tc.target) :
    a.toPoint + x • (pmCartUnit (pmCartCartSub b a)).toPoint ∈ segment ℝ a.toPoint b.toPoint := by
  have hpos := h.target_pos
  rw [segment_eq_image']
  refine ⟨x / tc.target, ⟨div_nonneg hx hpos.le, (div_le_one hpos).2 hle⟩, ?_⟩
  have hcancel : x / tc.target * tc.target = x := div_mul_cancel₀ _ hpos.ne'
  rw [h.toPoint_end]
  simp only [add_sub_cancel_left, smul_smul, hcancel]

theorem mem_of_end (h : tc.Blendable a b) (hx : 0 ≤ x) (hle : x ≤ tc.target) :
    b.toPoint - x • (pmCartUnit (pmCartCartSub b a)).toPoint ∈ segment ℝ a.toPoint b.toPoint := by
  have hmem := h.mem_of_start (x := tc.target - x) (by linarith) (by linarith)
  have heq : b.toPoint - x • (pmCartUnit (pmCartCartSub b a)).toPoint =
      a.toPoint + (tc.target - x) • (pmCartUnit (pmCartCartSub b a)).toPoint := by
    rw [h.toPoint_end, sub_smul, add_sub_assoc]
  rwa [heq]

end Tc.Blendable

section Rounded

variable {env : TpEnv ℝ} {cfg : BlendConfig ℝ} {tp tp' : Tp ℝ} {prevTc tc tc' : Tc ℝ} {blendTc : BlendTc ℝ}
  {a b c : PmCartesian ℝ} {rest : List (Tc ℝ)} {param₀ param : BlendParameters ℝ} {L : ℝ}

namespace BlendMade

variable (h : BlendMade env cfg prevTc tc a b c rest tp' tc' blendTc param₀ param L) (hprev : prevTc.Blendable a b)
  (htc : tc.Blendable b c) (hbound : ∀ i, 0 < cfg.accBound.get i) (hscale : 0 < env.maxAxisScale)

include h hprev htc hbound hscale

theorem direction_eq {p : ℝ} (hp : p ∈ Set.Icc 0 blendTc.target) : blendTc.direction p =
    enterTurnDir (cornerRadius a b c param) (lineCorner a b c).u1.toPoint param.RPlan L p := by
  unfold BlendTc.direction BlendTc.place
  rw [h.target] at hp ⊢
  exact (h.joins hprev htc hbound hscale).derivWithin_eq hp

theorem place_zero : blendTc.place 0 = b.toPoint - (L + param.dPlan) • (lineCorner a b c).u1.toPoint := by
  have hmeets := (h.meets hprev htc).start
  rw [BlendTc.place, (h.joins hprev htc hbound hscale).place_zero, hmeets, ← h.dPlan_eq, add_smul]
  abel

theorem place_target : blendTc.place blendTc.target = b.toPoint + param.dPlan • (lineCorner a b c).u2.toPoint := by
  rw [BlendTc.place, h.target, (h.joins hprev htc hbound hscale).place_length, (h.meets hprev htc).stop,
    ← h.dPlan_eq]

/-- The whole arc is near the lines: where it still follows the first line, and on both halves of its turn. -/
theorem near {p : ℝ} (hp : p ∈ Set.Icc 0 blendTc.target) :
    ∃ q ∈ segment ℝ a.toPoint b.toPoint ∪ segment ℝ b.toPoint c.toPoint,
      dist (blendTc.place p) q ≤ tcFindBlendTolerance prevTc tc := by
  have hjoins := h.joins hprev htc hbound hscale
  have hmeets := h.meets hprev htc
  have hdev := h.deviation hprev htc hbound hscale
  obtain ⟨hL, hLd⟩ := h.L_range hprev htc hbound hscale
  obtain ⟨-, hd₂⟩ := h.dPlan_le hprev htc hbound hscale
  have hd := h.dPlan_nonneg hprev htc
  have htol := (tcFindBlendTolerance_pos hprev htc).le
  have htarget := htc.target_pos
  have hR := hjoins.pos
  have hlen := hp.2
  rw [h.target, hjoins.length] at hlen
  have hplace : blendTc.place p = _ := hjoins.place p hp.1
  rw [enterTurn] at hplace
  by_cases hline : p ≤ L
  · rw [if_pos hline, hmeets.start, ← h.dPlan_eq] at hplace
    have heq : blendTc.place p = b.toPoint - (param.dPlan + (L - p)) • (lineCorner a b c).u1.toPoint := by
      rw [hplace, add_smul, sub_smul, sub_smul]
      abel
    have hmem := hprev.mem_of_end (x := param.dPlan + (L - p)) (by linarith) (by linarith [hp.1])
    refine ⟨_, .inl hmem, ?_⟩
    rw [heq]
    exact (dist_self _).trans_le htol
  · rw [if_neg hline] at hplace
    have hx : 0 ≤ param.RPlan⁻¹ * (p - L) := mul_nonneg (inv_nonneg.2 hR.le) (by linarith)
    rw [hplace]
    by_cases hhalf : param.RPlan⁻¹ * (p - L) ≤ cornerAngle a b c / 2
    · obtain ⟨d, hd₀, hd₁, hdist⟩ := hjoins.near_first hmeets hx hhalf
      rw [← h.dPlan_eq] at hd₁
      exact ⟨_, .inl (hprev.mem_of_end hd₀ (by linarith)), hdist.trans hdev⟩
    · obtain ⟨d, hd₀, hd₁, hdist⟩ := hjoins.near_second hmeets (not_le.1 hhalf).le
        ((inv_mul_le_iff₀ hR).2 (by linarith))
      rw [← h.dPlan_eq] at hd₁
      exact ⟨_, .inr (htc.mem_of_start hd₀ (by linarith)), hdist.trans hdev⟩

theorem rounded : CornerRounded prevTc tc a b c rest tp' tc' blendTc := by
  have hjoins := h.joins hprev htc hbound hscale
  have hmeets := h.meets hprev htc
  have hdev := h.deviation hprev htc hbound hscale
  obtain ⟨hL, hLd⟩ := h.L_range hprev htc hbound hscale
  obtain ⟨hd₁, hd₂⟩ := h.dPlan_le hprev htc hbound hscale
  have hd := h.dPlan_nonneg hprev htc
  have htarget := htc.target_pos
  have hlength := hjoins.length_pos
  have hzero := h.place_zero hprev htc hbound hscale
  have hstop := h.place_target hprev htc hbound hscale
  have hend : arcPoint blendTc.arc blendTc.target = (cornerPoints a b c param).arcEnd := by
    refine toPoint_inj (hstop.trans ?_)
    show _ = (pmCartCartAdd (pmCartScalMult (lineCorner a b c).u2 param.dPlan) b).toPoint
    rw [toPoint_add, toPoint_scal, add_comm]
  constructor
  · have hfirst := h.first
    generalize tp'.queue.items = left at hfirst ⊢
    cases hfirst with
    | kept hs =>
      have hstart : (cornerPoints a b c param).arcStart = arcPoint blendTc.arc 0 := by
        refine toPoint_inj (Eq.trans ?_ hzero.symm)
        show (pmCartCartAdd (pmCartScalMult (lineCorner a b c).u1 (-param.dPlan)) b).toPoint = _
        rw [toPoint_add, toPoint_scal, zero_add, neg_smul, neg_add_eq_sub]
      exact .kept (hstart ▸ hs)
    | consumed =>
      refine .consumed (toPoint_inj (hzero.trans ?_))
      rw [sub_add_cancel, hprev.toPoint_end]
      exact add_sub_cancel_right _ _
  · rw [hend]
    exact h.next
  · -- the second line gives up no more than half of its length
    have hrest : c.toPoint - (arcPoint blendTc.arc blendTc.target).toPoint =
        (tc.target - param.dPlan) • (lineCorner a b c).u2.toPoint := by
      rw [show (arcPoint blendTc.arc blendTc.target).toPoint = _ from hstop, htc.toPoint_end, sub_smul]
      exact add_sub_add_left_eq_sub _ _ _
    have hunit : ‖(lineCorner a b c).u2.toPoint‖ = 1 := by
      rw [norm_toPoint, pmCartMag_eq_of_dot zero_le_one (by rw [one_pow]; exact htc.unit)]
    rw [h.next.target, ← hend, lineLength, ← norm_toPoint, toPoint_sub, hrest, norm_smul, hunit, mul_one,
      Real.norm_of_nonneg (by linarith)]
    linarith
  · rw [h.target]
    exact hlength
  · rw [hzero]
    exact hprev.mem_of_end (by linarith) hLd
  · rw [hstop]
    exact htc.mem_of_start hd (by linarith)
  · rw [h.target]
    exact hjoins.contDiffOn
  · intro p hp
    rw [h.direction_eq hprev htc hbound hscale hp, hjoins.quarter.norm_enterTurnDir hjoins.pos]
  · rw [h.direction_eq hprev htc hbound hscale ⟨le_rfl, h.target ▸ hlength.le⟩, hjoins.dir_zero]
    rfl
  · rw [h.direction_eq hprev htc hbound hscale ⟨h.target ▸ hlength.le, le_rfl⟩, h.target, hjoins.dir_length]
    rfl
  · exact fun p hp => h.near hprev htc hbound hscale hp
  · -- the middle of the turn
    have hphi := hjoins.phi_pos
    have hmid : 0 < param.RPlan * (cornerAngle a b c / 2) :=
      mul_pos hjoins.pos (half_pos hphi)
    refine ⟨L + param.RPlan * (cornerAngle a b c / 2),
      ⟨by linarith, ?_⟩, ?_⟩
    · rw [h.target, hjoins.length]
      linarith
    · rw [BlendTc.place, hjoins.place _ (by linarith), enterTurn, if_neg (by linarith), add_sub_cancel_left,
        inv_mul_cancel_left₀ hjoins.pos.ne', hjoins.dist_corner hmeets]
      exact hdev

end BlendMade

end Rounded

end SoemMotion
