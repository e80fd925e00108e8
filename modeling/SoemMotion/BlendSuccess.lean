import SoemMotion.CornerBlend
import SoemMotion.QueueEnd

/-!
# When a blend is made

An arc is made where its radius and its length are above their tolerances, and where no other way around the corner is
faster; a parabolic blend never is faster than the slower of its segments.  At a right angle between two long lines all
of this holds.
-/

namespace SoemMotion

open Real Lib

section Success

variable {env : TpEnv ℝ} {cfg : BlendConfig ℝ} {tp : Tp ℝ} {prevTc tc : Tc ℝ} {a b c : PmCartesian ℝ}
  {param : BlendParameters ℝ}

theorem blendComputeParameters_ok (hR : tpPosEpsilon ≤ (blendComputeParameters param).1.RPlan)
    (hs : tpMinArcLength ≤ (blendComputeParameters param).1.RPlan * param.phi) :
    (blendComputeParameters param).2 = .ok := by
  unfold blendComputeParameters at hR hs ⊢
  simp only [apply_ite Prod.fst, ite_self] at hR hs
  dsimp only
  rw [if_neg (not_lt.2 hR), if_neg (not_lt.2 hs)]

theorem arcInitFromPoints_ok (arc : SphericalArc ℝ) {start stop center : PmCartesian ℝ} {R x : ℝ}
    (h : Radii start stop center R x) (hR : arcMinRadius ≤ R) (hx : arcMinAngle ≤ arccos x) :
    (arcInitFromPoints arc start stop center).2 = .ok := by
  have hne := h.pos.ne'
  have hmag₀ : pmCartMag (pmCartCartSub start center) = R := pmCartMag_eq_of_dot h.pos.le h.start_sq
  have hmag₁ : pmCartMag (pmCartCartSub stop center) = R := pmCartMag_eq_of_dot h.pos.le h.stop_sq
  have hdot : pmCartCartDot (pmCartScalMult (pmCartCartSub start center) (1 / R))
      (pmCartScalMult (pmCartCartSub stop center) (1 / R)) = x := by
    rw [pmCartCartDot_scal_left, pmCartCartDot_scal_right, h.dot]
    field_simp
  unfold arcInitFromPoints
  simp only [hmag₀, hmag₁, hdot, acos_real]
  rw [if_neg fun hsmall => hsmall.elim (not_lt.2 hR) (not_lt.2 hR), if_neg (not_lt.2 hx)]

theorem tpGetMaxTargetVel_le (tp : Tp ℝ) (tc : Tc ℝ) : tpGetMaxTargetVel env tp tc ≤ tc.maxvel := by
  have hle (scale : ℝ) : tcGetMaxTargetVel tc scale ≤ tc.maxvel := by
    unfold tcGetMaxTargetVel
    dsimp only
    rw [fmin_real]
    exact min_le_right _ _
  unfold tpGetMaxTargetVel
  dsimp only
  split
  · rw [fmin_real]
    exact (min_le_left _ _).trans (hle _)
  · exact hle _

/-- A parabolic blend is no faster than either segment. -/
theorem estimateParabolicBlendPerformance_le {m : ℝ} (hm : 0 ≤ m) (hprev : prevTc.maxvel ≤ m) (htc : tc.maxvel ≤ m) :
    estimateParabolicBlendPerformance env tp prevTc tc ≤ m := by
  have hsin (u v : PmCartesian ℝ) : 0 ≤ sin (findIntersectionAngle u v) ∧ sin (findIntersectionAngle u v) ≤ 1 := by
    unfold findIntersectionAngle
    rw [acos_real]
    have hlow := arccos_nonneg (-(satInplace (pmCartCartDot u v) 1).1)
    have hhigh := arccos_le_pi (-(satInplace (pmCartCartDot u v) 1).1)
    exact ⟨sin_nonneg_of_nonneg_of_le_pi (by linarith) (by linarith), sin_le_one _⟩
  have hvel (x y : ℝ) :
      (tpComputeBlendVelocity prevTc tc x y).1 ≤ x ∧ (tpComputeBlendVelocity prevTc tc x y).2 ≤ y := by
    unfold tpComputeBlendVelocity
    simp only [fmin_real]
    split
    · exact ⟨(min_le_left _ _).trans ((min_le_left _ _).trans (min_le_right _ _)),
        (min_le_left _ _).trans ((min_le_left _ _).trans (min_le_right _ _))⟩
    · exact ⟨(min_le_left _ _).trans (min_le_right _ _), (min_le_left _ _).trans (min_le_right _ _)⟩
  obtain ⟨hthis, hnext⟩ := hvel (tpGetMaxTargetVel env tp prevTc) (tpGetMaxTargetVel env tp tc)
  obtain ⟨hlow, hhigh⟩ := hsin (tcGetEndAccelUnitVector prevTc) (tcGetStartAccelUnitVector tc)
  have hprev' : tpGetMaxTargetVel env tp prevTc ≤ m := (tpGetMaxTargetVel_le tp prevTc).trans hprev
  have htc' : tpGetMaxTargetVel env tp tc ≤ m := (tpGetMaxTargetVel_le tp tc).trans htc
  unfold estimateParabolicBlendPerformance
  dsimp only
  rw [sin_real]
  nlinarith [mul_le_mul_of_nonneg_left (hthis.trans hprev') hlow, mul_le_mul_of_nonneg_left (hnext.trans htc') hlow,
    mul_le_mul_of_nonneg_right hhigh hm]

theorem tpChooseBestBlend_arc {blendTc : BlendTc ℝ} (hexact : prevTc.termCond ≠ .exact)
    (hstop : prevTc.termCond ≠ .stop)
    (hparabolic : estimateParabolicBlendPerformance env tp prevTc tc / 2 < blendTc.maxvel)
    (htangent : prevTc.kinkVel < blendTc.maxvel) :
    (tpChooseBestBlend env tp prevTc tc (some blendTc)).2.2 = .arc := by
  have hcond : (prevTc.termCond == .exact || prevTc.termCond == .stop) = false := by
    simp [hexact, hstop]
  have hbest : findMaxElement (estimateParabolicBlendPerformance env tp prevTc tc / 2) prevTc.kinkVel blendTc.maxvel =
      .arc := by
    unfold findMaxElement
    dsimp only
    by_cases hlt : estimateParabolicBlendPerformance env tp prevTc tc / 2 < prevTc.kinkVel
    · rw [if_pos hlt]
      exact if_pos htangent
    · rw [if_neg hlt]
      exact if_pos hparabolic
  unfold tpChooseBestBlend
  rw [hcond, if_neg Bool.false_ne_true]
  dsimp only
  rw [hbest]

/-- A blend that is made without consuming the first line. -/
theorem tpCreateLineLineBlend_kept (hprev : prevTc.Blendable a b) (htc : tc.Blendable b c)
    {param₀ : BlendParameters ℝ} (hinit : BlendInit env cfg prevTc tc a b c param₀)
    (hparam : blendComputeParameters param₀ = (param, .ok))
    (hconsume : blendCheckConsume param (cornerPoints a b c param) prevTc cfg.arcBlendGapCycles = (false, 0))
    {arc : SphericalArc ℝ}
    (harc : arcFromBlendPoints3 (cornerPoints a b c param) (blendCalculateNormals3 (lineCorner a b c)) 0 = (arc, .ok))
    (hbest : ∀ abc uvw, (tpChooseBestBlend env tp prevTc tc (some
      (tpInitBlendArcFromPrev tp prevTc arc abc uvw param.vReq param.vPlan param.aMax))).2.2 = .arc) :
    ∃ tp' tc' abc uvw, tpCreateLineLineBlend env cfg tp prevTc tc = (tp', tc', .ok
      (tpInitBlendArcFromPrev tp prevTc arc abc uvw param.vReq param.vPlan param.aMax)) := by
  obtain ⟨abc, uvw, hcoords⟩ := hprev.coords
  obtain ⟨abc', uvw', hcoords'⟩ := htc.coords
  unfold cornerPoints at hconsume harc
  unfold tpCreateLineLineBlend
  rw [hcoords, hcoords', (blendInit3FromLineLine_iff hprev htc).2 ⟨rfl, hinit⟩]
  dsimp only
  rw [hparam]
  dsimp only
  rw [hconsume]
  dsimp only
  rw [harc]
  dsimp only
  have hchoice := hbest abc.end uvw.end
  generalize tpChooseBestBlend env tp prevTc tc _ = chosen at hchoice ⊢
  obtain ⟨prevTc₁, tc₁, best⟩ := chosen
  change best = .arc at hchoice
  subst hchoice
  exact ⟨_, _, _, _, rfl⟩

end Success

/-! ### A right angle -/

section RightAngle

local instance atLeastTwoTen : Nat.AtLeastTwo 10 := ⟨by decide⟩

local instance atLeastTwoHundred : Nat.AtLeastTwo 100 := ⟨by decide⟩

/-- A line along an axis, as far as it matters for a blend. -/
noncomputable def blendLine (p q : PmCartesian ℝ) : Tc ℝ :=
  { tcSetupMotion (tcInit (.line (pmLine9Init (pmCartesianToEmcPose p ⟨0, 0, 0⟩ ⟨0, 0, 0⟩)
      (pmCartesianToEmcPose q ⟨0, 0, 0⟩ ⟨0, 0, 0⟩))) 2 0.001 0 false) 10 10 10 with
    target := 100, nominalLength := 100, termCond := .parabolic }

/-- The corners of a right angle. -/
noncomputable def rightFrom : PmCartesian ℝ := ⟨0, 0, 0⟩

noncomputable def rightAt : PmCartesian ℝ := ⟨100, 0, 0⟩

noncomputable def rightTo : PmCartesian ℝ := ⟨100, 100, 0⟩

/-- A planner with the first line of the right angle. -/
noncomputable def squareTp : Tp ℝ :=
  { tpInit zeroTp with
    cycleTime := 0.001, vLimit := 100
    queue := { queue := fun _ => blendLine rightFrom rightAt, size := 2, len := 1, rlen := 0, start := 0, «end» := 1
               rend := 0, allFull := false } }

noncomputable def squareConfig : BlendConfig ℝ := ⟨⟨10, 10, 10⟩, 0, 0⟩

theorem squareConfig_pos (i : Fin 3) : 0 < squareConfig.accBound.get i := by
  fin_cases i <;> norm_num [squareConfig, PmCartesian.get]

theorem lineLength_square : lineLength rightFrom rightAt = 100 ∧ lineLength rightAt rightTo = 100 := by
  constructor <;>
  · unfold lineLength
    refine pmCartMag_eq_of_dot (by norm_num) ?_
    norm_num [pmCartCartSub, pmCartCartDot, rightFrom, rightAt, rightTo]

theorem blendLine_blendable {p q : PmCartesian ℝ} (h : lineLength p q = 100) : (blendLine p q).Blendable p q where
  coords := ⟨_, _, rfl⟩
  target := h.symm
  long := by
    rw [pmCartLineInit_long (by rw [h]; norm_num)]
  reqvel := by show (0 : ℝ) < 10; norm_num
  maxvel := by show (0 : ℝ) < 10; norm_num
  tolerance := le_rfl
  nominal := le_rfl

theorem square_directions : lineCorner rightFrom rightAt rightTo =
    { u1 := ⟨1, 0, 0⟩, u2 := ⟨0, 1, 0⟩, P := rightAt, normal := ⟨0, 0, 0⟩, binormal := ⟨0, 0, 0⟩
      uTan1 := ⟨1, 0, 0⟩, uTan2 := ⟨0, 1, 0⟩ } := by
  obtain ⟨h₁, h₂⟩ := lineLength_square
  unfold lineLength at h₁ h₂
  unfold lineCorner
  rw [pmCartUnit_eq (by rw [h₁]; norm_num), pmCartUnit_eq (by rw [h₂]; norm_num), h₁, h₂]
  norm_num [pmCartCartSub, rightFrom, rightAt, rightTo]

theorem square_theta : cornerTheta rightFrom rightAt rightTo = π / 4 := by
  have hdot : pmCartCartDot (⟨1, 0, 0⟩ : PmCartesian ℝ) ⟨0, 1, 0⟩ = 0 := by simp [pmCartCartDot]
  unfold cornerTheta
  rw [square_directions]
  dsimp only
  rw [findIntersectionAngle_of_dot (by rw [hdot]; norm_num) (by rw [hdot]; norm_num), hdot, neg_zero, arccos_zero]
  ring

theorem cornerNormal_square : cornerNormal rightFrom rightAt rightTo = ⟨0, 0, 1⟩ := by
  have hcross : pmCartCartCross (⟨1, 0, 0⟩ : PmCartesian ℝ) ⟨0, 1, 0⟩ = ⟨0, 0, 1⟩ := by simp [pmCartCartCross]
  have hmag : pmCartMag (⟨0, 0, 1⟩ : PmCartesian ℝ) = 1 :=
    pmCartMag_eq_of_dot zero_le_one (by simp [pmCartCartDot])
  unfold cornerNormal blendCalculateNormals3
  rw [square_directions]
  dsimp only
  rw [hcross, pmCartUnit_of_mag hmag one_ne_zero]
  simp [pmCartScalMult]

theorem square_plane : calculateInscribedDiameter (cornerNormal rightFrom rightAt rightTo)
    squareConfig.accBound = some 10 := by
  have hunit : pmCartMagSq (⟨0, 0, 1⟩ : PmCartesian ℝ) = 1 := by simp [pmCartMagSq, pmSq]
  have hten : ∀ i, squareConfig.accBound.get i = 10 := by
    intro i
    fin_cases i <;> rfl
  have hpos : ∀ i, 0 < squareConfig.accBound.get i := by
    intro i
    rw [hten]
    norm_num
  obtain ⟨d, hd, hleast⟩ := calculateInscribedDiameter_eq hunit hpos
  have hvalue : d = 10 := by
    obtain ⟨i, hi⟩ := hleast.1
    have hone : guardedScale ((⟨0, 0, 1⟩ : PmCartesian ℝ).get i) = 1 := by
      unfold guardedScale
      fin_cases i <;> simp [PmCartesian.get]
    rw [← hi]
    simp only [hten, hone, div_one]
  rw [cornerNormal_square, hd, hvalue]

/-- The limits of the blend between the two lines. -/
noncomputable def squareLimits : BlendParameters ℝ where
  tolerance := tcFindBlendTolerance (blendLine rightFrom rightAt) (blendLine rightAt rightTo)
  L1 := fmin 100 (100 * blendDistFraction)
  L2 := 100 * blendDistFraction
  vReq := fmax (tcGetMaxTargetVel (blendLine rightFrom rightAt) 1)
    (tcGetMaxTargetVel (blendLine rightAt rightTo) 1)
  aMax := 10
  theta := π / 4
  phi := π - π / 4 * 2
  aNMax := 10 * blendAccRatioNormal
  RPlan := 0
  dPlan := 0
  vGoal := fmin (fmax (tcGetMaxTargetVel (blendLine rightFrom rightAt) 1)
      (tcGetMaxTargetVel (blendLine rightAt rightTo) 1))
    (fmax (blendAltitudeVel (blendCalculateNormals3 (lineCorner rightFrom rightAt rightTo)) (π - π / 4 * 2)
      (blendLine rightFrom rightAt) (blendLine rightAt rightTo)) 0)
  vPlan := 0
  vActual := 0
  sArc := 0

theorem square_init : BlendInit plainEnv squareConfig (blendLine rightFrom rightAt)
    (blendLine rightAt rightTo) rightFrom rightAt rightTo squareLimits := by
  have hpi := two_le_pi
  refine ⟨?_, ?_, ?_⟩
  · rw [square_theta]
    norm_num [tpAngleEpsilon]
    linarith
  · rw [square_theta]
    norm_num [tpAngleEpsilon]
    linarith
  · unfold blendParamKinematics
    dsimp only
    have hplane := square_plane
    unfold cornerNormal at hplane
    rw [square_theta, hplane]
    rfl

/-- The altitude of the triangle of two equal velocities. -/
theorem square_altitude : 7 ≤ blendAltitudeVel (blendCalculateNormals3 (lineCorner rightFrom rightAt rightTo))
    (π - π / 4 * 2) (blendLine rightFrom rightAt) (blendLine rightAt rightTo) := by
  have hphi : π - π / 4 * 2 = π / 2 := by ring
  have hcos : 0 < cos (min (π / 2) (π * 0.49)) := by
    rw [min_eq_right (by linarith [pi_pos])]
    exact cos_pos_of_mem_Ioo ⟨by linarith [pi_pos], by linarith [pi_pos]⟩
  have hmin : min 10 (10 / cos (min (π / 2) (π * 0.49))) = 10 :=
    min_eq_left ((le_div_iff₀ hcos).2 (by linarith [cos_le_one (min (π / 2) (π * 0.49))]))
  have hbase : pmCartMag (pmCartCartSub (pmCartScalMult (⟨0, 1, 0⟩ : PmCartesian ℝ) 10)
      (pmCartScalMult ⟨1, 0, 0⟩ 10)) = √200 := by
    rw [pmCartMag_eq_dot]
    norm_num [pmCartCartSub, pmCartScalMult, pmCartCartDot]
  have hroot : √200 ≤ 100 / 7 := (sqrt_le_left (by norm_num)).2 (by norm_num)
  have hpos : 0 < √200 := sqrt_pos.2 (by norm_num)
  unfold blendAltitudeVel
  rw [hphi, square_directions]
  show 7 ≤ 2 * (fmin 10 (10 / Arith.cos (fmin (π / 2) (Arith.pi * 0.49))) *
    fmin 10 (10 / Arith.cos (fmin (π / 2) (Arith.pi * 0.49))) / 2 * Arith.sin (π / 2)) /
      pmCartMag (pmCartCartSub (pmCartScalMult ⟨0, 1, 0⟩ (fmin 10 (10 / Arith.cos (fmin (π / 2) (Arith.pi * 0.49)))))
        (pmCartScalMult ⟨1, 0, 0⟩ (fmin 10 (10 / Arith.cos (fmin (π / 2) (Arith.pi * 0.49))))))
  simp only [fmin_real, cos_real, sin_real, pi_real, hmin, hbase, sin_pi_div_two]
  rw [le_div_iff₀ hpos]
  linarith


theorem square_tolerance : squareLimits.tolerance = 25 := by
  show tcFindBlendTolerance (blendLine rightFrom rightAt) (blendLine rightAt rightTo) = 25
  unfold tcFindBlendTolerance blendLine tcSetupMotion tcInit
  norm_num [fmin_real, beq_real]

theorem square_room : 25 ≤ blendRoom squareLimits := by
  have hs : sin (π / 4) = √2 / 2 := sin_pi_div_four
  have hc : cos (π / 4) = √2 / 2 := cos_pi_div_four
  have hlow : 1.4 ≤ √2 := (le_sqrt' (by norm_num)).2 (by norm_num)
  have hhigh : √2 ≤ 1.5 := (sqrt_le_left (by norm_num)).2 (by norm_num)
  have htol : squareLimits.tolerance = 25 := square_tolerance
  unfold blendRoom
  rw [htol]
  refine le_min (le_min ?_ ?_) ?_
  · show (25 : ℝ) ≤ fmin 100 (100 * blendDistFraction)
    norm_num [fmin_real, blendDistFraction]
  · show (25 : ℝ) ≤ 100 * blendDistFraction
    norm_num [blendDistFraction]
  · show 25 ≤ cos (π / 4) * (25 / (1 - sin (π / 4)))
    rw [hs, hc, mul_div_assoc', le_div_iff₀ (by linarith)]
    linarith

theorem square_vPlan : 7 ≤ (blendComputeParameters squareLimits).1.vPlan := by
  have hratio : (0.8 : ℝ) ≤ blendAccRatioNormal :=
    (pow_le_pow_iff_left₀ (by norm_num) blendAccRatioNormal_pos.le two_ne_zero).1 (by
      rw [blendAccRatioNormal_sq, blendAccRatioTangential]
      norm_num)
  have hroom := square_room
  have hvel : tcGetMaxTargetVel (blendLine rightFrom rightAt) 1 = 10 := by
    norm_num [tcGetMaxTargetVel, blendLine, tcSetupMotion, tcInit, fmin_real]
  rw [blendComputeParameters_vPlan]
  refine le_min ?_ ?_
  · refine (le_sqrt' (by norm_num)).2 ?_
    show 7 ^ 2 ≤ 10 * blendAccRatioNormal * (tan (π / 4) * blendRoom squareLimits)
    rw [tan_pi_div_four, one_mul]
    nlinarith
  · show 7 ≤ fmin (fmax (tcGetMaxTargetVel (blendLine rightFrom rightAt) 1) _) (fmax _ 0)
    rw [fmin_real, fmax_real, fmax_real, hvel]
    exact le_min (le_max_of_le_left (by norm_num)) (le_max_of_le_left square_altitude)

theorem square_RPlan : 4 ≤ (blendComputeParameters squareLimits).1.RPlan := by
  obtain ⟨R, -, hR⟩ := blendComputeParameters_RPlan squareLimits
  have hratio : (blendAccRatioNormal : ℝ) ≤ 1 :=
    (pow_le_pow_iff_left₀ blendAccRatioNormal_pos.le zero_le_one two_ne_zero).1 (by
      rw [blendAccRatioNormal_sq, blendAccRatioTangential]
      norm_num)
  rw [hR]
  refine le_max_of_le_left ?_
  show 4 ≤ (blendComputeParameters squareLimits).1.vPlan ^ 2 / (10 * blendAccRatioNormal)
  rw [le_div_iff₀ (mul_pos (by norm_num) blendAccRatioNormal_pos)]
  nlinarith [square_vPlan]

theorem square_made : ∃ param, blendComputeParameters squareLimits = (param, .ok) ∧ 7 ≤ param.vPlan ∧
    4 ≤ param.RPlan ∧ param.aMax = 10 := by
  have hR := square_RPlan
  have hok : (blendComputeParameters squareLimits).2 = .ok := by
    refine blendComputeParameters_ok ?_ ?_
    · show (1 : ℝ) ≤ _
      linarith
    · have hphi : squareLimits.phi = π / 2 := by
        show π - π / 4 * 2 = π / 2
        ring
      have hmin : (tpMinArcLength : ℝ) ≤ 1 := by norm_num [tpMinArcLength]
      rw [hphi]
      nlinarith [two_le_pi]
  refine ⟨(blendComputeParameters squareLimits).1, Prod.ext rfl hok, square_vPlan, hR, ?_⟩
  unfold blendComputeParameters
  simp only [apply_ite Prod.fst, ite_self]
  rfl

/-- The arc between the lines is made, and it is the best way around their corner. -/
theorem square_blend : ∃ tp' tc' blendTc, tpCreateLineLineBlend plainEnv squareConfig squareTp
    (blendLine rightFrom rightAt) (blendLine rightAt rightTo) = (tp', tc', .ok blendTc) ∧ 7 ≤ blendTc.maxvel ∧
      blendTc.tangentialMaxAccel = 5 ∧ blendTc.arc.lineLength = 0 := by
  have hprev := blendLine_blendable lineLength_square.1
  have htc := blendLine_blendable lineLength_square.2
  obtain ⟨param, hparam, hv, hR, ha⟩ := square_made
  have htheta : param.theta = π / 4 := by
    have hkept := blendComputeParameters_theta squareLimits
    rw [hparam] at hkept
    exact hkept
  have hcorner := square_init.corner hprev htc
  rw [square_theta, ← htheta] at hcorner
  have hd : param.dPlan = param.RPlan / tan param.theta := by
    have hplan := blendComputeParameters_dPlan squareLimits
    rw [hparam] at hplan
    rw [htheta]
    exact hplan
  -- the first line is long enough to stay
  have hroom : param.RPlan ≤ 50 := by
    have hle := RPlan_le (square_init.limits.corner (square_init.corner hprev htc) hprev htc squareConfig_pos one_pos)
    rw [hparam] at hle
    refine hle.trans ?_
    show tan (π / 4) * blendRoom squareLimits ≤ 50
    rw [tan_pi_div_four, one_mul]
    refine (min_le_left _ _).trans ((min_le_right _ _).trans ?_)
    show (100 : ℝ) * blendDistFraction ≤ 50
    norm_num [blendDistFraction]
  have hconsume : blendCheckConsume param (cornerPoints rightFrom rightAt rightTo param)
      (blendLine rightFrom rightAt) squareConfig.arcBlendGapCycles = (false, 0) := by
    have htime : ¬ (100 - param.dPlan) / param.vPlan < ((0 : Int) : ℝ) * 0.001 := by
      rw [hd, htheta, tan_pi_div_four, div_one, Int.cast_zero, zero_mul]
      exact not_lt.2 (div_nonneg (by linarith) (by linarith))
    unfold blendCheckConsume
    show (decide ((100 - param.dPlan) / param.vPlan < ((0 : Int) : ℝ) * 0.001) && _,
      if (decide ((100 - param.dPlan) / param.vPlan < ((0 : Int) : ℝ) * 0.001) && _) = true then _ else _) = _
    rw [decide_eq_false htime]
    rfl
  have hradii := blendFindPoints3_radii hcorner rfl rfl (by linarith) hd
  have hdot : pmCartCartDot (lineCorner rightFrom rightAt rightTo).u1
      (lineCorner rightFrom rightAt rightTo).u2 = 0 := by
    rw [square_directions]
    simp [pmCartCartDot]
  rw [hdot] at hradii
  have hminR : (arcMinRadius : ℝ) ≤ 4 := by norm_num [arcMinRadius]
  have hminA : (arcMinAngle : ℝ) ≤ 1 := by norm_num [arcMinAngle]
  have hangle : 1 ≤ arccos 0 := by
    rw [arccos_zero]
    linarith [two_le_pi]
  have harc := arcInitFromPoints_ok
    { start := ⟨0, 0, 0⟩, «end» := ⟨0, 0, 0⟩, center := ⟨0, 0, 0⟩, rStart := ⟨0, 0, 0⟩, rEnd := ⟨0, 0, 0⟩
      uTan := (lineCorner rightFrom rightAt rightTo).uTan1, radius := 0, spiral := 0, angle := 0, sangle := 0
      lineLength := 0 } hradii (hminR.trans hR) (hminA.trans hangle)
  -- the arc is as fast as planned
  have hlength : arcLength (arcFromBlendPoints3 (cornerPoints rightFrom rightAt rightTo param)
      (blendCalculateNormals3 (lineCorner rightFrom rightAt rightTo)) 0).1 = param.RPlan * arccos 0 := by
    have hlen := congrArg arcLength (arcInitFromPoints_eq hradii harc)
    exact hlen.trans (add_zero _)
  have hmaxvel : 7 ≤ fmin param.vPlan (param.RPlan * arccos 0 / 0.001) := by
    rw [fmin_real]
    refine le_min hv ?_
    rw [le_div_iff₀ (by norm_num)]
    nlinarith
  have hline : (arcFromBlendPoints3 (cornerPoints rightFrom rightAt rightTo param)
      (blendCalculateNormals3 (lineCorner rightFrom rightAt rightTo)) 0).1.lineLength = 0 :=
    congrArg SphericalArc.lineLength (arcInitFromPoints_eq hradii harc)
  have hperf : estimateParabolicBlendPerformance plainEnv squareTp (blendLine rightFrom rightAt)
      (blendLine rightAt rightTo) ≤ 10 :=
    estimateParabolicBlendPerformance_le (by norm_num) le_rfl le_rfl
  rw [← hlength] at hmaxvel
  have hbest : ∀ abc uvw, (tpChooseBestBlend plainEnv squareTp (blendLine rightFrom rightAt) (blendLine rightAt rightTo)
      (some (tpInitBlendArcFromPrev squareTp (blendLine rightFrom rightAt)
        (arcFromBlendPoints3 (cornerPoints rightFrom rightAt rightTo param)
          (blendCalculateNormals3 (lineCorner rightFrom rightAt rightTo)) 0).1
        abc uvw param.vReq param.vPlan param.aMax))).2.2 = .arc := by
    intro abc uvw
    have hparabolic : TermCond.parabolic ≠ .exact ∧ TermCond.parabolic ≠ .stop := by decide
    refine tpChooseBestBlend_arc hparabolic.1 hparabolic.2 (lt_of_lt_of_le (?_ : _ < (7 : ℝ)) hmaxvel)
      (lt_of_lt_of_le (?_ : _ < (7 : ℝ)) hmaxvel)
    · linarith
    · show (-1 : ℝ) < 7
      norm_num
  obtain ⟨tp', tc', abc, uvw, hmade⟩ := tpCreateLineLineBlend_kept hprev htc square_init hparam hconsume
    (Prod.ext rfl harc) hbest
  refine ⟨tp', tc', _, hmade, hmaxvel, ?_, hline⟩
  show param.aMax * (1 - fmax 0 0) * blendAccRatioTangential = 5
  rw [ha, fmax_real, max_self, blendAccRatioTangential]
  norm_num

theorem squareTp_queue : squareTp.queue.WF ∧ squareTp.queue.items = [] ++ [blendLine rightFrom rightAt] := by
  refine ⟨⟨?_, ?_, ?_, rfl, ?_⟩, rfl⟩
  · show 0 < 2
    decide
  · show (0 : Int) ≤ 1
    decide
  · show (1 : Int) ≤ 2
    decide
  · show false = true ↔ (1 : Int) = 2
    decide

end RightAngle

end SoemMotion
