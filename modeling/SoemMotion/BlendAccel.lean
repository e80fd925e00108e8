import SoemMotion.BlendSuccess

/-!
# Accelerations on a blend arc

A motion along a blend arc that keeps the velocity and the acceleration of its segment needs, in the plane of the
corner, an acceleration of at most `a_max`: half of it at most is along the arc, and the planned radius leaves the rest
for what points to the centre.  The circle of that radius fits the limits of the axes, so none of them is exceeded.
-/

namespace SoemMotion

open Real Lib

/-! ### Vectors of the plane -/

theorem withinBounds_le {normal bounds v : PmCartesian ℝ} {d : ℝ} (h : WithinBounds normal bounds d)
    (hbounds : ∀ i, 0 < bounds.get i) (hperp : pmCartCartDot v normal = 0) (hle : pmCartMag v ≤ d) (i : Fin 3) :
    |v.get i| ≤ bounds.get i := by
  have hnonneg : 0 ≤ pmCartMag v := by
    rw [← norm_toPoint]
    exact norm_nonneg _
  rcases hnonneg.eq_or_lt with hzero | hpos
  · have hv : v.toPoint = 0 := norm_eq_zero.1 ((norm_toPoint v).trans hzero.symm)
    have hi : v.get i = 0 := congrFun (congrArg WithLp.ofLp hv) i
    rw [hi, abs_zero]
    exact (hbounds i).le
  · -- a shorter vector is a part of one of the full length
    have hscale : 1 ≤ d / pmCartMag v := (one_le_div hpos).2 hle
    have hfull : pmCartMag (pmCartScalMult v (d / pmCartMag v)) = d := by
      rw [← norm_toPoint, toPoint_scal, norm_smul, norm_toPoint, Real.norm_of_nonneg (zero_le_one.trans hscale),
        div_mul_cancel₀ _ hpos.ne']
    have hperp' : pmCartCartDot (pmCartScalMult v (d / pmCartMag v)) normal = 0 := by
      rw [pmCartCartDot_scal_left, hperp, mul_zero]
    have hget : (pmCartScalMult v (d / pmCartMag v)).get i = d / pmCartMag v * v.get i := by
      rw [← toPoint_apply, toPoint_scal]
      rfl
    have hbound := h.2 _ hperp' hfull i
    rw [hget, abs_mul, abs_of_nonneg (zero_le_one.trans hscale)] at hbound
    exact (le_mul_of_one_le_left (abs_nonneg _) hscale).trans hbound

theorem exists_toPoint (w : EuclideanSpace ℝ (Fin 3)) : ∃ v : PmCartesian ℝ, v.toPoint = w := by
  obtain ⟨v, hv⟩ := exists_get w.ofLp
  exact ⟨v, congrArg (WithLp.toLp 2) hv⟩

/-! ### The motion -/

section Motion

variable {env : TpEnv ℝ} {cfg : BlendConfig ℝ} {tp tp' : Tp ℝ} {prevTc tc tc' : Tc ℝ} {blendTc : BlendTc ℝ}
  {a b c : PmCartesian ℝ} {rest : List (Tc ℝ)} {param₀ param : BlendParameters ℝ} {L : ℝ}

namespace BlendMade

variable (h : BlendMade env cfg prevTc tc a b c rest tp' tc' blendTc param₀ param L)

include h

theorem aMax_eq : param.aMax = param₀.aMax ∧ param.aNMax = param₀.aNMax := by
  have hsame : (blendComputeParameters param₀).1.aMax = param₀.aMax ∧
      (blendComputeParameters param₀).1.aNMax = param₀.aNMax := by
    unfold blendComputeParameters
    simp only [apply_ite Prod.fst, ite_self, and_self]
  rwa [h.param_eq] at hsame

theorem lineLength_eq : blendTc.arc.lineLength = L := by
  have hkept (arc : SphericalArc ℝ) (p q r : PmCartesian ℝ) :
      (arcInitFromPoints arc p q r).1.lineLength = arc.lineLength := by
    unfold arcInitFromPoints
    dsimp only
    split
    · rfl
    · split <;> rfl
  have harc : (arcFromBlendPoints3 (cornerPoints a b c param) (blendCalculateNormals3 (lineCorner a b c)) L).1 =
      blendTc.arc := congrArg Prod.fst h.arc
  rw [← harc]
  exact hkept _ _ _ _

theorem tangentialMaxAccel_eq : blendTc.tangentialMaxAccel = param.aMax / 2 := by
  unfold BlendTc.tangentialMaxAccel
  rw [h.maxaccel, h.accRatio, fmax_real, max_self, blendAccRatioTangential]
  ring

variable (hprev : prevTc.Blendable a b) (htc : tc.Blendable b c) (hbound : ∀ i, 0 < cfg.accBound.get i)
  (hscale : 0 < env.maxAxisScale)

include hprev htc hbound

theorem withinBounds : 0 < param.aMax ∧ WithinBounds (cornerNormal a b c) cfg.accBound param.aMax := by
  have hunit := (cornerNormal_unit (h.init.corner hprev htc)).1
  obtain ⟨d, hd, hleast⟩ := calculateInscribedDiameter_eq hunit hbound
  have heq : param.aMax = d := h.aMax_eq.1.trans (Option.some.inj (h.init.limits.plane.symm.trans hd))
  rw [heq]
  exact ⟨(sq_mul_le_of_least hunit hbound hleast 0).1, withinBounds_of_least hunit hbound hleast⟩

/-- The planned radius is large enough for the planned velocity. -/
theorem vPlan_sq_le : param.vPlan ^ 2 ≤ param.aMax * blendAccRatioNormal * param.RPlan := by
  obtain ⟨R, -, hR⟩ := blendComputeParameters_RPlan param₀
  have hpos := mul_pos (h.withinBounds hprev htc hbound).1 blendAccRatioNormal_pos
  rw [h.param_eq] at hR
  have hN : param₀.aNMax = param.aMax * blendAccRatioNormal := by
    rw [h.init.limits.aNMax, h.aMax_eq.1]
  rw [hN] at hR
  have hle : param.vPlan ^ 2 / (param.aMax * blendAccRatioNormal) ≤ param.RPlan := by
    rw [hR]
    exact le_max_left _ _
  exact (div_le_iff₀' hpos).1 hle

theorem accel_sq_le {s v : ℝ} (hspeed : |v| ≤ blendTc.maxvel) (haccel : |s| ≤ blendTc.tangentialMaxAccel) :
    s ^ 2 + (v ^ 2 * param.RPlan⁻¹) ^ 2 ≤ param.aMax ^ 2 := by
  have hR := RPlan_pos_of_ok h.param_eq
  have hv : v ^ 2 ≤ param.aMax * blendAccRatioNormal * param.RPlan := by
    rw [← sq_abs]
    exact (pow_le_pow_left₀ (abs_nonneg v) (hspeed.trans h.maxvel) 2).trans (h.vPlan_sq_le hprev htc hbound)
  have hnormal : (v ^ 2 * param.RPlan⁻¹) ^ 2 ≤ (param.aMax * blendAccRatioNormal) ^ 2 :=
    pow_le_pow_left₀ (mul_nonneg (sq_nonneg v) (inv_nonneg.2 hR.le)) ((mul_inv_le_iff₀ hR).2 hv) 2
  have htangential : s ^ 2 ≤ (param.aMax / 2) ^ 2 := by
    rw [← sq_abs, ← h.tangentialMaxAccel_eq]
    exact pow_le_pow_left₀ (abs_nonneg s) haccel 2
  rw [mul_pow param.aMax, blendAccRatioNormal_sq, blendAccRatioTangential] at hnormal
  linarith

omit hbound in
/-- The circle of the arc is in the plane of the corner. -/
theorem perp (x : ℝ) : inner ℝ (turn (cornerRadius a b c param) (param.RPlan • (lineCorner a b c).u1.toPoint) x)
      (cornerNormal a b c).toPoint = 0 ∧
    inner ℝ (turn (param.RPlan • (lineCorner a b c).u1.toPoint) (-cornerRadius a b c param) x)
      (cornerNormal a b c).toPoint = 0 := by
  obtain ⟨-, hu₁, hu₂⟩ := cornerNormal_unit (h.init.corner hprev htc)
  have hr : inner ℝ (cornerRadius a b c param) (cornerNormal a b c).toPoint = 0 := by
    have hstart := blendFindPoints3_rStart (h.corner hprev htc) rfl rfl h.dPlan_eq
    rw [cornerRadius, cornerPoints, hstart, inner_toPoint]
    simp only [pmCartCartDot_scal_left, pmCartCartDot_sub_left, hu₁, hu₂, mul_zero, sub_zero]
  have ht : inner ℝ (lineCorner a b c).u1.toPoint (cornerNormal a b c).toPoint = 0 := by
    rw [inner_toPoint, hu₁]
  constructor
  · simp only [turn, inner_add_left, real_inner_smul_left, hr, ht, mul_zero, add_zero]
  · simp only [turn, inner_add_left, inner_neg_left, real_inner_smul_left, hr, ht, mul_zero, add_zero, neg_zero]

/-- The component of an acceleration in the plane, of at most the length that the plane allows. -/
theorem component_le {w : EuclideanSpace ℝ (Fin 3)} (hperp : inner ℝ w (cornerNormal a b c).toPoint = 0)
    (hlen : ‖w‖ ^ 2 ≤ param.aMax ^ 2) (i : Fin 3) : |w i| ≤ cfg.accBound.get i := by
  obtain ⟨hpos, hwithin⟩ := h.withinBounds hprev htc hbound
  obtain ⟨v, rfl⟩ := exists_toPoint w
  rw [inner_toPoint] at hperp
  have hle := abs_le_of_sq_le_sq hlen hpos.le
  rw [abs_of_nonneg (norm_nonneg _), norm_toPoint] at hle
  exact withinBounds_le hwithin hbound hperp hle i

include hscale

/-- The velocity of a motion along the arc. -/
theorem hasDerivAt_place {x : ℝ → ℝ} {v t : ℝ} (hx : HasDerivAt x v t) (hon : x t ∈ Set.Ioo 0 blendTc.target) :
    HasDerivAt (fun τ => blendTc.place (x τ))
      (v • enterTurnDir (cornerRadius a b c param) (lineCorner a b c).u1.toPoint param.RPlan L (x t)) t := by
  have hjoins := h.joins hprev htc hbound hscale
  have hnear : blendTc.place =ᶠ[nhds (x t)]
      enterTurn (cornerPoints a b c param).arcCenter.toPoint (cornerRadius a b c param)
        (lineCorner a b c).u1.toPoint param.RPlan L := by
    filter_upwards [lt_mem_nhds hon.1] with p hp
    exact hjoins.place p hp.le
  exact ((hasDerivAt_enterTurn hjoins.pos.ne' (x t)).congr_of_eventuallyEq hnear).scomp t hx

/-- Its acceleration. -/
theorem hasDerivAt_deriv {x v : ℝ → ℝ} {s t : ℝ} (hx : ∀ t, HasDerivAt x (v t) t) (hv : HasDerivAt v s t)
    (hon : x t ∈ Set.Ioo 0 blendTc.target) (hturn : x t ≠ L) :
    HasDerivAt (deriv fun τ => blendTc.place (x τ))
      (s • enterTurnDir (cornerRadius a b c param) (lineCorner a b c).u1.toPoint param.RPlan L (x t) +
        v t ^ 2 • (if x t ≤ L then (0 : EuclideanSpace ℝ (Fin 3)) else
          -(param.RPlan⁻¹ ^ 2 • turn (cornerRadius a b c param) (param.RPlan • (lineCorner a b c).u1.toPoint)
            (param.RPlan⁻¹ * (x t - L))))) t := by
  have hnear : (deriv fun τ => blendTc.place (x τ)) =ᶠ[nhds t] fun τ =>
      v τ • enterTurnDir (cornerRadius a b c param) (lineCorner a b c).u1.toPoint param.RPlan L (x τ) := by
    filter_upwards [(hx t).continuousAt.preimage_mem_nhds (isOpen_Ioo.mem_nhds hon)] with τ hτ
    exact (h.hasDerivAt_place hprev htc hbound hscale (hx τ) hτ).deriv
  have hdir := (hasDerivAt_enterTurnDir (r := cornerRadius a b c param) (w := (lineCorner a b c).u1.toPoint)
    (R := param.RPlan) hturn).scomp t (hx t)
  refine ((hv.smul hdir).congr_deriv ?_).congr_of_eventuallyEq hnear
  rw [smul_smul, ← sq, add_comm]
  rfl

end BlendMade

/-! ### The results -/

/-- Where an arc is made between two lines, the path is the old one rounded within the tolerance. -/
theorem line_line_blend (hprev : prevTc.Blendable a b) (htc : tc.Blendable b c)
    (hbound : ∀ i, 0 < cfg.accBound.get i) (hscale : 0 < env.maxAxisScale) (hw : tp.queue.WF)
    (hitems : tp.queue.items = rest ++ [prevTc])
    (h : tpCreateLineLineBlend env cfg tp prevTc tc = (tp', tc', .ok blendTc)) :
    CornerRounded prevTc tc a b c rest tp' tc' blendTc := by
  obtain ⟨param₀, param, L, hmade⟩ := tpCreateLineLineBlend_ok hprev htc hw hitems h
  exact hmade.rounded hprev htc hbound hscale

/-- At a right angle. -/
theorem line_line_blend_square : ∃ tp' tc' blendTc, CornerRounded (blendLine rightFrom rightAt)
    (blendLine rightAt rightTo) rightFrom rightAt rightTo [] tp' tc' blendTc := by
  obtain ⟨tp', tc', blendTc, hblend, -⟩ := square_blend
  exact ⟨tp', tc', blendTc, line_line_blend (blendLine_blendable lineLength_square.1)
    (blendLine_blendable lineLength_square.2) squareConfig_pos one_pos squareTp_queue.1 squareTp_queue.2 hblend⟩

/-- No motion along a blend arc that keeps the limits of its segment takes an axis beyond its acceleration. -/
theorem line_line_blend_accel (hprev : prevTc.Blendable a b) (htc : tc.Blendable b c)
    (hbound : ∀ i, 0 < cfg.accBound.get i) (hscale : 0 < env.maxAxisScale) (hw : tp.queue.WF)
    (hitems : tp.queue.items = rest ++ [prevTc])
    (hblend : tpCreateLineLineBlend env cfg tp prevTc tc = (tp', tc', .ok blendTc)) {x v : ℝ → ℝ} {s t : ℝ}
    (hx : ∀ t, HasDerivAt x (v t) t) (hv : HasDerivAt v s t) (hon : x t ∈ Set.Ioo 0 blendTc.target)
    (hturn : x t ≠ blendTc.arc.lineLength) (hspeed : |v t| ≤ blendTc.maxvel)
    (haccel : |s| ≤ blendTc.tangentialMaxAccel) :
    DifferentiableAt ℝ (deriv fun τ => blendTc.place (x τ)) t ∧
      ∀ i, |deriv (deriv fun τ => blendTc.place (x τ)) t i| ≤ cfg.accBound.get i := by
  obtain ⟨param₀, param, L, h⟩ := tpCreateLineLineBlend_ok hprev htc hw hitems hblend
  rw [h.lineLength_eq] at hturn
  have hjoins := h.joins hprev htc hbound hscale
  have hderiv := h.hasDerivAt_deriv hprev htc hbound hscale hx hv hon hturn
  refine ⟨hderiv.differentiableAt, ?_⟩
  rw [hderiv.deriv]
  refine h.component_le hprev htc hbound ?_ ((hjoins.quarter.norm_accel hjoins.pos s (v t)).trans
    (h.accel_sq_le hprev htc hbound hspeed haccel))
  obtain ⟨hplace, hdir⟩ := h.perp hprev htc (param.RPlan⁻¹ * (x t - L))
  have hu : inner ℝ (lineCorner a b c).u1.toPoint (cornerNormal a b c).toPoint = 0 := by
    rw [inner_toPoint, (cornerNormal_unit (h.init.corner hprev htc)).2.1]
  rw [inner_add_left, real_inner_smul_left, real_inner_smul_left, enterTurnDir]
  by_cases hp : x t ≤ L
  · rw [if_pos hp, if_pos hp, hu, inner_zero_left, mul_zero, mul_zero, add_zero]
  · rw [if_neg hp, if_neg hp, real_inner_smul_left, hdir, inner_neg_left, real_inner_smul_left, hplace]
    ring

end Motion

/-- A motion that speeds up past the middle of the arc. -/
theorem line_line_blend_accel_square : ∃ blendTc : BlendTc ℝ, 7 ≤ blendTc.maxvel ∧ ∀ i,
    |deriv (deriv fun τ => blendTc.place (blendTc.target / 2 + 2 * τ + 5 / 2 * τ ^ 2)) 0 i| ≤ 10 := by
  obtain ⟨tp', tc', blendTc, hblend, hmaxvel, haccel, hline⟩ := square_blend
  have hprev := blendLine_blendable lineLength_square.1
  have htc := blendLine_blendable lineLength_square.2
  have hten : ∀ i, squareConfig.accBound.get i = 10 := by
    intro i
    fin_cases i <;> rfl
  have hlength : 0 < blendTc.target := by
    obtain ⟨param₀, param, L, h⟩ := tpCreateLineLineBlend_ok hprev htc squareTp_queue.1 squareTp_queue.2 hblend
    exact (h.rounded hprev htc squareConfig_pos one_pos).length
  have hx (t : ℝ) : HasDerivAt (fun τ : ℝ => blendTc.target / 2 + 2 * τ + 5 / 2 * τ ^ 2) (2 + 5 * t) t := by
    have hlin := ((hasDerivAt_id t).const_mul 2).const_add (blendTc.target / 2)
    have hsq := (hasDerivAt_pow 2 t).const_mul (5 / 2)
    refine (hlin.add hsq).congr_deriv ?_
    simp only [Nat.cast_ofNat]
    ring
  have hv : HasDerivAt (fun t : ℝ => 2 + 5 * t) 5 0 := by
    simpa using ((hasDerivAt_id (0 : ℝ)).const_mul 5).const_add 2
  have hmid : blendTc.target / 2 + 2 * 0 + 5 / 2 * 0 ^ 2 = blendTc.target / 2 := by ring
  obtain ⟨-, hbound⟩ := line_line_blend_accel hprev htc squareConfig_pos one_pos squareTp_queue.1 squareTp_queue.2
    hblend hx hv (by rw [hmid]; exact ⟨by linarith, by linarith⟩) (by rw [hmid, hline]; linarith)
    (by norm_num; linarith) (by rw [haccel]; norm_num)
  refine ⟨blendTc, hmaxvel, fun i => ?_⟩
  rw [← hten i]
  exact hbound i

end SoemMotion
