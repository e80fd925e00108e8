import Mathlib.Analysis.InnerProductSpace.Basic
import Mathlib.Analysis.SpecialFunctions.Trigonometric.Deriv

/-!
# Turning a vector

In a real inner product space two perpendicular vectors `u` and `v` of one length span a circle, `turn u v x` is its
point at the angle `x` from `u`.  The derivative of a turn is a turn, by a quarter further, and the spherical
interpolation between two points of the circle is the turn from the one to the other.  A path that follows a tangent up
to the circle and then the circle has a continuous direction of length one.
-/

namespace SoemMotion.Lib

open Real

variable {E : Type*} [NormedAddCommGroup E] [InnerProductSpace ℝ E] {u v : E} {R x phi : ℝ}

/-- The vector `u` turned by the angle `x` towards `v`. -/
noncomputable def turn (u v : E) (x : ℝ) : E := cos x • u + sin x • v

@[simp] theorem turn_zero (u v : E) : turn u v 0 = u := by simp [turn]

theorem hasDerivAt_turn (u v : E) (x : ℝ) : HasDerivAt (turn u v) (turn v (-u) x) x := by
  have hcos : HasDerivAt (fun y : ℝ => cos y • u) (-sin x • u) x := (hasDerivAt_cos x).smul_const u
  have hsin : HasDerivAt (fun y : ℝ => sin y • v) (cos x • v) x := (hasDerivAt_sin x).smul_const v
  have heq : turn v (-u) x = -sin x • u + cos x • v := by
    rw [turn, smul_neg, neg_smul, add_comm]
  rw [heq]
  exact hcos.add hsin

/-- A turn that follows a turn. -/
theorem turn_turn (u v : E) (x y : ℝ) : turn (turn u v x) (turn v (-u) x) y = turn u v (x + y) := by
  simp only [turn, cos_add, sin_add, smul_add, smul_smul, smul_neg]
  module

/-- Spherical interpolation between `u` and `u` turned by `phi`. -/
theorem interpolation_eq_turn (hphi : sin phi ≠ 0) (u v : E) (x : ℝ) :
    ((sin phi)⁻¹ * sin (phi - x)) • u + ((sin phi)⁻¹ * sin x) • turn u v phi = turn u v x := by
  have hu : (sin phi)⁻¹ * sin (phi - x) + (sin phi)⁻¹ * sin x * cos phi = cos x := by
    rw [sin_sub]
    field_simp
    ring
  have hv : (sin phi)⁻¹ * sin x * sin phi = sin x := by
    rw [mul_right_comm, inv_mul_cancel₀ hphi, one_mul]
  calc ((sin phi)⁻¹ * sin (phi - x)) • u + ((sin phi)⁻¹ * sin x) • turn u v phi
      = ((sin phi)⁻¹ * sin (phi - x) + (sin phi)⁻¹ * sin x * cos phi) • u + ((sin phi)⁻¹ * sin x * sin phi) • v := by
        simp only [turn, smul_add, smul_smul, add_smul, add_assoc]
    _ = turn u v x := by rw [hu, hv, turn]

/-! ### Lengths -/

/-- Perpendicular vectors of one length. -/
structure Quarter (u v : E) (R : ℝ) : Prop where
  left : ‖u‖ = R
  right : ‖v‖ = R
  perp : inner ℝ u v = 0

namespace Quarter

/-- The theorem of Pythagoras. -/
theorem norm_sq (h : Quarter u v R) (a b : ℝ) : ‖a • u + b • v‖ ^ 2 = (a ^ 2 + b ^ 2) * R ^ 2 := by
  have hperp : inner ℝ (a • u) (b • v) = 0 := by
    rw [real_inner_smul_left, real_inner_smul_right, h.perp, mul_zero, mul_zero]
  rw [sq, norm_add_sq_eq_norm_sq_add_norm_sq_of_inner_eq_zero _ _ hperp, norm_smul, norm_smul, h.left, h.right,
    Real.norm_eq_abs, Real.norm_eq_abs]
  have ha := abs_mul_abs_self a
  have hb := abs_mul_abs_self b
  linear_combination R ^ 2 * ha + R ^ 2 * hb

theorem nonneg (h : Quarter u v R) : 0 ≤ R := h.left ▸ norm_nonneg u

theorem norm_turn (h : Quarter u v R) (x : ℝ) : ‖turn u v x‖ = R := by
  refine (sq_eq_sq₀ (norm_nonneg _) h.nonneg).1 ?_
  rw [turn, h.norm_sq, cos_sq_add_sin_sq, one_mul]

theorem next (h : Quarter u v R) : Quarter v (-u) R :=
  ⟨h.right, (norm_neg u).trans h.left, by rw [inner_neg_right, real_inner_comm, h.perp, neg_zero]⟩

/-- A turn keeps the right angle. -/
theorem turned (h : Quarter u v R) (x : ℝ) : Quarter (turn u v x) (turn v (-u) x) R := by
  refine ⟨h.norm_turn x, h.next.norm_turn x, ?_⟩
  have huu : inner ℝ u u = R ^ 2 := by rw [real_inner_self_eq_norm_sq, h.left]
  have hvv : inner ℝ v v = R ^ 2 := by rw [real_inner_self_eq_norm_sq, h.right]
  simp only [turn, inner_add_left, inner_add_right, real_inner_smul_left, real_inner_smul_right, inner_neg_right,
    huu, hvv, h.perp, real_inner_comm u v]
  ring

/-- The distance of a point of the circle from the foot of its perpendicular on the tangent at `u`. -/
theorem norm_turn_sub_tangent (h : Quarter u v R) (x : ℝ) :
    ‖turn u v x - (u + sin x • v)‖ = (1 - cos x) * R := by
  have heq : turn u v x - (u + sin x • v) = -((1 - cos x) • u) := by
    rw [turn, sub_smul, one_smul]
    abel
  rw [heq, norm_neg, norm_smul, h.left, Real.norm_of_nonneg (by linarith [cos_le_one x])]

end Quarter

/-! ### From a tangent into the circle -/

section Path

variable {c r w : E} {L p : ℝ}

/-- The path along the tangent `w` up to the length `L`, then around the circle about `c` from its radius `r` on. -/
noncomputable def enterTurn (c r w : E) (R L p : ℝ) : E :=
  if p ≤ L then c + r + (p - L) • w else c + turn r (R • w) (R⁻¹ * (p - L))

/-- The direction of the path. -/
noncomputable def enterTurnDir (r w : E) (R L p : ℝ) : E :=
  if p ≤ L then w else R⁻¹ • turn (R • w) (-r) (R⁻¹ * (p - L))

theorem hasDerivAt_turn_angle (u v : E) (R L p : ℝ) :
    HasDerivAt (fun q => turn u v (R⁻¹ * (q - L))) (R⁻¹ • turn v (-u) (R⁻¹ * (p - L))) p := by
  have hangle : HasDerivAt (fun q => R⁻¹ * (q - L)) R⁻¹ p := by
    simpa using ((hasDerivAt_id p).sub_const L).const_mul R⁻¹
  exact (hasDerivAt_turn u v _).scomp p hangle

theorem hasDerivAt_enterTurn (hR : R ≠ 0) (p : ℝ) : HasDerivAt (enterTurn c r w R L) (enterTurnDir r w R L p) p := by
  have hline : HasDerivAt (fun q => c + r + (q - L) • w) w p := by
    simpa using (((hasDerivAt_id p).sub_const L).smul_const w).const_add (c + r)
  have hround : HasDerivAt (fun q => c + turn r (R • w) (R⁻¹ * (q - L))) (R⁻¹ • turn (R • w) (-r) (R⁻¹ * (p - L))) p :=
    (hasDerivAt_turn_angle r (R • w) R L p).const_add c
  rcases lt_trichotomy p L with hlt | rfl | hgt
  · have hnear : enterTurn c r w R L =ᶠ[nhds p] fun q => c + r + (q - L) • w := by
      filter_upwards [gt_mem_nhds hlt] with q hq
      exact if_pos hq.le
    rw [enterTurnDir, if_pos hlt.le]
    exact hline.congr_of_eventuallyEq hnear
  · -- where the path meets the circle the derivatives of both sides are the tangent
    have htangent : R⁻¹ • turn (R • w) (-r) (R⁻¹ * (p - p)) = w := by
      rw [sub_self, mul_zero, turn_zero, smul_smul, inv_mul_cancel₀ hR, one_smul]
    rw [htangent] at hround
    rw [enterTurnDir, if_pos le_rfl]
    have hmeet : enterTurn c r w R p p = c + turn r (R • w) (R⁻¹ * (p - p)) := by
      simp [enterTurn]
    have hleft : HasDerivWithinAt (enterTurn c r w R p) w (Set.Iic p) p :=
      hline.hasDerivWithinAt.congr (fun q hq => if_pos hq) (if_pos le_rfl)
    have hright : HasDerivWithinAt (enterTurn c r w R p) w (Set.Ici p) p := by
      refine hround.hasDerivWithinAt.congr (fun q hq => ?_) hmeet
      rcases eq_or_lt_of_le (Set.mem_Ici.1 hq) with rfl | hlt
      · exact hmeet
      · exact if_neg (not_le.2 hlt)
    have hall := hleft.union hright
    rwa [Set.Iic_union_Ici, hasDerivWithinAt_univ] at hall
  · have hnear : enterTurn c r w R L =ᶠ[nhds p] fun q => c + turn r (R • w) (R⁻¹ * (q - L)) := by
      filter_upwards [lt_mem_nhds hgt] with q hq
      exact if_neg (not_le.2 hq)
    rw [enterTurnDir, if_neg (not_le.2 hgt)]
    exact hround.congr_of_eventuallyEq hnear

theorem continuous_turn (u v : E) : Continuous (turn u v) :=
  continuous_iff_continuousAt.2 fun x => (hasDerivAt_turn u v x).continuousAt

theorem continuous_enterTurnDir (hR : R ≠ 0) : Continuous (enterTurnDir r w R L) := by
  refine Continuous.if_le continuous_const ?_ continuous_id continuous_const ?_
  · exact continuous_const.smul ((continuous_turn _ _).comp (continuous_const.mul (continuous_id.sub continuous_const)))
  · rintro q rfl
    rw [sub_self, mul_zero, turn_zero, smul_smul, inv_mul_cancel₀ hR, one_smul]

/-- The direction does not change on the tangent, and turns towards the centre on the circle. -/
theorem hasDerivAt_enterTurnDir (hp : p ≠ L) : HasDerivAt (enterTurnDir r w R L)
    (if p ≤ L then 0 else -(R⁻¹ ^ 2 • turn r (R • w) (R⁻¹ * (p - L)))) p := by
  rcases lt_or_gt_of_ne hp with hlt | hgt
  · have hnear : enterTurnDir r w R L =ᶠ[nhds p] fun _ => w := by
      filter_upwards [gt_mem_nhds hlt] with q hq
      exact if_pos hq.le
    rw [if_pos hlt.le]
    exact (hasDerivAt_const p w).congr_of_eventuallyEq hnear
  · have hnear : enterTurnDir r w R L =ᶠ[nhds p] fun q => R⁻¹ • turn (R • w) (-r) (R⁻¹ * (q - L)) := by
      filter_upwards [lt_mem_nhds hgt] with q hq
      exact if_neg (not_le.2 hq)
    have hneg : turn (-r) (-(R • w)) (R⁻¹ * (p - L)) = -turn r (R • w) (R⁻¹ * (p - L)) := by
      simp only [turn, smul_neg, neg_add]
    have hround := (hasDerivAt_turn_angle (R • w) (-r) R L p).const_smul R⁻¹
    rw [hneg, smul_neg, smul_neg, smul_smul, ← sq] at hround
    rw [if_neg (not_le.2 hgt)]
    exact hround.congr_of_eventuallyEq hnear

variable (h : Quarter r (R • w) R)

include h

theorem Quarter.norm_dir (hR : 0 < R) : ‖w‖ = 1 := by
  have hright := h.right
  rw [norm_smul, Real.norm_of_nonneg hR.le] at hright
  exact mul_left_cancel₀ hR.ne' (hright.trans (mul_one R).symm)

theorem Quarter.norm_enterTurnDir (hR : 0 < R) (p : ℝ) : ‖enterTurnDir r w R L p‖ = 1 := by
  unfold enterTurnDir
  split
  · exact h.norm_dir hR
  · rw [norm_smul, h.next.norm_turn, norm_inv, Real.norm_of_nonneg hR.le, inv_mul_cancel₀ hR.ne']

/-- The acceleration of a motion along the path: the part along it, and that towards the centre. -/
theorem Quarter.norm_accel (hR : 0 < R) (s v : ℝ) :
    ‖s • enterTurnDir r w R L p + v ^ 2 • (if p ≤ L then (0 : E) else -(R⁻¹ ^ 2 • turn r (R • w) (R⁻¹ * (p - L))))‖ ^ 2 ≤
      s ^ 2 + (v ^ 2 * R⁻¹) ^ 2 := by
  by_cases hp : p ≤ L
  · rw [if_pos hp, smul_zero, add_zero, norm_smul, h.norm_enterTurnDir hR, mul_one, Real.norm_eq_abs, sq_abs]
    exact le_add_of_nonneg_right (sq_nonneg _)
  · have hquarter := h.turned (R⁻¹ * (p - L))
    have heq : s • enterTurnDir r w R L p + v ^ 2 • -(R⁻¹ ^ 2 • turn r (R • w) (R⁻¹ * (p - L))) =
        (-(v ^ 2 * R⁻¹ ^ 2)) • turn r (R • w) (R⁻¹ * (p - L)) + (s * R⁻¹) • turn (R • w) (-r) (R⁻¹ * (p - L)) := by
      rw [enterTurnDir, if_neg hp, smul_neg, smul_smul, smul_smul, neg_smul, add_comm]
    rw [if_neg hp, heq, hquarter.norm_sq]
    refine le_of_eq ?_
    field_simp
    ring

end Path

end SoemMotion.Lib
