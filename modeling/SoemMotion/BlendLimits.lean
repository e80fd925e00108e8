import SoemMotion.Blend
import SoemMotion.Vectors

/-!
# The parameters of a blend arc

The radius of a blend arc is the larger of the one its speed needs and of the one an equivalent parabolic blend would
have.  Both are at most the radius that the lengths of the lines and the tolerance leave room for, so every limit holds.
-/

namespace SoemMotion

open Real

/-- The inputs of a blend: a corner of half the angle `theta` between two lines, and limits that are positive. -/
structure BlendParameters.Corner (param : BlendParameters ℝ) : Prop where
  theta_pos : 0 < param.theta
  theta_lt : param.theta < π / 2
  phi : param.phi = π - 2 * param.theta
  L1 : 0 < param.L1
  L2 : 0 < param.L2
  tolerance : 0 < param.tolerance
  aMax : 0 < param.aMax
  aNMax : 0 < param.aNMax
  vGoal : 0 < param.vGoal

namespace BlendParameters.Corner

variable {param : BlendParameters ℝ}

theorem sin_pos (h : param.Corner) : 0 < sin param.theta :=
  sin_pos_of_pos_of_lt_pi h.theta_pos (by linarith [h.theta_lt, pi_pos])

theorem cos_pos (h : param.Corner) : 0 < cos param.theta :=
  cos_pos_of_mem_Ioo ⟨by linarith [h.theta_pos, pi_pos], h.theta_lt⟩

theorem tan_pos (h : param.Corner) : 0 < tan param.theta := tan_pos_of_pos_of_lt_pi_div_two h.theta_pos h.theta_lt

theorem sin_lt_one (h : param.Corner) : sin param.theta < 1 := by
  have hsq := sin_sq_add_cos_sq param.theta
  nlinarith [h.cos_pos, h.sin_pos]

end BlendParameters.Corner

/-- The distance from the corner that the lengths of the lines and the tolerance leave for the arc. -/
noncomputable def blendRoom (param : BlendParameters ℝ) : ℝ :=
  min (min param.L1 param.L2) (cos param.theta * (param.tolerance / (1 - sin param.theta)))

theorem blendRoom_pos {param : BlendParameters ℝ} (h : param.Corner) : 0 < blendRoom param := by
  refine lt_min (lt_min h.L1 h.L2) (mul_pos h.cos_pos (div_pos h.tolerance ?_))
  linarith [h.sin_lt_one]

/-- An arc of a radius that fits the room deviates from the corner by no more than the tolerance. -/
theorem deviation_le {param : BlendParameters ℝ} (h : param.Corner) {R : ℝ}
    (hR : R ≤ tan param.theta * blendRoom param) :
    R / sin param.theta - R ≤ param.tolerance := by
  have hs := h.sin_pos
  have hc := h.cos_pos
  have hgap : 0 < 1 - sin param.theta := by linarith [h.sin_lt_one]
  have hroom : tan param.theta * blendRoom param ≤ sin param.theta * (param.tolerance / (1 - sin param.theta)) := by
    calc tan param.theta * blendRoom param
        ≤ tan param.theta * (cos param.theta * (param.tolerance / (1 - sin param.theta))) :=
          mul_le_mul_of_nonneg_left (min_le_right _ _) h.tan_pos.le
      _ = sin param.theta * (param.tolerance / (1 - sin param.theta)) := by
          rw [← mul_assoc, tan_mul_cos hc.ne']
  have hfactor : R / sin param.theta - R = R * ((1 - sin param.theta) / sin param.theta) := by
    field_simp
  calc R / sin param.theta - R
      = R * ((1 - sin param.theta) / sin param.theta) := hfactor
    _ ≤ sin param.theta * (param.tolerance / (1 - sin param.theta)) * ((1 - sin param.theta) / sin param.theta) :=
        mul_le_mul_of_nonneg_right (hR.trans hroom) (div_pos hgap hs).le
    _ = param.tolerance := by field_simp

/-- The planned speed: what the room allows, but no more than the goal. -/
theorem blendComputeParameters_vPlan (param : BlendParameters ℝ) :
    (blendComputeParameters param).1.vPlan = min √(param.aNMax * (tan param.theta * blendRoom param)) param.vGoal := by
  unfold blendComputeParameters
  simp only [apply_ite Prod.fst, ite_self, pmSqrt_real, fmin_real, sin_real, cos_real, tan_real]
  rfl

/-- The planned radius: what the planned speed needs, or more while the room lasts. -/
theorem blendComputeParameters_RPlan (param : BlendParameters ℝ) :
    ∃ R ≤ tan param.theta * blendRoom param, (blendComputeParameters param).1.RPlan =
      max ((blendComputeParameters param).1.vPlan ^ 2 / param.aNMax) R := by
  rw [sq, blendComputeParameters_vPlan]
  unfold blendComputeParameters
  simp only [apply_ite Prod.fst, ite_self, pmSqrt_real, fmin_real, fmax_real, sin_real, cos_real, tan_real]
  exact ⟨_, min_le_right _ _, rfl⟩

/-- The distance of the end points of the arc from the corner. -/
theorem blendComputeParameters_dPlan (param : BlendParameters ℝ) :
    (blendComputeParameters param).1.dPlan = (blendComputeParameters param).1.RPlan / tan param.theta := by
  unfold blendComputeParameters
  simp only [apply_ite Prod.fst, ite_self, tan_real]

theorem blendComputeParameters_vActual (param : BlendParameters ℝ) :
    (blendComputeParameters param).1.vActual ≤ min (blendComputeParameters param).1.vPlan param.vReq := by
  unfold blendComputeParameters
  simp only [apply_ite Prod.fst, ite_self]
  split
  · rename_i h
    exact le_min h.le le_rfl
  · rename_i h
    exact le_min le_rfl (not_lt.1 h)

theorem vPlan_sq_le {param : BlendParameters ℝ} (h : param.Corner) :
    (blendComputeParameters param).1.vPlan ^ 2 ≤ param.aNMax * (tan param.theta * blendRoom param) := by
  have hroom : 0 ≤ param.aNMax * (tan param.theta * blendRoom param) :=
    mul_nonneg h.aNMax.le (mul_pos h.tan_pos (blendRoom_pos h)).le
  rw [blendComputeParameters_vPlan]
  calc min √(param.aNMax * (tan param.theta * blendRoom param)) param.vGoal ^ 2
      ≤ √(param.aNMax * (tan param.theta * blendRoom param)) ^ 2 :=
        pow_le_pow_left₀ (le_min (Real.sqrt_nonneg _) h.vGoal.le) (min_le_left _ _) 2
    _ = param.aNMax * (tan param.theta * blendRoom param) := Real.sq_sqrt hroom

/-- The radius that the planned speed needs fits the room, so the planned radius does. -/
theorem RPlan_le {param : BlendParameters ℝ} (h : param.Corner) :
    (blendComputeParameters param).1.RPlan ≤ tan param.theta * blendRoom param := by
  obtain ⟨R, hR, heq⟩ := blendComputeParameters_RPlan param
  rw [heq]
  refine max_le ?_ hR
  rw [div_le_iff₀' h.aNMax]
  exact vPlan_sq_le h

/-! ### The result -/

/-- The values computed for a blend keep all of its limits. -/
structure BlendSafe (param out : BlendParameters ℝ) : Prop where
  lengths : out.dPlan ≤ min param.L1 param.L2
  deviation : out.RPlan / sin param.theta - out.RPlan ≤ param.tolerance
  tangent : out.dPlan = out.RPlan / tan param.theta
  goal : out.vPlan ≤ param.vGoal
  normal : out.vPlan ^ 2 ≤ param.aNMax * out.RPlan
  actual : out.vActual ≤ min out.vPlan param.vReq

theorem blendComputeParameters_safe (param : BlendParameters ℝ) (h : param.Corner) :
    BlendSafe param (blendComputeParameters param).1 where
  lengths := by
    rw [blendComputeParameters_dPlan, div_le_iff₀' h.tan_pos]
    calc (blendComputeParameters param).1.RPlan
        ≤ tan param.theta * blendRoom param := RPlan_le h
      _ ≤ tan param.theta * min param.L1 param.L2 := mul_le_mul_of_nonneg_left (min_le_left _ _) h.tan_pos.le
  deviation := deviation_le h (RPlan_le h)
  tangent := blendComputeParameters_dPlan param
  goal := by
    rw [blendComputeParameters_vPlan]
    exact min_le_right _ _
  normal := by
    obtain ⟨R, -, heq⟩ := blendComputeParameters_RPlan param
    rw [heq, ← div_le_iff₀' h.aNMax]
    exact le_max_left _ _
  actual := blendComputeParameters_vActual param

/-- Two lines at a right angle. -/
noncomputable def squareCorner : BlendParameters ℝ where
  tolerance := 1
  L1 := 1
  L2 := 1
  vReq := 1
  aMax := 1
  theta := π / 4
  phi := π - 2 * (π / 4)
  aNMax := 1
  RPlan := 0
  dPlan := 0
  vGoal := 1
  vPlan := 0
  vActual := 0
  sArc := 0

theorem blendComputeParameters_safe_square : BlendSafe squareCorner (blendComputeParameters squareCorner).1 :=
  blendComputeParameters_safe squareCorner
    { theta_pos := by
        show 0 < π / 4
        linarith [pi_pos]
      theta_lt := by
        show π / 4 < π / 2
        linarith [pi_pos]
      phi := rfl
      L1 := one_pos
      L2 := one_pos
      tolerance := one_pos
      aMax := one_pos
      aNMax := one_pos
      vGoal := one_pos }

end SoemMotion
