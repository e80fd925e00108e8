import SoemMotion.Motion
import SoemMotion.Lib.Spline

/-!
# The path of the cubic interpolator

The way points, the velocities and the coefficients that `cubicAddPoint` computes are those of a B-spline over the four
stored points.  In a run at one segment time every segment is therefore an average of its points, and every segment
meets the one before it with the same position, velocity and acceleration.
-/

namespace SoemMotion

open Lib

/-! ### Calls -/

/-- The calls that change an interpolator. -/
inductive CubicCall (K : Type)
  | setSegmentTime (time : K)
  | setInterpolationRate (rate : Int)
  | addPoint (point : K)
  | interpolate
  | drain

section Calls

variable {K : Type} [Arith K]

def CubicCall.apply : CubicCall K → Cubic K → Cubic K
  | .setSegmentTime time, ci => cubicSetSegmentTime ci time
  | .setInterpolationRate rate, ci => cubicSetInterpolationRate ci rate
  | .addPoint point, ci => cubicAddPoint ci point
  | .interpolate, ci => (cubicInterpolate ci).1
  | .drain, ci => cubicDrain ci

/-- The interpolator after each of the calls that are made one after the other. -/
def Cubic.states (calls : ℕ → CubicCall K) (ci : Cubic K) : ℕ → Cubic K
  | 0 => ci
  | n + 1 => (calls n).apply (Cubic.states calls ci n)

/-- The call takes a point, its own or the last one again. -/
def CubicCall.takesPoint : CubicCall K → Cubic K → Bool
  | .addPoint _, ci => ci.allSet && ci.needNextPoint
  | .interpolate, ci => ci.allSet && ci.needNextPoint
  | _, _ => false

/-- The segment time stays as it is. -/
def CubicCall.keepsTime : CubicCall K → Bool
  | .setSegmentTime _ => false
  | _ => true

/-- An interpolator with nothing but its segment time set. -/
def Cubic.ofTime (ci : Cubic K) (time : K) : Cubic K := cubicSetSegmentTime (cubicInit ci) time

/-- The coefficients that the four points give at a segment time. -/
def Cubic.fit (ci : Cubic K) (time : K) : CubicCoeff K :=
  cubicCoeff (wayPoint ci.x0 ci.x1 ci.x2) (velPoint ci.x0 ci.x2 time) (wayPoint ci.x1 ci.x2 ci.x3)
    (velPoint ci.x1 ci.x3 time) time

/-- The coefficients are those of the points. -/
structure Cubic.Fitted (time : K) (ci : Cubic K) : Prop where
  segmentTime : ci.segmentTime = time
  coeff : ci.coeff = ci.fit time

end Calls

/-! ### Segments of a spline -/

section Segment

variable {ci ci' : Cubic ℝ} {time : ℝ}

theorem velPoint_eq (a b : ℝ) (h : 0 < time) : velPoint a b time = (b - a) / (2 * time) := if_neg (not_le.2 h)

theorem interpolateCubic_fit (ci : Cubic ℝ) (h : 0 < time) (t : ℝ) :
    interpolateCubic (ci.fit time) t = bspline ci.x0 ci.x1 ci.x2 ci.x3 (t / time) := by
  unfold interpolateCubic Cubic.fit cubicCoeff wayPoint bspline
  rw [velPoint_eq _ _ h, velPoint_eq _ _ h]
  field_simp
  ring

theorem interpolateVel_fit (ci : Cubic ℝ) (h : 0 < time) (t : ℝ) :
    interpolateVel (ci.fit time) t =
      bsplineVel ((ci.x1 - ci.x0) / time) ((ci.x2 - ci.x1) / time) ((ci.x3 - ci.x2) / time) (t / time) := by
  unfold interpolateVel Cubic.fit cubicCoeff wayPoint bsplineVel
  rw [velPoint_eq _ _ h, velPoint_eq _ _ h]
  field_simp
  ring

theorem interpolateAccel_fit (ci : Cubic ℝ) (h : 0 < time) (t : ℝ) :
    interpolateAccel (ci.fit time) t =
      bsplineAcc ((ci.x2 - 2 * ci.x1 + ci.x0) / time ^ 2) ((ci.x3 - 2 * ci.x2 + ci.x1) / time ^ 2) (t / time) := by
  unfold interpolateAccel Cubic.fit cubicCoeff wayPoint bsplineAcc
  rw [velPoint_eq _ _ h, velPoint_eq _ _ h]
  field_simp
  ring

end Segment

/-! ### Runs at one segment time -/

section Fitted

variable {ci : Cubic ℝ} {time : ℝ}

theorem cubicDrain_fitted (h : ci.segmentTime = time) : (cubicDrain ci).Fitted time := by
  refine ⟨h, ?_⟩
  simp [cubicDrain, Cubic.fit, cubicCoeff, wayPoint, velPoint]

theorem setIncrement_fitted (h : ci.Fitted time) : ci.setIncrement.Fitted time := by
  unfold Cubic.setIncrement
  split
  · exact ⟨h.segmentTime, h.coeff⟩
  · exact h

theorem ofTime_fitted (ci : Cubic ℝ) (h : 0 < time) : (ci.ofTime time).Fitted time := by
  have hinit : ({ cubicInit ci with segmentTime := time, segmentTimeSet := true } : Cubic ℝ).Fitted time := by
    refine ⟨rfl, ?_⟩
    simp [cubicInit, cubicDrain, Cubic.fit, cubicCoeff, wayPoint, velPoint]
  unfold Cubic.ofTime cubicSetSegmentTime
  rw [if_neg (not_le.2 h)]
  exact setIncrement_fitted hinit

theorem refit_fitted (h : ci.segmentTime = time) : ci.refit.Fitted time := by
  refine ⟨h, ?_⟩
  unfold Cubic.refit Cubic.fit
  rw [h]

theorem shift_segmentTime (ci : Cubic ℝ) (point : ℝ) : (ci.shift point).segmentTime = ci.segmentTime := by
  unfold Cubic.shift
  split <;> rfl

theorem cubicAddPoint_fitted (h : ci.Fitted time) (point : ℝ) : (cubicAddPoint ci point).Fitted time := by
  unfold cubicAddPoint
  split
  · exact refit_fitted ((shift_segmentTime ci point).trans h.segmentTime)
  · exact h

theorem cubicInterpolate_fitted (h : ci.Fitted time) : (cubicInterpolate ci).1.Fitted time := by
  unfold cubicInterpolate
  split
  · have hadd : (if ci.needNextPoint then cubicAddPoint ci ci.x3 else ci).Fitted time := by
      split
      · exact cubicAddPoint_fitted h ci.x3
      · exact h
    exact ⟨hadd.segmentTime, hadd.coeff⟩
  · exact h

theorem CubicCall.apply_fitted {c : CubicCall ℝ} (hc : c.keepsTime = true) (h : ci.Fitted time) :
    (c.apply ci).Fitted time := by
  cases c with
  | setSegmentTime time => cases hc
  | setInterpolationRate rate =>
    show (cubicSetInterpolationRate ci rate).Fitted time
    unfold cubicSetInterpolationRate
    split
    · exact h
    · exact setIncrement_fitted ⟨h.segmentTime, h.coeff⟩
  | addPoint point => exact cubicAddPoint_fitted h point
  | interpolate => exact cubicInterpolate_fitted h
  | drain => exact cubicDrain_fitted h.segmentTime

theorem states_fitted {calls : ℕ → CubicCall ℝ} (hcalls : ∀ n, (calls n).keepsTime = true)
    (h : ci.Fitted time) (n : ℕ) :
    (Cubic.states calls ci n).Fitted time := by
  induction n with
  | zero => exact h
  | succ n ih => exact CubicCall.apply_fitted (hcalls n) ih

/-! ### The path -/

/-- The smallest of the stored points. -/
noncomputable def Cubic.lowest (ci : Cubic ℝ) : ℝ := min (min ci.x0 ci.x1) (min ci.x2 ci.x3)

/-- The largest of the stored points. -/
noncomputable def Cubic.highest (ci : Cubic ℝ) : ℝ := max (max ci.x0 ci.x1) (max ci.x2 ci.x3)

/-- The largest step between two stored points that follow each other. -/
noncomputable def Cubic.largestStep (ci : Cubic ℝ) : ℝ :=
  max (max |ci.x1 - ci.x0| |ci.x2 - ci.x1|) |ci.x3 - ci.x2|

theorem Cubic.Fitted.position_mem (h : ci.Fitted time) (htime : 0 < time) {t lo hi : ℝ} (ht : 0 ≤ t ∧ t ≤ time)
    (h₀ : lo ≤ ci.x0 ∧ ci.x0 ≤ hi) (h₁ : lo ≤ ci.x1 ∧ ci.x1 ≤ hi) (h₂ : lo ≤ ci.x2 ∧ ci.x2 ≤ hi)
    (h₃ : lo ≤ ci.x3 ∧ ci.x3 ≤ hi) : lo ≤ interpolateCubic ci.coeff t ∧ interpolateCubic ci.coeff t ≤ hi := by
  rw [h.coeff, interpolateCubic_fit ci htime]
  exact bspline_mem ⟨div_nonneg ht.1 htime.le, (div_le_one htime).2 ht.2⟩ h₀ h₁ h₂ h₃

theorem Cubic.Fitted.abs_velocity_le (h : ci.Fitted time) (htime : 0 < time) {t : ℝ} (ht : 0 ≤ t ∧ t ≤ time) :
    |interpolateVel ci.coeff t| ≤ ci.largestStep / time := by
  have hstep : ∀ d, |d| ≤ ci.largestStep → |d / time| ≤ ci.largestStep / time := by
    intro d hd
    rw [abs_div, abs_of_pos htime]
    exact div_le_div_of_nonneg_right hd htime.le
  rw [h.coeff, interpolateVel_fit ci htime]
  refine abs_bsplineVel_le ⟨div_nonneg ht.1 htime.le, (div_le_one htime).2 ht.2⟩ (hstep _ ?_) (hstep _ ?_) (hstep _ ?_)
  · exact (le_max_left _ _).trans (le_max_left _ _)
  · exact (le_max_right _ _).trans (le_max_left _ _)
  · exact le_max_right _ _

end Fitted

/-- In every run of an initialised interpolator at one segment time, the position stays between the stored points, and
so within all limits that they keep, and the velocity is not larger than their largest step. -/
theorem cubic_within_points (ci : Cubic ℝ) {time : ℝ} (htime : 0 < time) (calls : ℕ → CubicCall ℝ)
    (hcalls : ∀ n, (calls n).keepsTime = true) (n : ℕ) {t : ℝ} (ht : 0 ≤ t ∧ t ≤ time) :
    let c := Cubic.states calls (ci.ofTime time) n
    (c.lowest ≤ interpolateCubic c.coeff t ∧ interpolateCubic c.coeff t ≤ c.highest) ∧
      |interpolateVel c.coeff t| ≤ c.largestStep / time ∧
      ∀ lo hi, lo ≤ c.lowest → c.highest ≤ hi → lo ≤ interpolateCubic c.coeff t ∧ interpolateCubic c.coeff t ≤ hi := by
  intro c
  have hfit : c.Fitted time := states_fitted hcalls (ofTime_fitted ci htime) n
  have hmem : c.lowest ≤ interpolateCubic c.coeff t ∧ interpolateCubic c.coeff t ≤ c.highest := by
    refine hfit.position_mem htime ht ⟨?_, ?_⟩ ⟨?_, ?_⟩ ⟨?_, ?_⟩ ⟨?_, ?_⟩
    all_goals simp [Cubic.lowest, Cubic.highest]
  exact ⟨hmem, hfit.abs_velocity_le htime ht, fun lo hi hlo hhi => ⟨hlo.trans hmem.1, hmem.2.trans hhi⟩⟩

/-- An interpolator with a rate of two that is given the points zero and one. -/
def steppedCalls : ℕ → CubicCall ℝ
  | 0 => .setInterpolationRate 2
  | 1 => .addPoint 0
  | 4 => .addPoint 1
  | _ => .interpolate

theorem steppedCalls_keepsTime (n : ℕ) : (steppedCalls n).keepsTime = true := by
  unfold steppedCalls
  split <;> rfl

theorem cubic_within_points_stepped :
    let c := Cubic.states steppedCalls (Cubic.zero.ofTime 1) 5
    (c.lowest ≤ interpolateCubic c.coeff (1 / 2) ∧ interpolateCubic c.coeff (1 / 2) ≤ c.highest) ∧
      |interpolateVel c.coeff (1 / 2)| ≤ c.largestStep / 1 ∧
      ∀ lo hi, lo ≤ c.lowest → c.highest ≤ hi → lo ≤ interpolateCubic c.coeff (1 / 2) ∧
      interpolateCubic c.coeff (1 / 2) ≤ hi :=
  cubic_within_points Cubic.zero one_pos steppedCalls steppedCalls_keepsTime 5 (by norm_num)

/-! ### Where segments meet -/

/-- The path goes on from one segment to the next with the same position, velocity and acceleration. -/
def JoinsTo (time : ℝ) (coeff coeff' : CubicCoeff ℝ) : Prop :=
  interpolateCubic coeff time = interpolateCubic coeff' 0 ∧ interpolateVel coeff time = interpolateVel coeff' 0 ∧
    interpolateAccel coeff time = interpolateAccel coeff' 0

/-- A point that a filled interpolator takes starts a segment where the last one ends. -/
theorem cubicAddPoint_joins {ci : Cubic ℝ} {time : ℝ} (htime : 0 < time) (h : ci.Fitted time)
    (hfilled : ci.filled = true)
    (htakes : (ci.allSet && ci.needNextPoint) = true) (point : ℝ) :
    JoinsTo time ci.coeff (cubicAddPoint ci point).coeff := by
  have hnext := cubicAddPoint_fitted h point
  have hpoints : (cubicAddPoint ci point).x0 = ci.x1 ∧ (cubicAddPoint ci point).x1 = ci.x2 ∧
      (cubicAddPoint ci point).x2 = ci.x3 := by
    unfold cubicAddPoint Cubic.shift
    rw [if_pos htakes, if_pos hfilled]
    exact ⟨rfl, rfl, rfl⟩
  obtain ⟨h₀, h₁, h₂⟩ := hpoints
  unfold JoinsTo
  rw [h.coeff, hnext.coeff]
  simp only [interpolateCubic_fit _ htime, interpolateVel_fit _ htime, interpolateAccel_fit _ htime, div_self htime.ne',
    zero_div, h₀, h₁, h₂]
  exact ⟨bspline_join _ _ _ _ _, bsplineVel_join _ _ _ _, bsplineAcc_join _ _ _⟩

/-- In every run of an initialised interpolator at one segment time, each point that is taken once the four slots are
filled starts a segment that meets the last one, twice continuously differentiable. -/
theorem cubic_segments_join (ci : Cubic ℝ) {time : ℝ} (htime : 0 < time) (calls : ℕ → CubicCall ℝ)
    (hcalls : ∀ n, (calls n).keepsTime = true) (n : ℕ)
    (hfilled : (Cubic.states calls (ci.ofTime time) n).filled = true)
    (htakes : (calls n).takesPoint (Cubic.states calls (ci.ofTime time) n) = true) :
    JoinsTo time (Cubic.states calls (ci.ofTime time) n).coeff (Cubic.states calls (ci.ofTime time) (n + 1)).coeff := by
  have hfit := states_fitted hcalls (ofTime_fitted ci htime) n
  show JoinsTo time _ ((calls n).apply _).coeff
  generalize Cubic.states calls (ci.ofTime time) n = c at hfilled htakes hfit ⊢
  generalize calls n = call at htakes ⊢
  cases call with
  | addPoint point => exact cubicAddPoint_joins htime hfit hfilled htakes point
  | interpolate =>
    have hset : (c.allSet && c.needNextPoint) = true := htakes
    have hcoeff : (CubicCall.interpolate.apply c).coeff = (cubicAddPoint c c.x3).coeff := by
      rw [Bool.and_eq_true] at hset
      show (cubicInterpolate c).1.coeff = _
      unfold cubicInterpolate
      rw [if_pos hset.1]
      dsimp only
      rw [if_pos hset.2]
    rw [hcoeff]
    exact cubicAddPoint_joins htime hfit hfilled hset c.x3
  | setSegmentTime | setInterpolationRate | drain => cases htakes

/-- The interpolator of `steppedCalls` once its first segment is used up. -/
theorem steppedCalls_four : (Cubic.states steppedCalls (Cubic.zero.ofTime 1) 4).filled = true ∧
    (Cubic.states steppedCalls (Cubic.zero.ofTime 1) 4).allSet = true ∧
    (Cubic.states steppedCalls (Cubic.zero.ofTime 1) 4).needNextPoint = true := by
  have h₂ : Cubic.states steppedCalls (Cubic.zero.ofTime 1) 2 = { (Cubic.zero : Cubic ℝ) with
      segmentTimeSet := true, interpolationRateSet := true, segmentTime := 1, interpolationRate := 2
      interpolationIncrement := 1 / 2, filled := true } := by
    norm_num [Cubic.states, steppedCalls, CubicCall.apply, Cubic.ofTime, cubicSetSegmentTime, cubicInit, cubicDrain,
      Cubic.zero, Cubic.setIncrement, Cubic.allSet, cubicSetInterpolationRate, cubicAddPoint, Cubic.shift, Cubic.refit,
      wayPoint, velPoint, cubicCoeff]
  have h₄ : Cubic.states steppedCalls (Cubic.zero.ofTime 1) 4 =
      (cubicInterpolate (cubicInterpolate (Cubic.states steppedCalls (Cubic.zero.ofTime 1) 2)).1).1 := rfl
  rw [h₄, h₂]
  norm_num [cubicInterpolate, Cubic.allSet, Cubic.zero, fabs_real]

theorem cubic_segments_join_stepped :
    JoinsTo 1 (Cubic.states steppedCalls (Cubic.zero.ofTime 1) 4).coeff
      (Cubic.states steppedCalls (Cubic.zero.ofTime 1) 5).coeff := by
  obtain ⟨hfilled, hset, hneed⟩ := steppedCalls_four
  refine cubic_segments_join Cubic.zero one_pos steppedCalls steppedCalls_keepsTime 4 hfilled ?_
  exact Bool.and_eq_true_iff.2 ⟨hset, hneed⟩

end SoemMotion
