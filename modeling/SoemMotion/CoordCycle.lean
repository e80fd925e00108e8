import SoemMotion.LoopExit
import SoemMotion.PlannerRun

/-!
# A cycle in coordinated mode

The cycle of a machine that stays in coordinated mode, all axes active and all interpolators asking for a point, in
exact arithmetic: the planner is put at the commanded position of the axes and run once, and each axis moves to the
point its interpolator makes of the last four points.
-/

namespace SoemMotion

/-! ### One turn of the loop -/

section

variable {K : Type} [Arith K]

/-- The machine after a coordinated cycle with one turn of the loop, from its state after `set_operating_mode`. -/
def coordResult (inp : Inputs) (s : Machine K) : Machine K :=
  updateStatus (outputToHal (checkSoftLimits (coordEnd (coordFeed inp (coordBegin s))))) inp

/-- The planner after its call in such a cycle. -/
def calledPlanner (inp : Inputs) (s : Machine K) : Tp K :=
  tpRunCycle (s.tpEnv inp.unlocked) s.internal.coordTp

/-- A cycle in which axis 0 asks for a point and takes it runs the planner once. -/
theorem emcmotController_coord {s t : Machine K} {inp : Inputs} {period : Int} {fuel : Nat}
    (hstate : (controllerFront s inp period).status.motionState = .coord)
    (hneed : ((controllerFront s inp period).axes 0).cubic.needNextPoint = true)
    (htakes : (controllerFront s inp period).TakesPoint) (h : emcmotController s inp period fuel = some t) :
    t = coordResult inp (controllerFront s inp period) := by
  unfold emcmotController getPosCmds planPositions at h
  rw [hstate] at h
  obtain ⟨u, hu, rfl⟩ := Option.map_eq_some_iff.1 h
  obtain ⟨v, hv, rfl⟩ := Option.map_eq_some_iff.1 hu
  obtain ⟨w, hw, rfl⟩ := Option.map_eq_some_iff.1 hv
  have hneed' : needNextPoint (coordBegin (controllerFront s inp period)) = true := hneed
  have hdone : needNextPoint (coordFeed inp (coordBegin (controllerFront s inp period))) = false := by
    have hact : ((coordBegin (controllerFront s inp period)).axes 0).flag.active = true := htakes.1
    have hset : ((coordBegin (controllerFront s inp period)).axes 0).cubic.allSet = true := htakes.2
    rw [coordFeed_needNextPoint, hact, hset]
    simp
  rw [Lib.eq_of_whileFuel_once hneed' hdone hw]
  rfl

/-- The planner at the end of the cycle, unless a step has been completed. -/
theorem coordResult_planner (inp : Inputs) (s : Machine K) :
    (coordResult inp s).internal.coordTp = calledPlanner inp s ∨
      (coordResult inp s).internal.coordTp = tpPause (calledPlanner inp s) := by
  have hcalled :
    (checkSoftLimits (coordEnd (coordFeed inp (coordBegin s)))).internal.coordTp = calledPlanner inp s := by
    rw [checkSoftLimits_internal]
    rfl
  rw [← hcalled]
  show (if _ then tpPause _ else _ : Tp K) = _ ∨ (if _ then tpPause _ else _ : Tp K) = _
  split
  · exact .inr rfl
  · exact .inl rfl

theorem coordResult_axes (inp : Inputs) (s : Machine K) (i : Fin 3) : ∃ pos, (coordResult inp s).axes i =
    { interpolateAxis (feedAxis (s.axes i) (positions (calledPlanner inp s).currentPos i)) with motorPosCmd := pos } :=
  cycleEnd_axes (coordEnd (coordFeed inp (coordBegin s))) inp i

end

/-! ### Interpolators at rate 1 -/

/-- The interpolator that has answered its last point: it has a segment time and a rate of one, and asks for a point. -/
structure Cubic.Ready (ci : Cubic ℝ) : Prop where
  timed : ci.timed = ci
  need : ci.needNextPoint = true

theorem Cubic.Ready.allSet {ci : Cubic ℝ} (h : ci.Ready) : ci.allSet = true := by
  rw [← h.timed]
  rfl

/-- An interpolator whose last four points are `x`. -/
def Cubic.Holds (ci : Cubic ℝ) (x : ℝ) : Prop :=
  ci.filled = true ∧ ci.x0 = x ∧ ci.x1 = x ∧ ci.x2 = x ∧ ci.x3 = x

/-- The interpolator after a point has been added, at the start of the new segment. -/
theorem cubicInterpolate_added {ci : Cubic ℝ} (h : ci.Ready) (point : ℝ) :
    (cubicInterpolate (cubicAddPoint ci point)).1.Ready ∧
      (cubicInterpolate (cubicAddPoint ci point)).2.pos =
        wayPoint (ci.shift point).x0 (ci.shift point).x1 (ci.shift point).x2 ∧
      (cubicInterpolate (cubicAddPoint ci point)).1.filled = (ci.shift point).filled ∧
      (cubicInterpolate (cubicAddPoint ci point)).1.x0 = (ci.shift point).x0 ∧
      (cubicInterpolate (cubicAddPoint ci point)).1.x1 = (ci.shift point).x1 ∧
      (cubicInterpolate (cubicAddPoint ci point)).1.x2 = (ci.shift point).x2 ∧
      (cubicInterpolate (cubicAddPoint ci point)).1.x3 = (ci.shift point).x3 := by
  have hadd : cubicAddPoint ci point = (ci.shift point).refit := by
    unfold cubicAddPoint
    rw [h.allSet, h.need]
    rfl
  have hshift : (ci.shift point).timed = ci.shift point := by
    have ht := h.timed
    unfold Cubic.shift
    split
    · rw [← ht]
      rfl
    · rw [← ht]
      rfl
  rw [hadd]
  generalize ci.shift point = c at hshift
  have hset : c.refit.allSet = true := by
    rw [← hshift]
    rfl
  have hinc : c.refit.interpolationIncrement = 1 := by
    rw [← hshift]
    rfl
  have hseg : c.refit.segmentTime = 1 := by
    rw [← hshift]
    rfl
  have hpos : interpolateCubic c.refit.coeff 0 = wayPoint c.x0 c.x1 c.x2 := by
    show c.refit.coeff.a * (0 * 0 * 0) + c.refit.coeff.b * (0 * 0) + c.refit.coeff.c * 0 + wayPoint c.x0 c.x1 c.x2 = _
    ring
  -- one increment is the whole segment, so the point is used up at once
  have hend : fabs (c.refit.segmentTime - (0 + c.refit.interpolationIncrement)) <
      0.5 * c.refit.interpolationIncrement := by
    rw [hinc, hseg, fabs_real]
    norm_num
  unfold cubicInterpolate
  rw [if_pos hset]
  have hneed : c.refit.needNextPoint = false := rfl
  rw [hneed]
  have htime : c.refit.interpolationTime = 0 := rfl
  dsimp only
  rw [if_neg Bool.false_ne_true, htime, if_pos hend]
  refine ⟨⟨?_, rfl⟩, hpos, rfl, rfl, rfl, rfl, rfl⟩
  show ({ c.refit with interpolationTime := _, needNextPoint := true } : Cubic ℝ).timed = _
  rw [← hshift]
  rfl

end SoemMotion
