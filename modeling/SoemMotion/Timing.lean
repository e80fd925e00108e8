import SoemMotion.Control

/-!
# The periods in operation

The cycle times in exact arithmetic: the start of the threads configures every interpolator, and the first cycle gives
all of them a segment time of one second and the rate 1, and the planner a cycle time of one second.
-/

namespace SoemMotion

theorem truncReal_of_mem {x : ℝ} {n : Int} (h0 : 0 ≤ x) (h : (n : ℝ) ≤ x) (h' : x < n + 1) : truncReal x = n := by
  unfold truncReal
  rw [if_pos h0, Int.floor_eq_iff]
  exact ⟨h, h'⟩

/-! ### The cycle times -/

theorem setServoCycleTime_of_pos {secs : ℝ} (h : 0 < secs) (s : Machine ℝ) :
    setServoCycleTime s secs =
      { s with
        config := { s.config with
          interpolationRate := truncReal (s.config.trajCycleTime / secs + 0.5), servoCycleTime := secs }
        axes := fun i => { s.axes i with
          cubic := cubicSetSegmentTime (cubicSetInterpolationRate (s.axes i).cubic
            (truncReal (s.config.trajCycleTime / secs + 0.5))) secs } } := by
  unfold setServoCycleTime
  rw [if_neg (not_le.2 h)]
  rfl

/-- The rate `setTrajCycleTime` computes. -/
noncomputable def trajRate (s : Machine ℝ) (secs : ℝ) : Int :=
  if s.config.servoCycleTime = 0 then 1 else truncReal (secs / s.config.servoCycleTime + 0.5)

theorem setTrajCycleTime_of_pos {secs : ℝ} (h : 0 < secs) (s : Machine ℝ) :
    setTrajCycleTime s secs =
      { s with
        config := { s.config with interpolationRate := trajRate s secs, trajCycleTime := secs }
        internal := { s.internal with coordTp := { s.internal.coordTp with cycleTime := secs } }
        axes := fun i => { s.axes i with cubic := cubicSetInterpolationRate (s.axes i).cubic (trajRate s secs) } } := by
  have htp : tpSetCycleTime s.internal.coordTp secs = { s.internal.coordTp with cycleTime := secs } := by
    unfold tpSetCycleTime
    rw [if_neg (not_le.2 h)]
  have hrate : (if s.config.servoCycleTime == 0 then 1
      else Arith.trunc (secs / s.config.servoCycleTime + 0.5)) = trajRate s secs := by
    unfold trajRate
    by_cases h0 : s.config.servoCycleTime = 0 <;> simp [h0]
  unfold setTrajCycleTime
  rw [if_neg (not_le.2 h)]
  dsimp only
  rw [htp, hrate]

/-! ### The interpolators -/

/-- The interpolator with a segment time of one second and the rate 1. -/
noncomputable def Cubic.timed (ci : Cubic ℝ) : Cubic ℝ :=
  { ci with
    segmentTimeSet := true, interpolationRateSet := true
    segmentTime := 1, interpolationRate := 1, interpolationIncrement := 1 }

theorem setIncrement_eq (ci : Cubic ℝ) : ∃ x, ci.setIncrement = { ci with interpolationIncrement := x } := by
  unfold Cubic.setIncrement
  split
  · exact ⟨_, rfl⟩
  · exact ⟨ci.interpolationIncrement, rfl⟩

theorem timed_cubicSetInterpolationRate (ci : Cubic ℝ) (rate : Int) :
    (cubicSetInterpolationRate ci rate).timed = ci.timed := by
  unfold cubicSetInterpolationRate
  split
  · rfl
  · obtain ⟨x, h⟩ := setIncrement_eq { ci with interpolationRate := rate, interpolationRateSet := true }
    rw [h]
    rfl

/-- A rate and a segment time of one. -/
theorem cubicSetSegmentTime_one (ci : Cubic ℝ) :
    cubicSetSegmentTime (cubicSetInterpolationRate ci 1) 1 = ci.timed := by
  unfold cubicSetInterpolationRate
  rw [if_neg (by norm_num)]
  obtain ⟨x, h⟩ := setIncrement_eq { ci with interpolationRate := 1, interpolationRateSet := true }
  rw [h]
  unfold cubicSetSegmentTime
  rw [if_neg (by norm_num)]
  show ({ ci with
    segmentTimeSet := true, interpolationRateSet := true, segmentTime := 1, interpolationRate := 1
    interpolationIncrement := 1 / ((1 : Int) : ℝ) } : Cubic ℝ) = ci.timed
  rw [Int.cast_one, div_one]
  rfl

/-- Every interpolator has its segment time and its rate. -/
def Machine.Configured {K : Type} (s : Machine K) : Prop := ∀ i, (s.axes i).cubic.allSet = true

/-- The start of the threads gives every interpolator a segment time and, the other cycle time being known then, a
rate of 1000. -/
theorem initMachine_configured (numAxes : Int) : (initMachine numAxes : Machine ℝ).Configured := by
  have hservo : ((servoPeriodNsec : Int) : ℝ) * 1e-9 = 1 / 1000 := by norm_num [servoPeriodNsec]
  have htraj : ((trajPeriodNsec : Int) : ℝ) * 1e-9 = 1 := by norm_num [trajPeriodNsec, servoPeriodNsec]
  have hinit : (initMachine numAxes : Machine ℝ) =
      setTrajCycleTime (setServoCycleTime (initBuffers numAxes) (1 / 1000)) 1 := by
    show setTrajCycleTime (setServoCycleTime (initBuffers numAxes) (((servoPeriodNsec : Int) : ℝ) * 1e-9))
      (((trajPeriodNsec : Int) : ℝ) * 1e-9) = _
    rw [hservo, htraj]
  have hrate : trajRate (setServoCycleTime (initBuffers numAxes) (1 / 1000)) 1 = 1000 := by
    rw [setServoCycleTime_of_pos (by norm_num)]
    unfold trajRate
    rw [if_neg (by norm_num)]
    exact truncReal_of_mem (by norm_num) (by norm_num) (by norm_num)
  intro i
  have hset : ∀ ci : Cubic ℝ, (cubicSetSegmentTime ci (1 / 1000)).segmentTimeSet = true := by
    intro ci
    unfold cubicSetSegmentTime Cubic.setIncrement
    rw [if_neg (by norm_num)]
    split <;> rfl
  have hall : ∀ ci : Cubic ℝ, ci.segmentTimeSet = true → (cubicSetInterpolationRate ci 1000).allSet = true := by
    intro ci hci
    obtain ⟨x, h⟩ := setIncrement_eq { ci with interpolationRate := 1000, interpolationRateSet := true }
    unfold cubicSetInterpolationRate
    rw [if_neg (by norm_num), h]
    unfold Cubic.allSet
    rw [hci]
    rfl
  rw [hinit, setTrajCycleTime_of_pos one_pos, hrate]
  refine hall _ ?_
  rw [setServoCycleTime_of_pos (by norm_num)]
  exact hset _

/-! ### A cycle -/

/-- The machine with the periods of operation. -/
noncomputable def Machine.timed (s : Machine ℝ) : Machine ℝ :=
  { s with
    config := { s.config with trajCycleTime := 1, servoCycleTime := 1, interpolationRate := 1 }
    internal := { s.internal with coordTp := { s.internal.coordTp with cycleTime := 1 } }
    axes := fun i => { s.axes i with cubic := (s.axes i).cubic.timed }
    servoPeriod := 1
    lastPeriod := motionThreadPeriod }

theorem emcmotSetCycleTime_thread (s : Machine ℝ) :
    emcmotSetCycleTime s motionThreadPeriod =
      { s with
        config := { s.config with trajCycleTime := 1, servoCycleTime := 1, interpolationRate := 1 }
        internal := { s.internal with coordTp := { s.internal.coordTp with cycleTime := 1 } }
        axes := fun i => { s.axes i with cubic := (s.axes i).cubic.timed } } := by
  have hmult : trajPeriodNsec / motionThreadPeriod = 1 := rfl
  have htraj : ((motionThreadPeriod : Int) : ℝ) * 1e-9 = 1 := by norm_num [motionThreadPeriod, servoPeriodNsec]
  have hrate : truncReal ((1 : ℝ) / 1 + 0.5) = 1 :=
    truncReal_of_mem (by norm_num) (by norm_num) (by norm_num)
  have h : emcmotSetCycleTime s motionThreadPeriod = setServoCycleTime (setTrajCycleTime s 1) 1 := by
    show setServoCycleTime (setTrajCycleTime s (((motionThreadPeriod : Int) : ℝ) * 1e-9))
      (((motionThreadPeriod * (trajPeriodNsec / motionThreadPeriod) : Int) : ℝ) * 1e-9) = _
    rw [hmult, mul_one, htraj]
  rw [h, setTrajCycleTime_of_pos one_pos, setServoCycleTime_of_pos one_pos]
  dsimp only
  rw [hrate]
  simp only [cubicSetSegmentTime_one, timed_cubicSetInterpolationRate]

theorem updatePeriod_thread (s : Machine ℝ) :
    updatePeriod s motionThreadPeriod =
      if s.lastPeriod = motionThreadPeriod then { s with servoPeriod := 1 } else s.timed := by
  have hservo : truncReal (((motionThreadPeriod : Int) : ℝ) * 0.000000001) = 1 :=
    truncReal_of_mem (by norm_num [motionThreadPeriod, servoPeriodNsec])
      (by norm_num [motionThreadPeriod, servoPeriodNsec]) (by norm_num [motionThreadPeriod, servoPeriodNsec])
  have hif : (if Arith.trunc (((motionThreadPeriod : Int) : ℝ) * 0.000000001) < 1 then 1
      else Arith.trunc (((motionThreadPeriod : Int) : ℝ) * 0.000000001)) = 1 := by
    rw [trunc_real, hservo]
    rfl
  unfold updatePeriod
  dsimp only
  rw [hif]
  by_cases h : s.lastPeriod = motionThreadPeriod
  · rw [if_neg (not_not.2 h.symm), if_pos h]
  · rw [if_pos (Ne.symm h), if_neg h, emcmotSetCycleTime_thread]
    rfl

theorem updatePeriod_servoPeriod (s : Machine ℝ) : (updatePeriod s motionThreadPeriod).servoPeriod = 1 := by
  rw [updatePeriod_thread]
  split <;> rfl

end SoemMotion
