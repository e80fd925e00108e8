import SoemMotion.CornerSpeed
import SoemMotion.SegmentMotion
import SoemMotion.Lib.Braking

/-!
# Stopping distance

A cycle of the trapezoidal profile takes its velocity from the root of the braking equation over the cycle, saturates
it three times, and clamps what comes out of it to a velocity that is not negative and a position on the segment.  A
segment that could be braked to its final velocity before the cycle can be braked to it afterwards, so that it still
can after every number of cycles that plan with the same final velocity.
-/

namespace SoemMotion

open Lib

/-! ### Saturation -/

theorem saturate_le_of_pos {x limit : ℝ} (hlimit : 0 ≤ limit) (h : 0 < saturate x limit) : saturate x limit ≤ x := by
  unfold saturate at h ⊢
  split
  · rename_i hhigh
    exact hhigh.le
  · rename_i hhigh
    rw [if_neg hhigh] at h
    split
    · rename_i hlow
      rw [if_pos hlow] at h
      linarith
    · exact le_rfl

theorem abs_saturate_le {x limit : ℝ} (hlimit : 0 ≤ limit) : |saturate x limit| ≤ limit := by
  unfold saturate
  split
  · exact (abs_of_nonneg hlimit).le
  · rename_i hhigh
    split
    · rw [abs_neg, abs_of_nonneg hlimit]
    · rename_i hlow
      exact abs_le.2 ⟨not_lt.1 hlow, not_lt.1 hhigh⟩

/-! ### One cycle -/

/-- A segment on its way, that can still be braked to the velocity `vf` at its end. -/
structure Tc.Stoppable (vf : ℝ) (tc : Tc ℝ) : Prop where
  range : 0 ≤ tc.progress ∧ tc.progress ≤ tc.target
  vel : 0 ≤ tc.currentvel
  accel : 0 < tcGetTangentialMaxAccel tc
  cycle : tpTimeEpsilon ≤ tc.cycleTime
  brakes : Brakes vf (tcGetTangentialMaxAccel tc) (tc.target - tc.progress) tc.currentvel

/-- What a cycle of a segment reads besides the segment. -/
structure CycleInput where
  env : TpEnv ℝ
  tp : Tp ℝ
  nexttc : Option (Tc ℝ)

/-- The acceleration and the desired velocity of the cycle. -/
noncomputable def CycleInput.accel (c : CycleInput) (tc : Tc ℝ) : ℝ × ℝ :=
    tpCalculateTrapezoidalAccel c.env c.tp tc c.nexttc

/-- A forward cycle of the trapezoidal profile towards the final velocity `vf`. -/
structure TrapezoidalCycle (vf : ℝ) (tc : Tc ℝ) (c : CycleInput) (tc' : Tc ℝ) : Prop where
  forward : c.tp.reverseRun = false
  targetVel : 0 ≤ tpGetRealTargetVel c.env c.tp tc
  finalVel : tpGetRealFinalVel c.env c.tp tc c.nexttc = vf
  next : tc' = tcUpdateDistFromAccel tc (c.accel tc).1 (c.accel tc).2 c.tp.reverseRun

/-- The segment does not go back, and what changes is within the limits of one cycle. -/
structure WithinCycle (tc tc' : Tc ℝ) : Prop where
  accel : |tc'.currentvel - tc.currentvel| ≤ tcGetTangentialMaxAccel tc * tc.cycleTime
  onward : tc.progress ≤ tc'.progress
  way : tc'.progress - tc.progress ≤ max tc.currentvel tc'.currentvel * tc.cycleTime

/-- Every velocity up to the desired one can be braked after the cycle. -/
theorem desiredVel_brakes {a d v dt vf w x : ℝ} (ha : 0 < a) (hdt : 0 < dt)
    (hx : (if pmSq (a * dt * 0.5) < pmSq vf + a * (2 * d - v * dt) + pmSq (a * dt * 0.5) then
      -(a * dt * 0.5) + pmSqrt (pmSq vf + a * (2 * d - v * dt) + pmSq (a * dt * 0.5)) else -(a * dt * 0.5)) = x)
    (hw : 0 ≤ w) (hle : w ≤ x) : Brakes vf a (d - (v + w) / 2 * dt) w := by
  have hhalf : a * dt * 0.5 = a * dt / 2 := by ring
  have hpos : 0 < a * dt / 2 := by positivity
  rw [hhalf] at hx
  by_cases hmore : pmSq (a * dt / 2) < pmSq vf + a * (2 * d - v * dt) + pmSq (a * dt / 2)
  · rw [if_pos hmore, pmSqrt_real] at hx
    have hroot : w + a * dt / 2 ≤ Real.sqrt (pmSq vf + a * (2 * d - v * dt) + pmSq (a * dt / 2)) := by linarith
    refine brakes_linear (by linarith) hroot ?_
    rw [Real.sq_sqrt ((mul_self_nonneg _).trans hmore.le), pmSq, pmSq]
    ring
  · rw [if_neg hmore] at hx
    linarith

/-- The acceleration of a cycle is within the limit, and the segment can be braked from the velocity it leads to. -/
theorem TrapezoidalCycle.accel_brakes {vf : ℝ} {tc tc' : Tc ℝ} {c : CycleInput} (hc : TrapezoidalCycle vf tc c tc')
    (h : tc.Stoppable vf) : |(c.accel tc).1| ≤ tcGetTangentialMaxAccel tc ∧
      (0 < tc.currentvel + (c.accel tc).1 * tc.cycleTime → Brakes vf (tcGetTangentialMaxAccel tc)
        (tc.target - tc.progress - (tc.currentvel + (tc.currentvel + (c.accel tc).1 * tc.cycleTime)) / 2 * tc.cycleTime)
        (tc.currentvel + (c.accel tc).1 * tc.cycleTime)) := by
  have hdt : 0 < tc.cycleTime := lt_of_lt_of_le (by unfold tpTimeEpsilon; norm_num) h.cycle
  have hgo : tcGetDistanceToGo tc c.tp.reverseRun = tc.target - tc.progress := by
    rw [hc.forward]
    rfl
  have hmax : fmax tc.cycleTime (tpTimeEpsilon : ℝ) = tc.cycleTime := by rw [fmax_real, max_eq_left h.cycle]
  have htarget := hc.targetVel
  unfold CycleInput.accel tpCalculateTrapezoidalAccel
  dsimp only
  rw [hgo, hmax, hc.finalVel]
  have ha := h.accel
  have hbrakes := h.brakes
  generalize tcGetTangentialMaxAccel tc = a at ha hbrakes ⊢
  generalize hx : (if pmSq (a * tc.cycleTime * 0.5) < pmSq vf +
      a * (2 * (tc.target - tc.progress) - tc.currentvel * tc.cycleTime) +
      pmSq (a * tc.cycleTime * 0.5) then _ else _) = x
  obtain ⟨newvel, hnew⟩ : ∃ newvel, saturate x (tpGetRealTargetVel c.env c.tp tc) = newvel := ⟨_, rfl⟩
  have hbelow : 0 < newvel → newvel ≤ x := by
    rw [← hnew]
    exact saturate_le_of_pos htarget
  rw [hnew]
  have hstep : (newvel - tc.currentvel) / tc.cycleTime * tc.cycleTime = newvel - tc.currentvel :=
    div_mul_cancel₀ _ hdt.ne'
  refine ⟨abs_saturate_le ha.le, fun hpos => ?_⟩
  unfold saturate at hpos ⊢
  split
  · -- the desired velocity is out of reach within the cycle
    rename_i hhigh
    rw [if_pos hhigh] at hpos
    have hreach : a * tc.cycleTime < newvel - tc.currentvel := by
      rw [← hstep]
      exact mul_lt_mul_of_pos_right hhigh hdt
    exact desiredVel_brakes ha hdt hx hpos.le (by linarith [hbelow (by linarith)])
  · rename_i hhigh
    rw [if_neg hhigh] at hpos
    split
    · rename_i hlow
      rw [neg_mul, ← sub_eq_add_neg]
      exact hbrakes.decel
    · rename_i hlow
      rw [if_neg hlow, hstep, add_sub_cancel] at hpos
      rw [hstep, add_sub_cancel]
      exact desiredVel_brakes ha hdt hx hpos.le (hbelow hpos)

/-- A cycle keeps the stopping distance and stays within its limits. -/
theorem TrapezoidalCycle.keeps {vf : ℝ} {tc tc' : Tc ℝ} {c : CycleInput} (hc : TrapezoidalCycle vf tc c tc')
    (h : tc.Stoppable vf) : tc'.Stoppable vf ∧ WithinCycle tc tc' := by
  have hdt : 0 < tc.cycleTime := lt_of_lt_of_le (by unfold tpTimeEpsilon; norm_num) h.cycle
  obtain ⟨haccel, hbrakes⟩ := hc.accel_brakes h
  have hvel := h.vel
  have ha := h.accel
  have hnext := hc.next
  rw [hc.forward] at hnext
  have hforward := tcUpdateDistFromAccel_forward (c.accel tc).1 (c.accel tc).2 h.range (.inl ⟨hvel, hdt.le⟩)
  rw [← hnext] at hforward
  have hkept : tcGetTangentialMaxAccel tc' = tcGetTangentialMaxAccel tc ∧ tc'.target = tc.target ∧
      tc'.cycleTime = tc.cycleTime := by
    obtain ⟨progress, currentvel, onFinalDecel, heq⟩ :=
      tcUpdateDistFromAccel_eq tc (c.accel tc).1 (c.accel tc).2 false
    rw [hnext, heq]
    exact ⟨rfl, rfl, rfl⟩
  have hslow : |(c.accel tc).1 * tc.cycleTime| ≤ tcGetTangentialMaxAccel tc * tc.cycleTime := by
    rw [abs_mul, abs_of_pos hdt]
    exact mul_le_mul_of_nonneg_right haccel hdt.le
  have hleft : 0 ≤ tc'.target - tc'.progress := by
    rw [hkept.2.1]
    exact sub_nonneg.2 hforward.target
  -- it remains to look at the velocity, and at the way where it is not clamped
  suffices hmove : Brakes vf (tcGetTangentialMaxAccel tc) (tc'.target - tc'.progress) tc'.currentvel ∧
      |tc'.currentvel - tc.currentvel| ≤ tcGetTangentialMaxAccel tc * tc.cycleTime ∧
        tc'.progress - tc.progress ≤ max tc.currentvel tc'.currentvel * tc.cycleTime by
    refine ⟨⟨⟨h.range.1.trans hforward.progress, sub_nonneg.1 hleft⟩, hforward.vel, hkept.1 ▸ ha, hkept.2.2 ▸ h.cycle,
      ?_⟩, hmove.2.1, hforward.progress, hmove.2.2⟩
    rw [hkept.1]
    exact hmove.1
  by_cases hneg : tc.currentvel + (c.accel tc).1 * tc.cycleTime < 0
  · have hstopped : tc'.currentvel = 0 ∧ (tc'.progress = tc.progress ∨
        tc'.progress = tc.target ∧ tc.target - tc.progress < tc.currentvel * tc.cycleTime) := by
      obtain ⟨progress, onFinalDecel, hway, heq⟩ := tcUpdateDistFromAccel_stops hneg (c.accel tc).2
      rw [hnext, heq]
      exact ⟨rfl, hway⟩
    obtain ⟨hzero, hway⟩ := hstopped
    rw [hzero, max_eq_left hvel, zero_sub, abs_neg, abs_of_nonneg hvel]
    refine ⟨brakes_zero ha.le hleft, ?_, ?_⟩
    · linarith [(abs_le.1 hslow).1]
    · rcases hway with hkeep | ⟨hjump, hnear⟩
      · rw [hkeep, sub_self]
        exact mul_nonneg hvel hdt.le
      · rw [hjump]
        exact hnear.le
  · have hnonneg := not_lt.1 hneg
    obtain ⟨w, hw⟩ : ∃ w, tc.currentvel + (c.accel tc).1 * tc.cycleTime = w := ⟨_, rfl⟩
    have hmoved : tc'.currentvel = w ∧
        tc'.progress = max 0 (min (tc.progress + (tc.currentvel + w) / 2 * tc.cycleTime) tc.target) := by
      obtain ⟨onFinalDecel, heq⟩ :=
        tcUpdateDistFromAccel_moves hnonneg (h.range.1.trans h.range.2) (c.accel tc).2
      rw [hnext, heq, hw]
      exact ⟨rfl, rfl⟩
    rw [hw] at hnonneg hbrakes
    have hway : tc'.progress ≤ tc.progress + (tc.currentvel + w) / 2 * tc.cycleTime := by
      have hway₀ : 0 ≤ tc.progress + (tc.currentvel + w) / 2 * tc.cycleTime :=
        add_nonneg h.range.1 (mul_nonneg (by linarith) hdt.le)
      rw [hmoved.2]
      exact max_le hway₀ (min_le_left _ _)
    rw [hmoved.1]
    refine ⟨?_, ?_, ?_⟩
    · rcases hnonneg.eq_or_lt with hzero | hpos
      · rw [← hzero]
        exact brakes_zero ha.le hleft
      · refine (hbrakes hpos).of_le ha.le ?_
        rw [hkept.2.1]
        linarith
    · rw [← hw, add_sub_cancel_left]
      exact hslow
    · have hmean : (tc.currentvel + w) / 2 ≤ max tc.currentvel w := by
        linarith [le_max_left tc.currentvel w, le_max_right tc.currentvel w]
      have := mul_le_mul_of_nonneg_right hmean hdt.le
      linarith

/-- A forward segment that can be braked to the final velocity can be braked to it after any number of cycles that plan
with that final velocity, and no cycle moves it back, or changes its velocity or its place by more than it may. -/
theorem stoppingDistance_kept {vf : ℝ} {tc tc' : Tc ℝ} (h : tc.Stoppable vf)
    (hrun : Reaches (TrapezoidalCycle vf) tc tc') :
    tc'.Stoppable vf ∧ ∀ c tc'', TrapezoidalCycle vf tc' c tc'' → tc''.Stoppable vf ∧ WithinCycle tc' tc'' := by
  have hkept := hrun.invariant (I := Tc.Stoppable vf) (fun _ _ _ hs hc => (hc.keeps hs).1) h
  exact ⟨hkept, fun _ _ hc => hc.keeps hkept⟩

/-- A line of four units that ends with a stop, at full speed. -/
noncomputable def stoppingLine : Tc ℝ :=
  { zeroTc with target := 4, maxvel := 2, reqvel := 4, maxaccel := 1, cycleTime := 1, currentvel := 2, termCond := .stop }

/-- A cycle of it. -/
noncomputable def stoppingInput : CycleInput := ⟨plainEnv, { zeroTp with vLimit := 4 }, none⟩

/-- A cycle of a line at full speed. -/
theorem stoppingDistance_kept_line : (tcUpdateDistFromAccel stoppingLine (stoppingInput.accel stoppingLine).1
    (stoppingInput.accel stoppingLine).2 false).Stoppable 0 := by
  have haccel : tcGetTangentialMaxAccel stoppingLine = 1 := by
    show tcGetOverallMaxAccel stoppingLine = 1
    norm_num [tcGetOverallMaxAccel, stoppingLine, zeroTc, tcInit, fmax_real, show ¬ TermCond.stop =
      TermCond.parabolic by decide]
  have hstart : stoppingLine.Stoppable 0 := by
    refine ⟨?_, ?_, ?_, ?_, ?_⟩
    · norm_num [stoppingLine, zeroTc, tcInit]
    · norm_num [stoppingLine]
    · rw [haccel]
      norm_num
    · norm_num [stoppingLine, tpTimeEpsilon]
    · rw [haccel]
      norm_num [Brakes, stoppingLine, zeroTc, tcInit]
  have hcycle : TrapezoidalCycle 0 stoppingLine stoppingInput (tcUpdateDistFromAccel stoppingLine
      (stoppingInput.accel stoppingLine).1 (stoppingInput.accel stoppingLine).2 false) := by
    refine ⟨rfl, ?_, rfl, rfl⟩
    norm_num [tpGetRealTargetVel, tpGetMaxTargetVel, tcGetMaxTargetVel, stoppingLine, stoppingInput, zeroTc, tcInit,
      fmin_real, zeroTp, plainEnv, tpGetFeedScale]
  exact (stoppingDistance_kept hstart ((Reaches.refl _).tail hcycle)).1

end SoemMotion
