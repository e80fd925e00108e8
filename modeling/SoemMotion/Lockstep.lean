import SoemMotion.LoopExit

/-!
# Interpolators in lockstep

In coordinated mode the interpolator of axis 0 decides when the planner yields a point, and the point is offered to
every active axis; an interpolator in the middle of a segment refuses it.  The relational invariant is `InStep`: the
active axes all ask for a point, or they are all at the same time of a segment.  A cycle in coordinated mode keeps it.
-/

namespace SoemMotion

variable {K : Type} [Arith K]

/-! ### Settings and progress of an interpolator -/

/-- What `configured`, the segment time and the rate determine. -/
structure CubicSettings (K : Type) where
  segmentTimeSet : Bool
  interpolationRateSet : Bool
  segmentTime : K
  interpolationRate : Int
  interpolationIncrement : K

def Cubic.settings (ci : Cubic K) : CubicSettings K :=
  ⟨ci.segmentTimeSet, ci.interpolationRateSet, ci.segmentTime, ci.interpolationRate, ci.interpolationIncrement⟩

/-- The test of `cubicAddPoint`. -/
def Cubic.takes (ci : Cubic K) : Bool := ci.allSet && ci.needNextPoint

/-- The same request, fill and time. -/
def Cubic.SameProgress (ci ci' : Cubic K) : Prop :=
  ci'.needNextPoint = ci.needNextPoint ∧ ci'.filled = ci.filled ∧ ci'.interpolationTime = ci.interpolationTime

omit [Arith K] in
theorem allSet_of_settings {ci ci' : Cubic K} (h : ci.settings = ci'.settings) : ci.allSet = ci'.allSet := by
  have h1 := congrArg CubicSettings.segmentTimeSet h
  have h2 := congrArg CubicSettings.interpolationRateSet h
  change ci.segmentTimeSet = ci'.segmentTimeSet at h1
  change ci.interpolationRateSet = ci'.interpolationRateSet at h2
  rw [Cubic.allSet, Cubic.allSet, h1, h2]

theorem setIncrement_progress (ci : Cubic K) : ci.SameProgress ci.setIncrement := by
  unfold Cubic.setIncrement
  split <;> exact ⟨rfl, rfl, rfl⟩

theorem setIncrement_settings {ci ci' : Cubic K} (h : ci.settings = ci'.settings) :
    ci.setIncrement.settings = ci'.setIncrement.settings := by
  have hset := allSet_of_settings h
  simp only [Cubic.settings, CubicSettings.mk.injEq] at h
  obtain ⟨h1, h2, h3, h4, h5⟩ := h
  unfold Cubic.setIncrement
  rw [hset]
  split
  · simp only [Cubic.settings, h1, h2, h3, h4]
  · simp only [Cubic.settings, h1, h2, h3, h4, h5]

theorem cubicSetSegmentTime_progress (ci : Cubic K) (time : K) : ci.SameProgress (cubicSetSegmentTime ci time) := by
  unfold cubicSetSegmentTime
  split
  · exact ⟨rfl, rfl, rfl⟩
  · exact setIncrement_progress _

theorem cubicSetSegmentTime_settings {ci ci' : Cubic K} (h : ci.settings = ci'.settings) (time : K) :
    (cubicSetSegmentTime ci time).settings = (cubicSetSegmentTime ci' time).settings := by
  unfold cubicSetSegmentTime
  split
  · exact h
  · refine setIncrement_settings ?_
    simp only [Cubic.settings, CubicSettings.mk.injEq] at h ⊢
    exact ⟨trivial, h.2.1, trivial, h.2.2.2.1, h.2.2.2.2⟩

theorem cubicSetInterpolationRate_progress (ci : Cubic K) (rate : Int) :
    ci.SameProgress (cubicSetInterpolationRate ci rate) := by
  unfold cubicSetInterpolationRate
  split
  · exact ⟨rfl, rfl, rfl⟩
  · exact setIncrement_progress _

theorem cubicSetInterpolationRate_settings {ci ci' : Cubic K} (h : ci.settings = ci'.settings) (rate : Int) :
    (cubicSetInterpolationRate ci rate).settings = (cubicSetInterpolationRate ci' rate).settings := by
  unfold cubicSetInterpolationRate
  split
  · exact h
  · refine setIncrement_settings ?_
    simp only [Cubic.settings, CubicSettings.mk.injEq] at h ⊢
    exact ⟨h.1, trivial, h.2.2.1, trivial, h.2.2.2.2⟩

omit [Arith K] in
theorem Cubic.SameProgress.trans {a b c : Cubic K} (h : a.SameProgress b) (h' : b.SameProgress c) : a.SameProgress c :=
  ⟨h'.1.trans h.1, h'.2.1.trans h.2.1, h'.2.2.trans h.2.2⟩

/-- A point that is taken starts a new segment. -/
theorem cubicAddPoint_taken {ci : Cubic K} (h : ci.takes = true) (point : K) :
    (cubicAddPoint ci point).needNextPoint = false ∧ (cubicAddPoint ci point).filled = true ∧
      (cubicAddPoint ci point).interpolationTime = 0 ∧ (cubicAddPoint ci point).settings = ci.settings := by
  have hadd : cubicAddPoint ci point = (ci.shift point).refit := if_pos h
  rw [hadd]
  refine ⟨rfl, ?_, rfl, ?_⟩
  · show (ci.shift point).filled = true
    unfold Cubic.shift
    split
    · assumption
    · rfl
  · show (ci.shift point).settings = _
    unfold Cubic.shift
    split <;> rfl

/-- A step inside a segment. -/
theorem cubicInterpolate_inside {ci : Cubic K} (hset : ci.allSet = true) (hneed : ci.needNextPoint = false) :
    (cubicInterpolate ci).1.needNextPoint =
        decide (fabs (ci.segmentTime - (ci.interpolationTime + ci.interpolationIncrement)) <
          0.5 * ci.interpolationIncrement) ∧
      (cubicInterpolate ci).1.filled = ci.filled ∧
      (cubicInterpolate ci).1.interpolationTime = ci.interpolationTime + ci.interpolationIncrement ∧
      (cubicInterpolate ci).1.settings = ci.settings := by
  unfold cubicInterpolate
  rw [if_pos hset, hneed]
  dsimp only
  rw [if_neg Bool.false_ne_true]
  refine ⟨?_, rfl, rfl, rfl⟩
  by_cases h : fabs (ci.segmentTime - (ci.interpolationTime + ci.interpolationIncrement)) <
      0.5 * ci.interpolationIncrement
  · rw [if_pos h, decide_eq_true h]
  · rw [if_neg h, decide_eq_false h, hneed]

/-! ### The invariant -/

/-- The axes of a machine between two cycles: the interpolators are configured alike, an inactive one is empty, and the
active ones all ask for a point or are all at one time inside a segment, axis 0 among them. -/
structure Machine.InStep (s : Machine K) : Prop where
  settings : ∀ i, (s.axes i).cubic.settings = (s.axes 0).cubic.settings
  configured : (s.axes 0).cubic.allSet = true
  idle : ∀ i, (s.axes i).flag.active = false →
    (s.axes i).cubic.needNextPoint = true ∧ (s.axes i).cubic.filled = false
  progress : (∀ i, (s.axes i).flag.active = true → (s.axes i).cubic.needNextPoint = true) ∨
    (s.axes 0).flag.active = true ∧ ∃ time, ∀ i, (s.axes i).flag.active = true →
      (s.axes i).cubic.needNextPoint = false ∧ (s.axes i).cubic.filled = true ∧
        (s.axes i).cubic.interpolationTime = time

omit [Arith K] in
theorem Machine.InStep.allSet {s : Machine K} (h : s.InStep) (i : Fin 3) : (s.axes i).cubic.allSet = true :=
  (allSet_of_settings (h.settings i)).trans h.configured

omit [Arith K] in
/-- A machine with the same flags whose interpolators are configured alike and have the same progress, or have all been
drained. -/
theorem Machine.InStep.of_progress {s t : Machine K} (h : s.InStep)
    (hact : ∀ i, (t.axes i).flag.active = (s.axes i).flag.active)
    (hset : ∀ i, (t.axes i).cubic.settings = (t.axes 0).cubic.settings) (hconf : (t.axes 0).cubic.allSet = true)
    (hprog : (∀ i, (s.axes i).cubic.SameProgress (t.axes i).cubic) ∨
      ∀ i, (t.axes i).cubic.needNextPoint = true ∧ (t.axes i).cubic.filled = false) : t.InStep := by
  refine ⟨hset, hconf, ?_, ?_⟩
  · intro i hi
    rcases hprog with hsame | hdrained
    · obtain ⟨hneed, hfilled⟩ := h.idle i (hact i ▸ hi)
      exact ⟨(hsame i).1.trans hneed, (hsame i).2.1.trans hfilled⟩
    · exact hdrained i
  · rcases hprog with hsame | hdrained
    · rcases h.progress with hask | ⟨h0, time, hmid⟩
      · exact .inl fun i hi => (hsame i).1.trans (hask i (hact i ▸ hi))
      · refine .inr ⟨(hact 0).trans h0, time, fun i hi => ?_⟩
        obtain ⟨hneed, hfilled, htime⟩ := hmid i (hact i ▸ hi)
        exact ⟨(hsame i).1.trans hneed, (hsame i).2.1.trans hfilled, (hsame i).2.2.trans htime⟩
    · exact .inl fun i _ => (hdrained i).1

/-! ### A cycle -/

/-- New periods change the settings of all interpolators alike and the progress of none. -/
theorem updatePeriod_cubic (s : Machine K) (period : Int)
    (hset : ∀ i, (s.axes i).cubic.settings = (s.axes 0).cubic.settings) :
    (∀ i, ((updatePeriod s period).axes i).cubic.settings = ((updatePeriod s period).axes 0).cubic.settings) ∧
      ∀ i, (s.axes i).cubic.SameProgress ((updatePeriod s period).axes i).cubic := by
  have htraj : ∀ (u : Machine K) (secs : K), (∀ i, (u.axes i).cubic.settings = (u.axes 0).cubic.settings) →
      (∀ i, ((setTrajCycleTime u secs).axes i).cubic.settings = ((setTrajCycleTime u secs).axes 0).cubic.settings) ∧
        ∀ i, (u.axes i).cubic.SameProgress ((setTrajCycleTime u secs).axes i).cubic := by
    intro u secs hu
    unfold setTrajCycleTime
    split
    · exact ⟨hu, fun _ => ⟨rfl, rfl, rfl⟩⟩
    · exact ⟨fun i => cubicSetInterpolationRate_settings (hu i) _, fun _ => cubicSetInterpolationRate_progress _ _⟩
  have hservo : ∀ (u : Machine K) (secs : K), (∀ i, (u.axes i).cubic.settings = (u.axes 0).cubic.settings) →
      (∀ i, ((setServoCycleTime u secs).axes i).cubic.settings = ((setServoCycleTime u secs).axes 0).cubic.settings) ∧
        ∀ i, (u.axes i).cubic.SameProgress ((setServoCycleTime u secs).axes i).cubic := by
    intro u secs hu
    unfold setServoCycleTime
    split
    · exact ⟨hu, fun _ => ⟨rfl, rfl, rfl⟩⟩
    · exact ⟨fun i => cubicSetSegmentTime_settings (cubicSetInterpolationRate_settings (hu i) _) _,
        fun _ => (cubicSetInterpolationRate_progress _ _).trans (cubicSetSegmentTime_progress _ _)⟩
  have hcycle : ∀ u : Machine K, (∀ i, (u.axes i).cubic.settings = (u.axes 0).cubic.settings) →
      (∀ i, ((emcmotSetCycleTime u period).axes i).cubic.settings =
        ((emcmotSetCycleTime u period).axes 0).cubic.settings) ∧
      ∀ i, (u.axes i).cubic.SameProgress ((emcmotSetCycleTime u period).axes i).cubic := by
    intro u hu
    obtain ⟨h1, h2⟩ := htraj u _ hu
    obtain ⟨h3, h4⟩ := hservo _ _ h1
    exact ⟨h3, fun i => (h2 i).trans (h4 i)⟩
  unfold updatePeriod
  dsimp only
  split
  · exact hcycle { s with servoPeriod := _ } hset
  · exact ⟨hset, fun _ => ⟨rfl, rfl, rfl⟩⟩

/-- `set_operating_mode` drains all interpolators or none. -/
theorem setOperatingMode_drain (s : Machine K) :
    (∀ i, ((setOperatingMode s).axes i).cubic = (s.axes i).cubic) ∨
      ∀ i, ((setOperatingMode s).axes i).cubic = cubicDrain (s.axes i).cubic := by
  have hdrain : ∀ u v : Machine K, ((∀ i, (u.axes i).cubic = (s.axes i).cubic) ∨
      ∀ i, (u.axes i).cubic = cubicDrain (s.axes i).cubic) →
      (∀ i, (v.axes i).cubic = cubicDrain (u.axes i).cubic) →
      ∀ i, (v.axes i).cubic = cubicDrain (s.axes i).cubic := by
    intro u v h hv i
    rcases h with h | h
    · rw [hv, h]
    · rw [hv, h]
      rfl
  have hkept : KeptByModes fun u : Machine K => (∀ i, (u.axes i).cubic = (s.axes i).cubic) ∨
      ∀ i, (u.axes i).cubic = cubicDrain (s.axes i).cubic :=
    ⟨fun u h => .inr (hdrain u _ h fun _ => rfl), fun _ h => h, fun u _ h => .inr (hdrain u _ h fun _ => rfl),
      fun _ h => h, fun _ h => h, fun _ h => h, fun _ h => h⟩
  exact hkept.setOperatingMode (.inl fun _ => rfl)

theorem controllerFront_active (s : Machine K) (inp : Inputs) (period : Int) (i : Fin 3) :
    ((controllerFront s inp period).axes i).flag.active = (s.axes i).flag.active :=
  ((controllerFront_cycleKeeps s inp period).axis i).active

/-- The cycle comes to its loop with the axes in step. -/
theorem controllerFront_inStep {s : Machine K} (h : s.InStep) (inp : Inputs) (period : Int) :
    (controllerFront s inp period).InStep := by
  obtain ⟨hset, hprog⟩ := updatePeriod_cubic s period h.settings
  have hconf : ((updatePeriod s period).axes 0).cubic.allSet = true :=
    updatePeriod_configured (fun i => h.allSet i) period 0
  rcases setOperatingMode_drain (checkForFaults (sampled s inp period)) with hkeep | hdrain
  · have hcubic : ∀ i, ((controllerFront s inp period).axes i).cubic = ((updatePeriod s period).axes i).cubic :=
      fun i => (hkeep i).trans (checked_cubic s inp period i)
    refine h.of_progress (controllerFront_active s inp period) ?_ ?_ (.inl ?_)
    · intro i
      rw [hcubic, hcubic]
      exact hset i
    · rw [hcubic]
      exact hconf
    · intro i
      rw [hcubic]
      exact hprog i
  · have hcubic : ∀ i, ((controllerFront s inp period).axes i).cubic =
        cubicDrain ((updatePeriod s period).axes i).cubic :=
      fun i => (hdrain i).trans (congrArg cubicDrain (checked_cubic s inp period i))
    refine h.of_progress (controllerFront_active s inp period) ?_ ?_ (.inr ?_)
    · intro i
      rw [hcubic, hcubic]
      exact hset i
    · rw [hcubic]
      exact hconf
    · intro i
      rw [hcubic]
      exact ⟨rfl, rfl⟩

/-- The loop makes no turn, or one in which axis 0 takes the point. -/
theorem coordLoop_result {inp : Inputs} {fuel : Nat} {s w : Machine K}
    (h : Lib.whileFuel needNextPoint (coordFeed inp) fuel s = some w) :
    needNextPoint s = false ∧ w = s ∨ needNextPoint s = true ∧ s.TakesPoint ∧ w = coordFeed inp s := by
  rcases (coordLoop_exits_iff inp s).1 ⟨fuel, w, h⟩ with hno | htakes
  · exact .inl ⟨hno, Lib.eq_of_whileFuel_false hno h⟩
  · cases hneed : needNextPoint s with
    | false => exact .inl ⟨rfl, Lib.eq_of_whileFuel_false hneed h⟩
    | true =>
      have hdone : needNextPoint (coordFeed inp s) = false := by
        rw [coordFeed_needNextPoint, htakes.1, htakes.2]
        simp
      exact .inr ⟨rfl, htakes, Lib.eq_of_whileFuel_once hneed hdone h⟩

/-- What lockstep asks of a cycle from `u` to `t`: a point the planner yields is taken by all active axes or by none,
no active axis interpolates while its interpolator is empty, and afterwards the active axes agree on the request for a
point and on the time. -/
structure InLockstep (inp : Inputs) (period : Int) (fuel : Nat) (u t : Machine K) : Prop where
  accepted : needNextPoint (controllerFront u inp period) = true → ∀ i j, (u.axes i).flag.active = true →
    (u.axes j).flag.active = true → ((controllerFront u inp period).axes i).cubic.takes =
      ((controllerFront u inp period).axes j).cubic.takes
  filled : ∀ w, Lib.whileFuel needNextPoint (coordFeed inp) fuel (coordBegin (controllerFront u inp period)) = some w →
    ∀ i, (w.axes i).flag.active = true → (w.axes i).cubic.filled = true
  need : ∀ i j, (t.axes i).flag.active = true → (t.axes j).flag.active = true →
    (t.axes i).cubic.needNextPoint = (t.axes j).cubic.needNextPoint
  time : ∀ i j, (t.axes i).flag.active = true → (t.axes j).flag.active = true →
    (t.axes i).cubic.interpolationTime = (t.axes j).cubic.interpolationTime

/-- The loop leaves the active axes inside a segment, all at the same time. -/
theorem coordLoop_inside {inp : Inputs} {fuel : Nat} {s w : Machine K} (h : s.InStep)
    (hw : Lib.whileFuel needNextPoint (coordFeed inp) fuel s = some w) :
    (w.axes 0).flag.active = true ∧ (∀ i, (w.axes i).flag.active = (s.axes i).flag.active) ∧
      (∀ i, (w.axes i).cubic.settings = (s.axes 0).cubic.settings) ∧
      (∀ i, (w.axes i).flag.active = false → (w.axes i).cubic = (s.axes i).cubic) ∧
      ∃ time, ∀ i, (w.axes i).flag.active = true → (w.axes i).cubic.needNextPoint = false ∧
        (w.axes i).cubic.filled = true ∧ (w.axes i).cubic.interpolationTime = time := by
  -- the loop ends at once, or after one point for every axis
  rcases coordLoop_result hw with ⟨hno, rfl⟩ | ⟨hneed, htakes, rfl⟩
  · have h0 : (w.axes 0).flag.active = true := by
      by_contra hoff
      have hidle := (h.idle 0 (Bool.eq_false_iff.2 hoff)).1
      exact Bool.false_ne_true (hno.symm.trans hidle)
    refine ⟨h0, fun _ => rfl, h.settings, fun _ _ => rfl, ?_⟩
    rcases h.progress with hask | ⟨-, hmid⟩
    · exact absurd (hno.symm.trans (hask 0 h0)) Bool.false_ne_true
    · exact hmid
  · have hask : ∀ i, (s.axes i).flag.active = true → (s.axes i).cubic.takes = true := by
      intro i hi
      rcases h.progress with hask | ⟨h0, time, hmid⟩
      · rw [Cubic.takes, h.allSet i, hask i hi]
        rfl
      · exact absurd ((hmid 0 h0).1.symm.trans hneed) Bool.false_ne_true
    have hflag : ∀ i, ((coordFeed inp s).axes i).flag = (s.axes i).flag := coordFeed_flag inp s
    have hcubic : ∀ i, ∃ point, ((coordFeed inp s).axes i).cubic =
        if (s.axes i).flag.active then cubicAddPoint (s.axes i).cubic point else (s.axes i).cubic :=
      fun i => ⟨_, feedAxis_cubic (s.axes i) _⟩
    refine ⟨by rw [hflag]; exact htakes.1, fun i => by rw [hflag], ?_, ?_, 0, ?_⟩
    · intro i
      obtain ⟨point, hpoint⟩ := hcubic i
      rw [hpoint, ← h.settings i]
      split
      · rename_i hi
        exact (cubicAddPoint_taken (hask i hi) point).2.2.2
      · rfl
    · intro i hi
      obtain ⟨point, hpoint⟩ := hcubic i
      rw [hflag] at hi
      rw [hpoint, hi]
      rfl
    · intro i hi
      obtain ⟨point, hpoint⟩ := hcubic i
      rw [hflag] at hi
      obtain ⟨h1, h2, h3, -⟩ := cubicAddPoint_taken (hask i hi) point
      rw [hpoint, if_pos hi]
      exact ⟨h1, h2, h3⟩

/-- The axes at the end of a coordinated cycle, from those after its loop. -/
theorem coordCycle_axes {inp : Inputs} {period : Int} {fuel : Nat} {u t : Machine K}
    (hst : (controllerFront u inp period).status.motionState = .coord)
    (h : emcmotController u inp period fuel = some t) :
    ∃ w, Lib.whileFuel needNextPoint (coordFeed inp) fuel (coordBegin (controllerFront u inp period)) = some w ∧
      ∀ i, (t.axes i).flag.active = (w.axes i).flag.active ∧ (t.axes i).cubic = (interpolateAxis (w.axes i)).cubic := by
  unfold emcmotController getPosCmds planPositions at h
  rw [hst] at h
  obtain ⟨v, hv, rfl⟩ := Option.map_eq_some_iff.1 h
  obtain ⟨v', hv', rfl⟩ := Option.map_eq_some_iff.1 hv
  obtain ⟨w, hw, rfl⟩ := Option.map_eq_some_iff.1 hv'
  refine ⟨w, hw, fun i => ?_⟩
  obtain ⟨pos, hpos⟩ := cycleEnd_axes (coordEnd w) inp i
  rw [hpos]
  exact ⟨congrArg AxisFlag.active (interpolateAxis_flag (w.axes i)), rfl⟩

/-- A cycle that finds the axes in step keeps them in lockstep. -/
theorem emcmotController_inStep {inp : Inputs} {period : Int} {fuel : Nat} {u t : Machine K} (hu : u.InStep)
    (hst : (controllerFront u inp period).status.motionState = .coord)
    (h : emcmotController u inp period fuel = some t) : t.InStep ∧ InLockstep inp period fuel u t := by
  have hf := controllerFront_inStep hu inp period
  have hbegin : (coordBegin (controllerFront u inp period)).InStep := ⟨hf.settings, hf.configured, hf.idle, hf.progress⟩
  obtain ⟨w, hw, ht⟩ := coordCycle_axes hst h
  obtain ⟨h0, hact, hset, hidle, time, hin⟩ := coordLoop_inside hbegin hw
  have hsettings : ∀ i, (w.axes i).cubic.settings = (w.axes 0).cubic.settings := fun i => (hset i).trans (hset 0).symm
  have hall : ∀ i, (w.axes i).cubic.allSet = true := fun i =>
    (allSet_of_settings (hset i)).trans hbegin.configured
  have hoff : ∀ i, (w.axes i).flag.active = false → (t.axes i).cubic = (w.axes i).cubic := by
    intro i hi
    rw [(ht i).2, interpolateAxis, hi]
    rfl
  have hon : ∀ i, (w.axes i).flag.active = true → (t.axes i).cubic = (cubicInterpolate (w.axes i).cubic).1 := by
    intro i hi
    rw [(ht i).2, interpolateAxis, hi]
    rfl
  -- same settings and same times, so the axes come to the end of their segments together
  obtain ⟨need, tend, hend⟩ : ∃ need tend, ∀ i, (w.axes i).flag.active = true →
      (t.axes i).cubic.needNextPoint = need ∧ (t.axes i).cubic.filled = true ∧
        (t.axes i).cubic.interpolationTime = tend ∧ (t.axes i).cubic.settings = (w.axes i).cubic.settings := by
    refine ⟨decide (fabs ((w.axes 0).cubic.segmentTime - (time + (w.axes 0).cubic.interpolationIncrement)) <
      0.5 * (w.axes 0).cubic.interpolationIncrement), time + (w.axes 0).cubic.interpolationIncrement, fun i hi => ?_⟩
    obtain ⟨hneed, hfilled, htime⟩ := hin i hi
    obtain ⟨h1, h2, h3, h4⟩ := cubicInterpolate_inside (hall i) hneed
    have hsame := hsettings i
    simp only [Cubic.settings, CubicSettings.mk.injEq] at hsame
    rw [htime, hsame.2.2.1, hsame.2.2.2.2] at h1
    rw [htime, hsame.2.2.2.2] at h3
    rw [hon i hi]
    exact ⟨h1, h2.trans hfilled, h3, h4⟩
  have hkept : ∀ i, (t.axes i).cubic.settings = (w.axes i).cubic.settings := by
    intro i
    cases hi : (w.axes i).flag.active with
    | false => rw [hoff i hi]
    | true => exact (hend i hi).2.2.2
  have hact' : ∀ i, (t.axes i).flag.active = (w.axes i).flag.active := fun i => (ht i).1
  refine ⟨⟨fun i => ?_, ?_, fun i hi => ?_, ?_⟩, ⟨?_, ?_, ?_, ?_⟩⟩
  · rw [hkept, hkept, hsettings]
  · rw [allSet_of_settings (hkept 0)]
    exact hall 0
  · rw [hact'] at hi
    rw [hoff i hi, hidle i hi]
    exact hbegin.idle i (hact i ▸ hi)
  · cases need with
    | true => exact .inl fun i hi => (hend i (hact' i ▸ hi)).1
    | false =>
      refine .inr ⟨(hact' 0).trans h0, tend, fun i hi => ?_⟩
      obtain ⟨h1, h2, h3, -⟩ := hend i (hact' i ▸ hi)
      exact ⟨h1, h2, h3⟩
  · intro hneed i j hi hj
    have hask : ∀ k, (u.axes k).flag.active = true → ((controllerFront u inp period).axes k).cubic.takes = true := by
      intro k hk
      have hk' := (controllerFront_active u inp period k).trans hk
      rcases hf.progress with hask | ⟨hf0, time, hmid⟩
      · rw [Cubic.takes, hf.allSet k, hask k hk']
        rfl
      · exact absurd ((hmid 0 hf0).1.symm.trans hneed) Bool.false_ne_true
    rw [hask i hi, hask j hj]
  · intro w' hw' i hi
    obtain ⟨-, -, -, -, _, hin'⟩ := coordLoop_inside hbegin hw'
    exact (hin' i hi).2.1
  · intro i j hi hj
    rw [(hend i (hact' i ▸ hi)).1, (hend j (hact' j ▸ hj)).1]
  · intro i j hi hj
    rw [(hend i (hact' i ▸ hi)).2.2.1, (hend j (hact' j ▸ hj)).2.2.1]

end SoemMotion
