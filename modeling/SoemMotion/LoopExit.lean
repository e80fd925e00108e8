import SoemMotion.FaultStop
import SoemMotion.Timing

/-!
# The loop that feeds the interpolators

In coordinated mode the controller runs the planner for as long as the interpolator of axis 0 asks for a point.  A turn
of the loop gives points to the active axes only, so the loop exits exactly when there is nothing to ask for or axis 0
is active and its interpolator configured.
-/

namespace SoemMotion

variable {K : Type} [Arith K]

/-! ### The loop -/

/-- A point for axis 0 is taken. -/
def Machine.TakesPoint (s : Machine K) : Prop :=
  (s.axes 0).flag.active = true ∧ (s.axes 0).cubic.allSet = true

theorem feedAxis_cubic (axis : Axis K) (point : Int) :
    (feedAxis axis point).cubic = if axis.flag.active then cubicAddPoint axis.cubic (point : K) else axis.cubic := by
  unfold feedAxis
  cases axis.flag.active <;> rfl

theorem coordFeed_needNextPoint (inp : Inputs) (s : Machine K) :
    needNextPoint (coordFeed inp s) =
      (needNextPoint s && !((s.axes 0).flag.active && (s.axes 0).cubic.allSet)) := by
  show ((feedAxis (s.axes 0) _).cubic).needNextPoint = ((s.axes 0).cubic.needNextPoint && _)
  rw [feedAxis_cubic]
  cases (s.axes 0).flag.active with
  | false => simp
  | true =>
    rw [if_pos rfl, cubicAddPoint_needNextPoint]
    rfl

theorem coordFeed_allSet (inp : Inputs) (s : Machine K) (i : Fin 3) :
    ((coordFeed inp s).axes i).cubic.allSet = (s.axes i).cubic.allSet := by
  show (feedAxis (s.axes i) _).cubic.allSet = _
  rw [feedAxis_cubic]
  split
  · rw [cubicAddPoint_allSet]
  · rfl

theorem coordFeed_takesPoint (inp : Inputs) (s : Machine K) : (coordFeed inp s).TakesPoint ↔ s.TakesPoint := by
  unfold Machine.TakesPoint
  rw [coordFeed_allSet, coordFeed_flag]

/-- One turn is enough if axis 0 takes its point, and no number of turns if it does not. -/
theorem coordLoop_exits_iff (inp : Inputs) (s : Machine K) :
    Lib.Exits needNextPoint (coordFeed inp) s ↔ needNextPoint s = false ∨ s.TakesPoint := by
  constructor
  · intro h
    by_contra hno
    rw [not_or] at hno
    refine Lib.not_exits_of_invariant (I := fun v => needNextPoint v = true ∧ ¬ v.TakesPoint) (fun _ hv => hv.1) ?_
      ⟨Bool.eq_true_of_not_eq_false hno.1, hno.2⟩ h
    rintro v ⟨hneed, htakes⟩
    refine ⟨?_, fun h => htakes ((coordFeed_takesPoint inp v).1 h)⟩
    have hfalse : ((v.axes 0).flag.active && (v.axes 0).cubic.allSet) = false := by
      rw [Bool.eq_false_iff]
      intro h
      exact htakes (Bool.and_eq_true_iff.1 h)
    rw [coordFeed_needNextPoint, hneed, hfalse]
    rfl
  · rintro (h | ⟨hact, hset⟩)
    · exact Lib.exits_of_false h
    · refine Lib.Exits.step (Lib.exits_of_false ?_)
      rw [coordFeed_needNextPoint, hact, hset]
      simp

/-- A cycle completes exactly when its mode is not coordinated or the loop exits. -/
theorem emcmotController_completes_iff (s : Machine K) (inp : Inputs) (period : Int) :
    (∃ fuel t, emcmotController s inp period fuel = some t) ↔
      ((controllerFront s inp period).status.motionState = .coord →
        Lib.Exits needNextPoint (coordFeed inp) (coordBegin (controllerFront s inp period))) := by
  by_cases hst : (controllerFront s inp period).status.motionState = .coord
  · simp only [hst, true_imp_iff]
    unfold emcmotController getPosCmds planPositions
    rw [hst]
    constructor
    · rintro ⟨fuel, t, h⟩
      obtain ⟨u, hu, -⟩ := Option.map_eq_some_iff.1 h
      obtain ⟨v, hv, -⟩ := Option.map_eq_some_iff.1 hu
      obtain ⟨w, hw, -⟩ := Option.map_eq_some_iff.1 hv
      exact ⟨fuel, w, hw⟩
    · rintro ⟨fuel, w, hw⟩
      refine ⟨fuel, updateStatus (outputToHal (checkSoftLimits (coordEnd w))) inp, ?_⟩
      simp only [coordCycle, hw, Option.map_some]
  · refine iff_of_true ⟨1, ?_⟩ fun h => absurd h hst
    exact emcmotController_exists hst 1

/-! ### The state in which the loop is entered -/

theorem setTrajCycleTime_needNextPoint (s : Machine K) (secs : K) (i : Fin 3) :
    ((setTrajCycleTime s secs).axes i).cubic.needNextPoint = (s.axes i).cubic.needNextPoint := by
  unfold setTrajCycleTime
  split
  · rfl
  · exact cubicSetInterpolationRate_needNextPoint _ _

theorem setServoCycleTime_needNextPoint (s : Machine K) (secs : K) (i : Fin 3) :
    ((setServoCycleTime s secs).axes i).cubic.needNextPoint = (s.axes i).cubic.needNextPoint := by
  unfold setServoCycleTime
  split
  · rfl
  · exact (cubicSetSegmentTime_needNextPoint _ _).trans (cubicSetInterpolationRate_needNextPoint _ _)

theorem updatePeriod_needNextPoint (s : Machine K) (period : Int) (i : Fin 3) :
    ((updatePeriod s period).axes i).cubic.needNextPoint = (s.axes i).cubic.needNextPoint := by
  unfold updatePeriod
  dsimp only
  split
  · exact (setServoCycleTime_needNextPoint _ _ i).trans (setTrajCycleTime_needNextPoint _ _ i)
  · rfl

theorem processAxisInputs_cubic (axis : Axis K) (inp : AxisInput) :
    (processAxisInputs axis inp).cubic = axis.cubic := by
  unfold processAxisInputs
  split <;> rfl

omit [Arith K] in
theorem checkForFaults_cubic (s : Machine K) (i : Fin 3) : ((checkForFaults s).axes i).cubic = (s.axes i).cubic := by
  show (if _ then _ else _ : Axis K).cubic = _
  split <;> rfl

/-- The interpolators after `check_for_faults` are those the periods were set for. -/
theorem checked_cubic (s : Machine K) (inp : Inputs) (period : Int) (i : Fin 3) :
    ((checkForFaults (sampled s inp period)).axes i).cubic = ((updatePeriod s period).axes i).cubic := by
  rw [checkForFaults_cubic]
  unfold sampled
  rw [processInputs_axes, processAxisInputs_cubic]
  rfl

/-- While motion is enabled, `set_operating_mode` drains the interpolators exactly when it enters coordinated mode. -/
theorem setOperatingMode_cubic {s : Machine K} (hen : s.internal.enabling = true) (i : Fin 3) :
    ((setOperatingMode s).axes i).cubic =
      if s.internal.coordinating && !s.status.motionFlag.coord && s.status.motionFlag.inpos then
        cubicDrain (s.axes i).cubic
      else (s.axes i).cubic := by
  have h1 : disableMotion s = s := disableMotion_idle hen
  have h2 : ((enableMotion s).axes i).cubic = (s.axes i).cubic ∧
      (enableMotion s).internal.coordinating = s.internal.coordinating ∧
      (enableMotion s).status.motionFlag.coord = s.status.motionFlag.coord ∧
      (enableMotion s).status.motionFlag.inpos = s.status.motionFlag.inpos := by
    unfold enableMotion
    split <;> exact ⟨rfl, rfl, rfl, rfl⟩
  have h3 : ∀ u : Machine K, ((enterFree u).axes i).cubic = (u.axes i).cubic := by
    intro u
    unfold enterFree
    split
    · split <;> rfl
    · rfl
  have h4 : ∀ u : Machine K, ((enterCoord u).axes i).cubic =
      if u.internal.coordinating && !u.status.motionFlag.coord && u.status.motionFlag.inpos then
        cubicDrain (u.axes i).cubic
      else (u.axes i).cubic := by
    intro u
    unfold enterCoord
    cases u.internal.coordinating <;> cases u.status.motionFlag.coord <;> cases u.status.motionFlag.inpos <;> rfl
  show ((enterFree (enterCoord (enableMotion (disableMotion s)))).axes i).cubic = _
  rw [h3, h1, h4, h2.1, h2.2.1, h2.2.2.1, h2.2.2.2]

/-- The interpolators of a cycle that finds no fault. -/
theorem controllerFront_cubic {s : Machine K} {inp : Inputs} {period : Int} (hen : s.internal.enabling = true)
    (hfault : faultFound (sampled s inp period) = false) (i : Fin 3) :
    ((controllerFront s inp period).axes i).cubic =
      if s.internal.coordinating && !s.status.motionFlag.coord && s.status.motionFlag.inpos then
        cubicDrain ((updatePeriod s period).axes i).cubic
      else ((updatePeriod s period).axes i).cubic := by
  have hmodes := sampled_modes s inp period
  have hen' : (checkForFaults (sampled s inp period)).internal.enabling = true := by
    rw [checkForFaults_enabling, hfault]
    have he : (sampled s inp period).internal.enabling = s.internal.enabling := congrArg Modes.enabling hmodes
    rw [he, hen]
    rfl
  have hcubic := setOperatingMode_cubic hen' i
  rw [checked_cubic] at hcubic
  have hreq : (checkForFaults (sampled s inp period)).internal.coordinating = s.internal.coordinating :=
    congrArg Modes.coordinating hmodes
  have hflag : (checkForFaults (sampled s inp period)).status.motionFlag = s.status.motionFlag :=
    sampled_motionFlag s inp period
  rw [hreq, hflag] at hcubic
  exact hcubic

/-- The cycle runs the planner. -/
def CoordCycle (s : Machine K) (inp : Inputs) : Prop :=
  s.internal.enabling = true ∧ ¬ FaultSeen s inp ∧
    (s.status.motionFlag.coord = true ∨ s.internal.coordinating = true ∧ s.status.motionFlag.inpos = true)

theorem coordCycle_iff (s : Machine K) (inp : Inputs) (period : Int) :
    (controllerFront s inp period).status.motionState = .coord ↔ CoordCycle s inp := by
  have hseen : faultFound (sampled s inp period) = true ↔ FaultSeen s inp := faultFound_sampled s inp period
  rw [controllerFront_motionState, Modes.next_state_coord]
  unfold CoordCycle
  rw [← hseen]
  simp only [Machine.modes, Bool.and_eq_true, Bool.not_eq_true', Bool.not_eq_true, and_assoc]

/-- Axis 0 takes points in the cycle: it is active, and its interpolator is configured once the periods are set. -/
def Axis0Feeds (s : Machine K) (period : Int) : Prop :=
  (s.axes 0).flag.active = true ∧ ((updatePeriod s period).axes 0).cubic.allSet = true

/-- The loop of a coordinated cycle exits exactly when axis 0 takes points or has asked for none. -/
theorem coordCycle_exits_iff {s : Machine K} {inp : Inputs} {period : Int} (hc : CoordCycle s inp) :
    Lib.Exits needNextPoint (coordFeed inp) (coordBegin (controllerFront s inp period)) ↔
      Axis0Feeds s period ∨ s.status.motionFlag.coord = true ∧ (s.axes 0).cubic.needNextPoint = false := by
  have hf : faultFound (sampled s inp period) = false :=
    Bool.eq_false_iff.2 fun h => hc.2.1 ((faultFound_sampled s inp period).1 h)
  have hcubic := controllerFront_cubic hc.1 hf 0
  have hact : ((controllerFront s inp period).axes 0).flag.active = (s.axes 0).flag.active :=
    (controllerFront_cycleKeeps s inp period).axis 0 |>.active
  have hset : ((controllerFront s inp period).axes 0).cubic.allSet =
      ((updatePeriod s period).axes 0).cubic.allSet := by
    rw [hcubic]
    split
    · rw [cubicDrain_allSet]
    · rfl
  have htakes : (coordBegin (controllerFront s inp period)).TakesPoint ↔ Axis0Feeds s period := by
    show ((controllerFront s inp period).axes 0).flag.active = true ∧
      ((controllerFront s inp period).axes 0).cubic.allSet = true ↔ _
    rw [hact, hset]
    rfl
  have hneed : needNextPoint (coordBegin (controllerFront s inp period)) = false ↔
      s.status.motionFlag.coord = true ∧ (s.axes 0).cubic.needNextPoint = false := by
    show ((controllerFront s inp period).axes 0).cubic.needNextPoint = false ↔ _
    rw [hcubic]
    -- coordinated before, or from this cycle on, which drains the cubics
    rcases hc.2.2 with hcoord | ⟨hcoord, hin⟩
    · rw [hcoord, Bool.not_true, Bool.and_false, Bool.false_and, if_neg Bool.false_ne_true,
        updatePeriod_needNextPoint]
      simp
    · cases hflagc : s.status.motionFlag.coord with
      | true =>
        rw [Bool.not_true, Bool.and_false, Bool.false_and, if_neg Bool.false_ne_true, updatePeriod_needNextPoint]
        simp
      | false =>
        rw [hcoord, hin]
        simp
  rw [coordLoop_exits_iff, htakes, hneed, or_comm]

/-! ### What the interpolators keep -/

/-- What an interpolator keeps, whatever a cycle does to it once the periods are set. -/
structure CubicInvariant (P : Cubic K → Prop) : Prop where
  drain : ∀ ci, P ci → P (cubicDrain ci)
  addPoint : ∀ ci point, P ci → P (cubicAddPoint ci point)
  interpolate : ∀ ci, P ci → P (cubicInterpolate ci).1

theorem setOperatingMode_cubics {P : Cubic K → Prop} (hP : CubicInvariant P) {s : Machine K}
    (h : ∀ i, P (s.axes i).cubic) (i : Fin 3) : P ((setOperatingMode s).axes i).cubic := by
  have hkept : KeptByModes fun u : Machine K => ∀ i, P (u.axes i).cubic :=
    ⟨fun _ h i => hP.drain _ (h i), fun _ h => h, fun _ _ h i => hP.drain _ (h i), fun _ h => h, fun _ h => h,
      fun _ h => h, fun _ h => h⟩
  exact hkept.setOperatingMode h i

theorem controllerFront_cubics {P : Cubic K → Prop} (hP : CubicInvariant P) {s : Machine K} {period : Int}
    (h : ∀ i, P ((updatePeriod s period).axes i).cubic) (inp : Inputs) (i : Fin 3) :
    P ((controllerFront s inp period).axes i).cubic := by
  refine setOperatingMode_cubics hP (s := checkForFaults (sampled s inp period)) ?_ i
  intro i
  rw [checked_cubic]
  exact h i

theorem interpolateAxis_cubic {P : Cubic K → Prop} (hP : CubicInvariant P) {axis : Axis K} (h : P axis.cubic) :
    P (interpolateAxis axis).cubic := by
  unfold interpolateAxis
  split
  · exact h
  · exact hP.interpolate _ h

theorem freeAxisCycle_cubic (axis : Axis K) (maxacc servoPeriod : Int) :
    (freeAxisCycle axis maxacc servoPeriod).cubic = axis.cubic := by
  unfold freeAxisCycle
  split <;> rfl

theorem planPositions_cubics {P : Cubic K → Prop} (hP : CubicInvariant P) {inp : Inputs} {fuel : Nat} {s t : Machine K}
    (h : ∀ i, P (s.axes i).cubic) (ht : planPositions inp fuel s = some t) (i : Fin 3) : P (t.axes i).cubic := by
  have hkept : KeptByPlanning inp fun u : Machine K => ∀ i, P (u.axes i).cubic := by
    constructor
    case free =>
      intro u hu i
      show P (freeAxisCycle (u.axes i) _ _).cubic
      rw [freeAxisCycle_cubic]
      exact hu i
    case feed =>
      intro u hu i
      show P (feedAxis (u.axes i) _).cubic
      rw [feedAxis_cubic]
      split
      · exact hP.addPoint _ _ (hu i)
      · exact hu i
    case finish => exact fun _ hu i => interpolateAxis_cubic hP (hu i)
    all_goals exact fun _ hu => hu
  exact hkept.planPositions h ht i

/-- What the interpolators keep from the setting of the periods to the end of the cycle. -/
theorem emcmotController_cubics {P : Cubic K → Prop} (hP : CubicInvariant P) {s t : Machine K} {inp : Inputs}
    {period : Int} {fuel : Nat} (h : ∀ i, P ((updatePeriod s period).axes i).cubic)
    (ht : emcmotController s inp period fuel = some t) (i : Fin 3) : P (t.axes i).cubic := by
  obtain ⟨u, hu, rfl⟩ := Option.map_eq_some_iff.1 ht
  obtain ⟨v, hv, rfl⟩ := Option.map_eq_some_iff.1 hu
  have h1 := planPositions_cubics hP (controllerFront_cubics hP h inp) hv i
  obtain ⟨pos, hpos⟩ := cycleEnd_axes v inp i
  rw [hpos]
  exact h1

/-! ### The interpolators are configured -/

theorem updatePeriod_configured {s : Machine K} (h : s.Configured) (period : Int) :
    (updatePeriod s period).Configured := by
  have h1 : ∀ (u : Machine K) (secs : K), u.Configured → (setTrajCycleTime u secs).Configured := by
    intro u secs hu
    unfold setTrajCycleTime
    split
    · exact hu
    · exact fun i => cubicSetInterpolationRate_allSet _ (hu i)
  have h2 : ∀ (u : Machine K) (secs : K), u.Configured → (setServoCycleTime u secs).Configured := by
    intro u secs hu
    unfold setServoCycleTime
    split
    · exact hu
    · exact fun i => cubicSetSegmentTime_allSet _ (cubicSetInterpolationRate_allSet _ (hu i))
  unfold updatePeriod
  dsimp only
  split
  · exact h2 _ _ (h1 _ _ h)
  · exact h

theorem allSet_cubicInvariant : CubicInvariant (K := K) fun ci => ci.allSet = true where
  drain _ h := h
  addPoint ci point h := (cubicAddPoint_allSet ci point).trans h
  interpolate ci h := (cubicInterpolate_allSet ci).trans h

theorem emcmotController_configured {s t : Machine K} {inp : Inputs} {period : Int} {fuel : Nat} (h : s.Configured)
    (ht : emcmotController s inp period fuel = some t) : t.Configured :=
  emcmotController_cubics allSet_cubicInvariant (updatePeriod_configured h period) ht

omit [Arith K] in
theorem Keeps.configured {s t : Machine K} (h : Keeps s t) (hs : s.Configured) : t.Configured := by
  intro i
  rcases h.cubic i with hc | hc
  · rw [hc]
    exact hs i
  · rw [hc]
    exact hs i

theorem Step.configured {s t : Machine K} {e : Event K} (hs : s.Configured) (h : Step s e t) : t.Configured := by
  cases h with
  | frame hf => exact (processFrame_quiet hf).toKeeps.configured hs
  | command c => exact hs
  | handle hh => exact (emcmotCommandHandler_keeps hh).configured hs
  | cycle hc => exact emcmotController_configured hs hc

theorem Reachable.configured {numAxes : Int} {s : Machine ℝ} (h : Reachable numAxes s) : s.Configured :=
  Lib.Reaches.invariant (fun _ _ _ hs hst => Step.configured hs hst) h (initMachine_configured numAxes)

/-- From any reachable state the loop of the next cycle exits, and the cycle completes, exactly when the cycle is not a
coordinated one, axis 0 takes points or axis 0 has asked for none; in exact arithmetic axis 0 takes points exactly when
it is active. -/
theorem controller_completes_iff (numAxes : Int) :
    (∀ (K : Type) [Arith K] (s : Machine K) (inp : Inputs), Reachable numAxes s →
      ((∃ fuel t, emcmotController s inp motionThreadPeriod fuel = some t) ↔
        (CoordCycle s inp → Axis0Feeds s motionThreadPeriod ∨
          s.status.motionFlag.coord = true ∧ (s.axes 0).cubic.needNextPoint = false))) ∧
    (∀ s : Machine ℝ, Reachable numAxes s →
      (Axis0Feeds s motionThreadPeriod ↔ (s.axes 0).flag.active = true)) := by
  constructor
  · intro K _ s inp _
    rw [emcmotController_completes_iff, coordCycle_iff]
    exact ⟨fun h hc => (coordCycle_exits_iff hc).1 (h hc), fun h hc => (coordCycle_exits_iff hc).2 (h hc)⟩
  · intro s hs
    exact ⟨fun h => h.1, fun h => ⟨h, updatePeriod_configured hs.configured _ 0⟩⟩

/-- Motion and coordinated mode are requested while no axis is active. -/
theorem coordLoop_not_exits : ∃ s : Machine ℝ, Reachable 3 s ∧
    (controllerFront s restInputs motionThreadPeriod).status.motionState = .coord ∧
    ¬ Lib.Exits needNextPoint (coordFeed restInputs)
      (coordBegin (controllerFront s restInputs motionThreadPeriod)) := by
  have hs : ∃ s, runEvents 1 (initMachine 3 : Machine ℝ)
      [.frame (plainFrame 4 0), .handle false, .frame (plainFrame 16 0), .handle false] = some s ∧
      s.internal.enabling = true ∧ s.internal.coordinating = true ∧ s.status.motionFlag.enable = false ∧
      s.status.motionFlag.coord = false ∧ s.status.motionFlag.inpos = true ∧
      ∀ i, (s.axes i).flag.active = false := by
    obtain ⟨_, _, _, _, _, _, _, h⟩ := initMachine_eq (K := ℝ) 3
    rw [h]
    exact ⟨_, rfl, rfl, rfl, rfl, rfl, rfl, fun _ => rfl⟩
  obtain ⟨s, hrun, hen, hreq, hflag, hcoord, hin, hact⟩ := hs
  have hr : NetReachable 3 s := runEvents_netReaches (by simp [Event.fromNetwork]) hrun
  have hfault : ¬ FaultSeen s restInputs := by
    rintro (⟨h, -⟩ | ⟨i, ⟨h, -⟩, -⟩)
    · rw [hflag] at h
      cases h
    · rw [hact i] at h
      cases h
  have hc : CoordCycle s restInputs := ⟨hen, hfault, .inr ⟨hreq, hin⟩⟩
  refine ⟨s, hr.reachable, (coordCycle_iff _ _ _).2 hc, ?_⟩
  rw [coordCycle_exits_iff hc]
  rintro (⟨h, -⟩ | ⟨h, -⟩)
  · rw [hact 0] at h
    cases h
  · rw [hcoord] at h
    cases h

end SoemMotion
