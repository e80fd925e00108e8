import SoemMotion.Cycle

/-!
# Faults stop the machine

A fault found by `check_for_faults` disables the machine in the same cycle (`controllerFront_stopped`).  This file says
which inputs are found to be faults: an amplifier fault, a following error above the limit as `int32_t` arithmetic sees
it, the enable pin, and the override of a limit.  A limit switch is none of them.
-/

namespace SoemMotion

variable {K : Type} [Arith K]

/-! ### What trips an axis -/

/-- The feedback position of a cycle. -/
def Axis.feedback (axis : Axis K) (inp : AxisInput) : Int := Arith.i32 K (inp.motorPosFb - axis.motorOffset)

/-- The following error, as it is computed, is above the limit. -/
def FollowingErrorFound (axis : Axis K) (inp : AxisInput) : Prop :=
  axis.computeFerrorLimit < Arith.i32 K |Arith.i32 K (axis.posCmd - axis.feedback inp)|

/-- The axis is checked for faults. -/
def Axis.Checked (axis : Axis K) : Prop := axis.flag.active = true ∧ axis.flag.enable = true

omit [Arith K] in
theorem axisTrips_iff (st : Status K) (i : Fin 3) (axis : Axis K) :
    axisTrips st i axis = true ↔ axis.Checked ∧
      ((st.posLimitOverride i = true ∨ st.negLimitOverride i = true) ∨ axis.flag.fault = true ∨
        axis.flag.ferror = true) := by
  simp only [axisTrips, Axis.Checked, Bool.and_eq_true, Bool.or_eq_true]
  tauto

theorem sampled_status (s : Machine K) (inp : Inputs) (period : Int) :
    (sampled s inp period).status = { s.status with
      cartePosCmd := { s.status.cartePosCmd with tran := axesTran (updatePeriod s period).axes } } := by
  unfold sampled
  rw [processInputs_status]
  unfold handleInterpolation
  dsimp only
  rw [updatePeriod_status]

/-- An axis is sampled as it was, its interpolator apart. -/
theorem sampled_axes (s : Machine K) (inp : Inputs) (period : Int) (i : Fin 3) :
    ∃ cubic, (sampled s inp period).axes i = processAxisInputs { s.axes i with cubic := cubic } (inp.axis i) := by
  obtain ⟨_, _, _, _, cubic, _, _, h⟩ := updatePeriod_eq s period
  refine ⟨cubic i, ?_⟩
  unfold sampled
  rw [processInputs_axes, h]
  rfl

/-- What trips an axis in a cycle. -/
theorem axisTrips_sampled (s : Machine K) (inp : Inputs) (period : Int) (i : Fin 3) :
    axisTrips (sampled s inp period).status i ((sampled s inp period).axes i) = true ↔ (s.axes i).Checked ∧
      ((s.status.posLimitOverride i = true ∨ s.status.negLimitOverride i = true) ∨
        (inp.axis i).ampFault = true ∨ FollowingErrorFound (s.axes i) (inp.axis i)) := by
  obtain ⟨cubic, h⟩ := sampled_axes s inp period i
  rw [axisTrips_iff, sampled_status, h]
  cases ha : (s.axes i).flag.active with
  | false =>
    have hp : processAxisInputs { s.axes i with cubic := cubic } (inp.axis i) = { s.axes i with cubic := cubic } := by
      simp [processAxisInputs, ha]
    rw [hp]
    simp [Axis.Checked, ha]
  | true =>
    simp only [processAxisInputs, ha, Axis.Checked, FollowingErrorFound, Axis.computeFerrorLimit, Axis.feedback,
      Status.posLimitOverride, Status.negLimitOverride, Bool.not_true, Bool.false_eq_true, if_false, true_and,
      decide_eq_true_eq]

/-- A fault of the machine as a whole. -/
def MachineFault (s : Machine K) : Prop :=
  s.status.motionFlag.enable = true ∧
    (s.hal.enable = false ∨ ∃ n : Fin s.config.numMiscError, s.status.miscError n = true)

theorem machineTrips_sampled (s : Machine K) (inp : Inputs) (period : Int) :
    machineTrips (sampled s inp period) = true ↔ MachineFault s := by
  have hc : (sampled s inp period).config.numMiscError = s.config.numMiscError := by
    obtain ⟨_, _, _, _, _, _, _, h⟩ := updatePeriod_eq s period
    unfold sampled
    rw [processInputs_config, h]
    rfl
  have hh : (sampled s inp period).hal = s.hal := by
    obtain ⟨_, _, _, _, _, _, _, h⟩ := updatePeriod_eq s period
    unfold sampled
    rw [processInputs_hal, h]
    rfl
  unfold machineTrips MachineFault
  rw [hh, hc, sampled_status]
  simp

/-- What a cycle finds to be a fault. -/
theorem faultFound_sampled (s : Machine K) (inp : Inputs) (period : Int) :
    faultFound (sampled s inp period) = true ↔ MachineFault s ∨ ∃ i, (s.axes i).Checked ∧
      ((s.status.posLimitOverride i = true ∨ s.status.negLimitOverride i = true) ∨
        (inp.axis i).ampFault = true ∨ FollowingErrorFound (s.axes i) (inp.axis i)) := by
  rw [faultFound_iff, machineTrips_sampled]
  simp only [axisTrips_sampled]

/-! ### The override of the limits -/

/-- No command overrides a limit. -/
def Machine.NoOverride (s : Machine K) : Prop := s.status.overrideLimitMask = 0

theorem setOperatingMode_noOverride {s : Machine K} (h : s.NoOverride) : (setOperatingMode s).NoOverride := by
  have hkept : KeptByModes (Machine.NoOverride (K := K)) :=
    ⟨fun _ h => h, fun _ h => h, fun _ _ _ => rfl, fun _ h => h, fun _ h => h, fun _ h => h, fun _ h => h⟩
  exact hkept.setOperatingMode h

theorem controllerFront_noOverride {s : Machine K} (h : s.NoOverride) (inp : Inputs) (period : Int) :
    (controllerFront s inp period).NoOverride := by
  refine setOperatingMode_noOverride (s := checkForFaults (sampled s inp period)) ?_
  show (sampled s inp period).status.overrideLimitMask = 0
  rw [sampled_status]
  exact h

theorem planPositions_noOverride {inp : Inputs} {fuel : Nat} {s t : Machine K} (h : s.NoOverride)
    (ht : planPositions inp fuel s = some t) : t.NoOverride := by
  have hfree : ∀ u : Machine K, u.NoOverride → (freeCycle u).NoOverride := by
    intro u hu
    show (if _ then 0 else u.status.overrideLimitMask) = 0
    split
    · rfl
    · exact hu
  have hkept : KeptByPlanning inp (Machine.NoOverride (K := K)) :=
    ⟨hfree, fun _ h => h, fun _ h => h, fun _ h => h, fun _ h => h⟩
  exact hkept.planPositions h ht

theorem emcmotController_noOverride {s t : Machine K} {inp : Inputs} {period : Int} {fuel : Nat} (h : s.NoOverride)
    (ht : emcmotController s inp period fuel = some t) : t.NoOverride := by
  obtain ⟨u, hu, rfl⟩ := Option.map_eq_some_iff.1 ht
  obtain ⟨v, hv, rfl⟩ := Option.map_eq_some_iff.1 hu
  have hv' : v.NoOverride := planPositions_noOverride (controllerFront_noOverride h inp period) hv
  obtain ⟨error, onSoftLimit, hsoft⟩ := checkSoftLimits_eq v
  rw [hsoft]
  exact hv'

theorem Step.noOverride {s t : Machine K} {e : Event K} (h : s.NoOverride) (hst : Step s e t) : t.NoOverride := by
  cases hst with
  | cycle hc => exact emcmotController_noOverride h hc
  | frame hf => exact (processFrame_quiet hf).overrideLimitMask.trans h
  | command c => exact h
  | handle hh => exact (emcmotCommandHandler_keeps hh).overrideLimitMask.trans h

/-- The mask is written to zero only, and starts as zero. -/
theorem Reachable.noOverride {numAxes : Int} {s : Machine K} (h : Reachable numAxes s) : s.NoOverride := by
  refine Lib.Reaches.invariant (fun _ _ _ hs hst => Step.noOverride hs hst) h ?_
  obtain ⟨_, _, _, _, _, _, _, hi⟩ := initMachine_eq (K := K) numAxes
  rw [hi]
  rfl

/-! ### Limit switches -/

/-- Some checked axis has a limit switch set that is not overridden. -/
def LimitHit (s : Machine K) (inp : Inputs) : Prop :=
  ∃ i, (s.axes i).Checked ∧
    ((inp.axis i).posLimSw = true ∧ s.status.posLimitOverride i = false ∨
      (inp.axis i).negLimSw = true ∧ s.status.negLimitOverride i = false)

/-- A fault that `check_for_faults` looks for while no limit is overridden. -/
def OtherFault (s : Machine K) (inp : Inputs) : Prop :=
  MachineFault s ∨
    ∃ i, (s.axes i).Checked ∧ ((inp.axis i).ampFault = true ∨ FollowingErrorFound (s.axes i) (inp.axis i))

theorem faultFound_noOverride {s : Machine K} (h : s.NoOverride) (inp : Inputs) (period : Int) :
    faultFound (sampled s inp period) = true ↔ OtherFault s inp := by
  have hp : ∀ i, s.status.posLimitOverride i = false := by
    intro i
    unfold Status.posLimitOverride
    rw [h, Nat.zero_testBit]
  have hn : ∀ i, s.status.negLimitOverride i = false := by
    intro i
    unfold Status.negLimitOverride
    rw [h, Nat.zero_testBit]
  rw [faultFound_sampled]
  simp [OtherFault, hp, hn]

/-- A cycle on a hit limit switch stops the machine only if it was not enabled anyway or has another fault. -/
theorem limitHit_stopped_iff {numAxes : Int} {s : Machine K} (hs : Reachable numAxes s) (inp : Inputs) :
    ((LimitHit s inp → (controllerFront s inp motionThreadPeriod).Stopped) ↔
        (LimitHit s inp → s.internal.enabling = false ∨ OtherFault s inp)) ∧
      ∀ fuel t, emcmotController s inp motionThreadPeriod fuel = some t →
        ((LimitHit s inp → t.Stopped) ↔ (LimitHit s inp → s.internal.enabling = false ∨ OtherFault s inp)) := by
  have key : (controllerFront s inp motionThreadPeriod).Stopped ↔
      s.internal.enabling = false ∨ OtherFault s inp := by
    rw [controllerFront_stopped, faultFound_noOverride hs.noOverride]
  constructor
  · rw [key]
  · intro fuel t ht
    obtain ⟨hm, hst⟩ := emcmotController_modes ht
    rw [stopped_congr hm hst, key]

/-- Inputs at rest, but for the positive limit switch of axis 0. -/
def limitInputs : Inputs where
  axis := fun i => ⟨0, decide (i = 0), false, false, false⟩
  jogStop := false
  jogStopImmediate := false
  miscError := fun _ => false

/-- Axis 0 and motion are enabled from the network. -/
def enableEvents : List (Event ℝ) :=
  [.frame (plainFrame 2 0), .handle false, .frame (plainFrame 4 0), .handle false]

/-- After these events the machine waits for the cycle that enables it, at rest and without a fault. -/
theorem enableEvents_run : ∃ s, runEvents 1 (initMachine 3 : Machine ℝ) enableEvents = some s ∧
    s.internal.enabling = true ∧ s.status.motionFlag.enable = false ∧ s.status.motionFlag.coord = false ∧
    s.internal.coordinating = false ∧ (s.axes 0).Checked ∧
    ∀ i, (s.axes i).computeFerrorLimit = 400 ∧ (s.axes i).posCmd = 0 ∧ (s.axes i).motorOffset = 0 := by
  obtain ⟨_, _, _, _, _, _, _, h⟩ := initMachine_eq (K := ℝ) 3
  rw [h]
  refine ⟨_, rfl, rfl, rfl, rfl, rfl, ⟨rfl, rfl⟩, ?_⟩
  intro i
  fin_cases i <;> exact ⟨rfl, rfl, rfl⟩

theorem enableEvents_fromNetwork : ∀ e ∈ enableEvents, e.fromNetwork := by
  simp [enableEvents, Event.fromNetwork]

theorem limitInputs_otherFault {s : Machine ℝ} (he : s.status.motionFlag.enable = false)
    (hs : ∀ i, (s.axes i).computeFerrorLimit = 400 ∧ (s.axes i).posCmd = 0 ∧ (s.axes i).motorOffset = 0) :
    ¬ OtherFault s limitInputs := by
  rintro (⟨h, -⟩ | ⟨i, -, h | h⟩)
  · rw [he] at h
    cases h
  · cases h
  · obtain ⟨h1, h2, h3⟩ := hs i
    simp [FollowingErrorFound, Axis.feedback, limitInputs, h1, h2, h3] at h

theorem limitHit_stopped_iff_enabled : ∃ s : Machine ℝ, LimitHit s limitInputs ∧ s.internal.enabling = true ∧
    ¬ OtherFault s limitInputs ∧
    ((LimitHit s limitInputs → (controllerFront s limitInputs motionThreadPeriod).Stopped) ↔
      (LimitHit s limitInputs → s.internal.enabling = false ∨ OtherFault s limitInputs)) := by
  obtain ⟨s, hrun, he, hf, -, -, hc, hs⟩ := enableEvents_run
  have hr : NetReachable 3 s := runEvents_netReaches enableEvents_fromNetwork hrun
  have hmask : s.status.overrideLimitMask = 0 := hr.reachable.noOverride
  have hhit : LimitHit s limitInputs := ⟨0, hc, .inl ⟨rfl, by rw [Status.posLimitOverride, hmask]; rfl⟩⟩
  exact ⟨s, hhit, he, limitInputs_otherFault hf hs, (limitHit_stopped_iff hr.reachable limitInputs).1⟩

/-- The machine runs on into the limit switch. -/
theorem limitHit_not_stopped : ∃ s t : Machine ℝ, Reachable 3 s ∧ LimitHit s limitInputs ∧
    emcmotController s limitInputs motionThreadPeriod 1 = some t ∧ ¬ t.Stopped := by
  obtain ⟨s, hrun, he, hf, hcoord, hreq, hc, hs⟩ := enableEvents_run
  have hr : NetReachable 3 s := runEvents_netReaches enableEvents_fromNetwork hrun
  have hmask : s.status.overrideLimitMask = 0 := hr.reachable.noOverride
  have hhit : LimitHit s limitInputs := ⟨0, hc, .inl ⟨rfl, by rw [Status.posLimitOverride, hmask]; rfl⟩⟩
  have hfault : ¬ (controllerFront s limitInputs motionThreadPeriod).Stopped := by
    rw [controllerFront_stopped, faultFound_noOverride hmask, he]
    simp [limitInputs_otherFault hf hs]
  have hstate : (controllerFront s limitInputs motionThreadPeriod).status.motionState ≠ .coord := by
    rw [controllerFront_motionState]
    exact Modes.next_state_ne_coord _ hcoord hreq
  obtain ⟨t, ht⟩ := emcmotController_exists hstate 1
  refine ⟨s, t, hr.reachable, hhit, ht, ?_⟩
  obtain ⟨hm, hst⟩ := emcmotController_modes ht
  rwa [stopped_congr hm hst]

/-! ### The stop -/

/-- The planners hold nothing: the queue is empty, no free planner is enabled, no interpolator has a point, and no
active axis is enabled. -/
def Machine.Cleared (s : Machine K) : Prop :=
  s.internal.coordTp.queue.len = 0 ∧ ∀ i, (s.axes i).freeTp.enable = false ∧ (s.axes i).cubic.Drained ∧
    ((s.axes i).flag.active = true → (s.axes i).flag.enable = false)

/-- The machine `t` a cycle from `s` ends in when it stops on a fault. -/
def FaultStopped (s t : Machine K) : Prop :=
  t.Stopped ∧ (∀ i, (t.axes i).velCmd = 0 ∧ (t.axes i).posCmd = (t.axes i).posFb) ∧
    (s.status.motionFlag.enable = true → t.Cleared)

theorem tpSetPos_queue (tp : Tp K) (pos : EmcPose K) : (tpSetPos tp pos).queue = tp.queue := by
  unfold tpSetPos
  split <;> rfl

theorem disableMotion_cleared {s : Machine K} (h : s.internal.enabling = false)
    (h' : s.status.motionFlag.enable = true) : (disableMotion s).Cleared := by
  unfold disableMotion
  rw [h, h']
  refine ⟨rfl, fun i => ⟨rfl, cubicDrain_drained _, ?_⟩⟩
  intro hi
  have hi' : (s.axes i).flag.active = true := (disableAxis_active _).symm.trans hi
  show (disableAxis (s.axes i)).flag.enable = false
  rw [disableAxis_enable, hi']
  rfl

theorem enterCoord_cleared {s : Machine K} (h : s.Cleared) : (enterCoord s).Cleared := by
  unfold enterCoord
  split
  · split
    · refine ⟨?_, fun i => ⟨(h.2 i).1, cubicDrain_drained _, (h.2 i).2.2⟩⟩
      show (tpSetPos _ _).queue.len = 0
      rw [tpSetPos_queue]
      exact h.1
    · exact h
  · exact h

theorem enterFree_cleared {s : Machine K} (h : s.Cleared) : (enterFree s).Cleared := by
  unfold enterFree
  split
  · split
    · exact ⟨h.1, fun i => ⟨rfl, (h.2 i).2.1, (h.2 i).2.2⟩⟩
    · exact h
  · exact h

/-- The falling edge of motion enable clears the planners, and the mode requests after it keep them so. -/
theorem setOperatingMode_cleared {s : Machine K} (h : s.internal.enabling = false)
    (h' : s.status.motionFlag.enable = true) : (setOperatingMode s).Cleared := by
  have hrise : enableMotion (disableMotion s) = disableMotion s := enableMotion_idle fun _ => h'
  have hc : (enterFree (enterCoord (enableMotion (disableMotion s)))).Cleared := by
    rw [hrise]
    exact enterFree_cleared (enterCoord_cleared (disableMotion_cleared h h'))
  exact hc

/-- From the disabled state on, a cycle only holds the axes where they are. -/
theorem emcmotController_disabled {s t : Machine K} {inp : Inputs} {period : Int} {fuel : Nat}
    (h : (controllerFront s inp period).status.motionState = .disabled)
    (ht : emcmotController s inp period fuel = some t) :
    (∀ i, t.axes i = outputAxis (holdAxis ((controllerFront s inp period).axes i))) ∧
      t.internal.coordTp.queue = (controllerFront s inp period).internal.coordTp.queue := by
  unfold emcmotController getPosCmds planPositions at ht
  rw [h] at ht
  dsimp only [Option.map_some] at ht
  cases ht
  have hs : ∀ v : Machine K, (checkSoftLimits v).axes = v.axes ∧ (checkSoftLimits v).internal = v.internal := by
    intro v
    obtain ⟨error, onSoftLimit, hsoft⟩ := checkSoftLimits_eq v
    rw [hsoft]
    exact ⟨rfl, rfl⟩
  constructor
  · intro i
    show outputAxis ((checkSoftLimits _).axes i) = _
    rw [(hs _).1]
    rfl
  · show (if _ then tpPause _ else _ : Tp K).queue = _
    split
    · show (checkSoftLimits _).internal.coordTp.queue = _
      rw [(hs _).2]
      rfl
    · show (checkSoftLimits _).internal.coordTp.queue = _
      rw [(hs _).2]
      rfl

/-- A cycle that finds a fault, or in which motion is not enabled, completes and leaves the machine stopped. -/
theorem faultStopped_of_front {s t : Machine K} {inp : Inputs} {period : Int} {fuel : Nat}
    (h : s.internal.enabling = false ∨ faultFound (sampled s inp period) = true)
    (ht : emcmotController s inp period fuel = some t) : FaultStopped s t := by
  have hfront := (controllerFront_stopped s inp period).2 h
  obtain ⟨hax, hq⟩ := emcmotController_disabled hfront.2.2 ht
  obtain ⟨hm, hst⟩ := emcmotController_modes ht
  refine ⟨(stopped_congr hm hst).2 hfront, ?_, ?_⟩
  · intro i
    obtain ⟨pos, hpos⟩ := outputAxis_cases (holdAxis ((controllerFront s inp period).axes i))
    rw [hax i, hpos]
    exact ⟨rfl, rfl⟩
  · intro hen
    have hmodes := checkForFaults_modes (sampled s inp period)
    have hflag : (checkForFaults (sampled s inp period)).status.motionFlag.enable = true := by
      show (sampled s inp period).status.motionFlag.enable = true
      rw [sampled_motionFlag]
      exact hen
    have henabling : (checkForFaults (sampled s inp period)).internal.enabling = false := by
      rw [checkForFaults_enabling]
      have he : (sampled s inp period).internal.enabling = s.internal.enabling :=
        congrArg Modes.enabling (sampled_modes s inp period)
      rcases h with h | h
      · rw [he, h]
        rfl
      · rw [h, Bool.not_true, Bool.and_false]
    have hc : (controllerFront s inp period).Cleared := setOperatingMode_cleared henabling hflag
    refine ⟨by rw [hq]; exact hc.1, ?_⟩
    intro i
    obtain ⟨pos, hpos⟩ := outputAxis_cases (holdAxis ((controllerFront s inp period).axes i))
    rw [hax i, hpos]
    exact hc.2 i

/-! ### Faults of an axis or of the enable pin -/

/-- A checked axis is faulted or too far from its command, or motion is enabled without the enable pin. -/
def Faulted (s : Machine K) (inp : Inputs) : Prop :=
  (∃ i, (s.axes i).Checked ∧ ((inp.axis i).ampFault = true ∨
      (s.axes i).computeFerrorLimit < |(s.axes i).posCmd - (s.axes i).feedback (inp.axis i)|)) ∨
    s.status.motionFlag.enable = true ∧ s.hal.enable = false

/-- What `check_for_faults` reacts to in a cycle. -/
def FaultSeen (s : Machine K) (inp : Inputs) : Prop :=
  MachineFault s ∨ ∃ i, (s.axes i).Checked ∧
    ((s.status.posLimitOverride i = true ∨ s.status.negLimitOverride i = true) ∨
      (inp.axis i).ampFault = true ∨ FollowingErrorFound (s.axes i) (inp.axis i))

/-- The following error of a checked axis can be stored in an `int32_t`, and so can its absolute value. -/
def FerrorInRange (s : Machine K) (inp : Inputs) : Prop :=
  ∀ i, (s.axes i).Checked → |(s.axes i).posCmd - (s.axes i).feedback (inp.axis i)| ≤ 2 ^ 31 - 1

/-- Without overflow the computed following error is the true one, so every fault is seen. -/
theorem faultSeen_of_inRange {s : Machine K} {inp : Inputs} (hr : FerrorInRange s inp) (h : Faulted s inp) :
    FaultSeen s inp := by
  rcases h with ⟨i, hc, h | h⟩ | h
  · exact .inr ⟨i, hc, .inr (.inl h)⟩
  · refine .inr ⟨i, hc, .inr (.inr ?_)⟩
    have hb := hr i hc
    have habs := abs_le.1 hb
    unfold FollowingErrorFound
    have hmin : -2 ^ 31 ≤ (s.axes i).posCmd - (s.axes i).feedback (inp.axis i) := by
      have := habs.1
      norm_num at this ⊢
      omega
    rw [Arith.i32_of_range _ hmin habs.2, Arith.i32_of_range _ (le_trans (by norm_num) (abs_nonneg _)) hb]
    exact h
  · exact .inl ⟨h.1, .inl h.2⟩

theorem faultStopped_iff {s t : Machine K} {inp : Inputs} {period : Int} {fuel : Nat}
    (ht : emcmotController s inp period fuel = some t) :
    FaultStopped s t ↔ s.internal.enabling = false ∨ FaultSeen s inp := by
  have hseen : faultFound (sampled s inp period) = true ↔ FaultSeen s inp := faultFound_sampled s inp period
  rw [← hseen]
  constructor
  · intro h
    obtain ⟨hm, hst⟩ := emcmotController_modes ht
    rw [← controllerFront_stopped]
    exact (stopped_congr hm hst).1 h.1
  · intro h
    exact faultStopped_of_front h ht

/-- A cycle from any state stops the machine on a fault exactly when motion was not enabled or the fault is seen, which
every fault is whose following error fits an `int32_t`. -/
theorem faulted_stopped_iff (s : Machine K) (inp : Inputs) (period : Int) :
    (FerrorInRange s inp → Faulted s inp → FaultSeen s inp) ∧
      (s.internal.enabling = false ∨ FaultSeen s inp → ∀ fuel, ∃ t, emcmotController s inp period fuel = some t) ∧
      ∀ fuel t, emcmotController s inp period fuel = some t →
        ((Faulted s inp → FaultStopped s t) ↔ (Faulted s inp → s.internal.enabling = false ∨ FaultSeen s inp)) := by
  refine ⟨faultSeen_of_inRange, ?_, ?_⟩
  · intro h fuel
    have hseen : faultFound (sampled s inp period) = true ↔ FaultSeen s inp := faultFound_sampled s inp period
    rw [← hseen, ← controllerFront_stopped] at h
    exact emcmotController_exists (by rw [h.2.2]; simp) fuel
  · intro fuel t ht
    rw [faultStopped_iff ht]

/-- Inputs at rest, but for the feedback of axis 0 at the lower end of its range. -/
def farInputs : Inputs where
  axis := fun i => ⟨if i = 0 then -2 ^ 31 else 0, false, false, false, false⟩
  jogStop := false
  jogStopImmediate := false
  miscError := fun _ => false

/-- An enabled machine whose axis 0 is commanded to the upper end of its range. -/
noncomputable def farMachine : Machine Wrapped :=
  { initBuffers 3 with
    internal := { (initBuffers 3 : Machine Wrapped).internal with enabling := true }
    axes := fun i => if i = 0 then
        { initAxis with posCmd := 2 ^ 31 - 1, flag := ⟨true, true, true, false, false, false, false, false⟩ }
      else initAxis }

/-- A following error of almost the whole range wraps around to one unit, and the cycle goes on. -/
theorem faulted_not_stopped : ∃ t, Faulted farMachine farInputs ∧
    emcmotController farMachine farInputs motionThreadPeriod 1 = some t ∧ ¬ FaultStopped farMachine t := by
  have hfb : (farMachine.axes 0).feedback (farInputs.axis 0) = -2 ^ 31 := by decide
  have hlimit : (farMachine.axes 0).computeFerrorLimit = 400 := rfl
  have hfault : Faulted farMachine farInputs := by
    refine .inl ⟨0, ⟨rfl, rfl⟩, .inr ?_⟩
    rw [hfb, hlimit]
    decide
  have hseen : ¬ FaultSeen farMachine farInputs := by
    rintro (⟨h, -⟩ | ⟨i, ⟨hi, -⟩, h⟩)
    · cases h
    · have hi0 : i = 0 := by
        by_contra hne
        simp [farMachine, hne, initAxis] at hi
      subst hi0
      rcases h with (h | h) | h | h
      · cases h
      · cases h
      · cases h
      · unfold FollowingErrorFound at h
        rw [hfb, hlimit] at h
        revert h
        decide
  have hstate : (controllerFront farMachine farInputs motionThreadPeriod).status.motionState ≠ .coord := by
    rw [controllerFront_motionState]
    exact Modes.next_state_ne_coord _ rfl rfl
  obtain ⟨t, ht⟩ := emcmotController_exists hstate 1
  refine ⟨t, hfault, ht, ?_⟩
  rw [faultStopped_iff ht]
  rintro (h | h)
  · cases h
  · exact hseen h

end SoemMotion
