import SoemMotion.CommandFrame

/-!
# What a cycle does to the modes

The bits that decide the operating mode (`Modes`) are written by `check_for_faults` and `set_operating_mode` only.
After a cycle they are those of `controllerFront`, whatever the planners do, and there they follow from the bits before
the cycle and from the faults found in it.
-/

namespace SoemMotion

variable {K : Type} [Arith K]

/-- The requests, the mode flags and the enable bits. -/
structure Modes where
  enabling : Bool
  freeing : Bool
  coordinating : Bool
  enable : Bool
  free : Bool
  coord : Bool
  axisEnable : Fin 3 → Bool
  axisActive : Fin 3 → Bool

def Machine.modes (s : Machine K) : Modes where
  enabling := s.internal.enabling
  freeing := s.internal.freeing
  coordinating := s.internal.coordinating
  enable := s.status.motionFlag.enable
  free := s.status.motionFlag.free
  coord := s.status.motionFlag.coord
  axisEnable := fun i => (s.axes i).flag.enable
  axisActive := fun i => (s.axes i).flag.active

/-- The end of a fault: nothing is enabled any more. -/
def Machine.Stopped (s : Machine K) : Prop :=
  s.internal.enabling = false ∧ s.status.motionFlag.enable = false ∧ s.status.motionState = .disabled

/-! ### The functions that leave the modes alone -/

/-- `s` with other cycle times. -/
def Machine.retime (s : Machine K) (traj servo cycleTime : K) (rate : Int) (cubic : Fin 3 → Cubic K)
    (servoPeriod lastPeriod : Int) : Machine K :=
  { s with
    config := { s.config with trajCycleTime := traj, servoCycleTime := servo, interpolationRate := rate }
    internal := { s.internal with coordTp := { s.internal.coordTp with cycleTime := cycleTime } }
    axes := fun i => { s.axes i with cubic := cubic i }
    servoPeriod := servoPeriod
    lastPeriod := lastPeriod }

theorem setTrajCycleTime_eq (s : Machine K) (secs : K) : ∃ traj servo cycleTime rate cubic servoPeriod lastPeriod,
    setTrajCycleTime s secs = s.retime traj servo cycleTime rate cubic servoPeriod lastPeriod := by
  unfold setTrajCycleTime tpSetCycleTime
  split
  · exact ⟨_, _, _, _, _, _, _, rfl⟩
  · exact ⟨_, _, _, _, _, _, _, rfl⟩

theorem setServoCycleTime_eq (s : Machine K) (secs : K) : ∃ traj servo cycleTime rate cubic servoPeriod lastPeriod,
    setServoCycleTime s secs = s.retime traj servo cycleTime rate cubic servoPeriod lastPeriod := by
  unfold setServoCycleTime
  split
  · exact ⟨_, _, _, _, _, _, _, rfl⟩
  · exact ⟨_, _, _, _, _, _, _, rfl⟩

theorem emcmotSetCycleTime_eq (s : Machine K) (nsec : Int) : ∃ traj servo cycleTime rate cubic servoPeriod lastPeriod,
    emcmotSetCycleTime s nsec = s.retime traj servo cycleTime rate cubic servoPeriod lastPeriod := by
  obtain ⟨_, _, _, _, _, _, _, h⟩ := setTrajCycleTime_eq s ((nsec : K) * 1e-9)
  unfold emcmotSetCycleTime
  rw [h]
  exact setServoCycleTime_eq _ _

/-- The change of the periods touches nothing else. -/
theorem updatePeriod_eq (s : Machine K) (period : Int) : ∃ traj servo cycleTime rate cubic servoPeriod lastPeriod,
    updatePeriod s period = s.retime traj servo cycleTime rate cubic servoPeriod lastPeriod := by
  unfold updatePeriod
  dsimp only
  generalize (if Arith.trunc ((period : K) * 0.000000001) < 1 then 1
    else Arith.trunc ((period : K) * 0.000000001)) = servo
  split
  · obtain ⟨_, _, _, _, _, _, _, h⟩ := emcmotSetCycleTime_eq { s with servoPeriod := servo } period
    rw [h]
    exact ⟨_, _, _, _, _, _, _, rfl⟩
  · exact ⟨_, _, _, _, _, _, _, rfl⟩

theorem initMachine_eq (numAxes : Int) : ∃ traj servo cycleTime rate cubic servoPeriod lastPeriod,
    (initMachine numAxes : Machine K) =
      (initBuffers numAxes).retime traj servo cycleTime rate cubic servoPeriod lastPeriod := by
  obtain ⟨_, _, _, _, _, _, _, h⟩ :=
    setServoCycleTime_eq (initBuffers numAxes : Machine K) ((servoPeriodNsec : K) * 1e-9)
  unfold initMachine
  rw [h]
  exact setTrajCycleTime_eq _ _

theorem updatePeriod_modes (s : Machine K) (period : Int) : (updatePeriod s period).modes = s.modes := by
  obtain ⟨_, _, _, _, _, _, _, h⟩ := updatePeriod_eq s period
  rw [h]
  rfl

theorem updatePeriod_status (s : Machine K) (period : Int) : (updatePeriod s period).status = s.status := by
  obtain ⟨_, _, _, _, _, _, _, h⟩ := updatePeriod_eq s period
  rw [h]
  rfl

theorem processAxisInputs_enable (axis : Axis K) (inp : AxisInput) :
    (processAxisInputs axis inp).flag.enable = axis.flag.enable := by
  unfold processAxisInputs
  split <;> rfl

theorem processAxisInputs_active (axis : Axis K) (inp : AxisInput) :
    (processAxisInputs axis inp).flag.active = axis.flag.active := by
  unfold processAxisInputs
  split <;> rfl

/-- `process_inputs` writes the samples of the axes and the teleop planners only. -/
theorem processInputs_eq (s : Machine K) (inp : Inputs) : ∃ axisArray, processInputs s inp =
    { s with axes := fun i => processAxisInputs (s.axes i) (inp.axis i), axisArray := axisArray } := by
  unfold processInputs stopJogOnRequest
  generalize (if s.hal.jogIsActive then 1 else 0 : UInt8) = isActive
  dsimp only
  split
  · exact ⟨_, rfl⟩
  · exact ⟨s.axisArray, rfl⟩

theorem processInputs_axes (s : Machine K) (inp : Inputs) (i : Fin 3) :
    (processInputs s inp).axes i = processAxisInputs (s.axes i) (inp.axis i) := by
  obtain ⟨axisArray, h⟩ := processInputs_eq s inp
  rw [h]

theorem processInputs_status (s : Machine K) (inp : Inputs) : (processInputs s inp).status = s.status := by
  obtain ⟨axisArray, h⟩ := processInputs_eq s inp
  rw [h]

theorem processInputs_internal (s : Machine K) (inp : Inputs) : (processInputs s inp).internal = s.internal := by
  obtain ⟨axisArray, h⟩ := processInputs_eq s inp
  rw [h]

theorem processInputs_hal (s : Machine K) (inp : Inputs) : (processInputs s inp).hal = s.hal := by
  obtain ⟨axisArray, h⟩ := processInputs_eq s inp
  rw [h]

theorem processInputs_config (s : Machine K) (inp : Inputs) : (processInputs s inp).config = s.config := by
  obtain ⟨axisArray, h⟩ := processInputs_eq s inp
  rw [h]

theorem processInputs_modes (s : Machine K) (inp : Inputs) : (processInputs s inp).modes = s.modes := by
  simp only [Machine.modes, processInputs_axes, processInputs_status, processInputs_internal,
    processAxisInputs_enable, processAxisInputs_active]

theorem freeAxisCycle_enable (axis : Axis K) (maxacc servoPeriod : Int) :
    (freeAxisCycle axis maxacc servoPeriod).flag.enable = axis.flag.enable := by
  unfold freeAxisCycle
  split <;> rfl

theorem freeAxisCycle_active (axis : Axis K) (maxacc servoPeriod : Int) :
    (freeAxisCycle axis maxacc servoPeriod).flag.active = axis.flag.active := by
  unfold freeAxisCycle
  split <;> rfl

theorem freeCycle_modes (s : Machine K) : (freeCycle s).modes = s.modes := by
  simp only [Machine.modes, freeCycle, Machine.setInpos, freeAxisCycle_enable, freeAxisCycle_active]

theorem feedAxis_flag (axis : Axis K) (point : Int) : (feedAxis axis point).flag = axis.flag := by
  unfold feedAxis
  split <;> rfl

theorem coordFeed_flag (inp : Inputs) (s : Machine K) (i : Fin 3) :
    ((coordFeed inp s).axes i).flag = (s.axes i).flag := feedAxis_flag _ _

theorem coordFeed_modes (inp : Inputs) (s : Machine K) : (coordFeed inp s).modes = s.modes := by
  simp only [Machine.modes, coordFeed_flag]
  rfl

theorem interpolateAxis_flag (axis : Axis K) : (interpolateAxis axis).flag = axis.flag := by
  unfold interpolateAxis
  split <;> rfl

theorem coordEnd_modes (s : Machine K) : (coordEnd s).modes = s.modes := by
  simp only [Machine.modes, coordEnd, Machine.setInpos, interpolateAxis_flag]

/-- What the planning of each mode keeps. -/
structure KeptByPlanning (inp : Inputs) (P : Machine K → Prop) : Prop where
  free : ∀ s, P s → P (freeCycle s)
  start : ∀ s, P s → P (coordBegin s)
  feed : ∀ s, P s → P (coordFeed inp s)
  finish : ∀ s, P s → P (coordEnd s)
  disabled : ∀ s, P s → P (disabledCycle s)

theorem KeptByPlanning.planPositions {P : Machine K → Prop} {inp : Inputs} (hP : KeptByPlanning inp P) {fuel : Nat}
    {s t : Machine K} (hs : P s) (h : planPositions inp fuel s = some t) : P t := by
  unfold SoemMotion.planPositions at h
  split at h
  · cases h
    exact hP.free s hs
  · obtain ⟨u, hu, rfl⟩ := Option.map_eq_some_iff.1 h
    exact hP.finish u (Lib.whileFuel_invariant (fun v _ hv => hP.feed v hv) (hP.start s hs) hu)
  · cases h
    exact hP.disabled s hs

theorem planPositions_modes {inp : Inputs} {fuel : Nat} {s t : Machine K} (h : planPositions inp fuel s = some t) :
    t.modes = s.modes ∧ t.status.motionState = s.status.motionState := by
  have hkept : KeptByPlanning inp fun u : Machine K => u.modes = s.modes ∧ u.status.motionState = s.status.motionState :=
    ⟨fun u h => ⟨(freeCycle_modes u).trans h.1, h.2⟩, fun _ h => h,
      fun u h => ⟨(coordFeed_modes inp u).trans h.1, h.2⟩, fun u h => ⟨(coordEnd_modes u).trans h.1, h.2⟩, fun _ h => h⟩
  exact hkept.planPositions ⟨rfl, rfl⟩ h

/-- The check of the soft limits writes two flags. -/
theorem checkSoftLimits_eq (s : Machine K) : ∃ error onSoftLimit, checkSoftLimits s =
    { s with status := { s.status with
        motionFlag := { s.status.motionFlag with error := error }, onSoftLimit := onSoftLimit } } := by
  unfold checkSoftLimits
  split
  · split
    · exact ⟨s.status.motionFlag.error, s.status.onSoftLimit, rfl⟩
    · exact ⟨true, true, rfl⟩
  · exact ⟨s.status.motionFlag.error, false, rfl⟩

theorem checkSoftLimits_modes (s : Machine K) :
    (checkSoftLimits s).modes = s.modes ∧ (checkSoftLimits s).status.motionState = s.status.motionState := by
  obtain ⟨error, onSoftLimit, h⟩ := checkSoftLimits_eq s
  rw [h]
  exact ⟨rfl, rfl⟩

theorem checkSoftLimits_axes (s : Machine K) : (checkSoftLimits s).axes = s.axes := by
  obtain ⟨error, onSoftLimit, h⟩ := checkSoftLimits_eq s
  rw [h]

theorem getPosCmds_modes {inp : Inputs} {fuel : Nat} {s t : Machine K} (h : getPosCmds inp fuel s = some t) :
    t.modes = s.modes ∧ t.status.motionState = s.status.motionState := by
  obtain ⟨u, hu, rfl⟩ := Option.map_eq_some_iff.1 h
  obtain ⟨h1, h2⟩ := checkSoftLimits_modes u
  obtain ⟨h3, h4⟩ := planPositions_modes hu
  exact ⟨h1.trans h3, h2.trans h4⟩

theorem outputAxis_cases (axis : Axis K) : ∃ pos, outputAxis axis = { axis with motorPosCmd := pos } := by
  unfold outputAxis
  split
  · exact ⟨_, rfl⟩
  · exact ⟨axis.motorPosCmd, rfl⟩

/-- After the planning a cycle changes nothing of an axis but its output. -/
theorem cycleEnd_axes (s : Machine K) (inp : Inputs) (i : Fin 3) : ∃ pos,
    (updateStatus (outputToHal (checkSoftLimits s)) inp).axes i = { s.axes i with motorPosCmd := pos } := by
  obtain ⟨pos, hpos⟩ := outputAxis_cases ((checkSoftLimits s).axes i)
  refine ⟨pos, ?_⟩
  show outputAxis ((checkSoftLimits s).axes i) = _
  rw [hpos, checkSoftLimits_axes]

theorem outputAxis_flag (axis : Axis K) : (outputAxis axis).flag = axis.flag := by
  unfold outputAxis
  split <;> rfl

theorem outputToHal_modes (s : Machine K) : (outputToHal s).modes = s.modes := by
  simp only [Machine.modes, outputToHal, outputAxis_flag]

/-- A completed cycle ends with the modes of its front part. -/
theorem emcmotController_modes {s t : Machine K} {inp : Inputs} {period : Int} {fuel : Nat}
    (h : emcmotController s inp period fuel = some t) :
    t.modes = (controllerFront s inp period).modes ∧
      t.status.motionState = (controllerFront s inp period).status.motionState := by
  obtain ⟨u, hu, rfl⟩ := Option.map_eq_some_iff.1 h
  obtain ⟨h1, h2⟩ := getPosCmds_modes hu
  constructor
  · rw [← h1, ← outputToHal_modes u]
    rfl
  · rw [← h2]
    rfl

omit [Arith K] in
theorem stopped_congr {s t : Machine K} (hm : s.modes = t.modes)
    (hst : s.status.motionState = t.status.motionState) : s.Stopped ↔ t.Stopped := by
  have h1 : s.internal.enabling = t.internal.enabling := congrArg Modes.enabling hm
  have h2 : s.status.motionFlag.enable = t.status.motionFlag.enable := congrArg Modes.enable hm
  unfold Machine.Stopped
  rw [h1, h2, hst]

/-! ### check_for_faults -/

/-- The state in which `check_for_faults` is called. -/
def sampled (s : Machine K) (inp : Inputs) (period : Int) : Machine K :=
  processInputs (handleInterpolation (updatePeriod s period)) inp

/-- Some fault is found. -/
def faultFound (s : Machine K) : Bool :=
  machineTrips s || axisTrips s.status 0 (s.axes 0) || axisTrips s.status 1 (s.axes 1) ||
    axisTrips s.status 2 (s.axes 2)

omit [Arith K] in
theorem faultFound_iff (s : Machine K) :
    faultFound s = true ↔ machineTrips s = true ∨ ∃ i, axisTrips s.status i (s.axes i) = true := by
  unfold faultFound
  simp only [Bool.or_eq_true, Fin.exists_fin_succ]
  constructor
  · rintro (((h | h) | h) | h)
    · exact .inl h
    · exact .inr (.inl h)
    · exact .inr (.inr (.inl h))
    · exact .inr (.inr (.inr (.inl h)))
  · rintro (h | h | h | h | ⟨i, _⟩)
    · exact .inl (.inl (.inl h))
    · exact .inl (.inl (.inr h))
    · exact .inl (.inr h)
    · exact .inr h
    · exact i.elim0

omit [Arith K] in
theorem checkForFaults_enabling (s : Machine K) :
    (checkForFaults s).internal.enabling = (s.internal.enabling && !faultFound s) := rfl

omit [Arith K] in
theorem checkForFaults_flag (s : Machine K) (i : Fin 3) :
    ((checkForFaults s).axes i).flag.enable = (s.axes i).flag.enable ∧
      ((checkForFaults s).axes i).flag.active = (s.axes i).flag.active := by
  show (if _ then _ else _ : Axis K).flag.enable = _ ∧ (if _ then _ else _ : Axis K).flag.active = _
  split <;> exact ⟨rfl, rfl⟩

omit [Arith K] in
theorem checkForFaults_modes (s : Machine K) :
    (checkForFaults s).modes = { s.modes with enabling := s.internal.enabling && !faultFound s } := by
  simp only [Machine.modes, checkForFaults_enabling, checkForFaults_flag]
  rfl

theorem sampled_modes (s : Machine K) (inp : Inputs) (period : Int) : (sampled s inp period).modes = s.modes := by
  unfold sampled
  rw [processInputs_modes]
  exact updatePeriod_modes s period

/-! ### set_operating_mode -/

/-- The modes `set_operating_mode` leaves, from those it finds and the in-position flag. -/
def Modes.next (m : Modes) (inpos : Bool) : Modes where
  enabling := m.enabling
  freeing := m.freeing && (m.free || inpos)
  coordinating := m.coordinating && (m.coord || inpos)
  enable := m.enabling
  free := m.free || (m.freeing && inpos)
  coord := m.coord || (m.coordinating && inpos)
  axisEnable := fun i =>
    if m.enabling = m.enable then m.axisEnable i
    else if m.enabling then m.axisActive i || m.axisEnable i else !m.axisActive i && m.axisEnable i
  axisActive := m.axisActive

/-- The state that follows from the modes. -/
def Modes.state (m : Modes) : MotionState :=
  if !m.enable then .disabled else if m.coord then .coord else .free

/-- What each edge and each request in `set_operating_mode` keeps. -/
structure KeptByModes (P : Machine K → Prop) : Prop where
  disable : ∀ s, P s → P { s with
    internal := { s.internal with coordTp := tpClear s.internal.coordTp }
    axes := fun i => disableAxis (s.axes i)
    axisArray := axisJogAbortAll s.axisArray true
    status := { s.status with motionFlag := { s.status.motionFlag with enable := false } } }
  enable : ∀ s, P s → P { s with
    axisArray := fun n => axisInitializeExternalOffset (s.axisArray n)
    internal := { s.internal with coordTp := tpSetPos s.internal.coordTp s.status.cartePosCmd }
    axes := fun i => enableAxis (s.axes i)
    status := { s.status with motionFlag := { s.status.motionFlag with enable := true, error := false } } }
  coord : ∀ s cartePosCmd, P s → P { s with
    internal := { s.internal with
      coordTp := tpSetPos s.internal.coordTp cartePosCmd, overriding := false }
    axes := fun i => { s.axes i with cubic := cubicDrain (s.axes i).cubic }
    status := { s.status with
      cartePosCmd := cartePosCmd, overrideLimitMask := 0
      motionFlag := { s.status.motionFlag with coord := true, error := false } } }
  coordRefused : ∀ s, P s → P { s with internal := { s.internal with coordinating := false } }
  free : ∀ s, P s → P { s with
    axes := fun i => freeAxis (s.axes i)
    status := { s.status with motionFlag := { s.status.motionFlag with free := true, error := false } } }
  freeRefused : ∀ s, P s → P { s with internal := { s.internal with freeing := false } }
  state : ∀ s, P s → P (deriveMotionState s)

theorem KeptByModes.setOperatingMode {P : Machine K → Prop} (hP : KeptByModes P) {s : Machine K} (hs : P s) :
    P (setOperatingMode s) := by
  have hdisable : P (disableMotion s) := by
    unfold disableMotion
    split
    · exact hP.disable s hs
    · exact hs
  have henable : P (enableMotion (disableMotion s)) := by
    unfold enableMotion
    split
    · exact hP.enable _ hdisable
    · exact hdisable
  have hcoord : P (enterCoord (enableMotion (disableMotion s))) := by
    unfold enterCoord
    split
    · split
      · exact hP.coord _ _ henable
      · exact hP.coordRefused _ henable
    · exact henable
  have hfree : P (enterFree (enterCoord (enableMotion (disableMotion s)))) := by
    unfold enterFree
    split
    · split
      · exact hP.free _ hcoord
      · exact hP.freeRefused _ hcoord
    · exact hcoord
  exact hP.state _ hfree

theorem disableMotion_idle {s : Machine K} (h : s.internal.enabling = true) : disableMotion s = s := by
  unfold disableMotion
  rw [h]
  rfl

/-- Motion that is enabled, or not to be, is not enabled anew. -/
theorem enableMotion_idle {s : Machine K} (h : s.internal.enabling = true → s.status.motionFlag.enable = true) :
    enableMotion (disableMotion s) = disableMotion s := by
  unfold enableMotion disableMotion
  cases he : s.internal.enabling with
  | false => split <;> simp [he]
  | true => simp [h he, he]

theorem enterCoord_idle {s : Machine K} (h : s.internal.coordinating = false) : enterCoord s = s := by
  unfold enterCoord
  rw [h]
  rfl

theorem disableMotion_inpos (s : Machine K) :
    (disableMotion s).status.motionFlag.inpos = s.status.motionFlag.inpos := by
  unfold disableMotion
  split <;> rfl

theorem enableMotion_inpos (s : Machine K) :
    (enableMotion s).status.motionFlag.inpos = s.status.motionFlag.inpos := by
  unfold enableMotion
  split <;> rfl

theorem enterCoord_inpos (s : Machine K) :
    (enterCoord s).status.motionFlag.inpos = s.status.motionFlag.inpos := by
  unfold enterCoord
  split
  · split <;> rfl
  · rfl

theorem disableAxis_active (axis : Axis K) : (disableAxis axis).flag.active = axis.flag.active := by
  show (if _ then _ else _ : AxisFlag).active = _
  split <;> rfl

theorem disableAxis_enable (axis : Axis K) :
    (disableAxis axis).flag.enable = (!axis.flag.active && axis.flag.enable) := by
  show (if _ then _ else _ : AxisFlag).enable = _
  split
  · rename_i h
    simp [h]
  · rename_i h
    simp [h]

/-- What the falling edge of motion enable does to the modes. -/
def Modes.fall (m : Modes) : Modes :=
  if !m.enabling && m.enable then
    { m with enable := false, axisEnable := fun i => !m.axisActive i && m.axisEnable i }
  else m

/-- What the rising edge does. -/
def Modes.rise (m : Modes) : Modes :=
  if m.enabling && !m.enable then { m with enable := true, axisEnable := fun i => m.axisActive i || m.axisEnable i }
  else m

def Modes.enterCoord (m : Modes) (inpos : Bool) : Modes :=
  { m with coordinating := m.coordinating && (m.coord || inpos), coord := m.coord || (m.coordinating && inpos) }

def Modes.enterFree (m : Modes) (inpos : Bool) : Modes :=
  { m with freeing := m.freeing && (m.free || inpos), free := m.free || (m.freeing && inpos) }

theorem disableMotion_modes (s : Machine K) : (disableMotion s).modes = s.modes.fall := by
  unfold disableMotion Modes.fall
  show (if (!s.internal.enabling && s.status.motionFlag.enable) = true then _ else s : Machine K).modes =
    if (!s.internal.enabling && s.status.motionFlag.enable) = true then _ else s.modes
  split
  · simp only [Machine.modes, disableAxis_active, disableAxis_enable]
  · rfl

theorem enableMotion_modes (s : Machine K) : (enableMotion s).modes = s.modes.rise := by
  unfold enableMotion Modes.rise
  show (if (s.internal.enabling && !s.status.motionFlag.enable) = true then _ else s : Machine K).modes =
    if (s.internal.enabling && !s.status.motionFlag.enable) = true then _ else s.modes
  split <;> rfl

omit [Arith K] in
theorem enterFree_modes (s : Machine K) : (enterFree s).modes = s.modes.enterFree s.status.motionFlag.inpos := by
  unfold enterFree
  cases hc : s.internal.freeing <;> cases hf : s.status.motionFlag.free <;>
    cases hi : s.status.motionFlag.inpos <;> simp [Machine.modes, Modes.enterFree, freeAxis, hc, hf, hi]

theorem enterCoord_modes (s : Machine K) : (enterCoord s).modes = s.modes.enterCoord s.status.motionFlag.inpos := by
  unfold enterCoord
  cases hc : s.internal.coordinating <;> cases hf : s.status.motionFlag.coord <;>
    cases hi : s.status.motionFlag.inpos <;> simp [Machine.modes, Modes.enterCoord, hc, hf, hi]

theorem Modes.next_eq (m : Modes) (inpos : Bool) :
    m.next inpos = (m.fall.rise.enterCoord inpos).enterFree inpos := by
  obtain ⟨enabling, freeing, coordinating, enable, free, coord, axisEnable, axisActive⟩ := m
  cases enabling <;> cases enable <;> rfl

/-- The modes after `set_operating_mode`. -/
theorem setOperatingMode_modes (s : Machine K) :
    (setOperatingMode s).modes = s.modes.next s.status.motionFlag.inpos := by
  show (enterFree (enterCoord (enableMotion (disableMotion s)))).modes = _
  rw [enterFree_modes, enterCoord_modes, enableMotion_modes, disableMotion_modes, enterCoord_inpos,
    enableMotion_inpos, disableMotion_inpos, Modes.next_eq]

theorem setOperatingMode_motionState (s : Machine K) :
    (setOperatingMode s).status.motionState = (setOperatingMode s).modes.state := rfl

/-! ### The front of the cycle -/

theorem sampled_motionFlag (s : Machine K) (inp : Inputs) (period : Int) :
    (sampled s inp period).status.motionFlag = s.status.motionFlag := by
  unfold sampled
  rw [processInputs_status]
  show (updatePeriod s period).status.motionFlag = _
  rw [updatePeriod_status]

/-- The modes after the front of a cycle: a fault clears `enabling`, then the modes take their next value. -/
theorem controllerFront_modes (s : Machine K) (inp : Inputs) (period : Int) :
    (controllerFront s inp period).modes =
      Modes.next { s.modes with enabling := s.internal.enabling && !faultFound (sampled s inp period) }
        s.status.motionFlag.inpos := by
  have hm := sampled_modes s inp period
  have he : (sampled s inp period).internal.enabling = s.internal.enabling := congrArg Modes.enabling hm
  show (setOperatingMode (checkForFaults (sampled s inp period))).modes = _
  rw [setOperatingMode_modes, checkForFaults_modes, hm, he]
  show Modes.next _ (sampled s inp period).status.motionFlag.inpos = _
  rw [sampled_motionFlag]

theorem controllerFront_motionState (s : Machine K) (inp : Inputs) (period : Int) :
    (controllerFront s inp period).status.motionState =
      (Modes.next { s.modes with enabling := s.internal.enabling && !faultFound (sampled s inp period) }
        s.status.motionFlag.inpos).state := by
  rw [← controllerFront_modes]
  exact setOperatingMode_motionState _

/-- Coordinated mode is entered on request only. -/
theorem Modes.next_state_ne_coord {m : Modes} (inpos : Bool) (h : m.coord = false) (h' : m.coordinating = false) :
    (m.next inpos).state ≠ .coord := by
  unfold Modes.state Modes.next
  rw [h, h']
  dsimp only
  split <;> simp

theorem Modes.next_state_coord (m : Modes) (inpos : Bool) : (m.next inpos).state = .coord ↔
    m.enabling = true ∧ (m.coord = true ∨ m.coordinating = true ∧ inpos = true) := by
  obtain ⟨enabling, freeing, coordinating, enable, free, coord, axisEnable, axisActive⟩ := m
  cases enabling <;> cases coordinating <;> cases coord <;> cases inpos <;> simp [Modes.next, Modes.state]

/-- Outside coordinated mode every cycle completes. -/
theorem emcmotController_exists {s : Machine K} {inp : Inputs} {period : Int}
    (h : (controllerFront s inp period).status.motionState ≠ .coord) (fuel : Nat) :
    ∃ t, emcmotController s inp period fuel = some t := by
  unfold emcmotController getPosCmds planPositions
  cases hst : (controllerFront s inp period).status.motionState with
  | coord => exact absurd hst h
  | free => exact ⟨_, rfl⟩
  | disabled => exact ⟨_, rfl⟩

/-- The state a cycle without a fault derives while motion is enabled. -/
theorem emcmotController_motionState {s t : Machine K} {inp : Inputs} {period : Int} {fuel : Nat}
    (hen : s.internal.enabling = true) (hf : faultFound (sampled s inp period) = false)
    (h : emcmotController s inp period fuel = some t) :
    t.status.motionState =
      if s.status.motionFlag.coord || (s.internal.coordinating && s.status.motionFlag.inpos) then .coord
      else .free := by
  rw [(emcmotController_modes h).2, controllerFront_motionState, hen, hf]
  rfl

/-- A cycle ends stopped exactly when motion was not enabled or a fault is found. -/
theorem controllerFront_stopped (s : Machine K) (inp : Inputs) (period : Int) :
    (controllerFront s inp period).Stopped ↔
      s.internal.enabling = false ∨ faultFound (sampled s inp period) = true := by
  have hm := controllerFront_modes s inp period
  have h1 : (controllerFront s inp period).internal.enabling =
      (s.internal.enabling && !faultFound (sampled s inp period)) := congrArg Modes.enabling hm
  have h2 : (controllerFront s inp period).status.motionFlag.enable =
      (s.internal.enabling && !faultFound (sampled s inp period)) := congrArg Modes.enable hm
  have h3 := controllerFront_motionState s inp period
  unfold Machine.Stopped
  rw [h1, h2]
  constructor
  · rintro ⟨h, -, -⟩
    cases he : s.internal.enabling
    · exact .inl rfl
    · right
      simpa [he] using h
  · intro h
    have hb : (s.internal.enabling && !faultFound (sampled s inp period)) = false := by
      rcases h with h | h <;> simp [h]
    refine ⟨hb, hb, ?_⟩
    rw [h3]
    simp [Modes.state, Modes.next, hb]

/-! ### What a cycle leaves alone -/

/-- The settings of an axis are the same. -/
structure AxisSettingsKept (a b : Axis K) : Prop where
  maxJogLimit : b.maxJogLimit = a.maxJogLimit
  minJogLimit : b.minJogLimit = a.minJogLimit
  velLimit : b.velLimit = a.velLimit
  motorOffset : b.motorOffset = a.motorOffset
  minFerror : b.minFerror = a.minFerror
  maxFerror : b.maxFerror = a.maxFerror
  active : b.flag.active = a.flag.active

/-- The commands and settings that a cycle only reads are the same in both states. -/
structure CycleKeeps (s t : Machine K) : Prop where
  command : t.command = s.command
  commandNumEcho : t.status.commandNumEcho = s.status.commandNumEcho
  enablesNew : t.status.enablesNew = s.status.enablesNew
  netFeedScale : t.status.netFeedScale = s.status.netFeedScale
  maxacc : t.status.maxacc = s.status.maxacc
  numAxes : t.config.numAxes = s.config.numAxes
  numMiscError : t.config.numMiscError = s.config.numMiscError
  limitVel : t.config.limitVel = s.config.limitVel
  maxAxisScale : t.config.maxAxisScale = s.config.maxAxisScale
  arcBlendOptDepth : t.config.arcBlendOptDepth = s.config.arcBlendOptDepth
  arcBlendRampFreq : t.config.arcBlendRampFreq = s.config.arcBlendRampFreq
  halEnable : t.hal.enable = s.hal.enable
  axis : ∀ i, AxisSettingsKept (s.axes i) (t.axes i)

omit [Arith K] in
theorem AxisSettingsKept.refl (a : Axis K) : AxisSettingsKept a a := ⟨rfl, rfl, rfl, rfl, rfl, rfl, rfl⟩

omit [Arith K] in
theorem AxisSettingsKept.trans {a b c : Axis K} (h : AxisSettingsKept a b) (h' : AxisSettingsKept b c) :
    AxisSettingsKept a c where
  maxJogLimit := h'.maxJogLimit.trans h.maxJogLimit
  minJogLimit := h'.minJogLimit.trans h.minJogLimit
  velLimit := h'.velLimit.trans h.velLimit
  motorOffset := h'.motorOffset.trans h.motorOffset
  minFerror := h'.minFerror.trans h.minFerror
  maxFerror := h'.maxFerror.trans h.maxFerror
  active := h'.active.trans h.active

omit [Arith K] in
theorem CycleKeeps.refl (s : Machine K) : CycleKeeps s s :=
  ⟨rfl, rfl, rfl, rfl, rfl, rfl, rfl, rfl, rfl, rfl, rfl, rfl, fun _ => .refl _⟩

omit [Arith K] in
theorem CycleKeeps.trans {s t u : Machine K} (h : CycleKeeps s t) (h' : CycleKeeps t u) : CycleKeeps s u where
  command := h'.command.trans h.command
  commandNumEcho := h'.commandNumEcho.trans h.commandNumEcho
  enablesNew := h'.enablesNew.trans h.enablesNew
  netFeedScale := h'.netFeedScale.trans h.netFeedScale
  maxacc := h'.maxacc.trans h.maxacc
  numAxes := h'.numAxes.trans h.numAxes
  numMiscError := h'.numMiscError.trans h.numMiscError
  limitVel := h'.limitVel.trans h.limitVel
  maxAxisScale := h'.maxAxisScale.trans h.maxAxisScale
  arcBlendOptDepth := h'.arcBlendOptDepth.trans h.arcBlendOptDepth
  arcBlendRampFreq := h'.arcBlendRampFreq.trans h.arcBlendRampFreq
  halEnable := h'.halEnable.trans h.halEnable
  axis := fun i => (h.axis i).trans (h'.axis i)

theorem updatePeriod_cycleKeeps (s : Machine K) (period : Int) : CycleKeeps s (updatePeriod s period) := by
  obtain ⟨_, _, _, _, _, _, _, h⟩ := updatePeriod_eq s period
  rw [h]
  exact { CycleKeeps.refl s with axis := fun _ => { AxisSettingsKept.refl _ with } }

theorem processAxisInputs_kept (axis : Axis K) (inp : AxisInput) :
    AxisSettingsKept axis (processAxisInputs axis inp) := by
  unfold processAxisInputs
  split
  · exact .refl _
  · exact { AxisSettingsKept.refl axis with }

theorem sampled_cycleKeeps (s : Machine K) (inp : Inputs) (period : Int) : CycleKeeps s (sampled s inp period) := by
  have h1 : CycleKeeps s (handleInterpolation (updatePeriod s period)) :=
    { updatePeriod_cycleKeeps s period with }
  obtain ⟨axisArray, h2⟩ := processInputs_eq (handleInterpolation (updatePeriod s period)) inp
  unfold sampled
  rw [h2]
  exact { h1 with axis := fun i => (h1.axis i).trans (processAxisInputs_kept _ _) }

omit [Arith K] in
theorem checkForFaults_cycleKeeps (s : Machine K) : CycleKeeps s (checkForFaults s) := by
  refine { CycleKeeps.refl s with axis := ?_ }
  intro i
  show AxisSettingsKept _ (if _ then _ else _)
  split
  · exact { AxisSettingsKept.refl _ with }
  · exact .refl _

theorem disableAxis_kept (axis : Axis K) : AxisSettingsKept axis (disableAxis axis) :=
  { AxisSettingsKept.refl axis with active := disableAxis_active axis }

theorem setOperatingMode_cycleKeeps (s : Machine K) : CycleKeeps s (setOperatingMode s) := by
  have hkept : KeptByModes (CycleKeeps s) := by
    constructor
    case disable => exact fun _ h => { h with axis := fun i => (h.axis i).trans (disableAxis_kept _) }
    case coordRefused => exact fun _ h => { h with }
    case freeRefused => exact fun _ h => { h with }
    case state => exact fun _ h => { h with }
    all_goals
      intros
      rename_i h
      exact { h with axis := fun i => (h.axis i).trans { AxisSettingsKept.refl _ with } }
  exact hkept.setOperatingMode (.refl s)

theorem controllerFront_cycleKeeps (s : Machine K) (inp : Inputs) (period : Int) :
    CycleKeeps s (controllerFront s inp period) :=
  ((sampled_cycleKeeps s inp period).trans (checkForFaults_cycleKeeps _)).trans (setOperatingMode_cycleKeeps _)

theorem freeAxisCycle_kept (axis : Axis K) (maxacc servoPeriod : Int) :
    AxisSettingsKept axis (freeAxisCycle axis maxacc servoPeriod) := by
  unfold freeAxisCycle
  split
  · exact .refl _
  · exact { AxisSettingsKept.refl axis with }

theorem feedAxis_kept (axis : Axis K) (point : Int) : AxisSettingsKept axis (feedAxis axis point) := by
  unfold feedAxis
  split
  · exact .refl _
  · exact { AxisSettingsKept.refl axis with }

theorem interpolateAxis_kept (axis : Axis K) : AxisSettingsKept axis (interpolateAxis axis) := by
  unfold interpolateAxis
  split
  · exact .refl _
  · exact { AxisSettingsKept.refl axis with }

theorem coordFeed_cycleKeeps (inp : Inputs) (s : Machine K) : CycleKeeps s (coordFeed inp s) :=
  { CycleKeeps.refl s with axis := fun _ => feedAxis_kept _ _ }

theorem planPositions_cycleKeeps {inp : Inputs} {fuel : Nat} {s t : Machine K}
    (h : planPositions inp fuel s = some t) : CycleKeeps s t := by
  have hkept : KeptByPlanning inp (CycleKeeps s) := by
    constructor
    case free => exact fun _ h => { h with axis := fun i => (h.axis i).trans (freeAxisCycle_kept _ _ _) }
    case start => exact fun _ h => { h with }
    case feed => exact fun u h => h.trans (coordFeed_cycleKeeps inp u)
    case finish => exact fun _ h => { h with axis := fun i => (h.axis i).trans (interpolateAxis_kept _) }
    case disabled => exact fun _ h => { h with axis := fun i => (h.axis i).trans { AxisSettingsKept.refl _ with } }
  exact hkept.planPositions (.refl s) h

theorem checkSoftLimits_cycleKeeps (s : Machine K) : CycleKeeps s (checkSoftLimits s) := by
  obtain ⟨error, onSoftLimit, h⟩ := checkSoftLimits_eq s
  rw [h]
  exact { CycleKeeps.refl s with }

theorem outputAxis_kept (axis : Axis K) : AxisSettingsKept axis (outputAxis axis) := by
  unfold outputAxis
  split
  · exact { AxisSettingsKept.refl axis with }
  · exact .refl _

/-- A cycle leaves the command block and the settings as they are. -/
theorem emcmotController_cycleKeeps {s t : Machine K} {inp : Inputs} {period : Int} {fuel : Nat}
    (h : emcmotController s inp period fuel = some t) : CycleKeeps s t := by
  obtain ⟨u, hu, rfl⟩ := Option.map_eq_some_iff.1 h
  obtain ⟨v, hv, rfl⟩ := Option.map_eq_some_iff.1 hu
  have h1 : CycleKeeps s (checkSoftLimits v) :=
    ((controllerFront_cycleKeeps s inp period).trans (planPositions_cycleKeeps hv)).trans
      (checkSoftLimits_cycleKeeps v)
  exact { h1 with axis := fun i => (h1.axis i).trans (outputAxis_kept _) }

/-! ### The in-position flag -/

theorem controllerFront_inpos (s : Machine K) (inp : Inputs) (period : Int) :
    (controllerFront s inp period).status.motionFlag.inpos = s.status.motionFlag.inpos := by
  have hkept : KeptByModes fun u : Machine K => u.status.motionFlag.inpos = s.status.motionFlag.inpos :=
    ⟨fun _ h => h, fun _ h => h, fun _ _ h => h, fun _ h => h, fun _ h => h, fun _ h => h, fun _ h => h⟩
  refine hkept.setOperatingMode (s := checkForFaults (sampled s inp period)) ?_
  show (sampled s inp period).status.motionFlag.inpos = _
  rw [sampled_motionFlag]

theorem checkSoftLimits_inpos (s : Machine K) :
    (checkSoftLimits s).status.motionFlag.inpos = s.status.motionFlag.inpos := by
  obtain ⟨error, onSoftLimit, h⟩ := checkSoftLimits_eq s
  rw [h]

/-- A disabled machine stays in position. -/
theorem emcmotController_inpos {s t : Machine K} {inp : Inputs} {period : Int} {fuel : Nat}
    (hst : (controllerFront s inp period).status.motionState = .disabled)
    (h : emcmotController s inp period fuel = some t) :
    t.status.motionFlag.inpos = s.status.motionFlag.inpos := by
  unfold emcmotController getPosCmds planPositions at h
  rw [hst] at h
  cases h
  show (checkSoftLimits (disabledCycle (controllerFront s inp period))).status.motionFlag.inpos = _
  rw [checkSoftLimits_inpos]
  exact controllerFront_inpos s inp period

end SoemMotion
