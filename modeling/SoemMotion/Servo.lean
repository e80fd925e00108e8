import SoemMotion.AxisCycle
import SoemMotion.JogContainment

/-!
# The simulated drives

`ecatthread` of `ServoEnable.c` stands for the drives: it hands the position at which the controller has put each axis
back as its feedback, and gives the drive the target that the controller has output.  As long as it runs between any two
calls of the controller, the feedback of an axis is its commanded position in every mode (`drive_follows`), and outside
coordinated mode the drive moves by the commanded velocity and never jumps (`drive_smooth`).  When it comes late, the
following error is what the axis has moved since (`drive_late`).
-/

namespace SoemMotion

open Lib

/-- The machine and its drives: `atomic_actpos`, `atomic_targetpos`, the process data, the pins `motor-pos-fb`, and the
number of calls of the controller since `ecatthread` last ran. -/
structure Servo (K : Type) where
  machine : Machine K
  numAxis : Int
  firstflag : Bool
  atomicActpos : Fin 3 → Int
  atomicTargetpos : Fin 3 → Int
  actualPosition : Fin 3 → Int
  ppTargetPosition : Fin 3 → Int
  motorPosFb : Fin 3 → Int
  cycles : Nat

variable {K : Type} [Arith K]

namespace Servo

/-- The axes of a loop over `num_axis`. -/
def drives (d : Servo K) (i : Fin 3) : Bool := decide ((i.val : Int) < d.numAxis)

/-- A loop over `num_axis` that writes an array. -/
def each {α : Type} (d : Servo K) (old new : Fin 3 → α) (i : Fin 3) : α := if d.drives i then new i else old i

/-- The position of the drives before they have been told any. -/
def firstPosition : Int := 400000000

/-- What `ecatthread` does the first time. -/
def first (d : Servo K) : Servo K :=
  { d with
    firstflag := true
    ppTargetPosition := d.each d.ppTargetPosition fun _ => firstPosition
    actualPosition := d.each d.actualPosition fun _ => firstPosition
    atomicActpos := d.each d.atomicActpos fun _ => firstPosition
    atomicTargetpos := d.each d.atomicTargetpos fun _ => firstPosition
    machine := { d.machine with axes := d.each d.machine.axes fun i =>
      { d.machine.axes i with posCmd := firstPosition, posFb := firstPosition, coarsePos := firstPosition } } }

/-- What `ecatthread` does each time. -/
def exchange (d : Servo K) : Servo K :=
  -- `ActPos` and `InPos` are of the type `int32_t`
  let actPos := fun i => Arith.i32 K (d.atomicActpos i)
  let inPos := fun i => Arith.i32 K (d.atomicTargetpos i)
  { d with
    actualPosition := d.each d.actualPosition actPos
    atomicActpos := d.each d.atomicActpos actPos
    ppTargetPosition := d.each d.ppTargetPosition inPos
    atomicTargetpos := d.each d.atomicTargetpos inPos
    machine := { d.machine with axes := d.each d.machine.axes fun i =>
      { d.machine.axes i with freeTp := { (d.machine.axes i).freeTp with currPos := actPos i } } }
    motorPosFb := d.each d.motorPosFb actPos
    cycles := 0 }

def ecatthread (d : Servo K) : Servo K := (if d.firstflag then d else d.first).exchange

/-- The inputs the controller samples: the feedback is that of the pins. -/
def inputs (d : Servo K) (inp : Inputs) : Inputs :=
  { inp with axis := fun i => { inp.axis i with motorPosFb := d.motorPosFb i } }

/-- What the controller stores for the drives in a cycle that ends in `t`. -/
def store (d : Servo K) (t : Machine K) : Servo K :=
  { d with
    machine := t
    atomicActpos := fun i =>
      if !(t.axes i).flag.active then d.atomicActpos i
      else match t.status.motionState with
        | .free => (t.axes i).freeTp.currPos
        | .coord => (t.axes i).posCmd
        | .disabled => d.atomicActpos i
    atomicTargetpos := fun i =>
      if (t.axes i).flag.active then (t.axes i).motorPosCmd else d.atomicTargetpos i
    cycles := d.cycles + 1 }

/-- The machine before `ecatthread` has run. -/
def boot (numAxes numAxis : Int) : Servo K where
  machine := initMachine numAxes
  numAxis := numAxis
  firstflag := false
  atomicActpos := fun _ => 0
  atomicTargetpos := fun _ => 0
  actualPosition := fun _ => 0
  ppTargetPosition := fun _ => 0
  motorPosFb := fun _ => 0
  cycles := 0

end Servo

inductive ServoEvent (K : Type)
  | pass
  | request (e : Event K)
  | cycle (inp : Inputs)

/-- `ecatthread` runs, or the machine makes a step.  The thread of `ecatthread` has the higher priority, so the
controller is not called before it has run. -/
inductive ServoStep : Servo K → ServoEvent K → Servo K → Prop
  | pass (d : Servo K) : ServoStep d .pass d.ecatthread
  | request {d : Servo K} {e : Event K} {t : Machine K} (he : ∀ inp, e ≠ .cycle inp) (h : Step d.machine e t) :
      ServoStep d (.request e) { d with machine := t }
  | cycle {d : Servo K} {inp : Inputs} {fuel : Nat} {t : Machine K} (hfirst : d.firstflag = true)
      (h : emcmotController d.machine (d.inputs inp) motionThreadPeriod fuel = some t) :
      ServoStep d (.cycle inp) (d.store t)

/-! ### What requests leave alone -/

/-- Where an axis is, as the controller, its planner and its drive have it. -/
def Axis.place (axis : Axis K) : Int × Int × Int × Int × Int :=
  (axis.posCmd, axis.posFb, axis.motorPosCmd, axis.motorOffset, axis.freeTp.currPos)

/-- An update of an axis that leaves it where it is. -/
def AxisStays (f : Axis K → Axis K) : Prop := ∀ axis, (f axis).place = axis.place

omit [Arith K] in
theorem AxisStays.updateAxis {f : Axis K → Axis K} (hf : AxisStays f) (s : Machine K) (k i : Fin 3) :
    ((s.updateAxis k f).axes i).place = (s.axes i).place := by
  show (if i = k then f (s.axes i) else s.axes i).place = _
  split
  · exact hf _
  · rfl

omit [Arith K] in
theorem AxisStays.mapConfigured {f : Axis K → Axis K} (hf : AxisStays f) (s : Machine K) (i : Fin 3) :
    ((s.mapConfigured f).axes i).place = (s.axes i).place := by
  show (if s.isConfigured i then f (s.axes i) else s.axes i).place = _
  split
  · exact hf _
  · rfl

omit [Arith K] in
theorem AxisStays.writeAxis {f : Axis K → Axis K} (hf : AxisStays f) {s t : Machine K} {n : Int}
    (h : s.writeAxis n f = some t) (i : Fin 3) : (t.axes i).place = (s.axes i).place := by
  obtain ⟨k, -, rfl⟩ := Option.map_eq_some_iff.1 h
  exact hf.updateAxis s k i

omit [Arith K] in
theorem jogChecked_place {s t : Machine K} {j : Bool} {jog : Fin 3 → Machine K} (i : Fin 3)
    (hjog : ∀ k, ((jog k).axes i).place = (s.axes i).place) (h : jogChecked s j jog = some t) :
    (t.axes i).place = (s.axes i).place := by
  have herror : AxisStays fun axis : Axis K => axis.setError true := fun _ => rfl
  unfold jogChecked at h
  split at h
  · exact herror.writeAxis h i
  · split at h
    · cases h
      rfl
    · obtain ⟨k, -, rfl⟩ := Option.map_eq_some_iff.1 h
      split
      · exact herror.updateAxis s k i
      · exact hjog k

omit [Arith K] in
theorem abortMotion_place (s : Machine K) (i : Fin 3) : ((abortMotion s).axes i).place = (s.axes i).place := by
  have hstop : AxisStays (Axis.stopFree : Axis K → Axis K) := fun _ => rfl
  have hclear : AxisStays (Axis.clearFaults : Axis K → Axis K) := fun _ => rfl
  refine (hclear.mapConfigured _ i).trans ?_
  show (Machine.axes (if s.status.motionFlag.coord then s.setTp (tpAbort s.internal.coordTp)
    else s.mapConfigured Axis.stopFree) i).place = _
  split
  · rfl
  · exact hstop.mapConfigured s i

theorem appendLine_place (s : Machine K) (i : Fin 3) : ((appendLine s).axes i).place = (s.axes i).place := by
  have hrequest : AxisStays (Axis.requestPoint : Axis K → Axis K) := fun _ => rfl
  unfold appendLine
  generalize addCommandedLine s = added
  obtain ⟨tp, res⟩ := added
  dsimp only
  split
  · rfl
  · exact hrequest.updateAxis s 0 i

theorem executeCommand_place {s t : Machine K} {j : Bool} (h : executeCommand s j = some t) (i : Fin 3) :
    (t.axes i).place = (s.axes i).place := by
  unfold executeCommand at h
  cases hcmd : s.command.command <;> rw [hcmd] at h
  case jogCont =>
    have hjog : AxisStays fun axis : Axis K => jogContAxis axis s.command := fun _ => rfl
    have hstays : ∀ k, ((jogCont s k).axes i).place = (s.axes i).place := fun k => hjog.updateAxis s k i
    exact jogChecked_place i hstays h
  case jogIncr =>
    refine jogChecked_place i (fun k => ?_) h
    have hjog : AxisStays fun axis : Axis K => jogIncrAxis axis s.command := fun _ => rfl
    rcases jogIncr_cases s k with hk | ⟨-, -, hk⟩ <;> rw [hk]
    exact hjog.updateAxis s k i
  case jogAbs =>
    have hjog : AxisStays fun axis : Axis K => jogAbsAxis axis s.command := fun _ => rfl
    have hstays : ∀ k, ((jogAbs s k).axes i).place = (s.axes i).place := fun k => hjog.updateAxis s k i
    exact jogChecked_place i hstays h
  case jogAbort =>
    have hjog : AxisStays (jogAbortAxis : Axis K → Axis K) := fun _ => rfl
    exact hjog.writeAxis h i
  case axisEnable =>
    have hactive : AxisStays fun axis : Axis K => axis.setActive true := fun _ => rfl
    rcases axisEnable_eq h with ⟨-, rfl⟩ | ⟨-, h⟩
    · rfl
    · obtain ⟨k, -, rfl⟩ := Option.map_eq_some_iff.1 h
      exact hactive.updateAxis s k i
  case axisDisable =>
    have hactive : AxisStays fun axis : Axis K => axis.setActive false := fun _ => rfl
    obtain ⟨k, -, rfl⟩ := Option.map_eq_some_iff.1 h
    exact hactive.updateAxis s k i
  case downloadsConfig =>
    obtain ⟨u, hu, rfl⟩ := Option.map_eq_some_iff.1 h
    have hset : AxisStays fun axis : Axis K => downloadsConfigAxis axis s.command := fun _ => rfl
    exact hset.writeAxis hu i
  case abort =>
    cases h
    exact abortMotion_place s i
  case setLine =>
    cases h
    unfold setLine
    cases hr : coordMoveRefused s with
    | none => exact appendLine_place s i
    | some t =>
      obtain ⟨status, tp, -, -, rfl⟩ := coordMoveRefused_cases hr
      rfl
  case setCircle =>
    cases h
    unfold setCircle
    cases hr : coordMoveRefused s with
    | none =>
      show ((appendCircle s).axes i).place = _
      unfold appendCircle
      dsimp only
      split <;> rfl
    | some t =>
      obtain ⟨status, tp, -, -, rfl⟩ := coordMoveRefused_cases hr
      rfl
  all_goals
    cases h
    rfl

theorem processFrame_place {s t : Machine K} {frame : LinuxFrame} (h : processFrame s frame = some t) (i : Fin 3) :
    (t.axes i).place = (s.axes i).place := by
  have hset : ∀ cmd : Command K, ∀ vel acc, AxisStays fun axis : Axis K => configureAxis axis cmd vel acc :=
    fun _ _ _ _ => rfl
  have hjog : ∀ {code acc cmd}, publishJog s frame code acc cmd = some t → (t.axes i).place = (s.axes i).place := by
    intro code acc cmd h
    obtain ⟨u, hu, rfl⟩ := Option.map_eq_some_iff.1 h
    exact (hset _ _ _).writeAxis hu i
  unfold processFrame at h
  split at h
  · cases h
    rfl
  unfold decodeFrame at h
  split at h
  case h_6 => exact hjog h
  case h_7 => exact hjog h
  case h_8 => exact hjog h
  case h_10 =>
    obtain rfl := Option.some.inj h
    unfold configureLineAxes
    generalize frame.param = param
    dsimp only
    split
    · exact hset _ _ _ _
    · rfl
  all_goals
    obtain rfl := Option.some.inj h
    rfl

/-- Of all steps, only a cycle moves an axis. -/
theorem Step.place {s t : Machine K} {e : Event K} (h : Step s e t) (he : ∀ inp, e ≠ .cycle inp) (i : Fin 3) :
    (t.axes i).place = (s.axes i).place := by
  cases h with
  | frame h => exact processFrame_place h i
  | command c => rfl
  | handle h =>
    rcases emcmotCommandHandler_cases h with ⟨-, h⟩ | ⟨-, rfl⟩
    · exact executeCommand_place h i
    · rfl
  | cycle h => exact absurd rfl (he _)

/-! ### What a cycle does to the place of an axis -/

theorem processAxisInputs_posFb (axis : Axis K) (inp : AxisInput) :
    (processAxisInputs axis inp).posFb = if axis.flag.active then axis.feedback inp else axis.posFb := by
  unfold processAxisInputs
  cases axis.flag.active <;> rfl

/-- The feedback that a cycle has sampled stays the feedback to its end. -/
theorem emcmotController_posFb {s t : Machine K} {inp : Inputs} {period : Int} {fuel : Nat}
    (h : emcmotController s inp period fuel = some t) (i : Fin 3) : (t.axes i).posFb =
      if (s.axes i).flag.active then (s.axes i).feedback (inp.axis i) else (s.axes i).posFb := by
  obtain ⟨cubic, hsampled⟩ := sampled_axes s inp period i
  have hfeedback : ((sampled s inp period).axes i).posFb =
      if (s.axes i).flag.active then (s.axes i).feedback (inp.axis i) else (s.axes i).posFb := by
    rw [hsampled, processAxisInputs_posFb]
    rfl
  have hfaults : ((checkForFaults (sampled s inp period)).axes i).posFb = ((sampled s inp period).axes i).posFb := by
    show (if _ then _ else _ : Axis K).posFb = _
    split <;> rfl
  have hmodes : KeptByModes fun u : Machine K => (u.axes i).posFb = ((sampled s inp period).axes i).posFb :=
    ⟨fun _ h => h, fun _ h => h, fun _ _ h => h, fun _ h => h, fun _ h => h, fun _ h => h, fun _ h => h⟩
  have hfront : ((controllerFront s inp period).axes i).posFb = ((sampled s inp period).axes i).posFb :=
    hmodes.setOperatingMode hfaults
  have hplan : KeptByPlanning inp fun u : Machine K => (u.axes i).posFb = ((sampled s inp period).axes i).posFb := by
    constructor
    case free =>
      intro u hu
      show (freeAxisCycle (u.axes i) _ _).posFb = _
      unfold freeAxisCycle
      split <;> exact hu
    case feed =>
      intro u hu
      show (feedAxis (u.axes i) _).posFb = _
      unfold feedAxis
      split <;> exact hu
    case finish =>
      intro u hu
      show (interpolateAxis (u.axes i)).posFb = _
      unfold interpolateAxis
      split <;> exact hu
    all_goals exact fun _ h => h
  obtain ⟨u, hu, rfl⟩ := Option.map_eq_some_iff.1 h
  obtain ⟨v, hv, rfl⟩ := Option.map_eq_some_iff.1 hu
  obtain ⟨pos, hpos⟩ := cycleEnd_axes v inp i
  rw [hpos, ← hfeedback]
  exact hplan.planPositions hfront hv

/-- A cycle that does not end disabled leaves an axis that is not active where it is. -/
theorem emcmotController_idle {s t : Machine K} {inp : Inputs} {period : Int} {fuel : Nat}
    (h : emcmotController s inp period fuel = some t) (hst : t.status.motionState ≠ .disabled) {i : Fin 3}
    (hidle : (s.axes i).flag.active = false) : (t.axes i).posCmd = (s.axes i).posCmd := by
  have hfront : ((controllerFront s inp period).axes i).posCmd = (s.axes i).posCmd :=
    (controllerFront_freeTp s inp period i).posCmd
  have hactive : ((controllerFront s inp period).axes i).flag.active = false :=
    ((controllerFront_cycleKeeps s inp period).axis i).active.trans hidle
  have hfeed : ∀ u : Machine K, (u.axes i).flag.active = false → (coordFeed inp u).axes i = u.axes i := by
    intro u hu
    show feedAxis (u.axes i) _ = _
    unfold feedAxis
    rw [hu]
    rfl
  rw [(emcmotController_modes h).2] at hst
  obtain ⟨u, hu, rfl⟩ := Option.map_eq_some_iff.1 h
  obtain ⟨v, hv, rfl⟩ := Option.map_eq_some_iff.1 hu
  obtain ⟨pos, hpos⟩ := cycleEnd_axes v inp i
  rw [hpos, ← hfront]
  show (v.axes i).posCmd = _
  unfold planPositions at hv
  split at hv
  · obtain rfl := Option.some.inj hv
    show (freeAxisCycle ((controllerFront s inp period).axes i) _ _).posCmd = _
    unfold freeAxisCycle
    rw [hactive]
    rfl
  · obtain ⟨w, hw, rfl⟩ := Option.map_eq_some_iff.1 hv
    have hsame : w.axes i = (controllerFront s inp period).axes i :=
      Lib.whileFuel_invariant (s := coordBegin (controllerFront s inp period))
        (I := fun u : Machine K => u.axes i = (controllerFront s inp period).axes i)
        (fun u _ hu => (hfeed u (by rw [hu]; exact hactive)).trans hu) rfl hw
    show (interpolateAxis (w.axes i)).posCmd = _
    rw [hsame]
    unfold interpolateAxis
    rw [hactive]
    rfl
  · rename_i hdis
    exact absurd hdis hst

/-- A cycle that ends disabled commands every axis to its feedback. -/
theorem emcmotController_hold {s t : Machine K} {inp : Inputs} {period : Int} {fuel : Nat}
    (h : emcmotController s inp period fuel = some t) (hst : t.status.motionState = .disabled) (i : Fin 3) :
    (t.axes i).posCmd = (t.axes i).posFb ∧ (t.axes i).velCmd = 0 := by
  obtain ⟨hhold, -⟩ := emcmotController_disabled ((emcmotController_modes h).2.symm.trans hst) h
  obtain ⟨pos, hpos⟩ := outputAxis_cases (holdAxis ((controllerFront s inp period).axes i))
  rw [hhold i, hpos]
  exact ⟨rfl, rfl⟩

/-- What is output for an axis is its commanded position. -/
theorem emcmotController_output {s t : Machine K} {inp : Inputs} {period : Int} {fuel : Nat}
    (h : emcmotController s inp period fuel = some t) {i : Fin 3} (hactive : (s.axes i).flag.active = true) :
    (t.axes i).motorPosCmd = Arith.i32 K ((t.axes i).posCmd + (s.axes i).motorOffset) := by
  obtain ⟨u, hu, rfl⟩ := Option.map_eq_some_iff.1 h
  have hkeeps := ((emcmotController_cycleKeeps h).axis i)
  have haxis : (updateStatus (outputToHal u) inp).axes i = outputAxis (u.axes i) := rfl
  rw [haxis] at hkeeps ⊢
  obtain ⟨pos, hpos⟩ := outputAxis_cases (u.axes i)
  have hact : (u.axes i).flag.active = true := by
    rw [← hactive, ← hkeeps.active, outputAxis_flag]
  have hoffset : (u.axes i).motorOffset = (s.axes i).motorOffset := by
    rw [← hkeeps.motorOffset, hpos]
  unfold outputAxis
  rw [if_pos hact, ← hoffset]

/-! ### Runs in turn -/

/-- `ecatthread` runs between any two calls of the controller, and an axis that is active stays so. -/
def InTurn (i : Fin 3) (d : Servo ℝ) : ServoEvent ℝ → Servo ℝ → Prop
  | .pass, _ => True
  | .request _, d' => (d.machine.axes i).flag.active = true → (d'.machine.axes i).flag.active = true
  | .cycle _, _ => d.cycles = 0

/-- The axis is where it is commanded, and so is its target; and what is sampled is no older. -/
structure Servo.Level (i : Fin 3) (d : Servo ℝ) : Prop where
  offset : (d.machine.axes i).motorOffset = 0
  command : (d.machine.axes i).posCmd = d.atomicActpos i
  target : d.atomicTargetpos i = d.atomicActpos i
  idle : (d.machine.axes i).flag.active = false → (d.machine.axes i).posFb = d.atomicActpos i
  fresh : d.cycles = 0 → d.motorPosFb i = d.atomicActpos i ∧ (d.machine.axes i).freeTp.currPos = d.atomicActpos i

namespace Servo

variable {d d' : Servo ℝ} {i : Fin 3} {inp : Inputs} {fuel : Nat} {t : Machine ℝ} {e : ServoEvent ℝ}

/-- Where the exchange leaves an axis that is driven. -/
theorem exchange_drives (hi : d.drives i = true) :
    d.exchange.machine.axes i = { d.machine.axes i with
        freeTp := { (d.machine.axes i).freeTp with currPos := d.atomicActpos i } } ∧
      d.exchange.atomicActpos i = d.atomicActpos i ∧ d.exchange.atomicTargetpos i = d.atomicTargetpos i ∧
      d.exchange.motorPosFb i = d.atomicActpos i := by
  unfold exchange each
  dsimp only
  rw [if_pos hi, if_pos hi, if_pos hi, if_pos hi, i32_real, i32_real]
  exact ⟨rfl, rfl, rfl, rfl⟩

theorem first_drives (hi : d.drives i = true) :
    d.first.machine.axes i =
        { d.machine.axes i with posCmd := firstPosition, posFb := firstPosition, coarsePos := firstPosition } ∧
      d.first.atomicActpos i = firstPosition ∧ d.first.atomicTargetpos i = firstPosition := by
  unfold first each
  dsimp only
  rw [if_pos hi, if_pos hi, if_pos hi]
  exact ⟨rfl, rfl, rfl⟩

/-- A run of `ecatthread` but the first leaves an axis where it is. -/
theorem exchange_level (hi : d.drives i = true) (hoffset : (d.machine.axes i).motorOffset = 0)
    (hcommand : (d.machine.axes i).posCmd = d.atomicActpos i) (htarget : d.atomicTargetpos i = d.atomicActpos i)
    (hidle : (d.machine.axes i).flag.active = false → (d.machine.axes i).posFb = d.atomicActpos i) :
    d.exchange.Level i := by
  obtain ⟨haxis, hact, htgt, hpin⟩ := exchange_drives hi
  constructor
  · rw [haxis]
    exact hoffset
  · rw [haxis, hact]
    exact hcommand
  · rw [htgt, hact, htarget]
  · rw [haxis, hact]
    exact hidle
  · intro _
    rw [haxis, hact, hpin]
    exact ⟨rfl, rfl⟩

/-- After the first run of `ecatthread` the axis is where the drives start. -/
theorem ecatthread_level (hi : d.drives i = true) (hoffset : (d.machine.axes i).motorOffset = 0)
    (hlevel : d.firstflag = true → d.Level i) : d.ecatthread.Level i := by
  unfold ecatthread
  cases hfirst : d.firstflag with
  | true =>
    have h := hlevel hfirst
    exact exchange_level hi hoffset h.command h.target h.idle
  | false =>
    obtain ⟨haxis, hact, htgt⟩ := first_drives hi
    refine exchange_level (d := d.first) hi ?_ ?_ (htgt.trans hact.symm) fun _ => ?_
    · rw [haxis]
      exact hoffset
    · rw [haxis, hact]
    · rw [haxis, hact]

theorem Level.feedback (h : d.Level i) (hturn : d.cycles = 0) (inp : Inputs) :
    (d.machine.axes i).feedback ((d.inputs inp).axis i) = d.atomicActpos i := by
  unfold Axis.feedback
  rw [h.offset, i32_real, sub_zero]
  exact (h.fresh hturn).1

/-- In free mode the axis moves by its velocity. -/
theorem free_moves (hpos : (d.machine.axes i).posCmd = d.atomicActpos i)
    (hplan : (d.machine.axes i).freeTp.currPos = d.atomicActpos i)
    (h : emcmotController d.machine inp motionThreadPeriod fuel = some t) (hfree : t.status.motionState = .free)
    (hactive : (d.machine.axes i).flag.active = true) :
    (t.axes i).posCmd = d.atomicActpos i + (t.axes i).velCmd ∧ (t.axes i).freeTp.currPos = (t.axes i).posCmd := by
  obtain ⟨pos, haxis⟩ := emcmotController_free h hfree i
  have hfront := (controllerFront_freeTp d.machine inp motionThreadPeriod i).currPos
  have hact : ((controllerFront d.machine inp motionThreadPeriod).axes i).flag.active = true :=
    ((controllerFront_cycleKeeps d.machine inp motionThreadPeriod).axis i).active.trans hactive
  have hstart : ((controllerFront d.machine inp motionThreadPeriod).axes i).freeTp.currPos = d.atomicActpos i := by
    rcases hfront with h | h
    · exact h.trans hplan
    · exact h.trans hpos
  rw [controllerFront_servoPeriod] at haxis
  generalize (controllerFront d.machine inp motionThreadPeriod).axes i = axis at haxis hact hstart
  generalize (controllerFront d.machine inp motionThreadPeriod).status.maxacc = maxacc at haxis
  obtain ⟨maxAcc, hrun, hcmd⟩ := freeAxisCycle_of_active hact maxacc 1
  have hvel : (freeAxisCycle axis maxacc 1).velCmd = (freeAxisCycle axis maxacc 1).freeTp.currVel := by
    unfold freeAxisCycle
    rw [hact]
    rfl
  obtain ⟨active, hnext⟩ := simpleTpUpdate_one { axis.freeTp with maxAcc := maxAcc }
  rw [haxis]
  show (freeAxisCycle axis maxacc 1).posCmd = _ + (freeAxisCycle axis maxacc 1).velCmd ∧
    (freeAxisCycle axis maxacc 1).freeTp.currPos = (freeAxisCycle axis maxacc 1).posCmd
  refine ⟨?_, hcmd.symm⟩
  rw [hcmd, hvel, hrun, hnext, ← hstart]

theorem Level.idleCycle (h : d.Level i)
    (hcycle : emcmotController d.machine (d.inputs inp) motionThreadPeriod fuel = some t)
    (hactive : (d.machine.axes i).flag.active = false) : (d.store t).Level i := by
  have hkeeps := (emcmotController_cycleKeeps hcycle).axis i
  have hoff : (t.axes i).flag.active = false := hkeeps.active.trans hactive
  have hact : (d.store t).atomicActpos i = d.atomicActpos i := if_pos (by rw [hoff]; rfl)
  have htarget : (d.store t).atomicTargetpos i = d.atomicTargetpos i := if_neg (by rw [hoff]; simp)
  have hfb : (t.axes i).posFb = d.atomicActpos i := by
    rw [emcmotController_posFb hcycle i, hactive, if_neg (by simp)]
    exact h.idle hactive
  have hcommand : (t.axes i).posCmd = d.atomicActpos i := by
    by_cases hst : t.status.motionState = .disabled
    · exact (emcmotController_hold hcycle hst i).1.trans hfb
    · exact (emcmotController_idle hcycle hst hactive).trans h.command
  refine ⟨hkeeps.motorOffset.trans h.offset, ?_, ?_, fun _ => ?_, fun hno => by cases hno⟩
  · rw [hact]
    exact hcommand
  · rw [htarget, hact, h.target]
  · rw [hact]
    exact hfb

theorem Level.activeCycle (h : d.Level i) (hturn : d.cycles = 0)
    (hcycle : emcmotController d.machine (d.inputs inp) motionThreadPeriod fuel = some t)
    (hactive : (d.machine.axes i).flag.active = true) : (d.store t).Level i := by
  have hkeeps := (emcmotController_cycleKeeps hcycle).axis i
  have hon : (t.axes i).flag.active = true := hkeeps.active.trans hactive
  have hfb : (t.axes i).posFb = d.atomicActpos i := by
    rw [emcmotController_posFb hcycle i, hactive, if_pos rfl]
    exact h.feedback hturn inp
  have hstored : (d.store t).atomicActpos i = match t.status.motionState with
      | .free => (t.axes i).freeTp.currPos
      | .coord => (t.axes i).posCmd
      | .disabled => d.atomicActpos i :=
    if_neg (by rw [hon]; simp)
  have hact : (d.store t).atomicActpos i = (t.axes i).posCmd := by
    rw [hstored]
    cases hst : t.status.motionState with
    | free => exact (free_moves h.command (h.fresh hturn).2 hcycle hst hactive).2
    | coord => rfl
    | disabled => exact ((emcmotController_hold hcycle hst i).1.trans hfb).symm
  have htarget : (d.store t).atomicTargetpos i = (t.axes i).posCmd := by
    show (if (t.axes i).flag.active then _ else _) = _
    rw [if_pos hon, emcmotController_output hcycle hactive, h.offset, i32_real, add_zero]
  exact ⟨hkeeps.motorOffset.trans h.offset, hact.symm, htarget.trans hact.symm,
    fun hoff => absurd (hon.symm.trans hoff) (by simp), fun hno => by cases hno⟩

/-- A cycle that takes its turn leaves the axis where it is commanded. -/
theorem Level.cycle (h : d.Level i) (hturn : d.cycles = 0)
    (hcycle : emcmotController d.machine (d.inputs inp) motionThreadPeriod fuel = some t) : (d.store t).Level i := by
  cases hactive : (d.machine.axes i).flag.active with
  | false => exact h.idleCycle hcycle hactive
  | true => exact h.activeCycle hturn hcycle hactive

/-- A request that does not disable the axis leaves it where it is. -/
theorem Level.request (h : d.Level i) {u : Machine ℝ} (hplace : (u.axes i).place = (d.machine.axes i).place)
    (hstays : (d.machine.axes i).flag.active = true → (u.axes i).flag.active = true) :
    ({ d with machine := u } : Servo ℝ).Level i := by
  unfold Axis.place at hplace
  simp only [Prod.mk.injEq] at hplace
  obtain ⟨hcmd, hfb, -, hoffset, hplan⟩ := hplace
  refine ⟨hoffset.trans h.offset, hcmd.trans h.command, h.target, fun hoff => hfb.trans (h.idle ?_), fun hturn => ?_⟩
  · by_contra hon
    rw [hstays (by simpa using hon)] at hoff
    cases hoff
  · obtain ⟨hpin, hcurr⟩ := h.fresh hturn
    exact ⟨hpin, hplan.trans hcurr⟩

/-- What holds of an axis from the boot on. -/
structure Ready (numAxis : Int) (i : Fin 3) (d : Servo ℝ) : Prop where
  numAxis : d.numAxis = numAxis
  offset : (d.machine.axes i).motorOffset = 0
  level : d.firstflag = true → d.Level i

variable {numAxes numAxis : Int}

theorem boot_ready (numAxes numAxis : Int) (i : Fin 3) : (boot numAxes numAxis).Ready numAxis i := by
  obtain ⟨_, _, _, _, _, _, _, h⟩ := initMachine_eq (K := ℝ) numAxes
  refine ⟨rfl, ?_, fun hno => by cases hno⟩
  show ((initMachine numAxes : Machine ℝ).axes i).motorOffset = 0
  rw [h]
  rfl

theorem Ready.step (hi : (i.val : Int) < numAxis) (h : d.Ready numAxis i)
    (hstep : Restrict ServoStep (InTurn i) d e d') : d'.Ready numAxis i := by
  obtain ⟨hstep, hturn⟩ := hstep
  have hdrives : d.drives i = true := by
    unfold drives
    rw [h.numAxis]
    exact decide_eq_true hi
  cases hstep with
  | pass =>
    have hlevel := ecatthread_level hdrives h.offset h.level
    refine ⟨?_, hlevel.offset, fun _ => hlevel⟩
    rw [← h.numAxis]
    unfold ecatthread
    split <;> rfl
  | request he hrequest =>
    have hplace := hrequest.place he i
    refine ⟨h.numAxis, ?_, fun hfirst => (h.level hfirst).request hplace hturn⟩
    unfold Axis.place at hplace
    simp only [Prod.mk.injEq] at hplace
    exact hplace.2.2.2.1.trans h.offset
  | cycle hfirst hcycle =>
    have hlevel := (h.level hfirst).cycle hturn hcycle
    exact ⟨h.numAxis, hlevel.offset, fun _ => hlevel⟩

theorem inTurn_ready (hi : (i.val : Int) < numAxis)
    (h : Reaches (Restrict ServoStep (InTurn i)) (boot numAxes numAxis) d) : d.Ready numAxis i :=
  h.invariant (fun _ _ _ hd hstep => hd.step hi hstep) (boot_ready numAxes numAxis i)

/-- An axis whose feedback is near its commanded position has no following error. -/
theorem not_ferror {axis : Axis ℝ} {inp : AxisInput} {n : Int} (hnear : |axis.posCmd - axis.feedback inp| ≤ n)
    (hmin : n ≤ axis.minFerror) : ¬ FollowingErrorFound axis inp := by
  have hlimit := le_computeFerrorLimit axis
  unfold FollowingErrorFound
  rw [i32_real, i32_real]
  omega

end Servo

/-! ### Drives that come late -/

section Late

variable {d : Servo ℝ} {i : Fin 3}

/-- The axis stays active, motion in free mode, and the axis moves by `V` at most in a cycle. -/
def SlowFree (i : Fin 3) (V : Int) (_ : Servo ℝ) : ServoEvent ℝ → Servo ℝ → Prop
  | .pass, _ => True
  | .request _, d' => (d'.machine.axes i).flag.active = true
  | .cycle _, d' => d'.machine.status.motionState = .free ∧ |(d'.machine.axes i).velCmd| ≤ V

/-- The axis and its planner are where the drive is, and the feedback is not far behind. -/
structure Servo.Near (i : Fin 3) (V : Int) (d : Servo ℝ) : Prop where
  active : (d.machine.axes i).flag.active = true
  first : d.firstflag = true
  drives : d.drives i = true
  offset : (d.machine.axes i).motorOffset = 0
  command : (d.machine.axes i).posCmd = d.atomicActpos i
  plan : (d.machine.axes i).freeTp.currPos = d.atomicActpos i
  near : |d.atomicActpos i - d.motorPosFb i| ≤ d.cycles * V

theorem Servo.Near.step {V : Int} {d' : Servo ℝ} {e : ServoEvent ℝ} (h : d.Near i V)
    (hstep : Restrict ServoStep (SlowFree i V) d e d') : d'.Near i V := by
  obtain ⟨hstep, hslow⟩ := hstep
  cases hstep with
  | pass =>
    have hpass : d.ecatthread = d.exchange := by
      unfold Servo.ecatthread
      rw [if_pos h.first]
    obtain ⟨haxis, hact, -, hpin⟩ := Servo.exchange_drives h.drives
    rw [hpass]
    refine ⟨?_, h.first, h.drives, ?_, ?_, ?_, ?_⟩
    · rw [haxis]
      exact h.active
    · rw [haxis]
      exact h.offset
    · rw [haxis, hact]
      exact h.command
    · rw [haxis, hact]
    · rw [hact, hpin, sub_self, abs_zero]
      show 0 ≤ ((0 : Nat) : Int) * V
      rw [Nat.cast_zero, zero_mul]
  | request he hrequest =>
    have hplace := hrequest.place he i
    unfold Axis.place at hplace
    simp only [Prod.mk.injEq] at hplace
    exact ⟨hslow, h.first, h.drives, hplace.2.2.2.1.trans h.offset, hplace.1.trans h.command,
      hplace.2.2.2.2.trans h.plan, h.near⟩
  | @cycle inp fuel t hfirst hcycle =>
    obtain ⟨hfree, hvel⟩ := hslow
    have hkeeps := (emcmotController_cycleKeeps hcycle).axis i
    have hon : (t.axes i).flag.active = true := hkeeps.active.trans h.active
    obtain ⟨hmoved, hplan⟩ := Servo.free_moves h.command h.plan hcycle hfree h.active
    have hstored : (d.store t).atomicActpos i = match t.status.motionState with
        | .free => (t.axes i).freeTp.currPos
        | .coord => (t.axes i).posCmd
        | .disabled => d.atomicActpos i :=
      if_neg (by rw [hon]; simp)
    have hact : (d.store t).atomicActpos i = (t.axes i).posCmd := by
      rw [hstored, show t.status.motionState = .free from hfree]
      exact hplan
    refine ⟨hon, hfirst, h.drives, hkeeps.motorOffset.trans h.offset, hact.symm, hplan.trans hact.symm, ?_⟩
    rw [hact, hmoved]
    show |d.atomicActpos i + (t.axes i).velCmd - d.motorPosFb i| ≤ ((d.cycles + 1 : Nat) : Int) * V
    have hnear := abs_le.1 h.near
    have hvel' : -V ≤ (t.axes i).velCmd ∧ (t.axes i).velCmd ≤ V := abs_le.1 hvel
    rw [abs_le]
    push_cast
    constructor <;> linarith

end Late

/-! ### An axis that is enabled -/

/-- Axis 0 and motion are enabled. -/
theorem enabling_steps : ∃ u₁ u₂ u₃ u₄ : Machine ℝ, processFrame (initMachine 3) (plainFrame 2 0) = some u₁ ∧
    emcmotCommandHandler u₁ false = some u₂ ∧ processFrame u₂ (plainFrame 4 0) = some u₃ ∧
    emcmotCommandHandler u₃ false = some u₄ ∧ (u₂.axes 0).flag.active = true ∧
    (∀ i, (u₄.axes i).flag.active = decide (i = 0)) ∧ (u₄.axes 0).minFerror = 400 ∧
    u₄.internal.enabling = true ∧ u₄.status.motionFlag.enable = false ∧ u₄.status.motionFlag.coord = false ∧
    u₄.internal.coordinating = false ∧ u₄.status.overrideLimitMask = 0 := by
  obtain ⟨_, _, _, _, _, _, _, h⟩ := initMachine_eq (K := ℝ) 3
  rw [h]
  refine ⟨_, _, _, _, rfl, rfl, rfl, rfl, rfl, ?_, rfl, rfl, rfl, rfl, rfl, rfl⟩
  intro i
  fin_cases i <;> rfl

/-- What `ecatthread` leaves alone. -/
theorem Servo.ecatthread_keeps (d : Servo ℝ) (i : Fin 3) :
    (d.ecatthread.machine.axes i).flag = (d.machine.axes i).flag ∧
      (d.ecatthread.machine.axes i).minFerror = (d.machine.axes i).minFerror ∧
      d.ecatthread.machine.status = d.machine.status ∧ d.ecatthread.machine.internal = d.machine.internal := by
  have hexchange : ∀ d : Servo ℝ, (d.exchange.machine.axes i).flag = (d.machine.axes i).flag ∧
      (d.exchange.machine.axes i).minFerror = (d.machine.axes i).minFerror := by
    intro d
    unfold Servo.exchange Servo.each
    dsimp only
    split <;> exact ⟨rfl, rfl⟩
  have hfirst : (d.first.machine.axes i).flag = (d.machine.axes i).flag ∧
      (d.first.machine.axes i).minFerror = (d.machine.axes i).minFerror := by
    unfold Servo.first Servo.each
    dsimp only
    split <;> exact ⟨rfl, rfl⟩
  unfold Servo.ecatthread
  split
  · exact ⟨(hexchange d).1, (hexchange d).2, rfl, rfl⟩
  · exact ⟨(hexchange d.first).1.trans hfirst.1, (hexchange d.first).2.trans hfirst.2, rfl, rfl⟩

/-- The three drives before their first run, with the given machine. -/
noncomputable def Servo.waiting (u : Machine ℝ) : Servo ℝ := { (boot 3 3 : Servo ℝ) with machine := u }

/-- The drive of axis 0 runs, and the next cycle is one of free mode. -/
theorem enabling_ready : ∃ (d : Servo ℝ) (t : Machine ℝ),
    Reaches (Restrict ServoStep (InTurn 0)) (Servo.boot 3 3) d ∧ d.firstflag = true ∧ d.cycles = 0 ∧
    (d.machine.axes 0).flag.active = true ∧ (d.machine.axes 0).minFerror = 400 ∧
    emcmotController d.machine (d.inputs restInputs) motionThreadPeriod 1 = some t ∧ t.status.motionState = .free := by
  obtain ⟨u₁, u₂, u₃, u₄, h₁, h₂, h₃, h₄, hon₂, hon, hmin, hen, hflag, hcoord, hreq, hmask⟩ := enabling_steps
  have hframe : ∀ {d : Servo ℝ} {f : LinuxFrame} {t : Machine ℝ}, processFrame d.machine f = some t →
      Restrict ServoStep (InTurn 0) d (.request (.frame f)) { d with machine := t } := by
    intro d f t h
    refine ⟨ServoStep.request (e := .frame f) (fun _ hno => by cases hno) (.frame h), fun hactive => ?_⟩
    exact ((processFrame_quiet h).active 0).trans hactive
  have hhandle : ∀ {d : Servo ℝ} {t : Machine ℝ}, emcmotCommandHandler d.machine false = some t →
      (t.axes 0).flag.active = true →
        Restrict ServoStep (InTurn 0) d (.request (.handle false)) { d with machine := t } :=
    fun {d t} h hactive =>
      ⟨ServoStep.request (d := d) (e := .handle false) (fun _ hno => by cases hno) (.handle h), fun _ => hactive⟩
  have hactive : (u₄.axes 0).flag.active = true := hon 0
  have r₁ := (Reaches.refl (Servo.boot 3 3)).tail (hframe h₁)
  have r₂ := r₁.tail (hhandle (d := .waiting u₁) h₂ hon₂)
  have r₃ := r₂.tail (hframe (d := .waiting u₂) h₃)
  have r₄ := r₃.tail (hhandle (d := .waiting u₃) h₄ hactive)
  have r₅ := r₄.tail ⟨ServoStep.pass (.waiting u₄), trivial⟩
  obtain ⟨d, hd⟩ : ∃ d : Servo ℝ, d = (Servo.waiting u₄).ecatthread := ⟨_, rfl⟩
  have hkeeps : ∀ i, (d.machine.axes i).flag = (u₄.axes i).flag ∧
      (d.machine.axes i).minFerror = (u₄.axes i).minFerror ∧ d.machine.status = u₄.status ∧
      d.machine.internal = u₄.internal := by
    rw [hd]
    exact Servo.ecatthread_keeps (.waiting u₄)
  rw [← hd] at r₅
  obtain ⟨hflags, hmins, hstatus, hinternal⟩ := hkeeps 0
  have hfirst : d.firstflag = true := by rw [hd]; rfl
  have hturn : d.cycles = 0 := by rw [hd]; rfl
  have hlevel := (Servo.inTurn_ready (by decide) r₅).level hfirst
  -- neither the machine nor axis 0 has a fault, and no other axis is active
  have hfault : faultFound (sampled d.machine (d.inputs restInputs) motionThreadPeriod) = false := by
    rw [← Bool.not_eq_true, faultFound_sampled]
    rintro (⟨h, -⟩ | ⟨i, ⟨hi, -⟩, h⟩)
    · rw [hstatus, hflag] at h
      cases h
    rw [(hkeeps i).1, hon i, decide_eq_true_eq] at hi
    subst hi
    rcases h with (h | h) | h | h
    · rw [Status.posLimitOverride, hstatus, hmask, Nat.zero_testBit] at h
      cases h
    · rw [Status.negLimitOverride, hstatus, hmask, Nat.zero_testBit] at h
      cases h
    · cases h
    · refine Servo.not_ferror (n := 0) ?_ ?_ h
      · rw [hlevel.feedback hturn, hlevel.command, sub_self, abs_zero]
      · rw [hmins, hmin]
        decide
  have hstate : (controllerFront d.machine (d.inputs restInputs) motionThreadPeriod).status.motionState ≠ .coord := by
    rw [controllerFront_motionState]
    refine Modes.next_state_ne_coord _ ?_ ?_
    · show d.machine.status.motionFlag.coord = false
      rw [hstatus, hcoord]
    · show d.machine.internal.coordinating = false
      rw [hinternal, hreq]
  obtain ⟨t, ht⟩ := emcmotController_exists hstate 1
  refine ⟨d, t, r₅, hfirst, hturn, ?_, hmins.trans hmin, ht, ?_⟩
  · rw [hflags, hactive]
  · rw [emcmotController_motionState (by rw [hinternal, hen]) hfault ht, hstatus, hcoord, hinternal, hreq]
    rfl

/-! ### Main results -/

section

variable {numAxes numAxis : Int} {d : Servo ℝ} {i : Fin 3}

/-- When the drives and the controller take turns, an axis that is not disabled again is always where it is commanded,
in whatever mode, and so is the target of its drive; and no call of the controller finds a following error. -/
theorem drive_follows (hi : (i.val : Int) < numAxis)
    (h : Reaches (Restrict ServoStep (InTurn i)) (Servo.boot numAxes numAxis) d) (hfirst : d.firstflag = true) :
    (d.machine.axes i).posCmd = d.atomicActpos i ∧ d.atomicTargetpos i = d.atomicActpos i ∧
      (d.cycles = 0 → ∀ inp, (d.machine.axes i).feedback ((d.inputs inp).axis i) = (d.machine.axes i).posCmd ∧
        (0 ≤ (d.machine.axes i).minFerror → ¬ FollowingErrorFound (d.machine.axes i) ((d.inputs inp).axis i))) := by
  have hlevel := (Servo.inTurn_ready hi h).level hfirst
  refine ⟨hlevel.command, hlevel.target, fun hturn inp => ?_⟩
  have hfb : (d.machine.axes i).feedback ((d.inputs inp).axis i) = (d.machine.axes i).posCmd :=
    (hlevel.feedback hturn inp).trans hlevel.command.symm
  refine ⟨hfb, Servo.not_ferror (n := 0) ?_⟩
  rw [hfb, sub_self, abs_zero]

/-- No following error is found when the axis has been enabled. -/
theorem drive_follows_enabling : ∃ d : Servo ℝ, (d.machine.axes 0).flag.active = true ∧
    ¬ FollowingErrorFound (d.machine.axes 0) ((d.inputs restInputs).axis 0) := by
  obtain ⟨d, t, hrun, hfirst, hturn, hactive, hmin, -, -⟩ := enabling_ready
  obtain ⟨-, -, hnone⟩ := drive_follows (i := 0) (by decide) hrun hfirst
  exact ⟨d, hactive, (hnone hturn restInputs).2 (by rw [hmin]; decide)⟩

/-- In such a run a cycle outside coordinated mode moves the drive of an active axis by the commanded velocity, which is
zero when motion is disabled: neither enabling nor disabling nor a change of the mode makes it jump. -/
theorem drive_smooth (hi : (i.val : Int) < numAxis)
    (h : Reaches (Restrict ServoStep (InTurn i)) (Servo.boot numAxes numAxis) d) (hfirst : d.firstflag = true)
    (hactive : (d.machine.axes i).flag.active = true) (hturn : d.cycles = 0) {inp : Inputs} {fuel : Nat} {t : Machine ℝ}
    (hcycle : emcmotController d.machine (d.inputs inp) motionThreadPeriod fuel = some t)
    (hmode : t.status.motionState ≠ .coord) :
    (d.store t).atomicActpos i = d.atomicActpos i + (t.axes i).velCmd ∧
      (t.status.motionState = .disabled → (t.axes i).velCmd = 0) := by
  have hlevel := (Servo.inTurn_ready hi h).level hfirst
  have hnext := hlevel.cycle hturn hcycle
  refine ⟨?_, fun hst => (emcmotController_hold hcycle hst i).2⟩
  rw [← hnext.command]
  show (t.axes i).posCmd = _
  cases hst : t.status.motionState with
  | free => exact (Servo.free_moves hlevel.command (hlevel.fresh hturn).2 hcycle hst hactive).1
  | coord => exact absurd hst hmode
  | disabled =>
    obtain ⟨hpos, hvel⟩ := emcmotController_hold hcycle hst i
    rw [hpos, hvel, add_zero, emcmotController_posFb hcycle i, hactive, if_pos rfl]
    exact hlevel.feedback hturn inp

/-- The cycle that starts free mode moves the drive by the velocity. -/
theorem drive_smooth_enabling : ∃ (d : Servo ℝ) (t : Machine ℝ), t.status.motionState = .free ∧
    (d.store t).atomicActpos 0 = d.atomicActpos 0 + (t.axes 0).velCmd := by
  obtain ⟨d, t, hrun, hfirst, hturn, hactive, -, hcycle, hfree⟩ := enabling_ready
  have hmode : t.status.motionState ≠ .coord := by rw [hfree]; simp
  exact ⟨d, t, hfree, (drive_smooth (i := 0) (by decide) hrun hfirst hactive hturn hcycle hmode).1⟩

/-- When the drives come late while an axis moves in free mode, its following error is no more than it has moved since:
it is not found as long as the limit at rest covers that. -/
theorem drive_late {d₀ : Servo ℝ} {V : Int} (hi : (i.val : Int) < numAxis)
    (h : Reaches (Restrict ServoStep (InTurn i)) (Servo.boot numAxes numAxis) d₀) (hfirst : d₀.firstflag = true)
    (hactive : (d₀.machine.axes i).flag.active = true) (hturn : d₀.cycles = 0)
    (hrun : Reaches (Restrict ServoStep (SlowFree i V)) d₀ d) (inp : Inputs) :
    |(d.machine.axes i).posCmd - (d.machine.axes i).feedback ((d.inputs inp).axis i)| ≤ d.cycles * V ∧
      (d.cycles * V ≤ (d.machine.axes i).minFerror →
        ¬ FollowingErrorFound (d.machine.axes i) ((d.inputs inp).axis i)) := by
  have hready := Servo.inTurn_ready hi h
  have hlevel := hready.level hfirst
  obtain ⟨hpin, hplan⟩ := hlevel.fresh hturn
  have hdrives : d₀.drives i = true := by
    unfold Servo.drives
    rw [hready.numAxis]
    exact decide_eq_true hi
  have hstart : d₀.Near i V :=
    ⟨hactive, hfirst, hdrives, hlevel.offset, hlevel.command, hplan, by rw [hpin, hturn, sub_self]; simp⟩
  have hnear := hrun.invariant (fun _ _ _ hd hstep => hd.step hstep) hstart
  have hfb : (d.machine.axes i).feedback ((d.inputs inp).axis i) = d.motorPosFb i := by
    unfold Axis.feedback
    rw [hnear.offset, i32_real, sub_zero]
    rfl
  have hbound : |(d.machine.axes i).posCmd - (d.machine.axes i).feedback ((d.inputs inp).axis i)| ≤ d.cycles * V := by
    rw [hfb, hnear.command]
    exact hnear.near
  exact ⟨hbound, Servo.not_ferror hbound⟩

/-- After that cycle the feedback is no further behind than the axis has moved. -/
theorem drive_late_enabling : ∃ (d : Servo ℝ) (t : Machine ℝ), t.status.motionState = .free ∧
    |(t.axes 0).posCmd - (t.axes 0).feedback (((d.store t).inputs restInputs).axis 0)| ≤ |(t.axes 0).velCmd| := by
  obtain ⟨d, t, hrun, hfirst, hturn, hactive, -, hcycle, hfree⟩ := enabling_ready
  have hslow : Reaches (Restrict ServoStep (SlowFree 0 |(t.axes 0).velCmd|)) d (d.store t) :=
    (Reaches.refl d).tail ⟨ServoStep.cycle hfirst hcycle, hfree, le_refl |(t.axes 0).velCmd|⟩
  obtain ⟨hbound, -⟩ := drive_late (i := 0) (by decide) hrun hfirst hactive hturn hslow restInputs
  have hone : (d.store t).cycles = 1 := by
    show d.cycles + 1 = 1
    rw [hturn]
  rw [hone, Nat.cast_one, one_mul] at hbound
  exact ⟨d, t, hfree, hbound⟩

end

end SoemMotion
