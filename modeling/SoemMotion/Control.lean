import SoemMotion.Command
import SoemMotion.Lib.While

/-!
# The controller

`control.c`: one call of `emcmotController`, function by function.  The loop that feeds the cubic interpolators in
coordinated mode is run with fuel, so a call is `none` when its fuel does not suffice.
-/

namespace SoemMotion

variable {K : Type} [Arith K]

/-! ### handle_interpolation -/

/-- The commanded position of the axes as a Cartesian translation. -/
def axesTran (axes : Fin 3 → Axis K) : PmCartesian K := PmCartesian.ofFn fun i => ((axes i).posCmd : K)

def handleInterpolation (s : Machine K) : Machine K :=
  let cartePosCmd := { s.status.cartePosCmd with tran := axesTran s.axes }
  { s with
    status := { s.status with cartePosCmd := cartePosCmd }
    internal := { s.internal with coordTp := tpSetPos s.internal.coordTp cartePosCmd } }

/-! ### process_inputs -/

/-- The following-error limit computed from the speed. -/
def Axis.computeFerrorLimit (axis : Axis K) : Int :=
  let limit := if 0 < axis.velLimit then (axis.maxFerror * axis.velCmd).tdiv axis.velLimit else 0
  if limit < axis.minFerror then axis.minFerror else limit

def processAxisInputs (axis : Axis K) (inp : AxisInput) : Axis K :=
  if !axis.flag.active then axis
  else
    let posFb := Arith.i32 K (inp.motorPosFb - axis.motorOffset)
    let ferror := Arith.i32 K (axis.posCmd - posFb)
    -- the error is made positive as a double, and cut down to `int32_t` again
    let absFerror := Arith.i32 K |ferror|
    let ferrorLimit := axis.computeFerrorLimit
    { axis with
      motorPosFb := inp.motorPosFb, posFb := posFb, ferror := ferror, ferrorLimit := ferrorLimit
      flag := { axis.flag with
        ferror := decide (ferrorLimit < absFerror), phl := inp.posLimSw, nhl := inp.negLimSw
        fault := inp.ampFault } }

/-- The enables in effect for the mode. -/
def activeEnables (s : Machine K) : UInt8 :=
  if s.status.motionState = .coord then s.internal.coordTp.status.enablesQueued else s.status.enablesNew

/-- Stop a jog in progress on request. -/
def stopJogOnRequest (s : Machine K) (inp : Inputs) : Machine K :=
  let isActive : UInt8 := if s.hal.jogIsActive then 1 else 0
  if (activeEnables s &&& isActive) != 0 && (inp.jogStop || inp.jogStopImmediate) then
    { s with axisArray := axisJogAbortAll s.axisArray inp.jogStopImmediate }
  else s

def processInputs (s : Machine K) (inp : Inputs) : Machine K :=
  stopJogOnRequest { s with axes := fun i => processAxisInputs (s.axes i) (inp.axis i) } inp

/-! ### check_for_faults -/

/-- What trips an axis: an overridden limit, an amplifier fault or a following error. -/
def axisTrips (st : Status K) (i : Fin 3) (axis : Axis K) : Bool :=
  axis.flag.active && axis.flag.enable &&
    ((st.posLimitOverride i || st.negLimitOverride i) || axis.flag.fault || axis.flag.ferror)

/-- A fault that applies to the machine as a whole. -/
def machineTrips (s : Machine K) : Bool :=
  s.status.motionFlag.enable &&
    (!s.hal.enable || decide (∃ n : Fin s.config.numMiscError, s.status.miscError n = true))

def checkForFaults (s : Machine K) : Machine K :=
  let trips := machineTrips s || axisTrips s.status 0 (s.axes 0) || axisTrips s.status 1 (s.axes 1) ||
    axisTrips s.status 2 (s.axes 2)
  { s with
    axes := fun i => if axisTrips s.status i (s.axes i) then Axis.setError (s.axes i) true else s.axes i
    internal := { s.internal with enabling := s.internal.enabling && !trips } }

/-! ### set_operating_mode -/

def disableAxis (axis : Axis K) : Axis K :=
  { axis with
    freeTp := { axis.freeTp with enable := false, currVel := 0 }
    cubic := cubicDrain axis.cubic
    flag := if axis.flag.active then { axis.flag with inpos := true, enable := false } else axis.flag }

/-- The falling edge of motion enable. -/
def disableMotion (s : Machine K) : Machine K :=
  if !s.internal.enabling && s.status.motionFlag.enable then
    { s with
      internal := { s.internal with coordTp := tpClear s.internal.coordTp }
      axes := fun i => disableAxis (s.axes i)
      axisArray := axisJogAbortAll s.axisArray true
      status := { s.status with motionFlag := { s.status.motionFlag with enable := false } } }
  else s

def enableAxis (axis : Axis K) : Axis K :=
  { axis with
    freeTp := { axis.freeTp with currPos := axis.posCmd }
    flag := { axis.flag with enable := axis.flag.active || axis.flag.enable, error := false } }

/-- The rising edge of motion enable. -/
def enableMotion (s : Machine K) : Machine K :=
  if s.internal.enabling && !s.status.motionFlag.enable then
    { s with
      axisArray := fun n => axisInitializeExternalOffset (s.axisArray n)
      internal := { s.internal with coordTp := tpSetPos s.internal.coordTp s.status.cartePosCmd }
      axes := fun i => enableAxis (s.axes i)
      status := { s.status with motionFlag := { s.status.motionFlag with enable := true, error := false } } }
  else s

/-- The request for coordinated mode: honoured in position, else dropped. -/
def enterCoord (s : Machine K) : Machine K :=
  if s.internal.coordinating && !s.status.motionFlag.coord then
    if s.status.motionFlag.inpos then
      let cartePosCmd := { s.status.cartePosCmd with
        tran := axisApplyExtOffsetsToCartePos s.axisArray (-1) s.status.cartePosCmd.tran }
      { s with
        internal := { s.internal with
          coordTp := tpSetPos s.internal.coordTp cartePosCmd, overriding := false }
        axes := fun i => { s.axes i with cubic := cubicDrain (s.axes i).cubic }
        status := { s.status with
          cartePosCmd := cartePosCmd, overrideLimitMask := 0
          motionFlag := { s.status.motionFlag with coord := true, error := false } } }
    -- out of position the request is forgotten, not kept for later
    else { s with internal := { s.internal with coordinating := false } }
  else s

def freeAxis (axis : Axis K) : Axis K :=
  { axis with freeTp := { axis.freeTp with currPos := axis.posCmd, enable := false } }

/-- The request for free mode: honoured in position, else dropped. -/
def enterFree (s : Machine K) : Machine K :=
  if s.internal.freeing && !s.status.motionFlag.free then
    if s.status.motionFlag.inpos then
      { s with
        axes := fun i => freeAxis (s.axes i)
        status := { s.status with motionFlag := { s.status.motionFlag with free := true, error := false } } }
    else { s with internal := { s.internal with freeing := false } }
  else s

def MotionFlag.state (flag : MotionFlag) : MotionState :=
  if !flag.enable then .disabled else if flag.coord then .coord else .free

def deriveMotionState (s : Machine K) : Machine K :=
  { s with status := { s.status with motionState := s.status.motionFlag.state } }

def setOperatingMode (s : Machine K) : Machine K :=
  deriveMotionState (enterFree (enterCoord (enableMotion (disableMotion s))))

/-! ### get_pos_cmds -/

def Machine.setInpos (s : Machine K) (fl : Bool) : Machine K :=
  { s with status := { s.status with motionFlag := { s.status.motionFlag with inpos := fl } } }

/-- An axis for one cycle of free mode. -/
def freeAxisCycle (axis : Axis K) (maxacc servoPeriod : Int) : Axis K :=
  if !axis.flag.active then axis
  else
    let accLimit := if maxacc < axis.accLimit then maxacc else axis.accLimit
    let freeTp := simpleTpUpdate K { axis.freeTp with maxAcc := accLimit } servoPeriod
    { axis with
      accLimit := accLimit, freeTp := freeTp, posCmd := freeTp.currPos, velCmd := freeTp.currVel, accCmd := 0
      coarsePos := freeTp.currPos, flag := { axis.flag with inpos := !freeTp.active } }

/-- Some axis of free mode is still moving. -/
def freeMoving (axes : Fin 3 → Axis K) : Bool :=
  decide (∃ i : Fin 3, (axes i).flag.active ∧ (axes i).freeTp.active)

def freeCycle (s : Machine K) : Machine K :=
  let axes := fun i => freeAxisCycle (s.axes i) s.status.maxacc s.servoPeriod
  let moving := freeMoving axes
  let overriding := s.internal.overriding || (moving && s.status.overrideLimitMask != 0)
  -- an override of the limits lasts until the move it was made for has ended
  let ended := overriding && !moving
  let s := Machine.setInpos { s with axes := axes } (!moving)
  { s with
    internal := { s.internal with overriding := overriding && !ended }
    status := { s.status with overrideLimitMask := if ended then 0 else s.status.overrideLimitMask } }

/-- The joint-unlock pins. -/
def Inputs.unlocked (inp : Inputs) (jnum : Int) : Bool :=
  match axisIndex jnum with
  | some i => (inp.axis i).isUnlocked
  | none => false

/-- `positions` of a pose. -/
def positions (pos : EmcPose K) (i : Fin 3) : Int := Arith.trunc (pos.tran.get i)

/-- An active axis takes the coarse point. -/
def feedAxis (axis : Axis K) (point : Int) : Axis K :=
  if !axis.flag.active then axis
  else { axis with coarsePos := point, cubic := cubicAddPoint axis.cubic (point : K) }

/-- One turn of the loop that feeds the interpolators. -/
def coordFeed (inp : Inputs) (s : Machine K) : Machine K :=
  let tp := tpRunCycle (s.tpEnv inp.unlocked) s.internal.coordTp
  let pos := tp.currentPos
  let bound := fun n => axisUpdateCoordWithBound (s.axisArray n) (pos.tran.get n) s.servoPeriod
  { s with
    internal := { s.internal with coordTp := tp }
    axisArray := fun n => (bound n).1
    status := { s.status with cartePosCmd := { pos with tran := PmCartesian.ofFn fun n => (bound n).2 } }
    axes := fun i => feedAxis (s.axes i) (positions pos i) }

/-- The condition of that loop. -/
def needNextPoint (s : Machine K) : Bool := cubicNeedNextPoint (s.axes 0).cubic

/-- An active axis moves to its interpolated position; outputs left unset by the interpolator read as zero. -/
def interpolateAxis (axis : Axis K) : Axis K :=
  if !axis.flag.active then axis
  else
    let (cubic, out) := cubicInterpolate axis.cubic
    { axis with
      cubic := cubic, posCmd := Arith.trunc out.pos, velCmd := Arith.trunc (out.vel.getD 0)
      accCmd := Arith.trunc (out.acc.getD 0) }

/-- What coordinated mode does before the loop. -/
def coordBegin (s : Machine K) : Machine K := { s with axisArray := axisJogAbortAll s.axisArray true }

/-- What coordinated mode does after the loop. -/
def coordEnd (s : Machine K) : Machine K :=
  Machine.setInpos { s with axes := fun i => interpolateAxis (s.axes i) } (tpIsDone s.internal.coordTp)

def coordCycle (inp : Inputs) (fuel : Nat) (s : Machine K) : Option (Machine K) :=
  (Lib.whileFuel needNextPoint (coordFeed inp) fuel (coordBegin s)).map coordEnd

def holdAxis (axis : Axis K) : Axis K := { axis with posCmd := axis.posFb, velCmd := 0, accCmd := 0 }

def disabledCycle (s : Machine K) : Machine K :=
  { s with
    axes := fun i => holdAxis (s.axes i)
    status := { s.status with cartePosCmd := s.status.cartePosFb } }

/-- The axis is outside its soft limits. -/
def Axis.offLimits (axis : Axis K) : Bool :=
  decide ((axis.maxPosLimit : K) + 0.000000000001 < (axis.posCmd : K)) ||
    decide ((axis.posCmd : K) < (axis.minPosLimit : K) - 0.000000000001)

def checkSoftLimits (s : Machine K) : Machine K :=
  if decide (∃ i : Fin 3, s.isConfigured i ∧ (s.axes i).offLimits) then
    if s.status.onSoftLimit then s
    else
      let s := s.setMotionError true
      { s with status := { s.status with onSoftLimit := true } }
  else { s with status := { s.status with onSoftLimit := false } }

/-- The `switch` of `get_pos_cmds`. -/
def planPositions (inp : Inputs) (fuel : Nat) (s : Machine K) : Option (Machine K) :=
  match s.status.motionState with
  | .free => some (freeCycle s)
  | .coord => coordCycle inp fuel s
  | .disabled => some (disabledCycle s)

def getPosCmds (inp : Inputs) (fuel : Nat) (s : Machine K) : Option (Machine K) :=
  (planPositions inp fuel s).map checkSoftLimits

/-! ### output_to_hal and update_status -/

def outputAxis (axis : Axis K) : Axis K :=
  if axis.flag.active then { axis with motorPosCmd := Arith.i32 K (axis.posCmd + axis.motorOffset) } else axis

def outputToHal (s : Machine K) : Machine K :=
  { s with
    axes := fun i => outputAxis (s.axes i)
    hal := { s.hal with
      ampEnable := fun i => if (s.axes i).flag.active then (s.axes i).flag.enable else s.hal.ampEnable i
      jogIsActive := axisJogIsActive s.axisArray } }

def updateStatus (s : Machine K) (inp : Inputs) : Machine K :=
  let tp := s.internal.coordTp
  -- a step is over once the planner executes another line
  let stepDone := s.status.stepping && s.internal.idForStep != tp.execId
  { s with
    status := { s.status with
      miscError := fun n => if n < s.config.numMiscError then inp.miscError n else s.status.miscError n
      depth := tp.depth, activeDepth := tp.activeDepth, id := tp.execId, queueFull := tcqFull tp.queue
      stepping := s.status.stepping && !stepDone, paused := stepDone || s.status.paused }
    internal := { s.internal with coordTp := if stepDone then tpPause tp else tp } }

/-! ### The controller -/

/-- The periods, recomputed when the thread period has changed. -/
def updatePeriod (s : Machine K) (period : Int) : Machine K :=
  let servo := Arith.trunc ((period : K) * 0.000000001)
  let s := { s with servoPeriod := if servo < 1 then 1 else servo }
  if period ≠ s.lastPeriod then { emcmotSetCycleTime s period with lastPeriod := period } else s

/-- The controller up to `set_operating_mode`. -/
def controllerFront (s : Machine K) (inp : Inputs) (period : Int) : Machine K :=
  setOperatingMode (checkForFaults (processInputs (handleInterpolation (updatePeriod s period)) inp))

def emcmotController (s : Machine K) (inp : Inputs) (period : Int) (fuel : Nat) : Option (Machine K) :=
  (getPosCmds inp fuel (controllerFront s inp period)).map fun s => updateStatus (outputToHal s) inp

end SoemMotion
