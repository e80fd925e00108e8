import SoemMotion.Motion

/-!
# The command handler

`command.c`: `emcmotCommandHandler` executes the command of the shared command block when its number differs from the
number of the last one.  The axis number is not checked before `axes[axis_num]` is accessed; an access outside the
array is `none`.
-/

namespace SoemMotion

variable {K : Type} [Arith K]

/-! ### Access to the axes -/

/-- The element `axes[axis_num]`, if there is one. -/
def axisIndex (axisNum : Int) : Option (Fin 3) :=
  if axisNum = 0 then some 0 else if axisNum = 1 then some 1 else if axisNum = 2 then some 2 else none

def Machine.updateAxis (s : Machine K) (i : Fin 3) (f : Axis K → Axis K) : Machine K :=
  { s with axes := fun j => if j = i then f (s.axes j) else s.axes j }

/-- Write to `axes[axis_num]`. -/
def Machine.writeAxis (s : Machine K) (axisNum : Int) (f : Axis K → Axis K) : Option (Machine K) :=
  (axisIndex axisNum).map fun i => s.updateAxis i f

/-- The axes of a loop over `ALL_AXES`. -/
def Machine.isConfigured (s : Machine K) (i : Fin 3) : Bool := decide ((i.val : Int) < s.config.numAxes)

def Axis.setError (axis : Axis K) (fl : Bool) : Axis K := { axis with flag := { axis.flag with error := fl } }

def Axis.setActive (axis : Axis K) (fl : Bool) : Axis K := { axis with flag := { axis.flag with active := fl } }

/-- Disable the free planner. -/
def Axis.stopFree (axis : Axis K) : Axis K := { axis with freeTp := { axis.freeTp with enable := false } }

def Machine.setMotionError (s : Machine K) (fl : Bool) : Machine K :=
  { s with status := { s.status with motionFlag := { s.status.motionFlag with error := fl } } }

def Machine.setCommandStatus (s : Machine K) (c : CmdStatus) : Machine K :=
  { s with status := { s.status with commandStatus := c } }

def Machine.setTp (s : Machine K) (tp : Tp K) : Machine K :=
  { s with internal := { s.internal with coordTp := tp } }

/-- The neg bit of axis `i` in `overrideLimitMask`. -/
def Status.negLimitOverride (st : Status K) (i : Fin 3) : Bool := st.overrideLimitMask.testBit (2 * i.val)

/-- The pos bit of axis `i` in `overrideLimitMask`. -/
def Status.posLimitOverride (st : Status K) (i : Fin 3) : Bool := st.overrideLimitMask.testBit (2 * i.val + 1)

/-! ### Jogs -/

def jointJogOk (s : Machine K) (i : Fin 3) (vel : Int) : Bool :=
  let axis := s.axes i
  if s.status.negLimitOverride i && s.status.posLimitOverride i then true
  else if !s.isConfigured i then false
  else if decide (0 < vel) && axis.flag.phl then false
  else if decide (vel < 0) && axis.flag.nhl then false
  else if decide (0 < vel) && decide (axis.maxJogLimit < axis.posCmd) then false
  else if decide (vel < 0) && decide (axis.posCmd < axis.minJogLimit) then false
  else true

/-- The checks the three jogs share, before `jog` is done on an axis. -/
def jogChecked (s : Machine K) (jogInhibit : Bool) (jog : Fin 3 → Machine K) : Option (Machine K) :=
  if !s.status.motionFlag.enable then s.writeAxis s.command.axis (Axis.setError · true)
  else if jogInhibit then some s
  else (axisIndex s.command.axis).map fun i =>
    if !jointJogOk s i s.command.maxvel then s.updateAxis i (Axis.setError · true) else jog i

/-- The velocity of a jog. -/
def jogVel (axis : Axis K) (cmd : Command K) : Int := if axis.velCmd < cmd.maxvel then axis.velCmd else cmd.maxvel

/-- The acceleration of a jog. -/
def jogAcc (axis : Axis K) (cmd : Command K) : Int := if axis.accCmd < cmd.maxacc then axis.accCmd else cmd.maxacc

/-- `axis` with its free planner set for a jog to `posCmd` and its error cleared. -/
def Axis.startJog (axis : Axis K) (posCmd vel maxVel acc dir : Int) : Axis K :=
  Axis.setError { axis with freeTp := { axis.freeTp with
    posCmd := posCmd, vel := vel, maxVel := maxVel, acc := acc, maxAcc := axis.accLimit, dir := dir
    enable := true } } false

def jogContAxis (axis : Axis K) (cmd : Command K) : Axis K :=
  axis.startJog (if 0 < cmd.maxvel then axis.maxJogLimit else axis.minJogLimit) (jogVel axis cmd) cmd.maxvel
    (jogAcc axis cmd) axis.freeTp.dir

def jogCont (s : Machine K) (i : Fin 3) : Machine K :=
  { s.updateAxis i (jogContAxis · s.command) with axisArray := axisJogAbortAll s.axisArray false }

/-- The target of an incremental jog. -/
def jogIncrTarget (axis : Axis K) (cmd : Command K) : Int :=
  if cmd.dir ≠ 0 then Arith.trunc ((axis.freeTp.posCmd : K) + cmd.offset)
  else Arith.trunc ((axis.freeTp.posCmd : K) - cmd.offset)

/-- The acceleration is `acc_cmd` itself here, not its minimum with `Maxacc`. -/
def jogIncrAxis (axis : Axis K) (cmd : Command K) : Axis K :=
  axis.startJog (jogIncrTarget axis cmd) (jogVel axis cmd) cmd.maxvel axis.accCmd cmd.dir

def jogIncr (s : Machine K) (i : Fin 3) : Machine K :=
  let tmp1 := jogIncrTarget (s.axes i) s.command
  -- don't jog past limits
  if (s.axes i).maxJogLimit < tmp1 then s
  else if tmp1 < (s.axes i).minJogLimit then s
  else { s.updateAxis i (jogIncrAxis · s.command) with
    axisArray := fun n => if n = i then axisJogAbort (s.axisArray n) false else s.axisArray n }

/-- The target of an absolute jog, clamped to the jog limits. -/
def jogAbsTarget (axis : Axis K) (cmd : Command K) : Int :=
  let posCmd := Arith.trunc cmd.offset
  let posCmd := if axis.maxJogLimit < posCmd then axis.maxJogLimit else posCmd
  if posCmd < axis.minJogLimit then axis.minJogLimit else posCmd

def jogAbsAxis (axis : Axis K) (cmd : Command K) : Axis K :=
  axis.startJog (jogAbsTarget axis cmd) (jogVel axis cmd) (Arith.i32 K |cmd.maxvel|) (jogAcc axis cmd)
    axis.freeTp.dir

def jogAbs (s : Machine K) (i : Fin 3) : Machine K := s.updateAxis i (jogAbsAxis · s.command)

def jogAbortAxis (axis : Axis K) : Axis K := Axis.setError axis.stopFree false

/-! ### The other commands -/

def downloadsConfigAxis (axis : Axis K) (cmd : Command K) : Axis K :=
  { axis with
    accCmd := cmd.acc, velCmd := cmd.vel, accLimit := cmd.maxacc, velLimit := cmd.maxvel
    maxPosLimit := cmd.maxLimit, minPosLimit := cmd.minLimit
    maxJogLimit := cmd.maxLimit, minJogLimit := cmd.minLimit }

def downloadsConfig (s : Machine K) : Option (Machine K) :=
  (s.writeAxis s.command.axis (downloadsConfigAxis · s.command)).map fun s =>
    { s with
      status := { s.status with maxacc := s.command.maxacc, maxvel := s.command.maxvel }
      internal := { s.internal with coordTp := { s.internal.coordTp with tolerance := 200 } }
      config := { s.config with maxAxisScale := s.command.maxAxisScale, limitVel := s.command.maxvel } }

/-- Write the amplifier output and the ACTIVE bit of the commanded axis. -/
def Machine.setAxisActive (s : Machine K) (fl : Bool) : Option (Machine K) :=
  (axisIndex s.command.axis).map fun i =>
    { s.updateAxis i (Axis.setActive · fl) with
      hal := { s.hal with ampEnable := fun j => if j = i then fl else s.hal.ampEnable j } }

/-- Only refused while the enable pin is 0. -/
def axisEnable (s : Machine K) : Option (Machine K) := if !s.hal.enable then some s else s.setAxisActive true

def axisDisable (s : Machine K) : Option (Machine K) := s.setAxisActive false

/-- A loop over `ALL_AXES`. -/
def Machine.mapConfigured (s : Machine K) (f : Axis K → Axis K) : Machine K :=
  { s with axes := fun i => if s.isConfigured i then f (s.axes i) else s.axes i }

def Axis.clearFaults (axis : Axis K) : Axis K :=
  { axis with flag := { axis.flag with error := false, fault := false } }

def abortMotion (s : Machine K) : Machine K :=
  let s := if s.status.motionFlag.coord then s.setTp (tpAbort s.internal.coordTp)
    else s.mapConfigured Axis.stopFree
  let s := (s.setMotionError false).mapConfigured Axis.clearFaults
  { s with status := { s.status with paused := false } }

def pauseMotion (s : Machine K) : Machine K :=
  let s := s.setTp (tpPause s.internal.coordTp)
  { s with status := { s.status with paused := true } }

/-- No active configured axis is on a limit switch. -/
def limitsOk (s : Machine K) : Bool :=
  !decide (∃ i : Fin 3, s.isConfigured i ∧ (s.axes i).flag.active ∧ ((s.axes i).flag.phl ∨ (s.axes i).flag.nhl))

/-- The checks before a coordinated move; `none` when they pass. -/
def coordMoveRefused (s : Machine K) : Option (Machine K) :=
  if !s.status.motionFlag.coord || !s.status.motionFlag.enable then
    some ((s.setCommandStatus .invalidCommand).setMotionError true)
  else if !limitsOk s then
    some (((s.setCommandStatus .invalidParams).setTp (tpAbort s.internal.coordTp)).setMotionError true)
  else none

/-- The end of a relative move, from the goal of the planner. -/
def relativeEnd (tp : Tp K) (pos : EmcPose K) (dir : Int) : EmcPose K :=
  if dir ≠ 0 then { pos with tran := pmCartCartAdd tp.goalPos.tran pos.tran }
  else { pos with tran := pmCartCartSub tp.goalPos.tran pos.tran }

/-- The planner's view of the machine in the command handler, which reads no pins. -/
def Machine.handlerEnv (s : Machine K) : TpEnv K := s.tpEnv fun _ => false

/-- The refusal of a move the planner could not append. -/
def Machine.failMove (s : Machine K) (tp : Tp K) : Machine K :=
  ((s.setCommandStatus .badExec).setTp (tpAbort tp)).setMotionError true

/-- The end of the commanded line. -/
def lineEnd (s : Machine K) : EmcPose K :=
  if s.command.ref ≠ 0 then relativeEnd s.internal.coordTp s.command.pos s.command.dir else s.command.pos

/-- The planner calls of a line: `tpSetId`, `tpSetVlimit` and `tpAddLine`. -/
def addCommandedLine (s : Machine K) : Tp K × TpErr :=
  tpAddLine s.handlerEnv (tpSetVlimit (tpSetId s.internal.coordTp s.command.id) (s.config.limitVel : K)) (lineEnd s)
    s.command.motionType (s.command.vel : K) (s.command.maxvel : K) (s.command.acc : K) s.status.enablesNew false
    s.command.turn

/-- Ask the interpolator of an axis for a point. -/
def Axis.requestPoint (axis : Axis K) : Axis K := { axis with cubic := { axis.cubic with needNextPoint := true } }

/-- The move itself, once the checks have passed. -/
def appendLine (s : Machine K) : Machine K :=
  let (tp, res) := addCommandedLine s
  let s := { s with command := { s.command with pos := lineEnd s } }
  if res.code < 0 then s.failMove tp
  else
    let s := s.setTp (tpSetSpindleSync tp s.command.spindle s.command.spindlesync false)
    s.updateAxis 0 Axis.requestPoint

def setLine (s : Machine K) : Machine K := (coordMoveRefused s).getD (appendLine s)

def appendCircle (s : Machine K) : Machine K :=
  let tp := tpSetId s.internal.coordTp s.command.id
  let (tp, res) := tpAddCircle s.handlerEnv tp s.command.pos s.command.center s.command.normal s.command.turn
    s.command.motionType (s.command.maxvel : K) (s.command.iniMaxvel : K) (s.command.maxacc : K)
    s.status.enablesNew false
  if res.code < 0 then s.failMove tp else s.setTp tp

def setCircle (s : Machine K) : Machine K := (coordMoveRefused s).getD (appendCircle s)

def setFree (s : Machine K) : Machine K :=
  { s with internal := { s.internal with freeing := true, coordinating := false } }

def setCoord (s : Machine K) : Machine K :=
  { s with internal := { s.internal with coordinating := true, freeing := false } }

def setEnabling (s : Machine K) (fl : Bool) : Machine K :=
  { s with internal := { s.internal with enabling := fl } }

/-! ### The handler -/

/-- The `switch` of the handler. -/
def executeCommand (s : Machine K) (jogInhibit : Bool) : Option (Machine K) :=
  match s.command.command with
  | .downloadsConfig => downloadsConfig s
  | .axisEnable => axisEnable s
  | .axisDisable => axisDisable s
  | .motionEnable => some (setEnabling s true)
  | .motionDisable => some (setEnabling s false)
  | .abort => some (abortMotion s)
  | .pause => some (pauseMotion s)
  | .jogCont => jogChecked s jogInhibit (jogCont s)
  | .jogIncr => jogChecked s jogInhibit (jogIncr s)
  | .jogAbs => jogChecked s jogInhibit (jogAbs s)
  | .jogAbort => s.writeAxis s.command.axis jogAbortAxis
  | .setLine => some (setLine s)
  | .setCircle => some (setCircle s)
  | .setFree => some (setFree s)
  | .setCoord => some (setCoord s)
  -- the case of `EMCMOT_FREE` is empty, and the others have none
  | .free | .resume | .unknown => some s

/-- `emcmotCommandHandler_locked`. -/
def emcmotCommandHandler (s : Machine K) (jogInhibit : Bool) : Option (Machine K) :=
  if s.command.commandNum ≠ s.status.commandNumEcho then
    executeCommand
      { s with status := { s.status with commandNumEcho := s.command.commandNum, commandStatus := .ok } } jogInhibit
  else some s

end SoemMotion
