import SoemMotion.Axis
import SoemMotion.Cubic
import SoemMotion.Tp

/-!
# The state of the motion controller

`motion.h` and `motion_priv.h`: the command, status, configuration and internal blocks, the axes, and the HAL pins that
are read back; and `motion.c`: the state in which the motion module starts its threads, and the cycle times.
The flag words are records of their bits.
-/

namespace SoemMotion

variable {K : Type} [Arith K]

/-! ### Types -/

/-- `cmd_code_t`; `unknown` stands for every other value. -/
inductive CmdCode
  | free
  | downloadsConfig
  | axisEnable
  | axisDisable
  | motionEnable
  | motionDisable
  | abort
  | pause
  | resume
  | jogCont
  | jogIncr
  | jogAbs
  | jogAbort
  | setLine
  | setCircle
  | setFree
  | setCoord
  | unknown
deriving DecidableEq, Repr

/-- `emcmot_command_t`, as far as the command handler reads it. -/
structure Command (K : Type) where
  command : CmdCode
  commandNum : Int
  maxLimit : Int
  minLimit : Int
  pos : EmcPose K
  center : PmCartesian K
  normal : PmCartesian K
  turn : Int
  maxvel : Int
  maxacc : Int
  vel : Int
  acc : Int
  iniMaxvel : Int
  motionType : Int
  spindlesync : K
  dir : Int
  ref : Int
  id : Int
  axis : Int
  spindle : Int
  offset : K
  maxAxisScale : K

/-- `cmd_status_t`. -/
inductive CmdStatus
  | ok
  | invalidCommand
  | invalidParams
  | badExec
deriving DecidableEq, Repr

/-- `motion_state_t`. -/
inductive MotionState
  | disabled
  | free
  | coord
deriving DecidableEq, Repr

/-- `EMCMOT_MOTION_FLAG`. -/
structure MotionFlag where
  enable : Bool
  inpos : Bool
  free : Bool
  coord : Bool
  error : Bool
deriving DecidableEq, Repr

/-- `EMCMOT_JOINT_FLAG`. -/
structure AxisFlag where
  enable : Bool
  active : Bool
  inpos : Bool
  error : Bool
  phl : Bool
  nhl : Bool
  ferror : Bool
  fault : Bool
deriving DecidableEq, Repr

/-- `emcmot_axis_t` of motion.h. -/
structure Axis (K : Type) where
  maxPosLimit : Int
  minPosLimit : Int
  maxJogLimit : Int
  minJogLimit : Int
  velLimit : Int
  accLimit : Int
  minFerror : Int
  maxFerror : Int
  flag : AxisFlag
  coarsePos : Int
  posCmd : Int
  velCmd : Int
  accCmd : Int
  motorPosCmd : Int
  motorPosFb : Int
  posFb : Int
  ferror : Int
  ferrorLimit : Int
  freeTp : SimpleTp
  cubic : Cubic K
  motorOffset : Int

/-- `emcmot_status_t`, less what the planner writes (`TpStatus`). -/
structure Status (K : Type) where
  commandNumEcho : Int
  commandStatus : CmdStatus
  enablesNew : UInt8
  netFeedScale : K
  motionState : MotionState
  motionFlag : MotionFlag
  cartePosCmd : EmcPose K
  cartePosFb : EmcPose K
  onSoftLimit : Bool
  miscError : Nat → Bool
  id : Int
  depth : Int
  activeDepth : Int
  queueFull : Bool
  paused : Bool
  overrideLimitMask : Nat
  maxvel : Int
  maxacc : Int
  stepping : Bool

/-- `emcmot_config_t`. -/
structure Config (K : Type) where
  numAxes : Int
  numMiscError : Nat
  trajCycleTime : K
  servoCycleTime : K
  interpolationRate : Int
  limitVel : Int
  arcBlendOptDepth : Int
  arcBlendRampFreq : K
  maxAxisScale : K

/-- `emcmot_internal_t`. -/
structure Internal (K : Type) where
  enabling : Bool
  freeing : Bool
  coordinating : Bool
  overriding : Bool
  coordTp : Tp K
  idForStep : Int

/-- The HAL pins whose value the controller or the command handler reads back, and the amplifier outputs. -/
structure HalPins where
  enable : Bool
  jogIsActive : Bool
  ampEnable : Fin 3 → Bool

/-- The whole state the threads share. -/
structure Machine (K : Type) where
  command : Command K
  status : Status K
  config : Config K
  internal : Internal K
  axes : Fin 3 → Axis K
  axisArray : Fin 3 → TeleopAxis
  hal : HalPins
  /-- the static `servo_period` of control.c -/
  servoPeriod : Int
  /-- the static `last_period` of control.c -/
  lastPeriod : Int

/-- The input pins of one axis in one cycle. -/
structure AxisInput where
  motorPosFb : Int
  posLimSw : Bool
  negLimSw : Bool
  ampFault : Bool
  isUnlocked : Bool
deriving DecidableEq, Repr

/-- The input pins the controller samples in one cycle. -/
structure Inputs where
  axis : Fin 3 → AxisInput
  jogStop : Bool
  jogStopImmediate : Bool
  miscError : Nat → Bool

/-- The planner's view of the status and configuration blocks. -/
def Machine.tpEnv (s : Machine K) (isUnlocked : Int → Bool) : TpEnv K where
  netFeedScale := s.status.netFeedScale
  stepping := s.status.stepping
  enablesNew := s.status.enablesNew
  maxAxisScale := s.config.maxAxisScale
  arcBlendOptDepth := s.config.arcBlendOptDepth
  arcBlendRampFreq := s.config.arcBlendRampFreq
  isUnlocked := isUnlocked

/-! ### Cycle times -/

def setTrajCycleTime (s : Machine K) (secs : K) : Machine K :=
  if secs ≤ 0 then s
  else
    let rate := if s.config.servoCycleTime == 0 then 1 else Arith.trunc (secs / s.config.servoCycleTime + 0.5)
    { s with
      config := { s.config with interpolationRate := rate, trajCycleTime := secs }
      internal := { s.internal with coordTp := tpSetCycleTime s.internal.coordTp secs }
      axes := fun i => { s.axes i with cubic := cubicSetInterpolationRate (s.axes i).cubic rate } }

def setServoCycleTime (s : Machine K) (secs : K) : Machine K :=
  if secs ≤ 0 then s
  else
    let rate := Arith.trunc (s.config.trajCycleTime / secs + 0.5)
    { s with
      config := { s.config with interpolationRate := rate, servoCycleTime := secs }
      axes := fun i => { s.axes i with
        cubic := cubicSetSegmentTime (cubicSetInterpolationRate (s.axes i).cubic rate) secs } }

/-- `servo_period_nsec`. -/
def servoPeriodNsec : Int := 1000000

/-- `traj_period_nsec`, as `init_motion_threads` sets it. -/
def trajPeriodNsec : Int := servoPeriodNsec * 1000

/-- The period of the motion thread. -/
def motionThreadPeriod : Int := servoPeriodNsec * 1000

def emcmotSetCycleTime (s : Machine K) (nsec : Int) : Machine K :=
  let servoMult := trajPeriodNsec / nsec
  let s := setTrajCycleTime s ((nsec : K) * 1e-9)
  setServoCycleTime s (((nsec * servoMult : Int) : K) * 1e-9)

/-! ### The initial state -/

/-- A planner in zeroed memory. -/
def SimpleTp.zero : SimpleTp := ⟨0, 0, 0, 0, 0, false, 0, 0, false, 0⟩

/-- An interpolator in zeroed memory. -/
def Cubic.zero : Cubic K where
  segmentTimeSet := false
  interpolationRateSet := false
  segmentTime := 0
  interpolationRate := 0
  interpolationTime := 0
  interpolationIncrement := 0
  x0 := 0
  x1 := 0
  x2 := 0
  x3 := 0
  wp0 := 0
  wp1 := 0
  velp0 := 0
  velp1 := 0
  filled := false
  needNextPoint := false
  coeff := ⟨0, 0, 0, 0⟩

/-- The axis after `init_motion_comm_buffers`: `flag` is 1, so the ENABLE bit is set while the axis is not active. -/
def initAxis : Axis K where
  maxPosLimit := 1
  minPosLimit := -1
  maxJogLimit := 0
  minJogLimit := 0
  velLimit := 1
  accLimit := 1
  minFerror := 400
  maxFerror := 27486951
  flag := ⟨true, false, true, false, false, false, false, false⟩
  coarsePos := 0
  posCmd := 0
  velCmd := 0
  accCmd := 0
  motorPosCmd := 0
  motorPosFb := 0
  posFb := 0
  ferror := 0
  ferrorLimit := 400
  freeTp := SimpleTp.zero
  cubic := cubicInit Cubic.zero
  motorOffset := 0

/-- `FS_ENABLED | SS_ENABLED | FH_ENABLED`. -/
def enablesDefault : UInt8 := 0x0B

/-- `DEFAULT_TC_QUEUE_SIZE`. -/
def defaultTcQueueSize : Nat := 2000

/-- The segment storage in zeroed memory. -/
def zeroTc : Tc K :=
  { tcInit (.line (pmLine9Init emcPoseZero emcPoseZero)) 0 0 0 false with id := 0, indexerJnum := 0, activeDepth := 0 }

/-- The planner in zeroed memory, with the queue `tpCreate` gives it. -/
def zeroTp : Tp K where
  queue := { queue := fun _ => zeroTc, size := defaultTcQueueSize, len := 0, rlen := 0, start := 0, «end» := 0,
             rend := 0, allFull := false }
  spindle := ⟨0, 0, 0, 0, 0⟩
  currentPos := emcPoseZero
  goalPos := emcPoseZero
  cycleTime := 0
  vLimit := 0
  nextId := 0
  execId := 0
  termCond := .stop
  done := false
  depth := 0
  activeDepth := 0
  aborting := false
  pausing := false
  reverseRun := false
  motionType := 0
  tolerance := 0
  synchronized := .none
  uuPerRev := 0
  status := ⟨0, 0, 0, 0, enablesDefault, emcPoseZero⟩

/-- `tp_init`: the cycle time and the limits are still zero, so only `tpInit` and `tpSetPos` have an effect. -/
def initTp : Tp K := tpSetPos (tpSetCycleTime (tpInit zeroTp) 0) emcPoseZero

/-- The command block in zeroed memory. -/
def initCommand : Command K where
  command := .free
  commandNum := 0
  maxLimit := 0
  minLimit := 0
  pos := emcPoseZero
  center := ⟨0, 0, 0⟩
  normal := ⟨0, 0, 0⟩
  turn := 0
  maxvel := 0
  maxacc := 0
  vel := 0
  acc := 0
  iniMaxvel := 0
  motionType := 0
  spindlesync := 0
  dir := 0
  ref := 0
  id := 0
  axis := 0
  spindle := 0
  offset := 0
  maxAxisScale := 0

/-- `init_motion_comm_buffers`, `init_hal_param` and `tp_init` for `numAxes` configured axes. -/
def initBuffers (numAxes : Int) : Machine K where
  command := initCommand
  status :=
    { commandNumEcho := 0, commandStatus := .ok, enablesNew := enablesDefault, netFeedScale := 1
      motionState := .disabled, motionFlag := ⟨false, true, false, false, false⟩
      cartePosCmd := emcPoseZero, cartePosFb := emcPoseZero, onSoftLimit := false, miscError := fun _ => false
      id := 0, depth := 0, activeDepth := 0, queueFull := false, paused := false, overrideLimitMask := 0
      maxvel := 0, maxacc := 0, stepping := false }
  config :=
    { numAxes := numAxes, numMiscError := 0, trajCycleTime := 0, servoCycleTime := 0, interpolationRate := 0
      limitVel := 0, arcBlendOptDepth := 50, arcBlendRampFreq := 100, maxAxisScale := 0 }
  internal :=
    { enabling := false, freeing := false, coordinating := false, overriding := false, coordTp := initTp
      idForStep := 0 }
  axes := fun _ => initAxis
  axisArray := fun _ =>
    { maxPosLimit := 0, minPosLimit := 0, teleopTp := SimpleTp.zero, kbAjogActive := false
      extOffsetTp := SimpleTp.zero }
  hal := { enable := true, jogIsActive := false, ampEnable := fun _ => true }
  servoPeriod := 0
  lastPeriod := 0

/-- The state in which `init_motion_threads` leaves the machine. -/
def initMachine (numAxes : Int) : Machine K :=
  let s := setServoCycleTime (initBuffers numAxes) ((servoPeriodNsec : K) * 1e-9)
  setTrajCycleTime s ((trajPeriodNsec : K) * 1e-9)

end SoemMotion
