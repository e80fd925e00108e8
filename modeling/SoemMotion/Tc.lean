import SoemMotion.PoseMath

/-!
# Trajectory segments

`tc_types.h`, `tc.c` and the spiral functions of `blendmath.c`: a segment of the planner, its geometry and the limits
read off it.  Segments are lines or circles; the kinds the program never queues (rigid taps, and the spherical arcs of
the arc blending the configuration leaves switched off) are left out.
-/

namespace SoemMotion

variable {K : Type} [Arith K]

/-! ### Constants -/

/-- `TP_POS_EPSILON`. -/
def tpPosEpsilon : K := 1

/-- `TP_VEL_EPSILON`. -/
def tpVelEpsilon : K := 1

/-- `TP_TIME_EPSILON`. -/
def tpTimeEpsilon : K := 1e-12

/-- `TP_ANGLE_EPSILON`. -/
def tpAngleEpsilon : K := 1e-6

/-- `TP_MIN_ARC_ANGLE`. -/
def tpMinArcAngle : K := 1e-3

/-- `BLEND_ACC_RATIO_TANGENTIAL`. -/
def blendAccRatioTangential : K := 0.5

/-- `BLEND_ACC_RATIO_NORMAL`. -/
def blendAccRatioNormal : K := pmSqrt (1 - pmSq blendAccRatioTangential)

/-! ### Types -/

/-- `tc_term_cond_t`. -/
inductive TermCond
  | stop
  | exact
  | parabolic
  | tangent
deriving DecidableEq, Repr

/-- `tc_spindle_sync_t`. -/
inductive SpindleSync
  | none
  | velocity
  | position
deriving DecidableEq, Repr

structure PmLine9 (K : Type) where
  xyz : PmCartLine K
  abc : PmCartLine K
  uvw : PmCartLine K

structure SpiralArcLengthFit (K : Type) where
  b0 : K
  b1 : K
  totalPlanarLength : K
  spiralIn : Bool

structure PmCircle9 (K : Type) where
  xyz : PmCircle K
  abc : PmCartLine K
  uvw : PmCartLine K
  fit : SpiralArcLengthFit K

/-- `motion_type` with the matching member of `coords`. -/
inductive Coords (K : Type)
  | line (line : PmLine9 K)
  | circle (circle : PmCircle9 K)

structure Tc (K : Type) where
  cycleTime : K
  target : K
  progress : K
  nominalLength : K
  reqvel : K
  targetVel : K
  maxvel : K
  currentvel : K
  finalvel : K
  termVel : K
  kinkVel : K
  kinkAccelReducePrev : K
  kinkAccelReduce : K
  maxaccel : K
  accRatioTan : K
  id : Int
  coords : Coords K
  active : Bool
  canonMotionType : Int
  termCond : TermCond
  blendingNext : Bool
  blendVel : K
  tolerance : K
  synchronized : SpindleSync
  uuPerRev : K
  velAtBlendStart : K
  syncAccel : Int
  enables : UInt8
  atspeed : Bool
  indexerJnum : Int
  optimizationAtMax : Bool
  onFinalDecel : Bool
  blendPrev : Bool
  accelRamp : Bool
  splitting : Bool
  remove : Bool
  activeDepth : Int
  finalized : Bool
  isBlending : Bool

/-! ### Setting up a segment -/

/-- A zeroed segment with the defaults of `tcInit`. -/
def tcInit (coords : Coords K) (canonMotionType : Int) (cycleTime : K) (enables : UInt8) (atspeed : Bool) : Tc K where
  cycleTime := cycleTime
  target := 0
  progress := 0
  nominalLength := 0
  reqvel := 0
  targetVel := 0
  maxvel := 0
  currentvel := 0
  finalvel := 0
  termVel := 0
  kinkVel := 0
  kinkAccelReducePrev := 0
  kinkAccelReduce := 0
  maxaccel := 0
  accRatioTan := blendAccRatioTangential
  id := -1
  coords := coords
  active := false
  canonMotionType := canonMotionType
  termCond := .stop
  blendingNext := false
  blendVel := 0
  tolerance := 0
  synchronized := .none
  uuPerRev := 0
  velAtBlendStart := 0
  syncAccel := 0
  enables := enables
  atspeed := atspeed
  indexerJnum := -1
  optimizationAtMax := false
  onFinalDecel := false
  blendPrev := false
  accelRamp := false
  splitting := false
  remove := false
  activeDepth := 1
  finalized := false
  isBlending := false

def tcSetupMotion (tc : Tc K) (vel iniMaxvel acc : K) : Tc K :=
  { tc with
    maxaccel := acc, maxvel := iniMaxvel, reqvel := vel, targetVel := 0
    kinkVel := -1, kinkAccelReduce := 0, kinkAccelReducePrev := 0 }

/-- `tcSetTermCond` with both segments: the condition of `prevTc`, and whether `tc` is blended into. -/
def tcSetTermCond (prevTc tc : Tc K) (cond : TermCond) : Tc K × Tc K :=
  ({ prevTc with termCond := cond }, { tc with blendPrev := cond == .parabolic })

def tcClampVelocityByLength (tc : Tc K) : Tc K :=
  { tc with maxvel := fmin tc.maxvel (tc.target / tc.cycleTime) }

def tcClearFlags (tc : Tc K) : Tc K := { tc with isBlending := false }

/-! ### Circles with their arc length -/

/-- `fsign`. -/
def fsign (f : K) : K := if 0 < f then 1 else if f < 0 then -1 else 0

/-- The angle for a parameter along the spiral, none for a negative discriminant. -/
def pmCircleAngleFromParam (circle : PmCircle K) (fit : SpiralArcLengthFit K) (t : K) : Option K :=
  let t := if fit.spiralIn then 1 - t else t
  let a := fit.b0
  let b := fit.b1
  let c := -(t * fit.totalPlanarLength)
  let disc := pmSq b - 4 * a * c
  if disc < 0 then none
  else
    -- of the two forms of the root, the one in which nothing cancels
    let angleOut := (2 * c) / (-b - pmSqrt disc)
    some (if fit.spiralIn then circle.angle - angleOut else angleOut)

/-- The fit, and whether it meets the angle of the circle. -/
def findSpiralArcLengthFit (circle : PmCircle K) : SpiralArcLengthFit K × Bool :=
  let inward := fsign circle.spiral < 0
  let spiralCoef := if inward then (circle.spiral / circle.angle) * (-1) else circle.spiral / circle.angle
  let minRadius := if inward then circle.radius + circle.spiral else circle.radius
  let slopeStart := pmSqrt (pmSq minRadius + pmSq spiralCoef)
  let slopeEnd := pmSqrt (pmSq (minRadius + spiralCoef * circle.angle) + pmSq spiralCoef)
  let b0 := (slopeEnd - slopeStart) / (2 * circle.angle)
  let fit : SpiralArcLengthFit K :=
    { b0 := b0, b1 := slopeStart, totalPlanarLength := b0 * pmSq circle.angle + slopeStart * circle.angle,
      spiralIn := decide inward }
  -- the fit is tried at the end of the arc
  match pmCircleAngleFromParam circle fit 1 with
  | none => (fit, false)
  | some angle => (fit, !decide (tpAngleEpsilon < fabs (angle - circle.angle)))

def pmCircleAngleFromProgress (circle : PmCircle K) (fit : SpiralArcLengthFit K) (progress : K) : Option K :=
  let sEnd := pmSqrt (pmSq fit.totalPlanarLength + pmCartMagSq circle.rHelix)
  pmCircleAngleFromParam circle fit (progress / sEnd)

def pmCircleEffectiveMinRadius (circle : PmCircle K) : K :=
  let dr := circle.spiral / circle.angle
  let nInner := pmSq dr + pmSq circle.radius
  let rSpiral := pmSqrt (nInner * nInner * nInner) / (nInner + pmSq dr)
  pmCartMagSq circle.rHelix / rSpiral + rSpiral

structure PmCircleLimits (K : Type) where
  vMax : K
  accRatio : K

def pmCircleActualMaxVel (circle : PmCircle K) (vMax aMax : K) : PmCircleLimits K :=
  let cutoff := blendAccRatioNormal * aMax
  let effRadius := pmCircleEffectiveMinRadius circle
  let accAtMax := pmSq vMax / fmax effRadius doubleFuzz
  if cutoff < accAtMax then { vMax := pmSqrt (cutoff * effRadius), accRatio := blendAccRatioTangential }
  else { vMax := vMax, accRatio := pmSqrt (1 - pmSq (accAtMax / aMax)) }

def pmLine9Init (start stop : EmcPose K) : PmLine9 K where
  xyz := pmCartLineInit start.tran stop.tran
  abc := pmCartLineInit (emcPoseAbc start) (emcPoseAbc stop)
  uvw := pmCartLineInit (emcPoseUvw start) (emcPoseUvw stop)

def pmLine9Target (line9 : PmLine9 K) : K :=
  if !line9.xyz.tmagZero then line9.xyz.tmag
  else if !line9.uvw.tmagZero then line9.uvw.tmag
  else if !line9.abc.tmagZero then line9.abc.tmag else 0

/-- None when the spiral fit fails. -/
def pmCircle9Init (start stop : EmcPose K) (center normal : PmCartesian K) (turn : Int) : Option (PmCircle9 K) :=
  let xyz := pmCircleInit start.tran stop.tran center normal turn
  let (fit, fits) := findSpiralArcLengthFit xyz
  if fits then
    some { xyz := xyz, abc := pmCartLineInit (emcPoseAbc start) (emcPoseAbc stop)
           uvw := pmCartLineInit (emcPoseUvw start) (emcPoseUvw stop), fit := fit }
  else none

def pmCircle9Target (circ9 : PmCircle9 K) : K :=
  pmSqrt (pmSq circ9.fit.totalPlanarLength + pmCartMagSq circ9.xyz.rHelix)

/-! ### Limits of a segment -/

def tcGetMaxTargetVel (tc : Tc K) (maxScale : K) : K :=
  let vMaxTarget := if tc.synchronized = .none then tc.reqvel * maxScale else tc.maxvel
  fmin vMaxTarget tc.maxvel

def tcGetOverallMaxAccel (tc : Tc K) : K :=
  let aScale := 1 - fmax tc.kinkAccelReduce tc.kinkAccelReducePrev
  let aScale := if tc.blendPrev || tc.termCond == .parabolic then aScale * 0.5 else aScale
  tc.maxaccel * aScale

def tcGetTangentialMaxAccel (tc : Tc K) : K :=
  match tc.coords with
  | .line _ => tcGetOverallMaxAccel tc
  | .circle _ => tcGetOverallMaxAccel tc * tc.accRatioTan

/-- A pure rotation: a line that moves neither in `xyz` nor in `uvw`. -/
def tcPureRotaryCheck (tc : Tc K) : Bool :=
  match tc.coords with
  | .line line => line.xyz.tmagZero && line.uvw.tmagZero
  | .circle _ => false

def tcUpdateCircleAccRatio (tc : Tc K) : Tc K :=
  match tc.coords with
  | .line _ => tc
  | .circle circle =>
    let limits := pmCircleActualMaxVel circle.xyz tc.maxvel (tcGetOverallMaxAccel tc)
    { tc with maxvel := limits.vMax, accRatioTan := limits.accRatio }

def tcFinalizeLength (tc : Tc K) : Tc K :=
  if tc.finalized then tc
  else { tcUpdateCircleAccRatio (tcClampVelocityByLength tc) with finalized := true }

/-- The conditions that force a stop between `tc` and the segment after it. -/
def tcFlagEarlyStop (tc nexttc : Tc K) : Tc K × Tc K :=
  let (tc, nexttc) :=
    if tc.synchronized != .position && nexttc.synchronized == .position then tcSetTermCond tc nexttc .stop
    else (tc, nexttc)
  if nexttc.atspeed then tcSetTermCond tc nexttc .stop else (tc, nexttc)

/-! ### Directions used by the parabolic blend -/

def tcCircleStartAccelUnitVector (tc : Tc K) (circle : PmCircle9 K) : PmCartesian K :=
  let startpoint := pmCirclePoint circle.xyz 0
  let tan := pmCartUnit (pmCartCartCross circle.xyz.normal (pmCartCartSub startpoint circle.xyz.center))
  let perp := pmCartUnit (pmCartCartSub circle.xyz.center startpoint)
  pmCartUnit (pmCartCartAdd (pmCartScalMult tan (tcGetOverallMaxAccel tc))
    (pmCartScalMult perp (pmSq (0.5 * tc.reqvel) / circle.xyz.radius)))

def tcCircleEndAccelUnitVector (circle : PmCircle9 K) : PmCartesian K :=
  let endpoint := pmCirclePoint circle.xyz circle.xyz.angle
  pmCartUnit (pmCartCartCross circle.xyz.normal (pmCartCartSub endpoint circle.xyz.center))

def tcGetStartAccelUnitVector (tc : Tc K) : PmCartesian K :=
  match tc.coords with
  | .line line => line.xyz.uVec
  | .circle circle => tcCircleStartAccelUnitVector tc circle

def tcGetEndAccelUnitVector (tc : Tc K) : PmCartesian K :=
  match tc.coords with
  | .line line => line.xyz.uVec
  | .circle circle => tcCircleEndAccelUnitVector circle

/-- Half of the supplement of the angle between two unit vectors. -/
def findIntersectionAngle (u₁ u₂ : PmCartesian K) : K :=
  Arith.acos (-(satInplace (pmCartCartDot u₁ u₂) 1).1) / 2

/-! ### Position along a segment -/

def tcGetTarget (tc : Tc K) (reverse : Bool) : K := if reverse then 0 else tc.target

def tcGetDistanceToGo (tc : Tc K) (reverse : Bool) : K :=
  let distance := tcGetTarget tc reverse - tc.progress
  if reverse then distance * (-1) else distance

/-- The pose at `progress`; none when the angle of a spiral cannot be found, and `*pos` is then left alone. -/
def tcGetPosReal (tc : Tc K) (progress : K) : Option (EmcPose K) :=
  let linePoint (line : PmCartLine K) := pmCartLinePoint line (progress * line.tmag / tc.target)
  match tc.coords with
  | .line line => some (pmCartesianToEmcPose (linePoint line.xyz) (linePoint line.abc) (linePoint line.uvw))
  | .circle circle =>
    (pmCircleAngleFromProgress circle.xyz circle.fit progress).map fun angle =>
      pmCartesianToEmcPose (pmCirclePoint circle.xyz angle) (linePoint circle.abc) (linePoint circle.uvw)

/-- `tcGetPos` into an uninitialised pose, which reads as zero. -/
def tcGetPos (tc : Tc K) : EmcPose K := (tcGetPosReal tc tc.progress).getD emcPoseZero

/-- `tcGetEndpoint` into `pos`. -/
def tcGetEndpoint (tc : Tc K) (pos : EmcPose K) : EmcPose K := (tcGetPosReal tc tc.target).getD pos

end SoemMotion
