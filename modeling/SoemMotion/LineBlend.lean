import SoemMotion.Blend

/-!
# Rounding the corner between two lines

`tpCreateLineLineBlend` of `tp.c` with what it calls in `tc.c` and `blendmath.c`: an arc is fitted between the last
queued line and the one to be appended, compared with the other ways of getting around the corner, and the two lines
are shortened to meet it; a line that would become too short is taken out of the queue, and the arc starts with it.
-/

namespace SoemMotion

variable {K : Type} [Arith K]

/-! ### Settings and results -/

/-- The acceleration limits of the three axes, and the fields of the configuration that the blending reads beside those
of `TpEnv`. -/
structure BlendConfig (K : Type) where
  accBound : PmCartesian K
  arcBlendGapCycles : Int
  arcBlendTangentKinkRatio : K

/-- The return codes `TP_ERR_TOLERANCE`, `TP_ERR_FAIL` and `TP_ERR_NO_ACTION` of the blend functions. -/
inductive BlendErr
  | tolerance
  | fail
  | noAction
deriving DecidableEq, Repr

/-- `tc_blend_type_t`. -/
inductive BlendType
  | noBlend
  | parabolic
  | tangentSegments
  | arc
deriving DecidableEq, Repr

/-- A segment of the kind `TC_SPHERICAL`, as far as its fields differ from the defaults of `tcInit`. -/
structure BlendTc (K : Type) where
  arc : SphericalArc K
  abc : PmCartesian K
  uvw : PmCartesian K
  cycleTime : K
  target : K
  nominalLength : K
  reqvel : K
  maxvel : K
  maxaccel : K
  accRatioTan : K
  canonMotionType : Int
  termCond : TermCond
  tolerance : K
  synchronized : SpindleSync
  uuPerRev : K
  enables : UInt8
  atspeed : Bool
  finalized : Bool

/-- The case `TC_SPHERICAL` of `tcGetPosReal`. -/
def BlendTc.pos (blendTc : BlendTc K) (progress : K) : EmcPose K :=
  pmCartesianToEmcPose (arcPoint blendTc.arc progress) blendTc.abc blendTc.uvw

/-- `tcGetTangentialMaxAccel` of a blend arc, which has no kink and no parabolic blend. -/
def BlendTc.tangentialMaxAccel (blendTc : BlendTc K) : K := blendTc.maxaccel * (1 - fmax 0 0) * blendTc.accRatioTan

/-! ### The corner between two segments -/

def pmCircleTangentVector (circle : PmCircle K) (angleIn : K) : PmCartesian K :=
  let startpoint := pmCirclePoint circle angleIn
  let radius := pmCartCartSub startpoint circle.center
  let uTan := pmCartCartCross circle.normal radius
  -- the parts along the axis of a helix and, of a spiral, along the radius
  let dHelix := pmCartScalMult circle.rHelix (1 / circle.angle)
  let dRadial := pmCartScalMult (pmCartUnit radius) (circle.spiral / circle.angle)
  pmCartUnit (pmCartCartAdd (pmCartCartAdd uTan dHelix) dRadial)

def tcGetStartTangentUnitVector (tc : Tc K) : PmCartesian K :=
  match tc.coords with
  | .line line => line.xyz.uVec
  | .circle circle => pmCircleTangentVector circle.xyz 0

def tcGetEndTangentUnitVector (tc : Tc K) : PmCartesian K :=
  match tc.coords with
  | .line line => line.xyz.uVec
  | .circle circle => pmCircleTangentVector circle.xyz circle.xyz.angle

def tcGetIntersectionPoint (prevTc tc : Tc K) : PmCartesian K :=
  match prevTc.coords, tc.coords with
  | _, .line line => line.xyz.start
  | .line prevLine, .circle _ => prevLine.xyz.end
  | .circle _, .circle circle => pmCirclePoint circle.xyz 0

/-- The geometry of the corner with its angle `theta_tan`; refused where the segments are nearly parallel. -/
def blendGeom3Init (prevTc tc : Tc K) : Except BlendErr (BlendGeom3 K × K) :=
  let uTan1 := tcGetEndTangentUnitVector prevTc
  let uTan2 := tcGetStartTangentUnitVector tc
  let thetaTan := findIntersectionAngle uTan1 uTan2
  if Arith.pi / 2 - thetaTan < tpAngleEpsilon then .error .tolerance
  else if thetaTan < tpAngleEpsilon then .error .tolerance
  else
    let zero : PmCartesian K := ⟨0, 0, 0⟩
    .ok (blendCalculateNormals3
      { u1 := uTan1, u2 := uTan2, P := tcGetIntersectionPoint prevTc tc, normal := zero, binormal := zero
        uTan1 := uTan1, uTan2 := uTan2 }, thetaTan)

/-- `*T_blend` of `tcFindBlendTolerance`. -/
def tcFindBlendTolerance (prevTc tc : Tc K) : K :=
  let toleranceRatio : K := 0.25
  let T1 := if prevTc.tolerance == 0 then prevTc.nominalLength * toleranceRatio else prevTc.tolerance
  let T2 := if tc.tolerance == 0 then tc.nominalLength * toleranceRatio else tc.tolerance
  fmin (fmin (fmin T1 T2) (prevTc.nominalLength * toleranceRatio)) (tc.nominalLength * toleranceRatio)

/-- The largest speed at which the corner can be cut, from the altitude of the triangle of the two velocities. -/
def blendAltitudeVel (geom : BlendGeom3 K) (phi : K) (prevTc tc : Tc K) : K :=
  -- less than a right angle, to prevent a division by zero
  let phiEffective := fmin phi (Arith.pi * 0.49)
  let vMax1 := fmin prevTc.maxvel (tc.maxvel / Arith.cos phiEffective)
  let vMax2 := fmin tc.maxvel (prevTc.maxvel / Arith.cos phiEffective)
  let vArea := vMax1 * vMax2 / 2 * Arith.sin phi
  let base := pmCartMag (pmCartCartSub (pmCartScalMult geom.u2 vMax2) (pmCartScalMult geom.u1 vMax1))
  match prevTc.coords, tc.coords with
  | .line _, .line _ => 2 * vArea / base
  | _, _ => 0

/-- The limits of the blend beside the lengths `L1` and `L2`; none where the plane of the corner has no inscribed
circle. -/
def blendParamKinematics (env : TpEnv K) (cfg : BlendConfig K) (geom : BlendGeom3 K) (theta L1 L2 : K)
    (prevTc tc : Tc K) : Option (BlendParameters K) :=
  let phi := Arith.pi - theta * 2
  let vReq := fmax (tcGetMaxTargetVel prevTc 1) (tcGetMaxTargetVel tc 1)
  let vGoal := fmax (tcGetMaxTargetVel prevTc env.maxAxisScale) (tcGetMaxTargetVel tc env.maxAxisScale)
  let vMax := fmax (blendAltitudeVel geom phi prevTc tc) 0
  (calculateInscribedDiameter geom.binormal cfg.accBound).map fun aMax =>
    { tolerance := tcFindBlendTolerance prevTc tc, L1 := L1, L2 := L2, vReq := vReq, aMax := aMax, theta := theta
      phi := phi, aNMax := aMax * blendAccRatioNormal, RPlan := 0, dPlan := 0, vGoal := fmin vGoal vMax, vPlan := 0
      vActual := 0, sArc := 0 }

def blendInit3FromLineLine (env : TpEnv K) (cfg : BlendConfig K) (prevTc tc : Tc K) :
    Except BlendErr (BlendGeom3 K × BlendParameters K) :=
  match prevTc.coords, tc.coords with
  | .line _, .line _ =>
    match blendGeom3Init prevTc tc with
    | .error err => .error err
    | .ok (geom, thetaTan) =>
      let L1 := fmin prevTc.target (prevTc.nominalLength * blendDistFraction)
      let L2 := tc.target * blendDistFraction
      match blendParamKinematics env cfg geom thetaTan L1 L2 prevTc tc with
      | none => .error .fail
      | some param => .ok (geom, param)
  | _, _ => .error .fail

/-! ### The arc -/

def tcCanConsume (tc : Tc K) : Bool := !(tc.blendPrev || tc.atspeed)

/-- Whether the rest of the previous line is too short to stay a segment of its own, and its length if so. -/
def blendCheckConsume (param : BlendParameters K) (points : BlendPoints3 K) (prevTc : Tc K) (gapCycles : Int) :
    Bool × K :=
  let LPrev := prevTc.target - points.trim1
  let prevSegTime := LPrev / param.vPlan
  let consume := decide (prevSegTime < (gapCycles : K) * prevTc.cycleTime) && tcCanConsume prevTc
  (consume, if consume then LPrev else 0)

def arcFromBlendPoints3 (points : BlendPoints3 K) (geom : BlendGeom3 K) (lineLength : K) : SphericalArc K × TpErr :=
  let zero : PmCartesian K := ⟨0, 0, 0⟩
  arcInitFromPoints
    { start := zero, «end» := zero, center := zero, rStart := zero, rEnd := zero, uTan := geom.uTan1, radius := 0
      spiral := 0, angle := 0, sangle := 0, lineLength := lineLength }
    points.arcStart points.arcEnd points.arcCenter

/-- The segment of an arc, with the settings of the planner and of the previous line. -/
def tpInitBlendArcFromPrev (tp : Tp K) (prevTc : Tc K) (arc : SphericalArc K) (abc uvw : PmCartesian K)
    (vel iniMaxvel acc : K) : BlendTc K where
  arc := arc
  abc := abc
  uvw := uvw
  cycleTime := tp.cycleTime
  target := arcLength arc
  nominalLength := arcLength arc
  reqvel := vel
  maxvel := fmin iniMaxvel (arcLength arc / tp.cycleTime)
  maxaccel := acc
  accRatioTan := blendAccRatioTangential
  canonMotionType := prevTc.canonMotionType
  termCond := .tangent
  tolerance := tp.tolerance
  synchronized := tp.synchronized
  uuPerRev := tp.uuPerRev
  enables := prevTc.enables
  atspeed := false
  finalized := true

/-! ### The choice -/

/-- The net velocity of `tpComputeBlendVelocity` at the largest target velocities. -/
def estimateParabolicBlendPerformance (env : TpEnv K) (tp : Tp K) (tc nexttc : Tc K) : K :=
  let (vThis, vNext) := tpComputeBlendVelocity tc nexttc (tpGetMaxTargetVel env tp tc) (tpGetMaxTargetVel env tp nexttc)
  let theta := findIntersectionAngle (tcGetEndAccelUnitVector tc) (tcGetStartAccelUnitVector nexttc)
  Arith.sin theta * (vThis + vNext) / 2

def tcRemoveKinkProperties (prevTc tc : Tc K) : Tc K × Tc K :=
  ({ prevTc with kinkVel := -1, kinkAccelReduce := 0 }, { tc with kinkAccelReducePrev := 0 })

/-- `find_max_element` of the performances of the three blends, in their order. -/
def findMaxElement (perfParabolic perfTangent perfArcBlend : K) : BlendType :=
  let best : BlendType × K :=
    if perfParabolic < perfTangent then (.tangentSegments, perfTangent) else (.parabolic, perfParabolic)
  if best.2 < perfArcBlend then .arc else best.1

/-- Compare the blend arc, if there is one, with the blends without an arc. -/
def tpChooseBestBlend (env : TpEnv K) (tp : Tp K) (prevTc tc : Tc K) (blendTc : Option (BlendTc K)) :
    Tc K × Tc K × BlendType :=
  if prevTc.termCond == .exact || prevTc.termCond == .stop then (prevTc, tc, .noBlend)
  else
    let perfParabolic := estimateParabolicBlendPerformance env tp prevTc tc / 2
    let perfTangent := prevTc.kinkVel
    let perfArcBlend := match blendTc with | some blendTc => blendTc.maxvel | none => 0
    match findMaxElement perfParabolic perfTangent perfArcBlend with
    | .parabolic =>
      let (prevTc, tc) := tcRemoveKinkProperties prevTc tc
      let (prevTc, tc) := tcSetTermCond prevTc tc .parabolic
      (prevTc, tc, .parabolic)
    | .tangentSegments =>
      let (prevTc, tc) := tcSetTermCond prevTc tc .tangent
      (prevTc, tc, .tangentSegments)
    | .arc =>
      let (prevTc, tc) := tcRemoveKinkProperties prevTc tc
      (prevTc, tc, .arc)
    | .noBlend => (prevTc, tc, .noBlend)

/-! ### The blend -/

/-- A line that ends at `circStart`. -/
def tcShortenEnd (tc : Tc K) (line : PmLine9 K) (circStart : PmCartesian K) : Tc K :=
  let xyz := pmCartLineInit line.xyz.start circStart
  { tc with coords := .line { line with xyz := xyz }, target := xyz.tmag }

/-- A line that starts at `circEnd`. -/
def tcShortenStart (tc : Tc K) (line : PmLine9 K) (circEnd : PmCartesian K) : Tc K :=
  let xyz := pmCartLineInit circEnd line.xyz.end
  { tc with coords := .line { line with xyz := xyz }, target := xyz.tmag }

/-- `tcConnectBlendArc` with the previous line. -/
def tcConnectBlendArc (prevTc tc : Tc K) (prevLine line : PmLine9 K) (circStart circEnd : PmCartesian K) :
    Tc K × Tc K :=
  tcSetTermCond (tcShortenEnd prevTc prevLine circStart) (tcShortenStart tc line circEnd) .tangent

/-- `tcConnectBlendArc` of an arc that has consumed the previous line. -/
def tcConnectBlendArcNext (tc : Tc K) (line : PmLine9 K) (circEnd : PmCartesian K) : Tc K :=
  { tcShortenStart tc line circEnd with blendPrev := false }

/-- Fit an arc between `prevTc`, the newest segment of the queue, and `tc`: the planner, `tc`, and the arc. -/
def tpCreateLineLineBlend (env : TpEnv K) (cfg : BlendConfig K) (tp : Tp K) (prevTc tc : Tc K) :
    Tp K × Tc K × Except BlendErr (BlendTc K) :=
  match prevTc.coords, tc.coords, blendInit3FromLineLine env cfg prevTc tc with
  | .line prevLine, .line line, .ok (geom, param) =>
    let (param, resBlend) := blendComputeParameters param
    if resBlend ≠ .ok then (tp, tc, .error .fail)
    else
      let points := blendFindPoints3 geom param
      let (consume, lineLength) := blendCheckConsume param points prevTc cfg.arcBlendGapCycles
      let (arc, resArc) := arcFromBlendPoints3 points geom lineLength
      if resArc ≠ .ok then (tp, tc, .error .fail)
      else
        -- the end of the previous line: there is no movement in abc or uvw
        let blendTc := tpInitBlendArcFromPrev tp prevTc arc prevLine.abc.end prevLine.uvw.end param.vReq param.vPlan
          param.aMax
        let (prevTc, tc, best) := tpChooseBestBlend env tp prevTc tc (some blendTc)
        let tp := { tp with queue := tp.queue.setLast prevTc }
        if best ≠ .arc then (tp, tc, .error .noAction)
        else if consume then
          match tcqPopBack tp.queue with
          | none => (tp, tc, .error .fail)
          | some queue => ({ tp with queue := queue }, tcConnectBlendArcNext tc line points.arcEnd, .ok blendTc)
        else
          let (prevTc, tc) := tcConnectBlendArc prevTc tc prevLine line points.arcStart points.arcEnd
          ({ tp with queue := tp.queue.setLast prevTc }, tc, .ok blendTc)
  | _, _, .error err => (tp, tc, .error err)
  | _, _, .ok _ => (tp, tc, .error .fail)

end SoemMotion
