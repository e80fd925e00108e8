import SoemMotion.Tc
import SoemMotion.Tcq

/-!
# The trajectory planner

`tp.c`: the queue of segments, what a call that appends a segment does to it, and the cycle that advances the head
segment and hands over to the next one.  What the planner reads of the status and configuration blocks is the
record `TpEnv`, what it writes there is `TpStatus`.  Arc blending is left out: the configuration of this program
never enables it.
-/

namespace SoemMotion

variable {K : Type} [Arith K]

/-- `tp_err_t`, as far as the modelled functions return it. -/
inductive TpErr
  | radiusTooSmall
  | geom
  | fail
  | ok
  | noAction
  | slowing
  | stopped
  | waiting
  | zeroLength
  | reverseEmpty
deriving DecidableEq, Repr

/-- The value of a return code. -/
def TpErr.code : TpErr → Int
  | .radiusTooSmall => -6
  | .geom => -5
  | .fail => -1
  | .ok => 0
  | .noAction => 1
  | .slowing => 2
  | .stopped => 3
  | .waiting => 4
  | .zeroLength => 5
  | .reverseEmpty => 6

/-- `TP_OPTIMIZATION_CUTOFF`. -/
def tpOptimizationCutoff : Int := 4

/-- `TP_MIN_SEGMENT_CYCLES`. -/
def tpMinSegmentCycles : K := 1.02

/-- `BLEND_DIST_FRACTION`. -/
def blendDistFraction : K := 0.5

/-- `MOTION_INVALID_ID`. -/
def motionInvalidId : Int := -2 ^ 31

/-- The fields of the status and configuration blocks, and the pin, that the planner reads. -/
structure TpEnv (K : Type) where
  netFeedScale : K
  stepping : Bool
  enablesNew : UInt8
  maxAxisScale : K
  arcBlendOptDepth : Int
  arcBlendRampFreq : K
  isUnlocked : Int → Bool

/-- The fields of the status block that the planner writes. -/
structure TpStatus (K : Type) where
  tcqlen : Int
  requestedVel : Int
  currentVel : Int
  distanceToGo : K
  enablesQueued : UInt8
  dtg : EmcPose K

structure TpSpindle (K : Type) where
  spindleNum : Int
  offset : K
  revs : K
  waitingForIndex : Int
  waitingForAtspeed : Int

structure Tp (K : Type) where
  queue : Tcq (Tc K)
  spindle : TpSpindle K
  currentPos : EmcPose K
  goalPos : EmcPose K
  cycleTime : K
  vLimit : K
  nextId : Int
  execId : Int
  termCond : TermCond
  done : Bool
  depth : Int
  activeDepth : Int
  aborting : Bool
  pausing : Bool
  reverseRun : Bool
  motionType : Int
  tolerance : K
  synchronized : SpindleSync
  uuPerRev : K
  status : TpStatus K

/-! ### Setting up the planner -/

def tpClear (tp : Tp K) : Tp K :=
  { tp with
    queue := tcqInit tp.queue, goalPos := tp.currentPos, nextId := 0, execId := 0, motionType := 0, done := true
    depth := 0, activeDepth := 0, aborting := false, pausing := false, reverseRun := false, synchronized := .none
    uuPerRev := 0
    status := { tp.status with currentVel := 0, requestedVel := 0, distanceToGo := 0 } }

/-- `tpInit`: the spindle record, with its wait ids, is left as it is. -/
def tpInit (tp : Tp K) : Tp K :=
  tpClear { tp with
    cycleTime := 0, vLimit := 0, reverseRun := false, termCond := .tangent, tolerance := 0
    currentPos := emcPoseZero }

def tpSetCycleTime (tp : Tp K) (secs : K) : Tp K := if secs ≤ 0 then tp else { tp with cycleTime := secs }

def tpSetVlimit (tp : Tp K) (vLimit : K) : Tp K := { tp with vLimit := if vLimit < 0 then 0 else vLimit }

def tpSetId (tp : Tp K) (id : Int) : Tp K := if id = motionInvalidId then tp else { tp with nextId := id }

/-- The current and the goal position; an invalid pose is refused. -/
def tpSetPos (tp : Tp K) (pos : EmcPose K) : Tp K :=
  if emcPoseValid pos then { tp with currentPos := pos, goalPos := pos } else tp

def tpAddCurrentPos (tp : Tp K) (disp : EmcPose K) : Tp K :=
  if emcPoseValid disp then { tp with currentPos := emcPoseAdd tp.currentPos disp } else tp

def tpSetSpindleSync (tp : Tp K) (spindle : Int) (sync : K) (velocityMode : Bool) : Tp K :=
  if sync == 0 then { tp with synchronized := .none }
  else { tp with
    synchronized := if velocityMode then .velocity else .position, uuPerRev := sync
    spindle := { tp.spindle with spindleNum := spindle } }

def tpPause (tp : Tp K) : Tp K := { tp with pausing := true }

def tpResume (tp : Tp K) : Tp K := { tp with pausing := false }

def tpAbort (tp : Tp K) : Tp K := if tp.aborting then tp else { tpPause tp with aborting := true }

/-! ### Velocities -/

def tpGetFeedScale (env : TpEnv K) (tp : Tp K) (tc : Tc K) : K :=
  if tp.pausing && (tc.synchronized == .none || tc.synchronized == .velocity) then 0
  else if tp.aborting then 0
  else if tc.synchronized == .position then 1
  else if tc.isBlending then fmin env.netFeedScale 1 else env.netFeedScale

def tpGetMaxTargetVel (env : TpEnv K) (tp : Tp K) (tc : Tc K) : K :=
  let maxScale := if tc.isBlending then fmin env.maxAxisScale 1 else env.maxAxisScale
  let vMaxTarget := tcGetMaxTargetVel tc maxScale
  if !tcPureRotaryCheck tc && tc.synchronized != .position then fmin vMaxTarget tp.vLimit else vMaxTarget

/-- `tpGetRealTargetVel` of a segment that exists. -/
def tpGetRealTargetVel (env : TpEnv K) (tp : Tp K) (tc : Tc K) : K :=
  let vTarget := if tc.synchronized == .none then tc.reqvel else tc.targetVel
  fmin (vTarget * tpGetFeedScale env tp tc) (tpGetMaxTargetVel env tp tc)

def tpGetRealFinalVel (env : TpEnv K) (tp : Tp K) (tc : Tc K) (nexttc : Option (Tc K)) : K :=
  if env.stepping || tc.termCond != .tangent || tp.reverseRun then 0
  else
    let vTargetThis := tpGetRealTargetVel env tp tc
    let vTarget := match nexttc with
      | some next => fmin vTargetThis (tpGetRealTargetVel env tp next)
      | none => vTargetThis
    fmin tc.finalvel vTarget

/-- `findVPeak`. -/
def findVPeak (aTMax distance : K) : K := pmSqrt (aTMax * distance)

def tpCalculateTriangleVel (tc : Tc K) : K :=
  findVPeak (tcGetTangentialMaxAccel tc) (if tc.finalized then tc.target else tc.target / 2)

def tpCalculateOptimizationInitialVel (env : TpEnv K) (tp : Tp K) (tc : Tc K) : K :=
  fmin (findVPeak (tcGetTangentialMaxAccel tc) tc.target) (tpGetMaxTargetVel env tp tc)

/-! ### Appending a segment -/

/-- `tcSetupState`: what a new segment takes over from the planner. -/
def tcSetupState (tc : Tc K) (tp : Tp K) : Tc K :=
  { tc with
    termCond := tp.termCond, tolerance := tp.tolerance, synchronized := tp.synchronized, uuPerRev := tp.uuPerRev }

def handleModeChange (prevTc tc : Tc K) : Tc K × Tc K :=
  let (prevTc, tc) :=
    if (prevTc.canonMotionType == 1) != (tc.canonMotionType == 1) then tcSetTermCond prevTc tc .stop
    else (prevTc, tc)
  if prevTc.synchronized != .position && tc.synchronized == .position then tcSetTermCond prevTc tc .stop
  else (prevTc, tc)

/-- Append the segment under the next id, and make its end the new goal. -/
def tpAddSegmentToQueue (tp : Tp K) (tc : Tc K) (incId : Bool) : Tp K × TpErr :=
  let tc := { tc with id := tp.nextId }
  match tcqPut tp.queue tc with
  | none => (tp, .fail)
  | some queue =>
    ({ tp with
       queue := queue, nextId := if incId then Arith.i32 K (tp.nextId + 1) else tp.nextId
       goalPos := tcGetEndpoint tc tp.goalPos, done := false, depth := tcqLen queue }, .ok)

/-- `tpComputeOptimalVelocity`: `tc` and the segment before it. -/
def tpComputeOptimalVelocity (tp : Tp K) (tc prevTc : Tc K) : Tc K × Tc K :=
  let vsBack := pmSqrt (pmSq tc.finalvel + 2 * tcGetTangentialMaxAccel tc * tc.target)
  let vfLimitPrev := if 0 ≤ prevTc.kinkVel ∧ prevTc.termCond = .tangent then fmin prevTc.maxvel prevTc.kinkVel
    else prevTc.maxvel
  let vfLimit := fmin tc.maxvel vfLimitPrev
  -- a segment is to last for a number of cycles at least
  let sampleMaxvel := tc.target / (tp.cycleTime * tpMinSegmentCycles)
  let tc' := { tc with maxvel := fmin tc.maxvel sampleMaxvel }
  if vfLimit ≤ vsBack then (tc', { prevTc with finalvel := vfLimit, optimizationAtMax := true })
  else (tc', { prevTc with finalvel := vsBack })

/-- The final velocities of two consecutive segments: the worst case while `tc` may still be cut short. -/
def tpOptimizePair (env : TpEnv K) (tp : Tp K) (tc prevTc : Tc K) : Tc K × Tc K :=
  let tc := if tc.atspeed then { tc with finalvel := 0 } else tc
  if tc.finalized then tpComputeOptimalVelocity tp tc prevTc
  else
    let vf := fmin prevTc.maxvel (tpCalculateOptimizationInitialVel env tp tc)
    let vf := if 0 ≤ prevTc.kinkVel ∧ prevTc.termCond = .tangent then fmin vf prevTc.kinkVel else vf
    ({ tc with finalvel := 0 }, { prevTc with finalvel := vf })

/-- The loop of `tpRunOptimization` from its counter `x`, for at most `n` more turns. -/
def tpOptimizeFrom (env : TpEnv K) (tp : Tp K) : Nat → Int → Int → Bool → Tp K
  | 0, _, _, _ => tp
  | n + 1, x, hitPeaks, hitNonTangent =>
    let ind := tcqLen tp.queue - x
    match tcqItem tp.queue ind, tcqItem tp.queue (ind - 1) with
    | some tc, some prevTc =>
      if prevTc.termCond ≠ .tangent then
        -- one junction that is not tangent is passed over, the second ends the pass
        if hitNonTangent then tp else tpOptimizeFrom env tp n (x + 1) hitPeaks true
      -- a segment this far along, or that splits or blends already, keeps its final velocity
      else if blendDistFraction / 2 ≤ prevTc.progress / prevTc.target then tp
      else if prevTc.splitting || prevTc.blendingNext then tp
      else
        let (tc', prevTc') := tpOptimizePair env tp tc prevTc
        let tc' := { tc' with activeDepth := x - 2 - hitPeaks }
        let tp' := { tp with queue := (tp.queue.setItem ind tc').setItem (ind - 1) prevTc' }
        let hitPeaks' := if tc'.optimizationAtMax then hitPeaks + 1 else hitPeaks
        if tpOptimizationCutoff < hitPeaks' then tp' else tpOptimizeFrom env tp' n (x + 1) hitPeaks' hitNonTangent
    | _, _ => tp

/-- "Rising tide" pass over the queue, from its back to its front. -/
def tpRunOptimization (env : TpEnv K) (tp : Tp K) : Tp K :=
  tpOptimizeFrom env tp (env.arcBlendOptDepth + 1).toNat 1 0 false

/-- What a new segment does to the last queued one, and the other way round. -/
def tpJoinLast (tp : Tp K) (tc : Tc K) : Tp K × Tc K :=
  match tcqLast tp.queue with
  | none => (tp, tc)
  | some prevTc =>
    let (prevTc, tc) := handleModeChange prevTc tc
    let (prevTc, tc) := tcFlagEarlyStop (tcFinalizeLength prevTc) tc
    ({ tp with queue := tp.queue.setLast prevTc }, tc)

/-- The common end of `tpAddLine` and `tpAddCircle`. -/
def tpQueueSegment (env : TpEnv K) (tp : Tp K) (tc : Tc K) : Tp K × TpErr :=
  let (tp, tc) := tpJoinLast tp tc
  let (tp, retval) := tpAddSegmentToQueue tp tc true
  (tpRunOptimization env tp, retval)

/-- The segment `tpAddLine` builds from the goal of the planner to `stop`. -/
def tpLineSegment (tp : Tp K) (stop : EmcPose K) (canonMotionType : Int) (vel iniMaxvel acc : K) (enables : UInt8)
    (atspeed : Bool) : Tc K :=
  let line := pmLine9Init tp.goalPos stop
  let tc := tcInit (.line line) canonMotionType tp.cycleTime enables atspeed
  let tc := tcSetupMotion (tcSetupState tc tp) vel iniMaxvel acc
  { tc with target := pmLine9Target line }

def tpAddLine (env : TpEnv K) (tp : Tp K) (stop : EmcPose K) (canonMotionType : Int) (vel iniMaxvel acc : K)
    (enables : UInt8) (atspeed : Bool) (indexerJnum : Int) : Tp K × TpErr :=
  if tp.aborting then (tp, .fail)
  else
    let tc := tpLineSegment tp stop canonMotionType vel iniMaxvel acc enables atspeed
    if tc.target < tpPosEpsilon then (tp, .zeroLength)
    else
      let tc := tcClampVelocityByLength { tc with nominalLength := tc.target }
      tpQueueSegment env tp { tc with indexerJnum := indexerJnum }

def tpAddCircle (env : TpEnv K) (tp : Tp K) (stop : EmcPose K) (center normal : PmCartesian K) (turn : Int)
    (canonMotionType : Int) (vel iniMaxvel acc : K) (enables : UInt8) (atspeed : Bool) : Tp K × TpErr :=
  if tp.aborting then (tp, .fail)
  else
    match pmCircle9Init tp.goalPos stop center normal turn with
    | none => (tp, .fail)
    | some circle =>
      let tc := tcSetupState (tcInit (.circle circle) canonMotionType tp.cycleTime enables atspeed) tp
      let target := pmCircle9Target circle
      if target < tpPosEpsilon then (tp, .zeroLength)
      else
        let tc := tcSetupMotion { tc with target := target, nominalLength := target } vel iniMaxvel acc
        tpQueueSegment env tp (tcClampVelocityByLength tc)

/-! ### One segment for one cycle -/

def tcUpdateDistFromAccel (tc : Tc K) (acc velDesired : K) (reverse : Bool) : Tc K :=
  let vNext := tc.currentvel + acc * tc.cycleTime
  let (tc, vNext) :=
    if vNext < 0 then
      -- close enough to cruise to the endpoint within a cycle: assume that is where we want to be
      if tcGetDistanceToGo tc reverse < tc.currentvel * tc.cycleTime then
        ({ tc with progress := tcGetTarget tc reverse }, (0 : K))
      else (tc, 0)
    else
      let displacement := (vNext + tc.currentvel) * 0.5 * tc.cycleTime
      let progress := tc.progress + (if reverse then (-1 : K) else 1) * displacement
      ({ tc with progress := bisaturate progress (tcGetTarget tc false) (tcGetTarget tc true) }, vNext)
  { tc with
    currentvel := vNext
    onFinalDecel := decide (fabs (velDesired - vNext) < tpVelEpsilon) && decide (acc < 0) }

/-- The acceleration and the desired velocity of a trapezoidal profile. -/
def tpCalculateTrapezoidalAccel (env : TpEnv K) (tp : Tp K) (tc : Tc K) (nexttc : Option (Tc K)) : K × K :=
  let dx := tcGetDistanceToGo tc tp.reverseRun
  let maxaccel := tcGetTangentialMaxAccel tc
  let discrTerm1 := pmSq (tpGetRealFinalVel env tp tc nexttc)
  let discrTerm2 := maxaccel * (2 * dx - tc.currentvel * tc.cycleTime)
  let tmpAdt := maxaccel * tc.cycleTime * 0.5
  let discrTerm3 := pmSq tmpAdt
  let discr := discrTerm1 + discrTerm2 + discrTerm3
  -- with too little way left the velocity can only fall
  let maxnewvel := if discrTerm3 < discr then -tmpAdt + pmSqrt discr else -tmpAdt
  let newvel := saturate maxnewvel (tpGetRealTargetVel env tp tc)
  let dt := fmax tc.cycleTime tpTimeEpsilon
  (saturate ((newvel - tc.currentvel) / dt) maxaccel, maxnewvel)

/-- The constant acceleration that reaches the final velocity at the end; none when that velocity is too low. -/
def tpCalculateRampAccel (env : TpEnv K) (tp : Tp K) (tc : Tc K) (nexttc : Option (Tc K)) : Option (K × K) :=
  let dx := tcGetDistanceToGo tc tp.reverseRun
  let velFinal := tpGetRealFinalVel env tp tc nexttc
  if velFinal < tpVelEpsilon then none
  else
    let velAvg := (tc.currentvel + velFinal) / 2
    let dt := if tpVelEpsilon < velAvg then fmax (dx / velAvg) 1e-16 else 1e-16
    let accFinal := (velFinal - tc.currentvel) / dt
    some (saturate accFinal (tcGetTangentialMaxAccel tc), velFinal)

/-- `tcSetSplitCycle`: a segment already splitting is not split again at a later time. -/
def tcSetSplitCycle (tc : Tc K) (splitTime vf : K) : Tc K :=
  if tc.splitting && decide (0 < splitTime) then tc
  else { tc with splitting := true, cycleTime := splitTime, termVel := vf }

/-- The time to the end of the segment and the velocity there, under the acceleration limit; none if the end is out of
reach. -/
def tpSplitTime (tc : Tc K) (dx vf dt : K) : Option (K × K) :=
  let (a, recalc) := satInplace ((vf - tc.currentvel) / dt) (tcGetTangentialMaxAccel tc)
  if recalc then
    -- at the limit of the acceleration, the time follows from the way that is left
    let disc := pmSq (tc.currentvel / a) + 2 / a * dx
    if disc < 0 then none
    else
      let dt := if disc < tpTimeEpsilon * tpTimeEpsilon then -tc.currentvel / a
        else if 0 < a then -tc.currentvel / a + pmSqrt disc else -tc.currentvel / a - pmSqrt disc
      some (dt, tc.currentvel + dt * a)
  else some (dt, vf)

def tpCheckEndCondition (env : TpEnv K) (tp : Tp K) (tc : Tc K) (nexttc : Option (Tc K)) : Tc K :=
  let tc := { tc with cycleTime := tp.cycleTime }
  let dx := tcGetDistanceToGo tc tp.reverseRun
  let stops := tc.termCond == .stop || tc.termCond == .exact
  if dx ≤ tpPosEpsilon then
    -- force progress to land exactly on the target
    let tc := { tc with progress := tcGetTarget tc tp.reverseRun }
    let tc := if tp.reverseRun then tc else tcSetSplitCycle tc 0 tc.currentvel
    if stops || tp.reverseRun then { tc with remove := true } else tc
  else if tp.reverseRun || stops then tc
  else
    let vf := tpGetRealFinalVel env tp tc nexttc
    let vAvg := (tc.currentvel + vf) / 2
    let dt : K := tpTimeEpsilon / 2
    if !decide (tpVelEpsilon < vAvg) && (decide (vAvg * tp.cycleTime < dx) && decide (tpPosEpsilon < dx)) then tc
    else
      match tpSplitTime tc dx vf (if tpVelEpsilon < vAvg then fmax dt (dx / vAvg) else dt) with
      | none => tc
      | some (dt, vf) =>
        if dt < tpTimeEpsilon then
          tcSetSplitCycle { tc with progress := tcGetTarget tc tp.reverseRun } 0 vf
        else if dt < tp.cycleTime then tcSetSplitCycle tc dt vf else tc

/-- The acceleration of the cycle: a ramp where the segment asks for one and it is feasible. -/
def tpCycleAccel (env : TpEnv K) (tp : Tp K) (tc : Tc K) (nexttc : Option (Tc K)) : K × K :=
  if tc.accelRamp && tc.termCond == .tangent then
    (tpCalculateRampAccel env tp tc nexttc).getD (tpCalculateTrapezoidalAccel env tp tc nexttc)
  else tpCalculateTrapezoidalAccel env tp tc nexttc

/-- The segment after one cycle. -/
def tpAdvance (env : TpEnv K) (tp : Tp K) (tc : Tc K) (nexttc : Option (Tc K)) : Tc K :=
  let tc := if tc.blendingNext then tc else { tc with velAtBlendStart := tc.currentvel }
  let (acc, velDesired) := tpCycleAccel env tp tc nexttc
  tpCheckEndCondition env tp (tcUpdateDistFromAccel tc acc velDesired tp.reverseRun) nexttc

def tpUpdateCycle (env : TpEnv K) (tp : Tp K) (tc : Tc K) (nexttc : Option (Tc K)) : Tp K × Tc K :=
  let tc' := tpAdvance env tp tc nexttc
  (tpAddCurrentPos tp (emcPoseSub (tcGetPos tc') (tcGetPos tc)), tc')

/-! ### Status -/

/-- `tpUpdateMovementStatus` of a segment. -/
def tpUpdateMovementStatus (tp : Tp K) (tc : Tc K) : Tp K :=
  -- an end point that cannot be computed leaves the local pose as it was, zero here
  let dtg := emcPoseSub (tcGetEndpoint tc emcPoseZero) tp.currentPos
  { tp with
    motionType := tc.canonMotionType, activeDepth := tc.activeDepth, execId := tc.id
    status := { tp.status with
      distanceToGo := tc.target - tc.progress, enablesQueued := tc.enables
      requestedVel := Arith.trunc tc.reqvel, currentVel := Arith.trunc tc.currentvel, dtg := dtg } }

/-- `tpUpdateMovementStatus` without a segment. -/
def tpClearMovementStatus (env : TpEnv K) (tp : Tp K) : Tp K :=
  { tp with
    motionType := 0, activeDepth := 0
    status := { tp.status with
      distanceToGo := 0, enablesQueued := env.enablesNew, requestedVel := 0, currentVel := 0, dtg := emcPoseZero } }

def tpUpdateInitialStatus (tp : Tp K) : Tp K :=
  { tp with status := { tp.status with tcqlen := tcqLen tp.queue, requestedVel := 0, currentVel := 0 } }

/-! ### Blending and splitting -/

/-- The blend velocities of two segments. -/
def tpComputeBlendVelocity (tc nexttc : Tc K) (targetVelThis targetVelNext : K) : K × K :=
  let accThis := tcGetTangentialMaxAccel tc
  let accNext := tcGetTangentialMaxAccel nexttc
  let vReachableThis := fmin (tpCalculateTriangleVel tc) targetVelThis
  let vReachableNext := fmin (tpCalculateTriangleVel nexttc) targetVelNext
  let tMaxReachable := fmin (tc.target / vReachableThis) (nexttc.target / vReachableNext)
  let tMaxBlend := fmax (vReachableThis / accThis) (vReachableNext / accNext)
  let tBlend := fmin tMaxReachable tMaxBlend
  let vBlendThis := fmin vReachableThis (tBlend * accThis)
  let vBlendNext := fmin vReachableNext (tBlend * accNext)
  let theta := findIntersectionAngle (tcGetEndAccelUnitVector tc) (tcGetStartAccelUnitVector nexttc)
  let cosTheta := Arith.cos theta
  -- the tolerance bounds how far the blend may cut the corner
  if 0 < tc.tolerance ∧ Arith.cos (Arith.pi / 2 - tpMinArcAngle) < cosTheta then
    let tblendVel := 2 * pmSqrt (accThis * tc.tolerance / cosTheta)
    (fmin vBlendThis tblendVel, fmin vBlendNext tblendVel)
  else (vBlendThis, vBlendNext)

/-- `tcIsBlending`: the latched `blending_next`. -/
def tcIsBlending (tc : Tc K) : Tc K :=
  { tc with blendingNext := tc.blendingNext ||
      (tc.termCond == .parabolic && tc.onFinalDecel && decide (tc.currentvel < tc.blendVel)) }

def tpUpdateBlend (env : TpEnv K) (tp : Tp K) (tc nexttc : Tc K) : Tp K × Tc K :=
  let saveVel := nexttc.targetVel
  let nexttc :=
    if tpVelEpsilon < tpGetFeedScale env tp nexttc then
      let dv := tc.velAtBlendStart - tc.currentvel
      let velStart := fmax tc.velAtBlendStart tpVelEpsilon
      let blendProgress := fmax (fmin (dv / velStart) 1) 0
      let blendScale := tc.velAtBlendStart / tc.blendVel
      { nexttc with targetVel := blendProgress * nexttc.blendVel * blendScale, isBlending := true }
    else { nexttc with targetVel := 0 }
  -- the target velocity is that of the blend for this one cycle
  let (tp, nexttc) := tpUpdateCycle env tp nexttc none
  (tp, { nexttc with targetVel := saveVel })

def tpDoParabolicBlending (env : TpEnv K) (tp : Tp K) (tc nexttc : Tc K) : Tp K × Tc K :=
  let (tp, nexttc) := tpUpdateBlend env tp tc nexttc
  let tp := if nexttc.currentvel < tc.currentvel then tpUpdateMovementStatus tp tc
    else tpUpdateMovementStatus tp nexttc
  ({ tp with status := { tp.status with currentVel := Arith.trunc (tc.currentvel + nexttc.currentvel) } }, nexttc)

/-- A cycle that ends inside the head segment. -/
def tpHandleRegularCycle (env : TpEnv K) (tp : Tp K) (tc : Tc K) (nexttc : Option (Tc K)) :
    Tp K × Tc K × Option (Tc K) :=
  if tc.remove then (tp, tc, nexttc)
  else
    let (tp, tc) := tpUpdateCycle env tp { tc with cycleTime := tp.cycleTime } nexttc
    match nexttc with
    | none => (tpUpdateMovementStatus tp { tc with blendVel := 0 }, { tc with blendVel := 0 }, none)
    | some next =>
      let (vThis, vNext) := tpComputeBlendVelocity tc next (tpGetRealTargetVel env tp tc)
        (tpGetRealTargetVel env tp next)
      let tc := tcIsBlending { tc with blendVel := vThis }
      let next := { next with blendVel := vNext }
      if tc.blendingNext then
        let (tp, next) := tpDoParabolicBlending env tp tc next
        (tp, tc, some next)
      else (tpUpdateMovementStatus tp tc, tc, some next)

/-- A cycle in which the head segment ends: the rest of it is spent in the next one. -/
def tpHandleSplitCycle (env : TpEnv K) (tp : Tp K) (tc : Tc K) (nexttc : Option (Tc K)) :
    Tp K × Tc K × Option (Tc K) :=
  if tc.remove then (tp, tc, nexttc)
  else
    let tc' := { tc with progress := tcGetTarget tc tp.reverseRun }
    let tp := tpAddCurrentPos tp (emcPoseSub (tcGetPos tc') (tcGetPos tc))
    let tc := { tc' with remove := true }
    match nexttc with
    | none => (tp, tc, none)
    | some next =>
      -- the rest of the cycle goes to the next segment, from the velocity this one ended with
      let next := if tc.termCond = .tangent then
          { next with cycleTime := tp.cycleTime - tc.cycleTime, currentvel := tc.termVel } else next
      let (tp, next) := tpUpdateCycle env tp next (tcqItem tp.queue (if tp.reverseRun then -2 else 2))
      if next.cycleTime < tc.cycleTime ∧ tc.termCond = .tangent then
        (tpUpdateMovementStatus tp tc, tc, some next)
      else (tpUpdateMovementStatus tp next, tc, some next)

/-! ### The cycle -/

def tpHandleEmptyQueue (env : TpEnv K) (tp : Tp K) : Tp K :=
  tpResume (tpClearMovementStatus env { tp with
    queue := tcqInit tp.queue, goalPos := tp.currentPos, done := true, depth := 0, activeDepth := 0
    aborting := false, execId := 0, motionType := 0 })

/-- The planner after an abort has come to rest. -/
def tpResetAborted (tp : Tp K) : Tp K :=
  tpResume { tp with
    queue := tcqInit tp.queue, goalPos := tp.currentPos, done := true, depth := 0, activeDepth := 0
    aborting := false, execId := 0, motionType := 0, synchronized := .none, reverseRun := false }

/-- The condition under which `tpHandleAbort` returns `TP_ERR_STOPPED`. -/
def tpAbortStopped (tp : Tp K) (tc : Tc K) (nexttc : Option (Tc K)) : Bool :=
  tp.aborting && tc.currentvel == 0 && (match nexttc with | none => true | some next => next.currentvel == 0)

/-- The segment made active; none if it is synchronized and the planner runs in reverse. -/
def tpActivateSegment (env : TpEnv K) (tp : Tp K) (tc : Tc K) : Option (Tp K × Tc K) :=
  if tc.active then some (tp, tc)
  else if tp.reverseRun && tc.synchronized != .none then none
  else
    let cutoffTime := 1 / fmax env.arcBlendRampFreq tpTimeEpsilon
    let length := tcGetDistanceToGo tc tp.reverseRun
    let speed := tc.currentvel + fmin tc.finalvel (tpGetRealTargetVel env tp tc)
    -- a segment without speed takes forever
    let short := !(speed == 0) && decide (2 * length / speed < cutoffTime)
    let ramp := short && tc.canonMotionType != 1 && tc.termCond == .tangent && !(length == 0)
    some ({ tp with motionType := tc.canonMotionType },
      { tc with accelRamp := ramp || tc.accelRamp, active := true, blendingNext := false, onFinalDecel := false })

def tpSyncVelocityMode (tc : Tc K) (nexttc : Option (Tc K)) : Option (Tc K) :=
  nexttc.map fun next => if next.synchronized != .none then { next with targetVel := tc.targetVel } else next

/-- The requested velocity that tracks the spindle position. -/
def tpSyncPositionMode (tp : Tp K) (tc : Tc K) (nexttc : Option (Tc K)) : Tp K × Tc K × Option (Tc K) :=
  let oldrevs := tp.spindle.revs
  let posDesired := (tp.spindle.revs - tp.spindle.offset) * tc.uuPerRev
  let posError := posDesired - tc.progress
  let posError := match nexttc with | some next => posError - next.progress | none => posError
  let (tp, tc) :=
    if tc.syncAccel ≠ 0 then
      let dt := fmax tp.cycleTime tpTimeEpsilon
      let targetVel := tp.spindle.revs / (dt * (tc.syncAccel : K)) * tc.uuPerRev
      if targetVel ≤ tc.currentvel then
        ({ tp with spindle := { tp.spindle with offset := tp.spindle.revs - tc.progress / tc.uuPerRev } },
          { tc with syncAccel := 0, targetVel := targetVel })
      else (tp, { tc with syncAccel := Arith.i32 K (tc.syncAccel + 1), targetVel := tc.maxvel })
    else
      -- no statement between updates the revolutions, so the difference is zero
      let targetVel := (tp.spindle.revs - oldrevs) / tp.cycleTime * tc.uuPerRev
      let errorvel := pmSqrt (fabs posError * tcGetTangentialMaxAccel tc)
      (tp, { tc with targetVel := targetVel + (if posError < 0 then errorvel * (-1) else errorvel) })
  let tc := if tc.targetVel < 0 then { tc with targetVel := 0 } else tc
  (tp, tc, tpSyncVelocityMode tc nexttc)

/-- Remove a finished segment from the queue, unless it still waits for the spindle or for a lock. -/
def tpCompleteSegment (env : TpEnv K) (tp : Tp K) (tc : Tc K) : Tp K :=
  if tp.spindle.waitingForAtspeed = tc.id then tp
  else
    let offset := if tc.synchronized != .none then tp.spindle.offset + tc.target / tc.uuPerRev else 0
    let tp := { tp with spindle := { tp.spindle with offset := offset } }
    if tc.indexerJnum ≠ -1 ∧ env.isUnlocked tc.indexerJnum then tp
    else
      let tc := { tc with
        active := false, remove := false, isBlending := false, splitting := false, cycleTime := tp.cycleTime
        currentvel := 0, termVel := 0 }
      let queue := tp.queue.setItem 0 tc
      let popped := if tp.reverseRun then tcqBackStep queue else tcqPop queue
      { tp with queue := popped.getD queue }

/-- The segments of a cycle written back into the queue. -/
def tpStoreSegments (tp : Tp K) (tc : Tc K) (nexttc : Option (Tc K)) : Tp K :=
  let queue := tp.queue.setItem 0 tc
  { tp with queue := match nexttc with
      | none => queue
      | some next => queue.setItem (if tp.reverseRun then -1 else 1) next }

/-- The spindle synchronization of a cycle. -/
def tpSync (tp : Tp K) (tc : Tc K) (nexttc : Option (Tc K)) : Tp K × Tc K × Option (Tc K) :=
  match tc.synchronized with
  | .none => (tp, tc, nexttc)
  | .velocity => (tp, tc, tpSyncVelocityMode tc nexttc)
  | .position => tpSyncPositionMode tp tc nexttc

/-- `tpRunCycle` up to its test of `tc->remove`: the planner, and the head segment if the call gets that far. -/
def tpRunSegment (env : TpEnv K) (tp : Tp K) : Tp K × Option (Tc K) :=
  let head := tcqItem tp.queue 0
  let nexttc := tcqItem tp.queue (if tp.reverseRun then -1 else 1)
  let tp := tpUpdateInitialStatus tp
  match head with
  | none => (tpHandleEmptyQueue env tp, none)
  | some tc =>
    -- an abort that has come to rest empties the queue in place of a cycle
    if tpAbortStopped tp tc nexttc then (tpResetAborted tp, none)
    else
      match tpActivateSegment env tp tc with
      | none => (tp, none)
      | some (tp, tc) =>
        let (tp, tc, nexttc) := tpSync tp tc nexttc
        let tc := tcClearFlags tc
        let nexttc := nexttc.map tcClearFlags
        let (tp, tc, nexttc) :=
          if tc.splitting then tpHandleSplitCycle env tp tc nexttc else tpHandleRegularCycle env tp tc nexttc
        (tpStoreSegments tp tc nexttc, some tc)

/-- One planning cycle. -/
def tpRunCycle (env : TpEnv K) (tp : Tp K) : Tp K :=
  match tpRunSegment env tp with
  | (tp, none) => tp
  | (tp, some tc) => if tc.remove then tpCompleteSegment env tp tc else tp

def tpIsDone (tp : Tp K) : Bool := tp.done

end SoemMotion
