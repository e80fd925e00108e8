import SoemMotion.Tp

/-!
# Blend arcs

The core of the arc blending of `blendmath.c` and `spherical_arc.c`: the parameters of an arc that rounds the corner
between two lines, its three points, and the interpolation along it.  The planner of this program never queues such an
arc, so `Tp` does without this module.
-/

namespace SoemMotion

variable {K : Type} [Arith K]

/-! ### Spherical arcs -/

/-- `ARC_MIN_RADIUS`. -/
def arcMinRadius : K := 1e-12

/-- `ARC_MIN_ANGLE`. -/
def arcMinAngle : K := 1e-6

structure SphericalArc (K : Type) where
  start : PmCartesian K
  «end» : PmCartesian K
  center : PmCartesian K
  rStart : PmCartesian K
  rEnd : PmCartesian K
  uTan : PmCartesian K
  radius : K
  spiral : K
  angle : K
  sangle : K
  lineLength : K

/-- The tangent and the length of a consumed line stay as they are. -/
def arcInitFromPoints (arc : SphericalArc K) (start stop center : PmCartesian K) : SphericalArc K × TpErr :=
  let rStart := pmCartCartSub start center
  let rEnd := pmCartCartSub stop center
  let arc := { arc with start := start, «end» := stop, center := center, rStart := rStart, rEnd := rEnd }
  let radius0 := pmCartMag rStart
  let radius1 := pmCartMag rEnd
  if radius0 < arcMinRadius ∨ radius1 < arcMinRadius then (arc, .radiusTooSmall)
  else
    let u0 := pmCartScalMult rStart (1 / radius0)
    let u1 := pmCartScalMult rEnd (1 / radius1)
    -- the angle between the two radii, never more than half a turn
    let angle := Arith.acos (pmCartCartDot u0 u1)
    let arc := { arc with radius := radius0, angle := angle, spiral := radius1 - radius0 }
    if angle < arcMinAngle then (arc, .geom) else ({ arc with sangle := Arith.sin angle }, .ok)

def arcPoint (arc : SphericalArc K) (progress : K) : PmCartesian K :=
  let netProgress := progress - arc.lineLength
  if netProgress ≤ 0 ∧ 0 < arc.lineLength then pmCartCartAdd (pmCartScalMult arc.uTan netProgress) arc.start
  else
    let angleIn := netProgress / arc.radius
    let scale0 := Arith.sin (arc.angle - angleIn) / arc.sangle
    let scale1 := Arith.sin angleIn / arc.sangle
    pmCartCartAdd arc.center (pmCartCartAdd (pmCartScalMult arc.rStart scale0) (pmCartScalMult arc.rEnd scale1))

def arcLength (arc : SphericalArc K) : K := arc.radius * arc.angle + arc.lineLength

/-! ### The corner -/

structure BlendGeom3 (K : Type) where
  u1 : PmCartesian K
  u2 : PmCartesian K
  P : PmCartesian K
  normal : PmCartesian K
  binormal : PmCartesian K
  uTan1 : PmCartesian K
  uTan2 : PmCartesian K

def blendCalculateNormals3 (geom : BlendGeom3 K) : BlendGeom3 K :=
  { geom with
    binormal := pmCartUnit (pmCartCartCross geom.uTan1 geom.uTan2)
    normal := pmCartUnit (pmCartCartSub geom.uTan2 geom.uTan1) }

/-- The diameter of the circle inscribed on a central section of a box: none for a normal that is not a unit vector. -/
def calculateInscribedDiameter (normal bounds : PmCartesian K) : Option K :=
  let magErr := fabs (1 - pmCartMagSq normal)
  if pmSqrt tpPosEpsilon < magErr then none
  else
    let planarX := pmCartScalMult normal (-normal.x)
    let planarY := pmCartScalMult normal (-normal.y)
    let planarZ := pmCartScalMult normal (-normal.z)
    let planarX := pmCartAbs { planarX with x := planarX.x + 1 }
    let planarY := pmCartAbs { planarY with y := planarY.y + 1 }
    let planarZ := pmCartAbs { planarZ with z := planarZ.z + 1 }
    -- crude way to prevent a division by zero
    let xScale := pmCartMag { planarX with x := fmax planarX.x tpPosEpsilon }
    let yScale := pmCartMag { planarY with y := fmax planarY.y tpPosEpsilon }
    let zScale := pmCartMag { planarZ with z := fmax planarZ.z tpPosEpsilon }
    let xExtent := if bounds.x != 0 then bounds.x / xScale else 0
    let yExtent := if bounds.y != 0 then bounds.y / yScale else 0
    let zExtent := if bounds.z != 0 then bounds.z / zScale else 0
    let diameter := fmax (fmax xExtent yExtent) zExtent
    let diameter := if bounds.x != 0 then fmin diameter xExtent else diameter
    let diameter := if bounds.y != 0 then fmin diameter yExtent else diameter
    some (if bounds.z != 0 then fmin diameter zExtent else diameter)

/-! ### The parameters of a blend -/

/-- `TP_MIN_ARC_LENGTH`. -/
def tpMinArcLength : K := 1e-6

structure BlendParameters (K : Type) where
  tolerance : K
  L1 : K
  L2 : K
  vReq : K
  aMax : K
  theta : K
  phi : K
  aNMax : K
  RPlan : K
  dPlan : K
  vGoal : K
  vPlan : K
  vActual : K
  sArc : K

def blendComputeParameters (param : BlendParameters K) : BlendParameters K × TpErr :=
  let hTol := param.tolerance / (1 - Arith.sin param.theta)
  let dTol := Arith.cos param.theta * hTol
  let dLengths := fmin param.L1 param.L2
  let dGeom := fmin dLengths dTol
  let RGeom := Arith.tan param.theta * dGeom
  let vNormal := pmSqrt (param.aNMax * RGeom)
  let vPlan := fmin vNormal param.vGoal
  -- the equivalent parabolic blend
  let aParabolic := param.aMax * 0.5
  let vTriangle := pmSqrt (2 * aParabolic * dGeom)
  let tBlend := fmin vTriangle vPlan / aParabolic
  let sBlend := tBlend * vPlan
  let RBlend := fmin (sBlend / param.phi) RGeom
  let RPlan := fmax (pmSq vPlan / param.aNMax) RBlend
  let sArc := RPlan * param.phi
  let param := { param with
    vPlan := vPlan
    RPlan := RPlan
    dPlan := RPlan / Arith.tan param.theta
    vActual := if param.vReq < vPlan then param.vReq else vPlan
    sArc := sArc }
  if RPlan < tpPosEpsilon then (param, .fail)
  else if sArc < tpMinArcLength then (param, .fail) else (param, .ok)

/-! ### The points of a blend -/

structure BlendPoints3 (K : Type) where
  arcStart : PmCartesian K
  arcEnd : PmCartesian K
  arcCenter : PmCartesian K
  trim1 : K
  trim2 : K

def blendFindPoints3 (geom : BlendGeom3 K) (param : BlendParameters K) : BlendPoints3 K :=
  let centerDist := param.RPlan / Arith.sin param.theta
  { arcCenter := pmCartCartAdd (pmCartScalMult geom.normal centerDist) geom.P
    arcStart := pmCartCartAdd (pmCartScalMult geom.u1 (-param.dPlan)) geom.P
    arcEnd := pmCartCartAdd (pmCartScalMult geom.u2 param.dPlan) geom.P
    trim1 := param.dPlan
    trim2 := param.dPlan }

end SoemMotion
