import SoemMotion.Arith

/-!
# Poses, lines and circles

The part of `_posemath.c` and `emcpos.c` the planner uses.  Return codes that the source can never return are left
out; output parameters are results.
-/

namespace SoemMotion

variable {K : Type} [Arith K]

/-! ### Vectors -/

structure PmCartesian (K : Type) where
  x : K
  y : K
  z : K

/-- `pmSq`. -/
def pmSq (x : K) : K := x * x

/-- `pmSqrt`: the square root, zero for an argument that is not positive. -/
def pmSqrt (x : K) : K := if 0 < x then Arith.sqrt x else 0

def pmCartCartAdd (v₁ v₂ : PmCartesian K) : PmCartesian K := ⟨v₁.x + v₂.x, v₁.y + v₂.y, v₁.z + v₂.z⟩

def pmCartCartSub (v₁ v₂ : PmCartesian K) : PmCartesian K := ⟨v₁.x - v₂.x, v₁.y - v₂.y, v₁.z - v₂.z⟩

def pmCartScalMult (v : PmCartesian K) (d : K) : PmCartesian K := ⟨v.x * d, v.y * d, v.z * d⟩

def pmCartCartDot (v₁ v₂ : PmCartesian K) : K := v₁.x * v₂.x + v₁.y * v₂.y + v₁.z * v₂.z

def pmCartCartCross (v₁ v₂ : PmCartesian K) : PmCartesian K :=
  ⟨v₁.y * v₂.z - v₁.z * v₂.y, v₁.z * v₂.x - v₁.x * v₂.z, v₁.x * v₂.y - v₁.y * v₂.x⟩

def pmCartMagSq (v : PmCartesian K) : K := pmSq v.x + pmSq v.y + pmSq v.z

def pmCartMag (v : PmCartesian K) : K := pmSqrt (pmSq v.x + pmSq v.y + pmSq v.z)

def pmCartCartDisp (v₁ v₂ : PmCartesian K) : K :=
  pmSqrt (pmSq (v₂.x - v₁.x) + pmSq (v₂.y - v₁.y) + pmSq (v₂.z - v₁.z))

def pmCartAbs (v : PmCartesian K) : PmCartesian K := ⟨fabs v.x, fabs v.y, fabs v.z⟩

def pmCartInfNorm (v : PmCartesian K) : K := fmax (fabs v.x) (fmax (fabs v.y) (fabs v.z))

/-- `pmCartUnit` and `pmCartUnitEq`: a vector of size zero is left as it is. -/
def pmCartUnit (v : PmCartesian K) : PmCartesian K :=
  let size := pmSqrt (pmSq v.x + pmSq v.y + pmSq v.z)
  if size == 0 then v else ⟨v.x / size, v.y / size, v.z / size⟩

def pmCartCartProj (v₁ v₂ : PmCartesian K) : PmCartesian K :=
  pmCartScalMult v₂ (pmCartCartDot v₁ v₂ / pmCartCartDot v₂ v₂)

def pmCartPlaneProj (v normal : PmCartesian K) : PmCartesian K := pmCartCartSub v (pmCartCartProj v normal)

/-! ### Lines -/

/-- `CART_FUZZ`. -/
def cartFuzz : K := 1.0e-8

structure PmCartLine (K : Type) where
  start : PmCartesian K
  «end» : PmCartesian K
  uVec : PmCartesian K
  tmag : K
  tmagZero : Bool

def pmCartLineInit (start stop : PmCartesian K) : PmCartLine K :=
  let d := pmCartCartSub stop start
  if fabs (pmCartInfNorm d) < cartFuzz then
    { start := start, «end» := stop, uVec := ⟨1, 0, 0⟩, tmag := pmCartMag d, tmagZero := true }
  else
    { start := start, «end» := stop, uVec := pmCartUnit d, tmag := pmCartMag d, tmagZero := false }

def pmCartLinePoint (line : PmCartLine K) (len : K) : PmCartesian K :=
  if line.tmagZero then line.end else pmCartCartAdd line.start (pmCartScalMult line.uVec len)

/-! ### Circles -/

structure PmCircle (K : Type) where
  center : PmCartesian K
  normal : PmCartesian K
  rTan : PmCartesian K
  rPerp : PmCartesian K
  rHelix : PmCartesian K
  radius : K
  angle : K
  spiral : K

/-- `DOUBLE_FUZZ`. -/
def doubleFuzz : K := 2.2204460492503131e-16

/-- `CIRCLE_FUZZ`. -/
def circleFuzz : K := 1.0e-6

/-- The angle swept from `rTan` to `rEnd`, before whole turns are added. -/
def pmCircleSweep (rTan rEnd normal : PmCartesian K) (radius : K) : K :=
  let dot := pmCartCartDot rTan rEnd / (radius * radius)
  let angle := if 1 < dot then 0 else if dot < -1 then Arith.pi else Arith.acos dot
  if pmCartCartDot (pmCartCartCross rTan rEnd) normal < cartFuzz then 2 * Arith.pi - angle else angle

def pmCircleInit (start stop center normal : PmCartesian K) (turn : Int) : PmCircle K :=
  let center' := pmCartCartAdd (pmCartCartProj (pmCartCartSub start center) normal) center
  -- a negative turn points the normal the other way: -1 -> 0, -2 -> 1, etc.
  let normal' := if turn < 0 then pmCartScalMult (pmCartUnit normal) (-1) else pmCartUnit normal
  let turn' := if turn < 0 then Arith.i32 K (-1 - turn) else turn
  let radius := pmCartCartDisp start center'
  let rTan := pmCartCartSub start center'
  let rPerp := pmCartCartCross normal' rTan
  let rFull := pmCartCartSub stop center'
  let rPlane := pmCartPlaneProj rFull normal'
  let spiral := pmCartMag rPlane - radius
  let rHelix := pmCartCartSub rFull rPlane
  let rScaled := pmCartScalMult (pmCartUnit rPlane) radius
  let rEnd := if pmCartMag rScaled == 0 then
      pmCartCartAdd rScaled (pmCartScalMult normal' doubleFuzz) else rScaled
  let swept := pmCircleSweep rTan rEnd normal' radius
  let planar := pmCartCartDisp (pmCartPlaneProj start normal) (pmCartPlaneProj stop normal)
  let single := if planar < cartFuzz then 2 * Arith.pi else swept
  let turned := if 0 < turn' then single + (turn' : K) * 2 * Arith.pi else single
  { center := center', normal := normal', rTan := rTan, rPerp := rPerp, rHelix := rHelix, radius := radius,
    angle := if turned == 0 then turned + circleFuzz / 2 else turned, spiral := spiral }

def pmCirclePoint (circle : PmCircle K) (angle : K) : PmCartesian K :=
  let radial := pmCartCartAdd (pmCartScalMult circle.rTan (Arith.cos angle))
    (pmCartScalMult circle.rPerp (Arith.sin angle))
  if circle.angle == 0 then radial else
    let scale := angle / circle.angle
    let spiralled := pmCartCartAdd radial (pmCartScalMult (pmCartUnit radial) (scale * circle.spiral))
    pmCartCartAdd circle.center (pmCartCartAdd spiralled (pmCartScalMult circle.rHelix scale))

/-! ### Poses -/

structure EmcPose (K : Type) where
  tran : PmCartesian K
  a : K
  b : K
  c : K
  u : K
  v : K
  w : K

/-- `ZERO_EMC_POSE`. -/
def emcPoseZero : EmcPose K := ⟨⟨0, 0, 0⟩, 0, 0, 0, 0, 0, 0⟩

def emcPoseValid (pose : EmcPose K) : Bool :=
  !(Arith.isnan pose.tran.x || Arith.isnan pose.tran.y || Arith.isnan pose.tran.z || Arith.isnan pose.a ||
    Arith.isnan pose.b || Arith.isnan pose.c || Arith.isnan pose.u || Arith.isnan pose.v || Arith.isnan pose.w)

def emcPoseAdd (p₁ p₂ : EmcPose K) : EmcPose K :=
  { tran := pmCartCartAdd p₁.tran p₂.tran, a := p₁.a + p₂.a, b := p₁.b + p₂.b, c := p₁.c + p₂.c,
    u := p₁.u + p₂.u, v := p₁.v + p₂.v, w := p₁.w + p₂.w }

def emcPoseSub (p₁ p₂ : EmcPose K) : EmcPose K :=
  { tran := pmCartCartSub p₁.tran p₂.tran, a := p₁.a - p₂.a, b := p₁.b - p₂.b, c := p₁.c - p₂.c,
    u := p₁.u - p₂.u, v := p₁.v - p₂.v, w := p₁.w - p₂.w }

def pmCartesianToEmcPose (xyz abc uvw : PmCartesian K) : EmcPose K :=
  { tran := xyz, a := abc.x, b := abc.y, c := abc.z, u := uvw.x, v := uvw.y, w := uvw.z }

/-- The rotary part of `emcPoseToPmCartesian`. -/
def emcPoseAbc (pose : EmcPose K) : PmCartesian K := ⟨pose.a, pose.b, pose.c⟩

/-- The auxiliary linear part of `emcPoseToPmCartesian`. -/
def emcPoseUvw (pose : EmcPose K) : PmCartesian K := ⟨pose.u, pose.v, pose.w⟩

end SoemMotion
