import SoemMotion.Arith

/-!
# The free planner

`simple_tp.c`: a velocity is requested that drives the position error to zero and still allows a stop without
overshoot, it is limited to `±vel`, and the current velocity is ramped towards it by at most one acceleration step
a period.  Positions and velocities are kept in `int32_t`, the request is a `double`.
-/

namespace SoemMotion

variable {K : Type} [Arith K]

structure SimpleTp where
  posCmd : Int
  maxVel : Int
  maxAcc : Int
  vel : Int
  acc : Int
  enable : Bool
  currPos : Int
  currVel : Int
  active : Bool
  dir : Int
deriving DecidableEq, Repr

/-- `max_dv`: the largest change of velocity in a period. -/
def SimpleTp.maxDv (K : Type) [Arith K] (tp : SimpleTp) (period : Int) : K :=
  ((Arith.i32 K (tp.acc * period) : Int) : K)

/-- `TINY_DP`: a tiny position range, to be treated as zero. -/
def tinyDp (K : Type) [Arith K] (maxAcc period : Int) : K :=
  ((Arith.i32 K (Arith.i32 K (maxAcc * period) * period) : Int) : K) * 0.001

/-- `vel_req` before it is limited, with the `enable`, `active` and `pos_cmd` it leaves. -/
def SimpleTp.request (K : Type) [Arith K] (tp : SimpleTp) (period : Int) : SimpleTp × K :=
  let maxDv : K := tp.maxDv K period
  let posErr : K := ((Arith.i32 K (tp.posCmd - tp.currPos) : Int) : K)
  if tp.enable then
    if tinyDp K tp.acc period < posErr then
      ({ tp with active := true },
        -maxDv + Arith.sqrt (((Arith.i32 K (2 * tp.acc) : Int) : K) * posErr + maxDv * maxDv))
    else if posErr < -tinyDp K tp.acc period then
      ({ tp with active := true },
        maxDv - Arith.sqrt (((Arith.i32 K (-2 * tp.acc) : Int) : K) * posErr + maxDv * maxDv))
    else ({ tp with active := false, enable := false }, 0)
  else
    -- set command to present position to avoid movement when next enabled
    ({ tp with active := false, posCmd := tp.currPos }, 0)

/-- The velocity request limited to `±vel`. -/
def limitVel (velReq : K) (vel : Int) : K :=
  if (vel : K) < velReq then (vel : K)
  else if velReq < ((Arith.i32 K (-vel) : Int) : K) then ((Arith.i32 K (-vel) : Int) : K) else velReq

/-- The current velocity ramped toward the request at the acceleration limit, as it is stored. -/
def rampVel (currVel : Int) (velReq maxDv : K) : Int :=
  if (currVel : K) + maxDv < velReq then Arith.trunc ((currVel : K) + maxDv)
  else if velReq < (currVel : K) - maxDv then Arith.trunc ((currVel : K) - maxDv) else Arith.trunc velReq

def simpleTpUpdate (K : Type) [Arith K] (tp : SimpleTp) (period : Int) : SimpleTp :=
  let (tp', velReq) := tp.request K period
  let currVel := rampVel tp.currVel (limitVel velReq tp.vel) (tp.maxDv K period)
  { tp' with
    currVel := currVel
    active := tp'.active || currVel != 0
    currPos := Arith.i32 K (tp.currPos + Arith.i32 K (currVel * period)) }

end SoemMotion
