import SoemMotion.PoseMath
import SoemMotion.SimpleTp

/-!
# Teleop and external-offset planners

The part of `axis.c` that the command handler and the controller call: each coordinate has a planner for teleop
jogs, which they only ever stop, and one for an external offset that is added to the Cartesian command.
-/

namespace SoemMotion

variable {K : Type} [Arith K]

/-- An element of `axis_array`. -/
structure TeleopAxis where
  maxPosLimit : Int
  minPosLimit : Int
  teleopTp : SimpleTp
  kbAjogActive : Bool
  extOffsetTp : SimpleTp
deriving DecidableEq, Repr

def axisInitializeExternalOffset (axis : TeleopAxis) : TeleopAxis :=
  { axis with extOffsetTp := { axis.extOffsetTp with posCmd := 0, currPos := 0, currVel := 0 } }

def axisJogAbort (axis : TeleopAxis) (immediate : Bool) : TeleopAxis :=
  { axis with
    teleopTp := { axis.teleopTp with
      enable := false, currVel := if immediate then 0 else axis.teleopTp.currVel }
    kbAjogActive := false }

def axisJogAbortAll (axes : Fin 3 → TeleopAxis) (immediate : Bool) : Fin 3 → TeleopAxis :=
  fun n => axisJogAbort (axes n) immediate

def axisJogIsActive (axes : Fin 3 → TeleopAxis) : Bool :=
  (axes 0).kbAjogActive || (axes 1).kbAjogActive || (axes 2).kbAjogActive

/-- The coordinates `pcmd_p` points to. -/
def PmCartesian.get (p : PmCartesian K) : Fin 3 → K
  | 0 => p.x
  | 1 => p.y
  | 2 => p.z

/-- The translation with the given coordinates. -/
def PmCartesian.ofFn (f : Fin 3 → K) : PmCartesian K := ⟨f 0, f 1, f 2⟩

def axisApplyExtOffsetsToCartePos (axes : Fin 3 → TeleopAxis) (extfactor : Int) (pos : PmCartesian K) :
    PmCartesian K :=
  PmCartesian.ofFn fun n => pos.get n + ((Arith.i32 K (extfactor * (axes n).extOffsetTp.currPos) : Int) : K)

/-- One coordinate of `axis_update_coord_with_bound`, with the offset planner after it. -/
def axisUpdateCoordWithBound (axis : TeleopAxis) (pcmd : K) (servoPeriod : Int) : TeleopAxis × K :=
  let extOffsetTp := simpleTpUpdate K axis.extOffsetTp (Arith.trunc (servoPeriod : K))
  let axis' := { axis with extOffsetTp := extOffsetTp }
  let pcmd' := pcmd + ((Arith.i32 K (1 * extOffsetTp.currPos) : Int) : K)
  -- axis letters not in use have both limits zero, and without offset no violation is claimed
  if (axis.maxPosLimit = 0 ∧ axis.minPosLimit = 0) ∨ extOffsetTp.currPos = 0 then (axis', pcmd')
  else if (axis.maxPosLimit : K) ≤ pcmd' then
    ({ axis' with extOffsetTp := { extOffsetTp with
         currPos := Arith.trunc ((axis.maxPosLimit : K) - pcmd), currVel := 0
         posCmd := if axis.extOffsetTp.posCmd < extOffsetTp.posCmd then axis.extOffsetTp.posCmd
           else extOffsetTp.posCmd } },
      (axis.maxPosLimit : K))
  else if pcmd' ≤ (axis.minPosLimit : K) then
    ({ axis' with extOffsetTp := { extOffsetTp with
         currPos := Arith.trunc ((axis.minPosLimit : K) - pcmd), currVel := 0
         posCmd := if extOffsetTp.posCmd < axis.extOffsetTp.posCmd then axis.extOffsetTp.posCmd
           else extOffsetTp.posCmd } },
      (axis.minPosLimit : K))
  else (axis', pcmd')

end SoemMotion
