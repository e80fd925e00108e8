import SoemMotion.Arith

/-!
# The cubic interpolator

`cubic.cpp`: a queue of four coarse points, the coefficients of the segment between its two middle points, and the
time reached inside that segment.  A point is taken only by a configured interpolator that asks for one, and
taking it is the only thing that clears the request.
-/

namespace SoemMotion

variable {K : Type} [Arith K]

structure CubicCoeff (K : Type) where
  a : K
  b : K
  c : K
  d : K

structure Cubic (K : Type) where
  /-- `SEGMENT_TIME_SET` of `configured`. -/
  segmentTimeSet : Bool
  /-- `INTERPOLATION_RATE_SET` of `configured`. -/
  interpolationRateSet : Bool
  segmentTime : K
  interpolationRate : Int
  interpolationTime : K
  interpolationIncrement : K
  x0 : K
  x1 : K
  x2 : K
  x3 : K
  wp0 : K
  wp1 : K
  velp0 : K
  velp1 : K
  filled : Bool
  needNextPoint : Bool
  coeff : CubicCoeff K

/-- `configured == ALL_SET`. -/
def Cubic.allSet (ci : Cubic K) : Bool := ci.segmentTimeSet && ci.interpolationRateSet

def cubicCoeff (x0 v0 xn vn deltaT : K) : CubicCoeff K :=
  let b := 3 * (xn - x0) / (deltaT * deltaT) - (2 * v0 + vn) / deltaT
  { a := (vn - v0) / (3 * (deltaT * deltaT)) - (2 * b) / (3 * deltaT), b := b, c := v0, d := x0 }

def interpolateCubic (coeff : CubicCoeff K) (t : K) : K :=
  coeff.a * (t * t * t) + coeff.b * (t * t) + coeff.c * t + coeff.d

def interpolateVel (coeff : CubicCoeff K) (t : K) : K :=
  3 * coeff.a * (t * t) + 2 * coeff.b * t + coeff.c

def interpolateAccel (coeff : CubicCoeff K) (t : K) : K := 6 * coeff.a * t + 2 * coeff.b

def wayPoint (xMinus1 x xPlus1 : K) : K := (xMinus1 + 4 * x + xPlus1) / 6

def velPoint (xMinus1 xPlus1 deltaT : K) : K :=
  if deltaT ≤ 0 then 0 else (xPlus1 - xMinus1) / (2 * deltaT)

def cubicDrain (ci : Cubic K) : Cubic K :=
  { ci with
    x0 := 0, x1 := 0, x2 := 0, x3 := 0, wp0 := 0, wp1 := 0, velp0 := 0, velp1 := 0
    filled := false, needNextPoint := true, coeff := ⟨0, 0, 0, 0⟩ }

/-- Nothing is left in the interpolator. -/
def Cubic.Drained (ci : Cubic K) : Prop := cubicDrain ci = ci

def cubicInit (ci : Cubic K) : Cubic K :=
  cubicDrain { ci with
    segmentTimeSet := false, interpolationRateSet := false
    segmentTime := 0, interpolationRate := 0, interpolationIncrement := 0 }

/-- Once both parameters are set, the increment is their quotient. -/
def Cubic.setIncrement (ci : Cubic K) : Cubic K :=
  if ci.allSet then { ci with interpolationIncrement := ci.segmentTime / (ci.interpolationRate : K) } else ci

def cubicSetSegmentTime (ci : Cubic K) (time : K) : Cubic K :=
  if time ≤ 0 then ci else Cubic.setIncrement { ci with segmentTime := time, segmentTimeSet := true }

def cubicSetInterpolationRate (ci : Cubic K) (rate : Int) : Cubic K :=
  if rate ≤ 0 then ci else Cubic.setIncrement { ci with interpolationRate := rate, interpolationRateSet := true }

/-- The four points after `point` has been added: the first one fills the whole queue. -/
def Cubic.shift (ci : Cubic K) (point : K) : Cubic K :=
  if ci.filled then { ci with x0 := ci.x1, x1 := ci.x2, x2 := ci.x3, x3 := point }
  else { ci with x0 := point, x1 := point, x2 := point, x3 := point, filled := true }

/-- The way points, their velocities and the coefficients between them, from the four points. -/
def Cubic.refit (ci : Cubic K) : Cubic K :=
  let wp0 := wayPoint ci.x0 ci.x1 ci.x2
  let wp1 := wayPoint ci.x1 ci.x2 ci.x3
  let velp0 := velPoint ci.x0 ci.x2 ci.segmentTime
  let velp1 := velPoint ci.x1 ci.x3 ci.segmentTime
  { ci with
    wp0 := wp0, wp1 := wp1, velp0 := velp0, velp1 := velp1
    coeff := cubicCoeff wp0 velp0 wp1 velp1 ci.segmentTime
    interpolationTime := 0, needNextPoint := false }

def cubicAddPoint (ci : Cubic K) (point : K) : Cubic K :=
  if ci.allSet && ci.needNextPoint then (ci.shift point).refit else ci

/-- What `cubicInterpolate` yields: the position, and the velocity and acceleration when they are computed. -/
structure CubicOut (K : Type) where
  pos : K
  vel : Option K
  acc : Option K

/-- An interpolator that is not configured answers `0.0` and leaves the other outputs unset. -/
def cubicInterpolate (ci : Cubic K) : Cubic K × CubicOut K :=
  if ci.allSet then
    -- queue ran out-- fill right with last point
    let ci := if ci.needNextPoint then cubicAddPoint ci ci.x3 else ci
    let t := ci.interpolationTime
    let t' := t + ci.interpolationIncrement
    let need := fabs (ci.segmentTime - t') < 0.5 * ci.interpolationIncrement
    ({ ci with interpolationTime := t', needNextPoint := if need then true else ci.needNextPoint },
      { pos := interpolateCubic ci.coeff t, vel := some (interpolateVel ci.coeff t),
        acc := some (interpolateAccel ci.coeff t) })
  else (ci, { pos := 0, vel := none, acc := none })

def cubicNeedNextPoint (ci : Cubic K) : Bool := ci.needNextPoint

/-! ### What the operations keep -/

@[simp] theorem cubicDrain_allSet (ci : Cubic K) : (cubicDrain ci).allSet = ci.allSet := rfl

@[simp] theorem cubicDrain_needNextPoint (ci : Cubic K) : (cubicDrain ci).needNextPoint = true := rfl

theorem cubicDrain_drained (ci : Cubic K) : (cubicDrain ci).Drained := rfl

@[simp] theorem cubicDrain_filled (ci : Cubic K) : (cubicDrain ci).filled = false := rfl

theorem cubicSetSegmentTime_allSet {ci : Cubic K} (time : K) (h : ci.allSet = true) :
    (cubicSetSegmentTime ci time).allSet = true := by
  unfold cubicSetSegmentTime Cubic.setIncrement
  simp only [Cubic.allSet, Bool.and_eq_true] at h ⊢
  split
  · exact h
  · split <;> simp [h.2]

theorem cubicSetInterpolationRate_allSet {ci : Cubic K} (rate : Int) (h : ci.allSet = true) :
    (cubicSetInterpolationRate ci rate).allSet = true := by
  unfold cubicSetInterpolationRate Cubic.setIncrement
  simp only [Cubic.allSet, Bool.and_eq_true] at h ⊢
  split
  · exact h
  · split <;> simp [h.1]

omit [Arith K] in
@[simp] theorem shift_allSet (ci : Cubic K) (point : K) : (ci.shift point).allSet = ci.allSet := by
  unfold Cubic.shift
  split <;> rfl

@[simp] theorem refit_allSet (ci : Cubic K) : ci.refit.allSet = ci.allSet := rfl

@[simp] theorem cubicAddPoint_allSet (ci : Cubic K) (point : K) :
    (cubicAddPoint ci point).allSet = ci.allSet := by
  unfold cubicAddPoint
  split
  · rw [refit_allSet, shift_allSet]
  · rfl

/-- Taking a point is all that clears the request for one. -/
theorem cubicAddPoint_needNextPoint (ci : Cubic K) (point : K) :
    (cubicAddPoint ci point).needNextPoint = (ci.needNextPoint && !ci.allSet) := by
  unfold cubicAddPoint
  cases ha : ci.allSet <;> cases hn : ci.needNextPoint <;> simp [Cubic.refit, hn]

@[simp] theorem cubicInterpolate_allSet (ci : Cubic K) : (cubicInterpolate ci).1.allSet = ci.allSet := by
  unfold cubicInterpolate
  split
  · show (if ci.needNextPoint then cubicAddPoint ci ci.x3 else ci).allSet = ci.allSet
    split
    · rw [cubicAddPoint_allSet]
    · rfl
  · rfl

theorem setIncrement_needNextPoint (ci : Cubic K) : ci.setIncrement.needNextPoint = ci.needNextPoint := by
  unfold Cubic.setIncrement
  split <;> rfl

theorem cubicSetSegmentTime_needNextPoint (ci : Cubic K) (time : K) :
    (cubicSetSegmentTime ci time).needNextPoint = ci.needNextPoint := by
  unfold cubicSetSegmentTime
  split
  · rfl
  · rw [setIncrement_needNextPoint]

theorem cubicSetInterpolationRate_needNextPoint (ci : Cubic K) (rate : Int) :
    (cubicSetInterpolationRate ci rate).needNextPoint = ci.needNextPoint := by
  unfold cubicSetInterpolationRate
  split
  · rfl
  · rw [setIncrement_needNextPoint]

end SoemMotion
