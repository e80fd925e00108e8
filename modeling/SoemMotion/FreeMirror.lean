import SoemMotion.AxisCycle
import SoemMotion.JogCompletion
import SoemMotion.JogContainment

/-!
# Two directions

Two machines of which some axes run in opposite directions and the others alike (`Machine.Reflects`).  The planner
treats both directions alike, so a cycle of free mode keeps them so, unless the following error of an axis lies between
the limit at rest and the limit for its speed (`Axis.ErrorBetween`): the second is computed from the signed velocity,
so it holds in one direction only.
-/

namespace SoemMotion

/-! ### Planners -/

/-- `n`, or its negative on an axis that is reflected. -/
def reflect (m : Bool) (n : Int) : Int := if m then -n else n

theorem reflect_sub (m : Bool) (a b : Int) : reflect m (a - b) = reflect m a - reflect m b := by
  unfold reflect
  cases m with
  | false => rfl
  | true =>
    show -(a - b) = -a - -b
    omega

theorem abs_reflect (m : Bool) (n : Int) : |reflect m n| = |n| := by
  unfold reflect
  cases m with
  | false => rfl
  | true => exact abs_neg n

@[simp] theorem reflect_zero (m : Bool) : reflect m 0 = 0 := by
  unfold reflect
  split <;> rfl

/-- The two planners stand, move and aim alike, or in opposite directions. -/
structure SimpleTp.Reflects (m : Bool) (p q : SimpleTp) : Prop where
  posCmd : q.posCmd = reflect m p.posCmd
  currPos : q.currPos = reflect m p.currPos
  currVel : q.currVel = reflect m p.currVel
  vel : q.vel = p.vel
  acc : q.acc = p.acc
  enable : q.enable = p.enable

section Planner

variable {m : Bool} {p q : SimpleTp}

/-- The fields that an update does not read. -/
theorem simpleTpUpdate_idle (tp : SimpleTp) (maxVel maxAcc dir : Int) (active : Bool) :
    simpleTpUpdate ℝ { tp with maxVel := maxVel, maxAcc := maxAcc, active := active, dir := dir } 1 =
      { simpleTpUpdate ℝ tp 1 with maxVel := maxVel, maxAcc := maxAcc, dir := dir } := by
  have hreq : ∃ active',
      ({ tp with maxVel := maxVel, maxAcc := maxAcc, active := active, dir := dir } : SimpleTp).request ℝ 1 =
        ({ (tp.request ℝ 1).1 with
            maxVel := maxVel, maxAcc := maxAcc, dir := dir, active := active' }, (tp.request ℝ 1).2) ∧
      active' = (tp.request ℝ 1).1.active := by
    rw [request_one, request_one]
    dsimp only
    split
    · split
      · exact ⟨_, rfl, rfl⟩
      · split <;> exact ⟨_, rfl, rfl⟩
    · exact ⟨_, rfl, rfl⟩
  obtain ⟨active', hreq, rfl⟩ := hreq
  unfold simpleTpUpdate
  rw [hreq]
  rfl

theorem SimpleTp.Reflects.eq (h : p.Reflects m q) : q = { (if m then p.mirror else p) with
    maxVel := q.maxVel, maxAcc := q.maxAcc, active := q.active, dir := q.dir } := by
  cases p
  cases q
  obtain ⟨hposCmd, hcurrPos, hcurrVel, hvel, hacc, henable⟩ := h
  unfold reflect at hposCmd hcurrPos hcurrVel
  dsimp only at *
  subst hposCmd hcurrPos hcurrVel hvel hacc henable
  cases m <;> rfl

/-- An update keeps the two directions opposite. -/
theorem SimpleTp.Reflects.update (h : p.Reflects m q) (hlimits : m = true → 0 ≤ p.acc ∧ 0 ≤ p.vel) (mp mq : Int) :
    (simpleTpUpdate ℝ { p with maxAcc := mp } 1).Reflects m (simpleTpUpdate ℝ { q with maxAcc := mq } 1) ∧
      (simpleTpUpdate ℝ { q with maxAcc := mq } 1).active = (simpleTpUpdate ℝ { p with maxAcc := mp } 1).active := by
  have hq : ({ q with maxAcc := mq } : SimpleTp) = { (if m then p.mirror else p) with
      maxVel := q.maxVel, maxAcc := mq, active := q.active, dir := q.dir } :=
    congrArg (fun t : SimpleTp => { t with maxAcc := mq }) h.eq
  rw [simpleTpUpdate_maxAcc, hq, simpleTpUpdate_idle (if m then p.mirror else p)]
  cases m with
  | false => exact ⟨⟨rfl, rfl, rfl, rfl, rfl, rfl⟩, rfl⟩
  | true =>
    obtain ⟨hacc, hvel⟩ := hlimits rfl
    rw [if_pos rfl, simpleTpUpdate_mirror hacc hvel]
    exact ⟨⟨rfl, rfl, rfl, rfl, rfl, rfl⟩, rfl⟩

end Planner

/-! ### Axes -/

/-- The two axes behave alike, or in opposite directions. -/
structure Axis.Reflects (m : Bool) (a b : Axis ℝ) : Prop where
  active : b.flag.active = a.flag.active
  enable : b.flag.enable = a.flag.enable
  inpos : b.flag.inpos = a.flag.inpos
  error : b.flag.error = a.flag.error
  ferror : b.flag.ferror = a.flag.ferror
  fault : b.flag.fault = a.flag.fault
  posCmd : b.posCmd = reflect m a.posCmd
  velCmd : b.velCmd = reflect m a.velCmd
  posFb : b.posFb = reflect m a.posFb
  motorOffset : b.motorOffset = reflect m a.motorOffset
  maxPosLimit : b.maxPosLimit = if m then -a.minPosLimit else a.maxPosLimit
  minPosLimit : b.minPosLimit = if m then -a.maxPosLimit else a.minPosLimit
  velLimit : b.velLimit = a.velLimit
  minFerror : b.minFerror = a.minFerror
  maxFerror : b.maxFerror = a.maxFerror
  freeTp : a.freeTp.Reflects m b.freeTp

/-- The samples of an axis in the two machines. -/
structure AxisInput.Reflects (m : Bool) (a b : AxisInput) : Prop where
  motorPosFb : b.motorPosFb = reflect m a.motorPosFb
  ampFault : b.ampFault = a.ampFault

/-- The part of the following-error limit that grows with the speed. -/
def Axis.speedLimit (axis : Axis ℝ) : Int :=
    if 0 < axis.velLimit then (axis.maxFerror * axis.velCmd).tdiv axis.velLimit else 0

/-- The following error is above the limit at rest, but not above the limit for the speed. -/
def Axis.ErrorBetween (axis : Axis ℝ) (motorPosFb : Int) : Prop :=
  axis.speedLimit ≠ 0 ∧ axis.minFerror < |axis.posCmd - (motorPosFb - axis.motorOffset)| ∧
    |axis.posCmd - (motorPosFb - axis.motorOffset)| ≤ |axis.speedLimit|

section Axes

variable {m : Bool} {a b : Axis ℝ} {inp inp' : AxisInput}

theorem computeFerrorLimit_eq (axis : Axis ℝ) : axis.computeFerrorLimit = max axis.speedLimit axis.minFerror := by
  unfold Axis.computeFerrorLimit Axis.speedLimit
  dsimp only
  split
  · split <;> omega
  · split <;> omega

theorem speedLimit_reflect (h : a.Reflects m b) : b.speedLimit = reflect m a.speedLimit := by
  unfold Axis.speedLimit
  rw [h.velLimit, h.maxFerror, h.velCmd]
  by_cases hpos : 0 < a.velLimit
  · rw [if_pos hpos, if_pos hpos]
    unfold reflect
    cases m with
    | false => rfl
    | true =>
      show (a.maxFerror * -a.velCmd).tdiv a.velLimit = -(a.maxFerror * a.velCmd).tdiv a.velLimit
      rw [mul_neg, Int.neg_tdiv]
  · rw [if_neg hpos, if_neg hpos, reflect_zero]

/-- The following error trips in both directions or in none, unless it lies between the two limits. -/
theorem trips_reflect_iff {e q lim : Int} (he : 0 ≤ e) :
    ((max q lim < e) ↔ (max (-q) lim < e)) ↔ ¬ (q ≠ 0 ∧ lim < e ∧ e ≤ |q|) := by
  rcases le_total 0 q with hq | hq
  · rw [abs_of_nonneg hq]
    omega
  · rw [abs_of_nonpos hq]
    omega

theorem processAxisInputs_reflects (h : a.Reflects m b) (hinp : inp.Reflects m inp')
    (herror : m = true → a.flag.active = true → ¬ a.ErrorBetween inp.motorPosFb) :
    (processAxisInputs a inp).Reflects m (processAxisInputs b inp') := by
  unfold processAxisInputs
  cases hactive : a.flag.active with
  | false =>
    rw [if_pos (by rfl), if_pos (by rw [h.active, hactive]; rfl)]
    exact h
  | true =>
    have hfb : inp'.motorPosFb - b.motorOffset = reflect m (inp.motorPosFb - a.motorOffset) := by
      rw [hinp.motorPosFb, h.motorOffset, reflect_sub]
    have herr : b.posCmd - (inp'.motorPosFb - b.motorOffset) =
        reflect m (a.posCmd - (inp.motorPosFb - a.motorOffset)) := by
      rw [hfb, h.posCmd, ← reflect_sub]
    have hsame : decide (b.computeFerrorLimit < |b.posCmd - (inp'.motorPosFb - b.motorOffset)|) =
        decide (a.computeFerrorLimit < |a.posCmd - (inp.motorPosFb - a.motorOffset)|) := by
      rw [computeFerrorLimit_eq, computeFerrorLimit_eq, herr, abs_reflect, speedLimit_reflect h, h.minFerror]
      cases m with
      | false => rfl
      | true => exact decide_eq_decide.2 ((trips_reflect_iff (abs_nonneg _)).2 (herror rfl hactive)).symm
    rw [if_neg (by decide), if_neg (by rw [h.active, hactive]; decide)]
    refine ⟨h.active, h.enable, h.inpos, h.error, hsame, hinp.ampFault, h.posCmd, h.velCmd, hfb, h.motorOffset,
      h.maxPosLimit, h.minPosLimit, h.velLimit, h.minFerror, h.maxFerror, h.freeTp⟩

theorem Axis.Reflects.withCubic (h : a.Reflects m b) (c c' : Cubic ℝ) :
    Axis.Reflects m { a with cubic := c } { b with cubic := c' } :=
  ⟨h.active, h.enable, h.inpos, h.error, h.ferror, h.fault, h.posCmd, h.velCmd, h.posFb, h.motorOffset, h.maxPosLimit,
    h.minPosLimit, h.velLimit, h.minFerror, h.maxFerror, h.freeTp⟩

theorem Axis.Reflects.setError (h : a.Reflects m b) (fl : Bool) :
    (Axis.setError a fl).Reflects m (Axis.setError b fl) :=
  ⟨h.active, h.enable, h.inpos, rfl, h.ferror, h.fault, h.posCmd, h.velCmd, h.posFb, h.motorOffset, h.maxPosLimit,
    h.minPosLimit, h.velLimit, h.minFerror, h.maxFerror, h.freeTp⟩

theorem disableAxis_reflects (h : a.Reflects m b) : (disableAxis a).Reflects m (disableAxis b) := by
  have htp : ({ a.freeTp with enable := false, currVel := 0 } : SimpleTp).Reflects m
      { b.freeTp with enable := false, currVel := 0 } :=
    ⟨h.freeTp.posCmd, h.freeTp.currPos, (reflect_zero m).symm, h.freeTp.vel, h.freeTp.acc, rfl⟩
  unfold disableAxis
  rw [h.active]
  cases hactive : a.flag.active with
  | false =>
    exact ⟨h.active, h.enable, h.inpos, h.error, h.ferror, h.fault, h.posCmd, h.velCmd, h.posFb, h.motorOffset,
      h.maxPosLimit, h.minPosLimit, h.velLimit, h.minFerror, h.maxFerror, htp⟩
  | true =>
    exact ⟨h.active, rfl, rfl, h.error, h.ferror, h.fault, h.posCmd, h.velCmd, h.posFb, h.motorOffset, h.maxPosLimit,
      h.minPosLimit, h.velLimit, h.minFerror, h.maxFerror, htp⟩

theorem enableAxis_reflects (h : a.Reflects m b) : (enableAxis a).Reflects m (enableAxis b) := by
  refine ⟨h.active, ?_, h.inpos, rfl, h.ferror, h.fault, h.posCmd, h.velCmd, h.posFb, h.motorOffset, h.maxPosLimit,
    h.minPosLimit, h.velLimit, h.minFerror, h.maxFerror,
    ⟨h.freeTp.posCmd, h.posCmd, h.freeTp.currVel, h.freeTp.vel, h.freeTp.acc, h.freeTp.enable⟩⟩
  show (b.flag.active || b.flag.enable) = (a.flag.active || a.flag.enable)
  rw [h.active, h.enable]

theorem freeAxis_reflects (h : a.Reflects m b) : (freeAxis a).Reflects m (freeAxis b) :=
  ⟨h.active, h.enable, h.inpos, h.error, h.ferror, h.fault, h.posCmd, h.velCmd, h.posFb, h.motorOffset, h.maxPosLimit,
    h.minPosLimit, h.velLimit, h.minFerror, h.maxFerror,
    ⟨h.freeTp.posCmd, h.posCmd, h.freeTp.currVel, h.freeTp.vel, h.freeTp.acc, rfl⟩⟩

theorem holdAxis_reflects (h : a.Reflects m b) : (holdAxis a).Reflects m (holdAxis b) :=
  ⟨h.active, h.enable, h.inpos, h.error, h.ferror, h.fault, h.posFb, (reflect_zero m).symm, h.posFb, h.motorOffset,
    h.maxPosLimit, h.minPosLimit, h.velLimit, h.minFerror, h.maxFerror, h.freeTp⟩

theorem outputAxis_reflects (h : a.Reflects m b) : (outputAxis a).Reflects m (outputAxis b) := by
  unfold outputAxis
  rw [h.active]
  split
  · exact ⟨h.active, h.enable, h.inpos, h.error, h.ferror, h.fault, h.posCmd, h.velCmd, h.posFb, h.motorOffset,
      h.maxPosLimit, h.minPosLimit, h.velLimit, h.minFerror, h.maxFerror, h.freeTp⟩
  · exact h

/-- A cycle of free mode moves the axes in opposite directions, and both are still active or none. -/
theorem freeAxisCycle_reflects (h : a.Reflects m b) (hlimits : m = true → 0 ≤ a.freeTp.acc ∧ 0 ≤ a.freeTp.vel)
    (maxacc maxacc' : Int) :
    (freeAxisCycle a maxacc 1).Reflects m (freeAxisCycle b maxacc' 1) ∧
      ((freeAxisCycle b maxacc' 1).flag.active && (freeAxisCycle b maxacc' 1).freeTp.active) =
        ((freeAxisCycle a maxacc 1).flag.active && (freeAxisCycle a maxacc 1).freeTp.active) := by
  unfold freeAxisCycle
  rw [h.active]
  cases hactive : a.flag.active with
  | false =>
    rw [if_pos (by rfl), if_pos (by rfl), h.active, hactive]
    exact ⟨h, rfl⟩
  | true =>
    have hno : ¬ (!true) = true := by decide
    rw [if_neg hno, if_neg hno]
    obtain ⟨htp, hmoving⟩ := h.freeTp.update hlimits (if maxacc < a.accLimit then maxacc else a.accLimit)
      (if maxacc' < b.accLimit then maxacc' else b.accLimit)
    refine ⟨⟨h.active, h.enable, ?_, h.error, h.ferror, h.fault, htp.currPos, htp.currVel, h.posFb, h.motorOffset,
      h.maxPosLimit, h.minPosLimit, h.velLimit, h.minFerror, h.maxFerror, htp⟩, ?_⟩
    · exact congrArg (! ·) hmoving
    · dsimp only
      rw [h.active, hmoving]

theorem offLimits_reflects (h : a.Reflects m b) : b.offLimits = a.offLimits := by
  unfold Axis.offLimits
  rw [h.maxPosLimit, h.minPosLimit, h.posCmd]
  cases m with
  | false => rfl
  | true =>
    show (decide (((-a.minPosLimit : Int) : ℝ) + 0.000000000001 < ((-a.posCmd : Int) : ℝ)) ||
      decide (((-a.posCmd : Int) : ℝ) < ((-a.maxPosLimit : Int) : ℝ) - 0.000000000001)) = _
    rw [Bool.or_comm]
    congr 1
    · rw [decide_eq_decide]
      push_cast
      constructor <;> intro hlt <;> linarith
    · rw [decide_eq_decide]
      push_cast
      constructor <;> intro hlt <;> linarith

theorem axisTrips_reflects (h : a.Reflects m b) {st st' : Status ℝ}
    (hmask : st'.overrideLimitMask = st.overrideLimitMask)
    (i : Fin 3) : axisTrips st' i b = axisTrips st i a := by
  unfold axisTrips Status.posLimitOverride Status.negLimitOverride
  rw [h.active, h.enable, h.fault, h.ferror, hmask]

end Axes

/-! ### Machines -/

/-- The two machines differ, as far as free mode goes, in the direction of the axes that are flipped. -/
structure Machine.Reflects (flip : Fin 3 → Bool) (s t : Machine ℝ) : Prop where
  axes : ∀ i, (s.axes i).Reflects (flip i) (t.axes i)
  enabling : t.internal.enabling = s.internal.enabling
  freeing : t.internal.freeing = s.internal.freeing
  coordinating : t.internal.coordinating = s.internal.coordinating
  overriding : t.internal.overriding = s.internal.overriding
  motionFlag : t.status.motionFlag = s.status.motionFlag
  motionState : t.status.motionState = s.status.motionState
  onSoftLimit : t.status.onSoftLimit = s.status.onSoftLimit
  mask : t.status.overrideLimitMask = s.status.overrideLimitMask
  miscError : t.status.miscError = s.status.miscError
  numMiscError : t.config.numMiscError = s.config.numMiscError
  numAxes : t.config.numAxes = s.config.numAxes
  halEnable : t.hal.enable = s.hal.enable

/-- The samples of the two machines in a cycle. -/
structure Inputs.Reflects (flip : Fin 3 → Bool) (inp inp' : Inputs) : Prop where
  axis : ∀ i, (inp.axis i).Reflects (flip i) (inp'.axis i)
  miscError : inp'.miscError = inp.miscError

/-- Coordinated mode is neither on nor asked for. -/
def Machine.NoCoord (s : Machine ℝ) : Prop := s.internal.coordinating = false ∧ s.status.motionFlag.coord = false

/-- The planners of the flipped axes have limits that are not negative. -/
def Machine.FlippedLimits (flip : Fin 3 → Bool) (s : Machine ℝ) : Prop :=
  ∀ i, flip i = true → 0 ≤ (s.axes i).freeTp.acc ∧ 0 ≤ (s.axes i).freeTp.vel

/-- No flipped axis has a following error between the two limits. -/
def Machine.NoErrorBetween (flip : Fin 3 → Bool) (s : Machine ℝ) (inp : Inputs) : Prop :=
  ∀ i, flip i = true → (s.axes i).flag.active = true → ¬ (s.axes i).ErrorBetween (inp.axis i).motorPosFb

section Machines

variable {flip : Fin 3 → Bool} {s t : Machine ℝ} {inp inp' : Inputs}

theorem updatePeriod_reflects (h : s.Reflects flip t) (period : Int) :
    (updatePeriod s period).Reflects flip (updatePeriod t period) := by
  obtain ⟨_, _, _, _, cubic, _, _, hs⟩ := updatePeriod_eq s period
  obtain ⟨_, _, _, _, cubic', _, _, ht⟩ := updatePeriod_eq t period
  rw [hs, ht]
  exact ⟨fun i => (h.axes i).withCubic (cubic i) (cubic' i), h.enabling, h.freeing, h.coordinating, h.overriding,
    h.motionFlag, h.motionState, h.onSoftLimit, h.mask, h.miscError, h.numMiscError, h.numAxes, h.halEnable⟩

theorem processInputs_reflects (h : s.Reflects flip t) (hinp : inp.Reflects flip inp')
    (herror : s.NoErrorBetween flip inp) :
    (processInputs s inp).Reflects flip (processInputs t inp') := by
  obtain ⟨array, hs⟩ := processInputs_eq s inp
  obtain ⟨array', ht⟩ := processInputs_eq t inp'
  rw [hs, ht]
  exact ⟨fun i => processAxisInputs_reflects (h.axes i) (hinp.axis i) (herror i), h.enabling, h.freeing, h.coordinating,
    h.overriding, h.motionFlag, h.motionState, h.onSoftLimit, h.mask, h.miscError, h.numMiscError,
    h.numAxes, h.halEnable⟩

theorem sampled_reflects (h : s.Reflects flip t) (hinp : inp.Reflects flip inp') (herror : s.NoErrorBetween flip inp)
    (period : Int) : (sampled s inp period).Reflects flip (sampled t inp' period) := by
  have hperiod := updatePeriod_reflects h period
  obtain ⟨_, _, _, _, cubic, _, _, hs⟩ := updatePeriod_eq s period
  have hmove : (handleInterpolation (updatePeriod s period)).Reflects flip
      (handleInterpolation (updatePeriod t period)) :=
    ⟨hperiod.axes, hperiod.enabling, hperiod.freeing, hperiod.coordinating, hperiod.overriding, hperiod.motionFlag,
      hperiod.motionState, hperiod.onSoftLimit, hperiod.mask, hperiod.miscError, hperiod.numMiscError, hperiod.numAxes,
      hperiod.halEnable⟩
  refine processInputs_reflects hmove hinp fun i hflip hactive => ?_
  have hsame : (handleInterpolation (updatePeriod s period)).axes i = { s.axes i with cubic := cubic i } := by
    show (updatePeriod s period).axes i = _
    rw [hs]
    rfl
  rw [hsame] at hactive ⊢
  exact herror i hflip hactive

theorem machineTrips_reflects (h : s.Reflects flip t) : machineTrips t = machineTrips s := by
  unfold machineTrips
  rw [h.motionFlag, h.halEnable, h.numMiscError, h.miscError]

theorem checkForFaults_reflects (h : s.Reflects flip t) : (checkForFaults s).Reflects flip (checkForFaults t) := by
  have htrips : ∀ i, axisTrips t.status i (t.axes i) = axisTrips s.status i (s.axes i) :=
    fun i => axisTrips_reflects (h.axes i) h.mask i
  refine ⟨fun i => ?_, ?_, h.freeing, h.coordinating, h.overriding, h.motionFlag, h.motionState, h.onSoftLimit, h.mask,
    h.miscError, h.numMiscError, h.numAxes, h.halEnable⟩
  · show (if axisTrips s.status i (s.axes i) then Axis.setError (s.axes i) true else s.axes i).Reflects (flip i)
      (if axisTrips t.status i (t.axes i) then Axis.setError (t.axes i) true else t.axes i)
    rw [htrips]
    split
    · exact (h.axes i).setError true
    · exact h.axes i
  · show (t.internal.enabling && !faultFound t) = (s.internal.enabling && !faultFound s)
    unfold faultFound
    rw [h.enabling, machineTrips_reflects h, htrips, htrips, htrips]

theorem disableMotion_reflects (h : s.Reflects flip t) : (disableMotion s).Reflects flip (disableMotion t) := by
  unfold disableMotion
  rw [h.enabling, h.motionFlag]
  split
  · exact ⟨fun i => disableAxis_reflects (h.axes i), h.enabling, h.freeing, h.coordinating, h.overriding, rfl,
      h.motionState, h.onSoftLimit, h.mask, h.miscError, h.numMiscError, h.numAxes, h.halEnable⟩
  · exact h

theorem enableMotion_reflects (h : s.Reflects flip t) : (enableMotion s).Reflects flip (enableMotion t) := by
  unfold enableMotion
  rw [h.enabling, h.motionFlag]
  split
  · exact ⟨fun i => enableAxis_reflects (h.axes i), h.enabling, h.freeing, h.coordinating, h.overriding, rfl,
      h.motionState, h.onSoftLimit, h.mask, h.miscError, h.numMiscError, h.numAxes, h.halEnable⟩
  · exact h

theorem enterFree_reflects (h : s.Reflects flip t) : (enterFree s).Reflects flip (enterFree t) := by
  unfold enterFree
  rw [h.freeing, h.motionFlag]
  split
  · split
    · exact ⟨fun i => freeAxis_reflects (h.axes i), h.enabling, h.freeing, h.coordinating, h.overriding, rfl,
        h.motionState, h.onSoftLimit, h.mask, h.miscError, h.numMiscError, h.numAxes, h.halEnable⟩
    · exact ⟨h.axes, h.enabling, rfl, h.coordinating, h.overriding, h.motionFlag, h.motionState, h.onSoftLimit, h.mask,
        h.miscError, h.numMiscError, h.numAxes, h.halEnable⟩
  · exact h

/-- The front of a cycle keeps the directions. -/
theorem controllerFront_reflects (h : s.Reflects flip t) (hno : s.NoCoord) (hinp : inp.Reflects flip inp')
    (herror : s.NoErrorBetween flip inp) (period : Int) :
    (controllerFront s inp period).Reflects flip (controllerFront t inp' period) := by
  have hfaults := checkForFaults_reflects (sampled_reflects h hinp herror period)
  have henable := enableMotion_reflects (disableMotion_reflects hfaults)
  have hidle :
    (enableMotion (disableMotion (checkForFaults (sampled s inp period)))).internal.coordinating = false := by
    have hmodes : (enableMotion (disableMotion (checkForFaults (sampled s inp period)))).modes.coordinating =
        s.modes.coordinating := by
      rw [enableMotion_modes, disableMotion_modes, checkForFaults_modes, sampled_modes]
      unfold Modes.rise Modes.fall
      split <;> split <;> rfl
    exact hmodes.trans hno.1
  have hcoord : (enterCoord (enableMotion (disableMotion (checkForFaults (sampled s inp period))))).Reflects flip
      (enterCoord (enableMotion (disableMotion (checkForFaults (sampled t inp' period))))) := by
    rw [enterCoord_idle hidle, enterCoord_idle (henable.coordinating.trans hidle)]
    exact henable
  have hfree := enterFree_reflects hcoord
  refine ⟨hfree.axes, hfree.enabling, hfree.freeing, hfree.coordinating, hfree.overriding, hfree.motionFlag, ?_,
    hfree.onSoftLimit, hfree.mask, hfree.miscError, hfree.numMiscError, hfree.numAxes, hfree.halEnable⟩
  exact congrArg MotionFlag.state hfree.motionFlag

theorem freeCycle_reflects (h : s.Reflects flip t) (hlimits : s.FlippedLimits flip) (hs : s.servoPeriod = 1)
    (ht : t.servoPeriod = 1) : (freeCycle s).Reflects flip (freeCycle t) := by
  have haxis := fun i => freeAxisCycle_reflects (h.axes i) (hlimits i) s.status.maxacc t.status.maxacc
  have hmoving : freeMoving (fun i => freeAxisCycle (t.axes i) t.status.maxacc 1) =
      freeMoving fun i => freeAxisCycle (s.axes i) s.status.maxacc 1 := by
    unfold freeMoving
    rw [decide_eq_decide]
    refine exists_congr fun i => ?_
    rw [← Bool.and_eq_true, ← Bool.and_eq_true, (haxis i).2]
  unfold freeCycle
  rw [hs, ht]
  dsimp only
  rw [hmoving, h.overriding, h.mask]
  have hflag := congrArg (fun flag : MotionFlag =>
    { flag with inpos := !freeMoving fun i => freeAxisCycle (s.axes i) s.status.maxacc 1 }) h.motionFlag
  refine ⟨fun i => (haxis i).1, h.enabling, h.freeing, h.coordinating, rfl, hflag, h.motionState, h.onSoftLimit, ?_,
    h.miscError, h.numMiscError, h.numAxes, h.halEnable⟩
  show (if _ then 0 else t.status.overrideLimitMask) = if _ then 0 else s.status.overrideLimitMask
  rw [h.mask]

theorem disabledCycle_reflects (h : s.Reflects flip t) : (disabledCycle s).Reflects flip (disabledCycle t) :=
  ⟨fun i => holdAxis_reflects (h.axes i), h.enabling, h.freeing, h.coordinating, h.overriding, h.motionFlag,
    h.motionState, h.onSoftLimit, h.mask, h.miscError, h.numMiscError, h.numAxes, h.halEnable⟩

theorem checkSoftLimits_reflects (h : s.Reflects flip t) : (checkSoftLimits s).Reflects flip (checkSoftLimits t) := by
  have hoff : decide (∃ i : Fin 3, t.isConfigured i ∧ (t.axes i).offLimits) =
      decide (∃ i : Fin 3, s.isConfigured i ∧ (s.axes i).offLimits) := by
    rw [decide_eq_decide]
    refine exists_congr fun i => ?_
    unfold Machine.isConfigured
    rw [h.numAxes, offLimits_reflects (h.axes i)]
  unfold checkSoftLimits
  rw [hoff, h.onSoftLimit]
  split
  · split
    · exact h
    · exact ⟨h.axes, h.enabling, h.freeing, h.coordinating, h.overriding,
        congrArg (fun flag : MotionFlag => { flag with error := true }) h.motionFlag, h.motionState, rfl, h.mask,
        h.miscError, h.numMiscError, h.numAxes, h.halEnable⟩
  · exact ⟨h.axes, h.enabling, h.freeing, h.coordinating, h.overriding, h.motionFlag, h.motionState, rfl, h.mask,
      h.miscError, h.numMiscError, h.numAxes, h.halEnable⟩

theorem outputs_reflects (h : s.Reflects flip t) (hinp : inp.Reflects flip inp') :
    (updateStatus (outputToHal s) inp).Reflects flip (updateStatus (outputToHal t) inp') := by
  refine ⟨fun i => outputAxis_reflects (h.axes i), h.enabling, h.freeing, h.coordinating, h.overriding, h.motionFlag,
    h.motionState, h.onSoftLimit, h.mask, ?_, h.numMiscError, h.numAxes, h.halEnable⟩
  show (fun n => if n < t.config.numMiscError then inp'.miscError n else t.status.miscError n) =
    fun n => if n < s.config.numMiscError then inp.miscError n else s.status.miscError n
  rw [h.numMiscError, hinp.miscError, h.miscError]

/-- A cycle outside coordinated mode keeps the directions, and the same axes trip. -/
theorem emcmotController_reflects {s' t' : Machine ℝ} {fuel fuel' : Nat} (h : s.Reflects flip t) (hno : s.NoCoord)
    (hinp : inp.Reflects flip inp') (hlimits : s.FlippedLimits flip) (herror : s.NoErrorBetween flip inp)
    (hs : emcmotController s inp motionThreadPeriod fuel = some s')
    (ht : emcmotController t inp' motionThreadPeriod fuel' = some t') : s'.Reflects flip t' := by
  have hfront := controllerFront_reflects h hno hinp herror motionThreadPeriod
  have hfree : (controllerFront s inp motionThreadPeriod).status.motionState ≠ .coord := by
    rw [controllerFront_motionState]
    exact Modes.next_state_ne_coord _ hno.2 hno.1
  have hlimits' : (controllerFront s inp motionThreadPeriod).FlippedLimits flip := by
    intro i hflip
    have hkept := controllerFront_freeTp s inp motionThreadPeriod i
    rw [hkept.acc, hkept.vel]
    exact hlimits i hflip
  unfold emcmotController getPosCmds planPositions at hs ht
  rw [hfront.motionState] at ht
  cases hstate : (controllerFront s inp motionThreadPeriod).status.motionState with
  | coord => exact absurd hstate hfree
  | free =>
    rw [hstate] at hs ht
    cases hs
    cases ht
    exact outputs_reflects (checkSoftLimits_reflects
      (freeCycle_reflects hfront hlimits' (controllerFront_servoPeriod s inp)
      (controllerFront_servoPeriod t inp'))) hinp
  | disabled =>
    rw [hstate] at hs ht
    cases hs
    cases ht
    exact outputs_reflects (checkSoftLimits_reflects (disabledCycle_reflects hfront)) hinp

theorem noCoord_cycle {s' : Machine ℝ} {period : Int} {fuel : Nat} (hno : s.NoCoord)
    (hs : emcmotController s inp period fuel = some s') : s'.NoCoord := by
  have hmodes := (emcmotController_modes hs).1
  rw [controllerFront_modes] at hmodes
  have hcoordinating : s'.internal.coordinating =
      (s.internal.coordinating && (s.status.motionFlag.coord || s.status.motionFlag.inpos)) :=
      congrArg Modes.coordinating hmodes
  have hcoord : s'.status.motionFlag.coord =
      (s.status.motionFlag.coord || (s.internal.coordinating && s.status.motionFlag.inpos)) :=
      congrArg Modes.coord hmodes
  rw [hno.1, Bool.false_and] at hcoordinating
  rw [hno.1, hno.2, Bool.false_and] at hcoord
  exact ⟨hcoordinating, hcoord⟩

/-- The axis after a cycle outside coordinated mode: it has followed its planner, or holds its position. -/
theorem emcmotController_axis {s' : Machine ℝ} {fuel : Nat} (hno : s.NoCoord)
    (hs : emcmotController s inp motionThreadPeriod fuel = some s') (i : Fin 3) :
    ∃ pos, s'.axes i = { freeAxisCycle ((controllerFront s inp motionThreadPeriod).axes i)
        (controllerFront s inp motionThreadPeriod).status.maxacc 1 with motorPosCmd := pos } ∨
      s'.axes i = { holdAxis ((controllerFront s inp motionThreadPeriod).axes i) with motorPosCmd := pos } := by
  have hfree : (controllerFront s inp motionThreadPeriod).status.motionState ≠ .coord := by
    rw [controllerFront_motionState]
    exact Modes.next_state_ne_coord _ hno.2 hno.1
  cases hstate : (controllerFront s inp motionThreadPeriod).status.motionState with
  | coord => exact absurd hstate hfree
  | free =>
    obtain ⟨pos, hpos⟩ := emcmotController_free hs ((emcmotController_modes hs).2.trans hstate) i
    rw [controllerFront_servoPeriod] at hpos
    exact ⟨pos, .inl hpos⟩
  | disabled =>
    unfold emcmotController getPosCmds planPositions at hs
    rw [hstate] at hs
    cases hs
    obtain ⟨pos, hpos⟩ := cycleEnd_axes (disabledCycle (controllerFront s inp motionThreadPeriod)) inp i
    exact ⟨pos, .inr hpos⟩

theorem flippedLimits_cycle {s' : Machine ℝ} {fuel : Nat} (hno : s.NoCoord) (hlimits : s.FlippedLimits flip)
    (hs : emcmotController s inp motionThreadPeriod fuel = some s') : s'.FlippedLimits flip := by
  intro i hflip
  have hkept := controllerFront_freeTp s inp motionThreadPeriod i
  have hacc : ((controllerFront s inp motionThreadPeriod).axes i).freeTp.acc = (s.axes i).freeTp.acc := hkept.acc
  have hvel : ((controllerFront s inp motionThreadPeriod).axes i).freeTp.vel = (s.axes i).freeTp.vel := hkept.vel
  have hsame : (s'.axes i).freeTp.acc = (s.axes i).freeTp.acc ∧ (s'.axes i).freeTp.vel = (s.axes i).freeTp.vel := by
    rw [← hacc, ← hvel]
    obtain ⟨pos, hpos | hpos⟩ := emcmotController_axis hno hs i
    · rw [hpos]
      unfold freeAxisCycle
      split
      · exact ⟨rfl, rfl⟩
      · exact simpleTpUpdate_settings _
    · rw [hpos]
      exact ⟨rfl, rfl⟩
  rw [hsame.1, hsame.2]
  exact hlimits i hflip

/-! ### The following-error flag after a cycle -/

theorem setOperatingMode_ferror (u : Machine ℝ) (i : Fin 3) :
    ((setOperatingMode u).axes i).flag.ferror = (u.axes i).flag.ferror := by
  have hdisable : ∀ axis : Axis ℝ, (disableAxis axis).flag.ferror = axis.flag.ferror := by
    intro axis
    unfold disableAxis
    dsimp only
    split <;> rfl
  have hkept : KeptByModes fun v : Machine ℝ => (v.axes i).flag.ferror = (u.axes i).flag.ferror :=
    ⟨fun _ h => (hdisable _).trans h, fun _ h => h, fun _ _ h => h, fun _ h => h, fun _ h => h, fun _ h => h,
      fun _ h => h⟩
  exact hkept.setOperatingMode rfl

/-- The flags of an active axis once its error is sampled. -/
theorem sampled_flag {i : Fin 3} (hactive : (s.axes i).flag.active = true) :
    ((sampled s inp motionThreadPeriod).axes i).flag = { (s.axes i).flag with
      ferror := decide (max (s.axes i).speedLimit (s.axes i).minFerror <
        |(s.axes i).posCmd - ((inp.axis i).motorPosFb - (s.axes i).motorOffset)|)
      phl := (inp.axis i).posLimSw, nhl := (inp.axis i).negLimSw, fault := (inp.axis i).ampFault } := by
  obtain ⟨cubic, hsampled⟩ := sampled_axes s inp motionThreadPeriod i
  rw [hsampled]
  unfold processAxisInputs
  rw [if_neg (by rw [hactive]; decide)]
  dsimp only
  rw [computeFerrorLimit_eq]
  rfl

/-- After a cycle the flag says whether the error sampled in it is above the limit. -/
theorem emcmotController_ferror {s' : Machine ℝ} {fuel : Nat} (hno : s.NoCoord) {i : Fin 3}
    (hactive : (s.axes i).flag.active = true) (hs : emcmotController s inp motionThreadPeriod fuel = some s') :
    (s'.axes i).flag.ferror = decide (max (s.axes i).speedLimit (s.axes i).minFerror <
      |(s.axes i).posCmd - ((inp.axis i).motorPosFb - (s.axes i).motorOffset)|) := by
  have hfaults : ((checkForFaults (sampled s inp motionThreadPeriod)).axes i).flag.ferror =
      ((sampled s inp motionThreadPeriod).axes i).flag.ferror := by
    show (if _ then _ else _ : Axis ℝ).flag.ferror = _
    split <;> rfl
  have hfront : ((controllerFront s inp motionThreadPeriod).axes i).flag.ferror =
      ((sampled s inp motionThreadPeriod).axes i).flag.ferror := by
    show ((setOperatingMode (checkForFaults (sampled s inp motionThreadPeriod))).axes i).flag.ferror = _
    rw [setOperatingMode_ferror, hfaults]
  have hkept : (s'.axes i).flag.ferror = ((controllerFront s inp motionThreadPeriod).axes i).flag.ferror := by
    obtain ⟨pos, hpos | hpos⟩ := emcmotController_axis hno hs i
    · rw [hpos]
      unfold freeAxisCycle
      split <;> rfl
    · rw [hpos]
      rfl
  rw [hkept, hfront, sampled_flag hactive]

/-- Machines that still reflect each other after a cycle have had no error between the limits in it. -/
theorem noErrorBetween_of_reflects {s' t' : Machine ℝ} {fuel fuel' : Nat} (h : s.Reflects flip t) (hno : s.NoCoord)
    (hinp : inp.Reflects flip inp') (hs : emcmotController s inp motionThreadPeriod fuel = some s')
    (ht : emcmotController t inp' motionThreadPeriod fuel' = some t') (hnext : s'.Reflects flip t') :
    s.NoErrorBetween flip inp := by
  intro i hflip hactive
  have hno' : t.NoCoord := ⟨h.coordinating.trans hno.1, (congrArg MotionFlag.coord h.motionFlag).trans hno.2⟩
  have haxis := h.axes i
  have hflag := (hnext.axes i).ferror
  rw [emcmotController_ferror hno hactive hs,
    emcmotController_ferror hno' (haxis.active.trans hactive) ht, haxis.posCmd,
    (hinp.axis i).motorPosFb, haxis.motorOffset, ← reflect_sub, ← reflect_sub, abs_reflect, speedLimit_reflect haxis,
    haxis.minFerror, hflip, decide_eq_decide] at hflag
  exact (trips_reflect_iff (abs_nonneg _)).1 hflag.symm

end Machines

/-! ### Runs -/

/-- The axis trips in the cycle. -/
noncomputable def Machine.tripsIn (s : Machine ℝ) (inp : Inputs) (i : Fin 3) : Bool :=
  axisTrips s.status i ((sampled s inp motionThreadPeriod).axes i)

/-- Outside coordinated mode the cycles never stop completing. -/
theorem freeRun_exists {s : Machine ℝ} (hno : s.NoCoord) (inp : Inputs) :
    ∃ u : ℕ → Machine ℝ, u 0 = s ∧ ∀ k, emcmotController (u k) inp motionThreadPeriod 1 = some (u (k + 1)) := by
  have hnext : ∀ v : Machine ℝ, v.NoCoord → ∃ w, emcmotController v inp motionThreadPeriod 1 = some w := by
    intro v hv
    refine emcmotController_exists ?_ 1
    rw [controllerFront_motionState]
    exact Modes.next_state_ne_coord _ hv.2 hv.1
  let u : ℕ → Machine ℝ := fun k => ((emcmotController · inp motionThreadPeriod 1 |>.getD s)^[k]) s
  have hsucc : ∀ k, u (k + 1) = (emcmotController (u k) inp motionThreadPeriod 1).getD s :=
    fun k => Function.iterate_succ_apply' _ k s
  have hu : ∀ k, (u k).NoCoord := by
    intro k
    induction k with
    | zero => exact hno
    | succ k ih =>
      obtain ⟨w, hw⟩ := hnext (u k) ih
      rw [hsucc, hw]
      exact noCoord_cycle ih hw
  refine ⟨u, rfl, fun k => ?_⟩
  obtain ⟨w, hw⟩ := hnext (u k) (hu k)
  rw [hsucc, hw]
  rfl

/-- The machine as its threads leave it, with motion enabled and its axes active and moving at `vel`. -/
noncomputable def creeping (vel : Int) : Machine ℝ :=
  { initMachine 3 with
    internal := { (initMachine 3 : Machine ℝ).internal with enabling := true }
    status := { (initMachine 3 : Machine ℝ).status with
      motionFlag := { (initMachine 3 : Machine ℝ).status.motionFlag with enable := true } }
    axes := fun i => { (initMachine 3 : Machine ℝ).axes i with
      flag := { ((initMachine 3 : Machine ℝ).axes i).flag with active := true }, velCmd := vel } }

/-- Samples of axes that are all at `pos`. -/
def stoodAt (pos : Int) : Inputs := { restInputs with axis := fun _ => ⟨pos, false, false, false, false⟩ }

theorem creeping_axes (vel : Int) (i : Fin 3) : ∃ cubic : Cubic ℝ, (creeping vel).axes i =
    { (initAxis : Axis ℝ) with flag := ⟨true, true, true, false, false, false, false, false⟩, velCmd := vel, cubic := cubic } := by
  obtain ⟨_, _, _, _, cubic, _, _, hinit⟩ := initMachine_eq (K := ℝ) 3
  refine ⟨cubic i, ?_⟩
  unfold creeping
  rw [hinit]
  rfl

theorem creeping_noCoord (vel : Int) : (creeping vel).NoCoord := by
  obtain ⟨_, _, _, _, _, _, _, hinit⟩ := initMachine_eq (K := ℝ) 3
  unfold creeping
  rw [hinit]
  exact ⟨rfl, rfl⟩

theorem creeping_reflects (vel : Int) : (creeping vel).Reflects (fun _ => true) (creeping (-vel)) := by
  refine ⟨fun i => ?_, rfl, rfl, rfl, rfl, rfl, rfl, rfl, rfl, rfl, rfl, rfl, rfl⟩
  obtain ⟨cubic, hcubic⟩ := creeping_axes vel i
  obtain ⟨cubic', hcubic'⟩ := creeping_axes (-vel) i
  rw [hcubic, hcubic']
  exact ⟨rfl, rfl, rfl, rfl, rfl, rfl, rfl, rfl, rfl, rfl, rfl, rfl, rfl, rfl, rfl, ⟨rfl, rfl, rfl, rfl, rfl, rfl⟩⟩

theorem creeping_limits (vel : Int) (flip : Fin 3 → Bool) : (creeping vel).FlippedLimits flip := by
  intro i _
  obtain ⟨cubic, hcubic⟩ := creeping_axes vel i
  rw [hcubic]
  exact ⟨le_rfl, le_rfl⟩

theorem creeping_active (vel : Int) : ((creeping vel).axes 0).flag.active = true := by
  obtain ⟨cubic, hcubic⟩ := creeping_axes vel 0
  rw [hcubic]

theorem creeping_ferror (vel pos : Int) :
    decide (max ((creeping vel).axes 0).speedLimit ((creeping vel).axes 0).minFerror <
      |((creeping vel).axes 0).posCmd - (((stoodAt pos).axis 0).motorPosFb - ((creeping vel).axes 0).motorOffset)|) =
    decide (max ((27486951 * vel).tdiv 1) 400 < |0 - (pos - 0)|) := by
  obtain ⟨cubic, hcubic⟩ := creeping_axes vel 0
  rw [hcubic]
  rfl

theorem creeping_tripsIn (vel pos : Int) : (creeping vel).tripsIn (stoodAt pos) 0 =
    decide (max ((27486951 * vel).tdiv 1) 400 < |0 - (pos - 0)|) := by
  obtain ⟨_, _, _, _, _, _, _, hinit⟩ := initMachine_eq (K := ℝ) 3
  have hmask : (creeping vel).status.overrideLimitMask = 0 := by
    unfold creeping
    rw [hinit]
    rfl
  obtain ⟨cubic, hcubic⟩ := creeping_axes vel 0
  have henable : ((creeping vel).axes 0).flag.enable = true := by
    rw [hcubic]
  unfold Machine.tripsIn axisTrips Status.posLimitOverride Status.negLimitOverride
  rw [sampled_flag (creeping_active vel), creeping_ferror, hmask, creeping_active, henable]
  simp [stoodAt]

theorem stoodAt_reflects (pos : Int) : (stoodAt pos).Reflects (fun _ => true) (stoodAt (-pos)) :=
  ⟨fun _ => ⟨rfl, rfl⟩, rfl⟩

/-- Two runs of cycles outside coordinated mode that start with some axes in opposite directions, the planners of these
having limits that are not negative, stay so and trip alike, if and only if none of these axes ever has a following
error between the limit at rest and the limit for its speed. -/
theorem free_runs_reflect_iff {flip : Fin 3 → Bool} {s t : ℕ → Machine ℝ} {inp inp' : ℕ → Inputs} {fuel fuel' : ℕ → Nat}
    (h : (s 0).Reflects flip (t 0)) (hno : (s 0).NoCoord) (hlimits : (s 0).FlippedLimits flip)
    (hinp : ∀ k, (inp k).Reflects flip (inp' k))
    (hs : ∀ k, emcmotController (s k) (inp k) motionThreadPeriod (fuel k) = some (s (k + 1)))
    (ht : ∀ k, emcmotController (t k) (inp' k) motionThreadPeriod (fuel' k) = some (t (k + 1))) :
    (∀ k, (s (k + 1)).Reflects flip (t (k + 1)) ∧ ∀ i, (t k).tripsIn (inp' k) i = (s k).tripsIn (inp k) i) ↔
      ∀ k, (s k).NoErrorBetween flip (inp k) := by
  have hkept : ∀ k, (s k).NoCoord ∧ (s k).FlippedLimits flip := by
    intro k
    induction k with
    | zero => exact ⟨hno, hlimits⟩
    | succ k ih => exact ⟨noCoord_cycle ih.1 (hs k), flippedLimits_cycle ih.1 ih.2 (hs k)⟩
  constructor
  · intro hreflects k
    have hstart : (s k).Reflects flip (t k) := by
      cases k with
      | zero => exact h
      | succ k => exact (hreflects k).1
    exact noErrorBetween_of_reflects hstart (hkept k).1 (hinp k) (hs k) (ht k) (hreflects k).1
  · intro herror
    have hreflects : ∀ k, (s k).Reflects flip (t k) := by
      intro k
      induction k with
      | zero => exact h
      | succ k ih => exact emcmotController_reflects ih (hkept k).1 (hinp k) (hkept k).2 (herror k) (hs k) (ht k)
    refine fun k => ⟨hreflects (k + 1), fun i => ?_⟩
    exact axisTrips_reflects ((sampled_reflects (hreflects k) (hinp k)
      (herror k) motionThreadPeriod).axes i) (hreflects k).mask i

theorem free_runs_reflect_iff_creeping : ∃ s t : ℕ → Machine ℝ, s 0 = creeping 1 ∧ t 0 = creeping (-1) ∧
    ((∀ k, (s (k + 1)).Reflects (fun _ => true) (t (k + 1)) ∧
        ∀ i, (t k).tripsIn (stoodAt (-500)) i = (s k).tripsIn (stoodAt 500) i) ↔
      ∀ k, (s k).NoErrorBetween (fun _ => true) (stoodAt 500)) := by
  obtain ⟨s, hs0, hs⟩ := freeRun_exists (creeping_noCoord 1) (stoodAt 500)
  obtain ⟨t, ht0, ht⟩ := freeRun_exists (creeping_noCoord (-1)) (stoodAt (-500))
  refine ⟨s, t, hs0, ht0, free_runs_reflect_iff ?_ ?_ ?_ (fun _ => stoodAt_reflects 500) hs ht⟩
  · rw [hs0, ht0]
    exact creeping_reflects 1
  · rw [hs0]
    exact creeping_noCoord 1
  · rw [hs0]
    exact creeping_limits 1 _

/-- An axis that creeps forwards half a thousand counts from its command is fine, and trips when it creeps backwards. -/
theorem free_run_unlike : ∃ s t : Machine ℝ,
    (creeping 1).Reflects (fun _ => true) (creeping (-1)) ∧ (stoodAt 500).Reflects (fun _ => true) (stoodAt (-500)) ∧
    emcmotController (creeping 1) (stoodAt 500) motionThreadPeriod 1 = some s ∧
    emcmotController (creeping (-1)) (stoodAt (-500)) motionThreadPeriod 1 = some t ∧
    (s.axes 0).flag.ferror = false ∧ (t.axes 0).flag.ferror = true ∧
    (creeping 1).tripsIn (stoodAt 500) 0 = false ∧ (creeping (-1)).tripsIn (stoodAt (-500)) 0 = true := by
  have hcycle : ∀ (vel : Int) (inp : Inputs), ∃ w,
      emcmotController (creeping vel) inp motionThreadPeriod 1 = some w := by
    intro vel inp
    obtain ⟨u, hu0, hu⟩ := freeRun_exists (creeping_noCoord vel) inp
    exact ⟨u 1, hu0 ▸ hu 0⟩
  obtain ⟨s, hs⟩ := hcycle 1 (stoodAt 500)
  obtain ⟨t, ht⟩ := hcycle (-1) (stoodAt (-500))
  refine ⟨s, t, creeping_reflects 1, stoodAt_reflects 500, hs, ht, ?_, ?_, ?_, ?_⟩
  · exact (emcmotController_ferror (creeping_noCoord 1) (creeping_active 1) hs).trans
      ((creeping_ferror 1 500).trans (by decide))
  · exact (emcmotController_ferror (creeping_noCoord (-1)) (creeping_active (-1)) ht).trans
      ((creeping_ferror (-1) (-500)).trans (by decide))
  · exact (creeping_tripsIn 1 500).trans (by decide)
  · exact (creeping_tripsIn (-1) (-500)).trans (by decide)

end SoemMotion
