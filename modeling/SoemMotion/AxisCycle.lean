import SoemMotion.FaultStop

/-!
# What a cycle does to an axis

Every axis goes through the front of a cycle, which samples its inputs and may put its planner at the commanded position
or stop it (`AxisFront`), and then through the planning of the mode the cycle is in.
-/

namespace SoemMotion

variable {K : Type} [Arith K]

/-! ### The front -/

/-- What `check_for_faults` and `set_operating_mode` may do to an axis. -/
structure AxisFront (a b : Axis K) : Prop where
  posCmd : b.posCmd = a.posCmd
  phl : b.flag.phl = a.flag.phl
  nhl : b.flag.nhl = a.flag.nhl
  vel : b.freeTp.vel = a.freeTp.vel
  acc : b.freeTp.acc = a.freeTp.acc
  target : b.freeTp.posCmd = a.freeTp.posCmd
  enable : b.freeTp.enable = true → a.freeTp.enable = true
  currPos : b.freeTp.currPos = a.freeTp.currPos ∨ b.freeTp.currPos = a.posCmd
  currVel : b.freeTp.currVel = a.freeTp.currVel ∨ b.freeTp.currVel = 0

omit [Arith K] in
theorem AxisFront.refl (a : Axis K) : AxisFront a a := ⟨rfl, rfl, rfl, rfl, rfl, rfl, id, .inl rfl, .inl rfl⟩

omit [Arith K] in
theorem AxisFront.trans {a b c : Axis K} (h : AxisFront a b) (h' : AxisFront b c) : AxisFront a c where
  posCmd := h'.posCmd.trans h.posCmd
  phl := h'.phl.trans h.phl
  nhl := h'.nhl.trans h.nhl
  vel := h'.vel.trans h.vel
  acc := h'.acc.trans h.acc
  target := h'.target.trans h.target
  enable := fun he => h.enable (h'.enable he)
  currPos := by
    rcases h'.currPos with h1 | h1
    · rw [h1]
      exact h.currPos
    · exact .inr (h1.trans h.posCmd)
  currVel := by
    rcases h'.currVel with h1 | h1
    · rw [h1]
      exact h.currVel
    · exact .inr h1

omit [Arith K] in
theorem checkForFaults_front (s : Machine K) (i : Fin 3) : AxisFront (s.axes i) ((checkForFaults s).axes i) := by
  show AxisFront (s.axes i) (if _ then _ else _)
  split
  · exact ⟨rfl, rfl, rfl, rfl, rfl, rfl, id, .inl rfl, .inl rfl⟩
  · exact .refl _

theorem disableMotion_front (s : Machine K) (i : Fin 3) : AxisFront (s.axes i) ((disableMotion s).axes i) := by
  have hflag : ∀ axis : Axis K, (disableAxis axis).flag.phl = axis.flag.phl ∧
      (disableAxis axis).flag.nhl = axis.flag.nhl := by
    intro axis
    unfold disableAxis
    dsimp only
    split <;> exact ⟨rfl, rfl⟩
  unfold disableMotion
  split
  · obtain ⟨hphl, hnhl⟩ := hflag (s.axes i)
    exact ⟨rfl, hphl, hnhl, rfl, rfl, rfl, (fun h => by cases h), .inl rfl, .inr rfl⟩
  · exact .refl _

/-- The rest of `set_operating_mode` leaves the velocity of the planner alone. -/
theorem enterModes_front (s : Machine K) (i : Fin 3) :
    AxisFront (s.axes i) ((enterFree (enterCoord (enableMotion s))).axes i) ∧
      ((enterFree (enterCoord (enableMotion s))).axes i).freeTp.currVel = (s.axes i).freeTp.currVel := by
  have h1 : AxisFront (s.axes i) ((enableMotion s).axes i) ∧
      ((enableMotion s).axes i).freeTp.currVel = (s.axes i).freeTp.currVel := by
    unfold enableMotion
    split
    · exact ⟨⟨rfl, rfl, rfl, rfl, rfl, rfl, id, .inr rfl, .inl rfl⟩, rfl⟩
    · exact ⟨.refl _, rfl⟩
  have h2 : ∀ u : Machine K, AxisFront (u.axes i) ((enterCoord u).axes i) ∧
      ((enterCoord u).axes i).freeTp.currVel = (u.axes i).freeTp.currVel := by
    intro u
    unfold enterCoord
    split
    · split
      · exact ⟨⟨rfl, rfl, rfl, rfl, rfl, rfl, id, .inl rfl, .inl rfl⟩, rfl⟩
      · exact ⟨.refl _, rfl⟩
    · exact ⟨.refl _, rfl⟩
  have h3 : ∀ u : Machine K, AxisFront (u.axes i) ((enterFree u).axes i) ∧
      ((enterFree u).axes i).freeTp.currVel = (u.axes i).freeTp.currVel := by
    intro u
    unfold enterFree
    split
    · split
      · exact ⟨⟨rfl, rfl, rfl, rfl, rfl, rfl, (fun h => by cases h), .inr rfl, .inl rfl⟩, rfl⟩
      · exact ⟨.refl _, rfl⟩
    · exact ⟨.refl _, rfl⟩
  obtain ⟨hf1, hv1⟩ := h1
  obtain ⟨hf2, hv2⟩ := h2 (enableMotion s)
  obtain ⟨hf3, hv3⟩ := h3 (enterCoord (enableMotion s))
  exact ⟨(hf1.trans hf2).trans hf3, (hv3.trans hv2).trans hv1⟩

/-- An axis of which the inputs have been sampled keeps its planner and its position. -/
theorem processAxisInputs_planner (axis : Axis K) (inp : AxisInput) :
    (processAxisInputs axis inp).freeTp = axis.freeTp ∧ (processAxisInputs axis inp).posCmd = axis.posCmd := by
  unfold processAxisInputs
  split <;> exact ⟨rfl, rfl⟩

/-- The axis after the front of a cycle. -/
theorem controllerFront_axis (s : Machine K) (inp : Inputs) (period : Int) (i : Fin 3) :
    ∃ cubic, AxisFront (processAxisInputs { s.axes i with cubic := cubic } (inp.axis i))
      ((controllerFront s inp period).axes i) := by
  obtain ⟨cubic, hsampled⟩ := sampled_axes s inp period i
  refine ⟨cubic, ?_⟩
  rw [← hsampled]
  exact ((checkForFaults_front (sampled s inp period) i).trans (disableMotion_front _ i)).trans (enterModes_front _ i).1

/-- The planner after the front of a cycle. -/
theorem controllerFront_freeTp (s : Machine K) (inp : Inputs) (period : Int) (i : Fin 3) :
    AxisFront { s.axes i with flag := ((controllerFront s inp period).axes i).flag }
      ((controllerFront s inp period).axes i) := by
  obtain ⟨cubic, h⟩ := controllerFront_axis s inp period i
  obtain ⟨htp, hpos⟩ := processAxisInputs_planner { s.axes i with cubic := cubic } (inp.axis i)
  refine ⟨h.posCmd.trans hpos, rfl, rfl, h.vel.trans (by rw [htp]), h.acc.trans (by rw [htp]),
    h.target.trans (by rw [htp]), fun he => ?_, ?_, ?_⟩
  · have := h.enable he
    rwa [htp] at this
  · have := h.currPos
    rwa [htp, hpos] at this
  · have := h.currVel
    rwa [htp] at this

/-- The front of a cycle in which motion is enabled leaves the velocity of the planner alone. -/
theorem controllerFront_currVel {s : Machine K} {inp : Inputs} {period : Int}
    (h : (controllerFront s inp period).status.motionState ≠ .disabled) (i : Fin 3) :
    ((controllerFront s inp period).axes i).freeTp.currVel = (s.axes i).freeTp.currVel := by
  have hen : (checkForFaults (sampled s inp period)).internal.enabling = true := by
    by_contra hne
    apply h
    have hstop : (controllerFront s inp period).Stopped := by
      rw [controllerFront_stopped]
      have he : (sampled s inp period).internal.enabling = s.internal.enabling :=
        congrArg Modes.enabling (sampled_modes s inp period)
      rw [checkForFaults_enabling, he, Bool.and_eq_true, not_and_or, Bool.not_eq_true, Bool.not_eq_true,
        Bool.not_eq_false'] at hne
      exact hne
    exact hstop.2.2
  have hkeep := disableMotion_idle hen
  have hfaults : ((checkForFaults (sampled s inp period)).axes i).freeTp = ((sampled s inp period).axes i).freeTp := by
    show (if _ then _ else _ : Axis K).freeTp = _
    split <;> rfl
  obtain ⟨cubic, hsampled⟩ := sampled_axes s inp period i
  show ((enterFree (enterCoord (enableMotion
      (disableMotion (checkForFaults (sampled s inp period)))))).axes i).freeTp.currVel = _
  rw [hkeep, (enterModes_front _ i).2, hfaults, hsampled, (processAxisInputs_planner _ _).1]

/-! ### The whole cycle -/

/-- A cycle in free mode ends with the planning of free mode. -/
theorem emcmotController_free {s t : Machine K} {inp : Inputs} {period : Int} {fuel : Nat}
    (h : emcmotController s inp period fuel = some t) (hst : t.status.motionState = .free) (i : Fin 3) :
    ∃ pos, t.axes i = { freeAxisCycle ((controllerFront s inp period).axes i)
      (controllerFront s inp period).status.maxacc (controllerFront s inp period).servoPeriod with
        motorPosCmd := pos } := by
  have hfront : (controllerFront s inp period).status.motionState = .free := (emcmotController_modes h).2.symm.trans hst
  unfold emcmotController getPosCmds planPositions at h
  rw [hfront] at h
  cases h
  exact cycleEnd_axes (freeCycle (controllerFront s inp period)) inp i

/-- A cycle in free mode ends in position if no axis is moving. -/
theorem emcmotController_free_inpos {s t : Machine K} {inp : Inputs} {period : Int} {fuel : Nat}
    (h : emcmotController s inp period fuel = some t) (hst : t.status.motionState = .free) :
    t.status.motionFlag.inpos = !freeMoving t.axes := by
  have hfront : (controllerFront s inp period).status.motionState = .free := (emcmotController_modes h).2.symm.trans hst
  have hmoving : freeMoving (fun i => freeAxisCycle ((controllerFront s inp period).axes i)
      (controllerFront s inp period).status.maxacc (controllerFront s inp period).servoPeriod) = freeMoving t.axes := by
    unfold freeMoving
    congr 1
    refine propext (exists_congr fun i => ?_)
    obtain ⟨pos, hpos⟩ := emcmotController_free h hst i
    rw [hpos]
  rw [← hmoving]
  unfold emcmotController getPosCmds planPositions at h
  rw [hfront] at h
  cases h
  exact checkSoftLimits_inpos (freeCycle (controllerFront s inp period))

/-- The planning of a mode leaves the limit-switch bits of an axis alone. -/
theorem planPositions_switches {s t : Machine K} {inp : Inputs} {fuel : Nat} (h : planPositions inp fuel s = some t)
    (i : Fin 3) : (t.axes i).flag.phl = (s.axes i).flag.phl ∧ (t.axes i).flag.nhl = (s.axes i).flag.nhl := by
  have hfree : ∀ (axis : Axis K) (maxacc servoPeriod : Int),
      (freeAxisCycle axis maxacc servoPeriod).flag.phl = axis.flag.phl ∧
        (freeAxisCycle axis maxacc servoPeriod).flag.nhl = axis.flag.nhl := by
    intro axis maxacc servoPeriod
    unfold freeAxisCycle
    split <;> exact ⟨rfl, rfl⟩
  have hkept : KeptByPlanning inp fun u : Machine K =>
      (u.axes i).flag.phl = (s.axes i).flag.phl ∧ (u.axes i).flag.nhl = (s.axes i).flag.nhl := by
    constructor
    case free => exact fun u h => ⟨(hfree _ _ _).1.trans h.1, (hfree _ _ _).2.trans h.2⟩
    case feed =>
      intro u h
      rw [coordFeed_flag]
      exact h
    case finish =>
      intro u h
      show (interpolateAxis (u.axes i)).flag.phl = _ ∧ (interpolateAxis (u.axes i)).flag.nhl = _
      rw [interpolateAxis_flag]
      exact h
    all_goals exact fun _ h => h
  exact hkept.planPositions ⟨rfl, rfl⟩ h

/-- An active axis has the limit-switch bits of the last cycle. -/
theorem emcmotController_switches {s t : Machine K} {inp : Inputs} {period : Int} {fuel : Nat}
    (h : emcmotController s inp period fuel = some t) {i : Fin 3} (hactive : (s.axes i).flag.active = true) :
    (t.axes i).flag.phl = (inp.axis i).posLimSw ∧ (t.axes i).flag.nhl = (inp.axis i).negLimSw := by
  obtain ⟨cubic, hfront⟩ := controllerFront_axis s inp period i
  have hsampled : (processAxisInputs { s.axes i with cubic := cubic } (inp.axis i)).flag.phl = (inp.axis i).posLimSw ∧
      (processAxisInputs { s.axes i with cubic := cubic } (inp.axis i)).flag.nhl = (inp.axis i).negLimSw := by
    unfold processAxisInputs
    rw [hactive]
    exact ⟨rfl, rfl⟩
  obtain ⟨u, hu, rfl⟩ := Option.map_eq_some_iff.1 h
  obtain ⟨v, hv, rfl⟩ := Option.map_eq_some_iff.1 hu
  obtain ⟨hphl, hnhl⟩ := planPositions_switches hv i
  obtain ⟨pos, hout⟩ := cycleEnd_axes v inp i
  rw [hout, hphl, hnhl, hfront.phl, hfront.nhl]
  exact hsampled

end SoemMotion
