import SoemMotion.CoordCycle
import SoemMotion.Startup

/-!
# Coordinated mode from the network

The machine that the network brings into coordinated mode: all axes active and at rest at zero, nothing queued; and what
one line does to it.
-/

namespace SoemMotion

variable {K : Type} [Arith K]

/-! ### The planner with an empty queue -/

/-- Nothing is queued, and no abort is under way. -/
structure Tp.Idle (tp : Tp K) : Prop where
  len : tp.queue.len = 0
  aborting : tp.aborting = false
  termCond : tp.termCond = .tangent
  synchronized : tp.synchronized = .none

theorem tpRunCycle_empty {tp : Tp K} (h : tp.queue.len = 0) (env : TpEnv K) :
    tpRunCycle env tp = tpHandleEmptyQueue env (tpUpdateInitialStatus tp) := by
  have hhead : tcqItem tp.queue 0 = none := by
    unfold tcqItem
    rw [if_pos (.inr (by omega))]
  unfold tpRunCycle tpRunSegment
  rw [hhead]

theorem Tp.Idle.setPos {tp : Tp K} (h : tp.Idle) (pos : EmcPose K) : (tpSetPos tp pos).Idle := by
  obtain ⟨current, goal, heq⟩ := tpSetPos_eq tp pos
  rw [heq]
  exact ⟨h.len, h.aborting, h.termCond, h.synchronized⟩

theorem idle_plannerInvariant : PlannerInvariant (K := K) Tp.Idle where
  cycleTime _ _ h := ⟨h.len, h.aborting, h.termCond, h.synchronized⟩
  setPos _ pos h := h.setPos pos
  clear _ h := ⟨rfl, rfl, h.termCond, rfl⟩
  cycle env tp h := by
    rw [tpRunCycle_empty h.len]
    exact ⟨rfl, rfl, h.termCond, h.synchronized⟩
  pause _ h := ⟨h.len, h.aborting, h.termCond, h.synchronized⟩

theorem initTp_idle : (initTp : Tp ℝ).Idle := by
  refine Tp.Idle.setPos ?_ emcPoseZero
  unfold tpSetCycleTime
  rw [if_pos le_rfl]
  exact ⟨rfl, rfl, rfl, rfl⟩

/-! ### Cycles -/

omit [Arith K] in
theorem updatePeriod_timed {s : Machine ℝ} {i : Fin 3} (h : (s.axes i).cubic.timed = (s.axes i).cubic) :
    ((updatePeriod s motionThreadPeriod).axes i).cubic = (s.axes i).cubic := by
  rw [updatePeriod_thread]
  split
  · rfl
  · exact h

/-- An active axis at the end of a coordinated cycle: it has taken the point, and is where its interpolator starts the
new segment. -/
theorem coordResult_axis {inp : Inputs} {s : Machine ℝ} {i : Fin 3} (hactive : (s.axes i).flag.active = true)
    (hready : (s.axes i).cubic.Ready) : ∃ point : Int,
      point = positions (calledPlanner inp s).currentPos i ∧ ((coordResult inp s).axes i).cubic.Ready ∧
      ((coordResult inp s).axes i).posCmd = truncReal (wayPoint ((s.axes i).cubic.shift point).x0
        ((s.axes i).cubic.shift point).x1 ((s.axes i).cubic.shift point).x2) ∧
      ((coordResult inp s).axes i).cubic.filled = true ∧
      ((coordResult inp s).axes i).cubic.x1 = ((s.axes i).cubic.shift point).x1 ∧
      ((coordResult inp s).axes i).cubic.x2 = ((s.axes i).cubic.shift point).x2 ∧
      ((coordResult inp s).axes i).cubic.x3 = ((s.axes i).cubic.shift point).x3 := by
  obtain ⟨pos, haxis⟩ := coordResult_axes inp s i
  have hfeed : interpolateAxis (feedAxis (s.axes i) (positions (calledPlanner inp s).currentPos i)) =
      { feedAxis (s.axes i) (positions (calledPlanner inp s).currentPos i) with
        cubic := (cubicInterpolate (cubicAddPoint (s.axes i).cubic
          ((positions (calledPlanner inp s).currentPos i : Int) : ℝ))).1
        posCmd := truncReal (cubicInterpolate (cubicAddPoint (s.axes i).cubic
          ((positions (calledPlanner inp s).currentPos i : Int) : ℝ))).2.pos
        velCmd := truncReal ((cubicInterpolate (cubicAddPoint (s.axes i).cubic
          ((positions (calledPlanner inp s).currentPos i : Int) : ℝ))).2.vel.getD 0)
        accCmd := truncReal ((cubicInterpolate (cubicAddPoint (s.axes i).cubic
          ((positions (calledPlanner inp s).currentPos i : Int) : ℝ))).2.acc.getD 0) } := by
    unfold interpolateAxis
    rw [feedAxis_flag, hactive]
    unfold feedAxis
    rw [hactive]
    rfl
  obtain ⟨hready', hpos, hfilled, -, hx1, hx2, hx3⟩ :=
    cubicInterpolate_added hready ((positions (calledPlanner inp s).currentPos i : Int) : ℝ)
  rw [haxis, hfeed]
  refine ⟨_, rfl, hready', ?_, ?_, hx1, hx2, hx3⟩
  · exact congrArg truncReal hpos
  · rw [hfilled]
    unfold Cubic.shift
    split <;> trivial

/-! ### Starting -/

/-- All axes made active, axis 0 configured as for free mode, and motion and coordinated mode requested. -/
def coordRequests : List Request :=
  [.enable 0 true, .enable 1 true, .enable 2 true, .downloadsConfig 0 0 0 10 100 1 9 (-5), .plain .motionEnable 0,
    .plain .setCoord 0]

theorem coordRequests_encodable : ∀ r ∈ coordRequests, r.Encodable := by
  intro r hr
  simp only [coordRequests, List.mem_cons, List.not_mem_nil, or_false] at hr
  rcases hr with rfl | rfl | rfl | rfl | rfl | rfl
  all_goals refine ⟨by decide, by decide, ?_⟩
  all_goals intro code axis h
  all_goals cases h
  all_goals rfl

theorem initMachine_lastPeriod (numAxes : Int) : (initMachine numAxes : Machine K).lastPeriod = 0 := by
  have hservo : ∀ (s : Machine K) (secs : K), (setServoCycleTime s secs).lastPeriod = s.lastPeriod := by
    intro s secs
    unfold setServoCycleTime
    split <;> rfl
  have htraj : ∀ (s : Machine K) (secs : K), (setTrajCycleTime s secs).lastPeriod = s.lastPeriod := by
    intro s secs
    unfold setTrajCycleTime
    split <;> rfl
  unfold initMachine
  rw [htraj, hservo]
  rfl

/-- Before the cycle that enters coordinated mode. -/
structure CoordRequested (s : Machine ℝ) : Prop where
  modes : s.modes = { enabling := true, freeing := false, coordinating := true, enable := false, free := false,
                      coord := false, axisEnable := fun _ => true, axisActive := fun _ => true }
  inpos : s.status.motionFlag.inpos = true
  pose : s.status.cartePosCmd = emcPoseZero
  idle : s.internal.coordTp.Idle
  command : s.command.spindlesync = 0 ∧ s.command.maxvel = 10 ∧ s.command.maxacc = 100
  noFault : s.hal.enable = true ∧ s.config.numMiscError = 0
  lastPeriod : s.lastPeriod = 0
  axis : ∀ i, (s.axes i).posCmd = 0 ∧ (s.axes i).motorOffset = 0 ∧ (s.axes i).minFerror = 400

theorem coordRequests_run (numAxes : Int) : ∃ s, (initMachine numAxes : Machine ℝ).serveAll coordRequests = some s ∧
    CoordRequested s ∧ s.config.numAxes = numAxes := by
  obtain ⟨_, _, _, _, _, _, lastPeriod, h⟩ := initMachine_eq (K := ℝ) numAxes
  have hlast : lastPeriod = 0 := (congrArg Machine.lastPeriod h).symm.trans (initMachine_lastPeriod numAxes)
  rw [h]
  refine ⟨_, rfl, ⟨?_, rfl, rfl, ?_, ⟨rfl, rfl, rfl⟩, ⟨rfl, rfl⟩, hlast, ?_⟩, rfl⟩
  · refine congrArg₂ (Modes.mk true false true false false false) (funext fun i => ?_) (funext fun i => ?_)
    · fin_cases i <;> rfl
    · fin_cases i <;> rfl
  · have hinit := initTp_idle
    exact ⟨hinit.len, hinit.aborting, hinit.termCond, hinit.synchronized⟩
  · intro i
    fin_cases i <;> exact ⟨rfl, rfl, rfl⟩

theorem axesTran_zero {axes : Fin 3 → Axis ℝ} (h : ∀ i, (axes i).posCmd = 0) : axesTran axes = ⟨0, 0, 0⟩ := by
  simp [axesTran, PmCartesian.ofFn, h]

/-- The planner when coordinated mode is entered together with the enabling of motion, at zero. -/
theorem enterCoord_position {s : Machine ℝ} (hen : s.internal.enabling = true)
    (henable : s.status.motionFlag.enable = false) (hreq : s.internal.coordinating = true)
    (hcoord : s.status.motionFlag.coord = false) (hin : s.status.motionFlag.inpos = true)
    (hpose : s.status.cartePosCmd = emcPoseZero) :
    (setOperatingMode s).internal.coordTp.currentPos = emcPoseZero ∧
      (setOperatingMode s).internal.coordTp.goalPos = emcPoseZero := by
  have h1 : disableMotion s = s := disableMotion_idle hen
  have h2 : (enableMotion s).internal.coordinating = true ∧ (enableMotion s).status.motionFlag.coord = false ∧
      (enableMotion s).status.motionFlag.inpos = true ∧ (enableMotion s).status.cartePosCmd = emcPoseZero ∧
      ∀ n, ((enableMotion s).axisArray n).extOffsetTp.currPos = 0 := by
    unfold enableMotion
    rw [hen, henable]
    exact ⟨hreq, hcoord, hin, hpose, fun _ => rfl⟩
  have htran : axisApplyExtOffsetsToCartePos (enableMotion s).axisArray (-1) (emcPoseZero : EmcPose ℝ).tran =
      ⟨0, 0, 0⟩ := by
    simp [axisApplyExtOffsetsToCartePos, PmCartesian.ofFn, PmCartesian.get, emcPoseZero, h2.2.2.2.2]
  have h3 : (enterCoord (enableMotion s)).internal.coordTp.currentPos = emcPoseZero ∧
      (enterCoord (enableMotion s)).internal.coordTp.goalPos = emcPoseZero := by
    unfold enterCoord
    rw [h2.1, h2.2.1, h2.2.2.1, h2.2.2.2.1, htran]
    exact ⟨rfl, rfl⟩
  show (enterFree (enterCoord (enableMotion (disableMotion s)))).internal.coordTp.currentPos = _ ∧
    (enterFree (enterCoord (enableMotion (disableMotion s)))).internal.coordTp.goalPos = _
  rw [enterFree_internal, h1]
  exact h3

theorem CoordRequested.front_position {s : Machine ℝ} (hs : CoordRequested s) {inp : Inputs}
    (hfault : faultFound (sampled s inp motionThreadPeriod) = false) :
    (controllerFront s inp motionThreadPeriod).internal.coordTp.currentPos = emcPoseZero ∧
      (controllerFront s inp motionThreadPeriod).internal.coordTp.goalPos = emcPoseZero := by
  have hmodes := (sampled_modes s inp motionThreadPeriod).trans hs.modes
  have hflag := sampled_motionFlag s inp motionThreadPeriod
  have hen : (checkForFaults (sampled s inp motionThreadPeriod)).internal.enabling = true := by
    rw [checkForFaults_enabling, hfault]
    exact congrArg (· && true) (congrArg Modes.enabling hmodes)
  have hpose : (sampled s inp motionThreadPeriod).status.cartePosCmd = emcPoseZero := by
    unfold sampled
    rw [processInputs_status]
    show ({ (updatePeriod s motionThreadPeriod).status.cartePosCmd with
      tran := axesTran (updatePeriod s motionThreadPeriod).axes } : EmcPose ℝ) = _
    obtain ⟨_, _, _, _, _, _, _, hperiod⟩ := updatePeriod_eq s motionThreadPeriod
    rw [hperiod]
    show ({ s.status.cartePosCmd with tran := axesTran s.axes } : EmcPose ℝ) = _
    rw [hs.pose, axesTran_zero fun i => (hs.axis i).1]
    rfl
  refine enterCoord_position hen ?_ ?_ ?_ ?_ hpose
  · exact (congrArg MotionFlag.enable hflag).trans (congrArg Modes.enable hs.modes)
  · exact congrArg Modes.coordinating hmodes
  · exact (congrArg MotionFlag.coord hflag).trans (congrArg Modes.coord hs.modes)
  · exact (congrArg MotionFlag.inpos hflag).trans hs.inpos

/-- A fault-free cycle in coordinated mode in which axis 0 is active and asks for a point. -/
theorem coordCycle_exists {s : Machine ℝ} {inp : Inputs} (hen : s.internal.enabling = true)
    (hfault : faultFound (sampled s inp motionThreadPeriod) = false)
    (hcoord : s.status.motionFlag.coord = true ∨ s.internal.coordinating = true ∧ s.status.motionFlag.inpos = true)
    (hactive : (s.axes 0).flag.active = true)
    (hready : ((controllerFront s inp motionThreadPeriod).axes 0).cubic.Ready) : ∃ fuel t,
      emcmotController s inp motionThreadPeriod fuel = some t ∧
      (controllerFront s inp motionThreadPeriod).status.motionState = .coord ∧
      t = coordResult inp (controllerFront s inp motionThreadPeriod) := by
  have hseen : ¬ FaultSeen s inp := fun h => by
    rw [(faultFound_sampled s inp motionThreadPeriod).2 h] at hfault
    cases hfault
  have hstate := (coordCycle_iff s inp motionThreadPeriod).2 ⟨hen, hseen, hcoord⟩
  have htakes : (coordBegin (controllerFront s inp motionThreadPeriod)).TakesPoint :=
    ⟨((controllerFront_cycleKeeps s inp motionThreadPeriod).axis 0).active.trans hactive, hready.allSet⟩
  obtain ⟨fuel, t, ht⟩ := (emcmotController_completes_iff s inp motionThreadPeriod).2 fun _ =>
    (coordLoop_exits_iff inp _).2 (.inr htakes)
  exact ⟨fuel, t, ht, hstate, emcmotController_coord hstate hready.need htakes ht⟩

/-- A machine in coordinated mode, all axes active, commanded to zero and asking for a point. -/
structure CoordRunning (s : Machine ℝ) : Prop where
  motionState : s.status.motionState = .coord
  modes : s.internal.enabling = true ∧ s.status.motionFlag.enable = true ∧ s.status.motionFlag.coord = true
  noFault : s.hal.enable = true ∧ s.config.numMiscError = 0
  axis : ∀ i, (s.axes i).flag.active = true ∧ (s.axes i).posCmd = 0 ∧ (s.axes i).motorOffset = 0 ∧
    (s.axes i).minFerror = 400
  ready : ∀ i, (s.axes i).cubic.Ready

/-- Such a machine at rest: the points of the interpolators are zero as well. -/
structure CoordRest (s : Machine ℝ) : Prop extends CoordRunning s where
  pose : s.commandedPose = emcPoseZero
  points : ∀ i, (s.axes i).cubic.filled = true ∧ (s.axes i).cubic.x1 = 0 ∧ (s.axes i).cubic.x2 = 0 ∧
    (s.axes i).cubic.x3 = 0

/-- Such a machine with nothing queued. -/
structure CoordStart (s : Machine ℝ) : Prop extends CoordRest s where
  idle : s.internal.coordTp.Idle
  goalPos : s.internal.coordTp.goalPos = emcPoseZero
  command : s.command.spindlesync = 0 ∧ s.command.maxvel = 10 ∧ s.command.maxacc = 100

theorem truncReal_zero : truncReal 0 = 0 := by exact_mod_cast truncReal_intCast 0

theorem positions_zero (i : Fin 3) : positions (emcPoseZero : EmcPose ℝ) i = 0 := by
  fin_cases i <;> exact truncReal_zero

/-- A coordinated cycle with nothing queued leaves the planner where it is. -/
theorem calledPlanner_empty (inp : Inputs) {s : Machine K} (h : s.internal.coordTp.queue.len = 0) :
    (calledPlanner inp s).currentPos = s.internal.coordTp.currentPos ∧
      (calledPlanner inp s).goalPos = s.internal.coordTp.currentPos := by
  unfold calledPlanner
  rw [tpRunCycle_empty h]
  exact ⟨rfl, rfl⟩

/-- The commanded pose after a coordinated cycle: the axes as they are, the rest from the planner. -/
theorem coordResult_pose (inp : Inputs) (s : Machine K) : (coordResult inp s).commandedPose =
    { (calledPlanner inp s).currentPos with tran := axesTran (coordResult inp s).axes } := by
  have hpose : ∀ u : Machine K, (checkSoftLimits u).status.cartePosCmd = u.status.cartePosCmd := by
    intro u
    obtain ⟨error, onSoftLimit, h⟩ := checkSoftLimits_eq u
    rw [h]
  unfold Machine.commandedPose
  have h : (coordResult inp s).status.cartePosCmd = (coordEnd (coordFeed inp (coordBegin s))).status.cartePosCmd :=
    hpose _
  rw [h]
  rfl

/-- The network brings about such a machine with the given limit switches. -/
theorem coordStart_exists (numAxes : Int) (neg : Fin 3 → Bool) : ∃ s, NetReachable numAxes s ∧ ¬ s.Pending ∧
    CoordStart s ∧ s.config.numAxes = numAxes ∧
    ∀ i, (s.axes i).flag.phl = false ∧ (s.axes i).flag.nhl = neg i := by
  obtain ⟨s, hrun, hs, hnum⟩ := coordRequests_run numAxes
  obtain ⟨hnet, hidle⟩ :=
    serveAll_netReachable coordRequests_encodable (Lib.Reaches.refl _) (initMachine_idle numAxes) hrun
  have hen : s.internal.enabling = true := congrArg Modes.enabling hs.modes
  have hactive : ∀ i, (s.axes i).flag.active = true := fun i => congrFun (congrArg Modes.axisActive hs.modes) i
  have hmachine : ¬ MachineFault s := by
    rintro ⟨h, -⟩
    rw [show s.status.motionFlag.enable = false from congrArg Modes.enable hs.modes] at h
    cases h
  have hfault := switchInputs_noFault hnet.reachable.noOverride hmachine
    (fun i _ => ⟨near_of_zero (hs.axis i).1, (hs.axis i).2⟩) (fun _ => false) neg
  have hcubic : ∀ i, ((controllerFront s (switchInputs (fun _ => false) neg) motionThreadPeriod).axes i).cubic =
      cubicDrain (s.axes i).cubic.timed := by
    intro i
    have hreq : s.internal.coordinating = true := congrArg Modes.coordinating hs.modes
    have hcoord : s.status.motionFlag.coord = false := congrArg Modes.coord hs.modes
    rw [controllerFront_cubic hen hfault, updatePeriod_thread, hs.lastPeriod, hreq, hcoord, hs.inpos]
    rfl
  have hready : ∀ i, ((controllerFront s
      (switchInputs (fun _ => false) neg) motionThreadPeriod).axes i).cubic.Ready := by
    intro i
    rw [hcubic i]
    exact ⟨rfl, rfl⟩
  -- the axes are in position, so the first cycle enters coordinated mode
  obtain ⟨fuel, t, ht, hstate, heq⟩ :=
    coordCycle_exists hen hfault (.inr ⟨congrArg Modes.coordinating hs.modes, hs.inpos⟩) (hactive 0) (hready 0)
  obtain ⟨hnet', hidle'⟩ := cycle_netReachable hnet hidle ht
  have hkeep := emcmotController_cycleKeeps ht
  have hempty := (controllerFront_planner idle_plannerInvariant hs.idle (switchInputs (fun _ => false) neg)
    motionThreadPeriod).len
  obtain ⟨hcurr, hgoal⟩ := calledPlanner_empty (switchInputs (fun _ => false) neg) hempty
  rw [(hs.front_position hfault).1] at hcurr hgoal
  have haxis : ∀ i, (t.axes i).posCmd = 0 ∧ (t.axes i).cubic.Ready ∧ (t.axes i).cubic.filled = true ∧
      (t.axes i).cubic.x1 = 0 ∧ (t.axes i).cubic.x2 = 0 ∧ (t.axes i).cubic.x3 = 0 := by
    intro i
    have hfactive := ((controllerFront_cycleKeeps s (switchInputs (fun _ => false) neg) motionThreadPeriod).axis
      i).active.trans (hactive i)
    obtain ⟨point, hpoint, hready', hpos, hfilled, hx⟩ := coordResult_axis hfactive (hready i)
    rw [hcurr, positions_zero] at hpoint
    rw [hcubic i, hpoint, Int.cast_zero] at hpos hx
    rw [heq]
    refine ⟨?_, hready', hfilled, hx⟩
    rw [hpos]
    show truncReal (wayPoint 0 0 0) = 0
    unfold wayPoint
    norm_num [truncReal_zero]
  have hmodes : t.modes = Modes.next { s.modes with enabling := true } s.status.motionFlag.inpos := by
    rw [(emcmotController_modes ht).1, controllerFront_modes, hen, hfault]
    rfl
  rw [hs.modes, hs.inpos] at hmodes
  refine ⟨t, hnet', hidle', ?_, hkeep.numAxes.trans hnum, fun i => emcmotController_switches ht (hactive i)⟩
  refine ⟨⟨⟨(emcmotController_modes ht).2.trans hstate, ⟨congrArg Modes.enabling hmodes, congrArg Modes.enable hmodes,
    congrArg Modes.coord hmodes⟩, ?_, ?_, fun i => (haxis i).2.1⟩, ?_, fun i => (haxis i).2.2⟩,
    emcmotController_planner idle_plannerInvariant hs.idle ht, ?_, ?_⟩
  · exact ⟨hkeep.halEnable.trans hs.noFault.1, hkeep.numMiscError.trans hs.noFault.2⟩
  · intro i
    exact ⟨(hkeep.axis i).active.trans (hactive i), (haxis i).1, (hkeep.axis i).motorOffset.trans (hs.axis i).2.1,
      (hkeep.axis i).minFerror.trans (hs.axis i).2.2⟩
  · have htran := axesTran_zero fun i => (haxis i).1
    rw [heq] at htran ⊢
    rw [coordResult_pose, hcurr, htran]
    rfl
  · rw [heq]
    rcases coordResult_planner (switchInputs (fun _ => false) neg)
      (controllerFront s (switchInputs (fun _ => false) neg) motionThreadPeriod) with h | h
    · rw [h, hgoal]
    · rw [h]
      exact hgoal
  · rw [hkeep.command]
    exact hs.command

/-! ### A line for an empty queue -/

omit [Arith K] in
theorem tcqPut_empty {α : Type} {q : Tcq α} (hw : q.WF) (h : q.len = 0) (tc : α) :
    ∃ q', tcqPut q tc = some q' ∧ tcqItem q' 0 = some tc ∧ q'.len = 1 := by
  have hroom : q.allFull = false := by
    by_contra hfull
    have hlen := hw.full_iff.1 (Bool.eq_true_of_not_eq_false hfull)
    have := hw.start_lt
    omega
  obtain ⟨q', hput⟩ : ∃ q', tcqPut q tc = some q' := by
    unfold tcqPut
    rw [hroom]
    exact ⟨_, rfl⟩
  have hlen : q'.len = 1 := by
    have := (tcqPut_wf hw hput).2.2
    omega
  refine ⟨q', hput, ?_, hlen⟩
  rw [tcqPut_item hw hput, h]
  simp

theorem tpRunOptimization_single (env : TpEnv K) {tp : Tp K} (h : tp.queue.len = 1) :
    tpRunOptimization env tp = tp := by
  unfold tpRunOptimization
  cases (env.arcBlendOptDepth + 1).toNat with
  | zero => rfl
  | succ n =>
    have hprev : tcqItem tp.queue (tcqLen tp.queue - 1 - 1) = none := by
      unfold tcqItem tcqLen
      rw [if_pos (.inl (by omega))]
    unfold tpOptimizeFrom
    dsimp only
    rw [hprev]
    split
    · rename_i heq
      cases heq
    · rfl

/-- An empty queue takes every segment. -/
theorem tpQueueSegment_idle {tp : Tp K} (hs : tp.Sound) (h : tp.Idle) (env : TpEnv K) (tc : Tc K) : ∃ tp',
    tpQueueSegment env tp tc = (tp', .ok) ∧ tcqItem tp'.queue 0 = some { tc with id := tp.nextId } ∧
      tp'.queue.len = 1 ∧ tp'.aborting = false ∧
      tp'.goalPos = tcGetEndpoint { tc with id := tp.nextId } tp.goalPos := by
  obtain ⟨q, hput, hitem, hlen⟩ := tcqPut_empty hs.wf h.len { tc with id := tp.nextId }
  have hlast : tcqLast tp.queue = none := by
    unfold tcqLast
    rw [if_pos h.len]
  unfold tpQueueSegment tpJoinLast
  rw [hlast]
  dsimp only
  rw [tpAddSegmentToQueue_put hput]
  dsimp only
  rw [tpRunOptimization_single env hlen]
  exact ⟨_, rfl, hitem, hlen, h.aborting, rfl⟩

/-- The line as an empty queue takes it. -/
def queuedLine (tp : Tp K) (seg : Tc K) (indexerJnum : Int) : Tc K :=
  { tcClampVelocityByLength { seg with nominalLength := seg.target } with
    indexerJnum := indexerJnum, id := tp.nextId }

theorem tpAddLine_idle {tp : Tp K} (hs : tp.Sound) (h : tp.Idle) {stop : EmcPose K} {canonMotionType : Int}
    {vel iniMaxvel acc : K} {enables : UInt8} {atspeed : Bool} {seg : Tc K}
    (hseg : tpLineSegment tp stop canonMotionType vel iniMaxvel acc enables atspeed = seg)
    (hlen : ¬ seg.target < tpPosEpsilon) (env : TpEnv K) (indexerJnum : Int) : ∃ tp',
      tpAddLine env tp stop canonMotionType vel iniMaxvel acc enables atspeed indexerJnum = (tp', .ok) ∧
      tcqItem tp'.queue 0 = some (queuedLine tp seg indexerJnum) ∧ tp'.queue.len = 1 ∧ tp'.aborting = false ∧
      tp'.goalPos = tcGetEndpoint (queuedLine tp seg indexerJnum) tp.goalPos := by
  unfold tpAddLine
  rw [if_neg (by rw [h.aborting]; simp)]
  dsimp only
  rw [hseg, if_neg hlen]
  exact tpQueueSegment_idle hs h env _

/-! ### A line from the network -/

/-- A line along the first axis. -/
def lineRequest (x : Int) : Request := .setLine 0 0 5 7 0 0 (fun i => if i = 0 then x else 0) fun _ => false

/-- A line parallel to the first axis. -/
theorem pmCartLineInit_parallelX {x : ℝ} (hx : 1 ≤ x) {a b : PmCartesian ℝ} (hd : pmCartCartSub b a = ⟨x, 0, 0⟩) :
    pmCartLineInit a b = { start := a, «end» := b, uVec := ⟨1, 0, 0⟩, tmag := x, tmagZero := false } := by
  have hpos : 0 < x := by linarith
  have hmag : pmSqrt (pmSq x + pmSq 0 + pmSq 0) = x := by
    have hsq : pmSq x + pmSq 0 + pmSq (0 : ℝ) = x ^ 2 := by
      unfold pmSq
      ring
    unfold pmSqrt
    rw [hsq, if_pos (by positivity), sqrt_real, Real.sqrt_sq hpos.le]
  have hnorm : ¬ fabs (pmCartInfNorm (⟨x, 0, 0⟩ : PmCartesian ℝ)) < cartFuzz := by
    unfold pmCartInfNorm cartFuzz
    rw [fabs_real, fabs_real, fabs_real, fmax_real, fmax_real, abs_zero, max_self, max_eq_left (abs_nonneg x), abs_abs,
      abs_of_pos hpos, not_lt]
    norm_num
    linarith
  have hunit : pmCartUnit (⟨x, 0, 0⟩ : PmCartesian ℝ) = ⟨1, 0, 0⟩ := by
    unfold pmCartUnit
    dsimp only
    rw [hmag, beq_real, decide_eq_false hpos.ne', if_neg Bool.false_ne_true, div_self hpos.ne', zero_div]
  unfold pmCartLineInit
  rw [hd]
  dsimp only
  rw [if_neg hnorm, hunit]
  unfold pmCartMag
  rw [hmag]

theorem pmCartLineInit_alongX {x : ℝ} (hx : 1 ≤ x) : pmCartLineInit ⟨0, 0, 0⟩ (⟨x, 0, 0⟩ : PmCartesian ℝ) =
    { start := ⟨0, 0, 0⟩, «end» := ⟨x, 0, 0⟩, uVec := ⟨1, 0, 0⟩, tmag := x, tmagZero := false } :=
  pmCartLineInit_parallelX hx (by simp [pmCartCartSub])

/-- A line from zero along the first axis that has not been started. -/
structure FreshLine (x : Int) (tc : Tc ℝ) : Prop where
  xyz : ∃ abc uvw, tc.coords = .line ⟨⟨⟨0, 0, 0⟩, ⟨x, 0, 0⟩, ⟨1, 0, 0⟩, x, false⟩, abc, uvw⟩
  target : tc.target = x
  rest : tc.progress = 0 ∧ tc.currentvel = 0
  flags : tc.active = false ∧ tc.splitting = false ∧ tc.remove = false
  termCond : tc.termCond = .tangent
  synchronized : tc.synchronized = .none

/-- The length of a segment parallel to the first axis. -/
theorem parallelLine_target {tp : Tp ℝ} {stop : EmcPose ℝ} {x : ℝ} (hx : 1 ≤ x)
    (hd : pmCartCartSub stop.tran tp.goalPos.tran = ⟨x, 0, 0⟩) (canonMotionType : Int) (vel iniMaxvel acc : ℝ)
    (enables : UInt8) (atspeed : Bool) :
    (tpLineSegment tp stop canonMotionType vel iniMaxvel acc enables atspeed).target = x := by
  show pmLine9Target (pmLine9Init tp.goalPos stop) = x
  unfold pmLine9Target pmLine9Init
  rw [pmCartLineInit_parallelX hx hd]
  rfl

/-- The segment of the line, built by an idle planner at zero. -/
theorem freshLine_queued {tp : Tp ℝ} (h : tp.Idle) (hgoal : tp.goalPos = emcPoseZero) {x : Int} (hx : 1 ≤ x)
    {stop : EmcPose ℝ} (hstop : stop.tran = ⟨x, 0, 0⟩) (canonMotionType : Int) (vel iniMaxvel acc : ℝ) (enables : UInt8)
    (atspeed : Bool) (indexerJnum : Int) : FreshLine x (queuedLine tp
    (tpLineSegment tp stop canonMotionType vel iniMaxvel acc enables atspeed) indexerJnum) := by
  have hx' : (1 : ℝ) ≤ (x : ℝ) := by exact_mod_cast hx
  have hd : pmCartCartSub stop.tran tp.goalPos.tran = ⟨x, 0, 0⟩ := by
    rw [hgoal, hstop]
    simp [pmCartCartSub, emcPoseZero]
  have hline := pmCartLineInit_parallelX hx' hd
  have htarget := parallelLine_target hx' hd canonMotionType vel iniMaxvel acc enables atspeed
  have hcoords : pmLine9Init tp.goalPos stop = ⟨⟨⟨0, 0, 0⟩, ⟨x, 0, 0⟩, ⟨1, 0, 0⟩, x, false⟩,
      pmCartLineInit (emcPoseAbc tp.goalPos) (emcPoseAbc stop),
      pmCartLineInit (emcPoseUvw tp.goalPos) (emcPoseUvw stop)⟩ := by
    unfold pmLine9Init
    rw [hline, hgoal, hstop]
    rfl
  exact ⟨⟨_, _, congrArg Coords.line hcoords⟩, htarget, ⟨rfl, rfl⟩, ⟨rfl, rfl, rfl⟩, h.termCond, h.synchronized⟩

/-- A commanded line parallel to the first axis becomes the head of an empty queue. -/
theorem addCommandedLine_idle {s : Machine ℝ} (hsound : s.internal.coordTp.Sound) (hidle : s.internal.coordTp.Idle)
    {x : ℝ} (hx : 1 ≤ x) (hd : pmCartCartSub (lineEnd s).tran s.internal.coordTp.goalPos.tran = ⟨x, 0, 0⟩) : ∃ u tp,
      s.internal.coordTp.SameCore u ∧ u.Idle ∧ addCommandedLine s = (tp, .ok) ∧ tp.queue.len = 1 ∧
      tp.aborting = false ∧ tcqItem tp.queue 0 = some (queuedLine u (tpLineSegment u (lineEnd s) s.command.motionType
        (s.command.vel : ℝ) (s.command.maxvel : ℝ) (s.command.acc : ℝ) s.status.enablesNew false) s.command.turn) := by
  obtain ⟨u, hu⟩ : ∃ u : Tp ℝ, u = tpSetVlimit (tpSetId s.internal.coordTp s.command.id) (s.config.limitVel : ℝ) :=
    ⟨_, rfl⟩
  have hcore : s.internal.coordTp.SameCore u := by
    rw [hu]
    exact (tpSetId_spec _ _).1.trans (tpSetVlimit_sameCore _ _)
  have hidle' : u.Idle := by
    have hset : ∀ (tp : Tp ℝ) (id : Int), tp.Idle → (tpSetId tp id).Idle := by
      intro tp id h
      unfold tpSetId
      split
      · exact h
      · exact ⟨h.len, h.aborting, h.termCond, h.synchronized⟩
    have h := hset s.internal.coordTp s.command.id hidle
    rw [hu]
    exact ⟨h.len, h.aborting, h.termCond, h.synchronized⟩
  rw [← hcore.goalPos] at hd
  have htarget := parallelLine_target hx hd s.command.motionType (s.command.vel : ℝ) (s.command.maxvel : ℝ)
    (s.command.acc : ℝ) s.status.enablesNew false
  obtain ⟨tp, hadd, hitem, hlen, habort, -⟩ := tpAddLine_idle (hsound.of_sameCore hcore) hidle' rfl
    (by rw [htarget]; exact not_lt.2 hx) s.handlerEnv s.command.turn
  refine ⟨u, tp, hcore, hidle', ?_, hlen, habort, hitem⟩
  unfold addCommandedLine
  rw [← hu]
  exact hadd

/-- Such a machine in which the line is all that is queued. -/
structure LineQueued (x : Int) (s : Machine ℝ) : Prop extends CoordRest s where
  aborting : s.internal.coordTp.aborting = false
  len : s.internal.coordTp.queue.len = 1
  line : ∃ tc, tcqItem s.internal.coordTp.queue 0 = some tc ∧ FreshLine x tc

omit [Arith K] in
theorem requestPoint_of_need {axis : Axis K} (h : axis.cubic.needNextPoint = true) : axis.requestPoint = axis := by
  unfold Axis.requestPoint
  rw [← h]

/-- A line the planner accepts, while axis 0 asks for a point already. -/
theorem appendLine_ok {s : Machine K} {tp : Tp K} (hadd : addCommandedLine s = (tp, .ok))
    (hneed : (s.axes 0).cubic.needNextPoint = true) : ∃ pos, appendLine s = { s with
      command := { s.command with pos := pos }
      internal := { s.internal with coordTp := tpSetSpindleSync tp s.command.spindle s.command.spindlesync false } } := by
  refine ⟨lineEnd s, ?_⟩
  have haxes : (fun j => if j = 0 then Axis.requestPoint (s.axes j) else s.axes j) = s.axes := by
    funext j
    by_cases hj : j = 0
    · rw [if_pos hj, hj, requestPoint_of_need hneed]
    · rw [if_neg hj]
  unfold appendLine
  rw [hadd]
  dsimp only
  rw [if_neg (by decide)]
  unfold Machine.updateAxis Machine.setTp
  dsimp only
  rw [haxes]

omit [Arith K] in
/-- A move that is refused, or that the planner does not take, is answered with an error. -/
theorem coordMoveRefused_status {s t : Machine K} (h : coordMoveRefused s = some t) : t.status.commandStatus ≠ .ok := by
  obtain ⟨status, tp, hstatus, -, rfl⟩ := coordMoveRefused_cases h
  exact hstatus

theorem appendLine_failed {s : Machine K} (h : (addCommandedLine s).2.code < 0) :
    (appendLine s).status.commandStatus ≠ .ok := by
  unfold appendLine
  dsimp only
  rw [if_pos h]
  exact CmdStatus.noConfusion

omit [Arith K] in
theorem limitsOk_of_clear {s : Machine K} (h : ∀ i, (s.axes i).flag.phl = false ∧ (s.axes i).flag.nhl = false) :
    limitsOk s = true := by
  unfold limitsOk
  rw [Bool.not_eq_true', decide_eq_false_iff_not]
  rintro ⟨i, -, -, hswitch⟩
  rw [(h i).1, (h i).2] at hswitch
  simp at hswitch

/-- A line from the network is accepted if no configured axis is on a limit switch. -/
theorem CoordStart.serve_line {s : Machine ℝ} (hs : CoordStart s) (hsound : s.internal.coordTp.Sound)
    (hlimits : limitsOk s = true) {x : Int} (hx : 1 ≤ x) : ∃ t, s.serve (lineRequest x) = some t ∧
      t.status.commandStatus = .ok ∧ LineQueued x t := by
  obtain ⟨v, hv⟩ : ∃ v : Machine ℝ, v = Machine.echo { s with command := (lineRequest x).command s.command } := ⟨_, rfl⟩
  have hserve : s.serve (lineRequest x) = some (setLine v) := by
    rw [hv]
    rfl
  have hflag : v.status.motionFlag = s.status.motionFlag := by rw [hv]; rfl
  have hinternal : v.internal = s.internal := by rw [hv]; rfl
  have haxes : v.axes = s.axes := by rw [hv]; rfl
  have hrefused : coordMoveRefused v = none := by
    have hlimits' : limitsOk v = true := by
      rw [hv]
      exact hlimits
    unfold coordMoveRefused
    rw [hflag, hs.modes.2.1, hs.modes.2.2, hlimits']
    rfl
  have hstop : (lineEnd v).tran = ⟨x, 0, 0⟩ := by
    rw [hv]
    show (⟨((x : Int) : ℝ), ((0 : Int) : ℝ), ((0 : Int) : ℝ)⟩ : PmCartesian ℝ) = _
    rw [Int.cast_zero]
  have hd : pmCartCartSub (lineEnd v).tran v.internal.coordTp.goalPos.tran = ⟨x, 0, 0⟩ := by
    rw [hstop, hinternal, hs.goalPos]
    simp [pmCartCartSub, emcPoseZero]
  -- an idle planner, so the line becomes the head of its queue
  obtain ⟨u, tp, hcore, hidle, haddv, hqlen, habort, hitem⟩ := addCommandedLine_idle (s := v)
    (by rw [hinternal]; exact hsound) (by rw [hinternal]; exact hs.idle) (by exact_mod_cast hx) hd
  have hfresh := freshLine_queued hidle (hcore.goalPos.trans (by rw [hinternal]; exact hs.goalPos)) hx hstop
    v.command.motionType (v.command.vel : ℝ) (v.command.maxvel : ℝ) (v.command.acc : ℝ) v.status.enablesNew false
    v.command.turn
  obtain ⟨pos, happend⟩ := appendLine_ok haddv (by rw [haxes]; exact (hs.ready 0).need)
  have hline : setLine v = appendLine v := by
    unfold setLine
    rw [hrefused]
    rfl
  have hsync : v.command.spindlesync = 0 := by
    rw [hv]
    exact hs.command.1
  refine ⟨setLine v, hserve, ?_, ?_⟩
  · rw [hline, happend, hv]
    rfl
  · rw [hline, happend, hsync]
    have hset : tpSetSpindleSync tp v.command.spindle 0 false = { tp with synchronized := .none } := by
      unfold tpSetSpindleSync
      rw [if_pos (by simp)]
    rw [hset]
    refine ⟨⟨⟨?_, ?_, ?_, ?_, ?_⟩, ?_, ?_⟩, habort, hqlen, _, hitem, hfresh⟩
    · rw [hv]
      exact hs.motionState
    · rw [hv]
      exact hs.modes
    · rw [hv]
      exact hs.noFault
    · rw [hv]
      exact hs.axis
    · rw [hv]
      exact hs.ready
    · rw [hv]
      exact hs.pose
    · rw [hv]
      exact hs.points

theorem lineRequest_encodable {x : Int} (hx : IsInt32 x) : (lineRequest x).Encodable := by
  refine ⟨by show (0 : Nat) < 65536; norm_num, ?_, fun _ _ h => by cases h⟩
  intro p hp
  have hcases : p = x ∨ p = 0 ∨ p = 5 ∨ p = 7 := by
    simp only [Request.params, lineRequest] at hp
    simp at hp
    omega
  rcases hcases with rfl | rfl | rfl | rfl
  · exact hx
  all_goals decide

/-- The network queues such a line: one frame and one call of the handler. -/
structure LineServed (numAxes x : Int) (s u t : Machine ℝ) : Prop where
  net : NetReachable numAxes s
  start : CoordStart s
  frame : processFrame s (lineRequest x).encode.frame = some u
  pending : u.Pending
  command : u.command = (lineRequest x).command s.command
  handle : emcmotCommandHandler u false = some t
  accepted : t.status.commandStatus = .ok
  reached : NetReachable numAxes t
  idle : ¬ t.Pending
  queued : LineQueued x t

theorem lineServed_exists (numAxes : Int) {x : Int} (hx : 1 ≤ x) (h32 : IsInt32 x) :
    ∃ s u t, LineServed numAxes x s u t := by
  obtain ⟨s, hnet, hidle, hs, -, hflags⟩ := coordStart_exists numAxes fun _ => false
  have hlimits := limitsOk_of_clear hflags
  obtain ⟨t, hserve, hok, ht⟩ := hs.serve_line hnet.reachable.sound hlimits hx
  obtain ⟨u, hpub, hnew, hh, -⟩ := serve_steps hidle hserve
  obtain ⟨hnet', hidle'⟩ := serve_netReachable hnet hidle (lineRequest_encodable h32) hserve
  have hframe := (processFrame_encode (lineRequest_encodable h32) s).trans hpub
  exact ⟨s, u, t, hnet, hs, hframe, hnew, (publish_spec hpub).2.2.2, hh, hok, hnet', hidle', ht⟩

/-! ### The next cycle -/

/-- The front of the next cycle. -/
theorem CoordRunning.front {s : Machine ℝ} (hs : CoordRunning s) (hmask : s.NoOverride) (pos neg : Fin 3 → Bool) :
    faultFound (sampled s (switchInputs pos neg) motionThreadPeriod) = false ∧
    (controllerFront s (switchInputs pos neg) motionThreadPeriod).status.motionState = .coord ∧
    (∀ i, ((controllerFront s (switchInputs pos neg) motionThreadPeriod).axes i).cubic = (s.axes i).cubic) ∧
    (∀ i, ((controllerFront s (switchInputs pos neg) motionThreadPeriod).axes i).flag.active = true) ∧
    ∃ secs, (controllerFront s (switchInputs pos neg) motionThreadPeriod).internal.coordTp =
      tpSetPos { s.internal.coordTp with cycleTime := secs } s.commandedPose := by
  have hmachine : ¬ MachineFault s := by
    rintro ⟨-, h | ⟨n, -⟩⟩
    · rw [hs.noFault.1] at h
      cases h
    · have hlt := n.isLt
      have hnum := hs.noFault.2
      omega
  have hfault := switchInputs_noFault hmask hmachine
    (fun i _ => ⟨near_of_zero (hs.axis i).2.1, (hs.axis i).2.2⟩) pos neg
  have hseen : ¬ FaultSeen s (switchInputs pos neg) := fun h => by
    rw [(faultFound_sampled s _ motionThreadPeriod).2 h] at hfault
    cases hfault
  have hstate := (coordCycle_iff s (switchInputs pos neg) motionThreadPeriod).2 ⟨hs.modes.1, hseen, .inl hs.modes.2.2⟩
  refine ⟨hfault, hstate, ?_, ?_, ?_⟩
  · intro i
    rw [controllerFront_cubic hs.modes.1 hfault, hs.modes.2.2, updatePeriod_timed (hs.ready i).timed]
    simp
  · intro i
    exact ((controllerFront_cycleKeeps s _ motionThreadPeriod).axis i).active.trans (hs.axis i).1
  · obtain ⟨secs, hsampled⟩ := sampled_planner s (switchInputs pos neg) motionThreadPeriod
    refine ⟨secs, ?_⟩
    rw [controllerFront_coordTp hs.modes.2.1 hs.modes.2.2, hs.modes.1, hfault, hsampled]
    rfl

/-- From rest, one cycle leaves the axes where they are, whatever the planner does. -/
theorem CoordRest.cycle {s : Machine ℝ} (hs : CoordRest s) (hmask : s.NoOverride) (pos neg : Fin 3 → Bool) :
    ∃ fuel t, emcmotController s (switchInputs pos neg) motionThreadPeriod fuel = some t ∧
      t = coordResult (switchInputs pos neg) (controllerFront s (switchInputs pos neg) motionThreadPeriod) ∧
      CoordRunning t := by
  obtain ⟨hfault, hstate, hcubic, hactive, -⟩ := hs.front hmask pos neg
  have hready : ∀ i, ((controllerFront s (switchInputs pos neg) motionThreadPeriod).axes i).cubic.Ready := by
    intro i
    rw [hcubic i]
    exact hs.ready i
  obtain ⟨fuel, t, ht, -, heq⟩ := coordCycle_exists hs.modes.1 hfault (.inl hs.modes.2.2) (hs.axis 0).1 (hready 0)
  have hkeep := emcmotController_cycleKeeps ht
  have hmodes : t.modes = Modes.next { s.modes with enabling := true } s.status.motionFlag.inpos := by
    rw [(emcmotController_modes ht).1, controllerFront_modes, hs.modes.1, hfault]
    rfl
  have hcoord : t.status.motionFlag.coord = true := by
    refine (congrArg Modes.coord hmodes).trans ?_
    show (s.status.motionFlag.coord || _) = true
    rw [hs.modes.2.2]
    rfl
  refine ⟨fuel, t, ht, heq, (emcmotController_modes ht).2.trans hstate, ⟨congrArg Modes.enabling hmodes,
    congrArg Modes.enable hmodes, hcoord⟩, ⟨hkeep.halEnable.trans hs.noFault.1,
    hkeep.numMiscError.trans hs.noFault.2⟩, ?_, ?_⟩
  · intro i
    obtain ⟨point, -, -, hpos, -⟩ := coordResult_axis (hactive i) (hready i)
    obtain ⟨hfilled, h1, h2, h3⟩ := hs.points i
    refine ⟨(hkeep.axis i).active.trans (hs.axis i).1, ?_, (hkeep.axis i).motorOffset.trans (hs.axis i).2.2.1,
      (hkeep.axis i).minFerror.trans (hs.axis i).2.2.2⟩
    rw [heq, hpos, hcubic i]
    unfold Cubic.shift
    rw [if_pos hfilled, h1, h2, h3]
    unfold wayPoint
    norm_num [truncReal_zero]
  · intro i
    obtain ⟨point, -, hready', -⟩ := coordResult_axis (hactive i) (hready i)
    rw [heq]
    exact hready'

end SoemMotion
