import SoemMotion.JogFidelity
import SoemMotion.LineCycle
import SoemMotion.PlannerSettings
import SoemMotion.QueuePath

/-!
# Coordinated moves

A single line from rest.  Every cycle puts the planner at the commanded position of the axes, and the interpolators hold
that position back: after the first cycle of the line it is still the start.  So from its second cycle on the planner is
not at the point the line has come to, unless the line has not moved at all.
-/

namespace SoemMotion

/-! ### At rest in coordinated mode -/

/-- The point the axes rest at. -/
noncomputable def restPoint (c : Fin 3 → Int) : PmCartesian ℝ := PmCartesian.ofFn fun i => (c i : ℝ)

/-- In coordinated mode, all axes active, commanded to `c` and asking for a point. -/
structure CoordStill (c : Fin 3 → Int) (s : Machine ℝ) : Prop where
  motionState : s.status.motionState = .coord
  enabling : s.internal.enabling = true
  axis : ∀ i, (s.axes i).flag.active = true ∧ (s.axes i).posCmd = c i ∧ (s.axes i).cubic.needNextPoint = true

/-- The interpolators hold no other point. -/
structure CoordAtRest (c : Fin 3 → Int) (s : Machine ℝ) : Prop extends CoordStill c s where
  points : ∀ i, (s.axes i).cubic.filled = true ∧ (s.axes i).cubic.x1 = c i ∧ (s.axes i).cubic.x2 = c i ∧
    (s.axes i).cubic.x3 = c i

/-- Nothing is queued, and the planner rests there too. -/
structure CoordIdle (c : Fin 3 → Int) (s : Machine ℝ) : Prop extends CoordAtRest c s where
  empty : s.internal.coordTp.queue.len = 0
  goalPos : s.internal.coordTp.goalPos.tran = restPoint c

theorem positions_restPoint {c : Fin 3 → Int} {pos : EmcPose ℝ} (h : pos.tran = restPoint c) (i : Fin 3) :
    positions pos i = c i := by
  unfold positions
  rw [h]
  fin_cases i <;> exact truncReal_intCast _

/-! ### A cycle -/

/-- The front of a cycle without fault: the planner is put where the axes are. -/
theorem CoordStill.front {numAxes : Int} {c : Fin 3 → Int} {s : Machine ℝ} (hs : CoordStill c s)
    (hnet : NetReachable numAxes s) {inp : Inputs} (hfault : ¬ FaultSeen s inp) :
    (controllerFront s inp motionThreadPeriod).status.motionState = .coord ∧
    (∀ i, ((controllerFront s inp motionThreadPeriod).axes i).cubic =
    ((updatePeriod s motionThreadPeriod).axes i).cubic ∧
      ((controllerFront s inp motionThreadPeriod).axes i).cubic.Ready) ∧
    (controllerFront s inp motionThreadPeriod).internal.coordTp =
      { s.internal.coordTp with currentPos := s.commandedPose, goalPos := s.commandedPose } := by
  have hin := hnet.reachable.inCoord hs.motionState
  have hfound : faultFound (sampled s inp motionThreadPeriod) = false := by
    rw [← Bool.not_eq_true, faultFound_sampled]
    exact hfault
  have hcoord := (coordCycle_iff s inp motionThreadPeriod).2 ⟨hs.enabling, hfault, .inl hin.coord⟩
  refine ⟨hcoord, ?_, ?_⟩
  · intro i
    have hcubic : ((controllerFront s inp motionThreadPeriod).axes i).cubic =
        ((updatePeriod s motionThreadPeriod).axes i).cubic := by
      rw [controllerFront_cubic hs.enabling hfound, hin.coord]
      simp
    rw [hcubic]
    exact ⟨rfl, hnet.reachable.timely.updatePeriod i, (updatePeriod_needNextPoint s _ i).trans (hs.axis i).2.2⟩
  · obtain ⟨secs, hplanner⟩ := InCoord.front hin hcoord
    have hplain := controllerFront_plain hnet.plain.planner inp
    rw [hplanner] at hplain ⊢
    have hsecs : secs = s.internal.coordTp.cycleTime := hplain.cycleTime.trans hnet.plain.planner.cycleTime.symm
    rw [hsecs]
    rfl

/-- What such a cycle leaves of the interpolators: the points move up by one. -/
theorem CoordStill.cycle {numAxes : Int} {c : Fin 3 → Int} {s t : Machine ℝ} (hs : CoordStill c s)
    (hnet : NetReachable numAxes s) {inp : Inputs} (hfault : ¬ FaultSeen s inp) {fuel : Nat}
    (h : emcmotController s inp motionThreadPeriod fuel = some t) :
    t = coordResult inp (controllerFront s inp motionThreadPeriod) ∧ t.status.motionState = .coord ∧
    t.internal.enabling = true ∧ ∀ i, (t.axes i).flag.active = true ∧ (t.axes i).cubic.needNextPoint = true ∧
      (t.axes i).cubic.filled = true ∧
      ((s.axes i).cubic.filled = true →
        (t.axes i).posCmd =
          truncReal (wayPoint (s.axes i).cubic.x1 (s.axes i).cubic.x2 (s.axes i).cubic.x3) ∧
        (t.axes i).cubic.x1 = (s.axes i).cubic.x2 ∧ (t.axes i).cubic.x2 = (s.axes i).cubic.x3 ∧
        (t.axes i).cubic.x3 =
          (positions (calledPlanner inp (controllerFront s inp motionThreadPeriod)).currentPos i : Int)) := by
  obtain ⟨hcoord, hcubic, -⟩ := hs.front hnet hfault
  have hactive : ∀ i, ((controllerFront s inp motionThreadPeriod).axes i).flag.active = true := fun i =>
    ((controllerFront_cycleKeeps s inp motionThreadPeriod).axis i).active.trans (hs.axis i).1
  have heq := emcmotController_coord hcoord (hcubic 0).2.need ⟨hactive 0, (hcubic 0).2.allSet⟩ h
  have hkeep := emcmotController_cycleKeeps h
  refine ⟨heq, (emcmotController_modes h).2.trans hcoord, ?_, ?_⟩
  · have hmodes := (emcmotController_modes h).1
    rw [controllerFront_modes] at hmodes
    have hen := congrArg Modes.enabling hmodes
    have hfound : faultFound (sampled s inp motionThreadPeriod) = false := by
      rw [← Bool.not_eq_true, faultFound_sampled]
      exact hfault
    rw [hfound, hs.enabling] at hen
    exact hen
  · intro i
    -- a new period does not touch the points of a cubic
    have hpoints : ((updatePeriod s motionThreadPeriod).axes i).cubic.filled = (s.axes i).cubic.filled ∧
        ((updatePeriod s motionThreadPeriod).axes i).cubic.x1 = (s.axes i).cubic.x1 ∧
        ((updatePeriod s motionThreadPeriod).axes i).cubic.x2 = (s.axes i).cubic.x2 ∧
        ((updatePeriod s motionThreadPeriod).axes i).cubic.x3 = (s.axes i).cubic.x3 := by
      rw [updatePeriod_thread]
      split <;> exact ⟨rfl, rfl, rfl, rfl⟩
    obtain ⟨point, hpoint, hready, hpos, hfilled, hx1, hx2, hx3⟩ :=
      @coordResult_axis inp _ _ (hactive i) (hcubic i).2
    refine ⟨(hkeep.axis i).active.trans (hs.axis i).1, ?_⟩
    rw [heq]
    refine ⟨hready.need, hfilled, ?_⟩
    intro hf
    rw [hpos, hx1, hx2, hx3, (hcubic i).1, ← hpoint]
    unfold Cubic.shift
    rw [hpoints.1, if_pos hf]
    dsimp only
    rw [hpoints.2.1, hpoints.2.2.1, hpoints.2.2.2]
    exact ⟨rfl, rfl, rfl, rfl⟩

/-- From rest a cycle leaves the axes where they are, and at rest if the planner is there. -/
theorem CoordAtRest.cycle {numAxes : Int} {c : Fin 3 → Int} {s t : Machine ℝ} (hs : CoordAtRest c s)
    (hnet : NetReachable numAxes s) {inp : Inputs} (hfault : ¬ FaultSeen s inp) {fuel : Nat}
    (h : emcmotController s inp motionThreadPeriod fuel = some t) :
    CoordStill c t ∧ (t.internal.coordTp.currentPos.tran = restPoint c → CoordAtRest c t) := by
  obtain ⟨heq, hcoord, hen, haxis⟩ := hs.toCoordStill.cycle hnet hfault h
  have hstill : CoordStill c t := by
    refine ⟨hcoord, hen, fun i => ?_⟩
    obtain ⟨hactive, hneed, -, hmoved⟩ := haxis i
    obtain ⟨hfilled, h1, h2, h3⟩ := hs.points i
    refine ⟨hactive, ?_, hneed⟩
    rw [(hmoved hfilled).1, h1, h2, h3]
    have hway : wayPoint (c i : ℝ) (c i) (c i) = (c i : ℝ) := by
      unfold wayPoint
      ring
    rw [hway, truncReal_intCast]
  refine ⟨hstill, fun hpos => ⟨hstill, fun i => ?_⟩⟩
  obtain ⟨-, -, hfilled, hmoved⟩ := haxis i
  obtain ⟨hf, h1, h2, h3⟩ := hs.points i
  obtain ⟨-, hx1, hx2, hx3⟩ := hmoved hf
  have hcalled : (calledPlanner inp (controllerFront s inp motionThreadPeriod)).currentPos =
      t.internal.coordTp.currentPos := by
    rw [heq]
    rcases coordResult_planner inp (controllerFront s inp motionThreadPeriod) with hp | hp
    · rw [hp]
    · rw [hp]
      rfl
  refine ⟨hfilled, hx1.trans h2, hx2.trans h3, ?_⟩
  rw [hx3, hcalled, positions_restPoint hpos]

/-! ### A cycle of a line -/

/-- The segment a cycle runs, as it leaves it. -/
def Machine.cycledSegment {K : Type} [Arith K] (s : Machine K) (inp : Inputs) : Option (Tc K) :=
  (tpRunSegment ((controllerFront s inp motionThreadPeriod).tpEnv inp.unlocked)
    (controllerFront s inp motionThreadPeriod).internal.coordTp).2

theorem cycledSegment_advances {s : Machine ℝ} {inp : Inputs} {tc : Tc ℝ} (h : s.cycledSegment inp = some tc) :
    (controllerFront s inp motionThreadPeriod).internal.coordTp.Advances
      (tpRunSegment ((controllerFront s inp motionThreadPeriod).tpEnv inp.unlocked)
        (controllerFront s inp motionThreadPeriod).internal.coordTp).1 ∧
    ∃ tc₀, tcqItem (controllerFront s inp motionThreadPeriod).internal.coordTp.queue 0 = some tc₀ ∧ tc₀.Same tc := by
  obtain ⟨hadvances, ⟨tc₀, hhead, hsame⟩, -⟩ := tpRunSegment_advances (Prod.ext rfl h)
  exact ⟨hadvances, tc₀, hhead, hsame.same⟩

/-- The only segment in the queue, when a cycle runs the planner. -/
theorem CoordStill.front_single {numAxes : Int} {c : Fin 3 → Int} {s : Machine ℝ} (hs : CoordStill c s)
    (hnet : NetReachable numAxes s) {inp : Inputs} (hfault : ¬ FaultSeen s inp) {tc : Tc ℝ}
    (h : s.internal.coordTp.Single tc) :
    (controllerFront s inp motionThreadPeriod).internal.coordTp.Single tc ∧
    (controllerFront s inp motionThreadPeriod).internal.coordTp.reverseRun = false := by
  obtain ⟨-, -, hplanner⟩ := hs.front hnet hfault
  rw [hplanner]
  exact ⟨h.congr rfl rfl, hnet.netState.sound.forward⟩

theorem coordResult_currentPos (inp : Inputs) (s : Machine ℝ) :
    (coordResult inp s).internal.coordTp.currentPos = (calledPlanner inp s).currentPos := by
  rcases coordResult_planner inp s with h | h
  · rw [h]
  · rw [h]
    rfl

/-- A cycle of the planner keeps its velocity limit and an abort; it may pause. -/
theorem CoordStill.cycle_planner {numAxes : Int} {c : Fin 3 → Int} {s t : Machine ℝ} (hs : CoordStill c s)
    (hnet : NetReachable numAxes s) {inp : Inputs} (hfault : ¬ FaultSeen s inp) {fuel : Nat}
    (h : emcmotController s inp motionThreadPeriod fuel = some t) {tc : Tc ℝ} (hrun : s.cycledSegment inp = some tc) :
    t.internal.coordTp.vLimit = s.internal.coordTp.vLimit ∧
    t.internal.coordTp.aborting = s.internal.coordTp.aborting ∧
    (s.internal.coordTp.pausing = true → t.internal.coordTp.pausing = true) := by
  obtain ⟨heq, -⟩ := hs.cycle hnet hfault h
  have hsound := controllerFront_planner sound_plannerInvariant hnet.netState.sound inp motionThreadPeriod
  have hids := controllerFront_planner idsZero_plannerInvariant hnet.netState.idsZero inp motionThreadPeriod
  have hcalled := (tpRunCycle_waiting
    ((controllerFront s inp motionThreadPeriod).tpEnv inp.unlocked) hsound hids hrun).1
  obtain ⟨hadvances, -⟩ := cycledSegment_advances hrun
  obtain ⟨u, q, ⟨_, _, _, _, _, _, rfl⟩, -, hadvanced⟩ := hadvances
  have hresult := coordResult_planner inp (controllerFront s inp motionThreadPeriod)
  unfold calledPlanner at hresult
  rw [← heq, hcalled, hadvanced, (hs.front hnet hfault).2.2] at hresult
  rcases hresult with ht | ht
  · rw [ht]
    exact ⟨rfl, rfl, id⟩
  · rw [ht]
    exact ⟨rfl, rfl, fun _ => rfl⟩

/-- A cycle with the line alone in the queue moves the planner from where the axes are by what the line has come. -/
theorem CoordStill.lineCycle {numAxes : Int} {c : Fin 3 → Int} {s t : Machine ℝ} (hs : CoordStill c s)
    (hnet : NetReachable numAxes s) {inp : Inputs} (hfault : ¬ FaultSeen s inp) {fuel : Nat}
    (h : emcmotController s inp motionThreadPeriod fuel = some t) {tc : Tc ℝ} {stop : PmCartesian ℝ}
    (hsingle : s.internal.coordTp.Single tc) (hline : tc.IsLine (restPoint c) stop) (hsync : tc.synchronized = .none) :
    ∃ tc', s.cycledSegment inp = some tc' ∧ t.internal.coordTp.Single tc' ∧ tc'.IsLine (restPoint c) stop ∧
      tc'.synchronized = .none ∧ t.internal.coordTp.currentPos.tran = pmCartCartAdd (restPoint c)
        (pmCartCartSub (linePoint (restPoint c) stop tc'.progress) (linePoint (restPoint c) stop tc.progress)) := by
  obtain ⟨heq, -⟩ := hs.cycle hnet hfault h
  obtain ⟨hfront, hforward⟩ := hs.front_single hnet hfault hsingle
  obtain ⟨tc', hrun, hsync', hpos⟩ := tpRunSegment_position
    ((controllerFront s inp motionThreadPeriod).tpEnv inp.unlocked) hforward hfront hsync
  have hsound := controllerFront_planner sound_plannerInvariant hnet.netState.sound inp motionThreadPeriod
  have hids := controllerFront_planner idsZero_plannerInvariant hnet.netState.idsZero inp motionThreadPeriod
  have hline' : tc'.IsLine (restPoint c) stop := by
    obtain ⟨-, ⟨tc₀, hhead, hsame⟩⟩ := cycledSegment_advances hrun
    rw [hfront.head] at hhead
    cases hhead
    exact hline.same hsame
  refine ⟨tc', hrun, ?_, hline', hsync', ?_⟩
  · rw [heq]
    exact coordResult_single (tpRunCycle_single hsound hids hfront hrun)
  · have hplanner := (tpRunCycle_waiting ((controllerFront s inp motionThreadPeriod).tpEnv inp.unlocked)
      hsound hids hrun).1
    rw [heq, coordResult_currentPos]
    unfold calledPlanner
    rw [hplanner, hpos, (hs.front hnet hfault).2.2]
    show pmCartCartAdd (axesTran s.axes) (pmCartCartSub (tcGetPos tc').tran (tcGetPos tc).tran) = _
    have haxes : axesTran s.axes = restPoint c := by
      refine congrArg PmCartesian.ofFn (funext fun i => ?_)
      rw [(hs.axis i).2.1]
    rw [haxes, hline'.position, hline.position]

/-! ### An accepted line -/

/-- The segment of a line, as an idle planner queues it. -/
theorem queuedLine_waits {tp : Tp ℝ} (h : tp.Idle) {stop : EmcPose ℝ} {acc : ℝ} (hacc : 0 < acc)
    (hlong : 1 ≤ lineLength tp.goalPos.tran stop.tran) (canonMotionType : Int) (vel iniMaxvel : ℝ) (enables : UInt8)
    (atspeed : Bool) (indexerJnum : Int) :
    ¬ (tpLineSegment tp stop canonMotionType vel iniMaxvel acc enables atspeed).target < tpPosEpsilon ∧
    (queuedLine tp (tpLineSegment tp stop canonMotionType vel iniMaxvel acc enables atspeed) indexerJnum).Waits
      tp.goalPos.tran stop.tran := by
  have htarget : (tpLineSegment tp stop canonMotionType vel iniMaxvel acc enables atspeed).target =
      lineLength tp.goalPos.tran stop.tran := (tpLineSegment_isLine hlong _ _ _ _ _ _).target
  refine ⟨?_, ⟨hlong, ⟨_, _, rfl⟩, htarget⟩, ⟨rfl, rfl, rfl, h.termCond, h.synchronized, rfl, rfl, rfl⟩, ?_⟩
  · rw [htarget]
    exact not_lt.2 hlong
  · show 0 < tcGetOverallMaxAccel (queuedLine tp _ indexerJnum)
    have hterm : (queuedLine tp (tpLineSegment tp stop canonMotionType vel iniMaxvel acc enables atspeed)
        indexerJnum).termCond = .tangent := h.termCond
    unfold tcGetOverallMaxAccel
    rw [hterm]
    show 0 < acc * (1 - fmax 0 0)
    rw [fmax_real, max_self, sub_zero, mul_one]
    exact hacc

/-- An accepted line from rest is alone in the queue, at its start, and the axes stay at rest. -/
theorem CoordIdle.setLine {numAxes : Int} {c : Fin 3 → Int} {s t : Machine ℝ} (hs : CoordIdle c s)
    (hnet : NetReachable numAxes s) (hnew : s.Pending) (hcode : s.command.command = .setLine)
    (hacc : 0 < s.command.acc) (hlong : 1 ≤ lineLength (restPoint c) (lineEnd s).tran) {jogInhibit : Bool}
    (h : emcmotCommandHandler s jogInhibit = some t) (hok : t.status.commandStatus = .ok) :
    CoordAtRest c t ∧ ∃ tc, t.internal.coordTp.Single tc ∧ tc.Waits (restPoint c) (lineEnd s).tran := by
  rw [emcmotCommandHandler_pending hnew] at h
  have hexec : SoemMotion.setLine s.echo = t := by
    have hcode' : s.echo.command.command = .setLine := hcode
    unfold executeCommand at h
    rw [hcode'] at h
    exact Option.some_injective _ h
  have hrefused : coordMoveRefused s.echo = none := by
    cases hr : coordMoveRefused s.echo with
    | none => rfl
    | some u =>
      unfold SoemMotion.setLine at hexec
      rw [hr] at hexec
      rw [← hexec] at hok
      exact absurd hok (coordMoveRefused_status hr)
  have happend : appendLine s.echo = t := by
    unfold SoemMotion.setLine at hexec
    rw [hrefused] at hexec
    exact hexec
  -- a line the planner refused would have set the status
  have htaken : ¬ (addCommandedLine s.echo).2.code < 0 := by
    intro hfailed
    rw [← happend] at hok
    exact appendLine_failed hfailed hok
  obtain ⟨u, hu⟩ : ∃ u : Tp ℝ, u = tpSetVlimit (tpSetId s.internal.coordTp s.command.id) (s.config.limitVel : ℝ) :=
    ⟨_, rfl⟩
  have hcore : s.internal.coordTp.SameCore u := by
    rw [hu]
    exact (tpSetId_spec _ _).1.trans (tpSetVlimit_sameCore _ _)
  have hadd : addCommandedLine s.echo = tpAddLine s.echo.handlerEnv u (lineEnd s) s.command.motionType
      (s.command.vel : ℝ) (s.command.maxvel : ℝ) (s.command.acc : ℝ) s.status.enablesNew false s.command.turn := by
    rw [hu]
    rfl
  have habort : u.aborting = false := by
    by_contra hne
    refine htaken ?_
    rw [hadd]
    unfold tpAddLine
    rw [if_pos (Bool.eq_true_of_not_eq_false hne)]
    exact (by decide : TpErr.fail.code < 0)
  have hidle : u.Idle := by
    refine ⟨?_, habort, ?_, ?_⟩
    · rw [hcore.queue]
      exact hs.empty
    · rw [hu]
      exact (hnet.plain.planner.setId _).termCond
    · rw [hu]
      exact (hnet.plain.planner.setId _).synchronized
  have hstart : u.goalPos.tran = restPoint c := (congrArg EmcPose.tran hcore.goalPos).trans hs.goalPos
  rw [← hstart] at hlong ⊢
  have hacc' : (0 : ℝ) < (s.command.acc : ℝ) := by exact_mod_cast hacc
  obtain ⟨hlen, hwaits⟩ := queuedLine_waits hidle hacc' hlong s.command.motionType (s.command.vel : ℝ)
    (s.command.maxvel : ℝ) s.status.enablesNew false s.command.turn
  obtain ⟨tp, htp, hitem, hqlen, haborting, -⟩ :=
    tpAddLine_idle (hnet.netState.sound.of_sameCore hcore) hidle rfl hlen s.echo.handlerEnv s.command.turn
  obtain ⟨pos, ht⟩ := appendLine_ok (hadd.trans htp) (hs.axis 0).2.2
  rw [happend] at ht
  have hsame : t.axes = s.axes ∧ t.status.motionState = .coord ∧ t.internal.enabling = true := by
    rw [ht]
    exact ⟨rfl, hs.motionState, hs.enabling⟩
  refine ⟨⟨⟨hsame.2.1, hsame.2.2, ?_⟩, ?_⟩, _, ?_, hwaits⟩
  · rw [hsame.1]
    exact hs.axis
  · rw [hsame.1]
    exact hs.points
  · have hqueue : t.internal.coordTp.queue = tp.queue ∧ t.internal.coordTp.aborting = tp.aborting := by
      rw [ht]
      refine ⟨(tpSetSpindleSync_sameCore tp _ _ false).queue, ?_⟩
      show (tpSetSpindleSync tp _ _ false).aborting = tp.aborting
      unfold tpSetSpindleSync
      split <;> rfl
    exact Tp.Single.congr ⟨haborting, hqlen, hitem⟩ hqueue.1 hqueue.2

/-! ### A run of one line -/

/-- `n` cycles without fault. -/
def CycleRun (u : Nat → Machine ℝ) (inp : Nat → Inputs) (n : Nat) : Prop :=
  ∀ k < n, ¬ FaultSeen (u k) (inp k) ∧
    ∃ fuel, emcmotController (u k) (inp k) motionThreadPeriod fuel = some (u (k + 1))

/-- After every cycle that runs the line, the planner is at the point the line has come to. -/
def MoveFollowed (start stop : PmCartesian ℝ) (u : Nat → Machine ℝ) (inp : Nat → Inputs) (n : Nat) : Prop :=
  ∀ k < n, ∀ tc, (u k).cycledSegment (inp k) = some tc →
    (u (k + 1)).internal.coordTp.currentPos.tran = linePoint start stop tc.progress

/-- Three cycles after the line has come to its end, the axes are commanded to it. -/
def MoveArrives (stop : PmCartesian ℝ) (u : Nat → Machine ℝ) (inp : Nat → Inputs) (n : Nat) : Prop :=
  ∀ k, k + 3 < n → ∀ tc, (u k).cycledSegment (inp k) = some tc → tc.progress = tc.target →
    ∀ i, ((u (k + 4)).axes i).posCmd = truncReal (stop.get i)

/-- The target velocity of the segment at the head of the queue. -/
noncomputable def Machine.lineVelocity (s : Machine ℝ) : ℝ :=
  match tcqItem s.internal.coordTp.queue 0 with
  | none => 0
  | some tc => tpGetRealTargetVel s.handlerEnv s.internal.coordTp tc

theorem Tp.Single.lineVelocity {s : Machine ℝ} {tc : Tc ℝ} (h : s.internal.coordTp.Single tc) :
    s.lineVelocity = tpGetRealTargetVel s.handlerEnv s.internal.coordTp tc := by
  unfold Machine.lineVelocity
  rw [h.head]

/-- The machine at rest with a line at its start. -/
structure LineWaits (c : Fin 3 → Int) (stop : PmCartesian ℝ) (s : Machine ℝ) (tc : Tc ℝ) : Prop
    extends CoordAtRest c s where
  single : s.internal.coordTp.Single tc
  waits : tc.Waits (restPoint c) stop

/-- The velocity of the line when a cycle runs the planner is the one before the cycle. -/
theorem LineWaits.front_velocity {numAxes : Int} {c : Fin 3 → Int} {stop : PmCartesian ℝ} {s : Machine ℝ} {tc : Tc ℝ}
    (hs : LineWaits c stop s tc) (hnet : NetReachable numAxes s) {inp : Inputs} (hfault : ¬ FaultSeen s inp) :
    tpGetRealTargetVel ((controllerFront s inp motionThreadPeriod).tpEnv inp.unlocked)
      (controllerFront s inp motionThreadPeriod).internal.coordTp tc = s.lineVelocity := by
  have hkeep := controllerFront_cycleKeeps s inp motionThreadPeriod
  rw [hs.single.lineVelocity,
    tpGetRealTargetVel_line _ _ hs.waits.line hs.waits.unmoved.synchronized hs.waits.unmoved.isBlending,
    tpGetRealTargetVel_line _ _ hs.waits.line hs.waits.unmoved.synchronized hs.waits.unmoved.isBlending,
    (hs.toCoordStill.front hnet hfault).2.2]
  show min (tc.reqvel * if _ then 0 else (controllerFront s inp motionThreadPeriod).status.netFeedScale)
    (min (min (tc.reqvel * (controllerFront s inp motionThreadPeriod).config.maxAxisScale) tc.maxvel) _) = _
  rw [hkeep.netFeedScale, hkeep.maxAxisScale]
  rfl

/-- The first cycle of the line: it comes away from its start, or the machine stays as it is. -/
theorem LineWaits.cycle {numAxes : Int} {c : Fin 3 → Int} {stop : PmCartesian ℝ} {s t : Machine ℝ} {tc : Tc ℝ}
    (hs : LineWaits c stop s tc) (hnet : NetReachable numAxes s) {inp : Inputs} (hfault : ¬ FaultSeen s inp)
    {fuel : Nat} (h : emcmotController s inp motionThreadPeriod fuel = some t) : ∃ tc',
      s.cycledSegment inp = some tc' ∧ t.internal.coordTp.currentPos.tran = linePoint (restPoint c) stop tc'.progress ∧
      CoordStill c t ∧ t.internal.coordTp.Single tc' ∧ tc'.IsLine (restPoint c) stop ∧ tc'.synchronized = .none ∧
      (0 < s.lineVelocity ∨ lineLength (restPoint c) stop ≤ 1 → 0 < tc'.progress) ∧
      (s.lineVelocity ≤ 0 → 1 < lineLength (restPoint c) stop → LineWaits c stop t tc' ∧ t.lineVelocity ≤ 0) := by
  obtain ⟨tc', hrun, hsingle, hline, hsync, hpos⟩ :=
    hs.toCoordStill.lineCycle hnet hfault h hs.single hs.waits.line hs.waits.unmoved.synchronized
  obtain ⟨hfront, hforward⟩ := hs.toCoordStill.front_single hnet hfault hs.single
  obtain ⟨tc'', hrun', hmoves, hstays⟩ := hs.waits.cycle
    ((controllerFront s inp motionThreadPeriod).tpEnv inp.unlocked) hforward
    (controllerFront_plain hnet.plain.planner inp).cycleTime hfront
  have hsame : tc'' = tc' := Option.some_injective _ (hrun'.symm.trans hrun)
  rw [hsame, hs.front_velocity hnet hfault] at hmoves hstays
  obtain ⟨hstill, hrest⟩ := hs.toCoordAtRest.cycle hnet hfault h
  have haccurate : t.internal.coordTp.currentPos.tran = linePoint (restPoint c) stop tc'.progress := by
    rw [hpos]
    exact (linePoint_moved_iff hline.long tc.progress tc'.progress).2 hs.waits.unmoved.progress
  refine ⟨tc', hrun, haccurate, hstill, hsingle, hline, hsync, hmoves, ?_⟩
  intro hvel hfar
  obtain ⟨hwaits, hreqvel, hmaxvel⟩ := hstays hvel hfar
  have hback : t.internal.coordTp.currentPos.tran = restPoint c := by
    rw [haccurate, hwaits.unmoved.progress, linePoint_zero]
  refine ⟨⟨hrest hback, hsingle, hwaits⟩, ?_⟩
  have hkeep := emcmotController_cycleKeeps h
  have hpace : SamePace s.handlerEnv t.handlerEnv s.internal.coordTp t.internal.coordTp tc tc' := by
    obtain ⟨hlimit, habort, hpause⟩ := hs.toCoordStill.cycle_planner hnet hfault h hrun
    exact ⟨hkeep.netFeedScale, hkeep.maxAxisScale, hlimit, habort, hpause, hreqvel, hmaxvel⟩
  rw [hsingle.lineVelocity]
  rw [hs.single.lineVelocity] at hvel
  exact hpace.stays hs.waits.line hs.waits.unmoved hwaits.line hwaits.unmoved hvel

theorem CycleRun.reached {numAxes : Int} {u : Nat → Machine ℝ} {inp : Nat → Inputs} {n : Nat} (hrun : CycleRun u inp n)
    (h : NetReachable numAxes (u 0)) {k : Nat} (hk : k ≤ n) : NetReachable numAxes (u k) := by
  induction k with
  | zero => exact h
  | succ k ih =>
    obtain ⟨-, fuel, hcycle⟩ := hrun k hk
    exact (ih (Nat.le_of_succ_le hk)).tail (e := .cycle (inp k)) ⟨.cycle hcycle, trivial⟩

/-- A line that may not move waits at its start all the time. -/
theorem LineWaits.run {numAxes : Int} {c : Fin 3 → Int} {stop : PmCartesian ℝ} {u : Nat → Machine ℝ}
    {inp : Nat → Inputs} {n : Nat} {tc : Tc ℝ} (hs : LineWaits c stop (u 0) tc) (hnet : NetReachable numAxes (u 0))
    (hrun : CycleRun u inp n) (hvel : (u 0).lineVelocity ≤ 0) (hfar : 1 < lineLength (restPoint c) stop) {k : Nat}
    (hk : k ≤ n) : ∃ tc', LineWaits c stop (u k) tc' ∧ (u k).lineVelocity ≤ 0 := by
  induction k with
  | zero => exact ⟨tc, hs, hvel⟩
  | succ k ih =>
    obtain ⟨tc₁, hwaits, hstop⟩ := ih (Nat.le_of_succ_le hk)
    obtain ⟨hfault, fuel, hcycle⟩ := hrun k hk
    obtain ⟨tc₂, -, -, -, -, -, -, -, hnext⟩ :=
      hwaits.cycle (hrun.reached hnet (Nat.le_of_succ_le hk)) hfault hcycle
    exact ⟨tc₂, hnext hstop hfar⟩

/-- The planner follows the line in a run of one cycle, and where the line does not move at all. -/
theorem LineWaits.accurate_iff {numAxes : Int} {c : Fin 3 → Int} {stop : PmCartesian ℝ} {u : Nat → Machine ℝ}
    {inp : Nat → Inputs} {n : Nat} {tc : Tc ℝ} (hs : LineWaits c stop (u 0) tc) (hnet : NetReachable numAxes (u 0))
    (hrun : CycleRun u inp n) :
    MoveFollowed (restPoint c) stop u inp n ∧ MoveArrives stop u inp n ↔
      n ≤ 1 ∨ (u 0).lineVelocity ≤ 0 ∧ 1 < lineLength (restPoint c) stop := by
  constructor
  · rintro ⟨hfollowed, -⟩
    by_contra hneither
    rw [not_or, not_le] at hneither
    obtain ⟨hn, hmove⟩ := hneither
    -- the line comes away from its start in the first cycle, and the second one does not start there
    obtain ⟨hfault, fuel, hcycle⟩ := hrun 0 (by omega)
    obtain ⟨tc₁, -, -, hstill, hsingle, hline, hsync, hmoves, -⟩ := hs.cycle hnet hfault hcycle
    have hprogress : 0 < tc₁.progress := by
      refine hmoves ?_
      by_cases hvel : 0 < (u 0).lineVelocity
      · exact .inl hvel
      · exact .inr (not_lt.1 fun hfar => hmove ⟨not_lt.1 hvel, hfar⟩)
    obtain ⟨hfault₁, fuel₁, hcycle₁⟩ := hrun 1 hn
    obtain ⟨tc₂, hrun₂, -, -, -, hpos⟩ :=
      hstill.lineCycle (hrun.reached hnet (by omega)) hfault₁ hcycle₁ hsingle hline hsync
    have hat := hfollowed 1 hn tc₂ hrun₂
    rw [hpos] at hat
    exact hprogress.ne' ((linePoint_moved_iff hline.long _ _).1 hat)
  · rintro (hn | ⟨hvel, hfar⟩)
    · refine ⟨?_, fun k hk => by omega⟩
      intro k hk tc' htc'
      have hzero : k = 0 := by omega
      subst hzero
      obtain ⟨hfault, fuel, hcycle⟩ := hrun 0 hk
      obtain ⟨tc₁, hrun₁, hpos, -⟩ := hs.cycle hnet hfault hcycle
      rw [htc'] at hrun₁
      cases hrun₁
      exact hpos
    · have hcycles : ∀ k < n, ∀ tc', (u k).cycledSegment (inp k) = some tc' →
          (u (k + 1)).internal.coordTp.currentPos.tran = linePoint (restPoint c) stop tc'.progress ∧
            tc'.progress ≠ tc'.target := by
        intro k hk tc' htc'
        obtain ⟨tc₁, hwaits, hstop⟩ := hs.run hnet hrun hvel hfar hk.le
        obtain ⟨hfault, fuel, hcycle⟩ := hrun k hk
        obtain ⟨tc₂, hrun₂, hpos, -, -, -, -, -, hnext⟩ := hwaits.cycle (hrun.reached hnet hk.le) hfault hcycle
        rw [htc'] at hrun₂
        cases hrun₂
        refine ⟨hpos, ?_⟩
        have hnext' := (hnext hstop hfar).1.waits
        rw [hnext'.unmoved.progress, hnext'.line.target]
        linarith
      refine ⟨fun k hk tc' htc' => (hcycles k hk tc' htc').1, ?_⟩
      intro k hk tc' htc' hend
      exact absurd hend (hcycles k (by omega) tc' htc').2

/-! ### A line of one unit from the network -/

theorem restPoint_zero : restPoint (fun _ => 0) = ⟨0, 0, 0⟩ := by simp [restPoint, PmCartesian.ofFn]

theorem CoordStart.coordIdle {s : Machine ℝ} (hs : CoordStart s) : CoordIdle (fun _ => 0) s := by
  have hzero : ((0 : Int) : ℝ) = 0 := Int.cast_zero
  refine ⟨⟨⟨hs.motionState, hs.modes.1, fun i => ?_⟩, fun i => ?_⟩, hs.idle.len, ?_⟩
  · exact ⟨(hs.axis i).1, (hs.axis i).2.1, (hs.ready i).need⟩
  · rw [hzero]
    exact hs.points i
  · rw [hs.goalPos, restPoint_zero]
    rfl

/-- A frame leaves the machine at rest. -/
theorem CoordIdle.frame {c : Fin 3 → Int} {s t : Machine ℝ} (hs : CoordIdle c s) {f : LinuxFrame}
    (h : processFrame s f = some t) : CoordIdle c t := by
  have hquiet := processFrame_quiet h
  have hplanner := (processFrame_planner h).1
  have hcubic : ∀ i, (t.axes i).cubic = (s.axes i).cubic := by
    intro i
    rcases hquiet.cubic i with hc | hc
    · exact hc
    · rw [hc]
      have hneed := (hs.axis i).2.2
      rw [← hneed]
  refine ⟨⟨⟨hquiet.motionState.trans hs.motionState, hquiet.enabling.trans hs.enabling, fun i => ?_⟩, fun i => ?_⟩,
    ?_, ?_⟩
  · rw [hcubic i]
    exact ⟨(hquiet.active i).trans (hs.axis i).1, (hquiet.posCmd i).trans (hs.axis i).2.1, (hs.axis i).2.2⟩
  · rw [hcubic i]
    exact hs.points i
  · rw [hplanner]
    exact hs.empty
  · rw [hplanner]
    exact hs.goalPos

theorem lineLength_unit : lineLength (restPoint fun _ => 0) (⟨1, 0, 0⟩ : PmCartesian ℝ) = 1 := by
  unfold lineLength pmCartMag pmCartCartSub pmSqrt pmSq
  rw [restPoint_zero]
  norm_num

/-- The machine at rest with a line of one unit in the mailbox. -/
structure UnitLine (s t : Machine ℝ) : Prop where
  net : NetReachable 0 s
  idle : CoordIdle (fun _ => 0) s
  pending : s.Pending
  code : s.command.command = .setLine
  speed : 0 < s.command.vel ∧ 0 < s.command.acc
  stop : (lineEnd s).tran = ⟨1, 0, 0⟩
  handle : emcmotCommandHandler s false = some t
  accepted : t.status.commandStatus = .ok

/-- It goes on for two cycles without fault. -/
theorem unitLine_exists : ∃ s t u, UnitLine s t ∧ u 0 = t ∧ CycleRun u (fun _ => restInputs) 2 := by
  obtain ⟨s, v, t, hserved⟩ := lineServed_exists 0 (le_refl 1) (by decide)
  have hnet : NetReachable 0 v :=
    hserved.net.tail (e := .frame (lineRequest 1).encode.frame) ⟨.frame hserved.frame, trivial⟩
  have hunit : UnitLine v t := by
    refine ⟨hnet, hserved.start.coordIdle.frame hserved.frame, hserved.pending, ?_, ?_, ?_, hserved.handle,
      hserved.accepted⟩
    · rw [hserved.command]
      rfl
    · rw [hserved.command]
      exact (by decide : (0 : Int) < 5 ∧ (0 : Int) < 7)
    · unfold lineEnd
      rw [hserved.command]
      show (⟨((1 : Int) : ℝ), ((0 : Int) : ℝ), ((0 : Int) : ℝ)⟩ : PmCartesian ℝ) = _
      rw [Int.cast_zero, Int.cast_one]
  have hseen : ∀ {w : Machine ℝ}, faultFound (sampled w restInputs motionThreadPeriod) = false →
      ¬ FaultSeen w restInputs := by
    intro w hfault h
    rw [(faultFound_sampled w restInputs motionThreadPeriod).2 h] at hfault
    cases hfault
  have hmask := hserved.reached.reachable.noOverride
  obtain ⟨hfault₀, -⟩ := hserved.queued.toCoordRunning.front hmask (fun _ => false) fun _ => false
  obtain ⟨fuel₀, w, hw, -, hrunning⟩ := hserved.queued.toCoordRest.cycle hmask (fun _ => false) fun _ => false
  obtain ⟨hnet₁, -⟩ := cycle_netReachable hserved.reached hserved.idle hw
  obtain ⟨hfault₁, -, hcubic, hactive, -⟩ := hrunning.front hnet₁.reachable.noOverride (fun _ => false) fun _ => false
  obtain ⟨fuel₁, x, hx, -⟩ := coordCycle_exists hrunning.modes.1 hfault₁ (.inl hrunning.modes.2.2) (hrunning.axis 0).1
    (by rw [hcubic 0]; exact hrunning.ready 0)
  refine ⟨v, t, fun k => if k = 0 then t else if k = 1 then w else x, hunit, rfl, ?_⟩
  intro k hk
  have hcases : k = 0 ∨ k = 1 := by omega
  rcases hcases with rfl | rfl
  · exact ⟨hseen hfault₀, fuel₀, hw⟩
  · exact ⟨hseen hfault₁, fuel₁, hx⟩

/-- A single line from rest, run for `n` cycles without fault: the planner is on the line after every cycle, and the
axes come to its end, exactly if the run is no longer than a cycle or the line is not one that moves. -/
theorem moveAccuracy_iff {numAxes : Int} {c : Fin 3 → Int} {s t : Machine ℝ} {jogInhibit : Bool}
    (hnet : NetReachable numAxes s) (hs : CoordIdle c s) (hnew : s.Pending) (hcode : s.command.command = .setLine)
    (hacc : 0 < s.command.acc) (hlong : 1 ≤ lineLength (restPoint c) (lineEnd s).tran)
    (h : emcmotCommandHandler s jogInhibit = some t) (hok : t.status.commandStatus = .ok) {u : Nat → Machine ℝ}
    {inp : Nat → Inputs} {n : Nat} (hstart : u 0 = t) (hrun : CycleRun u inp n) :
    MoveFollowed (restPoint c) (lineEnd s).tran u inp n ∧ MoveArrives (lineEnd s).tran u inp n ↔
      n ≤ 1 ∨ t.lineVelocity ≤ 0 ∧ 1 < lineLength (restPoint c) (lineEnd s).tran := by
  obtain ⟨hrest, tc, hsingle, hwaits⟩ := hs.setLine hnet hnew hcode hacc hlong h hok
  have hnet' : NetReachable numAxes t := hnet.tail (e := .handle jogInhibit) ⟨.handle h, trivial⟩
  subst hstart
  exact LineWaits.accurate_iff ⟨hrest, hsingle, hwaits⟩ hnet' hrun

/-- The first cycle of a line of one unit. -/
theorem moveAccuracy_firstCycle : ∃ (s : Machine ℝ) (u : Nat → Machine ℝ), NetReachable 0 s ∧
    CoordIdle (fun _ => 0) s ∧ CycleRun u (fun _ => restInputs) 1 ∧
    MoveFollowed (restPoint fun _ => 0) (lineEnd s).tran u (fun _ => restInputs) 1 := by
  obtain ⟨s, t, u, hunit, hstart, hrun⟩ := unitLine_exists
  have hrun₁ : CycleRun u (fun _ => restInputs) 1 := fun k hk => hrun k (by omega)
  have hlong : 1 ≤ lineLength (restPoint fun _ => 0) (lineEnd s).tran := by
    rw [hunit.stop, lineLength_unit]
  refine ⟨s, u, hunit.net, hunit.idle, hrun₁, ?_⟩
  exact ((moveAccuracy_iff hunit.net hunit.idle hunit.pending hunit.code hunit.speed.2 hlong hunit.handle hunit.accepted
    hstart hrun₁).2 (.inl le_rfl)).1

/-- After the second cycle of a line of one unit the planner is not where the line has come to. -/
theorem moveAccuracy_secondCycle : ∃ (s t : Machine ℝ) (u : Nat → Machine ℝ), UnitLine s t ∧ u 0 = t ∧
    CycleRun u (fun _ => restInputs) 2 ∧
    ¬ (MoveFollowed (restPoint fun _ => 0) (lineEnd s).tran u (fun _ => restInputs) 2 ∧
      MoveArrives (lineEnd s).tran u (fun _ => restInputs) 2) := by
  obtain ⟨s, t, u, hunit, hstart, hrun⟩ := unitLine_exists
  have hlength : lineLength (restPoint fun _ => 0) (lineEnd s).tran = 1 := by rw [hunit.stop, lineLength_unit]
  obtain ⟨hrest, tc, hsingle, hwaits⟩ := hunit.idle.setLine hunit.net hunit.pending hunit.code hunit.speed.2 hlength.ge
    hunit.handle hunit.accepted
  have hnet : NetReachable 0 t := hunit.net.tail (e := .handle false) ⟨.handle hunit.handle, trivial⟩
  subst hstart
  refine ⟨s, u 0, u, hunit, rfl, hrun, ?_⟩
  rw [LineWaits.accurate_iff ⟨hrest, hsingle, hwaits⟩ hnet hrun, hlength]
  norm_num

end SoemMotion
