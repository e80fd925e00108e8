import SoemMotion.CommandFrame
import SoemMotion.Cycle
import SoemMotion.PlannerFrame

/-!
# The planner in a run of the system

What each step of the system does to the coordinated planner.  Frames do not touch it, the handler appends to it or sets
flags of it, and a cycle sets its position, may clear it, and runs it.  So in every reachable state the queue is well
formed, the planner runs forward, and its spindle waits for the id zero, as the zeroed memory says.
-/

namespace SoemMotion

variable {K : Type}

/-! ### What the invariants of the planner speak of -/

/-- The same queue, goal, direction and wait. -/
structure Tp.SameCore (a b : Tp K) : Prop where
  queue : b.queue = a.queue
  goalPos : b.goalPos = a.goalPos
  reverseRun : b.reverseRun = a.reverseRun
  waitingForAtspeed : b.spindle.waitingForAtspeed = a.spindle.waitingForAtspeed

@[refl] theorem Tp.SameCore.refl (a : Tp K) : a.SameCore a := ⟨rfl, rfl, rfl, rfl⟩

theorem Tp.SameCore.trans {a b c : Tp K} (h : a.SameCore b) (h' : b.SameCore c) : a.SameCore c :=
  ⟨h'.queue.trans h.queue, h'.goalPos.trans h.goalPos, h'.reverseRun.trans h.reverseRun,
    h'.waitingForAtspeed.trans h.waitingForAtspeed⟩

theorem tpAbort_sameCore (tp : Tp K) : tp.SameCore (tpAbort tp) := by
  unfold tpAbort
  split <;> exact ⟨rfl, rfl, rfl, rfl⟩

theorem tpPause_sameCore (tp : Tp K) : tp.SameCore (tpPause tp) := ⟨rfl, rfl, rfl, rfl⟩

/-- What the planner keeps from its start on. -/
structure Tp.Sound (tp : Tp K) : Prop where
  wf : tp.queue.WF
  size : 1 < tp.queue.size
  forward : tp.reverseRun = false
  noWait : tp.spindle.waitingForAtspeed = 0

theorem Tp.Sound.of_sameCore {a b : Tp K} (h : a.SameCore b) (ha : a.Sound) : b.Sound where
  wf := by rw [h.queue]; exact ha.wf
  size := by rw [h.queue]; exact ha.size
  forward := h.reverseRun.trans ha.forward
  noWait := h.waitingForAtspeed.trans ha.noWait

variable [Arith K]

theorem Tp.Sound.of_sameCells {tp : Tp K} {q : Tcq (Tc K)} (h : tp.Sound) (hq : tp.queue.SameCells q) :
    ({ tp with queue := q } : Tp K).Sound where
  wf := hq.wf h.wf
  size := lt_of_lt_of_eq h.size hq.size.symm
  forward := h.forward
  noWait := h.noWait

theorem tpSetPos_eq (tp : Tp K) (pos : EmcPose K) :
    ∃ current goal, tpSetPos tp pos = { tp with currentPos := current, goalPos := goal } := by
  unfold tpSetPos
  split
  · exact ⟨pos, pos, rfl⟩
  · exact ⟨tp.currentPos, tp.goalPos, rfl⟩

theorem Tp.Sound.setPos {tp : Tp K} (h : tp.Sound) (pos : EmcPose K) : (tpSetPos tp pos).Sound := by
  obtain ⟨current, goal, heq⟩ := tpSetPos_eq tp pos
  rw [heq]
  exact ⟨h.wf, h.size, h.forward, h.noWait⟩

theorem Tp.Sound.clear {tp : Tp K} (h : tp.Sound) : (tpClear tp).Sound where
  wf := tcqInit_wf (lt_trans Nat.zero_lt_one h.size)
  size := h.size
  forward := rfl
  noWait := h.noWait

theorem Tp.Sound.advances {tp tp' : Tp K} (h : tp.Sound) (ha : tp.Advances tp') : tp'.Sound where
  wf := ha.sameCells.wf h.wf
  size := lt_of_lt_of_eq h.size ha.sameCells.size.symm
  forward := ha.reverseRun.trans h.forward
  noWait := ha.waitingForAtspeed.trans h.noWait

/-- A cycle of the planner. -/
theorem Tp.Sound.cycle {tp : Tp K} (h : tp.Sound) (env : TpEnv K) : (tpRunCycle env tp).Sound := by
  have hresult := tpRunCycle_result env tp
  generalize tpRunCycle env tp = tp' at hresult
  cases hresult with
  | emptied hqueue hreverse hspindle =>
    refine ⟨?_, ?_, ?_, hspindle.trans h.noWait⟩
    · rw [hqueue]
      exact tcqInit_wf (lt_trans Nat.zero_lt_one h.size)
    · rw [hqueue]
      exact h.size
    · cases hr : tp'.reverseRun with
      | false => rfl
      | true => exact absurd (hreverse hr) (by rw [h.forward]; simp)
  | advanced ha => exact h.advances ha
  | popped ha hq hqueue hgoal hreverse hspindle =>
    have hu := h.advances ha
    rw [h.forward, if_neg Bool.false_ne_true] at hqueue
    obtain ⟨hw, hsize, -⟩ := tcqPop_wf (hq.wf h.wf) hqueue
    refine ⟨hw, ?_, hreverse.trans hu.forward, hspindle.trans hu.noWait⟩
    rw [hsize, hq.size]
    exact h.size

theorem Tp.Sound.append {tp tp' : Tp K} {seg : Tc K} (h : tp.Sound) (ha : AppendResult tp seg tp') : tp'.Sound := by
  cases ha with
  | kept hq => exact h.of_sameCells hq
  | put hq hput hq₂ =>
    obtain ⟨hw, hsize, -⟩ := tcqPut_wf (hq.wf h.wf) hput
    refine ⟨hq₂.wf hw, ?_, h.forward, h.noWait⟩
    show 1 < Tcq.size _
    rw [hq₂.size, hsize, hq.size]
    exact h.size

/-! ### The handler -/

omit [Arith K] in
theorem coordMoveRefused_command {s t : Machine K} (h : coordMoveRefused s = some t) : t.command = s.command := by
  obtain ⟨status, tp, -, -, rfl⟩ := coordMoveRefused_cases h
  rfl

omit [Arith K] in
theorem coordMoveRefused_echo {s : Machine K} : coordMoveRefused s.echo = none ↔ coordMoveRefused s = none := by
  unfold coordMoveRefused
  have hlimits : limitsOk s.echo = limitsOk s := rfl
  rw [hlimits]
  change (if (!s.status.motionFlag.coord || !s.status.motionFlag.enable) = true then _ else _) = _ ↔ _
  split
  · simp
  · split <;> simp

/-- What executing a command does to the planner. -/
inductive PlannerCommand (s : Machine K) : Tp K → Prop
  | kept {tp : Tp K} (h : s.internal.coordTp.SameCore tp) : PlannerCommand s tp
  | appended {u v tp : Tp K} {seg : Tc K}
      (hcode : s.command.command = .setLine ∨ s.command.command = .setCircle)
      (hu : s.internal.coordTp.SameCore u) (hid : s.command.id ≠ motionInvalidId → u.nextId = s.command.id)
      (ha : AppendResult u seg v) (hv : v.SameCore tp)
      (hok : coordMoveRefused s = none)
      (hline : s.command.command = .setLine → seg.reqvel = (s.command.vel : K) ∧ seg.maxvel = (s.command.maxvel : K) ∧
        seg.maxaccel = (s.command.acc : K))
      (hcircle : s.command.command = .setCircle → ∃ circle, seg.coords = .circle circle) : PlannerCommand s tp

omit [Arith K] in
theorem tpSetId_spec (tp : Tp K) (id : Int) :
    tp.SameCore (tpSetId tp id) ∧ (id ≠ motionInvalidId → (tpSetId tp id).nextId = id) := by
  unfold tpSetId
  split
  · rename_i h
    exact ⟨Tp.SameCore.refl _, fun hne => absurd h hne⟩
  · exact ⟨⟨rfl, rfl, rfl, rfl⟩, fun _ => rfl⟩

theorem tpAddLine_result (env : TpEnv K) (tp : Tp K) (stop : EmcPose K) (canonMotionType : Int)
    (vel iniMaxvel acc : K) (enables : UInt8) (atspeed : Bool) (indexerJnum : Int) :
    AppendResult tp (tpLineSegment tp stop canonMotionType vel iniMaxvel acc enables atspeed)
      (tpAddLine env tp stop canonMotionType vel iniMaxvel acc enables atspeed indexerJnum).1 := by
  unfold tpAddLine
  split
  · exact .kept (Tcq.SameCells.refl _)
  · dsimp only
    split
    · exact .kept (Tcq.SameCells.refl _)
    · have h := tpQueueSegment_result env tp { tcClampVelocityByLength
          { tpLineSegment tp stop canonMotionType vel iniMaxvel acc enables atspeed with
            nominalLength := (tpLineSegment tp stop canonMotionType vel iniMaxvel acc enables atspeed).target } with
          indexerJnum := indexerJnum }
      exact h.congr ⟨rfl, rfl, rfl, rfl, rfl, fun _ => .fmin (.refl _) _⟩

theorem tpAddCircle_result (env : TpEnv K) (tp : Tp K) (stop : EmcPose K) (center normal : PmCartesian K) (turn : Int)
    (canonMotionType : Int) (vel iniMaxvel acc : K) (enables : UInt8) (atspeed : Bool) :
    (tpAddCircle env tp stop center normal turn canonMotionType vel iniMaxvel acc enables atspeed).1 = tp ∨
      ∃ seg, (∃ circle, seg.coords = .circle circle) ∧ AppendResult tp seg
        (tpAddCircle env tp stop center normal turn canonMotionType vel iniMaxvel acc enables atspeed).1 := by
  unfold tpAddCircle
  split
  · exact .inl rfl
  · split
    · exact .inl rfl
    · dsimp only
      split
      · exact .inl rfl
      · exact .inr ⟨_, ⟨_, rfl⟩, tpQueueSegment_result env tp _⟩

omit [Arith K] in
theorem writeAxis_internal {s t : Machine K} {n : Int} {f : Axis K → Axis K} (h : s.writeAxis n f = some t) :
    t.internal = s.internal ∧ t.command = s.command := by
  obtain ⟨i, -, rfl⟩ := Option.map_eq_some_iff.1 h
  exact ⟨rfl, rfl⟩

omit [Arith K] in
theorem jogChecked_internal {s t : Machine K} {jogInhibit : Bool} {f : Fin 3 → Machine K}
    (hf : ∀ k, (f k).internal = s.internal ∧ (f k).command = s.command) (h : jogChecked s jogInhibit f = some t) :
    t.internal = s.internal ∧ t.command = s.command := by
  unfold jogChecked at h
  split at h
  · exact writeAxis_internal h
  · split at h
    · cases h
      exact ⟨rfl, rfl⟩
    · obtain ⟨k, -, rfl⟩ := Option.map_eq_some_iff.1 h
      split
      · exact ⟨rfl, rfl⟩
      · exact hf k

theorem jogIncr_internal (s : Machine K) (i : Fin 3) :
    (jogIncr s i).internal = s.internal ∧ (jogIncr s i).command = s.command := by
  rcases jogIncr_cases s i with h | ⟨-, -, h⟩ <;> rw [h] <;> exact ⟨rfl, rfl⟩

theorem tpSetVlimit_sameCore (tp : Tp K) (vLimit : K) : tp.SameCore (tpSetVlimit tp vLimit) := ⟨rfl, rfl, rfl, rfl⟩

theorem tpSetSpindleSync_sameCore (tp : Tp K) (spindle : Int) (sync : K) (velocityMode : Bool) :
    tp.SameCore (tpSetSpindleSync tp spindle sync velocityMode) := by
  unfold tpSetSpindleSync
  split <;> exact ⟨rfl, rfl, rfl, rfl⟩

/-- The line the handler builds. -/
def commandedSegment (s : Machine K) : Tc K :=
  tpLineSegment (tpSetVlimit (tpSetId s.internal.coordTp s.command.id) (s.config.limitVel : K)) (lineEnd s)
    s.command.motionType (s.command.vel : K) (s.command.maxvel : K) (s.command.acc : K) s.status.enablesNew false

theorem appendLine_planner {s : Machine K} (hcode : s.command.command = .setLine) (hok : coordMoveRefused s = none) :
    PlannerCommand s (appendLine s).internal.coordTp := by
  obtain ⟨hset, hid⟩ := tpSetId_spec s.internal.coordTp s.command.id
  have hu := hset.trans (tpSetVlimit_sameCore (tpSetId s.internal.coordTp s.command.id) (s.config.limitVel : K))
  have ha : AppendResult _ (commandedSegment s) (addCommandedLine s).1 :=
    tpAddLine_result s.handlerEnv _ (lineEnd s) _ _ _ _ _ _ s.command.turn
  have hfinish : ∀ tp : Tp K, (addCommandedLine s).1.SameCore tp → PlannerCommand s tp :=
    fun tp htp => .appended (.inl hcode) hu hid ha htp hok (fun _ => ⟨rfl, rfl, rfl⟩) fun h => by
      rw [hcode] at h
      cases h
  unfold appendLine
  dsimp only
  split
  · exact hfinish _ (tpAbort_sameCore _)
  · exact hfinish _ (tpSetSpindleSync_sameCore _ _ _ _)

theorem appendCircle_planner {s : Machine K} (hcode : s.command.command = .setCircle)
    (hok : coordMoveRefused s = none) : PlannerCommand s (appendCircle s).internal.coordTp := by
  obtain ⟨hset, hid⟩ := tpSetId_spec s.internal.coordTp s.command.id
  have hresult := tpAddCircle_result s.handlerEnv (tpSetId s.internal.coordTp s.command.id) s.command.pos
    s.command.center s.command.normal s.command.turn s.command.motionType (s.command.maxvel : K)
    (s.command.iniMaxvel : K) (s.command.maxacc : K) s.status.enablesNew false
  unfold appendCircle
  dsimp only
  generalize tpAddCircle s.handlerEnv (tpSetId s.internal.coordTp s.command.id) s.command.pos s.command.center
    s.command.normal s.command.turn s.command.motionType (s.command.maxvel : K) (s.command.iniMaxvel : K)
    (s.command.maxacc : K) s.status.enablesNew false = result at hresult ⊢
  have hfinish : ∀ tp : Tp K, result.1.SameCore tp → PlannerCommand s tp := by
    intro tp htp
    rcases hresult with hsame | ⟨seg, hcircle, ha⟩
    · rw [hsame] at htp
      exact .kept (hset.trans htp)
    · refine .appended (.inr hcode) hset hid ha htp hok (fun h => ?_) fun _ => hcircle
      rw [hcode] at h
      cases h
  split
  · exact hfinish _ (tpAbort_sameCore _)
  · exact hfinish _ (Tp.SameCore.refl _)

theorem coordMoveRefused_planner {s t : Machine K} (h : coordMoveRefused s = some t) :
    PlannerCommand s t.internal.coordTp := by
  obtain ⟨status, tp, -, htp, rfl⟩ := coordMoveRefused_cases h
  rcases htp with rfl | rfl
  · exact .kept (Tp.SameCore.refl _)
  · exact .kept (tpAbort_sameCore _)

omit [Arith K] in
theorem abortMotion_planner (s : Machine K) : s.internal.coordTp.SameCore (abortMotion s).internal.coordTp := by
  have h : s.internal.coordTp.SameCore (if s.status.motionFlag.coord = true then
      s.setTp (tpAbort s.internal.coordTp) else s.mapConfigured Axis.stopFree : Machine K).internal.coordTp := by
    split
    · exact tpAbort_sameCore _
    · exact Tp.SameCore.refl _
  exact h

/-- What the handler does to the planner, and that it leaves the id of the command alone. -/
theorem executeCommand_planner {s t : Machine K} {jogInhibit : Bool} (h : executeCommand s jogInhibit = some t) :
    PlannerCommand s t.internal.coordTp ∧ t.command.id = s.command.id := by
  have hsame : t.internal = s.internal ∧ t.command = s.command →
      PlannerCommand s t.internal.coordTp ∧ t.command.id = s.command.id := by
    rintro ⟨hi, hc⟩
    rw [hi, hc]
    exact ⟨.kept (Tp.SameCore.refl _), rfl⟩
  unfold executeCommand at h
  cases hcmd : s.command.command <;> rw [hcmd] at h
  case downloadsConfig =>
    obtain ⟨u, hu, rfl⟩ := Option.map_eq_some_iff.1 h
    obtain ⟨hi, hc⟩ := writeAxis_internal hu
    refine ⟨.kept ?_, congrArg Command.id hc⟩
    rw [← hi]
    exact ⟨rfl, rfl, rfl, rfl⟩
  case axisEnable =>
    rcases axisEnable_eq h with ⟨-, rfl⟩ | ⟨-, h⟩
    · exact ⟨.kept (Tp.SameCore.refl _), rfl⟩
    · obtain ⟨k, -, rfl⟩ := Option.map_eq_some_iff.1 h
      exact ⟨.kept (Tp.SameCore.refl _), rfl⟩
  case axisDisable =>
    obtain ⟨k, -, rfl⟩ := Option.map_eq_some_iff.1 h
    exact ⟨.kept (Tp.SameCore.refl _), rfl⟩
  case abort =>
    cases h
    refine ⟨.kept (abortMotion_planner s), ?_⟩
    unfold abortMotion
    dsimp only
    split <;> rfl
  case jogCont => exact hsame (jogChecked_internal (f := jogCont s) (fun _ => ⟨rfl, rfl⟩) h)
  case jogIncr => exact hsame (jogChecked_internal (jogIncr_internal s) h)
  case jogAbs => exact hsame (jogChecked_internal (f := jogAbs s) (fun _ => ⟨rfl, rfl⟩) h)
  case jogAbort => exact hsame (writeAxis_internal h)
  case setLine =>
    cases h
    unfold setLine
    cases hr : coordMoveRefused s with
    | none =>
      refine ⟨appendLine_planner hcmd hr, ?_⟩
      show (appendLine s).command.id = _
      unfold appendLine
      dsimp only
      split <;> rfl
    | some t => exact ⟨coordMoveRefused_planner hr, congrArg Command.id (coordMoveRefused_command hr)⟩
  case setCircle =>
    cases h
    unfold setCircle
    cases hr : coordMoveRefused s with
    | none =>
      refine ⟨appendCircle_planner hcmd hr, ?_⟩
      show (appendCircle s).command.id = _
      unfold appendCircle
      dsimp only
      split <;> rfl
    | some t => exact ⟨coordMoveRefused_planner hr, congrArg Command.id (coordMoveRefused_command hr)⟩
  case pause =>
    cases h
    exact ⟨.kept (tpPause_sameCore _), rfl⟩
  -- the other commands leave both the planner and the command alone
  all_goals
    cases h
    exact ⟨.kept (Tp.SameCore.refl _), rfl⟩

/-- A call of the handler, whether or not there is a new command. -/
theorem emcmotCommandHandler_planner {s t : Machine K} {jogInhibit : Bool}
    (h : emcmotCommandHandler s jogInhibit = some t) :
    PlannerCommand s t.internal.coordTp ∧ t.command.id = s.command.id := by
  rcases emcmotCommandHandler_cases h with ⟨-, h⟩ | ⟨-, rfl⟩
  · obtain ⟨hp, hid⟩ := executeCommand_planner h
    refine ⟨?_, hid⟩
    cases hp with
    | kept hk => exact .kept hk
    | appended hcode hu hid ha hv hok hline hcircle =>
      exact .appended hcode hu hid ha hv (coordMoveRefused_echo.1 hok) hline hcircle
  · exact ⟨.kept (Tp.SameCore.refl _), rfl⟩

theorem PlannerCommand.sound {s : Machine K} {tp : Tp K} (h : PlannerCommand s tp) (hs : s.internal.coordTp.Sound) :
    tp.Sound := by
  cases h with
  | kept h => exact hs.of_sameCore h
  | appended _ hu _ ha hv => exact ((hs.of_sameCore hu).append ha).of_sameCore hv

/-! ### Frames -/

omit [Arith K] in
theorem configureLineAxes_internal (s : Machine K) (frame : LinuxFrame) :
    (configureLineAxes s frame).internal = s.internal := by
  unfold configureLineAxes
  rfl

theorem lineCommand_id (cmd : Command K) (frame : LinuxFrame) : (lineCommand cmd frame).id = cmd.id := by
  unfold lineCommand Command.publish
  rfl

/-- A frame leaves the planner and the id of the command alone. -/
theorem processFrame_planner {s t : Machine K} {frame : LinuxFrame} (h : processFrame s frame = some t) :
    t.internal = s.internal ∧ t.command.id = s.command.id := by
  have hjog : ∀ {code : CmdCode} {acc : Int} {cmd : Command K}, publishJog s frame code acc cmd = some t →
      cmd.id = s.command.id → t.internal = s.internal ∧ t.command.id = s.command.id := by
    intro code acc cmd h hcmd
    obtain ⟨u, hu, rfl⟩ := Option.map_eq_some_iff.1 h
    exact ⟨(writeAxis_internal hu).1, hcmd⟩
  unfold processFrame at h
  split at h
  · cases h
    exact ⟨rfl, rfl⟩
  · unfold decodeFrame at h
    cases hcode : CmdCode.ofIndex (frame.u16 0) <;> rw [hcode] at h
    case jogCont => exact hjog h rfl
    case jogIncr => exact hjog h rfl
    case jogAbs => exact hjog h rfl
    case setLine =>
      cases h
      refine ⟨?_, lineCommand_id s.command frame⟩
      dsimp only
      exact configureLineAxes_internal s frame
    all_goals
      cases h
      exact ⟨rfl, rfl⟩

/-! ### Cycles -/

/-- What every part of a controller cycle keeps. -/
structure PlannerInvariant (P : Tp K → Prop) : Prop where
  cycleTime : ∀ tp secs, P tp → P { tp with cycleTime := secs }
  setPos : ∀ tp pos, P tp → P (tpSetPos tp pos)
  clear : ∀ tp, P tp → P (tpClear tp)
  cycle : ∀ env tp, P tp → P (tpRunCycle env tp)
  pause : ∀ tp, P tp → P (tpPause tp)

theorem checkSoftLimits_internal (s : Machine K) : (checkSoftLimits s).internal = s.internal := by
  obtain ⟨error, onSoftLimit, h⟩ := checkSoftLimits_eq s
  rw [h]

/-- The part of a cycle after `set_operating_mode`: the planner is run, and perhaps paused. -/
theorem planPositions_planner {P : Tp K → Prop} (hcycle : ∀ env tp, P tp → P (tpRunCycle env tp))
    {inp : Inputs} {fuel : Nat} {s t : Machine K} (hs : P s.internal.coordTp)
    (h : planPositions inp fuel s = some t) : P t.internal.coordTp := by
  have hkept : KeptByPlanning inp fun u : Machine K => P u.internal.coordTp :=
    ⟨fun _ h => h, fun _ h => h, fun _ h => hcycle _ _ h, fun _ h => h, fun _ h => h⟩
  exact hkept.planPositions hs h

theorem emcmotController_back {P : Tp K → Prop} (hcycle : ∀ env tp, P tp → P (tpRunCycle env tp))
    (hpause : ∀ tp, P tp → P (tpPause tp)) {s t : Machine K} {inp : Inputs} {period : Int} {fuel : Nat}
    (hs : P (controllerFront s inp period).internal.coordTp) (h : emcmotController s inp period fuel = some t) :
    P t.internal.coordTp := by
  obtain ⟨u, hu, rfl⟩ := Option.map_eq_some_iff.1 h
  obtain ⟨v, hv, rfl⟩ := Option.map_eq_some_iff.1 hu
  have h1 : P (checkSoftLimits v).internal.coordTp := by
    rw [checkSoftLimits_internal]
    exact planPositions_planner hcycle hs hv
  show P (if _ then tpPause (checkSoftLimits v).internal.coordTp else (checkSoftLimits v).internal.coordTp)
  split
  · exact hpause _ h1
  · exact h1

/-- The pose the controller gives the planner at the start of a cycle. -/
def Machine.commandedPose (s : Machine K) : EmcPose K := { s.status.cartePosCmd with tran := axesTran s.axes }

theorem sampled_planner (s : Machine K) (inp : Inputs) (period : Int) : ∃ secs,
    (sampled s inp period).internal.coordTp =
    tpSetPos { s.internal.coordTp with cycleTime := secs } s.commandedPose := by
  obtain ⟨_, _, secs, _, _, _, _, hperiod⟩ := updatePeriod_eq s period
  obtain ⟨axisArray, h⟩ := processInputs_eq (handleInterpolation (updatePeriod s period)) inp
  refine ⟨secs, ?_⟩
  unfold sampled
  rw [h, hperiod]
  rfl

omit [Arith K] in
theorem enterFree_internal (s : Machine K) : (enterFree s).internal.coordTp = s.internal.coordTp := by
  unfold enterFree
  split
  · split <;> rfl
  · rfl

theorem setOperatingMode_planner {P : Tp K → Prop} (hset : ∀ tp pos, P tp → P (tpSetPos tp pos))
    (hclear : ∀ tp, P tp → P (tpClear tp)) {s : Machine K} (hs : P s.internal.coordTp) :
    P (setOperatingMode s).internal.coordTp := by
  have hkept : KeptByModes fun u : Machine K => P u.internal.coordTp :=
    ⟨fun _ h => hclear _ h, fun _ h => hset _ _ h, fun _ _ h => hset _ _ h, fun _ h => h, fun _ h => h, fun _ h => h,
      fun _ h => h⟩
  exact hkept.setOperatingMode hs

theorem controllerFront_planner {P : Tp K → Prop} (hP : PlannerInvariant P) {s : Machine K}
    (hs : P s.internal.coordTp) (inp : Inputs) (period : Int) :
    P (controllerFront s inp period).internal.coordTp := by
  obtain ⟨secs, hsampled⟩ := sampled_planner s inp period
  refine setOperatingMode_planner hP.setPos hP.clear (s := checkForFaults (sampled s inp period)) ?_
  show P (sampled s inp period).internal.coordTp
  rw [hsampled]
  exact hP.setPos _ _ (hP.cycleTime _ secs hs)

theorem emcmotController_planner {P : Tp K → Prop} (hP : PlannerInvariant P) {s t : Machine K} {inp : Inputs}
    {period : Int} {fuel : Nat} (hs : P s.internal.coordTp) (h : emcmotController s inp period fuel = some t) :
    P t.internal.coordTp :=
  emcmotController_back hP.cycle hP.pause (controllerFront_planner hP hs inp period) h

/-- In coordinated mode the front of a cycle sets the position of the planner, and clears it if motion is disabled. -/
theorem controllerFront_coordTp {s : Machine K} (henable : s.status.motionFlag.enable = true)
    (hcoord : s.status.motionFlag.coord = true) (inp : Inputs) (period : Int) :
    (controllerFront s inp period).internal.coordTp =
      if s.internal.enabling && !faultFound (sampled s inp period) then (sampled s inp period).internal.coordTp
      else tpClear (sampled s inp period).internal.coordTp := by
  have hen : (checkForFaults (sampled s inp period)).internal.enabling =
      (s.internal.enabling && !faultFound (sampled s inp period)) := by
    rw [checkForFaults_enabling]
    exact congrArg (· && _) (congrArg Modes.enabling (sampled_modes s inp period))
  have hflag : (checkForFaults (sampled s inp period)).status.motionFlag = s.status.motionFlag :=
    sampled_motionFlag s inp period
  show (enterFree (enterCoord
      (enableMotion (disableMotion (checkForFaults (sampled s inp period)))))).internal.coordTp = _
  rw [enterFree_internal, ← hen]
  generalize hu : checkForFaults (sampled s inp period) = u at hen hflag
  have htp : u.internal.coordTp = (sampled s inp period).internal.coordTp := by
    rw [← hu]
    rfl
  rw [← htp]
  have hrise : enableMotion (disableMotion u) = disableMotion u :=
    enableMotion_idle fun _ => (congrArg MotionFlag.enable hflag).trans henable
  have henter : enterCoord (disableMotion u) = disableMotion u := by
    have hc : (disableMotion u).status.motionFlag.coord = true := by
      unfold disableMotion
      split
      · exact (congrArg MotionFlag.coord hflag).trans hcoord
      · exact (congrArg MotionFlag.coord hflag).trans hcoord
    unfold enterCoord
    rw [hc, Bool.not_true, Bool.and_false, if_neg Bool.false_ne_true]
  rw [hrise, henter]
  unfold disableMotion
  rw [hflag, henable]
  cases u.internal.enabling <;> rfl

/-! ### The reachable planners -/

theorem sound_plannerInvariant : PlannerInvariant (K := K) Tp.Sound where
  cycleTime _ _ h := ⟨h.wf, h.size, h.forward, h.noWait⟩
  setPos _ pos h := h.setPos pos
  clear _ h := h.clear
  cycle env _ h := h.cycle env
  pause _ h := ⟨h.wf, h.size, h.forward, h.noWait⟩

theorem initMachine_sound (numAxes : Int) : (initMachine numAxes : Machine K).internal.coordTp.Sound := by
  obtain ⟨_, _, _, _, _, _, _, h⟩ := initMachine_eq (K := K) numAxes
  have hzero : (tpInit zeroTp : Tp K).Sound :=
    ⟨tcqInit_wf (by show 0 < 2000; decide), by show 1 < 2000; decide, rfl, rfl⟩
  have hset : (tpSetCycleTime (tpInit zeroTp) 0 : Tp K).Sound := by
    unfold tpSetCycleTime
    split
    · exact hzero
    · exact ⟨hzero.wf, hzero.size, hzero.forward, hzero.noWait⟩
  have hinit : (initTp : Tp K).Sound := hset.setPos _
  rw [h]
  exact ⟨hinit.wf, hinit.size, hinit.forward, hinit.noWait⟩

theorem Step.sound {s t : Machine K} {e : Event K} (hs : s.internal.coordTp.Sound) (h : Step s e t) :
    t.internal.coordTp.Sound := by
  cases h with
  | frame hf =>
    rw [(processFrame_planner hf).1]
    exact hs
  | command c => exact hs
  | handle hh => exact (emcmotCommandHandler_planner hh).1.sound hs
  | cycle hc => exact emcmotController_planner sound_plannerInvariant hs hc

theorem Reachable.sound {numAxes : Int} {s : Machine K} (h : Reachable numAxes s) : s.internal.coordTp.Sound :=
  Lib.Reaches.invariant (I := fun u : Machine K => u.internal.coordTp.Sound) (fun _ _ _ hs hst => Step.sound hs hst) h
    (initMachine_sound numAxes)

end SoemMotion
