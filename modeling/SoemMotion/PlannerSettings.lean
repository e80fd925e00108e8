import SoemMotion.CoordStart

/-!
# The settings in a run of the network

In a run of the network the planner blends through, waits for no spindle and plans for one second, and once a cycle has
been run every interpolator has a segment of one second and the rate 1.
-/

namespace SoemMotion

/-! ### The settings of the planner -/

/-- The settings of the planner in a run of the network. -/
structure Tp.Plain (tp : Tp ℝ) : Prop where
  cycleTime : tp.cycleTime = 1
  termCond : tp.termCond = .tangent
  synchronized : tp.synchronized = .none

theorem Tp.Plain.setPos {tp : Tp ℝ} (h : tp.Plain) (pos : EmcPose ℝ) : (tpSetPos tp pos).Plain := by
  obtain ⟨_, _, heq⟩ := tpSetPos_eq tp pos
  rw [heq]
  exact ⟨h.cycleTime, h.termCond, h.synchronized⟩

theorem Tp.Plain.advances {tp tp' : Tp ℝ} (h : tp.Plain) (ha : tp.Advances tp') : tp'.Plain := by
  obtain ⟨_, _, ⟨_, _, _, _, _, _, rfl⟩, -, rfl⟩ := ha
  exact ⟨h.cycleTime, h.termCond, h.synchronized⟩

theorem Tp.Plain.complete {tp : Tp ℝ} (h : tp.Plain) (env : TpEnv ℝ) (tc : Tc ℝ) :
    (tpCompleteSegment env tp tc).Plain := by
  unfold tpCompleteSegment
  split
  · exact h
  · dsimp only
    split
    · exact ⟨h.cycleTime, h.termCond, h.synchronized⟩
    · exact ⟨h.cycleTime, h.termCond, h.synchronized⟩

theorem Tp.Plain.cycle {tp : Tp ℝ} (h : tp.Plain) (env : TpEnv ℝ) : (tpRunCycle env tp).Plain := by
  have hrun := tpRunSegment_run env tp
  unfold tpRunCycle
  generalize tpRunSegment env tp = r at hrun
  obtain ⟨u, seg⟩ := r
  have hplain : u.Plain := by
    cases hrun with
    | empty => exact ⟨h.cycleTime, h.termCond, h.synchronized⟩
    | stopped => exact ⟨h.cycleTime, h.termCond, rfl⟩
    | refused => exact ⟨h.cycleTime, h.termCond, h.synchronized⟩
    | ran _ _ hadvances => exact h.advances hadvances
  cases seg with
  | none => exact hplain
  | some tc =>
    dsimp only
    split
    · exact hplain.complete env tc
    · exact hplain

theorem Tp.Plain.append {tp tp' : Tp ℝ} {seg : Tc ℝ} (h : tp.Plain) (ha : AppendResult tp seg tp') : tp'.Plain := by
  cases ha <;> exact ⟨h.cycleTime, h.termCond, h.synchronized⟩

theorem Tp.Plain.setId {tp : Tp ℝ} (h : tp.Plain) (id : Int) : (tpSetId tp id).Plain := by
  unfold tpSetId
  split
  · exact h
  · exact ⟨h.cycleTime, h.termCond, h.synchronized⟩

theorem Tp.Plain.abort {tp : Tp ℝ} (h : tp.Plain) : (tpAbort tp).Plain := by
  unfold tpAbort
  split
  · exact h
  · exact ⟨h.cycleTime, h.termCond, h.synchronized⟩

/-- The planner is plain, and the command block asks for no synchronization with the spindle. -/
structure Machine.Plain (s : Machine ℝ) : Prop where
  planner : s.internal.coordTp.Plain
  spindlesync : s.command.spindlesync = 0

theorem appendLine_plain {s : Machine ℝ} (hs : s.Plain) : (appendLine s).Plain := by
  have hset : (tpSetVlimit (tpSetId s.internal.coordTp s.command.id) (s.config.limitVel : ℝ)).Plain := by
    have h := hs.planner.setId s.command.id
    exact ⟨h.cycleTime, h.termCond, h.synchronized⟩
  have hadd : (addCommandedLine s).1.Plain := hset.append (tpAddLine_result s.handlerEnv _ (lineEnd s) _ _ _ _ _ _ _)
  unfold appendLine
  dsimp only
  split
  · exact ⟨hadd.abort, hs.spindlesync⟩
  · refine ⟨?_, hs.spindlesync⟩
    show (tpSetSpindleSync (addCommandedLine s).1 s.command.spindle s.command.spindlesync false).Plain
    unfold tpSetSpindleSync
    rw [hs.spindlesync, if_pos (by simp)]
    exact ⟨hadd.cycleTime, hadd.termCond, rfl⟩

theorem appendCircle_plain {s : Machine ℝ} (hs : s.Plain) : (appendCircle s).Plain := by
  have hset := hs.planner.setId s.command.id
  have hresult := tpAddCircle_result s.handlerEnv (tpSetId s.internal.coordTp s.command.id) s.command.pos
    s.command.center s.command.normal s.command.turn s.command.motionType (s.command.maxvel : ℝ)
    (s.command.iniMaxvel : ℝ) (s.command.maxacc : ℝ) s.status.enablesNew false
  unfold appendCircle
  dsimp only
  generalize tpAddCircle s.handlerEnv (tpSetId s.internal.coordTp s.command.id) s.command.pos s.command.center
    s.command.normal s.command.turn s.command.motionType (s.command.maxvel : ℝ) (s.command.iniMaxvel : ℝ)
    (s.command.maxacc : ℝ) s.status.enablesNew false = result at hresult ⊢
  have hadd : result.1.Plain := by
    rcases hresult with hsame | ⟨seg, -, ha⟩
    · rw [hsame]
      exact hset
    · exact hset.append ha
  split
  · exact ⟨hadd.abort, hs.spindlesync⟩
  · exact ⟨hadd, hs.spindlesync⟩

theorem coordMoveRefused_plain {s t : Machine ℝ} (hs : s.Plain) (h : coordMoveRefused s = some t) : t.Plain := by
  obtain ⟨status, tp, -, htp, rfl⟩ := coordMoveRefused_cases h
  rcases htp with rfl | rfl
  · exact ⟨hs.planner, hs.spindlesync⟩
  · exact ⟨hs.planner.abort, hs.spindlesync⟩

theorem executeCommand_plain {s t : Machine ℝ} {jogInhibit : Bool} (hs : s.Plain)
    (h : executeCommand s jogInhibit = some t) : t.Plain := by
  have hsame : t.internal = s.internal ∧ t.command = s.command → t.Plain := by
    rintro ⟨hi, hc⟩
    exact ⟨by rw [hi]; exact hs.planner, by rw [hc]; exact hs.spindlesync⟩
  unfold executeCommand at h
  cases hcmd : s.command.command <;> rw [hcmd] at h
  case downloadsConfig =>
    obtain ⟨u, hu, rfl⟩ := Option.map_eq_some_iff.1 h
    obtain ⟨hi, hc⟩ := writeAxis_internal hu
    have hplain := hs.planner
    rw [← hi] at hplain
    exact ⟨⟨hplain.cycleTime, hplain.termCond, hplain.synchronized⟩,
      (congrArg Command.spindlesync hc).trans hs.spindlesync⟩
  case axisEnable =>
    rcases axisEnable_eq h with ⟨-, rfl⟩ | ⟨-, h⟩
    · exact hs
    · obtain ⟨k, -, rfl⟩ := Option.map_eq_some_iff.1 h
      exact ⟨hs.planner, hs.spindlesync⟩
  case axisDisable =>
    obtain ⟨k, -, rfl⟩ := Option.map_eq_some_iff.1 h
    exact ⟨hs.planner, hs.spindlesync⟩
  case abort =>
    cases h
    unfold abortMotion
    dsimp only
    split
    · exact ⟨hs.planner.abort, hs.spindlesync⟩
    · exact ⟨hs.planner, hs.spindlesync⟩
  case pause =>
    cases h
    exact ⟨⟨hs.planner.cycleTime, hs.planner.termCond, hs.planner.synchronized⟩, hs.spindlesync⟩
  case jogCont => exact hsame (jogChecked_internal (f := jogCont s) (fun _ => ⟨rfl, rfl⟩) h)
  case jogIncr => exact hsame (jogChecked_internal (jogIncr_internal s) h)
  case jogAbs => exact hsame (jogChecked_internal (f := jogAbs s) (fun _ => ⟨rfl, rfl⟩) h)
  case jogAbort => exact hsame (writeAxis_internal h)
  case setLine =>
    cases h
    unfold setLine
    cases hr : coordMoveRefused s with
    | none => exact appendLine_plain hs
    | some u => exact coordMoveRefused_plain hs hr
  case setCircle =>
    cases h
    unfold setCircle
    cases hr : coordMoveRefused s with
    | none => exact appendCircle_plain hs
    | some u => exact coordMoveRefused_plain hs hr
  -- the other commands leave the planner and the spindle alone
  all_goals
    cases h
    exact ⟨hs.planner, hs.spindlesync⟩

theorem updatePeriod_plain {s : Machine ℝ} (h : s.internal.coordTp.Plain) :
    (updatePeriod s motionThreadPeriod).internal.coordTp.Plain := by
  rw [updatePeriod_thread]
  split
  · exact h
  · exact ⟨rfl, h.termCond, h.synchronized⟩

theorem sampled_plain {s : Machine ℝ} (h : s.internal.coordTp.Plain) (inp : Inputs) :
    (sampled s inp motionThreadPeriod).internal.coordTp.Plain := by
  obtain ⟨axisArray, heq⟩ := processInputs_eq (handleInterpolation (updatePeriod s motionThreadPeriod)) inp
  unfold sampled
  rw [heq]
  exact (updatePeriod_plain h).setPos _

theorem controllerFront_plain {s : Machine ℝ} (h : s.internal.coordTp.Plain) (inp : Inputs) :
    (controllerFront s inp motionThreadPeriod).internal.coordTp.Plain :=
  setOperatingMode_planner (P := Tp.Plain) (fun _ pos htp => htp.setPos pos)
    (fun _ htp => ⟨htp.cycleTime, htp.termCond, rfl⟩) (s := checkForFaults (sampled s inp motionThreadPeriod))
    (sampled_plain h inp)

theorem emcmotController_plain {s t : Machine ℝ} {inp : Inputs} {fuel : Nat} (hs : s.Plain)
    (h : emcmotController s inp motionThreadPeriod fuel = some t) : t.Plain := by
  refine ⟨?_, ?_⟩
  · exact emcmotController_back (P := Tp.Plain) (fun env _ htp => htp.cycle env)
      (fun _ htp => ⟨htp.cycleTime, htp.termCond, htp.synchronized⟩) (controllerFront_plain hs.planner inp) h
  · rw [(emcmotController_cycleKeeps h).command]
    exact hs.spindlesync

theorem request_command_spindlesync (r : Request) (cmd : Command ℝ) :
    (r.command cmd).spindlesync = cmd.spindlesync := by
  cases r <;> rfl

theorem Step.plain {s t : Machine ℝ} {e : Event ℝ} (hs : s.Plain) (h : Step s e t) (he : e.fromNetwork) : t.Plain := by
  cases h with
  | frame hf =>
    refine ⟨?_, ?_⟩
    · rw [(processFrame_planner hf).1]
      exact hs.planner
    · rw [processFrame_eq] at hf
      cases hr : LinuxFrame.request _ with
      | none =>
        rw [hr] at hf
        cases hf
        exact hs.spindlesync
      | some r =>
        rw [hr] at hf
        rw [(publish_spec hf).2.2.2, request_command_spindlesync]
        exact hs.spindlesync
  | command c => exact he.elim
  | handle hh =>
    rcases emcmotCommandHandler_cases hh with ⟨-, h⟩ | ⟨-, rfl⟩
    · exact executeCommand_plain (s := s.echo) ⟨hs.planner, hs.spindlesync⟩ h
    · exact hs
  | cycle hc => exact emcmotController_plain hs hc

theorem initMachine_plain (numAxes : Int) : (initMachine numAxes : Machine ℝ).Plain := by
  have htraj : ((trajPeriodNsec : Int) : ℝ) * 1e-9 = 1 := by norm_num [trajPeriodNsec, servoPeriodNsec]
  have htp : (initTp : Tp ℝ).termCond = .tangent ∧ (initTp : Tp ℝ).synchronized = .none :=
    ⟨initTp_idle.termCond, initTp_idle.synchronized⟩
  have hservo : ∀ secs : ℝ, (setServoCycleTime (initBuffers numAxes) secs).internal = (initBuffers numAxes).internal ∧
      (setServoCycleTime (initBuffers numAxes) secs).command = (initCommand : Command ℝ) := by
    intro secs
    unfold setServoCycleTime
    split <;> exact ⟨rfl, rfl⟩
  unfold initMachine
  dsimp only
  rw [htraj, setTrajCycleTime_of_pos one_pos]
  obtain ⟨hi, hc⟩ := hservo ((servoPeriodNsec : Int) * 1e-9)
  refine ⟨⟨rfl, ?_, ?_⟩, congrArg Command.spindlesync hc⟩
  · exact (congrArg (fun i : Internal ℝ => i.coordTp.termCond) hi).trans htp.1
  · exact (congrArg (fun i : Internal ℝ => i.coordTp.synchronized) hi).trans htp.2

theorem NetReachable.plain {numAxes : Int} {s : Machine ℝ} (h : NetReachable numAxes s) : s.Plain :=
  h.invariant (fun _ _ _ hs hst => Step.plain hs hst.1 hst.2) (initMachine_plain numAxes)

/-! ### The periods of the interpolators -/

/-- Once the period of the thread is known the interpolators have their segment time and rate. -/
def Machine.Timely (s : Machine ℝ) : Prop :=
  s.lastPeriod = motionThreadPeriod → ∀ i, (s.axes i).cubic.timed = (s.axes i).cubic

theorem timed_cubicInvariant : CubicInvariant fun ci : Cubic ℝ => ci.timed = ci where
  drain ci h := congrArg cubicDrain h
  addPoint ci point h := by
    rw [← h]
    unfold cubicAddPoint Cubic.shift
    split
    · split <;> rfl
    · rfl
  interpolate ci h := by
    rw [← h]
    unfold cubicInterpolate cubicAddPoint Cubic.shift
    dsimp only
    split
    · split
      · split
        · split <;> rfl
        · rfl
      · rfl
    · rfl

theorem Machine.Timely.updatePeriod {s : Machine ℝ} (hs : s.Timely) (i : Fin 3) :
    ((updatePeriod s motionThreadPeriod).axes i).cubic.timed = ((updatePeriod s motionThreadPeriod).axes i).cubic := by
  rw [updatePeriod_thread]
  split
  · rename_i h
    exact hs h i
  · rfl

theorem Keeps.timely {s t : Machine ℝ} (h : Keeps s t) (hs : s.Timely) : t.Timely := by
  intro hlast i
  have hi := hs (h.lastPeriod.symm.trans hlast) i
  rcases h.cubic i with hc | hc
  · rw [hc]
    exact hi
  · rw [hc]
    exact congrArg (fun ci : Cubic ℝ => { ci with needNextPoint := true }) hi

theorem Reachable.timely {numAxes : Int} {s : Machine ℝ} (h : Reachable numAxes s) : s.Timely := by
  refine Lib.Reaches.invariant (I := Machine.Timely) ?_ h ?_
  · intro s e t hs hst
    cases hst with
    | frame hf => exact (processFrame_quiet hf).toKeeps.timely hs
    | command c => exact hs
    | handle hh => exact (emcmotCommandHandler_keeps hh).timely hs
    | cycle hc => exact fun _ => emcmotController_cubics timed_cubicInvariant hs.updatePeriod hc
  · intro hlast
    rw [initMachine_lastPeriod] at hlast
    cases hlast

end SoemMotion
