import SoemMotion.System

/-!
# What commands leave alone

`ProcessTask` and the command handler write requests: the position of the axes, the modes in force and the override of
the limits are the controller's, and neither of them touches them.  Six commands request a mode or enable something; all
the others leave these requests alone, too.
-/

namespace SoemMotion

variable {K : Type} [Arith K]

/-- The part of the state that only the controller writes is the same in both states. -/
structure Keeps (s t : Machine K) : Prop where
  enable : t.status.motionFlag.enable = s.status.motionFlag.enable
  inpos : t.status.motionFlag.inpos = s.status.motionFlag.inpos
  free : t.status.motionFlag.free = s.status.motionFlag.free
  coord : t.status.motionFlag.coord = s.status.motionFlag.coord
  motionState : t.status.motionState = s.status.motionState
  overrideLimitMask : t.status.overrideLimitMask = s.status.overrideLimitMask
  numAxes : t.config.numAxes = s.config.numAxes
  numMiscError : t.config.numMiscError = s.config.numMiscError
  servoPeriod : t.servoPeriod = s.servoPeriod
  lastPeriod : t.lastPeriod = s.lastPeriod
  axisEnable : ∀ i, (t.axes i).flag.enable = (s.axes i).flag.enable
  posCmd : ∀ i, (t.axes i).posCmd = (s.axes i).posCmd
  cubic : ∀ i, (t.axes i).cubic = (s.axes i).cubic ∨
    (t.axes i).cubic = { (s.axes i).cubic with needNextPoint := true }

omit [Arith K] in
theorem Keeps.refl (s : Machine K) : Keeps s s :=
  ⟨rfl, rfl, rfl, rfl, rfl, rfl, rfl, rfl, rfl, rfl, fun _ => rfl, fun _ => rfl, fun _ => .inl rfl⟩

omit [Arith K] in
theorem Keeps.trans {s t u : Machine K} (h : Keeps s t) (h' : Keeps t u) : Keeps s u where
  enable := h'.enable.trans h.enable
  inpos := h'.inpos.trans h.inpos
  free := h'.free.trans h.free
  coord := h'.coord.trans h.coord
  motionState := h'.motionState.trans h.motionState
  overrideLimitMask := h'.overrideLimitMask.trans h.overrideLimitMask
  numAxes := h'.numAxes.trans h.numAxes
  numMiscError := h'.numMiscError.trans h.numMiscError
  servoPeriod := h'.servoPeriod.trans h.servoPeriod
  lastPeriod := h'.lastPeriod.trans h.lastPeriod
  axisEnable := fun i => (h'.axisEnable i).trans (h.axisEnable i)
  posCmd := fun i => (h'.posCmd i).trans (h.posCmd i)
  cubic := by
    intro i
    rcases h.cubic i with h1 | h1 <;> rcases h'.cubic i with h2 | h2
    · exact .inl (h2.trans h1)
    · exact .inr (by rw [h2, h1])
    · exact .inr (h2.trans h1)
    · exact .inr (by rw [h2, h1])

/-- Neither a mode is requested nor anything enabled or disabled. -/
structure Quiet (s t : Machine K) : Prop extends Keeps s t where
  enabling : t.internal.enabling = s.internal.enabling
  freeing : t.internal.freeing = s.internal.freeing
  coordinating : t.internal.coordinating = s.internal.coordinating
  active : ∀ i, (t.axes i).flag.active = (s.axes i).flag.active

omit [Arith K] in
theorem Quiet.refl (s : Machine K) : Quiet s s := ⟨Keeps.refl s, rfl, rfl, rfl, fun _ => rfl⟩

omit [Arith K] in
theorem Quiet.trans {s t u : Machine K} (h : Quiet s t) (h' : Quiet t u) : Quiet s u where
  toKeeps := h.toKeeps.trans h'.toKeeps
  enabling := h'.enabling.trans h.enabling
  freeing := h'.freeing.trans h.freeing
  coordinating := h'.coordinating.trans h.coordinating
  active := fun i => (h'.active i).trans (h.active i)

omit [Arith K] in
theorem Quiet.setCommand {s t : Machine K} (h : Quiet s t) (cmd : Command K) : Quiet s { t with command := cmd } :=
  { h with }

/-- An update of an axis that writes neither its position, its ENABLE bit nor its interpolator. -/
structure AxisKeeps (f : Axis K → Axis K) : Prop where
  enable : ∀ axis, (f axis).flag.enable = axis.flag.enable
  posCmd : ∀ axis, (f axis).posCmd = axis.posCmd
  cubic : ∀ axis, (f axis).cubic = axis.cubic

/-- One that writes no ACTIVE bit either. -/
structure AxisQuiet (f : Axis K → Axis K) : Prop extends AxisKeeps f where
  active : ∀ axis, (f axis).flag.active = axis.flag.active

omit [Arith K] in
/-- Such an update of some of the axes. -/
theorem mapAxes_keeps {s : Machine K} {p : Fin 3 → Prop} [DecidablePred p] {f : Axis K → Axis K} (hf : AxisKeeps f) :
    Keeps s { s with axes := fun i => if p i then f (s.axes i) else s.axes i } := by
  refine { Keeps.refl s with axisEnable := ?_, posCmd := ?_, cubic := ?_ }
  · intro i
    dsimp only
    split
    · exact hf.enable _
    · rfl
  · intro i
    dsimp only
    split
    · exact hf.posCmd _
    · rfl
  · intro i
    left
    dsimp only
    split
    · exact hf.cubic _
    · rfl

omit [Arith K] in
theorem mapAxes_quiet {s : Machine K} {p : Fin 3 → Prop} [DecidablePred p] {f : Axis K → Axis K} (hf : AxisQuiet f) :
    Quiet s { s with axes := fun i => if p i then f (s.axes i) else s.axes i } := by
  refine { Quiet.refl s with toKeeps := mapAxes_keeps hf.toAxisKeeps, active := ?_ }
  intro i
  dsimp only
  split
  · exact hf.active _
  · rfl

omit [Arith K] in
theorem updateAxis_quiet {s : Machine K} {i : Fin 3} {f : Axis K → Axis K} (hf : AxisQuiet f) :
    Quiet s (s.updateAxis i f) :=
  mapAxes_quiet hf

omit [Arith K] in
theorem writeAxis_quiet {s t : Machine K} {n : Int} {f : Axis K → Axis K} (hf : AxisQuiet f)
    (h : s.writeAxis n f = some t) : Quiet s t := by
  obtain ⟨i, _, rfl⟩ := Option.map_eq_some_iff.1 h
  exact updateAxis_quiet hf

omit [Arith K] in
theorem mapConfigured_quiet {s : Machine K} {f : Axis K → Axis K} (hf : AxisQuiet f) :
    Quiet s (s.mapConfigured f) :=
  mapAxes_quiet hf

/-! ### ProcessTask -/

omit [Arith K] in
theorem configureAxis_quiet (cmd : Command K) (vel acc : Int) :
    AxisQuiet fun axis : Axis K => configureAxis axis cmd vel acc :=
  ⟨⟨fun _ => rfl, fun _ => rfl, fun _ => rfl⟩, fun _ => rfl⟩

omit [Arith K] in
theorem publishJog_quiet {s t : Machine K} {frame : LinuxFrame} {code : CmdCode} {acc : Int} {cmd : Command K}
    [Arith K] (h : publishJog s frame code acc cmd = some t) : Quiet s t := by
  obtain ⟨u, hu, rfl⟩ := Option.map_eq_some_iff.1 h
  exact { writeAxis_quiet (configureAxis_quiet s.command (frame.param 0) acc) hu with }

omit [Arith K] in
theorem configureLineAxes_quiet (s : Machine K) (frame : LinuxFrame) : Quiet s (configureLineAxes s frame) := by
  unfold configureLineAxes
  generalize frame.param = param
  exact mapAxes_quiet (configureAxis_quiet s.command (param 1) (param 2))

theorem decodeFrame_quiet {s t : Machine K} {frame : LinuxFrame} (h : decodeFrame s frame = some t) :
    Quiet s t := by
  unfold decodeFrame at h
  split at h
  case h_6 => exact publishJog_quiet h
  case h_7 => exact publishJog_quiet h
  case h_8 => exact publishJog_quiet h
  case h_10 =>
    cases h
    exact (configureLineAxes_quiet s frame).setCommand _
  all_goals
    cases h
    exact { Quiet.refl s with }

theorem processFrame_quiet {s t : Machine K} {frame : LinuxFrame} (h : processFrame s frame = some t) :
    Quiet s t := by
  unfold processFrame at h
  split at h
  · cases h
    exact Quiet.refl s
  · exact decodeFrame_quiet h

/-! ### The command handler -/

omit [Arith K] in
theorem setError_quiet (fl : Bool) : AxisQuiet fun axis : Axis K => axis.setError fl :=
  ⟨⟨fun _ => rfl, fun _ => rfl, fun _ => rfl⟩, fun _ => rfl⟩

omit [Arith K] in
theorem startJog_quiet (posCmd vel maxVel acc dir : Axis K → Int) :
    AxisQuiet fun axis : Axis K => axis.startJog (posCmd axis) (vel axis) (maxVel axis) (acc axis) (dir axis) :=
  ⟨⟨fun _ => rfl, fun _ => rfl, fun _ => rfl⟩, fun _ => rfl⟩

omit [Arith K] in
theorem stopFree_quiet : AxisQuiet (Axis.stopFree : Axis K → Axis K) :=
    ⟨⟨fun _ => rfl, fun _ => rfl, fun _ => rfl⟩, fun _ => rfl⟩

omit [Arith K] in
theorem clearFaults_quiet : AxisQuiet (Axis.clearFaults : Axis K → Axis K) :=
  ⟨⟨fun _ => rfl, fun _ => rfl, fun _ => rfl⟩, fun _ => rfl⟩

omit [Arith K] in
theorem jogAbortAxis_quiet : AxisQuiet (jogAbortAxis : Axis K → Axis K) :=
  ⟨⟨fun _ => rfl, fun _ => rfl, fun _ => rfl⟩, fun _ => rfl⟩

omit [Arith K] in
theorem jogCont_quiet (s : Machine K) (i : Fin 3) : Quiet s (jogCont s i) :=
  { updateAxis_quiet (s := s) (i := i) (f := fun axis => jogContAxis axis s.command) (startJog_quiet _ _ _ _ _) with }

/-- An incremental jog inside the jog limits is started. -/
theorem jogIncr_accepted {s : Machine K} {i : Fin 3} (hmin : (s.axes i).minJogLimit ≤ jogIncrTarget (s.axes i) s.command)
    (hmax : jogIncrTarget (s.axes i) s.command ≤ (s.axes i).maxJogLimit) :
    jogIncr s i = { s.updateAxis i (jogIncrAxis · s.command) with
      axisArray := fun n => if n = i then axisJogAbort (s.axisArray n) false else s.axisArray n } := by
  unfold jogIncr
  dsimp only
  rw [if_neg (not_lt.2 hmax), if_neg (not_lt.2 hmin)]

/-- An incremental jog past a jog limit changes nothing. -/
theorem jogIncr_cases (s : Machine K) (i : Fin 3) : jogIncr s i = s ∨
    ((s.axes i).minJogLimit ≤ jogIncrTarget (s.axes i) s.command ∧
      jogIncrTarget (s.axes i) s.command ≤ (s.axes i).maxJogLimit ∧
      jogIncr s i = { s.updateAxis i (jogIncrAxis · s.command) with
        axisArray := fun n => if n = i then axisJogAbort (s.axisArray n) false else s.axisArray n }) := by
  by_cases hmax : (s.axes i).maxJogLimit < jogIncrTarget (s.axes i) s.command
  · left
    exact if_pos hmax
  · by_cases hmin : jogIncrTarget (s.axes i) s.command < (s.axes i).minJogLimit
    · left
      unfold jogIncr
      dsimp only
      rw [if_neg hmax, if_pos hmin]
    · right
      exact ⟨not_lt.1 hmin, not_lt.1 hmax, jogIncr_accepted (not_lt.1 hmin) (not_lt.1 hmax)⟩

theorem jogIncr_quiet (s : Machine K) (i : Fin 3) : Quiet s (jogIncr s i) := by
  rcases jogIncr_cases s i with h | ⟨-, -, h⟩
  · rw [h]
    exact Quiet.refl s
  · rw [h]
    exact { updateAxis_quiet (s := s) (i := i) (f := fun axis => jogIncrAxis axis s.command)
        (startJog_quiet _ _ _ _ _) with }

theorem jogAbs_quiet (s : Machine K) (i : Fin 3) : Quiet s (jogAbs s i) :=
  updateAxis_quiet (f := fun axis => jogAbsAxis axis s.command) (startJog_quiet _ _ _ _ _)

omit [Arith K] in
theorem jogChecked_quiet {s t : Machine K} {jogInhibit : Bool} {jog : Fin 3 → Machine K}
    (hjog : ∀ i, Quiet s (jog i)) (h : jogChecked s jogInhibit jog = some t) : Quiet s t := by
  unfold jogChecked at h
  split at h
  · exact writeAxis_quiet (setError_quiet true) h
  · split at h
    · cases h
      exact Quiet.refl s
    · obtain ⟨i, _, rfl⟩ := Option.map_eq_some_iff.1 h
      split
      · exact updateAxis_quiet (setError_quiet true)
      · exact hjog i

omit [Arith K] in
theorem downloadsConfig_quiet {s t : Machine K} [Arith K] (h : downloadsConfig s = some t) : Quiet s t := by
  obtain ⟨u, hu, rfl⟩ := Option.map_eq_some_iff.1 h
  have hk : AxisQuiet fun axis : Axis K => downloadsConfigAxis axis s.command :=
    ⟨⟨fun _ => rfl, fun _ => rfl, fun _ => rfl⟩, fun _ => rfl⟩
  exact { writeAxis_quiet hk hu with }

omit [Arith K] in
theorem setAxisActive_keeps {s t : Machine K} {fl : Bool} (h : s.setAxisActive fl = some t) : Keeps s t := by
  obtain ⟨i, _, rfl⟩ := Option.map_eq_some_iff.1 h
  have hk : AxisKeeps fun axis : Axis K => axis.setActive fl := ⟨fun _ => rfl, fun _ => rfl, fun _ => rfl⟩
  have hm := mapAxes_keeps (s := s) (p := fun j => j = i) hk
  exact { hm with }

omit [Arith K] in
/-- The axis commands only write the ACTIVE bit of the commanded axis. -/
theorem setAxisActive_eq {s t : Machine K} {fl : Bool} (h : s.setAxisActive fl = some t) :
    ∃ i, axisIndex s.command.axis = some i ∧ t.internal = s.internal ∧ t.status = s.status ∧
      ∀ j, t.axes j = if j = i then (s.axes j).setActive fl else s.axes j := by
  obtain ⟨i, hi, rfl⟩ := Option.map_eq_some_iff.1 h
  exact ⟨i, hi, rfl, rfl, fun _ => rfl⟩

omit [Arith K] in
/-- AXIS_ENABLE does nothing while the enable pin is 0. -/
theorem axisEnable_eq {s t : Machine K} (h : axisEnable s = some t) :
    s.hal.enable = false ∧ t = s ∨ s.hal.enable = true ∧ s.setAxisActive true = some t := by
  unfold axisEnable at h
  cases he : s.hal.enable with
  | false =>
    rw [he] at h
    exact .inl ⟨rfl, (Option.some.inj h).symm⟩
  | true =>
    rw [he] at h
    exact .inr ⟨rfl, h⟩

omit [Arith K] in
theorem axisEnable_keeps {s t : Machine K} (h : axisEnable s = some t) : Keeps s t := by
  rcases axisEnable_eq h with ⟨-, rfl⟩ | ⟨-, h⟩
  · exact Keeps.refl _
  · exact setAxisActive_keeps h

omit [Arith K] in
theorem abortMotion_quiet (s : Machine K) : Quiet s (abortMotion s) := by
  have h1 : Quiet s (if s.status.motionFlag.coord then s.setTp (tpAbort s.internal.coordTp)
      else s.mapConfigured Axis.stopFree) := by
    split
    · exact { Quiet.refl s with }
    · exact mapConfigured_quiet stopFree_quiet
  have h2 : Quiet s (abortMotion s) :=
    { (h1.trans { Quiet.refl _ with }).trans (mapConfigured_quiet clearFaults_quiet) with }
  exact h2

omit [Arith K] in
theorem requestPoint_quiet (s : Machine K) (i : Fin 3) : Quiet s (s.updateAxis i Axis.requestPoint) := by
  refine { Quiet.refl s with axisEnable := ?_, posCmd := ?_, cubic := ?_, active := ?_ }
  all_goals
    intro j
    dsimp only [Machine.updateAxis]
    split
  · rfl
  · rfl
  · rfl
  · rfl
  · exact .inr rfl
  · exact .inl rfl
  · rfl
  · rfl

theorem appendLine_quiet (s : Machine K) : Quiet s (appendLine s) := by
  unfold appendLine
  generalize addCommandedLine s = added
  obtain ⟨tp, res⟩ := added
  dsimp only
  split
  · exact { Quiet.refl s with }
  · refine Quiet.trans (t := Machine.setTp _ _) ?_ (requestPoint_quiet _ 0)
    exact { Quiet.refl s with }

omit [Arith K] in
/-- A refused move is answered with an error; it is aborted in the planner if a limit is on. -/
theorem coordMoveRefused_cases {s t : Machine K} (h : coordMoveRefused s = some t) : ∃ status tp, status ≠ .ok ∧
    (tp = s.internal.coordTp ∨ tp = tpAbort s.internal.coordTp) ∧
    t = ((s.setCommandStatus status).setTp tp).setMotionError true := by
  unfold coordMoveRefused at h
  split at h
  · cases h
    exact ⟨.invalidCommand, _, CmdStatus.noConfusion, .inl rfl, rfl⟩
  · split at h
    · cases h
      exact ⟨.invalidParams, _, CmdStatus.noConfusion, .inr rfl, rfl⟩
    · cases h

omit [Arith K] in
theorem coordMoveRefused_quiet {s t : Machine K} (h : coordMoveRefused s = some t) : Quiet s t := by
  obtain ⟨status, tp, -, -, rfl⟩ := coordMoveRefused_cases h
  exact { Quiet.refl s with }

theorem setLine_quiet (s : Machine K) : Quiet s (setLine s) := by
  unfold setLine
  cases h : coordMoveRefused s with
  | none => exact appendLine_quiet s
  | some t => exact coordMoveRefused_quiet h

theorem appendCircle_quiet (s : Machine K) : Quiet s (appendCircle s) := by
  unfold appendCircle
  dsimp only
  split
  · exact { Quiet.refl s with }
  · exact { Quiet.refl s with }

theorem setCircle_quiet (s : Machine K) : Quiet s (setCircle s) := by
  unfold setCircle
  cases h : coordMoveRefused s with
  | none => exact appendCircle_quiet s
  | some t => exact coordMoveRefused_quiet h

/-- The commands that enable, disable or request a mode. -/
def CmdCode.isRequest : CmdCode → Bool
  | .axisEnable | .axisDisable | .motionEnable | .motionDisable | .setFree | .setCoord => true
  | _ => false

theorem executeCommand_quiet {s t : Machine K} {jogInhibit : Bool} (hc : s.command.command.isRequest = false)
    (h : executeCommand s jogInhibit = some t) : Quiet s t := by
  unfold executeCommand at h
  cases hcmd : s.command.command <;> rw [hcmd] at h hc
  case downloadsConfig => exact downloadsConfig_quiet h
  case abort =>
    cases h
    exact abortMotion_quiet s
  case jogCont => exact jogChecked_quiet (jogCont_quiet s) h
  case jogIncr => exact jogChecked_quiet (jogIncr_quiet s) h
  case jogAbs => exact jogChecked_quiet (jogAbs_quiet s) h
  case jogAbort => exact writeAxis_quiet jogAbortAxis_quiet h
  case setLine =>
    cases h
    exact setLine_quiet s
  case setCircle =>
    cases h
    exact setCircle_quiet s
  case pause =>
    cases h
    exact { Quiet.refl s with }
  case free | resume | unknown =>
    cases h
    exact Quiet.refl s
  all_goals cases hc

theorem executeCommand_keeps {s t : Machine K} {jogInhibit : Bool} (h : executeCommand s jogInhibit = some t) :
    Keeps s t := by
  cases hc : s.command.command.isRequest with
  | false => exact (executeCommand_quiet hc h).toKeeps
  | true =>
    unfold executeCommand at h
    cases hcmd : s.command.command <;> rw [hcmd] at h hc
    case axisEnable => exact axisEnable_keeps h
    case axisDisable => exact setAxisActive_keeps h
    case motionEnable | motionDisable | setFree | setCoord =>
      cases h
      exact { Keeps.refl s with }
    all_goals cases hc

/-- The state in which the handler executes a new command. -/
def Machine.echo (s : Machine K) : Machine K :=
  { s with status := { s.status with commandNumEcho := s.command.commandNum, commandStatus := .ok } }

/-- The handler either executes the command or finds it old. -/
theorem emcmotCommandHandler_cases {s t : Machine K} {jogInhibit : Bool}
    (h : emcmotCommandHandler s jogInhibit = some t) :
    s.command.commandNum ≠ s.status.commandNumEcho ∧ executeCommand s.echo jogInhibit = some t ∨
      s.command.commandNum = s.status.commandNumEcho ∧ t = s := by
  unfold emcmotCommandHandler at h
  split at h
  · rename_i hne
    exact .inl ⟨hne, h⟩
  · rename_i heq
    exact .inr ⟨not_not.1 heq, (Option.some.inj h).symm⟩

theorem emcmotCommandHandler_keeps {s t : Machine K} {jogInhibit : Bool}
    (h : emcmotCommandHandler s jogInhibit = some t) : Keeps s t := by
  rcases emcmotCommandHandler_cases h with ⟨-, h⟩ | ⟨-, rfl⟩
  · exact { executeCommand_keeps h with }
  · exact Keeps.refl _

/-- Of all steps, only a cycle does more than requesting. -/
theorem Step.keeps {s t : Machine K} {e : Event K} (h : Step s e t) (he : ∀ inp, e ≠ .cycle inp) : Keeps s t := by
  cases h with
  | frame h => exact (processFrame_quiet h).toKeeps
  | command c => exact { Keeps.refl s with }
  | handle h => exact emcmotCommandHandler_keeps h
  | cycle h => exact absurd rfl (he _)

/-! ### Commands without parameters -/

/-- A command from the network is executed at the next call of the handler, if the one before it was. -/
theorem plainFrame_run (s : Machine ℝ) (code axis : UInt8) (c : CmdCode) (fuel : Nat) (j : Bool)
    (hframe : processFrame s (plainFrame code axis) = some (publishPlain s (plainFrame code axis) c))
    (hnum : s.command.commandNum = s.status.commandNumEcho) :
    runEvents fuel s [.frame (plainFrame code axis), .handle j] =
      executeCommand (publishPlain s (plainFrame code axis) c).echo j := by
  have hne : (publishPlain s (plainFrame code axis) c).command.commandNum ≠
      (publishPlain s (plainFrame code axis) c).status.commandNumEcho := by
    show s.command.commandNum + 1 ≠ s.status.commandNumEcho
    omega
  have hhandle : emcmotCommandHandler (publishPlain s (plainFrame code axis) c) j =
      executeCommand (publishPlain s (plainFrame code axis) c).echo j := by
    unfold emcmotCommandHandler
    rw [if_pos hne]
    rfl
  show (processFrame s (plainFrame code axis)).bind (fun s => (emcmotCommandHandler s j).bind fun s => some s) = _
  rw [hframe, Option.bind_some, hhandle, Option.bind_fun_some]

end SoemMotion
