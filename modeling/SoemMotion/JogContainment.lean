import SoemMotion.FaultStop
import SoemMotion.FreePlanner
import SoemMotion.Timing

/-!
# Jogs within the limits

A jog is accepted whatever the axis is doing, and with the velocity and the acceleration of the frame.  If the axis can
stop within its limits under the new acceleration, its planner stays safe, and so it does in every run of jogs and
cycles; a jog with a negative velocity or acceleration, or with too small an acceleration, leaves the limits.
-/

namespace SoemMotion

open Lib

/-! ### The jog commands -/

/-- The four jog commands. -/
def CmdCode.isJog : CmdCode → Bool
  | .jogCont | .jogIncr | .jogAbs | .jogAbort => true
  | _ => false

/-- The handler is about to start a jog on axis `i`: what it checks before it looks at the target. -/
def JogChecked (s : Machine ℝ) (jogInhibit : Bool) (i : Fin 3) : Prop :=
  s.status.motionFlag.enable = true ∧ jogInhibit = false ∧ axisIndex s.command.axis = some i ∧
    jointJogOk s i s.command.maxvel = true

/-- The velocity and the acceleration of the jog the handler starts on axis `i`. -/
inductive StartsJog (s : Machine ℝ) (jogInhibit : Bool) (i : Fin 3) : Int → Int → Prop
  | cont (hc : s.command.command = .jogCont) (h : JogChecked s jogInhibit i) :
    StartsJog s jogInhibit i (jogVel (s.axes i) s.command) (jogAcc (s.axes i) s.command)
  | incr (hc : s.command.command = .jogIncr) (h : JogChecked s jogInhibit i)
      (hmin : (s.axes i).minJogLimit ≤ jogIncrTarget (s.axes i) s.command)
      (hmax : jogIncrTarget (s.axes i) s.command ≤ (s.axes i).maxJogLimit) :
    StartsJog s jogInhibit i (jogVel (s.axes i) s.command) (s.axes i).accCmd
  | abs (hc : s.command.command = .jogAbs) (h : JogChecked s jogInhibit i) :
    StartsJog s jogInhibit i (jogVel (s.axes i) s.command) (jogAcc (s.axes i) s.command)

/-- What the handler does to the planner of axis `i`: nothing, a stop, or a jog to a target within the limits. -/
inductive JogEffect (s : Machine ℝ) (jogInhibit : Bool) (i : Fin 3) (tp : SimpleTp) : Prop
  | same (h : tp = (s.axes i).freeTp)
  | stop (h : tp = { (s.axes i).freeTp with enable := false })
  | jog {pos vel acc maxVel maxAcc dir : Int} (hstart : StartsJog s jogInhibit i vel acc)
      (htarget : (s.axes i).minJogLimit ≤ (s.axes i).maxJogLimit →
        (s.axes i).minJogLimit ≤ pos ∧ pos ≤ (s.axes i).maxJogLimit)
      (h : tp = { (s.axes i).freeTp with
        posCmd := pos, vel := vel, acc := acc, maxVel := maxVel, maxAcc := maxAcc, dir := dir, enable := true })

theorem updateAxis_freeTp (s : Machine ℝ) (k i : Fin 3) (f : Axis ℝ → Axis ℝ) :
    ((s.updateAxis k f).axes i).freeTp = if i = k then (f (s.axes i)).freeTp else (s.axes i).freeTp := by
  show (if i = k then f (s.axes i) else s.axes i).freeTp = _
  split <;> rfl

/-- The three jogs on axis `k`, once their checks have passed. -/
theorem jogChecked_effect {s t : Machine ℝ} {jogInhibit : Bool} {f : Fin 3 → Machine ℝ} (i : Fin 3)
    (hjog : ∀ k, (f k).command = s.command ∧ (f k).status = s.status)
    (heffect : ∀ k, axisIndex s.command.axis = some k → s.status.motionFlag.enable = true → jogInhibit = false →
      jointJogOk s k s.command.maxvel = true → JogEffect s jogInhibit i ((f k).axes i).freeTp)
    (h : jogChecked s jogInhibit f = some t) :
    t.command = s.command ∧ t.status = s.status ∧ JogEffect s jogInhibit i (t.axes i).freeTp := by
  have herror : ∀ k, JogEffect s jogInhibit i ((s.updateAxis k (Axis.setError · true)).axes i).freeTp := by
    intro k
    rw [updateAxis_freeTp]
    split
    · exact .same rfl
    · exact .same rfl
  unfold jogChecked at h
  split at h
  · obtain ⟨k, -, rfl⟩ := Option.map_eq_some_iff.1 h
    exact ⟨rfl, rfl, herror k⟩
  · rename_i hen
    split at h
    · cases h
      exact ⟨rfl, rfl, .same rfl⟩
    · rename_i hinh
      obtain ⟨k, hk, rfl⟩ := Option.map_eq_some_iff.1 h
      split
      · exact ⟨rfl, rfl, herror k⟩
      · rename_i hok
        exact ⟨(hjog k).1, (hjog k).2, heffect k hk (by simpa using hen) (by simpa using hinh) (by simpa using hok)⟩

theorem jogAbsTarget_mem (axis : Axis ℝ) (cmd : Command ℝ) (h : axis.minJogLimit ≤ axis.maxJogLimit) :
    axis.minJogLimit ≤ jogAbsTarget axis cmd ∧ jogAbsTarget axis cmd ≤ axis.maxJogLimit := by
  unfold jogAbsTarget
  dsimp only
  split
  · split <;> omega
  · split <;> omega

/-- What executing a jog command does. -/
theorem executeJog_effect {s t : Machine ℝ} {jogInhibit : Bool} (i : Fin 3) (hc : s.command.command.isJog = true)
    (h : executeCommand s jogInhibit = some t) :
    t.command = s.command ∧ t.status = s.status ∧ JogEffect s jogInhibit i (t.axes i).freeTp := by
  unfold executeCommand at h
  cases hcmd : s.command.command <;> rw [hcmd] at h hc
  case jogCont =>
    refine jogChecked_effect (f := jogCont s) i (fun _ => ⟨rfl, rfl⟩) ?_ h
    intro k hk hen hinh hok
    show JogEffect s jogInhibit i ((s.updateAxis k (jogContAxis · s.command)).axes i).freeTp
    rw [updateAxis_freeTp]
    split
    · rename_i hik
      subst hik
      refine .jog (.cont hcmd ⟨hen, hinh, hk, hok⟩) ?_ rfl
      intro hlim
      split <;> omega
    · exact .same rfl
  case jogIncr =>
    refine jogChecked_effect i ?_ ?_ h
    · intro k
      rcases jogIncr_cases s k with hjog | ⟨-, -, hjog⟩ <;> rw [hjog] <;> exact ⟨rfl, rfl⟩
    · intro k hk hen hinh hok
      rcases jogIncr_cases s k with hjog | ⟨hmin, hmax, hjog⟩
      · rw [hjog]
        exact .same rfl
      · rw [hjog]
        show JogEffect s jogInhibit i ((s.updateAxis k (jogIncrAxis · s.command)).axes i).freeTp
        rw [updateAxis_freeTp]
        split
        · rename_i hik
          subst hik
          exact .jog (.incr hcmd ⟨hen, hinh, hk, hok⟩ hmin hmax) (fun _ => ⟨hmin, hmax⟩) rfl
        · exact .same rfl
  case jogAbs =>
    refine jogChecked_effect (f := jogAbs s) i (fun _ => ⟨rfl, rfl⟩) ?_ h
    intro k hk hen hinh hok
    show JogEffect s jogInhibit i ((s.updateAxis k (jogAbsAxis · s.command)).axes i).freeTp
    rw [updateAxis_freeTp]
    split
    · rename_i hik
      subst hik
      exact .jog (.abs hcmd ⟨hen, hinh, hk, hok⟩) (jogAbsTarget_mem _ _) rfl
    · exact .same rfl
  case jogAbort =>
    obtain ⟨k, -, rfl⟩ := Option.map_eq_some_iff.1 h
    refine ⟨rfl, rfl, ?_⟩
    rw [updateAxis_freeTp]
    split
    · exact .stop rfl
    · exact .same rfl
  all_goals cases hc

/-! ### Jog frames -/

theorem publishJog_effect {s t : Machine ℝ} {frame : LinuxFrame} {code : CmdCode} {acc : Int} {cmd : Command ℝ}
    (h : publishJog s frame code acc cmd = some t) : t.status = s.status ∧ t.internal = s.internal ∧
      t.command.command = code ∧ ∀ i, (t.axes i).freeTp = (s.axes i).freeTp := by
  obtain ⟨u, hu, rfl⟩ := Option.map_eq_some_iff.1 h
  obtain ⟨k, -, rfl⟩ := Option.map_eq_some_iff.1 hu
  refine ⟨rfl, rfl, rfl, ?_⟩
  intro i
  refine (updateAxis_freeTp s k i fun axis => configureAxis axis s.command (frame.param 0) acc).trans ?_
  split <;> rfl

/-- The frame of a jog publishes the jog and leaves the planners alone. -/
theorem jogFrame_effect {s t : Machine ℝ} {frame : LinuxFrame}
    (hf : (CmdCode.ofIndex (frame.u16 0)).isJog = true) (h : processFrame s frame = some t) :
    t.status = s.status ∧ t.internal = s.internal ∧ (t.command = s.command ∨ t.command.command.isJog = true) ∧
      ∀ i, (t.axes i).freeTp = (s.axes i).freeTp := by
  unfold processFrame at h
  split at h
  · cases h
    exact ⟨rfl, rfl, .inl rfl, fun _ => rfl⟩
  · unfold decodeFrame at h
    cases hcode : CmdCode.ofIndex (frame.u16 0) <;> rw [hcode] at h hf
    case jogCont =>
      obtain ⟨h1, h2, h3, h4⟩ := publishJog_effect h
      exact ⟨h1, h2, .inr (by rw [h3]; rfl), h4⟩
    case jogIncr =>
      obtain ⟨h1, h2, h3, h4⟩ := publishJog_effect h
      exact ⟨h1, h2, .inr (by rw [h3]; rfl), h4⟩
    case jogAbs =>
      obtain ⟨h1, h2, h3, h4⟩ := publishJog_effect h
      exact ⟨h1, h2, .inr (by rw [h3]; rfl), h4⟩
    case jogAbort =>
      cases h
      exact ⟨rfl, rfl, .inr rfl, fun _ => rfl⟩
    all_goals cases hf

/-! ### A cycle in free mode -/

/-- No mode is requested that is not in force already, and coordinated mode is not in force. -/
structure Machine.Settled (s : Machine ℝ) : Prop where
  enabling : s.internal.enabling = s.status.motionFlag.enable
  coordinating : s.internal.coordinating = false
  coord : s.status.motionFlag.coord = false
  freeing : s.internal.freeing = true → s.status.motionFlag.free = true

/-- The planner is left alone by the front of a cycle, or stopped dead. -/
def Stilled (tp tp' : SimpleTp) : Prop := tp' = tp ∨ tp' = { tp with enable := false, currVel := 0 }

theorem setOperatingMode_settled {s : Machine ℝ} (hen : s.internal.enabling = true → s.status.motionFlag.enable = true)
    (hcoord : s.internal.coordinating = false) (hfree : s.internal.freeing = true → s.status.motionFlag.free = true)
    (i : Fin 3) : Stilled (s.axes i).freeTp ((setOperatingMode s).axes i).freeTp ∧
      (s.internal.enabling = true → ((setOperatingMode s).axes i).freeTp = (s.axes i).freeTp) := by
  have h1 : enableMotion (disableMotion s) = disableMotion s := enableMotion_idle hen
  have h2 : (disableMotion s).internal.coordinating = false := by
    unfold disableMotion
    split <;> exact hcoord
  have h3 : enterCoord (disableMotion s) = disableMotion s := enterCoord_idle h2
  have h4 : enterFree (disableMotion s) = disableMotion s := by
    have hreq : (disableMotion s).internal.freeing = s.internal.freeing := by
      unfold disableMotion
      split <;> rfl
    have hflag : (disableMotion s).status.motionFlag.free = s.status.motionFlag.free := by
      unfold disableMotion
      split <;> rfl
    unfold enterFree
    rw [hreq, hflag]
    cases hf : s.internal.freeing with
    | false => rfl
    | true => rw [hfree hf]; rfl
  show Stilled _ ((enterFree (enterCoord (enableMotion (disableMotion s)))).axes i).freeTp ∧
    (_ → ((enterFree (enterCoord (enableMotion (disableMotion s)))).axes i).freeTp = _)
  rw [h1, h3, h4]
  unfold disableMotion
  cases he : s.internal.enabling with
  | false =>
    split
    · exact ⟨.inr rfl, fun h => by cases h⟩
    · exact ⟨.inl rfl, fun _ => rfl⟩
  | true => exact ⟨.inl rfl, fun _ => rfl⟩

theorem sampled_freeTp (s : Machine ℝ) (inp : Inputs) (period : Int) (i : Fin 3) :
    ((checkForFaults (sampled s inp period)).axes i).freeTp = (s.axes i).freeTp := by
  obtain ⟨cubic, h⟩ := sampled_axes s inp period i
  have h1 : ∀ axis : Axis ℝ, (processAxisInputs axis (inp.axis i)).freeTp = axis.freeTp := by
    intro axis
    unfold processAxisInputs
    split <;> rfl
  have h2 : ((checkForFaults (sampled s inp period)).axes i).freeTp = ((sampled s inp period).axes i).freeTp := by
    show (if _ then _ else _ : Axis ℝ).freeTp = _
    split <;> rfl
  rw [h2, h]
  exact h1 _

theorem controllerFront_settled {s : Machine ℝ} (h : s.Settled) (inp : Inputs) (i : Fin 3) :
    Stilled (s.axes i).freeTp ((controllerFront s inp motionThreadPeriod).axes i).freeTp ∧
      ((controllerFront s inp motionThreadPeriod).internal.enabling = true →
        ((controllerFront s inp motionThreadPeriod).axes i).freeTp = (s.axes i).freeTp) := by
  have hmodes := sampled_modes s inp motionThreadPeriod
  have hen : (checkForFaults (sampled s inp motionThreadPeriod)).internal.enabling = true →
      (checkForFaults (sampled s inp motionThreadPeriod)).status.motionFlag.enable = true := by
    intro he
    rw [checkForFaults_enabling, Bool.and_eq_true] at he
    have h1 : (sampled s inp motionThreadPeriod).internal.enabling = s.internal.enabling :=
      congrArg Modes.enabling hmodes
    have h2 : (sampled s inp motionThreadPeriod).status.motionFlag.enable = s.status.motionFlag.enable :=
      congrArg Modes.enable hmodes
    show (sampled s inp motionThreadPeriod).status.motionFlag.enable = true
    rw [h2, ← h.enabling, ← h1]
    exact he.1
  have hcoord : (checkForFaults (sampled s inp motionThreadPeriod)).internal.coordinating = false :=
    (congrArg Modes.coordinating hmodes).trans h.coordinating
  have hfree : (checkForFaults (sampled s inp motionThreadPeriod)).internal.freeing = true →
      (checkForFaults (sampled s inp motionThreadPeriod)).status.motionFlag.free = true := by
    intro hf
    have h1 : (sampled s inp motionThreadPeriod).internal.freeing = s.internal.freeing :=
      congrArg Modes.freeing hmodes
    have h2 : (sampled s inp motionThreadPeriod).status.motionFlag.free = s.status.motionFlag.free :=
      congrArg Modes.free hmodes
    exact h2.trans (h.freeing (h1.symm.trans hf))
  obtain ⟨hstill, hsame⟩ := setOperatingMode_settled hen hcoord hfree i
  rw [sampled_freeTp s inp motionThreadPeriod i] at hstill hsame
  refine ⟨hstill, fun h => hsame ?_⟩
  have hkeep : (setOperatingMode (checkForFaults (sampled s inp motionThreadPeriod))).internal.enabling =
      (checkForFaults (sampled s inp motionThreadPeriod)).internal.enabling :=
    congrArg Modes.enabling (setOperatingMode_modes _)
  exact hkeep.symm.trans h

theorem controllerFront_servoPeriod (s : Machine ℝ) (inp : Inputs) :
    (controllerFront s inp motionThreadPeriod).servoPeriod = 1 := by
  have hkept : KeptByModes fun u : Machine ℝ => u.servoPeriod = 1 :=
    ⟨fun _ h => h, fun _ h => h, fun _ _ h => h, fun _ h => h, fun _ h => h, fun _ h => h, fun _ h => h⟩
  obtain ⟨axisArray, h⟩ := processInputs_eq (handleInterpolation (updatePeriod s motionThreadPeriod)) inp
  refine hkept.setOperatingMode (s := checkForFaults (sampled s inp motionThreadPeriod)) ?_
  show (processInputs (handleInterpolation (updatePeriod s motionThreadPeriod)) inp).servoPeriod = 1
  rw [h]
  exact updatePeriod_servoPeriod s

/-- An active axis in free mode follows its planner. -/
theorem freeAxisCycle_of_active {axis : Axis ℝ} (h : axis.flag.active = true) (maxacc servoPeriod : Int) :
    ∃ maxAcc, (freeAxisCycle axis maxacc servoPeriod).freeTp =
        simpleTpUpdate ℝ { axis.freeTp with maxAcc := maxAcc } servoPeriod ∧
      (freeAxisCycle axis maxacc servoPeriod).posCmd = (freeAxisCycle axis maxacc servoPeriod).freeTp.currPos := by
  unfold freeAxisCycle
  rw [h]
  exact ⟨_, rfl, rfl⟩

/-- What a settled cycle does to an active axis: it holds the axis, or runs its planner. -/
theorem emcmotController_settled {s t : Machine ℝ} {inp : Inputs} {fuel : Nat} (h : s.Settled) (i : Fin 3)
    (hact : (s.axes i).flag.active = true) (ht : emcmotController s inp motionThreadPeriod fuel = some t) :
    (t.status.motionState = .disabled ∧ Stilled (s.axes i).freeTp (t.axes i).freeTp) ∨
      (t.status.motionState = .free ∧ ∃ maxAcc,
        (t.axes i).freeTp = simpleTpUpdate ℝ { (s.axes i).freeTp with maxAcc := maxAcc } 1 ∧
        (t.axes i).posCmd = (t.axes i).freeTp.currPos) := by
  obtain ⟨hstill, hsame⟩ := controllerFront_settled h inp i
  have hactf : ((controllerFront s inp motionThreadPeriod).axes i).flag.active = true :=
    ((controllerFront_cycleKeeps s inp motionThreadPeriod).axis i).active.trans hact
  have hservo := controllerFront_servoPeriod s inp
  have hnot : (controllerFront s inp motionThreadPeriod).status.motionState ≠ .coord := by
    rw [controllerFront_motionState]
    exact Modes.next_state_ne_coord _ h.coord h.coordinating
  have hstate := (emcmotController_modes ht).2
  obtain ⟨u, hu, rfl⟩ := Option.map_eq_some_iff.1 ht
  obtain ⟨v, hv, rfl⟩ := Option.map_eq_some_iff.1 hu
  obtain ⟨pos, hpos⟩ := cycleEnd_axes v inp i
  unfold planPositions at hv
  split at hv
  · rename_i hfree
    right
    cases hv
    obtain ⟨maxAcc, htp, hcmd⟩ := freeAxisCycle_of_active hactf
      (controllerFront s inp motionThreadPeriod).status.maxacc
      (controllerFront s inp motionThreadPeriod).servoPeriod
    -- a cycle in free mode is one without a fault
    have hen : (controllerFront s inp motionThreadPeriod).internal.enabling = true := by
      by_contra hne
      have hstop : (controllerFront s inp motionThreadPeriod).status.motionState = .disabled := by
        rw [controllerFront_motionState]
        have henm : (controllerFront s inp motionThreadPeriod).internal.enabling =
            (s.internal.enabling && !faultFound (sampled s inp motionThreadPeriod)) :=
          congrArg Modes.enabling (controllerFront_modes s inp motionThreadPeriod)
        rw [← henm, Bool.eq_false_iff.2 hne]
        rfl
      rw [hstop] at hfree
      cases hfree
    rw [hservo, hsame hen] at htp
    rw [hservo] at hcmd
    refine ⟨hstate.trans hfree, maxAcc, ?_, ?_⟩
    · rw [hpos]
      show (freeAxisCycle _ _ (controllerFront s inp motionThreadPeriod).servoPeriod).freeTp = _
      rw [hservo]
      exact htp
    · rw [hpos]
      show (freeAxisCycle _ _ (controllerFront s inp motionThreadPeriod).servoPeriod).posCmd =
        (freeAxisCycle _ _ (controllerFront s inp motionThreadPeriod).servoPeriod).freeTp.currPos
      rw [hservo]
      exact hcmd
  · rename_i hcoord
    exact absurd hcoord hnot
  · rename_i hdis
    left
    cases hv
    refine ⟨hstate.trans hdis, ?_⟩
    rw [hpos]
    exact hstill

/-! ### Runs of jogs -/

/-- The jog limits of axis `i`. -/
def LimitsAre (i : Fin 3) (m M : Int) (s : Machine ℝ) : Prop :=
  (s.axes i).minJogLimit = m ∧ (s.axes i).maxJogLimit = M

/-- The axis can be stopped within its limits under the acceleration of the jog, and the jog has a velocity of the right
sign; or there is neither motion nor acceleration. -/
def JogFits (axis : Axis ℝ) (vel acc : Int) : Prop :=
  acc = 0 ∧ axis.freeTp.currVel = 0 ∨
    (0 < acc ∧ 0 ≤ vel) ∧ axis.minJogLimit ≤ axis.freeTp.currPos - brake acc (-axis.freeTp.currVel) ∧
      axis.freeTp.currPos + brake acc axis.freeTp.currVel ≤ axis.maxJogLimit

/-- Jog frames, calls of the handler, and cycles. -/
def Event.isJogging : Event ℝ → Prop
  | .frame f => (CmdCode.ofIndex (f.u16 0)).isJog = true
  | .command _ => False
  | .handle _ => True
  | .cycle _ => True

/-- A step of a jogging run with fixed limits, in which every jog started on axis `i` fits. -/
structure JogStep (i : Fin 3) (m M : Int) (s : Machine ℝ) (e : Event ℝ) (t : Machine ℝ) : Prop where
  jogging : e.isJogging
  limits : LimitsAre i m M t
  fits : ∀ j, e = .handle j → s.command.commandNum ≠ s.status.commandNumEcho →
    ∀ vel acc, StartsJog s j i vel acc → JogFits (s.axes i) vel acc

/-- A motion-enabled machine in free mode with axis `i` at rest within its limits, and nothing requested. -/
structure JogStart (i : Fin 3) (m M : Int) (s : Machine ℝ) : Prop where
  settled : s.Settled
  enable : s.status.motionFlag.enable = true
  free : s.status.motionState = .free
  handled : s.command.commandNum = s.status.commandNumEcho
  active : (s.axes i).flag.active = true
  limits : LimitsAre i m M s
  stopped : (s.axes i).freeTp.enable = false ∧ (s.axes i).freeTp.currVel = 0
  settings : (s.axes i).freeTp.acc = 0 ∨ 0 < (s.axes i).freeTp.acc ∧ 0 ≤ (s.axes i).freeTp.vel
  currPos : m ≤ (s.axes i).freeTp.currPos ∧ (s.axes i).freeTp.currPos ≤ M
  posCmd : m ≤ (s.axes i).posCmd ∧ (s.axes i).posCmd ≤ M

/-- What a jogging run keeps. -/
structure JogState (i : Fin 3) (m M : Int) (s : Machine ℝ) : Prop where
  settled : s.Settled
  waiting : s.command.commandNum = s.status.commandNumEcho ∨ s.command.command.isJog = true
  active : (s.axes i).flag.active = true
  limits : LimitsAre i m M s
  safe : (s.axes i).freeTp.Safe m M
  posCmd : s.status.motionState = .free → m ≤ (s.axes i).posCmd ∧ (s.axes i).posCmd ≤ M

theorem JogStart.state {i : Fin 3} {m M : Int} {s : Machine ℝ} (h : JogStart i m M s) : JogState i m M s := by
  obtain ⟨hen, hv⟩ := h.stopped
  refine ⟨h.settled, .inl h.handled, h.active, h.limits, ⟨?_, ?_, ?_, ?_⟩, fun _ => h.posCmd⟩
  · rcases h.settings with ha | ha
    · exact .inl ⟨ha, hv⟩
    · exact .inr ha
  · rw [hv, neg_zero, brake_zero]
    have := h.currPos.1
    omega
  · rw [hv, brake_zero]
    have := h.currPos.2
    omega
  · intro he
    rw [hen] at he
    cases he

theorem Quiet.settled {s t : Machine ℝ} (h : Quiet s t) (hs : s.Settled) : t.Settled where
  enabling := by rw [h.enabling, h.enable, hs.enabling]
  coordinating := h.coordinating.trans hs.coordinating
  coord := h.coord.trans hs.coord
  freeing := fun hf => h.free.trans (hs.freeing (h.freeing.symm.trans hf))

theorem emcmotController_keepsSettled {s t : Machine ℝ} {inp : Inputs} {period : Int} {fuel : Nat} (h : s.Settled)
    (ht : emcmotController s inp period fuel = some t) : t.Settled := by
  have hm := (emcmotController_modes ht).1.trans (controllerFront_modes s inp period)
  have h1 : t.internal.enabling = _ := congrArg Modes.enabling hm
  have h2 : t.status.motionFlag.enable = _ := congrArg Modes.enable hm
  have h3 : t.internal.coordinating = (s.internal.coordinating && _) := congrArg Modes.coordinating hm
  have h4 : t.status.motionFlag.coord = (s.status.motionFlag.coord || (s.internal.coordinating && _)) :=
    congrArg Modes.coord hm
  have h5 : t.internal.freeing = (s.internal.freeing && _) := congrArg Modes.freeing hm
  have h6 : t.status.motionFlag.free = (s.status.motionFlag.free || _) := congrArg Modes.free hm
  refine ⟨h1.trans h2.symm, ?_, ?_, ?_⟩
  · rw [h3, h.coordinating, Bool.false_and]
  · rw [h4, h.coord, h.coordinating, Bool.false_and, Bool.or_false]
  · intro hf
    rw [h5, Bool.and_eq_true] at hf
    rw [h6, h.freeing hf.1, Bool.true_or]

theorem Stilled.safe {m M : Int} {tp tp' : SimpleTp} (h : Stilled tp tp') (hs : tp.Safe m M) : tp'.Safe m M := by
  rcases h with rfl | rfl
  · exact hs
  · obtain ⟨h1, h2⟩ := hs.currPos
    refine ⟨?_, ?_, ?_, ?_⟩
    · rcases hs.settings with ⟨ha, -⟩ | ha
      · exact .inl ⟨ha, rfl⟩
      · exact .inr ha
    · show m ≤ tp.currPos - brake tp.acc (-0)
      rw [neg_zero, brake_zero]
      omega
    · show tp.currPos + brake tp.acc 0 ≤ M
      rw [brake_zero]
      omega
    · intro he
      cases he

/-- A jog that fits leaves the planner safe. -/
theorem JogEffect.safe {s : Machine ℝ} {j : Bool} {i : Fin 3} {m M : Int} {tp : SimpleTp} (h : JogEffect s j i tp)
    (hlim : LimitsAre i m M s) (hs : (s.axes i).freeTp.Safe m M)
    (hfits : ∀ vel acc, StartsJog s j i vel acc → JogFits (s.axes i) vel acc) : tp.Safe m M := by
  obtain ⟨hmin, hmax⟩ := hlim
  obtain ⟨hpos1, hpos2⟩ := hs.currPos
  cases h with
  | same h =>
    rw [h]
    exact hs
  | stop h =>
    rw [h]
    exact ⟨hs.settings, hs.lower, hs.upper, fun he => by cases he⟩
  | @jog pos vel acc maxVel maxAcc dir hstart htarget h =>
    rw [hmin, hmax] at htarget
    rw [h]
    rcases hfits vel acc hstart with ⟨ha, hv⟩ | ⟨ha, hlow, hup⟩
    · refine ⟨.inl ⟨ha, hv⟩, ?_, ?_, fun _ => htarget (by omega)⟩
      · show m ≤ (s.axes i).freeTp.currPos - brake acc (-(s.axes i).freeTp.currVel)
        rw [hv, neg_zero, brake_zero]
        omega
      · show (s.axes i).freeTp.currPos + brake acc (s.axes i).freeTp.currVel ≤ M
        rw [hv, brake_zero]
        omega
    · rw [hmin] at hlow
      rw [hmax] at hup
      exact ⟨.inr ha, hlow, hup, fun _ => htarget (by omega)⟩

theorem StartsJog.of_echo {s : Machine ℝ} {j : Bool} {i : Fin 3} {vel acc : Int} (h : StartsJog s.echo j i vel acc) :
    StartsJog s j i vel acc := by
  cases h with
  | cont hc h => exact .cont hc h
  | incr hc h hmin hmax => exact .incr hc h hmin hmax
  | abs hc h => exact .abs hc h

theorem CmdCode.isRequest_of_isJog {c : CmdCode} (h : c.isJog = true) : c.isRequest = false := by
  cases c <;> first | rfl | cases h

theorem JogEffect.of_echo {s : Machine ℝ} {j : Bool} {i : Fin 3} {tp : SimpleTp} (h : JogEffect s.echo j i tp) :
    JogEffect s j i tp := by
  cases h with
  | same h => exact .same h
  | stop h => exact .stop h
  | jog hstart htarget h => exact .jog hstart.of_echo htarget h

/-- Coordinated mode is out of reach, the axis is active, and nothing but a jog is waiting. -/
structure Jogging (i : Fin 3) (s : Machine ℝ) : Prop where
  settled : s.Settled
  waiting : s.command.commandNum = s.status.commandNumEcho ∨ s.command.command.isJog = true
  active : (s.axes i).flag.active = true

/-- What a step of a jogging run does to axis `i`. -/
inductive JoggingEffect (i : Fin 3) (s : Machine ℝ) (e : Event ℝ) (t : Machine ℝ) : Prop
  | kept (hstate : t.status.motionState = s.status.motionState) (hpos : (t.axes i).posCmd = (s.axes i).posCmd)
      (h : (t.axes i).freeTp = (s.axes i).freeTp)
  | handled {j : Bool} (he : e = .handle j) (hne : s.command.commandNum ≠ s.status.commandNumEcho)
      (hstate : t.status.motionState = s.status.motionState) (hpos : (t.axes i).posCmd = (s.axes i).posCmd)
      (h : JogEffect s j i (t.axes i).freeTp)
  | held (hstate : t.status.motionState = .disabled) (h : Stilled (s.axes i).freeTp (t.axes i).freeTp)
  | moved {maxAcc : Int} (hpos : (t.axes i).posCmd = (t.axes i).freeTp.currPos)
      (h : (t.axes i).freeTp = simpleTpUpdate ℝ { (s.axes i).freeTp with maxAcc := maxAcc } 1)

/-- One step of a jogging run. -/
theorem Jogging.step {i : Fin 3} {s t : Machine ℝ}
    {e : Event ℝ} (hs : Jogging i s) (h : Step s e t) (he : e.isJogging) :
    Jogging i t ∧ JoggingEffect i s e t := by
  cases h with
  | @frame _ f hf =>
    obtain ⟨hstatus, -, hcmd, htp⟩ := jogFrame_effect he hf
    have hq := processFrame_quiet hf
    refine ⟨⟨hq.settled hs.settled, ?_, (hq.active i).trans hs.active⟩, .kept (by rw [hstatus]) (hq.posCmd i) (htp i)⟩
    rcases hcmd with hcmd | hcmd
    · rw [hcmd, hstatus]
      exact hs.waiting
    · exact .inr hcmd
  | command c => exact he.elim
  | @handle _ j hh =>
    rcases emcmotCommandHandler_cases hh with ⟨hne, hx⟩ | ⟨-, rfl⟩
    · have hjog : s.echo.command.command.isJog = true := hs.waiting.resolve_left hne
      obtain ⟨hcmd, hstatus, heffect⟩ := executeJog_effect i hjog hx
      have hq := executeCommand_quiet (CmdCode.isRequest_of_isJog hjog) hx
      have hset : s.echo.Settled := { hs.settled with }
      refine ⟨⟨hq.settled hset, .inl ?_, (hq.active i).trans hs.active⟩,
        .handled rfl hne (by rw [hstatus]; rfl) (hq.posCmd i) heffect.of_echo⟩
      rw [hcmd, hstatus]
      rfl
    · exact ⟨hs, .kept rfl rfl rfl⟩
  | @cycle _ inp fuel hc =>
    have hkeep := emcmotController_cycleKeeps hc
    have hwait : t.command.commandNum = t.status.commandNumEcho ∨ t.command.command.isJog = true := by
      rw [hkeep.command, hkeep.commandNumEcho]
      exact hs.waiting
    refine ⟨⟨emcmotController_keepsSettled hs.settled hc, hwait, (hkeep.axis i).active.trans hs.active⟩, ?_⟩
    rcases emcmotController_settled hs.settled i hs.active hc with ⟨hst, htp⟩ | ⟨-, maxAcc, hup, hpos⟩
    · exact .held hst htp
    · exact .moved hpos hup

/-- What one step keeps. -/
theorem JogState.step {i : Fin 3} {m M : Int} {s t : Machine ℝ} {e : Event ℝ} (hs : JogState i m M s)
    (h : Step s e t) (he : JogStep i m M s e t) : JogState i m M t := by
  obtain ⟨ht, heffect⟩ := Jogging.step ⟨hs.settled, hs.waiting, hs.active⟩ h he.jogging
  have hsafe : (t.axes i).freeTp.Safe m M := by
    cases heffect with
    | kept _ _ htp =>
      rw [htp]
      exact hs.safe
    | handled hj hne _ _ htp => exact htp.safe hs.limits hs.safe (he.fits _ hj hne)
    | held _ htp => exact htp.safe hs.safe
    | moved _ htp =>
      rw [htp]
      exact simpleTpUpdate_safe { hs.safe with }
  refine ⟨ht.settled, ht.waiting, ht.active, he.limits, hsafe, fun hfree => ?_⟩
  cases heffect with
  | kept hstate hpos _ =>
    rw [hpos]
    exact hs.posCmd (hstate.symm.trans hfree)
  | handled _ _ hstate hpos _ =>
    rw [hpos]
    exact hs.posCmd (hstate.symm.trans hfree)
  | held hstate _ =>
    rw [hstate] at hfree
    cases hfree
  | moved hpos _ =>
    rw [hpos]
    exact hsafe.currPos

/-! ### One jog from rest -/

/-- From rest, a jog goes at its velocity at once if more is requested and one acceleration step is enough. -/
theorem nextVel_of_lt {tp : SimpleTp} (hrest : tp.currVel = 0) (hlt : (tp.vel : ℝ) < (tp.request ℝ 1).2)
    (hle : |tp.vel| ≤ tp.acc) : tp.nextVel = tp.vel := by
  obtain ⟨hlow, hup⟩ := abs_le.1 hle
  have hlow' : -(tp.acc : ℝ) ≤ (tp.vel : ℝ) := by exact_mod_cast hlow
  have hup' : (tp.vel : ℝ) ≤ (tp.acc : ℝ) := by exact_mod_cast hup
  have hlimit : limitVel (tp.request ℝ 1).2 tp.vel = (tp.vel : ℝ) := if_pos hlt
  unfold SimpleTp.nextVel rampVel
  rw [hlimit, hrest, if_neg (by push_cast; linarith), if_neg (by push_cast; linarith), trunc_real, truncReal_intCast]

/-- From rest, a jog with a negative velocity moves away from a target ahead. -/
theorem nextVel_of_neg {tp : SimpleTp} (hen : tp.enable = true) (hrest : tp.currVel = 0) (ha : 0 < tp.acc)
    (hahead : tp.acc < 1000 * (tp.posCmd - tp.currPos)) (hv : tp.vel < 0) (hle : -tp.acc ≤ tp.vel) :
    tp.nextVel = tp.vel := by
  have ha' : (0 : ℝ) < (tp.acc : ℝ) := by exact_mod_cast ha
  have hahead' : (tp.acc : ℝ) < 1000 * ((tp.posCmd - tp.currPos : Int) : ℝ) := by exact_mod_cast hahead
  have hv' : (tp.vel : ℝ) < 0 := by exact_mod_cast hv
  have hreq : 0 < (tp.request ℝ 1).2 := by
    rw [request_one, hen, if_pos rfl, if_pos (by linarith)]
    have hroot : (tp.acc : ℝ) <
        √(2 * (tp.acc : ℝ) * ((tp.posCmd - tp.currPos : Int) : ℝ) + (tp.acc : ℝ) * (tp.acc : ℝ)) := by
      apply Real.lt_sqrt_of_sq_lt
      nlinarith
    show 0 < -(tp.acc : ℝ) + √_
    linarith
  exact nextVel_of_lt hrest (hv'.trans hreq) (abs_le.2 ⟨hle, by omega⟩)

/-- A machine in free mode with axis 0 at rest at zero, between the limits -5 and 9. -/
noncomputable def jogMachine : Machine ℝ :=
  { initBuffers 3 with
    command := { (initBuffers 3 : Machine ℝ).command with maxLimit := 9, minLimit := -5, maxvel := 100, maxacc := 100 }
    status := { (initBuffers 3 : Machine ℝ).status with
      motionState := .free, motionFlag := ⟨true, true, true, false, false⟩ }
    internal := { (initBuffers 3 : Machine ℝ).internal with enabling := true }
    axes := fun i => if i = 0 then
        { initAxis with
          maxJogLimit := 9, minJogLimit := -5, flag := ⟨true, true, true, false, false, false, false, false⟩ }
      else initAxis }

/-- A JOG_CONT frame for axis 0 with the bytes of the velocity and the low byte of the acceleration. -/
def jogContFrame (vel : List UInt8) (acc : UInt8) : LinuxFrame where
  header := 0x55AA55AA
  dataLength := 20
  payload := fun i => if i = 0 then 9 else if 4 ≤ i ∧ i < 8 then vel.getD (i - 4) 0 else if i = 8 then acc else 0
  checksum := 29 + sumBytes vel + acc.toNat

theorem jogMachine_start : JogStart 0 (-5) 9 jogMachine :=
  ⟨⟨rfl, rfl, rfl, fun h => by cases h⟩, rfl, rfl, rfl, rfl, ⟨rfl, rfl⟩, ⟨rfl, rfl⟩, .inl rfl,
    ⟨by decide, by decide⟩, ⟨by decide, by decide⟩⟩

/-- The machine after the frame. -/
noncomputable def jogPublished (vel : List UInt8) (acc : UInt8) : Machine ℝ :=
  { jogMachine.updateAxis 0 fun axis => configureAxis axis jogMachine.command ((jogContFrame vel acc).param 0)
      ((jogContFrame vel acc).param 1) with
    command := { jogMachine.command with dir := (jogContFrame vel acc).param 3 }.publish .jogCont 0 }

theorem jogPublished_eq (vel : List UInt8) (acc : UInt8) :
    processFrame jogMachine (jogContFrame vel acc) = some (jogPublished vel acc) := rfl

theorem jogPublished_jogOk (vel : List UInt8) (acc : UInt8) :
    jointJogOk (jogPublished vel acc).echo 0 (jogPublished vel acc).command.maxvel = true := by
  have hoverride : (jogPublished vel acc).echo.status.negLimitOverride 0 = false := Nat.zero_testBit _
  unfold jointJogOk
  rw [hoverride]
  rfl

theorem jogStarted_eq (vel : List UInt8) (acc : UInt8) :
    emcmotCommandHandler (jogPublished vel acc) false = some (jogCont (jogPublished vel acc).echo 0) := by
  have hne : (jogPublished vel acc).command.commandNum ≠ (jogPublished vel acc).status.commandNumEcho := by
    show (1 : Int) ≠ 0
    decide
  unfold emcmotCommandHandler
  rw [if_pos hne]
  show some (if !jointJogOk (jogPublished vel acc).echo 0 (jogPublished vel acc).command.maxvel then _ else _) = _
  rw [jogPublished_jogOk]
  rfl

theorem le_computeFerrorLimit (axis : Axis ℝ) : axis.minFerror ≤ axis.computeFerrorLimit := by
  unfold Axis.computeFerrorLimit
  dsimp only
  split <;> omega

/-- Nothing is wrong with a machine that stands at zero. -/
theorem rest_noFault {s : Machine ℝ} (hhal : s.hal.enable = true) (hmisc : s.config.numMiscError = 0)
    (hmask : s.status.overrideLimitMask = 0) (hrest : ∀ i, (s.axes i).flag.active = true →
      (s.axes i).posCmd = 0 ∧ (s.axes i).motorOffset = 0 ∧ 0 ≤ (s.axes i).minFerror) :
    faultFound (sampled s restInputs motionThreadPeriod) = false := by
  rw [← Bool.not_eq_true, faultFound_sampled]
  rintro (⟨-, h⟩ | ⟨i, ⟨hi, -⟩, h⟩)
  · rcases h with h | ⟨n, -⟩
    · rw [hhal] at h
      cases h
    · rw [hmisc] at n
      exact n.elim0
  · obtain ⟨hpos, hoffset, hferror⟩ := hrest i hi
    rcases h with (h | h) | h | h
    · rw [Status.posLimitOverride, hmask, Nat.zero_testBit] at h
      cases h
    · rw [Status.negLimitOverride, hmask, Nat.zero_testBit] at h
      cases h
    · cases h
    · have hlimit := le_computeFerrorLimit (s.axes i)
      have hfb : (s.axes i).feedback (restInputs.axis i) = 0 := by
        unfold Axis.feedback
        rw [hoffset, i32_real]
        rfl
      unfold FollowingErrorFound at h
      rw [hfb, hpos, i32_real, i32_real, sub_zero, abs_zero] at h
      omega

/-- The cycle after the jog has been started. -/
theorem jogStarted_cycle (vel : List UInt8) (acc : UInt8) :
    ∃ t, emcmotController (jogCont (jogPublished vel acc).echo 0) restInputs motionThreadPeriod 1 = some t ∧
      t.status.motionState = .free ∧ LimitsAre 0 (-5) 9 t ∧
      ∃ maxAcc, (t.axes 0).freeTp = simpleTpUpdate ℝ
        { ((jogCont (jogPublished vel acc).echo 0).axes 0).freeTp with maxAcc := maxAcc } 1 := by
  have hset : (jogCont (jogPublished vel acc).echo 0).Settled := ⟨rfl, rfl, rfl, fun h => by cases h⟩
  have hfault : faultFound (sampled (jogCont (jogPublished vel acc).echo 0) restInputs motionThreadPeriod) = false := by
    refine rest_noFault rfl rfl rfl fun i hi => ?_
    by_cases hi0 : i = 0
    · subst hi0
      exact ⟨rfl, rfl, show (0 : Int) ≤ 400 by decide⟩
    · have hrest : ((jogCont (jogPublished vel acc).echo 0).axes i).flag.active = false := by
        show (if i = 0 then _ else if i = 0 then _ else if i = 0 then _ else initAxis : Axis ℝ).flag.active = false
        rw [if_neg hi0, if_neg hi0, if_neg hi0]
        rfl
      rw [hrest] at hi
      cases hi
  have hnot : (controllerFront (jogCont (jogPublished vel acc).echo 0) restInputs
      motionThreadPeriod).status.motionState ≠ .coord := by
    rw [controllerFront_motionState]
    exact Modes.next_state_ne_coord _ rfl rfl
  obtain ⟨t, ht⟩ := emcmotController_exists hnot 1
  have hstate : t.status.motionState = .free := by
    rw [emcmotController_motionState rfl hfault ht]
    rfl
  have hkeep := (emcmotController_cycleKeeps ht).axis 0
  refine ⟨t, ht, hstate, ⟨hkeep.minJogLimit.trans rfl, hkeep.maxJogLimit.trans rfl⟩, ?_⟩
  rcases emcmotController_settled hset 0 rfl ht with ⟨hdis, -⟩ | ⟨-, maxAcc, h, -⟩
  · rw [hstate] at hdis
    cases hdis
  · exact ⟨maxAcc, h⟩

/-! ### Containment -/

/-- In every run of jog frames, handler calls and cycles whose jogs all fit, the axis stays within its limits. -/
theorem jog_contained {i : Fin 3} {m M : Int} {s t : Machine ℝ} (hs : JogStart i m M s)
    (h : Reaches (Restrict Step (JogStep i m M)) s t) :
    (m ≤ (t.axes i).freeTp.currPos ∧ (t.axes i).freeTp.currPos ≤ M) ∧
      (t.status.motionState = .free → m ≤ (t.axes i).posCmd ∧ (t.axes i).posCmd ≤ M) := by
  have key : JogState i m M t := h.invariant (fun _ _ _ hs hst => hs.step hst.1 hst.2) hs.state
  exact ⟨key.safe.currPos, key.posCmd⟩

/-- A jog at velocity 2 and acceleration 6 fits. -/
theorem jog_contained_two : ∃ t, Reaches (Restrict Step (JogStep 0 (-5) 9)) jogMachine t ∧
    -5 ≤ (t.axes 0).freeTp.currPos ∧ (t.axes 0).freeTp.currPos ≤ 9 := by
  obtain ⟨t, ht, -, hlim, -⟩ := jogStarted_cycle [2] 6
  have h1 : Reaches (Restrict Step (JogStep 0 (-5) 9)) jogMachine (jogPublished [2] 6) :=
    (Reaches.refl _).tail (e := .frame (jogContFrame [2] 6))
      ⟨.frame (jogPublished_eq [2] 6), rfl, ⟨rfl, rfl⟩, fun _ h => by cases h⟩
  have h2 : Reaches (Restrict Step (JogStep 0 (-5) 9)) jogMachine (jogCont (jogPublished [2] 6).echo 0) := by
    refine h1.tail (e := .handle false) ⟨.handle (jogStarted_eq [2] 6), trivial, ⟨rfl, rfl⟩, ?_⟩
    intro j _ _ vel acc hstart
    cases hstart with
    | cont _ h =>
      refine .inr ⟨⟨by decide, by decide⟩, ?_, ?_⟩
      · show (-5 : Int) ≤ 0 - brake _ (-0)
        rw [neg_zero, brake_zero]
        decide
      · show (0 : Int) + brake _ 0 ≤ 9
        rw [brake_zero]
        decide
    | incr hc => cases hc
    | abs hc => cases hc
  have h3 : Reaches (Restrict Step (JogStep 0 (-5) 9)) jogMachine t :=
    h2.tail (e := .cycle restInputs) ⟨.cycle ht, trivial, hlim, fun _ h => by cases h⟩
  exact ⟨t, h3, (jog_contained jogMachine_start h3).1⟩

/-- A jog at velocity -6 leaves the lower limit in its first cycle. -/
theorem jog_not_contained : ∃ t, JogStart 0 (-5) 9 jogMachine ∧
    Reaches (Restrict Step fun _ e u => e.isJogging ∧ LimitsAre 0 (-5) 9 u) jogMachine t ∧
    t.status.motionState = .free ∧ (t.axes 0).freeTp.currPos = -6 := by
  obtain ⟨t, ht, hstate, hlim, maxAcc, htp⟩ := jogStarted_cycle [250, 255, 255, 255] 6
  -- a frame, its handler and one cycle
  have h1 : Reaches (Restrict Step fun _ e u => e.isJogging ∧ LimitsAre 0 (-5) 9 u) jogMachine
      (jogPublished [250, 255, 255, 255] 6) :=
    (Reaches.refl _).tail (e := .frame (jogContFrame [250, 255, 255, 255] 6))
      ⟨.frame (jogPublished_eq _ 6), rfl, rfl, rfl⟩
  have h2 := h1.tail (e := .handle false)
    ⟨.handle (jogStarted_eq _ 6), show Event.isJogging (.handle false) from trivial, rfl, rfl⟩
  have h3 := h2.tail (e := .cycle restInputs)
    ⟨.cycle ht, show Event.isJogging (.cycle restInputs) from trivial, hlim⟩
  refine ⟨t, jogMachine_start, h3, hstate, ?_⟩
  obtain ⟨active, hone⟩ := simpleTpUpdate_one
    { ((jogCont (jogPublished [250, 255, 255, 255] 6).echo 0).axes 0).freeTp with maxAcc := maxAcc }
  have hacc : ((jogCont (jogPublished [250, 255, 255, 255] 6).echo 0).axes 0).freeTp.acc = 6 := by decide
  have hvel : ((jogCont (jogPublished [250, 255, 255, 255] 6).echo 0).axes 0).freeTp.vel = -6 := by decide
  have hpos : ((jogCont (jogPublished [250, 255, 255, 255] 6).echo 0).axes 0).freeTp.posCmd = 9 := rfl
  have hcurr : ((jogCont (jogPublished [250, 255, 255, 255] 6).echo 0).axes 0).freeTp.currPos = 0 := rfl
  rw [htp, hone]
  show _ + SimpleTp.nextVel _ = -6
  rw [nextVel_of_neg rfl rfl]
  · dsimp only
    rw [hcurr, hvel]
    rfl
  · dsimp only
    omega
  · dsimp only
    omega
  · dsimp only
    omega
  · dsimp only
    omega

end SoemMotion
