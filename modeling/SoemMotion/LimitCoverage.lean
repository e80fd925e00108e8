import SoemMotion.CoordStart
import SoemMotion.JogFidelity

/-!
# The axes the limit checks cover

The checks of the limits run over the first `numAxes` axes.  The configuration has that number from its zeroed memory,
and no command writes it; so they cover the axes in use only if the number happens to be three.
-/

namespace SoemMotion

/-! ### Planners are enabled with motion only -/

section

variable {K : Type} [Arith K]

/-- No planner runs on an axis that is not configured, nor while motion is disabled. -/
def Machine.EnableGuarded (s : Machine K) : Prop :=
  ∀ i, (s.axes i).freeTp.enable = true → s.isConfigured i = true ∧ s.status.motionFlag.enable = true

theorem simpleTpUpdate_enable {tp : SimpleTp} {period : Int} (h : (simpleTpUpdate K tp period).enable = true) :
    tp.enable = true := by
  change (tp.request K period).1.enable = true at h
  unfold SimpleTp.request at h
  dsimp only at h
  cases hen : tp.enable with
  | true => rfl
  | false =>
    rw [hen, if_neg Bool.false_ne_true] at h
    cases h

theorem freeAxisCycle_freeEnable {axis : Axis K} {maxacc servoPeriod : Int}
    (h : (freeAxisCycle axis maxacc servoPeriod).freeTp.enable = true) : axis.freeTp.enable = true := by
  unfold freeAxisCycle at h
  split at h
  · exact h
  · have hupdate : (simpleTpUpdate K { axis.freeTp with
        maxAcc := if maxacc < axis.accLimit then maxacc else axis.accLimit } servoPeriod).enable = true := h
    have hkeep := simpleTpUpdate_enable hupdate
    exact hkeep

theorem feedAxis_freeTp (axis : Axis K) (point : Int) : (feedAxis axis point).freeTp = axis.freeTp := by
  unfold feedAxis
  split <;> rfl

theorem interpolateAxis_freeTp (axis : Axis K) : (interpolateAxis axis).freeTp = axis.freeTp := by
  unfold interpolateAxis
  split <;> rfl

/-- Only the planning of free mode runs the planners of the axes. -/
theorem planPositions_freeTp {inp : Inputs} {fuel : Nat} {s t : Machine K} (h : planPositions inp fuel s = some t)
    (hstate : s.status.motionState ≠ .free) (i : Fin 3) : (t.axes i).freeTp = (s.axes i).freeTp := by
  unfold planPositions at h
  split at h
  · rename_i hfree
    exact absurd hfree hstate
  · obtain ⟨u, hu, rfl⟩ := Option.map_eq_some_iff.1 h
    have hloop : (u.axes i).freeTp = (s.axes i).freeTp := Lib.whileFuel_invariant (s := coordBegin s)
      (I := fun v : Machine K => (v.axes i).freeTp = (s.axes i).freeTp)
      (fun v _ hv => (feedAxis_freeTp (v.axes i) _).trans hv) rfl hu
    exact (interpolateAxis_freeTp (u.axes i)).trans hloop
  · cases h
    rfl

/-- The planning of a mode enables no planner. -/
theorem planPositions_freeEnable {inp : Inputs} {fuel : Nat} {s t : Machine K} (h : planPositions inp fuel s = some t)
    {i : Fin 3} (hen : (t.axes i).freeTp.enable = true) : (s.axes i).freeTp.enable = true := by
  by_cases hstate : s.status.motionState = .free
  · unfold planPositions at h
    rw [hstate] at h
    cases h
    exact freeAxisCycle_freeEnable hen
  · rw [← planPositions_freeTp h hstate i]
    exact hen

/-- The front of a cycle stops every planner when motion is disabled. -/
theorem controllerFront_freeEnable {s : Machine K} (h : s.EnableGuarded) {inp : Inputs} {period : Int} {i : Fin 3}
    (hen : ((controllerFront s inp period).axes i).freeTp.enable = true) : (s.axes i).freeTp.enable = true ∧
      (controllerFront s inp period).status.motionFlag.enable = true := by
  have hs := (controllerFront_freeTp s inp period i).enable hen
  refine ⟨hs, ?_⟩
  by_contra hoff
  have henabling : (checkForFaults (sampled s inp period)).internal.enabling = false := by
    have hmodes := congrArg Modes.enable (controllerFront_modes s inp period)
    change (controllerFront s inp period).status.motionFlag.enable =
      (s.internal.enabling && !faultFound (sampled s inp period)) at hmodes
    rw [checkForFaults_enabling]
    have he : (sampled s inp period).internal.enabling = s.internal.enabling :=
      congrArg Modes.enabling (sampled_modes s inp period)
    rw [he, ← hmodes]
    exact Bool.eq_false_of_not_eq_true hoff
  have hflag : (checkForFaults (sampled s inp period)).status.motionFlag.enable = true :=
    (congrArg MotionFlag.enable (sampled_motionFlag s inp period)).trans (h i hs).2
  have hdisable : ((disableMotion (checkForFaults (sampled s inp period))).axes i).freeTp.enable = false := by
    unfold disableMotion
    rw [henabling, hflag]
    rfl
  have hfront := (enterModes_front (disableMotion (checkForFaults (sampled s inp period))) i).1.enable hen
  rw [hdisable] at hfront
  cases hfront

theorem emcmotController_guarded {s t : Machine K} {inp : Inputs} {period : Int} {fuel : Nat} (hs : s.EnableGuarded)
    (h : emcmotController s inp period fuel = some t) : t.EnableGuarded := by
  intro i hen
  have hnum := (emcmotController_cycleKeeps h).numAxes
  have hmodes := congrArg Modes.enable (emcmotController_modes h).1
  obtain ⟨u, hu, rfl⟩ := Option.map_eq_some_iff.1 h
  obtain ⟨v, hv, rfl⟩ := Option.map_eq_some_iff.1 hu
  obtain ⟨pos, hpos⟩ := cycleEnd_axes v inp i
  rw [hpos] at hen
  obtain ⟨hold, hfront⟩ := controllerFront_freeEnable hs (planPositions_freeEnable hv hen)
  refine ⟨?_, hmodes.trans hfront⟩
  unfold Machine.isConfigured
  rw [hnum]
  exact (hs i hold).1

end

/-! ### Requests and commands -/

section

variable {K : Type} [Arith K]

/-- A request leaves the planners alone. -/
theorem publish_freeTp {r : Option Request} {s t : Machine K} (h : publish r s = some t) (i : Fin 3) :
    (t.axes i).freeTp = (s.axes i).freeTp := by
  have hwrite : ∀ {n : Nat} {vel acc : Int} {u : Machine K}, publishAxis s n vel acc = some u →
      (u.axes i).freeTp = (s.axes i).freeTp := by
    intro n vel acc u hu
    obtain ⟨k, -, rfl⟩ := Option.map_eq_some_iff.1 hu
    show (if i = k then _ else _ : Axis K).freeTp = _
    split <;> rfl
  cases r with
  | none =>
    cases h
    rfl
  | some r =>
    obtain ⟨u, hu, rfl⟩ := Option.map_eq_some_iff.1 h
    show (u.axes i).freeTp = _
    cases r with
    | jogCont => exact hwrite hu
    | jogIncr => exact hwrite hu
    | jogAbs => exact hwrite hu
    | setLine =>
      cases hu
      show (if _ then _ else _ : Axis K).freeTp = _
      split <;> rfl
    | enable =>
      cases hu
      rfl
    | downloadsConfig =>
      cases hu
      rfl
    | plain =>
      cases hu
      rfl

omit [Arith K] in
/-- An abort outside coordinated mode stops the planners of the configured axes. -/
theorem abortMotion_freeTp (s : Machine K) (i : Fin 3) : ((abortMotion s).axes i).freeTp =
    if s.status.motionFlag.coord = false ∧ s.isConfigured i = true then { (s.axes i).freeTp with enable := false }
    else (s.axes i).freeTp := by
  have hclear : ∀ u : Machine K, ((u.mapConfigured Axis.clearFaults).axes i).freeTp = (u.axes i).freeTp := by
    intro u
    show (if _ then _ else _ : Axis K).freeTp = _
    split <;> rfl
  show ((Machine.mapConfigured _ Axis.clearFaults).axes i).freeTp = _
  rw [hclear]
  cases hcoord : s.status.motionFlag.coord with
  | true => simp [Machine.setMotionError, Machine.setTp]
  | false =>
    cases hconf : s.isConfigured i with
    | true => simp [Machine.setMotionError, Machine.mapConfigured, hconf, Axis.stopFree]
    | false => simp [Machine.setMotionError, Machine.mapConfigured, hconf]

theorem appendLine_freeTp (s : Machine K) (i : Fin 3) : ((appendLine s).axes i).freeTp = (s.axes i).freeTp := by
  unfold appendLine
  dsimp only
  split
  · rfl
  · show (if i = 0 then _ else _ : Axis K).freeTp = _
    split <;> rfl

theorem appendCircle_freeTp (s : Machine K) (i : Fin 3) : ((appendCircle s).axes i).freeTp = (s.axes i).freeTp := by
  unfold appendCircle
  dsimp only
  split <;> rfl

/-- Apart from the jogs, a command leaves a planner alone or stops it. -/
theorem executeCommand_freeTp {s t : Machine K} {j : Bool} (hc : s.command.command.isJog = false)
    (h : executeCommand s j = some t) (i : Fin 3) : (t.axes i).freeTp = (s.axes i).freeTp ∨
      (t.axes i).freeTp = { (s.axes i).freeTp with enable := false } := by
  have hactive : ∀ {fl : Bool} {u : Machine K}, s.setAxisActive fl = some u →
      (u.axes i).freeTp = (s.axes i).freeTp := by
    intro fl u hu
    obtain ⟨k, -, rfl⟩ := Option.map_eq_some_iff.1 hu
    show (if i = k then _ else _ : Axis K).freeTp = _
    split <;> rfl
  have hrefused : ∀ {u : Machine K}, coordMoveRefused s = some u → (u.axes i).freeTp = (s.axes i).freeTp := by
    intro u hu
    obtain ⟨status, tp, -, -, rfl⟩ := coordMoveRefused_cases hu
    rfl
  unfold executeCommand at h
  cases hcmd : s.command.command <;> rw [hcmd] at h hc
  case downloadsConfig =>
    obtain ⟨u, hu, rfl⟩ := Option.map_eq_some_iff.1 h
    obtain ⟨k, -, rfl⟩ := Option.map_eq_some_iff.1 hu
    left
    show (if i = k then _ else _ : Axis K).freeTp = _
    split <;> rfl
  case axisEnable =>
    change axisEnable s = some t at h
    unfold axisEnable at h
    split at h
    · cases h
      exact .inl rfl
    · exact .inl (hactive h)
  case axisDisable => exact .inl (hactive h)
  -- the one command here that touches the planner
  case abort =>
    cases h
    rw [abortMotion_freeTp]
    split
    · exact .inr rfl
    · exact .inl rfl
  case setLine =>
    cases h
    left
    unfold setLine
    cases hr : coordMoveRefused s with
    | none => exact appendLine_freeTp s i
    | some u => exact hrefused hr
  case setCircle =>
    cases h
    left
    unfold setCircle
    cases hr : coordMoveRefused s with
    | none => exact appendCircle_freeTp s i
    | some u => exact hrefused hr
  case jogCont => cases hc
  case jogIncr => cases hc
  case jogAbs => cases hc
  case jogAbort => cases hc
  all_goals
    cases h
    exact .inl rfl

theorem executeCommand_freeEnable {s t : Machine K} {j : Bool} (hc : s.command.command.isJog = false)
    (h : executeCommand s j = some t) {i : Fin 3} (hen : (t.axes i).freeTp.enable = true) :
    (s.axes i).freeTp.enable = true := by
  rcases executeCommand_freeTp hc h i with heq | heq
  · rw [← heq]
    exact hen
  · rw [heq] at hen
    cases hen

end

/-- What executing a command does to the guard: a jog is started on a configured axis while motion is enabled. -/
theorem executeCommand_guarded {s t : Machine ℝ} {j : Bool} (hmask : s.NoOverride) (hs : s.EnableGuarded)
    (h : executeCommand s j = some t) : t.EnableGuarded := by
  have hkeep := executeCommand_keeps h
  intro i hen
  have hold : s.isConfigured i = true ∧ s.status.motionFlag.enable = true := by
    cases hc : s.command.command.isJog with
    | false => exact hs i (executeCommand_freeEnable hc h hen)
    | true =>
      cases (executeJog_effect i hc h).2.2 with
      | same heq =>
        rw [heq] at hen
        exact hs i hen
      | stop heq =>
        rw [heq] at hen
        cases hen
      | jog hstart =>
        have hchecked : ∀ {vel acc : Int}, StartsJog s j i vel acc → JogChecked s j i := by
          intro vel acc hst
          cases hst with
          | cont _ h => exact h
          | incr _ h => exact h
          | abs _ h => exact h
        obtain ⟨henable, -, -, hok⟩ := hchecked hstart
        exact ⟨((jointJogOk_iff hmask i _).1 hok).1, henable⟩
  refine ⟨?_, hkeep.enable.trans hold.2⟩
  unfold Machine.isConfigured
  rw [hkeep.numAxes]
  exact hold.1

theorem Step.guarded {s t : Machine ℝ} {e : Event ℝ} (hmask : s.NoOverride) (hs : s.EnableGuarded) (h : Step s e t) :
    t.EnableGuarded := by
  cases h with
  | frame hf =>
    have hkeep := (processFrame_quiet hf).toKeeps
    rw [processFrame_eq] at hf
    intro i hen
    rw [publish_freeTp hf i] at hen
    refine ⟨?_, hkeep.enable.trans (hs i hen).2⟩
    unfold Machine.isConfigured
    rw [hkeep.numAxes]
    exact (hs i hen).1
  | command c => exact hs
  | handle hh =>
    rcases emcmotCommandHandler_cases hh with ⟨-, hexec⟩ | ⟨-, rfl⟩
    · exact executeCommand_guarded (s := s.echo) hmask hs hexec
    · exact hs
  | cycle hc => exact emcmotController_guarded hs hc

theorem Reachable.guarded {numAxes : Int} {s : Machine ℝ} (h : Reachable numAxes s) : s.EnableGuarded := by
  have key : s.NoOverride ∧ s.EnableGuarded := by
    refine Lib.Reaches.invariant (I := fun u : Machine ℝ => u.NoOverride ∧ u.EnableGuarded) ?_ h ?_
    · intro u e v hu hst
      exact ⟨Step.noOverride hu.1 hst, Step.guarded hu.1 hu.2 hst⟩
    · have hinit : Reachable numAxes (initMachine numAxes : Machine ℝ) := Lib.Reaches.refl _
      refine ⟨hinit.noOverride, ?_⟩
      obtain ⟨_, _, _, _, _, _, _, heq⟩ := initMachine_eq (K := ℝ) numAxes
      rw [heq]
      intro i hen
      cases hen
  exact key.2

/-- The state follows from the flags. -/
theorem Reachable.stateOfFlags {numAxes : Int} {s : Machine ℝ} (h : Reachable numAxes s) :
    s.status.motionState = s.modes.state := by
  refine Lib.Reaches.invariant (I := fun u : Machine ℝ => u.status.motionState = u.modes.state) ?_ h ?_
  · intro u e v hu hst
    have hkept : Keeps u v → v.status.motionState = v.modes.state := by
      intro hk
      rw [hk.motionState, hu]
      unfold Modes.state Machine.modes
      dsimp only
      rw [hk.enable, hk.coord]
    cases hst with
    | frame hf => exact hkept (processFrame_quiet hf).toKeeps
    | command c => exact hu
    | handle hh => exact hkept (emcmotCommandHandler_keeps hh)
    | cycle hc =>
      rw [(emcmotController_modes hc).2, (emcmotController_modes hc).1]
      exact setOperatingMode_motionState _
  · obtain ⟨_, _, _, _, _, _, _, heq⟩ := initMachine_eq (K := ℝ) numAxes
    rw [heq]
    rfl

/-! ### Soft limits -/

/-- In exact arithmetic the tolerance of the soft limits does not matter. -/
theorem offLimits_iff (axis : Axis ℝ) : axis.offLimits = true ↔
    axis.maxPosLimit < axis.posCmd ∨ axis.posCmd < axis.minPosLimit := by
  have htol : ∀ a b : Int, (a : ℝ) + 0.000000000001 < (b : ℝ) ↔ a < b := by
    intro a b
    constructor
    · intro h
      have hab : (a : ℝ) < (b : ℝ) := by linarith
      exact_mod_cast hab
    · intro h
      have hab : (a : ℝ) + 1 ≤ (b : ℝ) := by exact_mod_cast h
      linarith
  have hmin : (axis.posCmd : ℝ) < (axis.minPosLimit : ℝ) - 0.000000000001 ↔ axis.posCmd < axis.minPosLimit := by
    rw [← htol]
    constructor <;> intro h <;> linarith
  unfold Axis.offLimits
  rw [Bool.or_eq_true, decide_eq_true_iff, decide_eq_true_iff, htol, hmin]

/-- The soft-limit status after a cycle. -/
theorem emcmotController_softLimit {s t : Machine ℝ} {inp : Inputs} {period : Int} {fuel : Nat}
    (h : emcmotController s inp period fuel = some t) : t.status.onSoftLimit = true ↔
      ∃ i, t.isConfigured i = true ∧
        ((t.axes i).maxPosLimit < (t.axes i).posCmd ∨ (t.axes i).posCmd < (t.axes i).minPosLimit) := by
  have hcheck : ∀ v : Machine ℝ, (checkSoftLimits v).status.onSoftLimit = true ↔
      ∃ i, v.isConfigured i = true ∧ (v.axes i).offLimits = true := by
    intro v
    unfold checkSoftLimits
    by_cases hoff : ∃ i : Fin 3, v.isConfigured i = true ∧ (v.axes i).offLimits = true
    · rw [if_pos (decide_eq_true hoff)]
      refine iff_of_true ?_ hoff
      split
      · assumption
      · rfl
    · rw [if_neg (by rw [decide_eq_true_iff]; exact hoff)]
      exact iff_of_false Bool.false_ne_true hoff
  obtain ⟨u, hu, rfl⟩ := Option.map_eq_some_iff.1 h
  obtain ⟨v, hv, rfl⟩ := Option.map_eq_some_iff.1 hu
  have hnum : ∀ i, (updateStatus (outputToHal (checkSoftLimits v)) inp).isConfigured i = v.isConfigured i := by
    intro i
    show decide ((i.val : Int) < (checkSoftLimits v).config.numAxes) = _
    obtain ⟨error, onSoftLimit, hsoft⟩ := checkSoftLimits_eq v
    rw [hsoft]
    rfl
  show (checkSoftLimits v).status.onSoftLimit = true ↔ _
  rw [hcheck]
  refine exists_congr fun i => ?_
  obtain ⟨pos, hpos⟩ := cycleEnd_axes v inp i
  rw [hnum, hpos, offLimits_iff]

/-! ### Main result -/

/-- What the checks of the limits are there for, with the first `n` axes in use. -/
structure LimitsCovered (n : Int) (s : Machine ℝ) : Prop where
  /-- A line or circle that is accepted finds no active axis on a limit switch. -/
  move : ∀ j t, s.Pending → (s.command.command = .setLine ∨ s.command.command = .setCircle) →
    emcmotCommandHandler s j = some t → t.status.commandStatus = .ok →
    ∀ i, (s.axes i).flag.active = true → (s.axes i).flag.phl = false ∧ (s.axes i).flag.nhl = false
  /-- An abort outside coordinated mode stops every planner. -/
  abort : ∀ j t, s.Pending → s.command.command = .abort → s.status.motionState ≠ .coord →
    emcmotCommandHandler s j = some t → ∀ i, (t.axes i).freeTp.enable = false
  /-- A jog of an axis in use within its limits is not rejected. -/
  jog : ∀ (i : Fin 3) (vel : Int), (i.val : Int) < n → (s.axes i).flag.phl = false → (s.axes i).flag.nhl = false →
    (s.axes i).minJogLimit ≤ (s.axes i).posCmd → (s.axes i).posCmd ≤ (s.axes i).maxJogLimit →
    jointJogOk s i vel = true
  /-- A cycle reports an axis in use outside its soft limits. -/
  softLimit : ∀ inp fuel t, emcmotController s inp motionThreadPeriod fuel = some t →
    (∃ i : Fin 3, (i.val : Int) < n ∧
      ((t.axes i).maxPosLimit < (t.axes i).posCmd ∨ (t.axes i).posCmd < (t.axes i).minPosLimit)) →
    t.status.onSoftLimit = true

theorem Reachable.numAxes {numAxes : Int} {s : Machine ℝ} (h : Reachable numAxes s) : s.config.numAxes = numAxes := by
  refine Lib.Reaches.invariant (I := fun u : Machine ℝ => u.config.numAxes = numAxes) ?_ h ?_
  · intro u e v hu hst
    cases hst with
    | frame hf => exact (processFrame_quiet hf).numAxes.trans hu
    | command c => exact hu
    | handle hh => exact (emcmotCommandHandler_keeps hh).numAxes.trans hu
    | cycle hc => exact (emcmotController_cycleKeeps hc).numAxes.trans hu
  · obtain ⟨_, _, _, _, _, _, _, heq⟩ := initMachine_eq (K := ℝ) numAxes
    rw [heq]
    rfl

/-- A move that is not refused found no configured axis on a limit switch. -/
theorem limitsOk_of_accepted {s t : Machine ℝ} {j : Bool} (hnew : s.Pending)
    (hmove : s.command.command = .setLine ∨ s.command.command = .setCircle)
    (h : emcmotCommandHandler s j = some t) (hok : t.status.commandStatus = .ok) : limitsOk s = true := by
  rw [emcmotCommandHandler_pending hnew] at h
  have hnone : coordMoveRefused s.echo = none := by
    cases hr : coordMoveRefused s.echo with
    | none => rfl
    | some u =>
      unfold executeCommand at h
      rcases hmove with hcode | hcode
      · rw [show s.echo.command.command = .setLine from hcode] at h
        change some (setLine s.echo) = some t at h
        unfold setLine at h
        rw [hr] at h
        cases h
        exact absurd hok (coordMoveRefused_status hr)
      · rw [show s.echo.command.command = .setCircle from hcode] at h
        change some (setCircle s.echo) = some t at h
        unfold setCircle at h
        rw [hr] at h
        cases h
        exact absurd hok (coordMoveRefused_status hr)
  by_contra hlim
  have hlim' : limitsOk s.echo = false := Bool.eq_false_of_not_eq_true hlim
  unfold coordMoveRefused at hnone
  rw [hlim'] at hnone
  split at hnone
  · cases hnone
  · cases hnone

theorem isConfigured_of_three {s : Machine ℝ} (h : 3 ≤ s.config.numAxes) (i : Fin 3) : s.isConfigured i = true := by
  refine decide_eq_true ?_
  have := i.isLt
  omega

/-- An abort outside coordinated mode stops every planner, whatever the number of axes. -/
theorem abort_stops {numAxes : Int} {s t : Machine ℝ} {j : Bool} (hs : Reachable numAxes s) (hnew : s.Pending)
    (habort : s.command.command = .abort) (hstate : s.status.motionState ≠ .coord)
    (hh : emcmotCommandHandler s j = some t) (i : Fin 3) : (t.axes i).freeTp.enable = false := by
  rw [emcmotCommandHandler_pending hnew] at hh
  unfold executeCommand at hh
  rw [show s.echo.command.command = .abort from habort] at hh
  cases hh
  rw [abortMotion_freeTp]
  by_contra hen
  have hold : ∀ {b : Bool}, ¬ b = false → b = true := Bool.eq_true_of_not_eq_false
  split at hen
  · exact hen rfl
  · rename_i hkept
    obtain ⟨hconf, henable⟩ := hs.guarded i (hold hen)
    apply hkept
    refine ⟨?_, hconf⟩
    by_contra hcoord
    apply hstate
    rw [hs.stateOfFlags]
    unfold Modes.state Machine.modes
    dsimp only
    rw [henable, show s.status.motionFlag.coord = true from hold hcoord]
    rfl

/-- With three axes configured the checks cover all of them. -/
theorem limitsCovered_of_three {numAxes : Int} (hnum : 3 ≤ numAxes) (n : Int) {s : Machine ℝ}
    (hs : Reachable numAxes s) : LimitsCovered n s where
  move j t hnew hmove hh hok i hactive := by
    have hlim := limitsOk_of_accepted hnew hmove hh hok
    unfold limitsOk at hlim
    rw [Bool.not_eq_true', decide_eq_false_iff_not] at hlim
    have hflags : ¬ ((s.axes i).flag.phl = true ∨ (s.axes i).flag.nhl = true) := fun h =>
      hlim ⟨i, isConfigured_of_three (by rw [hs.numAxes]; exact hnum) i, hactive, h⟩
    rw [not_or, Bool.not_eq_true, Bool.not_eq_true] at hflags
    exact hflags
  abort j t hnew habort hstate hh i := abort_stops hs hnew habort hstate hh i
  jog i vel _ hphl hnhl hmin hmax :=
    (jointJogOk_iff hs.noOverride i vel).2 ⟨isConfigured_of_three (by rw [hs.numAxes]; exact hnum) i,
      fun _ => ⟨hphl, hmax⟩, fun _ => ⟨hnhl, hmin⟩⟩
  softLimit inp fuel t hc := by
    rintro ⟨i, -, hoff⟩
    have ht : 3 ≤ t.config.numAxes := by
      rw [(emcmotController_cycleKeeps hc).numAxes, hs.numAxes]
      exact hnum
    exact (emcmotController_softLimit hc).2 ⟨i, isConfigured_of_three ht i, hoff⟩

/-- With fewer axes configured, a line is accepted while the last axis is on a limit switch. -/
theorem line_on_switch {numAxes : Int} (hnum : numAxes < 3) : ∃ s t : Machine ℝ, NetReachable numAxes s ∧ s.Pending ∧
    s.status.motionState = .coord ∧ s.command.command = .setLine ∧ emcmotCommandHandler s false = some t ∧
    t.status.commandStatus = .ok ∧ (s.axes 2).flag.active = true ∧ (s.axes 2).flag.nhl = true := by
  obtain ⟨s, hnet, hidle, hs, hconfig, hflags⟩ := coordStart_exists numAxes fun i => decide (i = 2)
  have hlim : limitsOk s = true := by
    unfold limitsOk
    rw [Bool.not_eq_true', decide_eq_false_iff_not]
    rintro ⟨i, hconf, -, hswitch⟩
    obtain ⟨hphl, hnhl⟩ := hflags i
    rw [hphl, hnhl, decide_eq_true_iff] at hswitch
    have hi : i = 2 := hswitch.resolve_left (by simp)
    have hlt : (i.val : Int) < s.config.numAxes := of_decide_eq_true hconf
    rw [hi, hconfig] at hlt
    have : ((2 : Fin 3).val : Int) = 2 := rfl
    omega
  obtain ⟨t, hserve, hok, -⟩ := hs.serve_line hnet.reachable.sound hlim (le_refl 1)
  obtain ⟨u, hpub, hnew, hh, -⟩ := serve_steps hidle hserve
  have hnet' : NetReachable numAxes u := hnet.publish (lineRequest_encodable (by decide)) hpub
  have hu : u = { s with axes := s.axes, command := (lineRequest 1).command s.command } := (Option.some.inj hpub).symm
  refine ⟨u, t, hnet', hnew, ?_, ?_, hh, hok, ?_, ?_⟩
  · rw [hu]
    exact hs.motionState
  · rw [hu]
    rfl
  · rw [hu]
    exact (hs.axis 2).1
  · rw [hu]
    exact (hflags 2).2

/-- The checks of the limits do their work in every run exactly if three axes are configured. -/
theorem limitsCovered_iff (numAxes n : Int) :
    (∀ s : Machine ℝ, Reachable numAxes s → LimitsCovered n s) ↔ 3 ≤ numAxes := by
  constructor
  · intro h
    by_contra hnum
    obtain ⟨s, t, hs, hnew, -, hcode, hh, hok, hactive, hnhl⟩ := line_on_switch (not_le.1 hnum)
    have hoff := ((h s hs.reachable).move false t hnew (.inl hcode) hh hok 2 hactive).2
    rw [hnhl] at hoff
    cases hoff
  · intro hnum s hs
    exact limitsCovered_of_three hnum n hs

/-- The program leaves the number of axes at zero. -/
theorem limits_not_covered : ∃ s t : Machine ℝ, NetReachable 0 s ∧ s.Pending ∧ s.status.motionState = .coord ∧
    s.command.command = .setLine ∧ emcmotCommandHandler s false = some t ∧ t.status.commandStatus = .ok ∧
    (s.axes 2).flag.active = true ∧ (s.axes 2).flag.nhl = true :=
  line_on_switch (by decide)

end SoemMotion
