import SoemMotion.FaultStop

/-!
# Switching modes and enabling axes

The mode flags: a request that is honoured sets the flag of its mode and leaves the flag of the other mode as it is, so
the two flags exclude each other only until both modes have been requested.  The ENABLE bits of the axes: they are
written on the edges of motion enable only, while an axis becomes active at any time.
-/

namespace SoemMotion

variable {K : Type} [Arith K]

/-! ### The mode flags -/

/-- The FREE and the COORD flag are not both set. -/
def Machine.ModesExclusive (s : Machine K) : Prop :=
  ¬ (s.status.motionFlag.free = true ∧ s.status.motionFlag.coord = true)

/-- In position, with a request for one mode while the flag of the other is set. -/
def Machine.HonoursOver (s : Machine K) : Prop :=
  s.status.motionFlag.inpos = true ∧
    (s.internal.coordinating = true ∧ s.status.motionFlag.free = true ∨
      s.internal.freeing = true ∧ s.status.motionFlag.coord = true)

/-- At most one mode is requested. -/
def Machine.OneRequest (s : Machine K) : Prop := ¬ (s.internal.freeing = true ∧ s.internal.coordinating = true)

theorem emcmotController_modeFlags {s t : Machine K} {inp : Inputs} {period : Int} {fuel : Nat}
    (h : emcmotController s inp period fuel = some t) :
    t.status.motionFlag.free =
        (s.status.motionFlag.free || (s.internal.freeing && s.status.motionFlag.inpos)) ∧
      t.status.motionFlag.coord =
        (s.status.motionFlag.coord || (s.internal.coordinating && s.status.motionFlag.inpos)) ∧
      t.internal.freeing =
        (s.internal.freeing && (s.status.motionFlag.free || s.status.motionFlag.inpos)) ∧
      t.internal.coordinating =
        (s.internal.coordinating && (s.status.motionFlag.coord || s.status.motionFlag.inpos)) := by
  have hm := (emcmotController_modes h).1.trans (controllerFront_modes s inp period)
  exact ⟨congrArg Modes.free hm, congrArg Modes.coord hm, congrArg Modes.freeing hm, congrArg Modes.coordinating hm⟩

/-- A cycle keeps the mode flags exclusive exactly if it honours no request over the flag of the other mode. -/
theorem modesExclusive_cycle {s t : Machine K} {inp : Inputs} {period : Int} {fuel : Nat} (hone : s.OneRequest)
    (h : emcmotController s inp period fuel = some t) :
    t.ModesExclusive ↔ s.ModesExclusive ∧ ¬ s.HonoursOver := by
  obtain ⟨hf, hc, -, -⟩ := emcmotController_modeFlags h
  unfold Machine.ModesExclusive Machine.HonoursOver
  unfold Machine.OneRequest at hone
  rw [hf, hc]
  revert hone
  cases s.internal.freeing <;> cases s.internal.coordinating <;> cases s.status.motionFlag.free <;>
    cases s.status.motionFlag.coord <;> cases s.status.motionFlag.inpos <;> decide

omit [Arith K] in
theorem Keeps.modesExclusive {s t : Machine K} (h : Keeps s t) (hs : s.ModesExclusive) : t.ModesExclusive := by
  unfold Machine.ModesExclusive
  rw [h.free, h.coord]
  exact hs

theorem executeCommand_oneRequest {s t : Machine K} {jogInhibit : Bool} (hs : s.OneRequest)
    (h : executeCommand s jogInhibit = some t) : t.OneRequest := by
  cases hc : s.command.command.isRequest with
  | false =>
    have hq := executeCommand_quiet hc h
    unfold Machine.OneRequest
    rw [hq.freeing, hq.coordinating]
    exact hs
  | true =>
    unfold executeCommand at h
    cases hcmd : s.command.command <;> rw [hcmd] at h hc
    case axisEnable =>
      rcases axisEnable_eq h with ⟨-, rfl⟩ | ⟨-, h⟩
      · exact hs
      · obtain ⟨i, -, hi, -⟩ := setAxisActive_eq h
        unfold Machine.OneRequest
        rw [hi]
        exact hs
    case axisDisable =>
      obtain ⟨i, -, hi, -⟩ := setAxisActive_eq h
      unfold Machine.OneRequest
      rw [hi]
      exact hs
    case motionEnable | motionDisable =>
      cases h
      exact hs
    case setFree =>
      cases h
      rintro ⟨-, h⟩
      cases h
    case setCoord =>
      cases h
      rintro ⟨h, -⟩
      cases h
    all_goals cases hc

theorem Step.oneRequest {s t : Machine K} {e : Event K} (hs : s.OneRequest) (h : Step s e t) : t.OneRequest := by
  cases h with
  | frame h =>
    have hq := processFrame_quiet h
    unfold Machine.OneRequest
    rw [hq.freeing, hq.coordinating]
    exact hs
  | command c => exact hs
  | handle h =>
    rcases emcmotCommandHandler_cases h with ⟨-, h⟩ | ⟨-, rfl⟩
    · exact executeCommand_oneRequest (s := s.echo) hs h
    · exact hs
  | cycle h =>
    obtain ⟨-, -, hf, hc⟩ := emcmotController_modeFlags h
    rintro ⟨h1, h2⟩
    rw [hf, Bool.and_eq_true] at h1
    rw [hc, Bool.and_eq_true] at h2
    exact hs ⟨h1.1, h2.1⟩

theorem initMachine_modes (numAxes : Int) : (initMachine numAxes : Machine K).modes =
    ⟨false, false, false, false, false, false, fun _ => true, fun _ => false⟩ := by
  obtain ⟨_, _, _, _, _, _, _, h⟩ := initMachine_eq (K := K) numAxes
  rw [h]
  rfl

theorem initMachine_oneRequest (numAxes : Int) : (initMachine numAxes : Machine K).OneRequest := by
  rintro ⟨h, -⟩
  have hm : (initMachine numAxes : Machine K).internal.freeing = false :=
    congrArg Modes.freeing (initMachine_modes numAxes)
  rw [hm] at h
  cases h

theorem Reachable.oneRequest {numAxes : Int} {s : Machine K} (h : Reachable numAxes s) : s.OneRequest :=
  Lib.Reaches.invariant (fun _ _ _ hs hst => Step.oneRequest hs hst) h (initMachine_oneRequest numAxes)

/-- No cycle honours a request over the flag of the other mode. -/
def HonoursAlone (s : Machine K) : Event K → Machine K → Prop
  | .cycle _, _ => ¬ s.HonoursOver
  | _, _ => True

theorem modesExclusive_run {numAxes : Int} {s : Machine K}
    (h : Lib.Reaches (Lib.Restrict Step HonoursAlone) (initMachine numAxes) s) : s.ModesExclusive := by
  refine h.restrict_invariant (I := Machine.OneRequest) (J := Machine.ModesExclusive)
    (fun _ _ _ hs hst => Step.oneRequest hs hst) ?_ (initMachine_oneRequest numAxes) ?_
  · rintro s e t hone hs ⟨hst, he⟩
    cases hst with
    | cycle hc => exact (modesExclusive_cycle hone hc).2 ⟨hs, he⟩
    | frame hf => exact (processFrame_quiet hf).toKeeps.modesExclusive hs
    | command c => exact hs
    | handle hh => exact (emcmotCommandHandler_keeps hh).modesExclusive hs
  · rintro ⟨hf, -⟩
    have hm : (initMachine numAxes : Machine K).status.motionFlag.free = false :=
      congrArg Modes.free (initMachine_modes numAxes)
    rw [hm] at hf
    cases hf

/-! ### Mode requests -/

/-- The command `c` waits for the handler. -/
def Machine.Waiting (s : Machine K) (c : CmdCode) : Prop :=
  s.command.command = c ∧ s.command.commandNum ≠ s.status.commandNumEcho

/-- Motion is enabled and stays so. -/
def Machine.MotionEnabled (s : Machine K) : Prop :=
  s.internal.enabling = true ∧ s.status.motionFlag.enable = true

theorem emcmotCommandHandler_waiting {s t : Machine K} {c : CmdCode} {jogInhibit : Bool} (hw : s.Waiting c)
    (h : emcmotCommandHandler s jogInhibit = some t) : executeCommand s.echo jogInhibit = some t := by
  rcases emcmotCommandHandler_cases h with ⟨-, h⟩ | ⟨heq, -⟩
  · exact h
  · exact absurd heq hw.2

/-- SET_FREE takes effect exactly when the COORD flag is clear. -/
theorem setFree_motionState {s u t : Machine K} {j : Bool} {inp : Inputs} {period : Int} {fuel : Nat}
    (hen : s.internal.enabling = true) (hw : s.Waiting .setFree) (hu : emcmotCommandHandler s j = some u)
    (hf : faultFound (sampled u inp period) = false) (ht : emcmotController u inp period fuel = some t) :
    t.status.motionState = .free ↔ s.status.motionFlag.coord = false := by
  have hx := emcmotCommandHandler_waiting hw hu
  unfold executeCommand at hx
  rw [show s.echo.command.command = .setFree from hw.1] at hx
  cases hx
  rw [emcmotController_motionState (s := setFree s.echo) hen hf ht]
  show (if (s.status.motionFlag.coord || (false && s.status.motionFlag.inpos)) = true then _ else _) = _ ↔ _
  cases s.status.motionFlag.coord <;> simp

/-- SET_COORD takes effect in position. -/
theorem setCoord_motionState {s u t : Machine K} {j : Bool} {inp : Inputs} {period : Int} {fuel : Nat}
    (hen : s.internal.enabling = true) (hin : s.status.motionFlag.inpos = true) (hw : s.Waiting .setCoord)
    (hu : emcmotCommandHandler s j = some u) (hf : faultFound (sampled u inp period) = false)
    (ht : emcmotController u inp period fuel = some t) : t.status.motionState = .coord := by
  have hx := emcmotCommandHandler_waiting hw hu
  unfold executeCommand at hx
  rw [show s.echo.command.command = .setCoord from hw.1] at hx
  cases hx
  rw [emcmotController_motionState (s := setCoord s.echo) hen hf ht]
  show (if (s.status.motionFlag.coord || (true && s.status.motionFlag.inpos)) = true then _ else _) = _
  rw [hin]
  cases s.status.motionFlag.coord <;> rfl

/-- The mode flags exclude each other as long as no request is honoured over the flag of the other mode, and a request
for free mode takes effect as long as the COORD flag is clear. -/
theorem modeSwitch_iff (numAxes : Int) :
    (∀ s : Machine K, Lib.Reaches (Lib.Restrict Step HonoursAlone) (initMachine numAxes) s → s.ModesExclusive) ∧
    (∀ (s t : Machine K) (inp : Inputs) (fuel : Nat), Reachable numAxes s →
      emcmotController s inp motionThreadPeriod fuel = some t →
        (t.ModesExclusive ↔ s.ModesExclusive ∧ ¬ s.HonoursOver)) ∧
    (∀ (s u t : Machine K) (j : Bool) (inp : Inputs) (fuel : Nat), Reachable numAxes s → s.MotionEnabled →
      s.status.motionFlag.inpos = true → s.Waiting .setFree → emcmotCommandHandler s j = some u →
      faultFound (sampled u inp motionThreadPeriod) = false →
      emcmotController u inp motionThreadPeriod fuel = some t →
        (t.status.motionState = .free ↔ s.status.motionFlag.coord = false)) ∧
    (∀ (s u t : Machine K) (j : Bool) (inp : Inputs) (fuel : Nat), Reachable numAxes s → s.MotionEnabled →
      s.status.motionFlag.inpos = true → s.Waiting .setCoord → emcmotCommandHandler s j = some u →
      faultFound (sampled u inp motionThreadPeriod) = false →
      emcmotController u inp motionThreadPeriod fuel = some t → t.status.motionState = .coord) := by
  refine ⟨fun _ => modesExclusive_run, ?_, ?_, ?_⟩
  · intro s t inp fuel hs ht
    exact modesExclusive_cycle hs.oneRequest ht
  · intro s u t j inp fuel _ hen _ hw hu hf ht
    exact setFree_motionState hen.1 hw hu hf ht
  · intro s u t j inp fuel _ hen hin hw hu hf ht
    exact setCoord_motionState hen.1 hin hw hu hf ht

/-- A cycle of a machine that is not enabled. -/
theorem disabled_cycle {s : Machine ℝ} (hen : s.internal.enabling = false) (inp : Inputs) :
    ∃ t, emcmotController s inp motionThreadPeriod 1 = some t ∧ t.internal.enabling = false ∧
      t.status.motionFlag.inpos = s.status.motionFlag.inpos := by
  have hstop : (controllerFront s inp motionThreadPeriod).Stopped := (controllerFront_stopped _ _ _).2 (.inl hen)
  obtain ⟨t, ht⟩ := emcmotController_exists (by rw [hstop.2.2]; simp) 1
  obtain ⟨hm, hst⟩ := emcmotController_modes ht
  exact ⟨t, ht, ((stopped_congr hm hst).2 hstop).1, emcmotController_inpos hstop.2.2 ht⟩

/-- SET_COORD and SET_FREE, each followed by a cycle, leave both flags set. -/
theorem modes_not_exclusive : ∃ s : Machine ℝ, Reachable 3 s ∧ ¬ s.ModesExclusive := by
  have hs1 : ∃ s1, runEvents 1 (initMachine 3 : Machine ℝ) [.frame (plainFrame 16 0), .handle false] = some s1 ∧
      s1.internal.enabling = false ∧ s1.internal.coordinating = true ∧ s1.status.motionFlag.inpos = true ∧
      s1.command.commandNum = s1.status.commandNumEcho := by
    obtain ⟨_, _, _, _, _, _, _, h⟩ := initMachine_eq (K := ℝ) 3
    rw [h]
    exact ⟨_, rfl, rfl, rfl, rfl, rfl⟩
  obtain ⟨s1, hrun1, hen1, hreq1, hin1, hnum1⟩ := hs1
  obtain ⟨t1, ht1, hen2, hin2⟩ := disabled_cycle hen1 restInputs
  have hkeep := emcmotController_cycleKeeps ht1
  have hnum2 : t1.command.commandNum = t1.status.commandNumEcho := by
    rw [hkeep.command, hkeep.commandNumEcho, hnum1]
  have hrun2 := plainFrame_run t1 15 0 .setFree 1 false rfl hnum2
  have hr2 : NetReachable 3 (setFree (publishPlain t1 (plainFrame 15 0) .setFree).echo) := by
    have h1 : NetReachable 3 s1 := runEvents_netReaches (by simp [Event.fromNetwork]) hrun1
    have h2 : NetReachable 3 t1 := h1.tail (e := .cycle restInputs) ⟨.cycle ht1, trivial⟩
    exact h2.trans (runEvents_netReaches (by simp [Event.fromNetwork]) hrun2)
  obtain ⟨t2, ht2, -, -⟩ := disabled_cycle (s := setFree (publishPlain t1 (plainFrame 15 0) .setFree).echo) hen2
    restInputs
  have hr3 : NetReachable 3 t2 := hr2.tail (e := .cycle restInputs) ⟨.cycle ht2, trivial⟩
  refine ⟨t2, hr3.reachable, ?_⟩
  obtain ⟨-, hc1, -, -⟩ := emcmotController_modeFlags ht1
  obtain ⟨hf2, hc2, -, -⟩ := emcmotController_modeFlags ht2
  have hcoord : t1.status.motionFlag.coord = true := by rw [hc1, hreq1, hin1, Bool.and_true, Bool.or_true]
  have hboth : t2.status.motionFlag.free = true ∧ t2.status.motionFlag.coord = true := by
    constructor
    · rw [hf2]
      show (t1.status.motionFlag.free || (true && t1.status.motionFlag.inpos)) = true
      rw [hin2, hin1, Bool.and_true, Bool.or_true]
    · rw [hc2]
      show (t1.status.motionFlag.coord || _) = true
      rw [hcoord, Bool.true_or]
  exact fun h => h hboth

/-! ### The ENABLE bits -/

/-- Every active axis is enabled exactly when motion is. -/
def Machine.EnableFollows (s : Machine K) : Prop :=
  ∀ i, (s.axes i).flag.active = true → (s.axes i).flag.enable = s.status.motionFlag.enable

/-- Motion is enabled or disabled in the cycle. -/
def EnableEdge (s : Machine K) (inp : Inputs) : Prop :=
  s.status.motionFlag.enable = true ∧ (s.internal.enabling = false ∨ FaultSeen s inp) ∨
    s.status.motionFlag.enable = false ∧ s.internal.enabling = true ∧ ¬ FaultSeen s inp

theorem enableEdge_iff (s : Machine K) (inp : Inputs) (period : Int) : EnableEdge s inp ↔
    (s.internal.enabling && !faultFound (sampled s inp period)) ≠ s.status.motionFlag.enable := by
  have hseen : faultFound (sampled s inp period) = true ↔ FaultSeen s inp := faultFound_sampled s inp period
  unfold EnableEdge
  rw [← hseen]
  cases s.internal.enabling <;> cases s.status.motionFlag.enable <;> cases faultFound (sampled s inp period) <;>
    simp

/-- A cycle brings the ENABLE bits in step by an edge of motion enable, and in no other way. -/
theorem enableFollows_cycle {s t : Machine K} {inp : Inputs} {period : Int} {fuel : Nat}
    (h : emcmotController s inp period fuel = some t) :
    t.EnableFollows ↔ EnableEdge s inp ∨ s.EnableFollows := by
  have hm := (emcmotController_modes h).1.trans (controllerFront_modes s inp period)
  have hact : ∀ i, (t.axes i).flag.active = (s.axes i).flag.active := congrFun (congrArg Modes.axisActive hm)
  have hen : t.status.motionFlag.enable = (s.internal.enabling && !faultFound (sampled s inp period)) :=
    congrArg Modes.enable hm
  have hbit : ∀ i, (t.axes i).flag.enable = _ := congrFun (congrArg Modes.axisEnable hm)
  rw [enableEdge_iff s inp period]
  generalize (s.internal.enabling && !faultFound (sampled s inp period)) = enabling at hen hbit ⊢
  by_cases he : enabling = s.status.motionFlag.enable
  · have hsame : ∀ i, (t.axes i).flag.enable = (s.axes i).flag.enable := by
      intro i
      rw [hbit i]
      exact if_pos he
    simp only [Machine.EnableFollows, hact, hen, hsame, he, ne_eq, not_true_eq_false, false_or]
  · refine iff_of_true ?_ (.inl he)
    intro i hi
    rw [hact i] at hi
    rw [hbit i, hen]
    refine (if_neg he).trans ?_
    show (if enabling = true then (s.axes i).flag.active || (s.axes i).flag.enable
      else !(s.axes i).flag.active && (s.axes i).flag.enable) = enabling
    rw [hi]
    cases enabling <;> rfl

/-- An axis is made active only while its ENABLE bit is the motion ENABLE flag. -/
def ActivatesInStep (s : Machine K) : Event K → Machine K → Prop
  | .handle _, _ => ∀ i, s.Waiting .axisEnable → s.hal.enable = true → axisIndex s.command.axis = some i →
      (s.axes i).flag.enable = s.status.motionFlag.enable
  | _, _ => True

omit [Arith K] in
theorem Quiet.enableFollows {s t : Machine K} (h : Quiet s t) (hs : s.EnableFollows) : t.EnableFollows := by
  intro i hi
  rw [h.axisEnable i, h.enable]
  exact hs i ((h.active i).symm.trans hi)

theorem executeCommand_enableFollows {s t : Machine K} {j : Bool} (hs : s.EnableFollows)
    (hact : ∀ i, s.command.command = .axisEnable → s.hal.enable = true → axisIndex s.command.axis = some i →
      (s.axes i).flag.enable = s.status.motionFlag.enable)
    (h : executeCommand s j = some t) : t.EnableFollows := by
  cases hc : s.command.command.isRequest with
  | false => exact (executeCommand_quiet hc h).enableFollows hs
  | true =>
    unfold executeCommand at h
    cases hcmd : s.command.command <;> rw [hcmd] at h hc
    case axisEnable =>
      rcases axisEnable_eq h with ⟨-, rfl⟩ | ⟨hen, h⟩
      · exact hs
      · obtain ⟨i, hi, -, hst, hax⟩ := setAxisActive_eq h
        intro k hk
        rw [hax k] at hk ⊢
        rw [hst]
        by_cases hki : k = i
        · subst hki
          rw [if_pos rfl]
          exact hact k hcmd hen hi
        · rw [if_neg hki] at hk ⊢
          exact hs k hk
    case axisDisable =>
      obtain ⟨i, -, -, hst, hax⟩ := setAxisActive_eq h
      intro k hk
      rw [hax k] at hk ⊢
      rw [hst]
      by_cases hki : k = i
      · rw [if_pos hki] at hk
        cases hk
      · rw [if_neg hki] at hk ⊢
        exact hs k hk
    case motionEnable | motionDisable | setFree | setCoord =>
      cases h
      exact hs
    all_goals cases hc

theorem Step.enableFollows {s t : Machine K} {e : Event K} (hs : s.EnableFollows) (h : Step s e t)
    (he : ActivatesInStep s e t) : t.EnableFollows := by
  cases h with
  | frame hf => exact (processFrame_quiet hf).enableFollows hs
  | command c => exact hs
  | handle hh =>
    rcases emcmotCommandHandler_cases hh with ⟨hne, hh⟩ | ⟨-, rfl⟩
    · exact executeCommand_enableFollows (s := s.echo) hs (fun i hc => he i ⟨hc, hne⟩) hh
    · exact hs
  | cycle hc => exact (enableFollows_cycle hc).2 (.inr hs)

/-- The ENABLE bits follow motion enable in every run that makes axes active only in step; and a cycle that starts out
of step ends so, unless motion is enabled or disabled in it. -/
theorem enableFollows_iff (numAxes : Int) :
    (∀ s : Machine K, Lib.Reaches (Lib.Restrict Step ActivatesInStep) (initMachine numAxes) s → s.EnableFollows) ∧
    (∀ (s t : Machine K) (inp : Inputs) (fuel : Nat), Reachable numAxes s →
      emcmotController s inp motionThreadPeriod fuel = some t →
        (t.EnableFollows ↔ EnableEdge s inp ∨ s.EnableFollows)) := by
  constructor
  · intro s h
    refine h.invariant (fun _ _ _ hs hst => Step.enableFollows hs hst.1 hst.2) ?_
    intro i hi
    have hm : (initMachine numAxes : Machine K).modes.axisActive i = false := by rw [initMachine_modes]
    exact absurd (hm.symm.trans hi) (by simp)
  · intro s t inp fuel _ ht
    exact enableFollows_cycle ht

/-- An axis made active before motion is enabled is enabled at once. -/
theorem enable_not_follows : ∃ s t : Machine ℝ, Reachable 3 s ∧
    emcmotController s restInputs motionThreadPeriod 1 = some t ∧ ¬ t.EnableFollows := by
  have hs : ∃ s, runEvents 1 (initMachine 3 : Machine ℝ) [.frame (plainFrame 2 0), .handle false] = some s ∧
      s.internal.enabling = false ∧ s.status.motionFlag.enable = false ∧ (s.axes 0).Checked := by
    obtain ⟨_, _, _, _, _, _, _, h⟩ := initMachine_eq (K := ℝ) 3
    rw [h]
    exact ⟨_, rfl, rfl, rfl, rfl, rfl⟩
  obtain ⟨s, hrun, hen, hflag, hact, hbit⟩ := hs
  have hr : NetReachable 3 s := runEvents_netReaches (by simp [Event.fromNetwork]) hrun
  obtain ⟨t, ht, -, -⟩ := disabled_cycle hen restInputs
  refine ⟨s, t, hr.reachable, ht, ?_⟩
  rw [enableFollows_cycle ht]
  rintro ((⟨h, -⟩ | ⟨-, h, -⟩) | h)
  · rw [hflag] at h
    cases h
  · rw [hen] at h
    cases h
  · have := h 0 hact
    rw [hbit, hflag] at this
    cases this

end SoemMotion
