import SoemMotion.Startup

/-!
# From the jog frame to the jog

`ProcessTask` leaves the velocity of a jog in `axis->vel_cmd`, where the handler finds it, and the controller writes the
same field in every cycle.  The direction of a continuous jog is taken from the sign of the configured velocity, not
from the frame.  So a jog is what its frame asks for exactly if no cycle has changed the velocity that results, and the
sign agrees with the direction.
-/

namespace SoemMotion

variable {K : Type} [Arith K]

/-! ### Jogs -/

/-- The velocity a jog frame asks for. -/
def Request.jogVel : Request → Option Int
  | .jogCont _ vel _ _ => some vel
  | .jogIncr _ vel _ _ _ => some vel
  | .jogAbs _ vel _ _ => some vel
  | _ => none

/-- The checks of a jog pass. -/
structure JogAccepted (s : Machine K) (i : Fin 3) : Prop where
  enable : s.status.motionFlag.enable = true
  jogOk : jointJogOk s i s.command.maxvel = true
  target : s.command.command = .jogIncr → (s.axes i).minJogLimit ≤ jogIncrTarget (s.axes i) s.command ∧
    jogIncrTarget (s.axes i) s.command ≤ (s.axes i).maxJogLimit

/-- The jog started on the axis has the velocity and, if it is continuous, the direction of the request. -/
structure JogFaithful (r : Request) (vel maxvel : Int) (axis : Axis K) : Prop where
  vel : axis.freeTp.vel = min vel maxvel
  target : ∀ n v a dir, r = .jogCont n v a dir →
    axis.freeTp.posCmd = if dir ≠ 0 then axis.maxJogLimit else axis.minJogLimit

/-- A published command waits for the handler, which executes nothing meanwhile; with the mode of the last cycle, if
there was one. -/
inductive JogWait (s : Machine K) : Option MotionState → Machine K → Prop
  | refl : JogWait s none s
  | frame {c : Option MotionState} {t u : Machine K} {f : LinuxFrame} (h : JogWait s c t) (hr : f.request = none)
      (hf : processFrame t f = some u) : JogWait s c u
  | handle {c : Option MotionState} {t u : Machine K} {j : Bool} (h : JogWait s c t) (hold : ¬ t.Pending)
      (hh : emcmotCommandHandler t j = some u) : JogWait s c u
  | cycle {c : Option MotionState} {t u : Machine K} {inp : Inputs} {fuel : Nat} (h : JogWait s c t)
      (hc : emcmotController t inp motionThreadPeriod fuel = some u) : JogWait s (some u.status.motionState) u

/-! ### The check of a jog -/

omit [Arith K] in
/-- What `joint_jog_ok` asks for while no limit is overridden. -/
theorem jointJogOk_iff {s : Machine K} (hmask : s.NoOverride) (i : Fin 3) (vel : Int) :
    jointJogOk s i vel = true ↔ s.isConfigured i = true ∧
      (0 < vel → (s.axes i).flag.phl = false ∧ (s.axes i).posCmd ≤ (s.axes i).maxJogLimit) ∧
      (vel < 0 → (s.axes i).flag.nhl = false ∧ (s.axes i).minJogLimit ≤ (s.axes i).posCmd) := by
  have hneg : s.status.negLimitOverride i = false := by
    unfold Status.negLimitOverride
    rw [hmask, Nat.zero_testBit]
  unfold jointJogOk
  rw [hneg]
  cases hconf : s.isConfigured i with
  | false => simp
  | true =>
    rcases lt_trichotomy vel 0 with h | h | h
    · have hnot : ¬ 0 < vel := by omega
      cases hnhl : (s.axes i).flag.nhl <;> simp [h, hnot, hnhl]
    · simp [h]
    · have hnot : ¬ vel < 0 := by omega
      cases hphl : (s.axes i).flag.phl <;> simp [h, hnot, hphl]

/-! ### Waiting -/

omit [Arith K] in
theorem min_eq_jogVel (axis : Axis K) (cmd : Command K) : jogVel axis cmd = min axis.velCmd cmd.maxvel := by
  unfold jogVel
  split <;> omega

/-- An active axis takes its velocity command from its planner in free mode. -/
theorem freeCycle_velCmd {s t : Machine K} {inp : Inputs} {period : Int} {fuel : Nat}
    (h : emcmotController s inp period fuel = some t) (hstate : t.status.motionState = .free) (i : Fin 3)
    (hactive : (t.axes i).flag.active = true) : (t.axes i).velCmd = (t.axes i).freeTp.currVel := by
  obtain ⟨pos, hpos⟩ := emcmotController_free h hstate i
  rw [hpos] at hactive ⊢
  change (freeAxisCycle _ _ _).flag.active = true at hactive
  show (freeAxisCycle _ _ _).velCmd = (freeAxisCycle _ _ _).freeTp.currVel
  rw [freeAxisCycle_active] at hactive
  unfold freeAxisCycle
  rw [hactive]
  rfl

/-- While a command waits, the block stays, and only cycles touch the axes. -/
theorem JogWait.spec {s u : Machine K} {c : Option MotionState} (h : JogWait s c u) :
    u.command = s.command ∧ (c = none → u.axes = s.axes) ∧
      (c = some .free → ∀ i, (u.axes i).flag.active = true → (u.axes i).velCmd = (u.axes i).freeTp.currVel) := by
  induction h with
  | refl => exact ⟨rfl, fun _ => rfl, fun hc => by cases hc⟩
  | frame h hr hf ih =>
    rw [processFrame_eq, hr] at hf
    cases hf
    exact ih
  | handle h hold hh ih =>
    rcases emcmotCommandHandler_cases hh with ⟨hnew, -⟩ | ⟨-, rfl⟩
    · exact absurd hnew hold
    · exact ih
  | cycle h hc ih =>
    refine ⟨(emcmotController_cycleKeeps hc).command.trans ih.1, (fun hnone => by cases hnone), ?_⟩
    intro hfree i hactive
    exact freeCycle_velCmd hc (Option.some.inj hfree) i hactive

omit [Arith K] in
theorem updateAxis_axes (s : Machine K) (i : Fin 3) (f : Axis K → Axis K) : (s.updateAxis i f).axes i = f (s.axes i) :=
  if_pos rfl

/-- Publishing a jog configures its axis and leaves the velocity of the frame with it. -/
theorem publish_jog {r : Request} {vel : Int} {i : Fin 3} (hvel : r.jogVel = some vel) (hi : axisIndex r.axis = some i)
    (s : Machine K) : ∃ acc, publish (some r) s =
    some { s.updateAxis i fun axis => configureAxis axis s.command vel acc with
      command := r.command s.command } := by
  suffices h : ∃ acc, r.prepare s = some (s.updateAxis i fun axis => configureAxis axis s.command vel acc) by
    obtain ⟨acc, hacc⟩ := h
    exact ⟨acc, Option.map_eq_some_iff.2 ⟨_, hacc, rfl⟩⟩
  have hwrite : ∀ {n : Nat} {v acc : Int}, n = r.axis →
      publishAxis s n v acc = some (s.updateAxis i fun axis => configureAxis axis s.command v acc) := by
    intro n v acc hn
    unfold publishAxis Machine.writeAxis
    rw [hn, hi]
    rfl
  cases r with
  | jogCont n v acc dir =>
    cases hvel
    exact ⟨acc, hwrite rfl⟩
  | jogIncr n v acc pos dir =>
    cases hvel
    exact ⟨acc, hwrite rfl⟩
  | jogAbs n v acc pos =>
    cases hvel
    exact ⟨acc, hwrite rfl⟩
  | downloadsConfig => cases hvel
  | setLine => cases hvel
  | enable => cases hvel
  | plain => cases hvel

theorem publish_jogAxis {r : Request} {vel : Int} {s t : Machine K} {i : Fin 3} (hvel : r.jogVel = some vel)
    (hi : axisIndex r.axis = some i) (h : publish (some r) s = some t) :
    ∃ acc, t.axes i = configureAxis (s.axes i) s.command vel acc := by
  obtain ⟨acc, hpub⟩ := publish_jog hvel hi s
  rw [hpub] at h
  cases h
  exact ⟨acc, updateAxis_axes s i fun axis => configureAxis axis s.command vel acc⟩

/-! ### Starting -/

/-- The checked jog is done. -/
theorem jogChecked_accepted {s : Machine K} {i : Fin 3} (haxis : axisIndex s.command.axis = some i)
    (hacc : JogAccepted s i) (jog : Fin 3 → Machine K) : jogChecked s false jog = some (jog i) := by
  unfold jogChecked
  rw [hacc.enable, Bool.not_true, if_neg Bool.false_ne_true, if_neg Bool.false_ne_true, haxis, Option.map_some,
    hacc.jogOk, Bool.not_true, if_neg Bool.false_ne_true]

/-- The axis after an accepted jog. -/
def jogAxis (axis : Axis K) (cmd : Command K) : Axis K :=
  match cmd.command with
  | .jogCont => jogContAxis axis cmd
  | .jogIncr => jogIncrAxis axis cmd
  | _ => jogAbsAxis axis cmd

theorem jogAxis_spec (axis : Axis K) (cmd : Command K) : (jogAxis axis cmd).freeTp.vel = min axis.velCmd cmd.maxvel ∧
    (jogAxis axis cmd).maxJogLimit = axis.maxJogLimit ∧ (jogAxis axis cmd).minJogLimit = axis.minJogLimit := by
  rw [← min_eq_jogVel]
  unfold jogAxis
  split <;> exact ⟨rfl, rfl, rfl⟩

theorem executeJog_axis {s t : Machine K} {i : Fin 3} (haxis : axisIndex s.command.axis = some i)
    (hacc : JogAccepted s i) (h : executeCommand s false = some t)
    (hjog : s.command.command = .jogCont ∨ s.command.command = .jogIncr ∨ s.command.command = .jogAbs) :
    t.axes i = jogAxis (s.axes i) s.command := by
  unfold executeCommand at h
  unfold jogAxis
  rcases hjog with hcode | hcode | hcode
  · rw [hcode] at h ⊢
    dsimp only at h
    rw [jogChecked_accepted haxis hacc] at h
    cases h
    exact updateAxis_axes s i (jogContAxis · s.command)
  · rw [hcode] at h ⊢
    dsimp only at h
    rw [jogChecked_accepted haxis hacc] at h
    cases h
    obtain ⟨hmin, hmax⟩ := hacc.target hcode
    rw [jogIncr_accepted hmin hmax]
    exact updateAxis_axes s i (jogIncrAxis · s.command)
  · rw [hcode] at h ⊢
    dsimp only at h
    rw [jogChecked_accepted haxis hacc] at h
    cases h
    exact updateAxis_axes s i (jogAbsAxis · s.command)

theorem emcmotCommandHandler_pending {s : Machine K} (h : s.Pending) (jogInhibit : Bool) :
    emcmotCommandHandler s jogInhibit = executeCommand s.echo jogInhibit :=
  if_pos h

/-- An accepted jog is executed. -/
theorem executeJog_exists {s : Machine K} {i : Fin 3} (haxis : axisIndex s.command.axis = some i)
    (hacc : JogAccepted s i)
    (hjog : s.command.command = .jogCont ∨ s.command.command = .jogIncr ∨ s.command.command = .jogAbs) :
    ∃ t, executeCommand s false = some t := by
  have hchecked := jogChecked_accepted haxis hacc
  unfold executeCommand
  rcases hjog with hcode | hcode | hcode <;> rw [hcode]
  · exact ⟨_, hchecked (jogCont s)⟩
  · exact ⟨_, hchecked (jogIncr s)⟩
  · exact ⟨_, hchecked (jogAbs s)⟩

theorem JogAccepted.handler {s : Machine K} {i : Fin 3} (hacc : JogAccepted s i) (hnew : s.Pending)
    (haxis : axisIndex s.command.axis = some i)
    (hjog : s.command.command = .jogCont ∨ s.command.command = .jogIncr ∨ s.command.command = .jogAbs) :
    ∃ t, emcmotCommandHandler s false = some t := by
  rw [emcmotCommandHandler_pending hnew]
  exact executeJog_exists (s := s.echo) haxis ⟨hacc.enable, hacc.jogOk, hacc.target⟩ hjog

/-- What the handler starts. -/
theorem JogAccepted.started {s t : Machine K} {i : Fin 3} (hacc : JogAccepted s i) (hnew : s.Pending)
    (haxis : axisIndex s.command.axis = some i)
    (hjog : s.command.command = .jogCont ∨ s.command.command = .jogIncr ∨ s.command.command = .jogAbs)
    (h : emcmotCommandHandler s false = some t) : t.axes i = jogAxis (s.axes i) s.command := by
  rw [emcmotCommandHandler_pending hnew] at h
  exact executeJog_axis (s := s.echo) haxis ⟨hacc.enable, hacc.jogOk, hacc.target⟩ h hjog

/-- A continuous jog goes to the limit in the direction of the configured velocity. -/
theorem jogAxis_cont {axis : Axis K} {cmd : Command K} (h : cmd.command = .jogCont) :
    (jogAxis axis cmd).freeTp.posCmd = if 0 < cmd.maxvel then axis.maxJogLimit else axis.minJogLimit := by
  unfold jogAxis
  rw [h]
  rfl

theorem jogVel_command {r : Request} {vel : Int} (h : r.jogVel = some vel) (cmd : Command K) :
    (r.command cmd).maxvel = cmd.maxvel ∧ ((r.command cmd).command = .jogCont ∨ (r.command cmd).command = .jogIncr ∨
      (r.command cmd).command = .jogAbs) ∧
      ((r.command cmd).command = .jogCont ↔ ∃ n v a dir, r = .jogCont n v a dir) := by
  cases r with
  | jogCont n v a dir => exact ⟨rfl, .inl rfl, iff_of_true rfl ⟨n, v, a, dir, rfl⟩⟩
  | jogIncr n v a pos dir => exact ⟨rfl, .inr (.inl rfl), iff_of_false (by rintro ⟨⟩) (by rintro ⟨_, _, _, _, ⟨⟩⟩)⟩
  | jogAbs n v a pos => exact ⟨rfl, .inr (.inr rfl), iff_of_false (by rintro ⟨⟩) (by rintro ⟨_, _, _, _, ⟨⟩⟩)⟩
  | downloadsConfig => cases h
  | setLine => cases h
  | enable => cases h
  | plain => cases h

/-! ### A jog of a started machine -/

/-- A jog that is published leaves the machine ready for the next cycle. -/
theorem FreeReady.publish {s u : Machine ℝ} {r : Request} {vel : Int} (hs : FreeReady s) (hvel : r.jogVel = some vel)
    (hi : axisIndex r.axis = some 0) (h : publish (some r) s = some u) : FreeReady u := by
  obtain ⟨acc, hpub⟩ := publish_jog hvel hi s
  rw [hpub] at h
  cases h
  obtain ⟨hsettled, henable, hactive, hpos, hfeedback, hfault⟩ := hs
  refine ⟨⟨hsettled.enabling, hsettled.coordinating, hsettled.coord, hsettled.freeing⟩, henable, ?_, hpos, hfeedback,
    hfault⟩
  intro i
  rw [← hactive i]
  fin_cases i <;> rfl

/-- While its positive switch is open, axis 0 of a started machine accepts every jog that stays in its limits. -/
theorem FreeStart.jogAccepted {s u : Machine ℝ} {r : Request} {vel : Int} (hs : FreeStart s) (hmask : s.NoOverride)
    (hidle : ¬ s.Pending) (hnum : s.config.numAxes = 3) (hphl : (s.axes 0).flag.phl = false)
    (hvel : r.jogVel = some vel) (hi : axisIndex r.axis = some 0) (h : SoemMotion.publish (some r) s = some u)
    (htarget : u.command.command = .jogIncr → (u.axes 0).minJogLimit ≤ jogIncrTarget (u.axes 0) u.command ∧
      jogIncrTarget (u.axes 0) u.command ≤ (u.axes 0).maxJogLimit) : u.Pending ∧ JogAccepted u 0 := by
  obtain ⟨hnext, hstatus, -, -⟩ := publish_spec h
  have hmask' : u.NoOverride := by
    unfold Machine.NoOverride
    rw [hstatus]
    exact hmask
  obtain ⟨acc, hpub⟩ := publish_jog hvel hi s
  rw [hpub] at h
  have hmaxvel : (r.command s.command).maxvel = 10 := (jogVel_command hvel s.command).1.trans hs.command.1
  constructor
  · have hold : s.command.commandNum = s.status.commandNumEcho := not_not.1 hidle
    show u.command.commandNum ≠ u.status.commandNumEcho
    rw [hnext, hstatus, i32_real]
    omega
  · cases h
    refine ⟨hs.enable, ?_, htarget⟩
    rw [jointJogOk_iff hmask']
    change _ ∧ (0 < (r.command s.command).maxvel → _) ∧ ((r.command s.command).maxvel < 0 → _)
    rw [hmaxvel]
    refine ⟨?_, ?_, fun hneg => by omega⟩
    · exact decide_eq_true (show (0 : Int) < s.config.numAxes by rw [hnum]; norm_num)
    · intro _
      refine ⟨hphl, ?_⟩
      show (s.axes 0).posCmd ≤ s.command.maxLimit
      rw [hs.posCmd, hs.command.2.2.1]
      norm_num

/-- A started machine after the frame of a continuous jog of axis 0 at velocity 5: the jog is pending, and accepted. -/
theorem FreeStart.contPublished {s : Machine ℝ} (hs : FreeStart s) (hmask : s.NoOverride) (hidle : ¬ s.Pending)
    (hnum : s.config.numAxes = 3) (hphl : (s.axes 0).flag.phl = false) (up : Bool) :
    ∃ u f, LinuxFrame.request f = some (.jogCont 0 5 7 up.toInt) ∧ processFrame s f = some u ∧ u.Pending ∧
      JogAccepted u 0 ∧ u.config = s.config ∧ u.status = s.status ∧
      u.command = (Request.jogCont 0 5 7 up.toInt).command s.command ∧ FreeReady u ∧
      ∃ acc, u.axes 0 = configureAxis (s.axes 0) s.command 5 acc := by
  obtain ⟨acc, hpub⟩ := publish_jog (r := .jogCont 0 5 7 up.toInt) (i := 0) rfl rfl s
  have hr : (Request.jogCont 0 5 7 up.toInt).Encodable := by
    refine ⟨by show (0 : Nat) < 65536; norm_num, ?_, fun _ _ h => by cases h⟩
    cases up <;> decide
  obtain ⟨hnew, hacc⟩ := hs.jogAccepted hmask hidle hnum hphl rfl rfl hpub (fun h => by cases h)
  exact ⟨_, _, encode_request hr, (processFrame_encode hr s).trans hpub, hnew, hacc, rfl, rfl, rfl, hs.toFreeReady.publish rfl rfl hpub, acc,
    updateAxis_axes s 0 fun axis => configureAxis axis s.command 5 acc⟩

/-! ### Main result -/

/-- A jog is faithful to its frame exactly if the velocity command the handler finds gives the same velocity and the
sign of the configured velocity agrees with the direction.  The velocity command is that of the frame until the first
cycle, and that of the planner after a cycle in free mode. -/
theorem jogFidelity_iff {s₀ s u t : Machine K} {f : LinuxFrame} {r : Request} {vel : Int} {i : Fin 3}
    {c : Option MotionState} (hr : f.request = some r) (hvel : r.jogVel = some vel) (hi : axisIndex r.axis = some i)
    (hf : processFrame s₀ f = some s) (hwait : JogWait s c u) (hnew : u.Pending) (hacc : JogAccepted u i)
    (hh : emcmotCommandHandler u false = some t) :
    (JogFaithful r vel s₀.command.maxvel (t.axes i) ↔
      min (u.axes i).velCmd s₀.command.maxvel = min vel s₀.command.maxvel ∧
        ∀ n v a dir, r = .jogCont n v a dir → (0 < s₀.command.maxvel ↔ dir ≠ 0) ∨
          (u.axes i).maxJogLimit = (u.axes i).minJogLimit) ∧
    (c = none → (u.axes i).velCmd = vel) ∧
    (c = some .free → (u.axes i).flag.active = true → (u.axes i).velCmd = (u.axes i).freeTp.currVel) := by
  rw [processFrame_eq, hr] at hf
  obtain ⟨-, -, haxis, hcommand⟩ := publish_spec hf
  obtain ⟨hblock, hsame, hfree⟩ := hwait.spec
  obtain ⟨hmaxvel, hjog, hcont⟩ := jogVel_command hvel s₀.command
  rw [← hcommand, ← hblock] at hmaxvel hjog hcont
  have haxis' : axisIndex u.command.axis = some i := by
    rw [hblock, haxis]
    exact hi
  have hstarted := hacc.started hnew haxis' hjog hh
  obtain ⟨htvel, htmax, htmin⟩ := jogAxis_spec (u.axes i) u.command
  have htpos : u.command.command = .jogCont → _ := @jogAxis_cont _ _ (u.axes i) u.command
  rw [← hstarted] at htvel htmax htmin htpos
  rw [hmaxvel] at htvel htpos
  refine ⟨?_, ?_, fun hc => hfree hc i⟩
  -- both choices take the same limit when their signs agree, or when the limits are one
  · have hsign : ∀ dir : Int, ((if 0 < s₀.command.maxvel then (u.axes i).maxJogLimit else (u.axes i).minJogLimit) =
        if dir ≠ 0 then (u.axes i).maxJogLimit else (u.axes i).minJogLimit) ↔
          (0 < s₀.command.maxvel ↔ dir ≠ 0) ∨ (u.axes i).maxJogLimit = (u.axes i).minJogLimit := by
      intro dir
      by_cases hpos : 0 < s₀.command.maxvel <;> by_cases hdir : dir = 0 <;> simp [hpos, hdir, eq_comm]
    constructor
    · rintro ⟨hv, htarget⟩
      refine ⟨htvel.symm.trans hv, ?_⟩
      intro n v a dir hreq
      have hpos := htpos (hcont.2 ⟨n, v, a, dir, hreq⟩)
      rw [htarget n v a dir hreq, htmax, htmin] at hpos
      exact (hsign dir).1 hpos.symm
    · rintro ⟨hv, hdir⟩
      refine ⟨htvel.trans hv, ?_⟩
      intro n v a dir hreq
      rw [htpos (hcont.2 ⟨n, v, a, dir, hreq⟩), htmax, htmin]
      exact (hsign dir).2 (hdir n v a dir hreq)
  · intro hnone
    obtain ⟨acc, hconf⟩ := publish_jogAxis hvel hi hf
    rw [hsame hnone, hconf]
    rfl

/-- At once after the frame the velocity is as asked for, and so is an upward direction. -/
theorem jogFidelity_atOnce : ∃ s u t : Machine ℝ, ∃ f : LinuxFrame, NetReachable 3 s ∧
    f.request = some (.jogCont 0 5 7 1) ∧ processFrame s f = some u ∧ emcmotCommandHandler u false = some t ∧
    JogFaithful (.jogCont 0 5 7 1) 5 s.command.maxvel (t.axes 0) := by
  obtain ⟨s, hnet, hidle, hs, hnum, hphl, -⟩ := freeStart_exists 3 fun _ => false
  obtain ⟨u, f, hr, hf, hnew, hacc, -, -, hcommand, -⟩ :=
    hs.contPublished hnet.reachable.noOverride hidle hnum hphl true
  obtain ⟨t, hh⟩ := hacc.handler hnew (by rw [hcommand]; rfl) (by rw [hcommand]; exact .inl rfl)
  obtain ⟨hiff, hat, -⟩ := jogFidelity_iff hr rfl rfl hf .refl hnew hacc hh
  refine ⟨s, u, t, f, hnet, hr, hf, hh, hiff.2 ⟨by rw [hat rfl], ?_⟩⟩
  intro n v a dir hreq
  cases hreq
  rw [hs.command.1]
  exact .inl (by norm_num)

/-- A downward jog is carried out upwards; and a cycle between the frame and its execution leaves no velocity. -/
theorem jogFidelity_fails : ∃ s : Machine ℝ, NetReachable 3 s ∧
    (∃ u t : Machine ℝ, ∃ f : LinuxFrame, f.request = some (.jogCont 0 5 7 0) ∧ processFrame s f = some u ∧
      u.Pending ∧ JogAccepted u 0 ∧ emcmotCommandHandler u false = some t ∧
      (t.axes 0).freeTp.posCmd = (t.axes 0).maxJogLimit ∧ (t.axes 0).maxJogLimit ≠ (t.axes 0).minJogLimit) ∧
    ∃ u v t : Machine ℝ, ∃ f : LinuxFrame, ∃ inp : Inputs, f.request = some (.jogCont 0 5 7 1) ∧
      processFrame s f = some u ∧ emcmotController u inp motionThreadPeriod 1 = some v ∧ v.Pending ∧
      JogAccepted v 0 ∧ emcmotCommandHandler v false = some t ∧ (t.axes 0).freeTp.vel ≠ min 5 s.command.maxvel := by
  obtain ⟨s, hnet, hidle, hs, hnum, hphl, -⟩ := freeStart_exists 3 fun _ => false
  have hmask := hnet.reachable.noOverride
  refine ⟨s, hnet, ?_, ?_⟩
  -- a jog down, which the handler sends to the upper limit
  · obtain ⟨u, f, hr, hf, hnew, hacc, -, -, hcommand, -, acc, haxis⟩ := hs.contPublished hmask hidle hnum hphl false
    have hindex : axisIndex u.command.axis = some 0 := by rw [hcommand]; rfl
    have hcont : u.command.command = .jogCont := by rw [hcommand]; rfl
    obtain ⟨t, hh⟩ := hacc.handler hnew hindex (.inl hcont)
    have hstarted := hacc.started hnew hindex (.inl hcont) hh
    obtain ⟨-, hmax, hmin⟩ := jogAxis_spec (u.axes 0) u.command
    have hmaxvel : u.command.maxvel = 10 := by rw [hcommand]; exact hs.command.1
    refine ⟨u, t, f, hr, hf, hnew, hacc, hh, ?_, ?_⟩
    · rw [hstarted, jogAxis_cont hcont, hmax, hmaxvel]
      rfl
    · rw [hstarted, hmax, hmin, haxis]
      show s.command.maxLimit ≠ s.command.minLimit
      rw [hs.command.2.2.1, hs.command.2.2.2]
      norm_num
  -- a cycle between the frame and the handler, which overwrites the velocity of the frame
  · obtain ⟨u, f, hr, hf, hnew, hacc, hconfig, hstatus, hcommand, hready, acc, haxis⟩ :=
      hs.contPublished hmask hidle hnum hphl true
    have humask : u.NoOverride := by unfold Machine.NoOverride; rw [hstatus]; exact hmask
    obtain ⟨v, hv, hfree, hen, -⟩ := hready.cycle humask (fun _ => false) fun _ => false
    have hkeep := emcmotController_cycleKeeps hv
    have hcmdv : v.command = (Request.jogCont 0 5 7 1).command s.command := hkeep.command.trans hcommand
    have hrestu : (u.axes 0).freeTp.AtRest := by rw [haxis]; exact hs.rest
    have hposu : (u.axes 0).posCmd = 0 := by rw [haxis]; exact hs.posCmd
    obtain ⟨hpos, hrest, -⟩ := restCycle_axis hv hfree (hready.active 0) hrestu hposu
    have hvelCmd : (v.axes 0).velCmd = 0 := by
      rw [freeCycle_velCmd hv hfree 0 ((hkeep.axis 0).active.trans (hready.active 0))]
      exact hrest.currVel
    have hnew' : v.Pending := by
      unfold Machine.Pending
      rw [hkeep.command, hkeep.commandNumEcho]
      exact hnew
    have hindex : axisIndex v.command.axis = some 0 := by rw [hcmdv]; rfl
    have hcont : v.command.command = .jogCont := by rw [hcmdv]; rfl
    have hmaxvel : v.command.maxvel = 10 := by rw [hcmdv]; exact hs.command.1
    have hacc' : JogAccepted v 0 := by
      refine ⟨hen, ?_, fun h => by rw [hcont] at h; cases h⟩
      rw [jointJogOk_iff (emcmotController_noOverride humask hv), hmaxvel]
      refine ⟨?_, fun _ => ⟨(emcmotController_switches hv (hready.active 0)).1, ?_⟩, fun h => by omega⟩
      · exact decide_eq_true (by rw [hkeep.numAxes, hconfig, hnum]; norm_num)
      · rw [hpos, (hkeep.axis 0).maxJogLimit, haxis]
        show 0 ≤ s.command.maxLimit
        rw [hs.command.2.2.1]
        norm_num
    obtain ⟨t, hh⟩ := hacc'.handler hnew' hindex (.inl hcont)
    refine ⟨u, v, t, f, _, hr, hf, hv, hnew', hacc', hh, ?_⟩
    rw [hacc'.started hnew' hindex (.inl hcont) hh, (jogAxis_spec _ _).1, hvelCmd, hmaxvel, hs.command.1]
    norm_num

end SoemMotion
