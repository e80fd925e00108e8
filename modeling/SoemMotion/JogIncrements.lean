import SoemMotion.JogCompletion
import SoemMotion.JogDirection
import SoemMotion.SpeedLimits

/-!
# Incremental jogs

A sequence of incremental jogs of one axis in free mode, each started after the last one is over.  A jog of a count or
more ends short of its target, so a sequence whose positions are the sums of its offsets has none.
-/

namespace SoemMotion

open Lib

/-! ### The planner during a jog -/

/-- Whatever the acceleration limit, an update keeps `P`. -/
def PlannerKept (P : SimpleTp → Prop) : Prop := ∀ tp m, P tp → P (simpleTpUpdate ℝ { tp with maxAcc := m } 1)

/-- At rest at `p`, and with nowhere else to go. -/
structure SimpleTp.AtGoal (p : Int) (tp : SimpleTp) : Prop where
  settings : tp.acc = 0 ∨ 0 < tp.acc ∧ 0 ≤ tp.vel
  currVel : tp.currVel = 0
  currPos : tp.currPos = p
  posCmd : tp.posCmd = p

/-- On the way up from `p` to `g`, and not there. -/
structure SimpleTp.ShortBelow (p g : Int) (tp : SimpleTp) : Prop where
  climbs : tp.Climbs g tp.acc tp.vel
  acc : 1 ≤ tp.acc
  vel : 0 ≤ tp.vel
  start : p ≤ tp.currPos
  below : tp.currPos < g

theorem plannerKept_of_update {P : SimpleTp → Prop} (hacc : ∀ tp m, P tp → P { tp with maxAcc := m })
    (hupdate : ∀ tp, P tp → P (simpleTpUpdate ℝ tp 1)) : PlannerKept P :=
  fun tp m h => hupdate _ (hacc tp m h)

theorem SimpleTp.AtGoal.nextVel {p : Int} {tp : SimpleTp} (h : tp.AtGoal p) (hreq : (tp.request ℝ 1).2 = 0) :
    tp.nextVel = 0 := by
  unfold SimpleTp.nextVel
  rw [hreq, h.currVel]
  rcases h.settings with ha | ⟨ha, hv⟩
  · rw [ha]
    exact rampVel_zero _
  · obtain ⟨hnonneg, hle, -⟩ := limitVel_nonneg (le_refl (0 : ℝ)) hv
    obtain ⟨hw, -, hbound⟩ := rampVel_nonneg (le_refl (0 : Int)) ha.le hnonneg
    rcases hbound with hbrake | hslow
    · omega
    · have : rampVel 0 (limitVel (0 : ℝ) tp.vel) (tp.acc : ℝ) ≤ 0 := by exact_mod_cast hslow.trans hle
      omega

theorem atGoal_kept (p : Int) : PlannerKept (SimpleTp.AtGoal p) := by
  refine plannerKept_of_update (fun tp m h => ⟨h.settings, h.currVel, h.currPos, h.posCmd⟩) ?_
  intro tp h
  have hin : ((tp.posCmd - tp.currPos : Int) : ℝ) = 0 := by
    rw [h.posCmd, h.currPos, sub_self, Int.cast_zero]
  obtain ⟨hacc, hvel, -⟩ := request_fst tp
  have hsettings : (tp.request ℝ 1).1.acc = 0 ∨ 0 < (tp.request ℝ 1).1.acc ∧ 0 ≤ (tp.request ℝ 1).1.vel := by
    rw [hacc, hvel]
    exact h.settings
  have hreq : (tp.request ℝ 1).2 = 0 ∧ (tp.request ℝ 1).1.posCmd = p := by
    cases hen : tp.enable with
    | false =>
      rw [request_one, if_neg (by rw [hen]; simp)]
      exact ⟨rfl, h.currPos⟩
    | true =>
      have ha : (0 : ℝ) ≤ (tp.acc : ℝ) * 0.001 := by
        have : 0 ≤ tp.acc := by
          rcases h.settings with ha | ha <;> omega
        have : (0 : ℝ) ≤ (tp.acc : ℝ) := by exact_mod_cast this
        positivity
      rw [request_enabled hen, hin, if_neg (not_lt.2 ha), if_neg (not_lt.2 (neg_nonpos.2 ha))]
      exact ⟨rfl, h.posCmd⟩
  have hnext := h.nextVel hreq.1
  obtain ⟨active, heq⟩ := simpleTpUpdate_one tp
  rw [heq]
  refine ⟨hsettings, hnext, ?_, hreq.2⟩
  show tp.currPos + tp.nextVel = p
  rw [hnext, add_zero]
  exact h.currPos

theorem SimpleTp.ShortBelow.update {p g : Int} {tp : SimpleTp} (h : tp.ShortBelow p g) :
    (simpleTpUpdate ℝ tp 1).ShortBelow p g := by
  obtain ⟨hclimbs, hpos, -⟩ := h.climbs.update h.acc h.vel
  have hbelow := h.climbs.below h.acc h.vel h.below
  obtain ⟨hacc, hvel⟩ := simpleTpUpdate_settings tp
  refine ⟨?_, hacc.symm ▸ h.acc, hvel.symm ▸ h.vel, h.start.trans hpos, hbelow⟩
  rw [hacc, hvel]
  exact hclimbs

theorem shortBelow_kept (p g : Int) : PlannerKept (SimpleTp.ShortBelow p g) := by
  refine plannerKept_of_update ?_ fun tp h => h.update
  intro tp m h
  have hc := h.climbs
  exact ⟨⟨hc.acc, hc.vel, hc.nonneg, hc.le_vel, hc.stop, hc.target, hc.rest⟩, h.acc, h.vel, h.start, h.below⟩

/-- On the way down the planner is the mirror image of one on its way up. -/
theorem shortAbove_kept (p g : Int) : PlannerKept fun tp => tp.mirror.ShortBelow p g := by
  refine plannerKept_of_update ?_ ?_
  · intro tp m h
    have hc := h.climbs
    exact ⟨⟨hc.acc, hc.vel, hc.nonneg, hc.le_vel, hc.stop, hc.target, hc.rest⟩, h.acc, h.vel, h.start, h.below⟩
  · intro tp h
    have ha : 1 ≤ tp.acc := h.acc
    have hv : 0 ≤ tp.vel := h.vel
    have hnext := h.update
    rw [simpleTpUpdate_mirror (by omega) hv] at hnext
    exact hnext

/-! ### Steps -/

/-- By how much an incremental jog goes up. -/
noncomputable def signedOffset (cmd : Command ℝ) : ℝ := if cmd.dir ≠ 0 then cmd.offset else -cmd.offset

theorem jogIncrTarget_signed (axis : Axis ℝ) (cmd : Command ℝ) :
    jogIncrTarget axis cmd = truncReal (axis.freeTp.posCmd + signedOffset cmd) := by
  rw [jogIncrTarget_eq]
  unfold jogIncrGoal signedOffset
  split
  · rfl
  · rw [sub_eq_add_neg]

/-- Frames of incremental jogs, calls of the handler, and cycles. -/
def Event.isIncr : Event ℝ → Prop
  | .frame f => CmdCode.ofIndex (f.u16 0) = .jogIncr
  | .command _ => False
  | .handle _ => True
  | .cycle _ => True

/-- A step in free mode that starts no jog of axis `i`. -/
structure IncrWait (i : Fin 3) (s : Machine ℝ) (e : Event ℝ) (t : Machine ℝ) : Prop where
  incr : e.isIncr
  free : t.status.motionState = .free
  waits : ∀ j, e = .handle j → s.Pending → ∀ vel acc, ¬ StartsJog s j i vel acc

/-- The jog of the axis is over. -/
def Machine.JogOver (i : Fin 3) (s : Machine ℝ) : Prop :=
  (s.axes i).freeTp.enable = false ∧ (s.axes i).freeTp.active = false

/-- A call of the handler that starts an incremental jog of axis `i` by `off`, the last one being over. -/
structure IncrStarts (i : Fin 3) (off : ℝ) (s t : Machine ℝ) : Prop where
  handle : ∃ j vel acc, emcmotCommandHandler s j = some t ∧ s.Pending ∧ s.command.command = .jogIncr ∧
    StartsJog s j i vel acc
  offset : signedOffset s.command = off
  vel : 1 ≤ jogVel (s.axes i) s.command
  acc : 1 ≤ (s.axes i).accCmd
  ended : s.JogOver i

/-- One jog, from when the last one was over to when it is. -/
def IncrJog (i : Fin 3) (off : ℝ) (s t : Machine ℝ) : Prop :=
  ∃ u v, Reaches (Restrict Step (IncrWait i)) s u ∧ IncrStarts i off u v ∧
    Reaches (Restrict Step (IncrWait i)) v t ∧ t.JogOver i

/-- What the steps of the sequence keep, besides `P` of the planner. -/
structure IncrState (i : Fin 3) (P : SimpleTp → Prop) (s : Machine ℝ) : Prop where
  settled : s.Settled
  pending : s.Pending → s.command.command = .jogIncr
  active : (s.axes i).flag.active = true
  planner : P (s.axes i).freeTp

/-- Executing an incremental jog starts it, or leaves the planner alone. -/
theorem executeIncr_freeTp {s t : Machine ℝ} {j : Bool} (i : Fin 3) (hcode : s.command.command = .jogIncr)
    (h : executeCommand s j = some t) :
    (t.axes i).freeTp = (s.axes i).freeTp ∨
      StartsJog s j i (jogVel (s.axes i) s.command) (s.axes i).accCmd ∧
        (t.axes i).freeTp = (jogIncrAxis (s.axes i) s.command).freeTp := by
  have herror : ∀ k, ((s.updateAxis k (Axis.setError · true)).axes i).freeTp = (s.axes i).freeTp := by
    intro k
    rw [updateAxis_freeTp]
    split <;> rfl
  unfold executeCommand at h
  rw [hcode] at h
  change jogChecked s j (jogIncr s) = some t at h
  unfold jogChecked at h
  split at h
  · obtain ⟨k, -, rfl⟩ := Option.map_eq_some_iff.1 h
    exact .inl (herror k)
  · rename_i hen
    split at h
    · cases h
      exact .inl rfl
    · rename_i hinh
      obtain ⟨k, hk, rfl⟩ := Option.map_eq_some_iff.1 h
      split
      · exact .inl (herror k)
      · rename_i hok
        rcases jogIncr_cases s k with hjog | ⟨hmin, hmax, hjog⟩
        · rw [hjog]
          exact .inl rfl
        · rw [hjog]
          show ((s.updateAxis k (jogIncrAxis · s.command)).axes i).freeTp = _ ∨ _ ∧
            ((s.updateAxis k (jogIncrAxis · s.command)).axes i).freeTp = _
          rw [updateAxis_freeTp]
          split
          · rename_i hik
            subst hik
            exact .inr ⟨.incr hcode ⟨by simpa using hen, by simpa using hinh, hk, by simpa using hok⟩ hmin hmax, rfl⟩
          · exact .inl rfl

/-- A step without a start of the jog. -/
theorem IncrState.step {i : Fin 3} {P : SimpleTp → Prop} (hP : PlannerKept P) {s t : Machine ℝ} {e : Event ℝ}
    (hs : IncrState i P s) (h : Step s e t) (he : IncrWait i s e t) : IncrState i P t := by
  cases h with
  | @frame _ f hf =>
    have hcode : CmdCode.ofIndex (f.u16 0) = .jogIncr := he.incr
    obtain ⟨-, -, -, htp⟩ := jogFrame_effect (by rw [hcode]; rfl) hf
    have hq := processFrame_quiet hf
    refine ⟨hq.settled hs.settled, ?_, (hq.active i).trans hs.active, by rw [htp]; exact hs.planner⟩
    unfold processFrame at hf
    split at hf
    · cases hf
      exact hs.pending
    · unfold decodeFrame at hf
      rw [hcode] at hf
      exact fun _ => (publishJog_effect hf).2.2.1
  | command c => exact he.incr.elim
  | @handle _ j hh =>
    rcases emcmotCommandHandler_cases hh with ⟨hne, hx⟩ | ⟨-, rfl⟩
    · have hcode : s.echo.command.command = .jogIncr := hs.pending hne
      obtain ⟨hcmd, hstatus, -⟩ := executeJog_effect i (by rw [hcode]; rfl) hx
      have hq := executeCommand_quiet (by rw [hcode]; rfl) hx
      refine ⟨hq.settled { hs.settled with }, ?_, (hq.active i).trans hs.active, ?_⟩
      · intro hnew
        rw [Machine.Pending, hcmd, hstatus] at hnew
        exact absurd rfl hnew
      · rcases executeIncr_freeTp i hcode hx with hsame | ⟨hstart, -⟩
        · rw [hsame]
          exact hs.planner
        · exact absurd hstart.of_echo (he.waits j rfl hne _ _)
    · exact hs
  | @cycle _ inp fuel hc =>
    have hkeep := emcmotController_cycleKeeps hc
    refine ⟨emcmotController_keepsSettled hs.settled hc, ?_, (hkeep.axis i).active.trans hs.active, ?_⟩
    · rw [Machine.Pending, hkeep.command, hkeep.commandNumEcho]
      exact hs.pending
    -- a cycle in free mode, which does no more than update the planner
    · rcases emcmotController_settled hs.settled i hs.active hc with ⟨hst, -⟩ | ⟨-, maxAcc, hup, -⟩
      · have hfree := he.free
        rw [hst] at hfree
        cases hfree
      · rw [hup]
        exact hP _ _ hs.planner

theorem IncrState.run {i : Fin 3} {P : SimpleTp → Prop} (hP : PlannerKept P) {s t : Machine ℝ} (hs : IncrState i P s)
    (h : Reaches (Restrict Step (IncrWait i)) s t) : IncrState i P t :=
  h.invariant (fun _ _ _ hs hst => hs.step hP hst.1 hst.2) hs

/-! ### One jog -/

/-- The planner when the jog is started. -/
structure SimpleTp.Started (p : Int) (off : ℝ) (tp : SimpleTp) : Prop where
  acc : 1 ≤ tp.acc
  vel : 1 ≤ tp.vel
  currVel : tp.currVel = 0
  currPos : tp.currPos = p
  posCmd : tp.posCmd = truncReal (p + off)

theorem IncrStarts.started {i : Fin 3} {p : Int} {off : ℝ} {s t : Machine ℝ} (h : IncrStarts i off s t)
    (hs : IncrState i (SimpleTp.AtGoal p) s) : IncrState i (SimpleTp.Started p off) t := by
  obtain ⟨j, vel, acc, hh, hnew, hcode, hstart⟩ := h.handle
  rw [emcmotCommandHandler_pending hnew] at hh
  have hcode' : s.echo.command.command = .jogIncr := hcode
  obtain ⟨hcmd, hstatus, -⟩ := executeJog_effect i (by rw [hcode']; rfl) hh
  have hq := executeCommand_quiet (by rw [hcode']; rfl) hh
  have hfree : (t.axes i).freeTp = (jogIncrAxis (s.axes i) s.command).freeTp := by
    cases hstart with
    | incr _ hcheck hmin hmax =>
      have hacc : JogAccepted s.echo i := ⟨hcheck.1, hcheck.2.2.2, fun _ => ⟨hmin, hmax⟩⟩
      rw [hcheck.2.1] at hh
      rw [executeJog_axis (s := s.echo) hcheck.2.2.1 hacc hh (.inr (.inl hcode'))]
      unfold jogAxis
      rw [hcode']
      rfl
    | cont hc _ =>
      rw [hc] at hcode
      cases hcode
    | abs hc _ =>
      rw [hc] at hcode
      cases hcode
  refine ⟨hq.settled { hs.settled with }, ?_, (hq.active i).trans hs.active, ?_⟩
  · intro hpend
    rw [Machine.Pending, hcmd, hstatus] at hpend
    exact absurd rfl hpend
  · rw [hfree]
    refine ⟨h.acc, h.vel, hs.planner.currVel, hs.planner.currPos, ?_⟩
    show jogIncrTarget (s.axes i) s.command = _
    rw [jogIncrTarget_signed, h.offset, hs.planner.posCmd]

theorem SimpleTp.Started.atGoal {p : Int} {off : ℝ} {tp : SimpleTp} (h : tp.Started p off)
    (hp : truncReal (p + off) = p) : tp.AtGoal p := by
  have ha := h.acc
  have hv := h.vel
  exact ⟨.inr ⟨by omega, by omega⟩, h.currVel, h.currPos, h.posCmd.trans hp⟩

theorem shortBelow_of_rest {p : Int} {tp : SimpleTp} (ha : 1 ≤ tp.acc) (hv : 1 ≤ tp.vel) (hrest : tp.currVel = 0)
    (hpos : tp.currPos = p) (hup : p < tp.posCmd) : tp.ShortBelow p tp.posCmd :=
  ⟨climbs_of_rest ha (by omega) hrest (by omega), ha, by omega, hpos.ge, by omega⟩

/-- A jog by nothing leaves the axis at rest. -/
theorem IncrJog.zero {i : Fin 3} {p : Int} {s t : Machine ℝ} (h : IncrJog i 0 s t)
    (hs : IncrState i (SimpleTp.AtGoal p) s) : IncrState i (SimpleTp.AtGoal p) t := by
  obtain ⟨u, v, hwait, hstart, hrun, -⟩ := h
  have hv := hstart.started (hs.run (atGoal_kept p) hwait)
  have hgoal := hv.planner.atGoal (by rw [add_zero, truncReal_intCast])
  exact IncrState.run (atGoal_kept p) ⟨hv.settled, hv.pending, hv.active, hgoal⟩ hrun

/-- A jog by something does not end where it should. -/
theorem IncrJog.nonzero {i : Fin 3} {p : Int} {off : ℝ} {s t : Machine ℝ} (h : IncrJog i off s t) (hoff : off ≠ 0)
    (hs : IncrState i (SimpleTp.AtGoal p) s) : ((t.axes i).freeTp.currPos : ℝ) ≠ p + off := by
  obtain ⟨u, v, hwait, hstart, hrun, -⟩ := h
  have hv := hstart.started (hs.run (atGoal_kept p) hwait)
  have hstarted := hv.planner
  have hfrom : ∀ {P : SimpleTp → Prop}, PlannerKept P → P (v.axes i).freeTp → P (t.axes i).freeTp := fun hP hp =>
    (IncrState.run hP ⟨hv.settled, hv.pending, hv.active, hp⟩ hrun).planner
  have hlow := ((truncReal_le_iff ((p : ℝ) + off) _).1 le_rfl).1
  have hhigh := ((le_truncReal_iff ((p : ℝ) + off) _).1 le_rfl).1
  rw [← hstarted.posCmd] at hlow hhigh
  rcases lt_trichotomy p (v.axes i).freeTp.posCmd with hup | heq | hdown
  · have hshort := shortBelow_of_rest hstarted.acc hstarted.vel hstarted.currVel hstarted.currPos hup
    have hend := (hfrom (shortBelow_kept p _) hshort).below
    have hlast : ((t.axes i).freeTp.currPos : ℝ) + 1 ≤ (v.axes i).freeTp.posCmd := by exact_mod_cast hend
    intro hat
    linarith
  · have hend := (hfrom (atGoal_kept p) (hstarted.atGoal (hstarted.posCmd.symm.trans heq.symm))).currPos
    intro hat
    rw [hend] at hat
    exact hoff (by linarith)
  · have hrest : (v.axes i).freeTp.mirror.currVel = 0 := neg_eq_zero.2 hstarted.currVel
    have hpos : (v.axes i).freeTp.mirror.currPos = -p := congrArg (- ·) hstarted.currPos
    have hacc : 1 ≤ (v.axes i).freeTp.mirror.acc := hstarted.acc
    have hshort : (v.axes i).freeTp.mirror.ShortBelow (-p) (-(v.axes i).freeTp.posCmd) :=
      shortBelow_of_rest hacc hstarted.vel hrest hpos (neg_lt_neg hdown)
    have hend := (hfrom (shortAbove_kept (-p) _) hshort).below
    have hend' : (v.axes i).freeTp.posCmd < (t.axes i).freeTp.currPos := neg_lt_neg_iff.1 hend
    have hlast : ((v.axes i).freeTp.posCmd : ℝ) + 1 ≤ (t.axes i).freeTp.currPos := by exact_mod_cast hend'
    intro hat
    linarith

/-! ### Before a sequence -/

/-- A machine in free mode with axis `i` at rest, its last jog over. -/
structure IncrReady (i : Fin 3) (s : Machine ℝ) : Prop where
  settled : s.Settled
  free : s.status.motionState = .free
  pending : s.Pending → s.command.command = .jogIncr
  active : (s.axes i).flag.active = true
  ended : s.JogOver i
  rest : (s.axes i).freeTp.AtGoal (s.axes i).freeTp.currPos

theorem IncrReady.state {i : Fin 3} {s : Machine ℝ} (h : IncrReady i s) :
    IncrState i (SimpleTp.AtGoal (s.axes i).freeTp.currPos) s :=
  ⟨h.settled, h.pending, h.active, h.rest⟩

/-! ### A jog of one count -/

theorem FreeStart.incrReady {s : Machine ℝ} (hs : FreeStart s) (hidle : ¬ s.Pending)
    (hfree : s.status.motionState = .free) (hoff : (s.axes 0).freeTp.active = false) : IncrReady 0 s := by
  have hrest := hs.rest
  refine ⟨hs.settled, hfree, fun h => absurd h hidle, hs.active 0, ⟨hrest.enable, hoff⟩, .inl hrest.acc, hrest.currVel,
    rfl, ?_⟩
  rw [hrest.posCmd, hrest.currPos]

/-- A jog of one count with an acceleration of 1000 is inside its dead band from the start. -/
theorem countJog_over {tp : SimpleTp} (hacc : tp.acc = 1000) (hvel : tp.vel = 5) (hrest : tp.currVel = 0)
    (hpos : tp.currPos = 0) (hcmd : tp.posCmd = 1) (hen : tp.enable = true) :
    (simpleTpUpdate ℝ tp 1).Arrived 1 ∧ (simpleTpUpdate ℝ tp 1).currPos = 0 := by
  have hclimbs := climbs_of_rest (by rw [hacc]; decide) (by rw [hvel]; decide) hrest (by rw [hpos, hcmd]; decide)
  rw [hacc, hvel, hcmd] at hclimbs
  have harrived := hclimbs.inside (by decide) (by decide) hen (by rw [hpos]; norm_num)
  have hbelow := hclimbs.below (by decide) (by decide) (by rw [hpos]; decide)
  obtain ⟨-, hup, -⟩ := hclimbs.update (by decide) (by decide)
  exact ⟨harrived, by omega⟩

/-- The request of a jog of axis 0 by one count, with an acceleration of 1000. -/
theorem countRequest_encodable : (Request.jogIncr 0 5 1000 1 1).Encodable :=
  ⟨by show (0 : Nat) < 65536; norm_num, by decide, fun _ _ h => by cases h⟩

/-- A started machine after the request: the jog is pending, and accepted. -/
theorem FreeStart.countPublished {s : Machine ℝ} (hs : FreeStart s) (hmask : s.NoOverride) (hidle : ¬ s.Pending)
    (hnum : s.config.numAxes = 3) (hphl : (s.axes 0).flag.phl = false) :
    ∃ u, publish (some (.jogIncr 0 5 1000 1 1)) s = some u ∧ u.Pending ∧ JogAccepted u 0 ∧ u.status = s.status ∧
      u.command = (Request.jogIncr 0 5 1000 1 1).command s.command ∧
      u.axes 0 = configureAxis (s.axes 0) s.command 5 1000 ∧ jogIncrTarget (u.axes 0) u.command = 1 := by
  obtain ⟨u, hpub, haxis⟩ : ∃ u, publish (some (.jogIncr 0 5 1000 1 1)) s = some u ∧
      u.axes 0 = configureAxis (s.axes 0) s.command 5 1000 :=
    ⟨_, rfl, updateAxis_axes s 0 fun axis => configureAxis axis s.command 5 1000⟩
  obtain ⟨-, hstatus, -, hcommand⟩ := publish_spec hpub
  have htarget : jogIncrTarget (u.axes 0) u.command = 1 := by
    rw [jogIncrTarget_signed, haxis, hcommand]
    show truncReal (((s.axes 0).freeTp.posCmd : ℝ) + if (1 : Int) ≠ 0 then ((1 : Int) : ℝ) else -((1 : Int) : ℝ)) = 1
    rw [hs.rest.posCmd, Int.cast_zero, zero_add, if_pos (by decide), truncReal_intCast]
  obtain ⟨hnew, hacc⟩ := hs.jogAccepted hmask hidle hnum hphl rfl rfl hpub fun _ => by
    rw [htarget, haxis]
    show s.command.minLimit ≤ 1 ∧ 1 ≤ s.command.maxLimit
    rw [hs.command.2.2.1, hs.command.2.2.2]
    decide
  exact ⟨u, hpub, hnew, hacc, hstatus, hcommand, haxis, htarget⟩

/-- An accepted incremental jog of axis 0 that the handler has started. -/
theorem JogAccepted.startsIncr {u : Machine ℝ} (hacc : JogAccepted u 0) (hready : FreeReady u) (hnew : u.Pending)
    (hcode : u.command.command = .jogIncr) (hidx : axisIndex u.command.axis = some 0) :
    ∃ v, emcmotCommandHandler u false = some v ∧ FreeReady v ∧ v.status = u.echo.status ∧
      v.axes 0 = jogIncrAxis (u.axes 0) u.command ∧
      StartsJog u false 0 (jogVel (u.axes 0) u.command) (u.axes 0).accCmd := by
  obtain ⟨hmin, hmax⟩ := hacc.target hcode
  have hh : emcmotCommandHandler u false = some (jogIncr u.echo 0) := by
    rw [emcmotCommandHandler_pending hnew]
    unfold executeCommand
    rw [show u.echo.command.command = .jogIncr from hcode]
    exact jogChecked_accepted (s := u.echo) hidx ⟨hacc.enable, hacc.jogOk, hacc.target⟩ _
  have hjog := jogIncr_accepted (s := u.echo) (i := 0) hmin hmax
  refine ⟨_, hh, ?_, ?_, ?_, .incr hcode ⟨hacc.enable, rfl, hidx, hacc.jogOk⟩ hmin hmax⟩
  · rw [hjog]
    exact hready.startJog _ fun _ => ⟨rfl, rfl, rfl, rfl⟩
  · rw [hjog]
    rfl
  · rw [hacc.started hnew hidx (.inr (.inl hcode)) hh]
    unfold jogAxis
    rw [hcode]

/-- A jog by one count with an acceleration of 1000 is over at once, where it started. -/
theorem FreeStart.incrJog {s : Machine ℝ} (hs : FreeStart s) (hmask : s.NoOverride) (hidle : ¬ s.Pending)
    (hnum : s.config.numAxes = 3) (hphl : (s.axes 0).flag.phl = false) (hfree : s.status.motionState = .free)
    (hoff : (s.axes 0).freeTp.active = false) : ∃ t, IncrJog 0 1 s t ∧ (t.axes 0).freeTp.currPos = 0 := by
  have hrest := hs.rest
  obtain ⟨u, hpub, hnew, hacc, hstatus, hcommand, haxis, htarget⟩ := hs.countPublished hmask hidle hnum hphl
  have hframe := (processFrame_encode countRequest_encodable s).trans hpub
  have hcode : u.command.command = .jogIncr := by
    rw [hcommand]
    rfl
  have hidx : axisIndex u.command.axis = some 0 := by
    rw [hcommand]
    rfl
  obtain ⟨v, hh, hready, hmotion, hplanner, hstarts⟩ :=
    hacc.startsIncr (hs.toFreeReady.publish rfl rfl hpub) hnew hcode hidx
  have hvel : jogVel (u.axes 0) u.command = 5 := by
    rw [haxis, hcommand]
    show (if (5 : Int) < s.command.maxvel then (5 : Int) else s.command.maxvel) = 5
    rw [hs.command.1, if_pos (by decide)]
  have hmask' : v.NoOverride := by
    rw [Machine.NoOverride, hmotion]
    show u.status.overrideLimitMask = 0
    rw [hstatus]
    exact hmask
  obtain ⟨w, hw, hwfree, -, -, maxAcc, htp⟩ := hready.cycle hmask' (fun _ => false) fun _ => false
  have hover : (w.axes 0).freeTp.Arrived 1 ∧ (w.axes 0).freeTp.currPos = 0 := by
    have hjog : (v.axes 0).freeTp = { (s.axes 0).freeTp with
        posCmd := 1, vel := 5, maxVel := 10, acc := 1000, maxAcc := 100, dir := 1, enable := true } := by
      rw [hplanner]
      unfold jogIncrAxis
      rw [htarget, hvel, haxis, hcommand]
      show Axis.freeTp (Axis.startJog _ 1 5 s.command.maxvel 1000 1) = _
      rw [hs.command.1]
      show ({ (s.axes 0).freeTp with posCmd := 1, vel := 5, maxVel := 10, acc := 1000, maxAcc := s.command.maxacc, dir := 1,
                                     enable := true } : SimpleTp) = _
      rw [hs.command.2.1]
    rw [htp, hjog]
    exact countJog_over rfl rfl hrest.currVel hrest.currPos rfl rfl
  -- the frame, its handler and one cycle
  refine ⟨w, ⟨u, v, (Lib.Reaches.refl s).tail (e := .frame _) ⟨.frame hframe, ?_, ?_, ?_⟩,
    ⟨⟨false, _, _, hh, hnew, hcode, hstarts⟩, ?_, ?_, ?_, ?_⟩,
    (Lib.Reaches.refl v).tail (e := .cycle restInputs) ⟨.cycle hw, trivial, hwfree, fun _ h => by cases h⟩,
    hover.1.enable, hover.1.active⟩, hover.2⟩
  · rfl
  · rw [hstatus]
    exact hfree
  · exact fun _ h => by cases h
  · rw [hcommand]
    show (if (1 : Int) ≠ 0 then ((1 : Int) : ℝ) else -((1 : Int) : ℝ)) = 1
    rw [if_pos (by decide), Int.cast_one]
  · rw [hvel]
    decide
  · rw [haxis]
    exact (by decide : (1 : Int) ≤ 1000)
  · rw [Machine.JogOver, haxis]
    exact ⟨hrest.enable, hoff⟩

/-! ### Sequences of jogs -/

/-- In a sequence of incremental jogs the axis is at the sum of the offsets after each of them exactly if they are all
by nothing. -/
theorem incrementalJogs_iff {i : Fin 3} {u : ℕ → Machine ℝ} {off : ℕ → ℝ} {n : ℕ} (hs : IncrReady i (u 0))
    (hrun : ∀ k < n, IncrJog i (off k) (u k) (u (k + 1))) :
    (∀ k ≤ n, (((u k).axes i).freeTp.currPos : ℝ) =
      ((u 0).axes i).freeTp.currPos + ∑ j ∈ Finset.range k, off j) ↔ ∀ k < n, off k = 0 := by
  have hrest : ∀ k ≤ n, (∀ j < k, off j = 0) → IncrState i (SimpleTp.AtGoal ((u 0).axes i).freeTp.currPos) (u k) := by
    intro k
    induction k with
    | zero => exact fun _ _ => hs.state
    | succ k ih =>
      intro hk hzero
      have hjog := hrun k hk
      rw [hzero k (Nat.lt_succ_self k)] at hjog
      exact hjog.zero (ih (Nat.le_of_succ_le hk) fun j hj => hzero j (Nat.lt_succ_of_lt hj))
  have hsum : ∀ k, (∀ j < k, off j = 0) → ∑ j ∈ Finset.range k, off j = 0 := fun k hzero =>
    Finset.sum_eq_zero fun j hj => hzero j (Finset.mem_range.1 hj)
  constructor
  · intro hpos k
    induction k using Nat.strong_induction_on with
    | h k ih =>
      intro hk
      by_contra hoff
      have hbefore : ∀ j < k, off j = 0 := fun j hj => ih j hj (hj.trans hk)
      have hat := hpos (k + 1) hk
      rw [Finset.sum_range_succ, hsum k hbefore, zero_add] at hat
      exact (hrun k hk).nonzero hoff (hrest k hk.le hbefore) hat
  · intro hzero k hk
    have hbefore : ∀ j < k, off j = 0 := fun j hj => hzero j (lt_of_lt_of_le hj hk)
    rw [(hrest k hk hbefore).planner.currPos, hsum k hbefore, add_zero]

theorem incrementalJogs_count : ∃ s t : Machine ℝ, NetReachable 3 s ∧ IncrReady 0 s ∧ IncrJog 0 1 s t ∧
    ¬ ∀ k ≤ 1, (((if k = 0 then s else t).axes 0).freeTp.currPos : ℝ) =
      (s.axes 0).freeTp.currPos + ∑ _j ∈ Finset.range k, (1 : ℝ) := by
  obtain ⟨s, hs, hidle, hstart, hnum, hphl, -, hfree, hoff⟩ := freeStart_exists 3 fun _ => false
  obtain ⟨t, hjog, -⟩ := hstart.incrJog hs.reachable.noOverride hidle hnum hphl hfree hoff
  have hready := hstart.incrReady hidle hfree hoff
  refine ⟨s, t, hs, hready, hjog, fun hpos => ?_⟩
  have hrun : ∀ k < 1, IncrJog 0 1 (if k = 0 then s else t) (if k + 1 = 0 then s else t) := by
    intro k hk
    obtain rfl : k = 0 := by omega
    exact hjog
  have hzero := (@incrementalJogs_iff 0 (fun k => if k = 0 then s else t) (fun _ => 1) 1 hready hrun).1 hpos 0 one_pos
  exact one_ne_zero hzero

theorem incrementalJogs_short : ∃ s t : Machine ℝ, NetReachable 3 s ∧ IncrReady 0 s ∧ IncrJog 0 1 s t ∧
    (t.axes 0).freeTp.currPos = 0 ∧ ((t.axes 0).freeTp.currPos : ℝ) ≠ (s.axes 0).freeTp.currPos + 1 := by
  obtain ⟨s, hs, hidle, hstart, hnum, hphl, -, hfree, hoff⟩ := freeStart_exists 3 fun _ => false
  obtain ⟨t, hjog, hpos⟩ := hstart.incrJog hs.reachable.noOverride hidle hnum hphl hfree hoff
  refine ⟨s, t, hs, hstart.incrReady hidle hfree hoff, hjog, hpos, ?_⟩
  rw [hpos, hstart.rest.currPos, Int.cast_zero, zero_add]
  exact zero_ne_one

end SoemMotion
