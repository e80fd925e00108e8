import SoemMotion.LimitCoverage

/-!
# The configured velocity and acceleration

A jog bounds the velocity and the acceleration of its frame from above only, an incremental jog does not bound the
acceleration at all, and a line takes both as they come.  A planner whose settings are within the configuration stays
within it, and a queued line keeps its limits or has its velocity limit lowered; so a run respects the configuration if
the jogs and lines that are accepted ask for no more.
-/

namespace SoemMotion

open Lib

/-! ### The planner of an axis -/

/-- The velocities and the acceleration of a planner are within the limits. -/
structure SimpleTp.Within (V A : Int) (tp : SimpleTp) : Prop where
  currVel : |tp.currVel| ≤ V
  vel : |tp.vel| ≤ V
  acc : 0 ≤ tp.acc ∧ tp.acc ≤ A

theorem abs_limitVel_le (r : ℝ) (vel : Int) : |limitVel r vel| ≤ ((|vel| : Int) : ℝ) := by
  have hle : (vel : ℝ) ≤ |(vel : ℝ)| := le_abs_self _
  have hneg : -(vel : ℝ) ≤ |(vel : ℝ)| := neg_le_abs _
  unfold limitVel
  rw [i32_real, Int.cast_neg, Int.cast_abs]
  by_cases hhigh : (vel : ℝ) < r
  · rw [if_pos hhigh]
  · rw [if_neg hhigh]
    by_cases hlow : r < -(vel : ℝ)
    · rw [if_pos hlow, abs_neg]
    · rw [if_neg hlow, abs_le]
      constructor <;> linarith

theorem le_truncReal {x : ℝ} {n : Int} (h : (n : ℝ) ≤ x) : n ≤ truncReal x := by
  unfold truncReal
  split
  · exact Int.le_floor.2 h
  · exact_mod_cast h.trans (Int.le_ceil x)

theorem truncReal_le {x : ℝ} {n : Int} (h : x ≤ (n : ℝ)) : truncReal x ≤ n := by
  unfold truncReal
  split
  · exact_mod_cast (Int.floor_le x).trans h
  · exact Int.ceil_le.2 h

/-- The ramp goes towards the request, by one acceleration step at most. -/
theorem rampVel_within {v a V : Int} {r : ℝ} (ha : 0 ≤ a) (hv : |v| ≤ V) (hr : |r| ≤ (V : ℝ)) :
    |rampVel v r (a : ℝ)| ≤ V ∧ |rampVel v r (a : ℝ) - v| ≤ a := by
  obtain ⟨hv1, hv2⟩ := abs_le.1 hv
  obtain ⟨hr1, hr2⟩ := abs_le.1 hr
  have hup : (v : ℝ) + (a : ℝ) = ((v + a : Int) : ℝ) := by push_cast; ring
  have hdown : (v : ℝ) - (a : ℝ) = ((v - a : Int) : ℝ) := by push_cast; ring
  unfold rampVel
  rw [hup, hdown, trunc_real, trunc_real, trunc_real, truncReal_intCast, truncReal_intCast]
  by_cases hhigh : ((v + a : Int) : ℝ) < r
  · rw [if_pos hhigh]
    have hle : v + a ≤ V := by exact_mod_cast (hhigh.trans_le hr2).le
    rw [abs_le, abs_le]
    omega
  · rw [if_neg hhigh]
    by_cases hlow : r < ((v - a : Int) : ℝ)
    · rw [if_pos hlow]
      have hge : -V ≤ v - a := by
        have : ((-V : Int) : ℝ) ≤ ((v - a : Int) : ℝ) := by
          rw [Int.cast_neg]
          exact (hr1.trans_lt hlow).le
        exact_mod_cast this
      rw [abs_le, abs_le]
      omega
    · rw [if_neg hlow]
      have h1 := truncReal_le (not_lt.1 hhigh)
      have h2 := le_truncReal (not_lt.1 hlow)
      have h3 := truncReal_le hr2
      have h4 : -V ≤ truncReal r := le_truncReal (by rw [Int.cast_neg]; exact hr1)
      rw [abs_le, abs_le]
      omega

/-- One period of the planner. -/
theorem simpleTpUpdate_within {V A : Int} {tp : SimpleTp} (h : tp.Within V A) :
    (simpleTpUpdate ℝ tp 1).Within V A ∧ |(simpleTpUpdate ℝ tp 1).currVel - tp.currVel| ≤ A := by
  obtain ⟨active, heq⟩ := simpleTpUpdate_one tp
  obtain ⟨hacc, hvel, -⟩ := request_fst tp
  have hlimit : |limitVel (tp.request ℝ 1).2 tp.vel| ≤ (V : ℝ) :=
    (abs_limitVel_le _ _).trans (by exact_mod_cast h.vel)
  obtain ⟨hnext, hstep⟩ := rampVel_within h.acc.1 h.currVel hlimit
  rw [heq]
  refine ⟨⟨hnext, ?_, ?_⟩, hstep.trans h.acc.2⟩
  · show |(tp.request ℝ 1).1.vel| ≤ V
    rw [hvel]
    exact h.vel
  · show 0 ≤ (tp.request ℝ 1).1.acc ∧ (tp.request ℝ 1).1.acc ≤ A
    rw [hacc]
    exact h.acc

/-- The front of a cycle stops the planner, if it changes its velocity at all. -/
theorem controllerFront_within {s : Machine ℝ} {i : Fin 3} {V A : Int} (hs : (s.axes i).freeTp.Within V A)
    (inp : Inputs) (period : Int) : ((controllerFront s inp period).axes i).freeTp.Within V A := by
  have hfront := controllerFront_freeTp s inp period i
  refine ⟨?_, ?_, ?_⟩
  · rcases hfront.currVel with h | h
    · rw [h]
      exact hs.currVel
    · rw [h, abs_zero]
      exact (abs_nonneg _).trans hs.currVel
  · rw [hfront.vel]
    exact hs.vel
  · rw [hfront.acc]
    exact hs.acc

/-- A cycle keeps the planner within the limits, and a cycle in free mode changes its velocity by one step at most. -/
theorem emcmotController_within {s t : Machine ℝ} {inp : Inputs} {fuel : Nat} {i : Fin 3} {V A : Int}
    (hs : (s.axes i).freeTp.Within V A) (h : emcmotController s inp motionThreadPeriod fuel = some t) :
    (t.axes i).freeTp.Within V A ∧
      (t.status.motionState = .free → |(t.axes i).freeTp.currVel - (s.axes i).freeTp.currVel| ≤ A) := by
  have hfront := controllerFront_within hs inp motionThreadPeriod
  have hstate := (emcmotController_modes h).2
  by_cases hfree : t.status.motionState = .free
  · obtain ⟨pos, haxis⟩ := emcmotController_free h hfree i
    have hne : (controllerFront s inp motionThreadPeriod).status.motionState ≠ .disabled := by
      rw [← hstate, hfree]
      simp
    have hvel := controllerFront_currVel hne i
    rw [controllerFront_servoPeriod] at haxis
    rw [haxis, ← hvel]
    generalize (controllerFront s inp motionThreadPeriod).axes i = axis at hfront
    generalize (controllerFront s inp motionThreadPeriod).status.maxacc = maxacc
    show (freeAxisCycle axis maxacc 1).freeTp.Within V A ∧
      (_ → |(freeAxisCycle axis maxacc 1).freeTp.currVel - axis.freeTp.currVel| ≤ A)
    -- only an active axis plans, any other keeps its planner
    by_cases hactive : axis.flag.active = true
    · obtain ⟨maxAcc, htp, -⟩ := freeAxisCycle_of_active hactive maxacc 1
      rw [htp]
      have hset : ({ axis.freeTp with maxAcc := maxAcc } : SimpleTp).Within V A :=
        ⟨hfront.currVel, hfront.vel, hfront.acc⟩
      obtain ⟨h1, h2⟩ := simpleTpUpdate_within hset
      exact ⟨h1, fun _ => h2⟩
    · have hidle : freeAxisCycle axis maxacc 1 = axis := by
        unfold freeAxisCycle
        rw [if_pos (by simpa using hactive)]
      rw [hidle]
      refine ⟨hfront, fun _ => ?_⟩
      rw [sub_self, abs_zero]
      exact hfront.acc.1.trans hfront.acc.2
  · refine ⟨?_, fun hst => absurd hst hfree⟩
    have hnot : (controllerFront s inp motionThreadPeriod).status.motionState ≠ .free := by
      rw [← hstate]
      exact hfree
    obtain ⟨u, hu, rfl⟩ := Option.map_eq_some_iff.1 h
    obtain ⟨v, hv, rfl⟩ := Option.map_eq_some_iff.1 hu
    obtain ⟨pos, hpos⟩ := cycleEnd_axes v inp i
    rw [hpos]
    show (v.axes i).freeTp.Within V A
    rw [planPositions_freeTp hv hnot i]
    exact hfront

/-! ### The queued lines -/

theorem Lowered.le {a b : ℝ} (h : Lowered a b) : b ≤ a := by
  induction h with
  | refl => exact le_rfl
  | fmin _ u ih =>
    rw [fmin_real]
    exact (min_le_left _ _).trans ih

/-- The velocities and the acceleration of a line are within the limits. -/
def Tc.LineWithin (V A : Int) (tc : Tc ℝ) : Prop :=
  (∃ line, tc.coords = .line line) → tc.reqvel ≤ V ∧ tc.maxvel ≤ V ∧ tc.maxaccel ≤ A

def Tp.LinesWithin (V A : Int) (tp : Tp ℝ) : Prop := ∀ n tc, tcqItem tp.queue n = some tc → tc.LineWithin V A

theorem Tc.Same.lineWithin {a b : Tc ℝ} {V A : Int} (h : a.Same b) (ha : a.LineWithin V A) : b.LineWithin V A := by
  intro hline
  rw [h.coords] at hline
  obtain ⟨h1, h2, h3⟩ := ha hline
  refine ⟨?_, (h.maxvel hline).le.trans h2, ?_⟩
  · rw [h.reqvel]
    exact h1
  · rw [h.maxaccel]
    exact h3

theorem linesWithin_of_empty {tp : Tp ℝ} (h : tp.queue.len = 0) (V A : Int) : tp.LinesWithin V A := by
  intro n tc hn
  have := (lt_of_tcqItem hn).1
  omega

theorem Tp.LinesWithin.sameCells {a b : Tp ℝ} {V A : Int} (ha : a.LinesWithin V A)
    (h : a.queue.SameCells b.queue) : b.LinesWithin V A := by
  intro n tc hn
  have hitem := h.item (n := n)
  rw [hn] at hitem
  generalize hold : tcqItem a.queue n = old at hitem
  cases hitem with
  | some hsame => exact hsame.lineWithin (ha n _ hold)

/-- A cycle keeps the limits of the lines that stay. -/
theorem Tp.LinesWithin.cycle {tp : Tp ℝ} {V A : Int} (hs : tp.Sound) (h : tp.LinesWithin V A) (env : TpEnv ℝ) :
    (tpRunCycle env tp).LinesWithin V A := by
  have hresult := tpRunCycle_result env tp
  generalize tpRunCycle env tp = tp' at hresult
  cases hresult with
  | emptied hqueue => exact linesWithin_of_empty (by rw [hqueue]; rfl) V A
  | advanced ha => exact h.sameCells ha.sameCells
  | @popped u _ q ha hq hqueue =>
    rw [hs.forward, if_neg Bool.false_ne_true] at hqueue
    intro n tc hn
    rw [tcqPop_item hqueue (lt_of_tcqItem hn).1.1] at hn
    exact h.sameCells (b := { tp with queue := q }) hq.same (n + 1) tc hn

/-- Appending a segment within the limits. -/
theorem AppendResult.linesWithin {tp tp' : Tp ℝ} {seg : Tc ℝ} {V A : Int} (h : AppendResult tp seg tp') (hs : tp.Sound)
    (hseg : seg.LineWithin V A) (ha : tp.LinesWithin V A) : tp'.LinesWithin V A := by
  cases h with
  | kept hq => exact ha.sameCells hq
  | @put q q₁ q₂ tc nextId depth hq hput hq₂ hid hsame =>
    have hstart : ({ tp with queue := q₁ } : Tp ℝ).LinesWithin V A := by
      intro n tc' hn
      change tcqItem q₁ n = some tc' at hn
      rw [tcqPut_item (hq.wf hs.wf) hput] at hn
      split at hn
      · cases hn
        exact hsame.lineWithin hseg
      · exact ha.sameCells (b := { tp with queue := q }) hq n tc' hn
    exact hstart.sameCells hq₂

theorem linesWithin_plannerInvariant (V A : Int) :
    PlannerInvariant fun tp : Tp ℝ => tp.Sound ∧ tp.LinesWithin V A where
  cycleTime tp secs h := ⟨sound_plannerInvariant.cycleTime tp secs h.1, h.2⟩
  setPos tp pos h := by
    refine ⟨h.1.setPos pos, ?_⟩
    obtain ⟨current, goal, heq⟩ := tpSetPos_eq tp pos
    rw [heq]
    exact h.2
  clear tp h := ⟨h.1.clear, linesWithin_of_empty rfl V A⟩
  cycle env tp h := ⟨h.1.cycle env, h.2.cycle h.1 env⟩
  pause tp h := ⟨h.1.of_sameCore (tpPause_sameCore tp), h.2⟩

/-! ### Runs -/

/-- Axis `i` and the queued lines are within the limits. -/
structure Machine.SpeedWithin (i : Fin 3) (V A : Int) (s : Machine ℝ) : Prop where
  planner : (s.axes i).freeTp.Within V A
  lines : s.internal.coordTp.LinesWithin V A

/-- A jog of axis `i` or a line that is accepted now asks for no more than the limits. -/
structure Machine.AsksWithin (i : Fin 3) (V A : Int) (jogInhibit : Bool) (s : Machine ℝ) : Prop where
  jog : ∀ vel acc, StartsJog s jogInhibit i vel acc → -V ≤ (s.axes i).velCmd ∧ 0 ≤ (s.axes i).accCmd ∧
    (s.command.command = .jogIncr → (s.axes i).accCmd ≤ A)
  line : s.command.command = .setLine → coordMoveRefused s = none → s.command.vel ≤ V ∧ s.command.acc ≤ A

/-- A step under the configured limits, in which what the handler accepts asks for no more than they allow. -/
structure SpeedStep (i : Fin 3) (V A : Int) (s : Machine ℝ) (e : Event ℝ) (_ : Machine ℝ) : Prop where
  settings : s.command.maxvel = V ∧ s.command.maxacc = A
  asks : ∀ j, e = .handle j → s.Pending → s.AsksWithin i V A j

/-- A jog within the limits. -/
theorem StartsJog.within {s : Machine ℝ} {j : Bool} {i : Fin 3} {vel acc V A : Int} (h : StartsJog s j i vel acc)
    (hV : 0 ≤ V) (hA : 0 ≤ A) (hset : s.command.maxvel = V ∧ s.command.maxacc = A)
    (hask : -V ≤ (s.axes i).velCmd ∧ 0 ≤ (s.axes i).accCmd ∧ (s.command.command = .jogIncr → (s.axes i).accCmd ≤ A)) :
    |vel| ≤ V ∧ 0 ≤ acc ∧ acc ≤ A := by
  obtain ⟨hvelCmd, haccCmd, hincr⟩ := hask
  have hvel : |jogVel (s.axes i) s.command| ≤ V := by
    unfold jogVel
    rw [hset.1, abs_le]
    split <;> omega
  have hacc : 0 ≤ jogAcc (s.axes i) s.command ∧ jogAcc (s.axes i) s.command ≤ A := by
    unfold jogAcc
    rw [hset.2]
    split <;> omega
  cases h with
  | cont => exact ⟨hvel, hacc⟩
  | incr hc => exact ⟨hvel, haccCmd, hincr hc⟩
  | abs => exact ⟨hvel, hacc⟩

/-- What the handler does to an axis. -/
theorem executeCommand_within {s t : Machine ℝ} {j : Bool} {i : Fin 3} {V A : Int} (hV : 0 ≤ V) (hA : 0 ≤ A)
    (hset : s.command.maxvel = V ∧ s.command.maxacc = A) (hask : s.AsksWithin i V A j)
    (hs : (s.axes i).freeTp.Within V A) (h : executeCommand s j = some t) : (t.axes i).freeTp.Within V A := by
  by_cases hjog : s.command.command.isJog = true
  · obtain ⟨-, -, heffect⟩ := executeJog_effect i hjog h
    cases heffect with
    | same heq =>
      rw [heq]
      exact hs
    | stop heq =>
      rw [heq]
      exact ⟨hs.currVel, hs.vel, hs.acc⟩
    | jog hstart _ heq =>
      obtain ⟨hvel, hacc⟩ := hstart.within hV hA hset (hask.jog _ _ hstart)
      rw [heq]
      exact ⟨hs.currVel, hvel, hacc⟩
  · rcases executeCommand_freeTp (Bool.eq_false_of_not_eq_true hjog) h i with heq | heq
    · rw [heq]
      exact hs
    · rw [heq]
      exact ⟨hs.currVel, hs.vel, hs.acc⟩

/-- What the handler does to the queue. -/
theorem PlannerCommand.linesWithin {s : Machine ℝ} {tp : Tp ℝ} {i : Fin 3} {V A : Int} {j : Bool}
    (h : PlannerCommand s tp) (hsound : s.internal.coordTp.Sound)
    (hset : s.command.maxvel = V ∧ s.command.maxacc = A) (hask : s.AsksWithin i V A j)
    (hs : s.internal.coordTp.LinesWithin V A) : tp.LinesWithin V A := by
  have hcore : ∀ {a b : Tp ℝ}, a.SameCore b → a.LinesWithin V A → b.LinesWithin V A := by
    intro a b h ha n tc hn
    rw [h.queue] at hn
    exact ha n tc hn
  cases h with
  | kept h => exact hcore h hs
  | appended hcode hu _ ha hv hok hline hcircle =>
    refine hcore hv (ha.linesWithin (hsound.of_sameCore hu) (fun hseg => ?_) (hcore hu hs))
    rcases hcode with hcode | hcode
    · obtain ⟨hreqvel, hmaxvel, hmaxaccel⟩ := hline hcode
      obtain ⟨hvel, hacc⟩ := hask.line hcode hok
      rw [hreqvel, hmaxvel, hmaxaccel, hset.1]
      exact ⟨by exact_mod_cast hvel, le_rfl, by exact_mod_cast hacc⟩
    · obtain ⟨line, hline⟩ := hseg
      obtain ⟨circle, hcoords⟩ := hcircle hcode
      cases hline.symm.trans hcoords

theorem Machine.SpeedWithin.step {i : Fin 3} {V A : Int} {s t : Machine ℝ} {e : Event ℝ} (hV : 0 ≤ V) (hA : 0 ≤ A)
    (hsound : s.internal.coordTp.Sound) (hs : s.SpeedWithin i V A) (h : Step s e t) (he : SpeedStep i V A s e t) :
    t.SpeedWithin i V A := by
  cases h with
  | frame hf =>
    have hplanner := (processFrame_planner hf).1
    rw [processFrame_eq] at hf
    refine ⟨?_, ?_⟩
    · rw [publish_freeTp hf i]
      exact hs.planner
    · rw [hplanner]
      exact hs.lines
  | command c => exact ⟨hs.planner, hs.lines⟩
  | @handle _ j hh =>
    have hplanner := (emcmotCommandHandler_planner hh).1
    rcases emcmotCommandHandler_cases hh with ⟨hne, hx⟩ | ⟨-, rfl⟩
    · have hask := he.asks j rfl hne
      have hecho : s.echo.AsksWithin i V A j :=
        ⟨fun vel acc hstart => hask.jog vel acc hstart.of_echo,
          fun hc hok => hask.line hc (coordMoveRefused_echo.1 hok)⟩
      exact ⟨executeCommand_within hV hA (s := s.echo) he.settings hecho hs.planner hx,
        hplanner.linesWithin hsound he.settings hask hs.lines⟩
    · exact hs
  | cycle hc =>
    exact ⟨(emcmotController_within hs.planner hc).1,
      (emcmotController_planner (linesWithin_plannerInvariant V A) ⟨hsound, hs.lines⟩ hc).2⟩

/-- The handler's start of a jog leaves the machine ready for the next cycle. -/
theorem FreeReady.startJog {s : Machine ℝ} (hs : FreeReady s) {f : Axis ℝ → Axis ℝ} (axisArray : Fin 3 → TeleopAxis)
    (hf : ∀ axis, (f axis).flag.active = axis.flag.active ∧ (f axis).posCmd = axis.posCmd ∧
      (f axis).motorOffset = axis.motorOffset ∧ (f axis).minFerror = axis.minFerror) :
    FreeReady { s.echo.updateAxis 0 f with axisArray := axisArray } := by
  obtain ⟨hsettled, henable, hactive, hpos, hfeedback, hfault⟩ := hs
  obtain ⟨-, hsame, hoffset, hmin⟩ := hf (s.axes 0)
  have hpos' : |(f (s.axes 0)).posCmd| ≤ 400 := by
    rw [hsame]
    exact hpos
  refine ⟨⟨hsettled.enabling, hsettled.coordinating, hsettled.coord, hsettled.freeing⟩, henable, ?_, hpos',
    ⟨hoffset.trans hfeedback.1, hmin.trans hfeedback.2⟩, hfault⟩
  intro i
  rw [← hactive i]
  show (if i = 0 then f (s.axes i) else s.axes i).flag.active = (s.axes i).flag.active
  split
  · exact (hf (s.axes i)).1
  · rfl

/-- A run under the velocity limit 10 and the acceleration limit 100 that has executed all its commands. -/
structure UnderLimits (s t : Machine ℝ) : Prop where
  run : Reaches (Restrict Step (SpeedStep 0 10 100)) s t
  net : NetReachable 3 t
  idle : ¬ t.Pending
  settings : t.command.maxvel = 10 ∧ t.command.maxacc = 100

theorem UnderLimits.cycle {s t u : Machine ℝ} {inp : Inputs} {fuel : Nat} (h : UnderLimits s t)
    (hc : emcmotController t inp motionThreadPeriod fuel = some u) : UnderLimits s u := by
  obtain ⟨hnet, hidle⟩ := cycle_netReachable h.net h.idle hc
  refine ⟨h.run.tail (e := .cycle inp) ⟨.cycle hc, h.settings, fun _ he => by cases he⟩, hnet, hidle, ?_⟩
  rw [(emcmotController_cycleKeeps hc).command]
  exact h.settings

/-- A frame that asks for no more than the limits, and its handler. -/
theorem UnderLimits.serve {s t u v : Machine ℝ} {r : Request} (h : UnderLimits s t) (hr : r.Encodable)
    (hpub : publish (some r) t = some u) (hh : emcmotCommandHandler u false = some v)
    (hsettings : u.command.maxvel = 10 ∧ u.command.maxacc = 100) (hasks : u.AsksWithin 0 10 100 false)
    (hkept : v.command.maxvel = u.command.maxvel ∧ v.command.maxacc = u.command.maxacc) : UnderLimits s v := by
  have hframe : Step t (.frame r.encode.frame) u := .frame ((processFrame_encode hr t).trans hpub)
  have hpublished := h.run.tail (e := .frame r.encode.frame) ⟨hframe, h.settings, fun _ he => by cases he⟩
  obtain ⟨hcommand, hecho⟩ := emcmotCommandHandler_taken hh
  refine ⟨hpublished.tail (e := .handle false) ⟨.handle hh, hsettings, ?_⟩,
    (h.net.publish hr hpub).tail (e := .handle false) ⟨.handle hh, trivial⟩, ?_, ?_⟩
  · rintro _ ⟨⟩ -
    exact hasks
  · exact not_not.2 (hcommand.trans hecho.symm)
  · rw [hkept.1, hkept.2]
    exact hsettings

/-- A command without parameters asks for nothing. -/
theorem asksWithin_of_plain {i : Fin 3} {V A : Int} {j : Bool} {s : Machine ℝ}
    (hplain : s.command.command.isPlain = true) : s.AsksWithin i V A j := by
  have hno : ∀ {c : CmdCode}, s.command.command = c → c.isPlain = false → False := by
    rintro c rfl h
    rw [hplain] at h
    cases h
  refine ⟨fun vel acc h => ?_, fun h => (hno h rfl).elim⟩
  cases h with
  | cont hc => exact (hno hc rfl).elim
  | incr hc => exact (hno hc rfl).elim
  | abs hc => exact (hno hc rfl).elim

theorem plain_encodable {code : CmdCode} (h : code.isPlain = true) : (Request.plain code 0).Encodable := by
  refine ⟨by show (0 : Nat) < 65536; norm_num, (show ∀ n ∈ ([0] : List Int), IsInt32 n from by decide), ?_⟩
  rintro _ _ ⟨⟩
  exact h

/-- A command without parameters, and its handler. -/
theorem UnderLimits.servePlain {s t v : Machine ℝ} {code : CmdCode} (h : UnderLimits s t) (hcode : code.isPlain = true)
    (hserve : t.serve (.plain code 0) = some v)
    (hkept : v.command.maxvel = t.command.maxvel ∧ v.command.maxacc = t.command.maxacc) : UnderLimits s v := by
  obtain ⟨u, hpub, -, hh, -⟩ := serve_steps h.idle hserve
  cases hpub
  exact h.serve (plain_encodable hcode) rfl hh h.settings (asksWithin_of_plain hcode) hkept

/-- The abort of the jog, and the cycle in which the axis stops. -/
theorem UnderLimits.stops {s₁ s : Machine ℝ} (h : UnderLimits s₁ s) (hs : FreeReady s)
    (hidle : s.internal.coordTp.Idle) (hvel : (s.axes 0).freeTp.vel = 5) (hacc : (s.axes 0).freeTp.acc = 7)
    (hcurr : (s.axes 0).freeTp.currVel = 5) (hpos : (s.axes 0).freeTp.currPos = 5) : ∃ t, UnderLimits s₁ t ∧
      FreeReady t ∧ t.internal.coordTp.Idle ∧ t.status.motionFlag.inpos = true := by
  obtain ⟨u, hu, hinternal, hcommand, hready, hplanner⟩ : ∃ u, s.serve (.plain .jogAbort 0) = some u ∧
      u.internal = s.internal ∧ u.command = s.command.publish .jogAbort 0 ∧ FreeReady u ∧
      (u.axes 0).freeTp = { (s.axes 0).freeTp with enable := false } := by
    have hpublished : FreeReady { s with command := s.command.publish .jogAbort 0 } :=
      ⟨⟨hs.settled.enabling, hs.settled.coordinating, hs.settled.coord, hs.settled.freeing⟩, hs.enable, hs.active,
        hs.near, hs.feedback, hs.noFault⟩
    exact ⟨_, rfl, rfl, rfl, hpublished.startJog _ fun _ => ⟨rfl, rfl, rfl, rfl⟩,
      congrArg Axis.freeTp (updateAxis_axes s 0 jogAbortAxis)⟩
  have hu' : UnderLimits s₁ u := h.servePlain rfl hu (by rw [hcommand]; exact ⟨rfl, rfl⟩)
  obtain ⟨t, ht, hfree, -, hnext, maxAcc, htp⟩ :=
    hready.cycle hu'.net.reachable.noOverride (fun _ => false) fun _ => false
  rw [hplanner, simpleTpUpdate_stops rfl (by show 0 ≤ (s.axes 0).freeTp.vel; rw [hvel]; decide)
    (by show |(s.axes 0).freeTp.currVel| ≤ (s.axes 0).freeTp.acc; rw [hcurr, hacc]; decide)] at htp
  have ht' : FreeReady t := by
    refine hnext ?_
    rw [htp]
    show |(s.axes 0).freeTp.currPos| ≤ 400
    rw [hpos]
    decide
  refine ⟨t, hu'.cycle ht, ht', emcmotController_planner idle_plannerInvariant (by rw [hinternal]; exact hidle) ht, ?_⟩
  have hstill : freeMoving t.axes = false := by
    unfold freeMoving
    rw [decide_eq_false_iff_not]
    rintro ⟨i, hactive, hmoving⟩
    rw [ht'.active i] at hactive
    obtain rfl : i = 0 := of_decide_eq_true hactive
    rw [htp] at hmoving
    cases hmoving
  rw [emcmotController_free_inpos ht hfree, hstill]
  rfl

end SoemMotion
