import SoemMotion.FaultStop
import SoemMotion.PlannerRun
import SoemMotion.SegmentPop

/-!
# The path of the queued segments

The goal of the planner is where the next line starts.  Appending a segment sets it to the end of the segment, but the
controller sets it to the commanded position of the axes in every cycle, so the path stays connected in a cycle exactly
when the axes are at its end.
-/

namespace SoemMotion

variable {K : Type} [Arith K]

/-! ### Connected paths -/

/-- A non-empty queue ends at the goal. -/
def Tp.Connected (tp : Tp K) : Prop := ∀ tc, tcqLast tp.queue = some tc → tp.goalPos = tcGetEndpoint tc tp.goalPos

/-- The axes are commanded to the end of a non-empty queue, as far as the planner accepts their pose. -/
def Machine.AtPathEnd (s : Machine K) : Prop := emcPoseValid s.commandedPose = true →
  ∀ tc, tcqLast s.internal.coordTp.queue = some tc → s.commandedPose = tcGetEndpoint tc s.commandedPose

theorem Tc.Same.endpoint {a b : Tc K} (h : a.Same b) (pos : EmcPose K) : tcGetEndpoint b pos = tcGetEndpoint a pos := by
  unfold tcGetEndpoint tcGetPosReal
  rw [h.coords, h.target]

theorem tcGetEndpoint_idem (tc : Tc K) (pos : EmcPose K) :
    tcGetEndpoint tc (tcGetEndpoint tc pos) = tcGetEndpoint tc pos := by
  unfold tcGetEndpoint
  cases tcGetPosReal tc tc.target <;> rfl

theorem connected_of_empty {tp : Tp K} (h : tp.queue.len = 0) : tp.Connected := by
  intro tc htc
  unfold tcqLast at htc
  rw [if_pos h] at htc
  cases htc

/-- The queue still ends with a segment that was its last one. -/
theorem connected_congr {a b : Tp K} (hgoal : b.goalPos = a.goalPos)
    (hlast : SameNext (tcqLast a.queue) (tcqLast b.queue)) : b.Connected ↔ a.Connected := by
  unfold Tp.Connected
  rw [hgoal]
  generalize tcqLast a.queue = x at hlast
  generalize tcqLast b.queue = y at hlast
  cases hlast with
  | none => simp
  | some h => simp [h.endpoint]

theorem Tp.SameCore.connected {a b : Tp K} (h : a.SameCore b) : b.Connected ↔ a.Connected :=
  connected_congr h.goalPos (by rw [h.queue]; exact SameNext.refl _)

/-! ### Appending -/

/-- The new segment is the last one. -/
theorem tcqPut_last {α : Type} {q q' : Tcq α} {tc : α} (hw : q.WF) (h : tcqPut q tc = some q') :
    tcqLast q' = some tc := by
  obtain ⟨hw', -, hlen, -⟩ := tcqPut_wf hw h
  rw [tcqLast_eq_item hw', hlen, tcqPut_item hw h, if_pos (by omega)]

theorem AppendResult.connected {tp tp' : Tp K} {seg : Tc K} (h : AppendResult tp seg tp') (hs : tp.Sound)
    (hc : tp.Connected) : tp'.Connected := by
  cases h with
  | @kept q hq => exact (connected_congr (a := tp) (b := { tp with queue := q }) rfl hq.last).2 hc
  | @put q q₁ q₂ tc nextId depth hq hput hq₂ =>
    have hlast : SameNext (tcqLast q₁) (tcqLast q₂) := hq₂.last
    rw [tcqPut_last (hq.wf hs.wf) hput] at hlast
    intro tc' htc'
    show tcGetEndpoint tc tp.goalPos = tcGetEndpoint tc' (tcGetEndpoint tc tp.goalPos)
    have htc : tcqLast q₂ = some tc' := htc'
    rw [htc] at hlast
    cases hlast with
    | some h => rw [h.endpoint, tcGetEndpoint_idem]

theorem PlannerCommand.connected {s : Machine K} {tp : Tp K} (h : PlannerCommand s tp)
    (hs : s.internal.coordTp.Sound) (hc : s.internal.coordTp.Connected) : tp.Connected := by
  cases h with
  | kept h => exact h.connected.2 hc
  | appended _ hu _ ha hv =>
    exact hv.connected.2 (ha.connected (hs.of_sameCore hu) (hu.connected.2 hc))

/-! ### Running -/

/-- The planner after some cycles: its queue has run empty, or it still ends with the segment it ended with. -/
def PathKept (a b : Tp K) : Prop :=
  b.Sound ∧ (b.queue.len = 0 ∨ b.goalPos = a.goalPos ∧ SameNext (tcqLast a.queue) (tcqLast b.queue))

theorem PathKept.refl {a : Tp K} (h : a.Sound) : PathKept a a := ⟨h, .inr ⟨rfl, SameNext.refl _⟩⟩

omit [Arith K] in
theorem tcqPop_last {α : Type} {q q' : Tcq α} (h : tcqPop q = some q') (hne : q'.len ≠ 0) (hq : q.len ≠ 0) :
    tcqLast q' = tcqLast q := by
  have hcells : q'.queue = q.queue ∧ q'.end = q.end ∧ q'.size = q.size := by
    unfold tcqPop at h
    split at h
    · cases h
    · split at h <;> cases h <;> exact ⟨rfl, rfl, rfl⟩
  unfold tcqLast Tcq.lastIndex
  rw [if_neg hne, if_neg hq, hcells.1, hcells.2.1, hcells.2.2]

omit [Arith K] in
theorem len_pos_of_tcqPop {α : Type} {q q' : Tcq α} (hw : q.WF) (h : tcqPop q = some q') : 0 < q.len := by
  obtain ⟨hw', -, hlen⟩ := tcqPop_wf hw h
  have := hw'.len_nonneg
  omega

theorem PathKept.cycle {a b : Tp K} (h : PathKept a b) (env : TpEnv K) : PathKept a (tpRunCycle env b) := by
  obtain ⟨hs, hb⟩ := h
  refine ⟨hs.cycle env, ?_⟩
  have hresult := tpRunCycle_result env b
  generalize tpRunCycle env b = c at hresult
  cases hresult with
  | emptied hqueue =>
    left
    rw [hqueue]
    rfl
  | advanced ha =>
    have hcells := ha.sameCells
    rcases hb with hb | ⟨hgoal, hlast⟩
    · exact .inl (hcells.len.trans hb)
    · exact .inr ⟨ha.goalPos.trans hgoal, hlast.trans hcells.last⟩
  | @popped u _ q ha hq hqueue hgoal =>
    rw [hs.forward, if_neg Bool.false_ne_true] at hqueue
    have hpos := len_pos_of_tcqPop (hq.wf hs.wf) hqueue
    by_cases hzero : c.queue.len = 0
    · exact .inl hzero
    · right
      rcases hb with hb | ⟨hgoal', hlast⟩
      · rw [hq.len] at hpos
        omega
      · refine ⟨(hgoal.trans ha.goalPos).trans hgoal', ?_⟩
        rw [tcqPop_last hqueue hzero (by omega)]
        exact hlast.trans hq.same.last

theorem PathKept.pause {a b : Tp K} (h : PathKept a b) : PathKept a (tpPause b) :=
  ⟨h.1.of_sameCore (tpPause_sameCore b), h.2⟩

/-! ### Cycles in coordinated mode -/

/-- The mode is coordinated, as the flags say that it is derived from. -/
structure Machine.InCoord (s : Machine K) : Prop where
  motionState : s.status.motionState = .coord
  enable : s.status.motionFlag.enable = true
  coord : s.status.motionFlag.coord = true

/-- The planner at the front of a cycle that stays in coordinated mode. -/
theorem InCoord.front {s : Machine K} (h : s.InCoord) {inp : Inputs} {period : Int}
    (hfront : (controllerFront s inp period).status.motionState = .coord) :
    ∃ secs, (controllerFront s inp period).internal.coordTp =
      tpSetPos { s.internal.coordTp with cycleTime := secs } s.commandedPose := by
  have hen : (s.internal.enabling && !faultFound (sampled s inp period)) = true := by
    rw [controllerFront_motionState, Modes.next_state_coord] at hfront
    exact hfront.1
  obtain ⟨secs, hsampled⟩ := sampled_planner s inp period
  refine ⟨secs, ?_⟩
  rw [controllerFront_coordTp h.enable h.coord, if_pos hen, hsampled]

/-- What a cycle in coordinated mode does to the path. -/
theorem emcmotController_path {s t : Machine K} {inp : Inputs} {period : Int} {fuel : Nat} (hs : s.InCoord)
    (hsound : s.internal.coordTp.Sound) (h : emcmotController s inp period fuel = some t)
    (ht : t.status.motionState = .coord) : ∃ secs,
      PathKept (tpSetPos { s.internal.coordTp with cycleTime := secs } s.commandedPose) t.internal.coordTp := by
  have hfront : (controllerFront s inp period).status.motionState = .coord := (emcmotController_modes h).2.symm.trans ht
  obtain ⟨secs, hplanner⟩ := InCoord.front hs hfront
  refine ⟨secs, ?_⟩
  have htimed : ({ s.internal.coordTp with cycleTime := secs } : Tp K).Sound :=
    ⟨hsound.wf, hsound.size, hsound.forward, hsound.noWait⟩
  refine emcmotController_back (P := PathKept _) (fun env tp h => h.cycle env) (fun tp h => h.pause) ?_ h
  rw [hplanner]
  exact PathKept.refl (htimed.setPos _)

/-- A cycle in coordinated mode ends with a connected path exactly when it empties the queue or finds the axes at the
end of the path. -/
theorem emcmotController_connected {s t : Machine K} {inp : Inputs} {period : Int} {fuel : Nat} (hs : s.InCoord)
    (hsound : s.internal.coordTp.Sound) (hc : s.internal.coordTp.Connected)
    (h : emcmotController s inp period fuel = some t) (ht : t.status.motionState = .coord) :
    t.internal.coordTp.Connected ↔ t.internal.coordTp.queue.len = 0 ∨ s.AtPathEnd := by
  obtain ⟨secs, -, hpath⟩ := emcmotController_path hs hsound h ht
  by_cases hzero : t.internal.coordTp.queue.len = 0
  · exact iff_of_true (connected_of_empty hzero) (.inl hzero)
  · obtain ⟨hgoal, hlast⟩ := hpath.resolve_left hzero
    rw [connected_congr hgoal hlast, or_iff_right hzero]
    unfold Tp.Connected Machine.AtPathEnd
    rw [tpSetPos_queue]
    unfold tpSetPos
    by_cases hvalid : emcPoseValid s.commandedPose = true
    · rw [if_pos hvalid]
      exact ⟨fun h _ => h, fun h => h hvalid⟩
    · rw [if_neg hvalid]
      exact iff_of_true hc fun h => absurd h hvalid

theorem emcmotController_inCoord {s t : Machine K} {inp : Inputs} {period : Int} {fuel : Nat}
    (h : emcmotController s inp period fuel = some t) (ht : t.status.motionState = .coord) : t.InCoord := by
  have hstate : (controllerFront s inp period).status.motionState = t.modes.state := by
    rw [(emcmotController_modes h).1]
    exact setOperatingMode_motionState _
  rw [← (emcmotController_modes h).2, ht] at hstate
  unfold Modes.state at hstate
  change MotionState.coord = if (!t.status.motionFlag.enable) = true then _ else
    if t.status.motionFlag.coord = true then _ else _ at hstate
  cases hen : t.status.motionFlag.enable with
  | false =>
    rw [hen] at hstate
    cases hstate
  | true =>
    cases hcoord : t.status.motionFlag.coord with
    | false =>
      rw [hen, hcoord] at hstate
      cases hstate
    | true => exact ⟨ht, hen, hcoord⟩

omit [Arith K] in
theorem Keeps.inCoord {s t : Machine K} (h : Keeps s t) (hs : s.InCoord) : t.InCoord :=
  ⟨h.motionState.trans hs.motionState, h.enable.trans hs.enable, h.coord.trans hs.coord⟩

/-! ### Runs of lines -/

/-- Frames and other writers that publish lines, calls of the handler, and cycles. -/
def Event.isLine : Event K → Prop
  | .frame f => CmdCode.ofIndex (f.u16 0) = .setLine
  | .command c => c.command = .setLine
  | .handle _ => True
  | .cycle _ => True

/-- A step of a run of lines in coordinated mode. -/
structure LineStep (s : Machine K) (e : Event K) (t : Machine K) : Prop where
  line : e.isLine
  coord : t.status.motionState = .coord

/-- A step whose cycles find the axes at the end of the path. -/
structure LineStepAtEnd (s : Machine K) (e : Event K) (t : Machine K) : Prop extends LineStep s e t where
  atEnd : ∀ inp, e = .cycle inp → s.AtPathEnd

/-- What a run of lines keeps. -/
structure LineState (s : Machine K) : Prop where
  inCoord : s.InCoord
  sound : s.internal.coordTp.Sound
  connected : s.internal.coordTp.Connected

theorem LineState.step {s t : Machine K} {e : Event K} (hs : LineState s) (h : Step s e t) (he : LineStepAtEnd s e t) :
    LineState t := by
  refine ⟨?_, Step.sound hs.sound h, ?_⟩
  · cases h with
    | frame hf => exact (processFrame_quiet hf).toKeeps.inCoord hs.inCoord
    | command c => exact ⟨hs.inCoord.motionState, hs.inCoord.enable, hs.inCoord.coord⟩
    | handle hh => exact (emcmotCommandHandler_keeps hh).inCoord hs.inCoord
    | cycle hc => exact emcmotController_inCoord hc he.coord
  · cases h with
    | frame hf =>
      rw [(processFrame_planner hf).1]
      exact hs.connected
    | command c => exact hs.connected
    | handle hh => exact (emcmotCommandHandler_planner hh).1.connected hs.sound hs.connected
    | @cycle _ inp fuel hc =>
      exact (emcmotController_connected hs.inCoord hs.sound hs.connected hc he.coord).2 (.inr (he.atEnd inp rfl))

theorem Reachable.inCoord {numAxes : Int} {s : Machine K} (h : Reachable numAxes s)
    (hs : s.status.motionState = .coord) : s.InCoord := by
  have key : s.status.motionState = .coord → s.InCoord := by
    refine Lib.Reaches.invariant (I := fun u : Machine K => u.status.motionState = .coord → u.InCoord) ?_ h ?_
    · intro u e v hu hstep hv
      cases hstep with
      | frame hf =>
        have hk := (processFrame_quiet hf).toKeeps
        exact hk.inCoord (hu (hk.motionState.symm.trans hv))
      | command c =>
        have := hu hv
        exact ⟨this.motionState, this.enable, this.coord⟩
      | handle hh =>
        have hk := emcmotCommandHandler_keeps hh
        exact hk.inCoord (hu (hk.motionState.symm.trans hv))
      | cycle hc => exact emcmotController_inCoord hc hv
    · intro hinit
      obtain ⟨_, _, _, _, _, _, _, heq⟩ := initMachine_eq (K := K) numAxes
      rw [heq] at hinit
      cases hinit
  exact key hs

/-- The line the handler builds starts at the goal. -/
theorem commandedSegment_coords (s : Machine K) :
    (commandedSegment s).coords = .line (pmLine9Init s.internal.coordTp.goalPos (lineEnd s)) := by
  have h : (tpSetId s.internal.coordTp s.command.id).goalPos = s.internal.coordTp.goalPos :=
    (tpSetId_spec s.internal.coordTp s.command.id).1.goalPos
  show Coords.line (pmLine9Init (tpSetId s.internal.coordTp s.command.id).goalPos (lineEnd s)) = _
  rw [h]

/-! ### A line and one cycle -/

omit [Arith K] in
theorem tcqLast_single {q : Tcq (Tc K)} (hw : q.WF) (hlen : q.len = 1) : tcqLast q = tcqItem q 0 := by
  rw [tcqLast_eq_item hw, hlen]
  rfl

/-- The axes are at the start of the line, not at its end. -/
theorem LineQueued.not_atPathEnd {x : Int} {s : Machine ℝ} (hs : LineQueued x s) (hsound : s.internal.coordTp.Sound)
    (hx : 1 ≤ x) : ¬ s.AtPathEnd := by
  obtain ⟨tc, hhead, hfresh⟩ := hs.line
  obtain ⟨abc, uvw, hcoords⟩ := hfresh.xyz
  have hx' : (x : ℝ) ≠ 0 := by
    have : (1 : ℝ) ≤ x := by exact_mod_cast hx
    linarith
  intro hend
  have hvalid : emcPoseValid s.commandedPose = true := by
    rw [hs.pose]
    rfl
  have hpose := hend hvalid tc ((tcqLast_single hsound.wf hs.len).trans hhead)
  have htran : (s.commandedPose).tran.x = (tcGetEndpoint tc s.commandedPose).tran.x := by
    rw [← hpose]
  have hpoint : (tcGetEndpoint tc s.commandedPose).tran.x = x := by
    unfold tcGetEndpoint tcGetPosReal
    rw [hcoords, hfresh.target]
    show (0 : ℝ) + 1 * ((x : ℝ) * x / x) = x
    rw [mul_div_cancel_right₀ _ hx', zero_add, one_mul]
  rw [hpoint, hs.pose] at htran
  exact hx' htran.symm

/-- A run that queues one line and goes on for one cycle. -/
theorem lineRun_broken (numAxes : Int) : ∃ s t : Machine ℝ, NetReachable numAxes s ∧ s.status.motionState = .coord ∧
    s.internal.coordTp.queue.len = 0 ∧ Lib.Reaches (Lib.Restrict Step LineStep) s t ∧
    t.internal.coordTp.queue.len = 1 ∧ ¬ t.internal.coordTp.Connected := by
  obtain ⟨s, u, t, hserved⟩ := lineServed_exists numAxes (le_refl 1) (by decide)
  have hs := hserved.start
  have hnet₁ := hserved.reached
  have ht := hserved.queued
  obtain ⟨tc, hfresh, hsingle, hforward, hcycle⟩ := ht.cycle hnet₁
  obtain ⟨tc₁, hrun, -⟩ := hfresh.split _ hforward hsingle
  obtain ⟨fuel, v, hv, hrunning, hsingle₁⟩ := hcycle tc₁ hrun
  have hcoord : u.status.motionState = .coord :=
    (processFrame_quiet hserved.frame).toKeeps.motionState.trans hs.motionState
  have h1 : Lib.Restrict Step LineStep s (.frame (lineRequest 1).encode.frame) u := ⟨.frame hserved.frame, rfl, hcoord⟩
  have h2 : Lib.Restrict Step LineStep u (.handle false) t := ⟨.handle hserved.handle, trivial, ht.motionState⟩
  have h3 : Lib.Restrict Step LineStep t (.cycle restInputs) v := ⟨.cycle hv, trivial, hrunning.motionState⟩
  refine ⟨s, v, hserved.net, hs.motionState, hs.idle.len,
    (((Lib.Reaches.refl s).tail h1).tail h2).tail h3, hsingle₁.len, ?_⟩
  have hconnected : t.internal.coordTp.Connected := by
    obtain ⟨hsame, -⟩ := processFrame_planner hserved.frame
    have hu : u.internal.coordTp.Sound ∧ u.internal.coordTp.Connected := by
      rw [hsame]
      exact ⟨hserved.net.reachable.sound, connected_of_empty hs.idle.len⟩
    exact (emcmotCommandHandler_planner hserved.handle).1.connected hu.1 hu.2
  have hin : t.InCoord := ⟨ht.motionState, ht.modes.2.1, ht.modes.2.2⟩
  rw [emcmotController_connected hin hnet₁.reachable.sound hconnected hv hrunning.motionState, hsingle₁.len, not_or]
  exact ⟨by decide, ht.not_atPathEnd hnet₁.reachable.sound le_rfl⟩

/-- In every run of lines in coordinated mode whose cycles find the queue empty or the axes at its end, the path is
connected, and a line starts where the last one ends; and that is when a cycle keeps the path connected. -/
theorem queuedPath_iff (numAxes : Int) :
    (∀ s t : Machine K, Reachable numAxes s → s.status.motionState = .coord → s.internal.coordTp.queue.len = 0 →
      Lib.Reaches (Lib.Restrict Step LineStepAtEnd) s t → t.internal.coordTp.Connected ∧
        ∀ tc, tcqLast t.internal.coordTp.queue = some tc → (commandedSegment t).coords =
          .line (pmLine9Init (tcGetEndpoint tc t.internal.coordTp.goalPos) (lineEnd t))) ∧
    (∀ (s t : Machine K) (inp : Inputs) (fuel : Nat), Reachable numAxes s → s.status.motionState = .coord →
      s.internal.coordTp.Connected → emcmotController s inp motionThreadPeriod fuel = some t →
      t.status.motionState = .coord →
        (t.internal.coordTp.Connected ↔ t.internal.coordTp.queue.len = 0 ∨ s.AtPathEnd)) := by
  constructor
  · intro s t hs hcoord hempty hrun
    have key : LineState t := hrun.invariant (fun _ _ _ hs hst => hs.step hst.1 hst.2)
      ⟨hs.inCoord hcoord, hs.sound, connected_of_empty hempty⟩
    refine ⟨key.connected, ?_⟩
    intro tc htc
    rw [commandedSegment_coords, ← key.connected tc htc]
  · intro s t inp fuel hs hcoord hc h ht
    exact emcmotController_connected (hs.inCoord hcoord) hs.sound hc h ht

/-- One cycle after a line is queued, the goal is no longer its end. -/
theorem queuedPath_broken : ∃ s t : Machine ℝ, NetReachable 0 s ∧ s.status.motionState = .coord ∧
    s.internal.coordTp.queue.len = 0 ∧ Lib.Reaches (Lib.Restrict Step LineStep) s t ∧
    t.internal.coordTp.queue.len = 1 ∧ ¬ t.internal.coordTp.Connected :=
  lineRun_broken 0

end SoemMotion
