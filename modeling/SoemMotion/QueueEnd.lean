import SoemMotion.CoordStart
import SoemMotion.LineOutcome

/-!
# The end of the queue

Runs of calls on a planner that has been initialised.  The look-ahead pass gives a final velocity to segments that have
a successor only, so the last one keeps the final velocity zero it is built with.
-/

namespace SoemMotion

open Lib

variable {K : Type} [Arith K]

/-! ### Calls -/

/-- A call on the planner, with what it reads of the status and the configuration at that time. -/
inductive TpCall (K : Type)
  | addLine (env : TpEnv K) (stop : EmcPose K) (canonMotionType : Int) (vel iniMaxvel acc : K) (enables : UInt8)
      (atspeed : Bool) (indexerJnum : Int)
  | runCycle (env : TpEnv K)
  | pause
  | resume
  | abort
  | setCycleTime (secs : K)
  | setVlimit (vLimit : K)
  | setId (id : Int)
  | setPos (pos : EmcPose K)
  | setSpindleSync (spindle : Int) (sync : K) (velocityMode : Bool)

def TpCall.run (tp : Tp K) : TpCall K → Tp K
  | .addLine env stop canonMotionType vel iniMaxvel acc enables atspeed indexerJnum =>
    (tpAddLine env tp stop canonMotionType vel iniMaxvel acc enables atspeed indexerJnum).1
  | .runCycle env => tpRunCycle env tp
  | .pause => tpPause tp
  | .resume => tpResume tp
  | .abort => tpAbort tp
  | .setCycleTime secs => tpSetCycleTime tp secs
  | .setVlimit vLimit => tpSetVlimit tp vLimit
  | .setId id => tpSetId tp id
  | .setPos pos => tpSetPos tp pos
  | .setSpindleSync spindle sync velocityMode => tpSetSpindleSync tp spindle sync velocityMode

/-- A step of a run of calls. -/
def TpStep (tp : Tp K) (c : TpCall K) (tp' : Tp K) : Prop := tp' = c.run tp

/-! ### The last segment -/

/-- The last segment ends at rest. -/
def Tcq.EndsAtRest (q : Tcq (Tc K)) : Prop := ∀ tc, tcqLast q = some tc → tc.finalvel = 0

/-- A forward planner that plans to stop at the end of its queue. -/
structure Tp.Stops (tp : Tp K) : Prop where
  wf : tp.queue.WF
  forward : tp.reverseRun = false
  last : tp.queue.EndsAtRest

theorem Tp.Stops.congr {a b : Tp K} (h : a.Stops) (hqueue : b.queue = a.queue)
    (hreverse : b.reverseRun = a.reverseRun) :
    b.Stops := by
  refine ⟨?_, hreverse.trans h.forward, ?_⟩
  · rw [hqueue]
    exact h.wf
  · rw [hqueue]
    exact h.last

theorem endsAtRest_empty {q : Tcq (Tc K)} (h : q.len = 0) : q.EndsAtRest := by
  intro tc htc
  unfold tcqLast at htc
  rw [if_pos h] at htc
  cases htc

/-- Writing a segment that ends at rest in the last place, or any segment elsewhere. -/
theorem Tcq.EndsAtRest.setItem {q : Tcq (Tc K)} (h : q.EndsAtRest) (hw : q.WF) {n : Int} (hn : 0 ≤ n ∧ n < q.len)
    (tc : Tc K) (htc : n = q.len - 1 → tc.finalvel = 0) : (q.setItem n tc).EndsAtRest := by
  intro last hlast
  rw [tcqLast_eq_item (setItem_wf hw n tc)] at hlast
  change tcqItem (q.setItem n tc) (q.len - 1) = some last at hlast
  rw [setItem_item hw hn] at hlast
  split at hlast
  · rename_i heq
    cases hlast
    exact htc heq.symm
  · exact h last (by rw [tcqLast_eq_item hw, hlast])

/-- The look-ahead pass. -/
theorem tpOptimizeFrom_endsAtRest (env : TpEnv K) (n : Nat) {tp : Tp K} (hw : tp.queue.WF) (h : tp.queue.EndsAtRest)
    {x : Int} (hx : 1 ≤ x) (hitPeaks : Int) (hitNonTangent : Bool) :
    (tpOptimizeFrom env tp n x hitPeaks hitNonTangent).queue.EndsAtRest := by
  refine (tpOptimizeFrom_invariant env (I := fun u y => u.queue.WF ∧ u.queue.EndsAtRest ∧ 1 ≤ y) ?_ ?_ n
    ⟨hw, h, hx⟩ hitPeaks hitNonTangent).elim fun _ hinv => hinv.2.1
  · rintro u y ⟨hw, h, hy⟩
    exact ⟨hw, h, by omega⟩
  · rintro u y tc prevTc depth ⟨hw, h, hy⟩ htc hprev - - -
    have hin := (lt_of_tcqItem htc).1
    have hinPrev := (lt_of_tcqItem hprev).1
    obtain ⟨maxvel, finalvel, prevFinalvel, atMax, heq, -, hfinal⟩ := tpOptimizePair_eq env u tc prevTc
    rw [heq]
    dsimp only
    -- only the first pair of the pass has the last segment in it, as its second one
    have hzero : u.queue.len - y = u.queue.len - 1 → finalvel = 0 := by
      intro hlast
      rcases hfinal with hkept | hzero
      · refine hkept.trans (h tc ?_)
        rw [tcqLast_eq_item hw, ← hlast]
        exact htc
      · exact hzero
    have hbefore : u.queue.len - y - 1 = u.queue.len - 1 → prevFinalvel = 0 := fun hlast => by omega
    have hset := h.setItem hw hin { tc with
      maxvel := maxvel, finalvel := finalvel, activeDepth := depth } hzero
    have hboth := hset.setItem (setItem_wf hw _ _) hinPrev { prevTc with
      finalvel := prevFinalvel, optimizationAtMax := atMax } hbefore
    exact ⟨setItem_wf (setItem_wf hw _ _) _ _, hboth, by omega⟩

theorem Tp.Stops.optimize {tp : Tp K} (h : tp.Stops) (env : TpEnv K) : (tpRunOptimization env tp).Stops := by
  obtain ⟨q, heq, hq⟩ := tpRunOptimization_sameEnd env tp
  refine ⟨?_, ?_, tpOptimizeFrom_endsAtRest env _ h.wf h.last le_rfl _ _⟩
  · rw [heq]
    exact hq.wf h.wf
  · rw [heq]
    exact h.forward

/-- A join writes nothing but the last segment, and of that neither the geometry nor the final velocity. -/
theorem tpJoinLast_cases {tp : Tp K} (hw : tp.queue.WF) (tc : Tc K) : (tpJoinLast tp tc).1 = tp ∨
    ∃ prevTc maxvel accRatioTan cond, tcqLast tp.queue = some prevTc ∧
      tcqItem tp.queue (tp.queue.len - 1) = some prevTc ∧
      (tpJoinLast tp tc).1 = { tp with queue := tp.queue.setItem (tp.queue.len - 1) { prevTc with
        maxvel := maxvel, accRatioTan := accRatioTan, finalized := true, termCond := cond } } := by
  cases hlast : tcqLast tp.queue with
  | none =>
    left
    rw [tpJoinLast_none hlast]
  | some prevTc =>
    right
    obtain ⟨maxvel, accRatioTan, cond, heq, -⟩ := joinedLast_eq prevTc tc
    have hitem := hlast
    rw [tcqLast_eq_item hw] at hitem
    have hin := (lt_of_tcqItem hitem).1
    refine ⟨prevTc, maxvel, accRatioTan, cond, rfl, hitem, ?_⟩
    rw [tpJoinLast_some hlast, setLast_eq_setItem hw (by omega), heq]

theorem Tp.Stops.join {tp : Tp K} (h : tp.Stops) (tc : Tc K) : (tpJoinLast tp tc).1.Stops := by
  rcases tpJoinLast_cases h.wf tc with heq | ⟨prevTc, _, _, _, hlast, hitem, heq⟩
  · rw [heq]
    exact h
  · rw [heq]
    exact ⟨setItem_wf h.wf _ _, h.forward, h.last.setItem h.wf (lt_of_tcqItem hitem).1 _ fun _ => h.last prevTc hlast⟩

/-- A new segment is built with the final velocity zero. -/
theorem Tp.Stops.add {tp : Tp K} (h : tp.Stops) {tc : Tc K} (htc : tc.finalvel = 0) :
    (tpAddSegmentToQueue tp tc true).1.Stops := by
  cases hput : tcqPut tp.queue { tc with id := tp.nextId } with
  | none =>
    rw [tpAddSegmentToQueue_full hput]
    exact h
  | some q =>
    rw [tpAddSegmentToQueue_put hput]
    obtain ⟨hw, -⟩ := tcqPut_wf h.wf hput
    refine ⟨hw, h.forward, ?_⟩
    intro last hlast
    have hnew : tcqLast q = some { tc with id := tp.nextId } := tcqPut_last h.wf hput
    change tcqLast q = some last at hlast
    rw [hnew] at hlast
    cases hlast
    exact htc

theorem Tp.Stops.addLine {tp : Tp K} (h : tp.Stops) (env : TpEnv K) (stop : EmcPose K) (canonMotionType : Int)
    (vel iniMaxvel acc : K) (enables : UInt8) (atspeed : Bool) (indexerJnum : Int) :
    (tpAddLine env tp stop canonMotionType vel iniMaxvel acc enables atspeed indexerJnum).1.Stops := by
  unfold tpAddLine
  split
  · exact h
  · dsimp only
    split
    · exact h
    · unfold tpQueueSegment
      dsimp only
      refine ((h.join _).add ?_).optimize env
      obtain ⟨_, heq⟩ := tpJoinLast_next tp { tcClampVelocityByLength
        { tpLineSegment tp stop canonMotionType vel iniMaxvel acc enables atspeed with
          nominalLength := (tpLineSegment tp stop canonMotionType vel iniMaxvel acc enables atspeed).target } with
        indexerJnum := indexerJnum }
      rw [heq]
      rfl

theorem Tcq.EndsAtRest.cells {p q : Tcq (Tc K)} (h : p.EndsAtRest) (hq : p.Cells Tc.Cycled q) : q.EndsAtRest := by
  intro tc htc
  obtain ⟨tc₀, hlast, hcycled⟩ := hq.last htc
  exact (hcycled.keeps Tc.finalvel fun _ => rfl).trans (h tc₀ hlast)

theorem Tcq.EndsAtRest.pop {q q' : Tcq (Tc K)} (h : q.EndsAtRest) (hw : q.WF) (hpop : tcqPop q = some q') :
    q'.EndsAtRest := by
  have hpos := len_pos_of_tcqPop hw hpop
  by_cases hzero : q'.len = 0
  · exact endsAtRest_empty hzero
  · intro tc htc
    rw [tcqPop_last hpop hzero (by omega)] at htc
    exact h tc htc

/-- A cycle keeps the final velocities, and what it removes is at the head of the queue. -/
theorem Tp.Stops.cycle {tp : Tp K} (h : tp.Stops) (env : TpEnv K) : (tpRunCycle env tp).Stops := by
  have hresult := tpRunCycle_result env tp
  generalize tpRunCycle env tp = tp' at hresult
  cases hresult with
  | emptied hqueue hreverse hspindle =>
    refine ⟨?_, ?_, ?_⟩
    · rw [hqueue]
      exact tcqInit_wf (Nat.lt_of_le_of_lt (Nat.zero_le _) h.wf.start_lt)
    · cases hr : tp'.reverseRun with
      | false => rfl
      | true =>
        have := hreverse hr
        rw [h.forward] at this
        cases this
    · rw [hqueue]
      exact endsAtRest_empty rfl
  | advanced ha => exact ⟨ha.cells.wf h.wf, ha.reverseRun.trans h.forward, h.last.cells ha.cells⟩
  | popped ha hq hqueue hgoal hreverse hspindle =>
    rw [h.forward, if_neg Bool.false_ne_true] at hqueue
    obtain ⟨hw, -⟩ := tcqPop_wf (hq.wf h.wf) hqueue
    exact ⟨hw, hreverse.trans (ha.reverseRun.trans h.forward), (h.last.cells hq).pop (hq.wf h.wf) hqueue⟩

/-! ### Runs -/

theorem Tp.Stops.call {tp : Tp K} (h : tp.Stops) (c : TpCall K) : (c.run tp).Stops := by
  cases c with
  | addLine env stop canonMotionType vel iniMaxvel acc enables atspeed indexerJnum => exact h.addLine _ _ _ _ _ _ _ _ _
  | runCycle env => exact h.cycle env
  | pause => exact h.congr rfl rfl
  | resume => exact h.congr rfl rfl
  | abort => exact h.congr (tpAbort_sameCore tp).queue (tpAbort_sameCore tp).reverseRun
  | setCycleTime secs =>
    show (tpSetCycleTime tp secs).Stops
    unfold tpSetCycleTime
    split
    · exact h
    · exact h.congr rfl rfl
  | setVlimit vLimit => exact h.congr rfl rfl
  | setId id => exact h.congr (tpSetId_spec tp id).1.queue (tpSetId_spec tp id).1.reverseRun
  | setPos pos =>
    show (tpSetPos tp pos).Stops
    unfold tpSetPos
    split
    · exact h.congr rfl rfl
    · exact h
  | setSpindleSync spindle sync velocityMode =>
    have hcore := tpSetSpindleSync_sameCore tp spindle sync velocityMode
    exact h.congr hcore.queue hcore.reverseRun

theorem tpInit_stops {tp : Tp K} (h : 0 < tp.queue.size) : (tpInit tp).Stops :=
  ⟨tcqInit_wf h, rfl, endsAtRest_empty rfl⟩

theorem Tp.Stops.run {tp tp' : Tp K} (h : tp.Stops) (hrun : Reaches TpStep tp tp') : tp'.Stops := by
  refine hrun.invariant ?_ h
  rintro u c v hu rfl
  exact hu.call c

/-! ### The final velocity -/

/-- Without a next segment the final velocity is capped by the velocity of the segment itself. -/
theorem tpGetRealFinalVel_last {env : TpEnv ℝ} {tp : Tp ℝ} {tc : Tc ℝ} (hforward : tp.reverseRun = false)
    (hrest : tc.finalvel = 0) : tpGetRealFinalVel env tp tc none =
      if env.stepping = true ∨ tc.termCond ≠ .tangent then 0 else min 0 (tpGetRealTargetVel env tp tc) := by
  unfold tpGetRealFinalVel
  rw [hforward, Bool.or_false, hrest]
  by_cases hstep : env.stepping = true ∨ tc.termCond ≠ .tangent
  · have hcond : (env.stepping || tc.termCond != .tangent) = true := by
      rw [Bool.or_eq_true, bne_iff_ne]
      exact hstep
    rw [if_pos hcond, if_pos hstep]
  · have hcond : ¬ (env.stepping || tc.termCond != .tangent) = true := by
      rw [Bool.or_eq_true, bne_iff_ne]
      exact hstep
    rw [if_neg hcond, if_neg hstep]
    exact fmin_real _ _

/-- What the planner reads while nothing is overridden. -/
def plainEnv : TpEnv ℝ where
  netFeedScale := 1
  stepping := false
  enablesNew := 0
  maxAxisScale := 1
  arcBlendOptDepth := 50
  arcBlendRampFreq := 20
  isUnlocked := fun _ => false

/-- A line of one unit that is asked for with a negative velocity. -/
theorem backwardLine_queued : ∃ tp tc, Reaches TpStep (tpInit (zeroTp : Tp ℝ)) tp ∧ tcqLast tp.queue = some tc ∧
    tc.finalvel = 0 ∧ tc.termCond = .tangent ∧ tp.reverseRun = false ∧ tpGetRealTargetVel plainEnv tp tc < 0 := by
  have hsound : (tpInit zeroTp : Tp ℝ).Sound :=
    ⟨tcqInit_wf (by show 0 < 2000; decide), by show 1 < 2000; decide, rfl, rfl⟩
  have hidle : (tpInit zeroTp : Tp ℝ).Idle := ⟨rfl, rfl, rfl, rfl⟩
  obtain ⟨stop, hstop⟩ : ∃ stop : EmcPose ℝ, stop.tran = ⟨((1 : Int) : ℝ), 0, 0⟩ :=
    ⟨{ emcPoseZero with tran := _ }, rfl⟩
  have hfresh := freshLine_queued hidle rfl le_rfl hstop 2 (-1) 5 5 0 false (-1)
  have hlong : ¬ (tpLineSegment (tpInit zeroTp) stop 2 (-1) 5 5 0 false).target < tpPosEpsilon := by
    rw [show (tpLineSegment (tpInit zeroTp) stop 2 (-1) 5 5 0 false).target = ((1 : Int) : ℝ) from hfresh.target,
      Int.cast_one]
    exact lt_irrefl 1
  obtain ⟨tp, hadd, hitem, hlen, habort, -⟩ := tpAddLine_idle hsound hidle rfl hlong plainEnv (-1)
  have hcall : tp = (TpCall.addLine plainEnv stop 2 (-1) 5 5 0 false (-1)).run (tpInit zeroTp) := by
    show tp = (tpAddLine plainEnv (tpInit zeroTp) stop 2 (-1) 5 5 0 false (-1)).1
    rw [hadd]
  have hrun : Reaches TpStep (tpInit zeroTp) tp := (Reaches.refl (tpInit zeroTp)).tail hcall
  have hstops := (@tpInit_stops ℝ _ zeroTp (by show 0 < 2000; decide)).run hrun
  have happend := tpAddLine_result plainEnv (tpInit zeroTp) stop 2 (-1) 5 5 0 false (-1)
  rw [hadd] at happend
  have hpausing : tp.pausing = false := by
    cases happend <;> rfl
  obtain ⟨tc, htc⟩ : ∃ tc, tc = queuedLine (tpInit zeroTp)
      (tpLineSegment (tpInit zeroTp) stop 2 (-1) 5 5 0 false) (-1) :=
    ⟨_, rfl⟩
  rw [← htc] at hitem hfresh
  have hlast : tcqLast tp.queue = some tc := (tcqLast_single hstops.wf hlen).trans hitem
  refine ⟨tp, tc, hrun, hlast, hstops.last tc hlast, hfresh.termCond, hstops.forward, ?_⟩
  have hscale : tpGetFeedScale plainEnv tp tc = 1 := by
    unfold tpGetFeedScale
    rw [hpausing, habort, hfresh.synchronized, htc]
    rfl
  have hreq : tc.reqvel = -1 := by rw [htc]; rfl
  unfold tpGetRealTargetVel
  rw [hfresh.synchronized, hscale, fmin_real]
  refine (min_le_left _ _).trans_lt ?_
  rw [if_pos (by decide), hreq]
  norm_num

/-- However the planner is used, its last segment has the final velocity zero, and the velocity it is given at its end
is zero unless its own target velocity is negative. -/
theorem lastSegment_stops {tp₀ tp : Tp ℝ} (hsize : 0 < tp₀.queue.size)
    (hrun : Reaches TpStep (tpInit tp₀) tp) {tc : Tc ℝ}
    (hlast : tcqLast tp.queue = some tc) :
    tc.finalvel = 0 ∧ ∀ env, tpGetRealFinalVel env tp tc none ≤ 0 ∧
      (tpGetRealFinalVel env tp tc none = 0 ↔
        env.stepping = true ∨ tc.termCond ≠ .tangent ∨ 0 ≤ tpGetRealTargetVel env tp tc) := by
  have hstops := (tpInit_stops hsize).run hrun
  have hrest := hstops.last tc hlast
  refine ⟨hrest, fun env => ?_⟩
  rw [tpGetRealFinalVel_last hstops.forward hrest]
  by_cases hstep : env.stepping = true ∨ tc.termCond ≠ .tangent
  · rw [if_pos hstep]
    exact ⟨le_rfl, iff_of_true rfl (or_assoc.1 (.inl hstep))⟩
  · rw [if_neg hstep, ← or_assoc, or_iff_right hstep, min_eq_left_iff]
    exact ⟨min_le_left _ _, Iff.rfl⟩

theorem backwardLine_stops : ∃ tp : Tp ℝ, ∃ tc, Reaches TpStep (tpInit zeroTp) tp ∧ tcqLast tp.queue = some tc ∧
    tc.finalvel = 0 ∧ tpGetRealFinalVel plainEnv tp tc none ≤ 0 := by
  obtain ⟨tp, tc, hrun, hlast, -⟩ := backwardLine_queued
  obtain ⟨hrest, hend⟩ := lastSegment_stops (by show 0 < 2000; decide) hrun hlast
  exact ⟨tp, tc, hrun, hlast, hrest, (hend plainEnv).1⟩

theorem backwardLine_backs : ∃ tp : Tp ℝ, ∃ tc, Reaches TpStep (tpInit zeroTp) tp ∧ tcqLast tp.queue = some tc ∧
    tpGetRealFinalVel plainEnv tp tc none < 0 := by
  obtain ⟨tp, tc, hrun, hlast, hrest, hterm, hforward, htarget⟩ := backwardLine_queued
  refine ⟨tp, tc, hrun, hlast, ?_⟩
  have hmoving : ¬ (plainEnv.stepping = true ∨ tc.termCond ≠ .tangent) := by
    rintro (h | h)
    · cases h
    · exact h hterm
  rw [tpGetRealFinalVel_last hforward hrest, if_neg hmoving]
  exact (min_le_right _ _).trans_lt htarget

end SoemMotion
