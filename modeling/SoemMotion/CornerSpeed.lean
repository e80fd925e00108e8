import SoemMotion.LineCycle
import SoemMotion.QueueEnd
import SoemMotion.Vectors

/-!
# Velocities at corners

The pass over the queue plans a velocity for the end of every line that has a successor.  The tangency test that would
limit it to what the corner allows belongs to the arc blending and never runs, so the two velocity limits are all that
holds it down: a corner is slow enough in a run whose lines are slow enough for their corners, or stop at them.
-/

namespace SoemMotion

open Lib

/-! ### Corners -/

/-- If `a` and `b` are lines of different directions, crossing from `a` to `b` at the velocity `v` changes the velocity
by no more than the acceleration of `a` allows in the time `T`. -/
def CornerAllows (T : ℝ) (a b : Tc ℝ) (v : ℝ) : Prop :=
  ∀ la lb, a.coords = .line la → b.coords = .line lb → la.xyz.uVec ≠ lb.xyz.uVec →
    pmCartMag (pmCartCartSub (pmCartScalMult lb.xyz.uVec v) (pmCartScalMult la.xyz.uVec v)) ≤ a.maxaccel * T

/-- The planned final velocities of all queued lines are slow enough for their corners. -/
def Tp.CornersSlow (tp : Tp ℝ) : Prop :=
  ∀ n a b, tcqItem tp.queue n = some a → tcqItem tp.queue (n + 1) = some b → CornerAllows tp.cycleTime a b a.finalvel

/-- The change of velocity at a corner is proportional to the speed. -/
theorem cornerChange_eq (u w : PmCartesian ℝ) (v : ℝ) :
    pmCartMag (pmCartCartSub (pmCartScalMult w v) (pmCartScalMult u v)) = |v| * pmCartMag (pmCartCartSub w u) := by
  rw [pmCartMag_real, pmCartMag_real, ← Real.sqrt_sq_eq_abs, ← Real.sqrt_mul (sq_nonneg v)]
  congr 1
  simp only [pmCartCartSub, pmCartScalMult]
  ring

theorem CornerAllows.mono {T v w : ℝ} {a b : Tc ℝ} (h : CornerAllows T a b w) (hv : |v| ≤ |w|) :
    CornerAllows T a b v := by
  intro la lb ha hb hne
  have hw := h la lb ha hb hne
  rw [cornerChange_eq] at hw ⊢
  exact (mul_le_mul_of_nonneg_right hv (by rw [pmCartMag_real]; exact Real.sqrt_nonneg _)).trans hw

/-! ### The pass -/

section Pass

variable {K : Type} [Arith K]

/-- What holds the velocity at the end of `prevTc` down: the two velocity limits, or while the next segment may still be
cut short, the velocity it can be stopped from. -/
def cornerLimit (env : TpEnv K) (tp : Tp K) (tc prevTc : Tc K) : K :=
  if tc.finalized then fmin tc.maxvel prevTc.maxvel
  else fmin prevTc.maxvel (tpCalculateOptimizationInitialVel env tp tc)

/-- The pass plans a velocity for the end of the segment. -/
structure Tc.Planned (tc : Tc K) : Prop where
  tangent : tc.termCond = .tangent
  early : ¬ blendDistFraction / 2 ≤ tc.progress / tc.target
  whole : tc.splitting = false ∧ tc.blendingNext = false

end Pass

/-- The corner allows a stop, and the limit of the velocity the pass may plan. -/
structure CornerPlanned (env : TpEnv ℝ) (tp : Tp ℝ) (a b : Tc ℝ) : Prop where
  stop : CornerAllows tp.cycleTime a b 0
  planned : a.Planned → CornerAllows tp.cycleTime a b (cornerLimit env tp b a)

theorem abs_min_le {x y : ℝ} (h : 0 ≤ y) : |min x y| ≤ |x| := by
  rcases le_total x y with hxy | hxy
  · rw [min_eq_left hxy]
  · rw [min_eq_right hxy, abs_of_nonneg h]
    exact hxy.trans (le_abs_self x)

/-- The velocity the pass plans is within the limit. -/
theorem tpOptimizePair_limit (env : TpEnv ℝ) (tp : Tp ℝ) (tc prevTc : Tc ℝ) :
    |(tpOptimizePair env tp tc prevTc).2.finalvel| ≤ |cornerLimit env tp tc prevTc| := by
  obtain ⟨t, ht, hinit⟩ : ∃ t, (if tc.atspeed = true then { tc with finalvel := 0 } else tc) = t ∧
      t.finalized = tc.finalized ∧ t.maxvel = tc.maxvel ∧ tpCalculateOptimizationInitialVel env tp t =
        tpCalculateOptimizationInitialVel env tp tc := by
    split <;> exact ⟨_, rfl, rfl, rfl, rfl⟩
  obtain ⟨hfin, hmax, hinit⟩ := hinit
  unfold tpOptimizePair cornerLimit
  dsimp only
  rw [ht, hfin]
  -- a final segment is planned with the limits it has, any other with the worst case
  cases tc.finalized with
  | true =>
    rw [if_pos rfl, if_pos rfl]
    unfold tpComputeOptimalVelocity
    dsimp only
    rw [hmax]
    obtain ⟨limit, hlimit, hle⟩ : ∃ limit, fmin tc.maxvel (if 0 ≤ prevTc.kinkVel ∧ prevTc.termCond = .tangent then
        fmin prevTc.maxvel prevTc.kinkVel else prevTc.maxvel) = limit ∧ |limit| ≤ |fmin tc.maxvel prevTc.maxvel| := by
      refine ⟨_, rfl, ?_⟩
      split
      · rename_i hkink
        rw [fmin_real, fmin_real, fmin_real, ← min_assoc]
        exact abs_min_le hkink.1
      · exact le_rfl
    rw [hlimit]
    split
    · exact hle
    · rename_i hback
      refine le_trans ?_ hle
      show |pmSqrt _| ≤ |limit|
      rw [pmSqrt_real] at hback ⊢
      rw [abs_of_nonneg (Real.sqrt_nonneg _)]
      exact (not_le.1 hback).le.trans (le_abs_self limit)
  | false =>
    rw [if_neg Bool.false_ne_true, if_neg Bool.false_ne_true, hinit]
    dsimp only
    split
    · rename_i hkink
      rw [fmin_real _ prevTc.kinkVel]
      exact abs_min_le hkink.1
    · exact le_rfl

/-- What a turn that writes its pair back leaves in the queue. -/
theorem setPair_item {K : Type} {q : Tcq K} (hw : q.WF) {n : Int} {prevTc tc : K}
    (hprev : tcqItem q (n - 1) = some prevTc)
    (htc : tcqItem q n = some tc) (prevTc' tc' : K) (k : Int) :
    tcqItem ((q.setItem n tc').setItem (n - 1) prevTc') k =
      if k = n - 1 then some prevTc' else if k = n then some tc' else tcqItem q k := by
  rw [setItem_item (setItem_wf hw n tc') (lt_of_tcqItem hprev).1, setItem_item hw (lt_of_tcqItem htc).1]

/-- Writing the pair of a turn back into the queue. -/
theorem CornersSlow.setPair {T : ℝ} {q : Tcq (Tc ℝ)} (hw : q.WF)
    (h : ∀ n a b, tcqItem q n = some a → tcqItem q (n + 1) = some b → CornerAllows T a b a.finalvel) {n : Int}
    {prevTc tc prevTc' tc' : Tc ℝ} (hprev : tcqItem q (n - 1) = some prevTc) (htc : tcqItem q n = some tc)
    (hprev' : prevTc'.coords = prevTc.coords ∧ prevTc'.maxaccel = prevTc.maxaccel)
    (htc' : tc'.coords = tc.coords ∧ tc'.maxaccel = tc.maxaccel ∧ |tc'.finalvel| ≤ |tc.finalvel|)
    (hallows : CornerAllows T prevTc tc prevTc'.finalvel) {m : Int} {a b : Tc ℝ}
    (ha : tcqItem ((q.setItem n tc').setItem (n - 1) prevTc') m = some a)
    (hb : tcqItem ((q.setItem n tc').setItem (n - 1) prevTc') (m + 1) = some b) : CornerAllows T a b a.finalvel := by
  rw [setPair_item hw hprev htc] at ha hb
  -- of each of the two segments only the geometry, the acceleration and the speed count
  obtain ⟨a₀, ha₀, hcoords, haccel⟩ :
    ∃ a₀, tcqItem q m = some a₀ ∧ a.coords = a₀.coords ∧ a.maxaccel = a₀.maxaccel := by
    split at ha
    · rename_i hm
      cases ha
      exact ⟨prevTc, hm ▸ hprev, hprev'⟩
    · split at ha
      · rename_i hm
        cases ha
        exact ⟨tc, hm ▸ htc, htc'.1, htc'.2.1⟩
      · exact ⟨a, ha, rfl, rfl⟩
  obtain ⟨b₀, hb₀, hcoordsb⟩ : ∃ b₀, tcqItem q (m + 1) = some b₀ ∧ b.coords = b₀.coords := by
    split at hb
    · rename_i hm
      cases hb
      exact ⟨prevTc, hm ▸ hprev, hprev'.1⟩
    · split at hb
      · rename_i hm
        cases hb
        exact ⟨tc, hm ▸ htc, htc'.1⟩
      · exact ⟨b, hb, rfl⟩
  have hslow : CornerAllows T a₀ b₀ a.finalvel := by
    split at ha
    · rename_i hm
      cases ha
      subst hm
      rw [sub_add_cancel, htc] at hb₀
      cases hprev.symm.trans ha₀
      cases hb₀
      exact hallows
    · split at ha
      · rename_i hm
        cases ha
        subst hm
        cases htc.symm.trans ha₀
        exact (h _ _ b₀ htc hb₀).mono htc'.2.2
      · cases ha.symm.trans ha₀
        exact h m a b₀ ha hb₀
  intro la lb hla hlb hne
  rw [haccel]
  exact hslow la lb (hcoords ▸ hla) (hcoordsb ▸ hlb) hne

/-- The pass keeps the corners slow whose limits are slow enough. -/
theorem tpOptimizeFrom_cornersSlow (env : TpEnv ℝ) (n : Nat)
    {tp : Tp ℝ} (hw : tp.queue.WF) (h : tp.CornersSlow) {x : Int}
    (hplan : ∀ m a b, m + 1 ≤ tp.queue.len - x → tcqItem tp.queue m = some a → tcqItem tp.queue (m + 1) = some b →
      CornerPlanned env tp a b) (hitPeaks : Int) (hitNonTangent : Bool) :
    (tpOptimizeFrom env tp n x hitPeaks hitNonTangent).CornersSlow := by
  refine (tpOptimizeFrom_invariant env (I := fun u y => u.queue.WF ∧ u.CornersSlow ∧
    ∀ m a b, m + 1 ≤ u.queue.len - y → tcqItem u.queue m = some a → tcqItem u.queue (m + 1) = some b →
      CornerPlanned env u a b) ?_ ?_ n ⟨hw, h, hplan⟩ hitPeaks hitNonTangent).elim fun _ hinv => hinv.2.1
  · rintro u y ⟨hw, h, hplan⟩
    exact ⟨hw, h, fun m a b hm => hplan m a b (by omega)⟩
  · rintro u y tc prevTc depth ⟨hw, h, hplan⟩ htc hprev htangent hearly hwhole
    rw [Bool.or_eq_true, not_or, Bool.not_eq_true, Bool.not_eq_true] at hwhole
    have hpair := hplan (tcqLen u.queue - y - 1) prevTc tc (by unfold tcqLen; omega) hprev
      (by rw [sub_add_cancel]; exact htc)
    have hallows := (hpair.planned ⟨htangent, hearly, hwhole⟩).mono (tpOptimizePair_limit env u tc prevTc)
    obtain ⟨maxvel, finalvel, prevFinalvel, atMax, heq, -, hfinal⟩ := tpOptimizePair_eq env u tc prevTc
    rw [heq] at hallows ⊢
    dsimp only at hallows ⊢
    refine ⟨setItem_wf (setItem_wf hw _ _) _ _, ?_, ?_⟩
    · intro m a b ha hb
      refine @CornersSlow.setPair _ _ hw h _ prevTc tc { prevTc with
        finalvel := prevFinalvel, optimizationAtMax := atMax } { tc with
        maxvel := maxvel, finalvel := finalvel, activeDepth := depth } hprev htc ⟨rfl, rfl⟩
        ⟨rfl, rfl, ?_⟩ hallows _ _ _ ha hb
      rcases hfinal with hkept | hzero
      · exact (congrArg abs hkept).le
      · show |finalvel| ≤ |tc.finalvel|
        rw [hzero, abs_zero]
        exact abs_nonneg _
    · -- the pairs before this one still have the limits they had
      intro m a b hm ha hb
      change m + 1 ≤ u.queue.len - (y + 1) at hm
      have hin := (lt_of_tcqItem htc).1
      have hin' := (lt_of_tcqItem hprev).1
      have hout : ¬ m = tcqLen u.queue - y ∧ ¬ m = tcqLen u.queue - y - 1 ∧
          ¬ m + 1 = tcqLen u.queue - y := by
        unfold tcqLen
        omega
      rw [setItem_item (setItem_wf hw _ _) hin', if_neg hout.2.1, setItem_item hw hin, if_neg hout.1] at ha
      rw [setItem_item (setItem_wf hw _ _) hin', setItem_item hw hin, if_neg hout.2.2] at hb
      split at hb
      · rename_i hmp
        cases hb
        have hold := hplan m a prevTc (by omega) ha (hmp ▸ hprev)
        exact ⟨hold.stop, hold.planned⟩
      · have hold := hplan m a b (by omega) ha hb
        exact ⟨hold.stop, hold.planned⟩

/-! ### Calls -/

/-- The same geometry, acceleration and final velocity. -/
def Tc.SameCorner (a b : Tc ℝ) : Prop := b.coords = a.coords ∧ b.maxaccel = a.maxaccel ∧ b.finalvel = a.finalvel

theorem Tc.Cycled.sameCorner {a b : Tc ℝ} (h : a.Cycled b) : a.SameCorner b :=
  ⟨h.keeps Tc.coords fun _ => rfl, h.keeps Tc.maxaccel fun _ => rfl, h.keeps Tc.finalvel fun _ => rfl⟩

theorem Tp.CornersSlow.cells {tp tp' : Tp ℝ} (h : tp.CornersSlow) (hq : tp.queue.Cells Tc.SameCorner tp'.queue)
    (htime : tp'.cycleTime = tp.cycleTime) : tp'.CornersSlow := by
  intro n a b ha hb
  obtain ⟨a₀, ha₀, hcoords, haccel, hfinal⟩ := hq.item ha
  obtain ⟨b₀, hb₀, hcoordsb, -⟩ := hq.item hb
  intro la lb hla hlb hne
  rw [htime, haccel, hfinal]
  exact h n a₀ b₀ ha₀ hb₀ la lb (hcoords ▸ hla) (hcoordsb ▸ hlb) hne

theorem Tp.CornersSlow.congr {tp tp' : Tp ℝ} (h : tp.CornersSlow) (hqueue : tp'.queue = tp.queue)
    (htime : tp'.cycleTime = tp.cycleTime) : tp'.CornersSlow :=
  h.cells (by rw [hqueue]; exact Tcq.Cells.refl (fun _ => ⟨rfl, rfl, rfl⟩) _) htime

theorem cornersSlow_of_empty {tp : Tp ℝ} (h : tp.queue.len = 0) : tp.CornersSlow := by
  intro n a b ha
  have := (lt_of_tcqItem ha).1
  omega

/-- A join keeps the final velocity of the last segment. -/
theorem Tp.CornersSlow.join {tp : Tp ℝ} (h : tp.CornersSlow) (hs : tp.Stops) (tc : Tc ℝ) :
    (tpJoinLast tp tc).1.CornersSlow := by
  rcases tpJoinLast_cases hs.wf tc with heq | ⟨prevTc, _, _, _, -, hitem, heq⟩
  · rw [heq]
    exact h
  · rw [heq]
    refine h.cells ?_ rfl
    exact (Tcq.Cells.refl (fun _ => ⟨rfl, rfl, rfl⟩) tp.queue).setItem hitem ⟨rfl, rfl, rfl⟩

/-- The line before a new segment still ends at rest. -/
theorem Tp.CornersSlow.enqueue {tp : Tp ℝ} (h : tp.CornersSlow) (hs : tp.Stops) (tc : Tc ℝ)
    (hstop : ∀ n a b, tcqItem (tpEnqueue tp tc).queue n = some a → tcqItem (tpEnqueue tp tc).queue (n + 1) = some b →
      CornerAllows tp.cycleTime a b 0) : (tpEnqueue tp tc).CornersSlow := by
  have hslow := h.join hs tc
  have hjoined := hs.join tc
  obtain ⟨q, hjoin, -⟩ := tpJoinLast_spec tp tc
  unfold tpEnqueue at hstop ⊢
  cases hput : tcqPut (tpJoinLast tp tc).1.queue { (tpJoinLast tp tc).2 with id := (tpJoinLast tp tc).1.nextId } with
  | none =>
    rw [tpAddSegmentToQueue_full hput]
    exact hslow
  | some q' =>
    rw [tpAddSegmentToQueue_put hput] at hstop ⊢
    intro n a b ha hb
    have hzero := hstop n a b ha hb
    change tcqItem q' n = some a at ha
    change tcqItem q' (n + 1) = some b at hb
    rw [tcqPut_item hjoined.wf hput] at ha hb
    have htime : (tpJoinLast tp tc).1.cycleTime = tp.cycleTime := by rw [hjoin]
    show CornerAllows (tpJoinLast tp tc).1.cycleTime a b a.finalvel
    split at ha
    · rename_i hn
      rw [if_neg (by omega)] at hb
      have := (lt_of_tcqItem hb).1
      omega
    · split at hb
      · rename_i hn
        have hlast : tcqLast (tpJoinLast tp tc).1.queue = some a := by
          rw [tcqLast_eq_item hjoined.wf, ← hn, add_sub_cancel_right]
          exact ha
        rw [hjoined.last a hlast, htime]
        exact hzero
      · exact hslow n a b ha hb

/-- What a call needs for slow corners: all corners of the queue with the new line allow a stop, and where the pass
plans a velocity, its limit; and the cycle time stays. -/
def TpCall.CornersAllowed (tp : Tp ℝ) : TpCall ℝ → Prop
  | .addLine env stop canonMotionType vel iniMaxvel acc enables atspeed indexerJnum =>
    let tc := newLine tp stop canonMotionType vel iniMaxvel acc enables atspeed indexerJnum
    tp.aborting = false → tpPosEpsilon ≤ tc.target → ∀ n a b, tcqItem (tpEnqueue tp tc).queue n = some a →
      tcqItem (tpEnqueue tp tc).queue (n + 1) = some b → CornerPlanned env tp a b
  | .setCycleTime secs => secs ≤ 0 ∨ secs = tp.cycleTime
  | _ => True

theorem Tp.CornersSlow.addLine {tp : Tp ℝ} (h : tp.CornersSlow) (hs : tp.Stops) (env : TpEnv ℝ) (stop : EmcPose ℝ)
    (canonMotionType : Int) (vel iniMaxvel acc : ℝ) (enables : UInt8) (atspeed : Bool) (indexerJnum : Int)
    (hc : (TpCall.addLine env stop canonMotionType vel iniMaxvel acc enables atspeed indexerJnum).CornersAllowed tp) :
    (tpAddLine env tp stop canonMotionType vel iniMaxvel acc enables atspeed indexerJnum).1.CornersSlow := by
  unfold tpAddLine
  split
  · exact h
  · rename_i habort
    dsimp only
    split
    · exact h
    · rename_i hlong
      obtain ⟨tc, htc⟩ : ∃ tc, newLine tp stop canonMotionType vel iniMaxvel acc enables atspeed indexerJnum = tc :=
        ⟨_, rfl⟩
      have hplan : ∀ n a b, tcqItem (tpEnqueue tp tc).queue n = some a →
          tcqItem (tpEnqueue tp tc).queue (n + 1) = some b → CornerPlanned env tp a b := by
        rw [← htc]
        exact hc (Bool.eq_false_iff.2 habort) (not_lt.1 hlong)
      show (tpQueueSegment env tp (newLine tp stop canonMotionType vel iniMaxvel acc enables atspeed
        indexerJnum)).1.CornersSlow
      rw [htc, tpQueueSegment_enqueue]
      have hslow := h.enqueue hs tc fun n a b ha hb => (hplan n a b ha hb).stop
      have hwf : (tpEnqueue tp tc).queue.WF := by
        obtain ⟨q, hjoin, hq, -⟩ := tpJoinLast_spec tp tc
        cases hput : tcqPut q { (tpJoinLast tp tc).2 with id := tp.nextId } with
        | none =>
          rw [tpEnqueue_full hjoin hput]
          exact hq.wf hs.wf
        | some q₁ =>
          rw [tpEnqueue_put hjoin hput]
          exact (tcqPut_wf (hq.wf hs.wf) hput).1
      refine tpOptimizeFrom_cornersSlow env _ hwf hslow ?_ _ _
      intro n a b _ ha hb
      have hpair := hplan n a b ha hb
      obtain ⟨_, _, _, _, _, heq⟩ := tpEnqueue_eq tp tc
      rw [heq]
      exact ⟨hpair.stop, hpair.planned⟩

theorem Tp.CornersSlow.cycle {tp : Tp ℝ} (h : tp.CornersSlow) (hs : tp.Stops) (env : TpEnv ℝ) :
    (tpRunCycle env tp).CornersSlow := by
  have htime := tpRunCycle_cycleTime env tp
  have hresult := tpRunCycle_result env tp
  generalize tpRunCycle env tp = tp' at htime hresult
  cases hresult with
  | emptied hqueue hreverse hspindle =>
    refine cornersSlow_of_empty ?_
    rw [hqueue]
    rfl
  | advanced ha => exact h.cells (ha.cells.mono Tc.Cycled.sameCorner) htime
  | popped ha hq hqueue hgoal hreverse hspindle =>
    rw [hs.forward, if_neg Bool.false_ne_true] at hqueue
    have hcells := @Tp.CornersSlow.cells tp { tp with queue := _ } h (hq.mono Tc.Cycled.sameCorner) rfl
    intro n a b ha hb
    have hn := (lt_of_tcqItem ha).1.1
    rw [tcqPop_item hqueue hn] at ha
    rw [tcqPop_item hqueue (by omega)] at hb
    rw [htime]
    exact hcells (n + 1) a b ha hb

/-! ### Runs -/

theorem Tp.CornersSlow.call {tp : Tp ℝ} (h : tp.CornersSlow) (hs : tp.Stops) (c : TpCall ℝ) (hc : c.CornersAllowed tp) :
    (c.run tp).CornersSlow := by
  cases c with
  | addLine env stop canonMotionType vel iniMaxvel acc enables atspeed indexerJnum =>
    exact h.addLine hs _ _ _ _ _ _ _ _ _ hc
  | runCycle env => exact h.cycle hs env
  | pause => exact h.congr rfl rfl
  | resume => exact h.congr rfl rfl
  | abort =>
    show (tpAbort tp).CornersSlow
    unfold tpAbort
    split
    · exact h
    · exact h.congr rfl rfl
  | setCycleTime secs =>
    show (tpSetCycleTime tp secs).CornersSlow
    unfold tpSetCycleTime
    split
    · exact h
    · rename_i hpos
      exact h.congr rfl (hc.resolve_left hpos)
  | setVlimit vLimit => exact h.congr rfl rfl
  | setId id =>
    show (tpSetId tp id).CornersSlow
    unfold tpSetId
    split
    · exact h
    · exact h.congr rfl rfl
  | setPos pos =>
    obtain ⟨_, _, heq⟩ := tpSetPos_eq tp pos
    show (tpSetPos tp pos).CornersSlow
    rw [heq]
    exact h.congr rfl rfl
  | setSpindleSync spindle sync velocityMode =>
    show (tpSetSpindleSync tp spindle sync velocityMode).CornersSlow
    unfold tpSetSpindleSync
    split
    · exact h.congr rfl rfl
    · exact h.congr rfl rfl

theorem tpInit_cornersSlow (tp : Tp ℝ) (secs : ℝ) : (tpSetCycleTime (tpInit tp) secs).CornersSlow := by
  refine cornersSlow_of_empty ?_
  unfold tpSetCycleTime
  split <;> rfl

/-! ### A right angle -/

/-- The pose with the given translation. -/
noncomputable def cornerPose (x y : ℝ) : EmcPose ℝ := { (emcPoseZero : EmcPose ℝ) with tran := ⟨x, y, 0⟩ }

/-- The planner as the controller sets it up: a cycle time of one second, and a limit no line comes up to. -/
noncomputable def cornerStart : Tp ℝ := tpSetVlimit (tpSetCycleTime (tpInit zeroTp) 1) 1000

/-- The call that appends a line of the given velocity and acceleration. -/
noncomputable def cornerCall (v a : ℝ) (stop : EmcPose ℝ) : TpCall ℝ := .addLine plainEnv stop 2 v v a 0 false (-1)

/-- The planner before the second of two lines at a right angle, each of 100 units. -/
structure CornerReady (v a : ℝ) (tp : Tp ℝ) : Prop where
  stops : tp.Stops
  len : tp.queue.len = 1
  room : tp.queue.allFull = false
  abort : tp.aborting = false
  settings : tp.cycleTime = 1 ∧ tp.vLimit = 1000 ∧ tp.termCond = .tangent ∧ tp.synchronized = .none
  goalPos : tp.goalPos.tran = (cornerPose 100 0).tran
  line : tcqItem tp.queue 0 = some { newLine cornerStart (cornerPose 100 0) 2 v v a 0 false (-1) with id := 0 }

theorem lineLength_corner : lineLength (cornerPose 0 0).tran (cornerPose 100 0).tran = 100 ∧
    lineLength (cornerPose 100 0).tran (cornerPose 100 100).tran = 100 := by
  unfold lineLength pmCartCartSub cornerPose
  rw [pmCartMag_real, pmCartMag_real]
  have h : Real.sqrt 10000 = 100 := by
    rw [show (10000 : ℝ) = 100 ^ 2 by norm_num]
    exact Real.sqrt_sq (by norm_num)
  constructor <;> norm_num [h]

theorem cornerStart_idle : cornerStart.Sound ∧ cornerStart.Idle ∧ cornerStart.cycleTime = 1 ∧
    cornerStart.vLimit = 1000 ∧
    cornerStart.goalPos = emcPoseZero ∧ cornerStart.nextId = 0 := by
  have hsound : (tpInit zeroTp : Tp ℝ).Sound :=
    ⟨tcqInit_wf (by show 0 < 2000; decide), by show 1 < 2000; decide, rfl, rfl⟩
  unfold cornerStart tpSetVlimit tpSetCycleTime
  rw [if_neg (by norm_num), if_neg (by norm_num)]
  exact ⟨⟨hsound.wf, hsound.size, rfl, rfl⟩, ⟨rfl, rfl, rfl, rfl⟩, rfl, rfl, rfl, rfl⟩

theorem cornerReady (v a : ℝ) : CornerReady v a ((cornerCall v a (cornerPose 100 0)).run cornerStart) := by
  obtain ⟨hsound, hidle, htime, hlimit, hgoal, hid⟩ := cornerStart_idle
  have hstart : cornerStart.goalPos.tran = (cornerPose 0 0).tran := by
    rw [hgoal]
    rfl
  obtain ⟨seg, hseg⟩ : ∃ seg, tpLineSegment cornerStart (cornerPose 100 0) 2 v v a 0 false = seg := ⟨_, rfl⟩
  have hline : seg.IsLine (cornerPose 0 0).tran (cornerPose 100 0).tran := by
    rw [← hseg, ← hstart]
    refine tpLineSegment_isLine ?_ _ _ _ _ _ _
    rw [hstart, lineLength_corner.1]
    norm_num
  have hlen : ¬ seg.target < tpPosEpsilon := by
    rw [hline.target, lineLength_corner.1]
    show ¬ (100 : ℝ) < 1
    norm_num
  obtain ⟨tp, hadd, hitem, hone, habort, hgoal'⟩ := tpAddLine_idle hsound hidle hseg hlen plainEnv (-1)
  have hcall : (cornerCall v a (cornerPose 100 0)).run cornerStart = tp := by
    show (tpAddLine plainEnv cornerStart (cornerPose 100 0) 2 v v a 0 false (-1)).1 = tp
    rw [hadd]
  have happend := tpAddLine_result plainEnv cornerStart (cornerPose 100 0) 2 v v a 0 false (-1)
  rw [hadd] at happend
  have hsound' := hsound.append happend
  rw [hcall]
  refine ⟨⟨hsound'.wf, hsound'.forward, ?_⟩, hone, ?_, habort, ?_, ?_, ?_⟩
  · intro tc htc
    rw [tcqLast_single hsound'.wf hone, hitem] at htc
    cases htc
    rw [← hseg]
    rfl
  · rw [Bool.eq_false_iff]
    intro hfull
    have hall : tp.queue.len = tp.queue.size := hsound'.wf.full_iff.1 hfull
    have hsize : 1 < tp.queue.size := hsound'.size
    omega
  · have hkept : tp.cycleTime = cornerStart.cycleTime ∧ tp.vLimit = cornerStart.vLimit ∧
        tp.termCond = cornerStart.termCond ∧ tp.synchronized = cornerStart.synchronized := by
      cases happend <;> exact ⟨rfl, rfl, rfl, rfl⟩
    exact ⟨hkept.1.trans htime, hkept.2.1.trans hlimit, hkept.2.2.1.trans hidle.termCond,
      hkept.2.2.2.trans hidle.synchronized⟩
  · rw [hgoal']
    exact Tc.IsLine.endpoint ⟨hline.long, hline.coords, hline.target⟩ _
  · rw [hitem, ← hseg]
    show some (queuedLine cornerStart _ (-1)) = _
    unfold queuedLine newLine
    rw [hid]

/-- A join that forces no stop only settles the length of the last line. -/
theorem tpJoinLast_line {K : Type} [Arith K] {tp : Tp K} {p c : Tc K} {line : PmLine9 K}
    (hlast : tcqLast tp.queue = some p) (hcoords : p.coords = .line line) (hopen : p.finalized = false)
    (hno : ¬ JoinStops p c) : tpJoinLast tp c =
      ({ tp with queue := tp.queue.setLast { tcClampVelocityByLength p with finalized := true } }, c) := by
  rw [JoinStops, not_or, not_or] at hno
  have hmode : handleModeChange p c = (p, c) := by
    unfold handleModeChange
    rw [if_neg hno.1]
    exact if_neg hno.2.1
  have hfinal : tcFinalizeLength p = { tcClampVelocityByLength p with finalized := true } := by
    unfold tcFinalizeLength tcUpdateCircleAccRatio
    rw [if_neg (by rw [hopen]; exact Bool.false_ne_true)]
    rw [show (tcClampVelocityByLength p).coords = .line line from hcoords]
  unfold tpJoinLast
  rw [hlast]
  dsimp only
  rw [hmode]
  dsimp only
  rw [hfinal]
  obtain ⟨u, hu, hsync⟩ : ∃ u, { tcClampVelocityByLength p with finalized := true } = u ∧
      u.synchronized = p.synchronized := ⟨_, rfl, rfl⟩
  have hflag : tcFlagEarlyStop u c = (u, c) := by
    unfold tcFlagEarlyStop
    rw [hsync, if_neg hno.2.1]
    exact if_neg hno.2.2
  rw [hu, hflag]

/-- A segment that forces no stop is queued after a line that was alone, which is then final. -/
theorem tpEnqueue_second {tp : Tp ℝ} {p c : Tc ℝ} {line : PmLine9 ℝ} (hw : tp.queue.WF) (hlen : tp.queue.len = 1)
    (hroom : tp.queue.allFull = false) (hitem : tcqItem tp.queue 0 = some p) (hcoords : p.coords = .line line)
    (hopen : p.finalized = false) (hno : ¬ JoinStops p c) :
    ∃ q nextId goalPos done depth, tpEnqueue tp c =
        { tp with queue := q, nextId := nextId, goalPos := goalPos, done := done, depth := depth } ∧
      q.WF ∧ q.len = 2 ∧ tcqItem q 0 = some { tcClampVelocityByLength p with finalized := true } ∧
      tcqItem q 1 = some { c with id := tp.nextId } := by
  have hlast : tcqLast tp.queue = some p := (tcqLast_single hw hlen).trans hitem
  have hjoin := tpJoinLast_line hlast hcoords hopen hno
  obtain ⟨q, hq⟩ : ∃ q, q = tp.queue.setLast { tcClampVelocityByLength p with finalized := true } := ⟨_, rfl⟩
  have hqw : q.WF := by
    rw [hq]
    exact setLast_wf hw _
  have hq0 : tcqItem q 0 = some { tcClampVelocityByLength p with finalized := true } := by
    rw [hq, setLast_eq_setItem hw (by omega), hlen]
    exact setItem_self le_rfl (by omega) _
  have hqlen : q.len = 1 := by
    rw [hq]
    exact hlen
  have hnotFull : ¬ q.allFull = true := by
    rw [hq]
    show ¬ tp.queue.allFull = true
    rw [hroom]
    exact Bool.false_ne_true
  obtain ⟨q', hput⟩ : ∃ q', tcqPut q { c with id := tp.nextId } = some q' := ⟨_, if_neg hnotFull⟩
  obtain ⟨hqw', -, hlen', -⟩ := tcqPut_wf hqw hput
  have henqueue : ∃ nextId goalPos done depth, tpEnqueue tp c =
      { tp with queue := q', nextId := nextId, goalPos := goalPos, done := done, depth := depth } := by
    unfold tpEnqueue
    rw [hjoin, ← hq]
    dsimp only
    rw [tpAddSegmentToQueue_put hput]
    exact ⟨_, _, _, _, rfl⟩
  obtain ⟨nextId, goalPos, done, depth, henqueue⟩ := henqueue
  refine ⟨q', nextId, goalPos, done, depth, henqueue, hqw', by omega, ?_, ?_⟩
  · rw [tcqPut_item hqw hput, if_neg (by omega)]
    exact hq0
  · rw [tcqPut_item hqw hput, if_pos hqlen.symm]

section FreshLine

variable {tp : Tp ℝ} {c : Tc ℝ} {p q : PmCartesian ℝ}

/-- A line that is not blended uses its whole acceleration. -/
theorem tcGetTangentialMaxAccel_line (h : c.IsLine p q) (hkink : c.kinkAccelReduce = 0 ∧ c.kinkAccelReducePrev = 0)
    (hblend : c.blendPrev = false ∧ c.termCond = .tangent) : tcGetTangentialMaxAccel c = c.maxaccel := by
  obtain ⟨abc, uvw, hcoords⟩ := h.coords
  unfold tcGetTangentialMaxAccel
  rw [hcoords]
  show tcGetOverallMaxAccel c = c.maxaccel
  unfold tcGetOverallMaxAccel
  rw [hkink.1, hkink.2, hblend.1, hblend.2, fmax_real]
  simp

/-- A line is asked for its own speed, within the limits of the line and of the planner. -/
theorem tpGetMaxTargetVel_line (h : c.IsLine p q) (hsync : c.synchronized = .none) (hblend : c.isBlending = false) :
    tpGetMaxTargetVel plainEnv tp c = min (min c.reqvel c.maxvel) tp.vLimit := by
  obtain ⟨abc, uvw, hcoords⟩ := h.coords
  have hrotary : tcPureRotaryCheck c = false := by
    unfold tcPureRotaryCheck
    rw [hcoords, pmCartLineInit_long h.long]
    rfl
  unfold tpGetMaxTargetVel tcGetMaxTargetVel
  rw [hrotary, hsync, hblend]
  show fmin (fmin (c.reqvel * 1) c.maxvel) tp.vLimit = _
  rw [fmin_real, fmin_real, mul_one]

/-- A new line is entered as fast as its half lets it brake, and within its limits and those of the line before it. -/
theorem cornerLimit_line (h : c.IsLine p q) (hopen : c.finalized = false) (hsync : c.synchronized = .none)
    (hkink : c.kinkAccelReduce = 0 ∧ c.kinkAccelReducePrev = 0) (hblend : c.blendPrev = false ∧ c.termCond = .tangent)
    (hblending : c.isBlending = false) (prev : Tc ℝ) : cornerLimit plainEnv tp c prev =
      min prev.maxvel (min (Real.sqrt (c.maxaccel * c.target)) (min (min c.reqvel c.maxvel) tp.vLimit)) := by
  unfold cornerLimit
  rw [if_neg (by rw [hopen]; exact Bool.false_ne_true)]
  unfold tpCalculateOptimizationInitialVel findVPeak
  rw [tcGetTangentialMaxAccel_line h hkink hblend, tpGetMaxTargetVel_line h hsync hblending, pmSqrt_real, fmin_real,
    fmin_real]

end FreshLine

/-- Two lines at a right angle before the pass. -/
structure CornerQueued (v a : ℝ) (tp : Tp ℝ) (p c : Tc ℝ) : Prop where
  wf : tp.queue.WF
  len : tp.queue.len = 2
  first : tcqItem tp.queue 0 = some p
  second : tcqItem tp.queue 1 = some c
  planned : p.Planned
  settings : c.finalized = false ∧ p.kinkVel = -1 ∧ p.maxaccel = a
  lines : p.IsLine (cornerPose 0 0).tran (cornerPose 100 0).tran ∧
    c.IsLine (cornerPose 100 0).tran (cornerPose 100 100).tran
  limit : 0 ≤ v → cornerLimit plainEnv tp c p = min (min v 100) (Real.sqrt (a * 100))

theorem CornerReady.enqueue {v a : ℝ} {tp : Tp ℝ} (h : CornerReady v a tp) : ∃ p c,
    CornerQueued v a (tpEnqueue tp (newLine tp (cornerPose 100 100) 2 v v a 0 false (-1))) p c ∧
      (tpEnqueue tp (newLine tp (cornerPose 100 100) 2 v v a 0 false (-1))).cycleTime = 1 := by
  obtain ⟨-, -, hstartTime, -, hgoal, -⟩ := cornerStart_idle
  obtain ⟨htime, hlimit, hterm, hsync⟩ := h.settings
  obtain ⟨p, hp⟩ : ∃ p, p = { newLine cornerStart (cornerPose 100 0) 2 v v a 0 false (-1) with id := 0 } := ⟨_, rfl⟩
  obtain ⟨c, hc⟩ : ∃ c, c = newLine tp (cornerPose 100 100) 2 v v a 0 false (-1) := ⟨_, rfl⟩
  have hitem := h.line
  rw [← hp] at hitem
  have hstart : cornerStart.goalPos.tran = (cornerPose 0 0).tran := by
    rw [hgoal]
    rfl
  have hlineP : p.IsLine (cornerPose 0 0).tran (cornerPose 100 0).tran := by
    have hline := @tpLineSegment_isLine cornerStart (cornerPose 100 0)
      (by rw [hstart, lineLength_corner.1]; norm_num) 2 v v a 0 false
    rw [hstart] at hline
    rw [hp]
    exact ⟨hline.long, hline.coords, hline.target⟩
  have hlineC : c.IsLine (cornerPose 100 0).tran (cornerPose 100 100).tran := by
    have hline := @tpLineSegment_isLine tp (cornerPose 100 100)
      (by rw [h.goalPos, lineLength_corner.2]; norm_num) 2 v v a 0 false
    rw [h.goalPos] at hline
    rw [hc]
    exact ⟨hline.long, hline.coords, hline.target⟩
  have hnone : p.synchronized = .none ∧ c.synchronized = .none := by
    rw [hp, hc]
    exact ⟨cornerStart_idle.2.1.synchronized, hsync⟩
  -- so joining changes nothing of the first line but its clamped velocity
  have hno : ¬ JoinStops p c := by
    rintro (hmode | hposition | hspeed)
    · rw [hp, hc] at hmode
      cases hmode
    · rw [hnone.1, hnone.2] at hposition
      cases hposition
    · rw [hc] at hspeed
      cases hspeed
  obtain ⟨abc, uvw, hcoords⟩ := hlineP.coords
  obtain ⟨q, nextId, goalPos, done, depth, henqueue, hqw, hqlen, hq0, hq1⟩ :=
    tpEnqueue_second h.stops.wf h.len h.room hitem hcoords (by rw [hp]; rfl) hno
  rw [← hc, henqueue]
  refine ⟨{ tcClampVelocityByLength p with finalized := true }, { c with id := tp.nextId }, ⟨hqw, hqlen, hq0, hq1,
    ?_, ?_, ⟨⟨hlineP.long, hlineP.coords, hlineP.target⟩, hlineC.long, hlineC.coords, hlineC.target⟩, ?_⟩, htime⟩
  · refine ⟨?_, ?_, ?_⟩
    · show p.termCond = .tangent
      rw [hp]
      exact cornerStart_idle.2.1.termCond
    · show ¬ (blendDistFraction : ℝ) / 2 ≤ p.progress / p.target
      have hzero : p.progress = 0 := by rw [hp]; rfl
      rw [hzero, zero_div, blendDistFraction]
      norm_num
    · rw [hp]
      exact ⟨rfl, rfl⟩
  · rw [hp, hc]
    exact ⟨rfl, rfl, rfl⟩
  · intro hv
    have hmaxP : ({ tcClampVelocityByLength p with finalized := true } : Tc ℝ).maxvel = min v 100 := by
      have hmax : p.maxvel = fmin v (p.target / p.cycleTime) := by rw [hp]; rfl
      have hcycle : p.cycleTime = 1 := by rw [hp]; exact hstartTime
      show fmin p.maxvel (p.target / p.cycleTime) = _
      rw [hmax, hcycle, hlineP.target, lineLength_corner.1, fmin_real, fmin_real, div_one, min_assoc, min_self]
    have hmaxC : c.maxvel = min v 100 := by
      have hmax : c.maxvel = fmin v (c.target / c.cycleTime) := by rw [hc]; rfl
      have hcycle : c.cycleTime = 1 := by rw [hc]; exact htime
      rw [hmax, hcycle, hlineC.target, lineLength_corner.2, fmin_real, div_one]
    have hlineC' : ({ c with id := tp.nextId } : Tc ℝ).IsLine (cornerPose 100 0).tran (cornerPose 100 100).tran :=
      ⟨hlineC.long, hlineC.coords, hlineC.target⟩
    have hfields : c.finalized = false ∧ c.kinkAccelReduce = 0 ∧ c.kinkAccelReducePrev = 0 ∧ c.blendPrev = false ∧
        c.termCond = .tangent ∧ c.isBlending = false ∧ c.maxaccel = a ∧ c.reqvel = v := by
      rw [hc]
      exact ⟨rfl, rfl, rfl, rfl, hterm, rfl, rfl, rfl⟩
    obtain ⟨hopen, hreduce, hreducePrev, hblendPrev, htangent, hblending, haccel, hreq⟩ := hfields
    rw [cornerLimit_line hlineC' hopen hnone.2 ⟨hreduce, hreducePrev⟩ ⟨hblendPrev, htangent⟩ hblending, hmaxP]
    show min (min v 100) (min (Real.sqrt (c.maxaccel * c.target)) (min (min c.reqvel c.maxvel) tp.vLimit)) = _
    have hvel : min (min v (min v 100)) 1000 = min v 100 := by
      rw [← min_assoc, min_self, min_assoc]
      norm_num
    rw [haccel, hlineC.target, lineLength_corner.2, hreq, hmaxC, hlimit, hvel, min_comm (Real.sqrt _), ← min_assoc,
      min_self]

/-- What the pass does to two lines that are all that is queued. -/
theorem tpRunOptimization_pair {K : Type} [Arith K] (env : TpEnv K) (hdepth : 0 ≤ env.arcBlendOptDepth) {tp : Tp K}
    (hw : tp.queue.WF) (hlen : tp.queue.len = 2) {p c : Tc K} (hp : tcqItem tp.queue 0 = some p)
    (hc : tcqItem tp.queue 1 = some c) (hplanned : p.Planned) : ∃ c', c'.coords = c.coords ∧
      tcqItem (tpRunOptimization env tp).queue 0 = some (tpOptimizePair env tp c p).2 ∧
        tcqItem (tpRunOptimization env tp).queue 1 = some c' := by
  obtain ⟨n, hn⟩ : ∃ n, (env.arcBlendOptDepth + 1).toNat = n + 1 := ⟨env.arcBlendOptDepth.toNat, by omega⟩
  obtain ⟨maxvel, finalvel, prevFinalvel, atMax, heq, -⟩ := tpOptimizePair_eq env tp c p
  -- a second turn of the pass finds no further pair
  have hout : ∀ (u : Tp K) (hitPeaks : Int), u.queue.len = 2 → tpOptimizeFrom env u n (1 + 1) hitPeaks false = u := by
    intro u hitPeaks hu
    cases n with
    | zero => rfl
    | succ n =>
      have hnone : tcqItem u.queue (tcqLen u.queue - (1 + 1) - 1) = none := by
        unfold tcqItem tcqLen
        rw [if_pos (.inl (by omega))]
      unfold tpOptimizeFrom
      dsimp only
      rw [hnone]
      split
      · rename_i hsome
        cases hsome
      · rfl
  have hlast : tcqLen tp.queue - 1 = 1 := by
    unfold tcqLen
    omega
  have hq : (tpRunOptimization env tp).queue = (tp.queue.setItem 1 { (tpOptimizePair env tp c p).1 with
      activeDepth := 1 - 2 - 0 }).setItem 0 (tpOptimizePair env tp c p).2 := by
    unfold tpRunOptimization
    rw [hn]
    unfold tpOptimizeFrom
    dsimp only
    rw [hlast, hc, show (1 : Int) - 1 = 0 from rfl, hp]
    dsimp only
    rw [if_neg (not_not.2 hplanned.tangent), if_neg hplanned.early, hplanned.whole.1, hplanned.whole.2,
      if_neg (by decide)]
    generalize (if (tpOptimizePair env tp c p).1.optimizationAtMax = true then (0 : Int) + 1 else 0) = hitPeaks
    split
    · rfl
    · rw [hout]
      exact hlen
  have hin : ∀ i : Int, 0 ≤ i ∧ i < 2 → 0 ≤ i ∧ i < tp.queue.len := fun i hi => by omega
  rw [hq]
  refine ⟨{ (tpOptimizePair env tp c p).1 with activeDepth := 1 - 2 - 0 }, ?_, ?_, ?_⟩
  · rw [heq]
  · rw [setItem_item (setItem_wf hw _ _) (hin 0 (by omega)), if_pos rfl]
  · rw [setItem_item (setItem_wf hw _ _) (hin 0 (by omega)), if_neg one_ne_zero, setItem_item hw (hin 1 (by omega)),
      if_pos rfl]

theorem CornerReady.corner {v a : ℝ} {tp : Tp ℝ} (h : CornerReady v a tp) :
    (cornerCall v a (cornerPose 100 100)).run tp =
      tpRunOptimization plainEnv (tpEnqueue tp (newLine tp (cornerPose 100 100) 2 v v a 0 false (-1))) := by
  refine tpAddLine_enqueue plainEnv h.abort ?_
  have hlong : 1 ≤ lineLength tp.goalPos.tran (cornerPose 100 100).tran := by
    rw [h.goalPos, lineLength_corner.2]
    norm_num
  have htarget := (tpLineSegment_isLine hlong 2 v v a 0 false).target
  rw [h.goalPos, lineLength_corner.2] at htarget
  show ¬ (tpLineSegment tp (cornerPose 100 100) 2 v v a 0 false).target < 1
  rw [htarget]
  norm_num

/-- Before a line that is still open, the pass plans the velocity that is held down by nothing else. -/
theorem tpOptimizePair_open (env : TpEnv ℝ) (tp : Tp ℝ) {tc prevTc : Tc ℝ}
    (hopen : tc.finalized = false) (hkink : prevTc.kinkVel = -1) :
    (tpOptimizePair env tp tc prevTc).2.finalvel = cornerLimit env tp tc prevTc := by
  have hno : ¬ (0 ≤ prevTc.kinkVel ∧ prevTc.termCond = .tangent) := fun h => by
    have := h.1
    rw [hkink] at this
    norm_num at this
  unfold tpOptimizePair cornerLimit
  dsimp only
  cases tc.atspeed with
  | true =>
    rw [if_pos rfl, hopen, if_neg Bool.false_ne_true, if_neg Bool.false_ne_true, if_neg hno]
    rfl
  | false =>
    rw [if_neg Bool.false_ne_true, hopen, if_neg Bool.false_ne_true, if_neg Bool.false_ne_true, if_neg hno]

theorem corner_directions : (pmCartLineInit (cornerPose 0 0).tran (cornerPose 100 0).tran).uVec = ⟨1, 0, 0⟩ ∧
    (pmCartLineInit (cornerPose 100 0).tran (cornerPose 100 100).tran).uVec = ⟨0, 1, 0⟩ := by
  obtain ⟨hfirst, hsecond⟩ := lineLength_corner
  unfold lineLength at hfirst hsecond
  constructor
  · rw [pmCartLineInit_long (by rw [lineLength_corner.1]; norm_num)]
    show pmCartUnit _ = _
    rw [pmCartUnit_eq (by rw [hfirst]; norm_num), hfirst]
    simp [pmCartCartSub, cornerPose]
  · rw [pmCartLineInit_long (by rw [lineLength_corner.2]; norm_num)]
    show pmCartUnit _ = _
    rw [pmCartUnit_eq (by rw [hsecond]; norm_num), hsecond]
    simp [pmCartCartSub, cornerPose]

/-- What the right angle allows. -/
theorem CornerQueued.allows_iff {v a T w : ℝ} {tp : Tp ℝ} {p c p' c' : Tc ℝ} (h : CornerQueued v a tp p c)
    (hp : p'.coords = p.coords ∧ p'.maxaccel = p.maxaccel) (hc : c'.coords = c.coords) :
    CornerAllows T p' c' w ↔ |w| * Real.sqrt 2 ≤ a * T := by
  obtain ⟨⟨abc, uvw, hcoords⟩, ⟨abc', uvw', hcoords'⟩⟩ := And.intro h.lines.1.coords h.lines.2.coords
  have hchange : pmCartMag (pmCartCartSub (⟨0, 1, 0⟩ : PmCartesian ℝ) ⟨1, 0, 0⟩) = Real.sqrt 2 := by
    rw [pmCartMag_real]
    norm_num [pmCartCartSub]
  unfold CornerAllows
  rw [hp.1, hp.2, hc, hcoords, hcoords', h.settings.2.2]
  constructor
  · intro hallows
    have hle := hallows _ _ rfl rfl (by rw [corner_directions.1, corner_directions.2]; simp)
    rw [cornerChange_eq, corner_directions.1, corner_directions.2, hchange] at hle
    exact hle
  · rintro hle la lb hla hlb -
    cases hla
    cases hlb
    rw [cornerChange_eq, corner_directions.1, corner_directions.2, hchange]
    exact hle

/-- In every run from the initialised planner whose calls leave the cycle time alone and append lines only where the
corners allow a stop and the limits of the velocities that are planned for them, the planned final velocity of every
line is slow enough for the corner after it. -/
theorem cornersSlow_run {tp₀ tp : Tp ℝ} {secs : ℝ} (hsize : 0 < tp₀.queue.size)
    (h : Reaches (Restrict TpStep fun tp c _ => c.CornersAllowed tp) (tpSetCycleTime (tpInit tp₀) secs) tp) :
    tp.CornersSlow := by
  have hstops : (tpSetCycleTime (tpInit tp₀) secs).Stops := (tpInit_stops hsize).call (.setCycleTime secs)
  refine h.restrict_invariant (I := Tp.Stops) ?_ ?_ hstops (tpInit_cornersSlow tp₀ secs)
  · rintro u c v hu rfl
    exact hu.call c
  · rintro u c v hu hslow ⟨rfl, hc⟩
    exact hslow.call hu c hc

/-- Two lines at a right angle that are slow enough for it. -/
theorem cornersSlow_run_slow : ((cornerCall 1 10 (cornerPose 100 100)).run
    ((cornerCall 1 10 (cornerPose 100 0)).run cornerStart)).CornersSlow := by
  have hready := cornerReady 1 10
  have hsqrt : Real.sqrt 2 ≤ 10 := Real.sqrt_le_iff.2 ⟨by norm_num, by norm_num⟩
  have hsize : 0 < (zeroTp : Tp ℝ).queue.size := by
    show 0 < 2000
    decide
  refine @cornersSlow_run zeroTp _ 1 hsize ((((Reaches.refl _).tail (e := .setVlimit 1000) ⟨rfl, trivial⟩).tail
    (e := cornerCall 1 10 (cornerPose 100 0)) ⟨rfl, ?_⟩).tail ⟨rfl, ?_⟩)
  · intro _ _ n a b ha hb
    obtain ⟨p, c, hq, htime⟩ := hready.enqueue
    change tcqItem (tpEnqueue _ (newLine _ (cornerPose 100 100) 2 1 1 10 0 false (-1))).queue n = some a at ha
    change tcqItem (tpEnqueue _ (newLine _ (cornerPose 100 100) 2 1 1 10 0 false (-1))).queue (n + 1) = some b at hb
    have hn := (lt_of_tcqItem ha).1
    have hn' := (lt_of_tcqItem hb).1
    have hlen := hq.len
    obtain rfl : n = 0 := by omega
    cases hq.first.symm.trans ha
    cases hq.second.symm.trans hb
    refine ⟨(hq.allows_iff ⟨rfl, rfl⟩ rfl).2 ?_, fun _ => (hq.allows_iff ⟨rfl, rfl⟩ rfl).2 ?_⟩
    · rw [hready.settings.1, abs_zero, zero_mul]
      norm_num
    · have hlimit := hq.limit zero_le_one
      obtain ⟨_, _, _, _, _, heq⟩ := tpEnqueue_eq ((cornerCall 1 10 (cornerPose 100 0)).run cornerStart)
        (newLine ((cornerCall 1 10 (cornerPose 100 0)).run cornerStart) (cornerPose 100 100) 2 1 1 10 0 false (-1))
      rw [heq] at hlimit
      have hreach : (1 : ℝ) ≤ Real.sqrt (10 * 100) := Real.le_sqrt_of_sq_le (by norm_num)
      rw [min_eq_left (show (1 : ℝ) ≤ 100 by norm_num), min_eq_left hreach] at hlimit
      refine (congrArg (fun x => |x| * Real.sqrt 2) hlimit).le.trans ?_
      rw [hready.settings.1, abs_one, one_mul, mul_one]
      exact hsqrt
  · intro _ hlong n a b ha hb
    have habort := cornerStart_idle.2.1.aborting
    change tpPosEpsilon ≤ (newLine cornerStart (cornerPose 100 0) 2 1 1 10 0 false (-1)).target at hlong
    have hlen := hready.len
    change (tpAddLine plainEnv cornerStart (cornerPose 100 0) 2 1 1 10 0 false (-1)).1.queue.len = 1 at hlen
    obtain ⟨q, heq, hcells⟩ := tpRunOptimization_sameEnd plainEnv
      (tpEnqueue cornerStart (newLine cornerStart (cornerPose 100 0) 2 1 1 10 0 false (-1)))
    rw [tpAddLine_enqueue plainEnv habort (not_lt.2 hlong), heq] at hlen
    have hlen' := hcells.len
    have hn := (lt_of_tcqItem ha).1
    have hn' := (lt_of_tcqItem hb).1
    change 0 ≤ n ∧ n < (tpEnqueue cornerStart
      (newLine cornerStart (cornerPose 100 0) 2 1 1 10 0 false (-1))).queue.len at hn
    change 0 ≤ n + 1 ∧ n + 1 < (tpEnqueue cornerStart
      (newLine cornerStart (cornerPose 100 0) 2 1 1 10 0 false (-1))).queue.len at hn'
    change q.len = 1 at hlen
    omega

/-- The corner between two faster lines is planned too fast. -/
theorem cornersNotSlow : ∃ tp : Tp ℝ, Reaches TpStep (tpSetCycleTime (tpInit zeroTp) 1) tp ∧ ¬ tp.CornersSlow := by
  have hready := cornerReady 50 1
  have hrun : Reaches TpStep (tpSetCycleTime (tpInit zeroTp) 1)
      ((cornerCall 50 1 (cornerPose 100 0)).run cornerStart) :=
    ((Reaches.refl _).tail (e := .setVlimit 1000) rfl).tail (e := cornerCall 50 1 (cornerPose 100 0)) rfl
  generalize (cornerCall 50 1 (cornerPose 100 0)).run cornerStart = tp at hready hrun
  refine ⟨_, hrun.tail (e := cornerCall 50 1 (cornerPose 100 100)) rfl, fun hslow => ?_⟩
  obtain ⟨p, c, hq, hcycle⟩ := hready.enqueue
  obtain ⟨c', hcoords, hfirst, hsecond⟩ := tpRunOptimization_pair plainEnv (by decide) hq.wf hq.len hq.first hq.second
    hq.planned
  rw [← hready.corner] at hfirst hsecond
  have hallows := hslow 0 _ c' hfirst hsecond
  rw [hready.corner] at hallows
  obtain ⟨q, htime, -⟩ := tpRunOptimization_sameEnd plainEnv
    (tpEnqueue tp (newLine tp (cornerPose 100 100) 2 50 50 1 0 false (-1)))
  rw [htime] at hallows
  change CornerAllows (tpEnqueue tp _).cycleTime _ c' _ at hallows
  have hkept : (tpOptimizePair plainEnv (tpEnqueue tp (newLine tp (cornerPose 100 100) 2 50 50 1 0 false (-1)))
      c p).2.coords = p.coords ∧ (tpOptimizePair plainEnv (tpEnqueue tp
        (newLine tp (cornerPose 100 100) 2 50 50 1 0 false (-1))) c p).2.maxaccel = p.maxaccel := by
    obtain ⟨_, _, _, _, heq, -⟩ := tpOptimizePair_eq plainEnv
      (tpEnqueue tp (newLine tp (cornerPose 100 100) 2 50 50 1 0 false (-1))) c p
    rw [heq]
    exact ⟨rfl, rfl⟩
  have hle := (hq.allows_iff hkept hcoords).1 hallows
  rw [tpOptimizePair_open plainEnv _ hq.settings.1 hq.settings.2.1, hq.limit (by norm_num), hcycle] at hle
  -- the velocity it can be stopped from is ten units, and the corner allows less than one
  have hten : Real.sqrt (1 * 100) = 10 := by
    rw [show (1 * 100 : ℝ) = 10 ^ 2 by norm_num]
    exact Real.sqrt_sq (by norm_num)
  have hone : (1 : ℝ) ≤ Real.sqrt 2 := Real.le_sqrt_of_sq_le (by norm_num)
  rw [hten] at hle
  norm_num at hle
  linarith

end SoemMotion
