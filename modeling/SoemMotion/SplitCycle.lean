import SoemMotion.CornerSpeed
import SoemMotion.SegmentMotion

/-!
# Split cycles

A tangent segment that ends within the next cycle is flagged with the time it still needs and the velocity it ends with,
and the next segment starts with that velocity and has the rest of the cycle.  The time is a first guess from the mean
velocity, or where that asks for too much acceleration, the root of the equation of motion at the limit.
-/

namespace SoemMotion

/-! ### The time of a split -/

/-- The time a segment with the velocity `v` still needs under the acceleration `a`, for the discriminant `disc` of the
equation of motion. -/
noncomputable def splitRoot (v a disc : ℝ) : ℝ :=
  if disc < tpTimeEpsilon * tpTimeEpsilon then -v / a
  else if 0 < a then -v / a + pmSqrt disc else -v / a - pmSqrt disc

/-- It is the root that leaves the segment a velocity of its own direction, up to a double root. -/
theorem splitRoot_spec {v a dx disc : ℝ} (ha : a ≠ 0) (hdisc : pmSq (v / a) + 2 / a * dx = disc) (hreal : 0 ≤ disc) :
    0 ≤ v + splitRoot v a disc * a ∧
      |(v + splitRoot v a disc * a / 2) * splitRoot v a disc - dx| ≤ |a| * tpTimeEpsilon ^ 2 := by
  -- `s` is the root that is taken, zero where the two count as one
  obtain ⟨s, hs, hsign, hsquare⟩ : ∃ s, splitRoot v a disc = -v / a + s ∧ 0 ≤ s * a ∧
      |s ^ 2 - disc| ≤ (tpTimeEpsilon : ℝ) ^ 2 := by
    unfold splitRoot
    split
    · rename_i hdouble
      refine ⟨0, (add_zero _).symm, by rw [zero_mul], ?_⟩
      rw [zero_pow two_ne_zero, zero_sub, abs_neg, abs_of_nonneg hreal, sq]
      exact hdouble.le
    · rw [pmSqrt_real]
      split
      · rename_i hpos
        refine ⟨_, rfl, mul_nonneg (Real.sqrt_nonneg _) hpos.le, ?_⟩
        rw [Real.sq_sqrt hreal, sub_self, abs_zero]
        exact sq_nonneg _
      · rename_i hneg
        refine ⟨-Real.sqrt disc, sub_eq_add_neg _ _, ?_, ?_⟩
        · rw [neg_mul, ← mul_neg]
          exact mul_nonneg (Real.sqrt_nonneg _) (neg_nonneg.2 (not_lt.1 hneg))
        · rw [neg_sq, Real.sq_sqrt hreal, sub_self, abs_zero]
          exact sq_nonneg _
  have hvel : v + splitRoot v a disc * a = s * a := by
    rw [hs]
    field_simp
    ring
  refine ⟨hvel.ge.trans' hsign, ?_⟩
  have hway : (v + splitRoot v a disc * a / 2) * splitRoot v a disc - dx = a / 2 * (s ^ 2 - disc) := by
    rw [hs, ← hdisc, pmSq]
    field_simp
    ring
  rw [hway, abs_mul]
  have hhalf : |a / 2| ≤ |a| := by
    rw [abs_div, abs_two]
    exact half_le_self (abs_nonneg a)
  exact mul_le_mul hhalf hsquare (abs_nonneg _) (abs_nonneg a)

/-- Within the time `dt` the segment goes the way `dx` to its end and reaches the velocity `vf` there, as its
acceleration allows. -/
structure SplitEnd (tc : Tc ℝ) (dx dt vf : ℝ) : Prop where
  vel : 0 ≤ vf
  accel : |vf - tc.currentvel| ≤ tcGetTangentialMaxAccel tc * dt
  way : |(tc.currentvel + vf) / 2 * dt - dx| ≤ tcGetTangentialMaxAccel tc * tpTimeEpsilon ^ 2

/-- At the limit of the acceleration. -/
theorem splitEnd_root {tc : Tc ℝ} {a dx disc : ℝ} (ha : |a| = tcGetTangentialMaxAccel tc) (hne : a ≠ 0)
    (hdisc : pmSq (tc.currentvel / a) + 2 / a * dx = disc) (hreal : 0 ≤ disc)
    (hlong : 0 ≤ splitRoot tc.currentvel a disc) : SplitEnd tc dx (splitRoot tc.currentvel a disc)
      (tc.currentvel + splitRoot tc.currentvel a disc * a) := by
  obtain ⟨hvel, hway⟩ := splitRoot_spec hne hdisc hreal
  refine ⟨hvel, ?_, ?_⟩
  · rw [add_sub_cancel_left, abs_mul, abs_of_nonneg hlong, ha, mul_comm]
  · have hmean : (tc.currentvel + (tc.currentvel + splitRoot tc.currentvel a disc * a)) / 2 =
        tc.currentvel + splitRoot tc.currentvel a disc * a / 2 := by ring
    rw [hmean, ← ha]
    exact hway

/-- The time `tpCheckEndCondition` splits at, from a guess `dx / vAvg`. -/
theorem tpSplitTime_splitEnd {tc : Tc ℝ} {dx vf guess dt v : ℝ} (ha : 0 < tcGetTangentialMaxAccel tc) (hvf : 0 ≤ vf)
    (hpos : 0 < guess) (hguess : tpTimeEpsilon ≤ guess → (tc.currentvel + vf) / 2 * guess = dx)
    (h : tpSplitTime tc dx vf guess = some (dt, v)) (hlong : tpTimeEpsilon ≤ dt) : SplitEnd tc dx dt v := by
  have hdt : 0 ≤ dt := hlong.trans' (by norm_num [tpTimeEpsilon])
  -- where the guess asks for more than the limit
  have hroot : ∀ a : ℝ, |a| = tcGetTangentialMaxAccel tc →
      (if pmSq (tc.currentvel / a) + 2 / a * dx < 0 then none
        else some (splitRoot tc.currentvel a (pmSq (tc.currentvel / a) + 2 / a * dx),
          tc.currentvel + splitRoot tc.currentvel a (pmSq (tc.currentvel / a) + 2 / a * dx) * a)) = some (dt, v) →
      SplitEnd tc dx dt v := by
    intro a hlimit hsome
    split at hsome
    · cases hsome
    · rename_i hreal
      cases hsome
      exact splitEnd_root hlimit (by rintro rfl; rw [abs_zero] at hlimit; exact ha.ne hlimit) rfl (not_lt.1 hreal) hdt
  unfold tpSplitTime satInplace at h
  dsimp only at h
  by_cases hhigh : tcGetTangentialMaxAccel tc < (vf - tc.currentvel) / guess
  · rw [if_pos hhigh] at h
    exact hroot _ (abs_of_pos ha) h
  · rw [if_neg hhigh] at h
    by_cases hlow : (vf - tc.currentvel) / guess < -tcGetTangentialMaxAccel tc
    · rw [if_pos hlow] at h
      exact hroot _ (by rw [abs_neg, abs_of_pos ha]) h
    · rw [if_neg hlow] at h
      cases h
      refine ⟨hvf, ?_, ?_⟩
      · have hbound := abs_le.2 ⟨not_lt.1 hlow, not_lt.1 hhigh⟩
        rw [abs_div, abs_of_pos hpos] at hbound
        exact (div_le_iff₀ hpos).1 hbound
      · rw [hguess hlong, sub_self, abs_zero]
        exact mul_nonneg ha.le (sq_nonneg _)

/-! ### The flagged segment -/

theorem tcSetSplitCycle_fresh {tc : Tc ℝ} (h : tc.splitting = false) (t v : ℝ) :
    tcSetSplitCycle tc t v = { tc with splitting := true, cycleTime := t, termVel := v } := by
  unfold tcSetSplitCycle
  rw [h, Bool.false_and, if_neg Bool.false_ne_true]

/-- What `tpCheckEndCondition` has found where it splits a segment that is not at its end yet. -/
theorem tpCheckEndCondition_split {env : TpEnv ℝ} {tp : Tp ℝ} {tc : Tc ℝ} {nexttc : Option (Tc ℝ)}
    (hforward : tp.reverseRun = false) (htangent : tc.termCond = .tangent) (hfresh : tc.splitting = false)
    (hfar : tpPosEpsilon < tcGetDistanceToGo tc tp.reverseRun) (hcycle : 0 < tp.cycleTime ∧ tp.cycleTime ≤ 1)
    (hsplit : (tpCheckEndCondition env tp tc nexttc).splitting = true)
    (hlong : tpTimeEpsilon ≤ (tpCheckEndCondition env tp tc nexttc).cycleTime) : ∃ dt v,
      tpCheckEndCondition env tp tc nexttc = { tc with splitting := true, cycleTime := dt, termVel := v } ∧
        dt < tp.cycleTime ∧ tpPosEpsilon < (tc.currentvel + tpGetRealFinalVel env tp tc nexttc) / 2 ∧
        tpSplitTime { tc with cycleTime := tp.cycleTime } (tcGetDistanceToGo tc tp.reverseRun)
          (tpGetRealFinalVel env tp tc nexttc) (fmax (tpTimeEpsilon / 2) (tcGetDistanceToGo tc tp.reverseRun /
            ((tc.currentvel + tpGetRealFinalVel env tp tc nexttc) / 2))) = some (dt, v) := by
  have hgo : tcGetDistanceToGo { tc with cycleTime := tp.cycleTime } tp.reverseRun =
    tcGetDistanceToGo tc tp.reverseRun := rfl
  have hvf : tpGetRealFinalVel env tp { tc with cycleTime := tp.cycleTime } nexttc =
    tpGetRealFinalVel env tp tc nexttc :=
    rfl
  have hstops : (tp.reverseRun || ((tc.termCond == TermCond.stop) || (tc.termCond == TermCond.exact))) = false := by
    rw [hforward, htangent]
    rfl
  unfold tpCheckEndCondition at hsplit hlong ⊢
  dsimp only at hsplit hlong ⊢
  rw [hgo, if_neg (not_le.2 hfar), hstops, if_neg Bool.false_ne_true, hvf] at hsplit hlong ⊢
  generalize tpGetRealFinalVel env tp tc nexttc = vf at hsplit hlong ⊢
  generalize tcGetDistanceToGo tc tp.reverseRun = dx at hfar hsplit hlong ⊢
  -- a segment that is slow on the average does not end within the cycle
  have hfast : tpVelEpsilon < (tc.currentvel + vf) / 2 := by
    by_contra hslow
    rw [decide_eq_false hslow] at hsplit
    have hle : (tc.currentvel + vf) / 2 * tp.cycleTime < dx := by
      calc (tc.currentvel + vf) / 2 * tp.cycleTime ≤ 1 * tp.cycleTime :=
            mul_le_mul_of_nonneg_right (not_lt.1 hslow) hcycle.1.le
        _ ≤ 1 := by rw [one_mul]; exact hcycle.2
        _ < dx := hfar
    rw [decide_eq_true hle, decide_eq_true hfar, if_pos (by decide), hfresh] at hsplit
    cases hsplit
  rw [decide_eq_true hfast, if_neg (by simp), if_pos hfast] at hsplit hlong ⊢
  cases htime : tpSplitTime { tc with cycleTime := tp.cycleTime } dx vf
      (fmax (tpTimeEpsilon / 2) (dx / ((tc.currentvel + vf) / 2))) with
  | none =>
    rw [htime] at hsplit
    cases hfresh.symm.trans hsplit
  | some r =>
    obtain ⟨dt, v⟩ := r
    rw [htime] at hsplit hlong
    dsimp only at hsplit hlong ⊢
    by_cases hnow : dt < tpTimeEpsilon
    · rw [if_pos hnow, tcSetSplitCycle_fresh] at hlong
      · norm_num [tpTimeEpsilon] at hlong
      · exact hfresh
    · rw [if_neg hnow] at hsplit ⊢
      by_cases hshort : dt < tp.cycleTime
      · rw [if_pos hshort, tcSetSplitCycle_fresh]
        · exact ⟨dt, v, rfl, hshort, hfast, rfl⟩
        · exact hfresh
      · rw [if_neg hshort] at hsplit
        cases hfresh.symm.trans hsplit

/-- The next segment of a split takes over the velocity and has the rest of the cycle. -/
theorem tpHandleSplitCycle_next (env : TpEnv ℝ) (tp : Tp ℝ) {tc : Tc ℝ} (hremove : tc.remove = false)
    (htangent : tc.termCond = .tangent) (next : Tc ℝ) : ∃ u : Tp ℝ, u.queue = tp.queue ∧ u.cycleTime = tp.cycleTime ∧
      (tpHandleSplitCycle env tp tc (some next)).2.2 = some (tpUpdateCycle env u
        { next with cycleTime := tp.cycleTime - tc.cycleTime, currentvel := tc.termVel }
        (tcqItem tp.queue (if tp.reverseRun then -2 else 2))).2 := by
  refine ⟨tpAddCurrentPos tp (emcPoseSub (tcGetPos { tc with progress := tcGetTarget tc tp.reverseRun }) (tcGetPos tc)),
    rfl, rfl, ?_⟩
  unfold tpHandleSplitCycle
  rw [if_neg (by rw [hremove]; exact Bool.false_ne_true)]
  dsimp only
  rw [if_pos htangent, apply_ite Prod.snd, apply_ite Prod.snd, ite_self]
  rfl

/-! ### Flags of the queued segments -/

/-- A segment is flagged for removal only once it is split. -/
def Tc.RemovedSplit (tc : Tc ℝ) : Prop := tc.remove = true → tc.splitting = true

/-- The same two flags. -/
def Tc.SameFlags (a b : Tc ℝ) : Prop := b.remove = a.remove ∧ b.splitting = a.splitting

theorem Tc.RemovedSplit.congr {a b : Tc ℝ} (h : a.RemovedSplit) (hsame : a.SameFlags b) : b.RemovedSplit :=
  fun hb => hsame.2.trans (h (hsame.1.symm.trans hb))

theorem tcSetSplitCycle_splitting (tc : Tc ℝ) (t v : ℝ) : (tcSetSplitCycle tc t v).splitting = true := by
  unfold tcSetSplitCycle
  split
  · rename_i h
    exact (Bool.and_eq_true_iff.1 h).1
  · rfl

theorem tpCheckEndCondition_removedSplit (env : TpEnv ℝ) {tp : Tp ℝ} (hforward : tp.reverseRun = false) {tc : Tc ℝ}
    (h : tc.RemovedSplit) (nexttc : Option (Tc ℝ)) : (tpCheckEndCondition env tp tc nexttc).RemovedSplit := by
  unfold tpCheckEndCondition
  dsimp only
  split
  · rw [hforward, Bool.or_false, if_neg Bool.false_ne_true]
    split
    · exact fun _ => tcSetSplitCycle_splitting _ _ _
    · exact fun _ => tcSetSplitCycle_splitting _ _ _
  · split
    · exact h
    · split
      · exact h
      · split
        · exact h
        · split
          · exact fun _ => tcSetSplitCycle_splitting _ _ _
          · split
            · exact fun _ => tcSetSplitCycle_splitting _ _ _
            · exact h

theorem tpUpdateCycle_removedSplit (env : TpEnv ℝ) {tp : Tp ℝ} (hforward : tp.reverseRun = false) {tc : Tc ℝ}
    (h : tc.RemovedSplit) (nexttc : Option (Tc ℝ)) : (tpUpdateCycle env tp tc nexttc).2.RemovedSplit := by
  have hstart : (if tc.blendingNext = true then tc else { tc with velAtBlendStart := tc.currentvel }).RemovedSplit := by
    split
    · exact h
    · exact h
  refine tpCheckEndCondition_removedSplit env hforward ?_ nexttc
  obtain ⟨_, _, _, heq⟩ := tcUpdateDistFromAccel_eq
    (if tc.blendingNext = true then tc else { tc with velAtBlendStart := tc.currentvel }) _ _ _
  rw [heq]
  exact hstart

/-- The head and the next segment of a cycle. -/
structure CycleFlags (r : Tc ℝ × Option (Tc ℝ)) : Prop where
  head : r.1.RemovedSplit
  next : ∀ next, r.2 = some next → next.RemovedSplit

theorem CycleFlags.poised {tc t : Tc ℝ} {nexttc next : Option (Tc ℝ)} (h : CycleFlags (tc, nexttc)) (ht : tc.Poised t)
    (hn : Option.Rel Tc.Poised nexttc next) : CycleFlags (t, next) where
  head := h.head.congr ⟨ht.remove, ht.splitting⟩
  next := fun n hsome => by
    cases hn with
    | none => cases hsome
    | some hn =>
      cases hsome
      exact (h.next _ rfl).congr ⟨hn.remove, hn.splitting⟩

theorem tpHandleSplitCycle_flags (env : TpEnv ℝ) {tp : Tp ℝ} (hforward : tp.reverseRun = false) {tc : Tc ℝ}
    {nexttc : Option (Tc ℝ)} (h : CycleFlags (tc, nexttc)) (hsplit : tc.splitting = true) :
    CycleFlags (tpHandleSplitCycle env tp tc nexttc).2 := by
  unfold tpHandleSplitCycle
  split
  · exact h
  · cases nexttc with
    | none => exact ⟨fun _ => hsplit, fun _ hnone => by cases hnone⟩
    | some next =>
      have hnext : ∀ cycleTime : ℝ, (if tc.termCond = .tangent then
          { next with cycleTime := cycleTime, currentvel := tc.termVel } else next).RemovedSplit := by
        intro cycleTime
        split
        · exact h.next next rfl
        · exact h.next next rfl
      dsimp only
      rw [apply_ite Prod.snd, ite_self]
      refine ⟨fun _ => hsplit, fun n hn => ?_⟩
      cases hn
      exact tpUpdateCycle_removedSplit env hforward (hnext _) _

/-- The blend with the next segment. -/
theorem tpDoParabolicBlending_removedSplit (env : TpEnv ℝ) {tp : Tp ℝ} (hforward : tp.reverseRun = false) (tc : Tc ℝ)
    {next : Tc ℝ} (h : next.RemovedSplit) : (tpDoParabolicBlending env tp tc next).2.RemovedSplit := by
  have hnext : (tpDoParabolicBlending env tp tc next).2 = (tpUpdateBlend env tp tc next).2 := by
    unfold tpDoParabolicBlending
    rfl
  have hcycle : ∀ u : Tc ℝ, u.RemovedSplit →
      Tc.RemovedSplit { (tpUpdateCycle env tp u none).2 with targetVel := next.targetVel } :=
    fun u hu => tpUpdateCycle_removedSplit env hforward hu none
  rw [hnext]
  unfold tpUpdateBlend
  dsimp only
  split
  · exact hcycle _ h
  · exact hcycle _ h

theorem tpHandleRegularCycle_flags (env : TpEnv ℝ) {tp : Tp ℝ} (hforward : tp.reverseRun = false) {tc : Tc ℝ}
    {nexttc : Option (Tc ℝ)} (h : CycleFlags (tc, nexttc)) : CycleFlags (tpHandleRegularCycle env tp tc nexttc).2 := by
  unfold tpHandleRegularCycle
  split
  · exact h
  · have hmoves := (tpUpdateCycle_spec env tp { tc with cycleTime := tp.cycleTime } nexttc).1
    have htc := @tpUpdateCycle_removedSplit env tp hforward { tc with cycleTime := tp.cycleTime } h.head nexttc
    cases nexttc with
    | none => exact ⟨htc, fun _ hnone => by cases hnone⟩
    | some next =>
      dsimp only
      split
      · refine ⟨htc, fun n hn => ?_⟩
        cases hn
        exact tpDoParabolicBlending_removedSplit env (hmoves.reverseRun.trans hforward) _ (h.next next rfl)
      · refine ⟨htc, fun n hn => ?_⟩
        cases hn
        exact h.next next rfl

/-- All segments of the queue. -/
def Tcq.RemovedSplit (q : Tcq (Tc ℝ)) : Prop := ∀ n tc, tcqItem q n = some tc → tc.RemovedSplit

theorem Tcq.RemovedSplit.setItem {q : Tcq (Tc ℝ)} (h : q.RemovedSplit) (hw : q.WF) {n : Int} {a tc : Tc ℝ}
    (ha : tcqItem q n = some a) (htc : tc.RemovedSplit) : (q.setItem n tc).RemovedSplit := by
  intro m t ht
  rw [setItem_item hw (lt_of_tcqItem ha).1] at ht
  split at ht
  · cases ht
    exact htc
  · exact h m t ht

theorem Tcq.RemovedSplit.cells {p q : Tcq (Tc ℝ)} (h : p.RemovedSplit)
    (hq : p.Cells Tc.SameFlags q) : q.RemovedSplit := by
  intro n tc htc
  obtain ⟨a, ha, hsame⟩ := hq.item htc
  exact (h n a ha).congr hsame

theorem removedSplit_empty {q : Tcq (Tc ℝ)} (h : q.len = 0) : q.RemovedSplit := by
  intro n tc htc
  have := (lt_of_tcqItem htc).1
  omega

/-- Storing the two segments of a cycle. -/
theorem Tcq.RemovedSplit.store {tp u : Tp ℝ} (h : tp.queue.RemovedSplit) (hs : tp.Stops) {tc t : Tc ℝ}
    {next : Option (Tc ℝ)} (hhead : tcqItem tp.queue 0 = some tc) (hu : tp.Moves u)
    (hnext : ∀ n, next = some n → ∃ a, tcqItem tp.queue 1 = some a) (hflags : CycleFlags (t, next)) :
    (tpStoreSegments u t next).queue.RemovedSplit := by
  have hset := h.setItem hs.wf hhead hflags.head
  unfold tpStoreSegments
  dsimp only
  rw [hu.queue, hu.reverseRun, hs.forward]
  cases next with
  | none => exact hset
  | some n =>
    obtain ⟨a, ha⟩ := hnext n rfl
    have hin := (lt_of_tcqItem ha).1
    exact hset.setItem (setItem_wf hs.wf _ _)
      (@tcqItem_of_lt _ (tp.queue.setItem 0 t) _ hin.1 hin.2) (hflags.next n rfl)

/-- A cycle before its test of `remove`. -/
theorem tpRunSegment_removedSplit (env : TpEnv ℝ) {tp : Tp ℝ} (hs : tp.Stops) (h : tp.queue.RemovedSplit) :
    (tpRunSegment env tp).1.queue.RemovedSplit := by
  unfold tpRunSegment
  dsimp only
  rw [hs.forward, if_neg Bool.false_ne_true]
  cases hhead : tcqItem tp.queue 0 with
  | none => exact removedSplit_empty rfl
  | some tc =>
    by_cases hstop : tpAbortStopped (tpUpdateInitialStatus tp) tc (tcqItem tp.queue 1)
    · simp only [hstop, if_true]
      exact removedSplit_empty rfl
    · simp only [hstop, if_false, Bool.false_eq_true]
      obtain ⟨r, hact, hstays, hpoised⟩ := @tpActivateSegment_poised env (tpUpdateInitialStatus tp) hs.forward tc
      rw [hact]
      dsimp only
      have hmoves := Tp.Moves.trans (a := tp) ⟨_, _, _, _, _, _, rfl⟩ hstays.moves
      have hstart : CycleFlags (tc, tcqItem tp.queue 1) := ⟨h 0 tc hhead, h 1⟩
      obtain ⟨hsync, htc, hnext⟩ := tpSync_poised r.1 r.2 (tcqItem tp.queue 1)
      have hclear : ∀ t : Tc ℝ, t.Poised (tcClearFlags t) := fun _ => ⟨rfl, rfl, rfl, rfl, rfl, rfl, rfl, fun h => h⟩
      have hflags := hstart.poised ((hpoised.trans htc).trans (hclear _))
        (poisedNext_trans hnext (poisedNext_map hclear _))
      have hcycle := tpCycleSegment_spec env r.1 r.2 (tcqItem tp.queue 1)
      have hforward : (tpSync r.1 r.2 (tcqItem tp.queue 1)).1.reverseRun = false :=
        hsync.moves.reverseRun.trans (hmoves.reverseRun.trans hs.forward)
      generalize tpSync r.1 r.2 (tcqItem tp.queue 1) = w at hflags hcycle hforward ⊢
      refine h.store hs hhead (hmoves.trans hcycle.tp) ?_ ?_
      · intro n hn
        have hrel := hcycle.nexttc
        rw [hn] at hrel
        generalize tcqItem tp.queue 1 = o at hrel
        cases hrel
        exact ⟨_, rfl⟩
      · split
        · rename_i hsplit
          exact tpHandleSplitCycle_flags env hforward hflags hsplit
        · exact tpHandleRegularCycle_flags env hforward hflags

/-- A cycle. -/
theorem tpRunCycle_removedSplit (env : TpEnv ℝ) {tp : Tp ℝ} (hs : tp.Stops) (h : tp.queue.RemovedSplit) :
    (tpRunCycle env tp).queue.RemovedSplit := by
  have hrun := tpRunSegment_removedSplit env hs h
  unfold tpRunCycle
  split
  · rename_i u hu
    rw [hu] at hrun
    exact hrun
  · rename_i u tc hu
    rw [hu] at hrun
    obtain ⟨hadvances, ⟨t, ht, -⟩, -⟩ := tpRunSegment_advances hu
    split
    · unfold tpCompleteSegment
      split
      · exact hrun
      · dsimp only
        split
        · exact hrun
        · -- a segment that is taken from the queue has lost its flags
          have hin := (lt_of_tcqItem ht).1
          rw [← hadvances.cells.len] at hin
          have hset := @Tcq.RemovedSplit.setItem u.queue hrun (hadvances.cells.wf hs.wf) 0 _ { tc with
            active := false, remove := false, isBlending := false, splitting := false, cycleTime := u.cycleTime
            currentvel := 0, termVel := 0 } (tcqItem_of_lt hin.1 hin.2) fun hremove => by cases hremove
          rw [hadvances.reverseRun, hs.forward, if_neg Bool.false_ne_true]
          cases hpop : tcqPop (u.queue.setItem 0 { tc with
              active := false, remove := false, isBlending := false, splitting := false, cycleTime := u.cycleTime
              currentvel := 0, termVel := 0 }) with
          | none => exact hset
          | some q =>
            intro n t' ht'
            have hn := (lt_of_tcqItem ht').1.1
            exact hset (n + 1) t' (by rw [← tcqPop_item hpop hn]; exact ht')
    · exact hrun

theorem tpOptimizePair_sameFlags (env : TpEnv ℝ) (tp : Tp ℝ) (tc prevTc : Tc ℝ) (depth : Int) :
    tc.SameFlags { (tpOptimizePair env tp tc prevTc).1 with activeDepth := depth } ∧
      prevTc.SameFlags (tpOptimizePair env tp tc prevTc).2 := by
  obtain ⟨_, _, _, _, heq, -⟩ := tpOptimizePair_eq env tp tc prevTc
  rw [heq]
  exact ⟨⟨rfl, rfl⟩, rfl, rfl⟩

/-- Appending a segment. -/
theorem tpQueueSegment_removedSplit (env : TpEnv ℝ) {tp : Tp ℝ} (hs : tp.Stops) (h : tp.queue.RemovedSplit) {tc : Tc ℝ}
    (htc : tc.remove = false) : (tpQueueSegment env tp tc).1.queue.RemovedSplit := by
  have hjoin : (tpJoinLast tp tc).1.queue.RemovedSplit := by
    rcases tpJoinLast_cases hs.wf tc with heq | ⟨prevTc, _, _, _, -, hitem, heq⟩
    · rw [heq]
      exact h
    · rw [heq]
      exact h.setItem hs.wf hitem ((h _ prevTc hitem).congr ⟨rfl, rfl⟩)
  have hadd : (tpAddSegmentToQueue (tpJoinLast tp tc).1 (tpJoinLast tp tc).2 true).1.queue.RemovedSplit := by
    obtain ⟨_, heq⟩ := tpJoinLast_next tp tc
    cases hput : tcqPut (tpJoinLast tp tc).1.queue { (tpJoinLast tp tc).2 with id := (tpJoinLast tp tc).1.nextId } with
    | none =>
      rw [tpAddSegmentToQueue_full hput]
      exact hjoin
    | some q =>
      rw [tpAddSegmentToQueue_put hput]
      intro n t ht
      change tcqItem q n = some t at ht
      rw [tcqPut_item (hs.join tc).wf hput] at ht
      split at ht
      · cases ht
        intro hremove
        rw [heq] at hremove
        cases htc.symm.trans hremove
      · exact hjoin n t ht
  obtain ⟨q, heq, hcells⟩ := @tpOptimizeFrom_cells _ _ Tc.SameFlags (fun _ => ⟨rfl, rfl⟩)
    (fun h h' => ⟨h'.1.trans h.1, h'.2.trans h.2⟩) env (tpOptimizePair_sameFlags env) (env.arcBlendOptDepth + 1).toNat
    (tpAddSegmentToQueue (tpJoinLast tp tc).1 (tpJoinLast tp tc).2 true).1 1 0 false
  unfold tpQueueSegment tpRunOptimization
  dsimp only
  rw [heq]
  exact hadd.cells hcells

theorem TpCall.removedSplit {tp : Tp ℝ} (hs : tp.Stops) (h : tp.queue.RemovedSplit) (c : TpCall ℝ) :
    (c.run tp).queue.RemovedSplit := by
  cases c with
  | addLine env stop canonMotionType vel iniMaxvel acc enables atspeed indexerJnum =>
    show (tpAddLine env tp stop canonMotionType vel iniMaxvel acc enables atspeed indexerJnum).1.queue.RemovedSplit
    unfold tpAddLine
    split
    · exact h
    · dsimp only
      split
      · exact h
      · exact tpQueueSegment_removedSplit env hs h rfl
  | runCycle env => exact tpRunCycle_removedSplit env hs h
  | pause => exact h
  | resume => exact h
  | abort =>
    show (tpAbort tp).queue.RemovedSplit
    rw [(tpAbort_sameCore tp).queue]
    exact h
  | setCycleTime secs =>
    show (tpSetCycleTime tp secs).queue.RemovedSplit
    unfold tpSetCycleTime
    split
    · exact h
    · exact h
  | setVlimit vLimit => exact h
  | setId id =>
    show (tpSetId tp id).queue.RemovedSplit
    rw [(tpSetId_spec tp id).1.queue]
    exact h
  | setPos pos =>
    show (tpSetPos tp pos).queue.RemovedSplit
    unfold tpSetPos
    split
    · exact h
    · exact h
  | setSpindleSync spindle sync velocityMode =>
    show (tpSetSpindleSync tp spindle sync velocityMode).queue.RemovedSplit
    rw [(tpSetSpindleSync_sameCore tp spindle sync velocityMode).queue]
    exact h

/-- In every run from the initialised planner, the queued segments that are flagged for removal are split. -/
theorem removedSplit_run {tp₀ tp : Tp ℝ} (hsize : 0 < tp₀.queue.size) (h : Lib.Reaches TpStep (tpInit tp₀) tp) :
    tp.queue.RemovedSplit := by
  have key : tp.Stops ∧ tp.queue.RemovedSplit := by
    refine h.invariant (I := fun tp => tp.Stops ∧ tp.queue.RemovedSplit) ?_ ⟨tpInit_stops hsize, removedSplit_empty rfl⟩
    rintro u c v ⟨hs, hu⟩ rfl
    exact ⟨hs.call c, c.removedSplit hs hu⟩
  exact key.2

/-- Where `tpCheckEndCondition` splits a forward tangent segment at a time of the cycle, the segment reaches its end at
that time with the velocity that is passed on, as its acceleration allows; and in the following cycle the next segment
starts with that velocity and runs for exactly the time that is left.  Its flags are as all queued segments have them
(`removedSplit_run`). -/
theorem splitCycle_consistent {env : TpEnv ℝ} {tp : Tp ℝ} {tc : Tc ℝ} {nexttc : Option (Tc ℝ)}
    (hforward : tp.reverseRun = false) (htangent : tc.termCond = .tangent) (hfresh : tc.splitting = false)
    (hflags : tc.RemovedSplit) (haccel : 0 < tcGetTangentialMaxAccel tc)
    (hfar : tpPosEpsilon < tcGetDistanceToGo tc tp.reverseRun) (hfinal : 0 ≤ tpGetRealFinalVel env tp tc nexttc)
    (hcycle : 0 < tp.cycleTime ∧ tp.cycleTime ≤ 1) (hsplit : (tpCheckEndCondition env tp tc nexttc).splitting = true)
    (hlong : tpTimeEpsilon ≤ (tpCheckEndCondition env tp tc nexttc).cycleTime) :
    (tpCheckEndCondition env tp tc nexttc).cycleTime < tp.cycleTime ∧
      SplitEnd tc (tcGetDistanceToGo tc tp.reverseRun) (tpCheckEndCondition env tp tc nexttc).cycleTime
        (tpCheckEndCondition env tp tc nexttc).termVel ∧
      ∀ (env' : TpEnv ℝ) (tp' : Tp ℝ) (next : Tc ℝ), tp'.cycleTime = tp.cycleTime → ∃ (u : Tp ℝ) (dt : ℝ),
        u.queue = tp'.queue ∧ u.cycleTime = tp'.cycleTime ∧ 0 < dt ∧
          (tpCheckEndCondition env tp tc nexttc).cycleTime + dt = tp'.cycleTime ∧
          (tpHandleSplitCycle env' tp' (tpCheckEndCondition env tp tc nexttc) (some next)).2.2 =
          some (tpUpdateCycle env' u
            { next with cycleTime := dt, currentvel := (tpCheckEndCondition env tp tc nexttc).termVel }
            (tcqItem tp'.queue (if tp'.reverseRun then -2 else 2))).2 := by
  obtain ⟨dt, v, heq, hshort, hfast, htime⟩ :=
    tpCheckEndCondition_split hforward htangent hfresh hfar hcycle hsplit hlong
  have hremove : tc.remove = false := by
    refine Bool.eq_false_iff.2 fun hremove => ?_
    cases hfresh.symm.trans (hflags hremove)
  have havg : 0 < (tc.currentvel + tpGetRealFinalVel env tp tc nexttc) / 2 := zero_lt_one.trans hfast
  have hε : (0 : ℝ) < tpTimeEpsilon / 2 := by norm_num [tpTimeEpsilon]
  rw [heq] at hlong
  have hend := @tpSplitTime_splitEnd { tc with cycleTime := tp.cycleTime } _ _ _ _ _ haccel hfinal
    (by rw [fmax_real]; exact lt_max_of_lt_left hε) (fun hguess => ?_) htime hlong
  · rw [heq]
    refine ⟨hshort, ⟨hend.vel, hend.accel, hend.way⟩, fun env' tp' next hsame => ?_⟩
    obtain ⟨u, hqueue, hu, hnext⟩ := @tpHandleSplitCycle_next env' tp' { tc with
      splitting := true, cycleTime := dt, termVel := v } hremove htangent next
    refine ⟨u, tp'.cycleTime - dt, hqueue, hu, ?_, add_sub_cancel _ _, hnext⟩
    rw [hsame]
    exact sub_pos.2 hshort
  · -- a guess that counts is the time at the mean velocity
    rw [fmax_real] at hguess ⊢
    have hmax : max (tpTimeEpsilon / 2) (tcGetDistanceToGo tc tp.reverseRun /
        ((tc.currentvel + tpGetRealFinalVel env tp tc nexttc) / 2)) = tcGetDistanceToGo tc tp.reverseRun /
          ((tc.currentvel + tpGetRealFinalVel env tp tc nexttc) / 2) := by
      refine max_eq_right (le_of_not_gt fun hlt => ?_)
      rw [max_eq_left hlt.le] at hguess
      linarith
    rw [hmax]
    exact mul_div_cancel₀ _ havg.ne'

/-- A line two units before its end, at a velocity of four. -/
noncomputable def splitLine : Tc ℝ :=
  { zeroTc with
    target := 4, progress := 2, maxvel := 4, reqvel := 4, finalvel := 4, currentvel := 4, maxaccel := 1
    termCond := .tangent }

/-- A planner with a cycle of one second. -/
noncomputable def splitTp : Tp ℝ := { zeroTp with vLimit := 4, cycleTime := 1 }

/-- A line that ends half-way through the cycle. -/
theorem splitCycle_consistent_line : (tpCheckEndCondition plainEnv splitTp splitLine none).cycleTime < 1 ∧
    SplitEnd splitLine 2 (tpCheckEndCondition plainEnv splitTp splitLine none).cycleTime
      (tpCheckEndCondition plainEnv splitTp splitLine none).termVel := by
  have hgo : tcGetDistanceToGo splitLine splitTp.reverseRun = 2 := by
    show (4 : ℝ) - 2 = 2
    norm_num
  have haccel : tcGetTangentialMaxAccel splitLine = 1 := by
    show tcGetOverallMaxAccel splitLine = 1
    norm_num [tcGetOverallMaxAccel, splitLine, zeroTc, tcInit, fmax_real,
      show ¬ TermCond.tangent = TermCond.parabolic by decide]
  have hfinal : tpGetRealFinalVel plainEnv splitTp splitLine none = 4 := by
    norm_num [tpGetRealFinalVel, tpGetRealTargetVel, tpGetMaxTargetVel, tcGetMaxTargetVel, splitLine, splitTp, zeroTc,
      tcInit, fmin_real, zeroTp, plainEnv, tpGetFeedScale]
  -- the line is done after half of the cycle
  have htime : tpSplitTime { splitLine with cycleTime := splitTp.cycleTime } 2 4 (1 / 2) = some (1 / 2, 4) := by
    unfold tpSplitTime
    rw [show tcGetTangentialMaxAccel { splitLine with cycleTime := splitTp.cycleTime } = 1 from haccel]
    norm_num [satInplace, splitLine]
  have hcheck : tpCheckEndCondition plainEnv splitTp splitLine none =
      { splitLine with splitting := true, cycleTime := 1 / 2, termVel := 4 } := by
    have hguess : fmax (tpTimeEpsilon / 2) (2 / 4) = (1 / 2 : ℝ) := by
      rw [fmax_real, max_eq_right (by norm_num [tpTimeEpsilon])]
      norm_num
    have hfast : (tpVelEpsilon : ℝ) < 4 := by norm_num [tpVelEpsilon]
    unfold tpCheckEndCondition
    dsimp only
    rw [show tcGetDistanceToGo { splitLine with cycleTime := splitTp.cycleTime } splitTp.reverseRun = 2 from hgo,
      if_neg (by norm_num [tpPosEpsilon]), if_neg (by show ¬ (false || false) = true; decide),
      show tpGetRealFinalVel plainEnv splitTp { splitLine with cycleTime := splitTp.cycleTime } none = 4 from hfinal,
      show (splitLine.currentvel + 4) / 2 = 4 by norm_num [splitLine], decide_eq_true hfast, if_neg (by simp),
      if_pos hfast, hguess, htime]
    dsimp only
    rw [if_neg (by norm_num [tpTimeEpsilon]), if_pos (by norm_num [splitTp])]
    exact tcSetSplitCycle_fresh rfl _ _
  have h := @splitCycle_consistent plainEnv splitTp splitLine none rfl rfl rfl (fun h => by cases h)
    (by rw [haccel]; norm_num)
    (by rw [hgo]; norm_num [tpPosEpsilon]) (by rw [hfinal]; norm_num) (by norm_num [splitTp]) (by rw [hcheck])
    (by rw [hcheck]; norm_num [tpTimeEpsilon])
  rw [hgo] at h
  exact ⟨h.1, h.2.1⟩

end SoemMotion
