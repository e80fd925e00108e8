import SoemMotion.CornerSpeed

/-!
# Look-ahead

The pass over the queue plans the velocity at the end of a segment from what the segment after it can still brake
down.  Each turn writes the velocity at the end of one segment and may reset the one of its successor, and no later turn
touches that successor again: what a turn plans can still be braked when the whole pass is over.
-/

namespace SoemMotion

open Lib

/-! ### The segments the pass plans -/

section Log

variable {K : Type} [Arith K]

/-- The loop of `tpRunOptimization`, together with the positions of the segments whose final velocity it plans. -/
def tpOptimizeLogged (env : TpEnv K) (tp : Tp K) : Nat → Int → Int → Bool → Tp K × List Int
  | 0, _, _, _ => (tp, [])
  | n + 1, x, hitPeaks, hitNonTangent =>
    let ind := tcqLen tp.queue - x
    match tcqItem tp.queue ind, tcqItem tp.queue (ind - 1) with
    | some tc, some prevTc =>
      if prevTc.termCond ≠ .tangent then
        if hitNonTangent then (tp, []) else tpOptimizeLogged env tp n (x + 1) hitPeaks true
      else if blendDistFraction / 2 ≤ prevTc.progress / prevTc.target then (tp, [])
      else if prevTc.splitting || prevTc.blendingNext then (tp, [])
      else
        let (tc', prevTc') := tpOptimizePair env tp tc prevTc
        let tc' := { tc' with activeDepth := x - 2 - hitPeaks }
        let tp' := { tp with queue := (tp.queue.setItem ind tc').setItem (ind - 1) prevTc' }
        let hitPeaks' := if tc'.optimizationAtMax then hitPeaks + 1 else hitPeaks
        if tpOptimizationCutoff < hitPeaks' then (tp', [ind - 1])
        else
          let rest := tpOptimizeLogged env tp' n (x + 1) hitPeaks' hitNonTangent
          (rest.1, (ind - 1) :: rest.2)
    | _, _ => (tp, [])

/-- The positions of the segments whose final velocity a call of `tpRunOptimization` plans. -/
def tpPlannedEnds (env : TpEnv K) (tp : Tp K) : List Int :=
  (tpOptimizeLogged env tp (env.arcBlendOptDepth + 1).toNat 1 0 false).2

/-- Keeping the positions changes nothing in the loop. -/
theorem tpOptimizeLogged_fst (env : TpEnv K) (tp : Tp K) (n : Nat) (x hitPeaks : Int) (hitNonTangent : Bool) :
    (tpOptimizeLogged env tp n x hitPeaks hitNonTangent).1 = tpOptimizeFrom env tp n x hitPeaks hitNonTangent := by
  induction n generalizing tp x hitPeaks hitNonTangent with
  | zero => rfl
  | succ n ih =>
    unfold tpOptimizeLogged tpOptimizeFrom
    dsimp only
    cases tcqItem tp.queue (tcqLen tp.queue - x) with
    | none => rfl
    | some tc =>
      cases tcqItem tp.queue (tcqLen tp.queue - x - 1) with
      | none => rfl
      | some prevTc =>
        dsimp only
        split
        · split
          · rfl
          · exact ih ..
        · split
          · rfl
          · split
            · rfl
            · generalize (if (tpOptimizePair env tp tc prevTc).1.optimizationAtMax = true then hitPeaks + 1
                else hitPeaks) = hitPeaks'
              split
              · rfl
              · exact ih ..

end Log

/-! ### One turn -/

/-- Nothing about the segment keeps the pass from planning with it. -/
structure Tc.Plannable (tc : Tc ℝ) : Prop where
  accel : 0 ≤ tcGetTangentialMaxAccel tc
  target : 0 ≤ tc.target
  maxvel : 0 ≤ tc.maxvel
  reqvel : 0 ≤ tc.reqvel

/-- The velocity `v` at the end of `prevTc` respects both velocity limits and the kink, and the next segment can be
braked from it to the velocity planned for its own end.  `prevTc` and `tc` are the segments before the pass, and `tc'`
is the second of them after it. -/
structure FeasibleEnd (prevTc tc tc' : Tc ℝ) (v : ℝ) : Prop where
  nonneg : 0 ≤ v
  brakes : v ^ 2 ≤ tc'.finalvel ^ 2 + 2 * tcGetTangentialMaxAccel tc' * tc'.target
  prevMaxvel : v ≤ prevTc.maxvel
  maxvel : v ≤ tc.maxvel
  kink : 0 ≤ prevTc.kinkVel → v ≤ prevTc.kinkVel

/-- A stop can always be braked to. -/
theorem FeasibleEnd.zero {prevTc tc tc' : Tc ℝ} {v : ℝ} (h : FeasibleEnd prevTc tc tc' v) :
    FeasibleEnd prevTc tc tc' 0 where
  nonneg := le_rfl
  brakes := (pow_le_pow_left₀ le_rfl h.nonneg 2).trans h.brakes
  prevMaxvel := h.nonneg.trans h.prevMaxvel
  maxvel := h.nonneg.trans h.maxvel
  kink := fun hkink => hkink

theorem tpGetMaxTargetVel_bounds {env : TpEnv ℝ} {tp : Tp ℝ} {tc : Tc ℝ} (hlimit : 0 ≤ tp.vLimit)
    (hscale : 0 ≤ env.maxAxisScale) (h : tc.Plannable) :
    0 ≤ tpGetMaxTargetVel env tp tc ∧ tpGetMaxTargetVel env tp tc ≤ tc.maxvel := by
  obtain ⟨scale, heq, hs⟩ : ∃ scale,
      (if tc.isBlending = true then fmin env.maxAxisScale 1 else env.maxAxisScale) = scale ∧
      0 ≤ scale := by
    refine ⟨_, rfl, ?_⟩
    split
    · rw [fmin_real]
      exact le_min hscale zero_le_one
    · exact hscale
  have hown : 0 ≤ tcGetMaxTargetVel tc scale ∧ tcGetMaxTargetVel tc scale ≤ tc.maxvel := by
    unfold tcGetMaxTargetVel
    dsimp only
    rw [fmin_real]
    refine ⟨le_min ?_ h.maxvel, min_le_right _ _⟩
    split
    · exact mul_nonneg h.reqvel hs
    · exact h.maxvel
  unfold tpGetMaxTargetVel
  dsimp only
  rw [heq]
  split
  · rw [fmin_real]
    exact ⟨le_min hown.1 hlimit, (min_le_left _ _).trans hown.2⟩
  · exact hown

/-- With a next segment that may still be cut short, the planned velocity can be braked to a stop in it. -/
theorem tpOptimizePair_stops {env : TpEnv ℝ} {tp : Tp ℝ} {tc prevTc : Tc ℝ} (hlimit : 0 ≤ tp.vLimit)
    (hscale : 0 ≤ env.maxAxisScale) (htc : tc.Plannable) (hprev : prevTc.Plannable)
    (htangent : prevTc.termCond = .tangent)
    {v : ℝ} (hv : (if 0 ≤ prevTc.kinkVel ∧ prevTc.termCond = .tangent then
      fmin (fmin prevTc.maxvel (tpCalculateOptimizationInitialVel env tp tc)) prevTc.kinkVel
      else fmin prevTc.maxvel (tpCalculateOptimizationInitialVel env tp tc)) = v) :
    FeasibleEnd prevTc tc { tc with finalvel := 0 } v := by
  obtain ⟨hnonneg, hle⟩ := tpGetMaxTargetVel_bounds hlimit hscale htc
  have hprod : 0 ≤ tcGetTangentialMaxAccel tc * tc.target := mul_nonneg htc.accel htc.target
  obtain ⟨w, hw⟩ : ∃ w, fmin prevTc.maxvel (tpCalculateOptimizationInitialVel env tp tc) = w := ⟨_, rfl⟩
  have hinit : tpCalculateOptimizationInitialVel env tp tc =
      min (Real.sqrt (tcGetTangentialMaxAccel tc * tc.target)) (tpGetMaxTargetVel env tp tc) := by
    unfold tpCalculateOptimizationInitialVel findVPeak
    rw [pmSqrt_real, fmin_real]
  have hw' := hw
  rw [hinit, fmin_real] at hw'
  have hw₀ : 0 ≤ w := hw' ▸ le_min hprev.maxvel (le_min (Real.sqrt_nonneg _) hnonneg)
  have hpeak : w ≤ Real.sqrt (tcGetTangentialMaxAccel tc * tc.target) :=
    hw' ▸ (min_le_right _ _).trans (min_le_left _ _)
  have hown : w ≤ tc.maxvel := hw' ▸ (min_le_right _ _).trans ((min_le_right _ _).trans hle)
  have hlast : w ≤ prevTc.maxvel := hw' ▸ min_le_left _ _
  rw [hw] at hv
  have hbound : 0 ≤ v ∧ v ≤ w ∧ (0 ≤ prevTc.kinkVel → v ≤ prevTc.kinkVel) := by
    rw [← hv]
    split
    · rename_i hkink
      rw [fmin_real]
      exact ⟨le_min hw₀ hkink.1, min_le_left _ _, fun _ => min_le_right _ _⟩
    · rename_i hkink
      exact ⟨hw₀, le_rfl, fun h => absurd ⟨h, htangent⟩ hkink⟩
  obtain ⟨hv₀, hvw, hkink⟩ := hbound
  refine ⟨hv₀, ?_, hvw.trans hlast, hvw.trans hown, hkink⟩
  -- from `v` the second segment can stop within its length
  have hsq : v ^ 2 ≤ tcGetTangentialMaxAccel tc * tc.target := by
    calc v ^ 2 ≤ Real.sqrt (tcGetTangentialMaxAccel tc * tc.target) ^ 2 := by
          exact pow_le_pow_left₀ hv₀ (hvw.trans hpeak) 2
      _ = tcGetTangentialMaxAccel tc * tc.target := Real.sq_sqrt hprod
  show v ^ 2 ≤ 0 ^ 2 + 2 * tcGetTangentialMaxAccel tc * tc.target
  linarith

/-- With a next segment of a final length, the planned velocity can be braked to the one planned for its end. -/
theorem tpComputeOptimalVelocity_feasible {tp : Tp ℝ} {tc prevTc : Tc ℝ} (htc : tc.Plannable) (hprev : prevTc.Plannable)
    (htangent : prevTc.termCond = .tangent) :
    FeasibleEnd prevTc tc (tpComputeOptimalVelocity tp tc prevTc).1
    (tpComputeOptimalVelocity tp tc prevTc).2.finalvel := by
  obtain ⟨limit, hlimit⟩ : ∃ limit, fmin tc.maxvel (if 0 ≤ prevTc.kinkVel ∧ prevTc.termCond = .tangent then
      fmin prevTc.maxvel prevTc.kinkVel else prevTc.maxvel) = limit := ⟨_, rfl⟩
  have hbounds : 0 ≤ limit ∧ limit ≤ prevTc.maxvel ∧ limit ≤ tc.maxvel ∧
      (0 ≤ prevTc.kinkVel → limit ≤ prevTc.kinkVel) := by
    rw [← hlimit, fmin_real]
    split
    · rename_i hkink
      rw [fmin_real]
      exact ⟨le_min htc.maxvel (le_min hprev.maxvel hkink.1), (min_le_right _ _).trans (min_le_left _ _),
        min_le_left _ _, fun _ => (min_le_right _ _).trans (min_le_right _ _)⟩
    · rename_i hkink
      exact ⟨le_min htc.maxvel hprev.maxvel, min_le_right _ _, min_le_left _ _, fun h => absurd ⟨h, htangent⟩ hkink⟩
  obtain ⟨hnonneg, hlast, hown, hkink⟩ := hbounds
  have hroom : 0 ≤ tc.finalvel ^ 2 + 2 * tcGetTangentialMaxAccel tc * tc.target := by
    have := mul_nonneg htc.accel htc.target
    nlinarith [sq_nonneg tc.finalvel]
  -- `back` is the velocity from which the second segment can reach its own final one
  obtain ⟨back, hback⟩ : ∃ back, pmSqrt (pmSq tc.finalvel + 2 * tcGetTangentialMaxAccel tc * tc.target) = back :=
    ⟨_, rfl⟩
  have hback₀ : 0 ≤ back ∧ back ^ 2 = tc.finalvel ^ 2 + 2 * tcGetTangentialMaxAccel tc * tc.target := by
    rw [← hback, pmSqrt_real, pmSq, ← sq]
    exact ⟨Real.sqrt_nonneg _, Real.sq_sqrt hroom⟩
  unfold tpComputeOptimalVelocity
  dsimp only
  rw [hlimit, hback]
  split
  · rename_i hle
    refine ⟨hnonneg, ?_, hlast, hown, hkink⟩
    exact (pow_le_pow_left₀ hnonneg hle 2).trans hback₀.2.le
  · rename_i hlt
    have hle := (not_le.1 hlt).le
    exact ⟨hback₀.1, hback₀.2.le, hle.trans hlast, hle.trans hown, fun h => hle.trans (hkink h)⟩

/-- A turn plans a velocity the next segment can brake from. -/
theorem tpOptimizePair_feasible {env : TpEnv ℝ} {tp : Tp ℝ} {tc prevTc : Tc ℝ} (hlimit : 0 ≤ tp.vLimit)
    (hscale : 0 ≤ env.maxAxisScale) (htc : tc.Plannable) (hprev : prevTc.Plannable)
    (htangent : prevTc.termCond = .tangent) :
    FeasibleEnd prevTc tc (tpOptimizePair env tp tc prevTc).1 (tpOptimizePair env tp tc prevTc).2.finalvel := by
  -- the segment with its final velocity reset, where it waits for the spindle
  obtain ⟨finalvel, ht⟩ : ∃ finalvel, (if tc.atspeed = true then { tc with finalvel := 0 } else tc) =
      { tc with finalvel := finalvel } := by
    split
    · exact ⟨0, rfl⟩
    · exact ⟨tc.finalvel, rfl⟩
  have htc' : ({ tc with finalvel := finalvel } : Tc ℝ).Plannable := ⟨htc.accel, htc.target, htc.maxvel, htc.reqvel⟩
  unfold tpOptimizePair
  dsimp only
  rw [ht]
  split
  · have h := @tpComputeOptimalVelocity_feasible tp _ prevTc htc' hprev htangent
    exact ⟨h.nonneg, h.brakes, h.prevMaxvel, h.maxvel, h.kink⟩
  · have h := tpOptimizePair_stops hlimit hscale htc' hprev htangent rfl
    exact ⟨h.nonneg, h.brakes, h.prevMaxvel, h.maxvel, h.kink⟩

/-! ### The pass -/

/-- The queue `q'` after a pass over `q` down from the position `top`, that planned the ends of the segments `ends`. -/
structure PassResult (q : Tcq (Tc ℝ)) (top : Int) (q' : Tcq (Tc ℝ)) (ends : List Int) : Prop where
  planned : ∀ n ∈ ends, n < top ∧ ∃ prevTc tc, tcqItem q n = some prevTc ∧ tcqItem q (n + 1) = some tc ∧
    ∃ prevTc' tc', tcqItem q' n = some prevTc' ∧ tcqItem q' (n + 1) = some tc' ∧
      FeasibleEnd prevTc tc tc' prevTc'.finalvel
  others : ∀ n tc, tcqItem q n = some tc → n ∉ ends →
    ∃ tc', tcqItem q' n = some tc' ∧ (tc'.finalvel = tc.finalvel ∨ tc'.finalvel = 0)
  above : ∀ n, top < n → tcqItem q' n = tcqItem q n

theorem PassResult.refl (q : Tcq (Tc ℝ)) (top : Int) : PassResult q top q [] where
  planned := fun _ hn => absurd hn List.not_mem_nil
  others := fun _ tc htc _ => ⟨tc, htc, .inl rfl⟩
  above := fun _ _ => rfl

theorem PassResult.lower {q q' : Tcq (Tc ℝ)} {top : Int} {ends : List Int} (h : PassResult q (top - 1) q' ends) :
    PassResult q top q' ends where
  planned := fun n hn => ⟨by have := (h.planned n hn).1; omega, (h.planned n hn).2⟩
  others := h.others
  above := fun n hn => h.above n (by omega)

/-- A turn at the position `n`, and the pass over what is left. -/
theorem PassResult.turn {q q' : Tcq (Tc ℝ)} (hw : q.WF) {n : Int} {prevTc tc prevTc' tc' : Tc ℝ}
    (hprev : tcqItem q (n - 1) = some prevTc) (htc : tcqItem q n = some tc)
    (hfinal : tc'.finalvel = tc.finalvel ∨ tc'.finalvel = 0) (hkept : prevTc'.maxvel = prevTc.maxvel)
    (hfeasible : FeasibleEnd prevTc tc tc' prevTc'.finalvel) {ends : List Int}
    (h : PassResult ((q.setItem n tc').setItem (n - 1) prevTc') (n - 1) q' ends) :
    PassResult q n q' ((n - 1) :: ends) := by
  have hitem := setPair_item hw hprev htc prevTc' tc'
  have hfirst : tcqItem ((q.setItem n tc').setItem (n - 1) prevTc') (n - 1) = some prevTc' := by
    rw [hitem, if_pos rfl]
  have hsecond : tcqItem ((q.setItem n tc').setItem (n - 1) prevTc') n = some tc' := by
    rw [hitem, if_neg (by omega), if_pos rfl]
  have hlast : tcqItem q' n = some tc' := (h.above n (by omega)).trans hsecond
  refine ⟨?_, ?_, ?_⟩
  · intro m hm
    rcases List.mem_cons.1 hm with rfl | hm
    · -- the next turn may still reset the velocity that this one planned
      obtain ⟨prevTc'', hprev'', hvel⟩ := h.others _ _ hfirst fun hmem => absurd (h.planned _ hmem).1 (by omega)
      refine ⟨by omega, prevTc, tc, hprev, by rw [sub_add_cancel]; exact htc, prevTc'', tc', hprev'',
        by rw [sub_add_cancel]; exact hlast, ?_⟩
      rcases hvel with hvel | hvel
      · rw [hvel]
        exact hfeasible
      · rw [hvel]
        exact hfeasible.zero
    · obtain ⟨hlt, a, b, ha, hb, a', b', ha', hb', hab⟩ := h.planned m hm
      rw [hitem, if_neg (by omega), if_neg (by omega)] at ha
      rw [hitem] at hb
      refine ⟨by omega, a, ?_⟩
      by_cases hnext : m + 1 = n - 1
      · rw [if_pos hnext] at hb
        cases hb
        exact ⟨prevTc, ha, by rw [hnext]; exact hprev, a', b', ha', hb', hab.nonneg, hab.brakes, hab.prevMaxvel,
          hkept ▸ hab.maxvel, hab.kink⟩
      · rw [if_neg hnext, if_neg (by omega)] at hb
        exact ⟨b, ha, hb, a', b', ha', hb', hab⟩
  · intro m a ha hm
    rw [List.mem_cons, not_or] at hm
    by_cases hmn : m = n
    · subst hmn
      cases htc.symm.trans ha
      exact ⟨tc', hlast, hfinal⟩
    · exact h.others m a (by rw [hitem, if_neg hm.1, if_neg hmn]; exact ha) hm.2
  · intro m hm
    rw [h.above m (by omega), hitem, if_neg (by omega), if_neg (by omega)]

/-- What the loop leaves when it goes on from its counter `x`. -/
theorem tpOptimizeLogged_result {env : TpEnv ℝ} (hscale : 0 ≤ env.maxAxisScale) (n : Nat) {tp : Tp ℝ} (hw : tp.queue.WF)
    (hlimit : 0 ≤ tp.vLimit) {x : Int}
    (hitems : ∀ m tc, m ≤ tcqLen tp.queue - x → tcqItem tp.queue m = some tc → tc.Plannable) (hitPeaks : Int)
    (hitNonTangent : Bool) :
    PassResult tp.queue (tcqLen tp.queue - x) (tpOptimizeLogged env tp n x hitPeaks hitNonTangent).1.queue
      (tpOptimizeLogged env tp n x hitPeaks hitNonTangent).2 := by
  induction n generalizing tp x hitPeaks hitNonTangent with
  | zero => exact .refl ..
  | succ n ih =>
    unfold tpOptimizeLogged
    dsimp only
    have hind : tcqLen tp.queue - (x + 1) = tcqLen tp.queue - x - 1 := by omega
    cases htc : tcqItem tp.queue (tcqLen tp.queue - x) with
    | none => exact .refl ..
    | some tc =>
      cases hprev : tcqItem tp.queue (tcqLen tp.queue - x - 1) with
      | none => exact .refl ..
      | some prevTc =>
        dsimp only
        split
        · split
          · exact .refl ..
          · have hrest := ih hw hlimit (x := x + 1) (fun m tc hm => hitems m tc (by omega)) hitPeaks true
            rw [hind] at hrest
            exact hrest.lower
        · rename_i htangent
          split
          · exact .refl ..
          · split
            · exact .refl ..
            · have hplanTc := hitems _ _ le_rfl htc
              have hplanPrev := hitems _ _ (by omega) hprev
              have hfeasible := @tpOptimizePair_feasible env tp tc prevTc hlimit hscale hplanTc hplanPrev
                (not_not.1 htangent)
              obtain ⟨maxvel, finalvel, prevFinalvel, atMax, heq, -, hfinal⟩ := tpOptimizePair_eq env tp tc prevTc
              rw [heq] at hfeasible ⊢
              dsimp only at hfeasible ⊢
              have hturn := fun q' ends => @PassResult.turn tp.queue q' hw _ prevTc tc
                { prevTc with finalvel := prevFinalvel, optimizationAtMax := atMax }
                { tc with maxvel := maxvel, finalvel := finalvel, activeDepth := x - 2 - hitPeaks } hprev htc hfinal rfl
                ⟨hfeasible.nonneg, hfeasible.brakes, hfeasible.prevMaxvel, hfeasible.maxvel, hfeasible.kink⟩ ends
              generalize (if tc.optimizationAtMax = true then hitPeaks + 1 else hitPeaks) = hitPeaks'
              split
              · exact hturn _ _ (.refl ..)
              · obtain ⟨tp', htp'⟩ : ∃ tp' : Tp ℝ, tp' = { tp with
                    queue := (tp.queue.setItem (tcqLen tp.queue - x) { tc with
                      maxvel := maxvel, finalvel := finalvel, activeDepth := x - 2 - hitPeaks }).setItem
                        (tcqLen tp.queue - x - 1) { prevTc with
                      finalvel := prevFinalvel, optimizationAtMax := atMax } } := ⟨_, rfl⟩
                have hlen : tcqLen tp'.queue = tcqLen tp.queue := by
                  rw [htp']
                  rfl
                have hrest := @ih tp' (by rw [htp']; exact setItem_wf (setItem_wf hw _ _) _ _)
                  (by rw [htp']; exact hlimit)
                  (x + 1) ?_ hitPeaks' hitNonTangent
                · rw [hlen, hind, htp'] at hrest
                  exact hturn _ _ hrest
                · -- of the segments further ahead the turn has changed the velocity of the first only
                  intro m a hm ha
                  rw [hlen] at hm
                  rw [htp'] at ha
                  change tcqItem ((tp.queue.setItem _ _).setItem _ _) m = some a at ha
                  rw [setPair_item hw hprev htc] at ha
                  split at ha
                  · cases ha
                    exact ⟨hplanPrev.accel, hplanPrev.target, hplanPrev.maxvel, hplanPrev.reqvel⟩
                  · rw [if_neg (by omega)] at ha
                    exact hitems m a (by omega) ha

/-- After every call of `tpRunOptimization`, the final velocity it planned for a segment can be braked in the next one
to the final velocity of that one, and is within the velocity limits that both had before; the final velocity of any
other segment is the one it had, or zero. -/
theorem lookAhead_feasible {env : TpEnv ℝ} {tp : Tp ℝ} (hw : tp.queue.WF) (hlimit : 0 ≤ tp.vLimit)
    (hscale : 0 ≤ env.maxAxisScale) (hitems : ∀ n tc, tcqItem tp.queue n = some tc → tc.Plannable) :
    (∀ n ∈ tpPlannedEnds env tp, ∃ prevTc tc, tcqItem tp.queue n = some prevTc ∧ tcqItem tp.queue (n + 1) = some tc ∧
      ∃ prevTc' tc', tcqItem (tpRunOptimization env tp).queue n = some prevTc' ∧
        tcqItem (tpRunOptimization env tp).queue (n + 1) = some tc' ∧ FeasibleEnd prevTc tc tc' prevTc'.finalvel) ∧
    ∀ n tc, tcqItem tp.queue n = some tc → n ∉ tpPlannedEnds env tp →
      ∃ tc', tcqItem (tpRunOptimization env tp).queue n = some tc' ∧
      (tc'.finalvel = tc.finalvel ∨ tc'.finalvel = 0) := by
  have hresult := tpOptimizeLogged_result hscale (env.arcBlendOptDepth + 1).toNat hw hlimit (x := 1)
    (fun m tc _ => hitems m tc) 0 false
  rw [tpOptimizeLogged_fst] at hresult
  exact ⟨fun n hn => (hresult.planned n hn).2, hresult.others⟩

/-- A line of four units that has its final length. -/
noncomputable def lookAheadLine : Tc ℝ :=
  { zeroTc with target := 4, maxvel := 2, reqvel := 4, maxaccel := 1, finalized := true, termCond := .tangent }

/-- Two such lines. -/
noncomputable def lookAheadTp : Tp ℝ :=
  { zeroTp with
    queue := { queue := fun _ => lookAheadLine, size := 2, len := 2, rlen := 0, start := 0, «end» := 0, rend := 0
               allFull := true }
    vLimit := 4, cycleTime := 1 }

theorem lookAheadTp_items {n : Int} {tc : Tc ℝ} (h : tcqItem lookAheadTp.queue n = some tc) : tc = lookAheadLine := by
  unfold tcqItem at h
  split at h
  · cases h
  · cases h
    rfl

/-- The pass plans the end of the first of them. -/
theorem lookAheadTp_planned : 0 ∈ tpPlannedEnds plainEnv lookAheadTp := by
  have hfirst : tcqItem lookAheadTp.queue (2 - 1) = some lookAheadLine := rfl
  have hsecond : tcqItem lookAheadTp.queue (2 - 1 - 1) = some lookAheadLine := rfl
  have hearly : ¬ (blendDistFraction : ℝ) / 2 ≤ lookAheadLine.progress / lookAheadLine.target := by
    show ¬ (blendDistFraction : ℝ) / 2 ≤ 0 / 4
    rw [blendDistFraction]
    norm_num
  unfold tpPlannedEnds
  rw [show (plainEnv.arcBlendOptDepth + 1).toNat = (plainEnv : TpEnv ℝ).arcBlendOptDepth.toNat + 1 from rfl]
  unfold tpOptimizeLogged
  dsimp only
  rw [show tcqLen lookAheadTp.queue = 2 from rfl, hfirst, hsecond]
  dsimp only
  rw [if_neg (by decide), if_neg hearly, if_neg (by decide)]
  split
  · exact List.mem_singleton.2 rfl
  · exact List.mem_cons_self

/-- Two lines. -/
theorem lookAhead_feasible_lines : ∃ prevTc tc, tcqItem lookAheadTp.queue 0 = some prevTc ∧
    tcqItem lookAheadTp.queue (0 + 1) = some tc ∧ ∃ prevTc' tc',
      tcqItem (tpRunOptimization plainEnv lookAheadTp).queue 0 = some prevTc' ∧
        tcqItem (tpRunOptimization plainEnv lookAheadTp).queue (0 + 1) = some tc' ∧
          FeasibleEnd prevTc tc tc' prevTc'.finalvel := by
  refine (@lookAhead_feasible plainEnv lookAheadTp ⟨by decide, by decide, by decide, rfl, by decide⟩
    (by norm_num [lookAheadTp]) (by norm_num [plainEnv]) ?_).1 0 lookAheadTp_planned
  intro n tc htc
  rw [lookAheadTp_items htc]
  refine ⟨?_, ?_, ?_, ?_⟩
  · show (0 : ℝ) ≤ tcGetOverallMaxAccel lookAheadLine
    norm_num [tcGetOverallMaxAccel, lookAheadLine, zeroTc, tcInit, fmax_real,
      show ¬ TermCond.tangent = TermCond.parabolic by decide]
  all_goals norm_num [lookAheadLine]

end SoemMotion
