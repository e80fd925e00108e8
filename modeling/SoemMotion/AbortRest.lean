import SoemMotion.MoveAccuracy
import SoemMotion.PathFollow

/-!
# Coming to rest after an abort

An abort asks every segment for the velocity zero.  In a cycle the head segment is then taken from the queue, is made
ready for that, or gets slower by what its acceleration gives; a planner whose head segment has stopped is reset where
it is.
-/

namespace SoemMotion

open Lib

/-! ### Braking -/

section Braking

variable {env : TpEnv ℝ} {tp : Tp ℝ} {tc : Tc ℝ}

theorem tpGetRealTargetVel_aborting (habort : tp.aborting = true) (env : TpEnv ℝ) (tc : Tc ℝ) :
    tpGetRealTargetVel env tp tc ≤ 0 := by
  have hscale : tpGetFeedScale env tp tc = 0 := by
    unfold tpGetFeedScale
    rw [habort]
    split
    · rfl
    · rfl
  unfold tpGetRealTargetVel
  dsimp only
  rw [hscale, mul_zero, fmin_real]
  exact min_le_left _ _

/-- A segment that is asked for no velocity is asked for none at its end either. -/
theorem tpGetRealFinalVel_stop (hstop : tpGetRealTargetVel env tp tc ≤ 0) (nexttc : Option (Tc ℝ)) :
    tpGetRealFinalVel env tp tc nexttc ≤ 0 := by
  unfold tpGetRealFinalVel
  split
  · exact le_rfl
  · dsimp only
    rw [fmin_real]
    refine (min_le_right _ _).trans ?_
    cases nexttc with
    | none => exact hstop
    | some next =>
      dsimp only
      rw [fmin_real]
      exact (min_le_left _ _).trans hstop

/-- Such a segment is braked by the trapezoidal profile. -/
theorem tpCycleAccel_stop (hstop : tpGetRealTargetVel env tp tc ≤ 0) (nexttc : Option (Tc ℝ)) :
    tpCycleAccel env tp tc nexttc = tpCalculateTrapezoidalAccel env tp tc nexttc := by
  have hramp : tpCalculateRampAccel env tp tc nexttc = none := by
    unfold tpCalculateRampAccel
    exact if_pos ((tpGetRealFinalVel_stop hstop nexttc).trans_lt one_pos)
  unfold tpCycleAccel
  rw [hramp, Option.getD_none]
  split <;> rfl

/-- The velocity saturated by a limit that is not positive: it is not positive either, unless it was below the limit. -/
theorem saturate_limit {x limit : ℝ} (hlimit : limit ≤ 0) : saturate x limit ≤ 0 ∨ 0 < saturate x limit ∧ x < 0 := by
  unfold saturate
  split
  · exact .inl hlimit
  · rename_i hx
    have hle := not_lt.1 hx
    split
    · rename_i hx'
      rcases hlimit.lt_or_eq with hneg | hzero
      · exact .inr ⟨by linarith, by linarith⟩
      · rw [hzero, neg_zero]
        exact .inl le_rfl
    · exact .inl (hle.trans hlimit)

/-- The velocity that allows to stop in time is negative only where the end of the segment is less than half a cycle
away. -/
theorem maxnewvel_neg {a dx v dt vf : ℝ} (ha : 0 < a) (hdt : 0 ≤ dt)
    (h : (if pmSq (a * dt * 0.5) < pmSq vf + a * (2 * dx - v * dt) + pmSq (a * dt * 0.5) then
      -(a * dt * 0.5) + pmSqrt (pmSq vf + a * (2 * dx - v * dt) + pmSq (a * dt * 0.5)) else -(a * dt * 0.5)) < 0) :
    2 * dx ≤ v * dt := by
  have hhalf : 0 ≤ a * dt * 0.5 := mul_nonneg (mul_nonneg ha.le hdt) (by norm_num)
  generalize a * dt * 0.5 = t at h hhalf
  by_cases hmore : pmSq t < pmSq vf + a * (2 * dx - v * dt) + pmSq t
  · exfalso
    rw [if_pos hmore] at h
    have hsq : pmSq t = t ^ 2 := by unfold pmSq; ring
    have hpos : 0 < pmSq vf + a * (2 * dx - v * dt) + pmSq t := by
      rw [hsq] at hmore ⊢
      exact (sq_nonneg t).trans_lt hmore
    have hroot : t < Real.sqrt (pmSq vf + a * (2 * dx - v * dt) + pmSq t) := by
      refine Real.lt_sqrt_of_sq_lt ?_
      rw [← hsq]
      exact hmore
    unfold pmSqrt at h
    rw [if_pos hpos, sqrt_real] at h
    linarith
  · have hvf : 0 ≤ pmSq vf := mul_self_nonneg vf
    have hle : a * (2 * dx - v * dt) ≤ 0 := by linarith
    have := nonpos_of_mul_nonpos_right hle ha
    linarith

/-- The acceleration of such a segment: it brakes, or its end is less than half a cycle away. -/
theorem tpCycleAccel_brakes (hstop : tpGetRealTargetVel env tp tc ≤ 0) (hforward : tp.reverseRun = false)
    (nexttc : Option (Tc ℝ)) (ha : 0 < tcGetTangentialMaxAccel tc) (hdt : tpTimeEpsilon ≤ tc.cycleTime)
    (hvel : 0 ≤ tc.currentvel) :
    tc.currentvel + (tpCycleAccel env tp tc nexttc).1 * tc.cycleTime ≤
        max (tc.currentvel - tcGetTangentialMaxAccel tc * tc.cycleTime) 0 ∨
      0 ≤ tc.currentvel + (tpCycleAccel env tp tc nexttc).1 * tc.cycleTime ∧
        2 * (tc.target - tc.progress) ≤ tc.currentvel * tc.cycleTime := by
  have hpos : 0 < tc.cycleTime := lt_of_lt_of_le (by unfold tpTimeEpsilon; norm_num) hdt
  have hgo : tcGetDistanceToGo tc tp.reverseRun = tc.target - tc.progress := by
    rw [hforward]
    rfl
  have hmax : fmax tc.cycleTime (tpTimeEpsilon : ℝ) = tc.cycleTime := by rw [fmax_real, max_eq_left hdt]
  rw [tpCycleAccel_stop hstop]
  unfold tpCalculateTrapezoidalAccel
  dsimp only
  rw [hgo, hmax]
  generalize tcGetTangentialMaxAccel tc = a at ha
  generalize hx : (if pmSq (a * tc.cycleTime * 0.5) < pmSq (tpGetRealFinalVel env tp tc nexttc) +
      a * (2 * (tc.target - tc.progress) - tc.currentvel * tc.cycleTime) +
      pmSq (a * tc.cycleTime * 0.5) then _ else _) = x
  have hlimit := @saturate_limit x _ hstop
  generalize saturate x (tpGetRealTargetVel env tp tc) = newvel at hlimit
  have hstep : (newvel - tc.currentvel) / tc.cycleTime * tc.cycleTime = newvel - tc.currentvel :=
    div_mul_cancel₀ _ hpos.ne'
  -- either the new velocity brakes, or it is the end of the segment that set it
  rcases hlimit with hneg | ⟨hnew, hxneg⟩
  · left
    have hle : saturate ((newvel - tc.currentvel) / tc.cycleTime) a * tc.cycleTime ≤
        max (-(a * tc.cycleTime)) (newvel - tc.currentvel) := by
      have hslow : ¬ a < (newvel - tc.currentvel) / tc.cycleTime := by
        have : (newvel - tc.currentvel) / tc.cycleTime ≤ 0 := div_nonpos_of_nonpos_of_nonneg (by linarith) hpos.le
        linarith
      unfold saturate
      rw [if_neg hslow]
      split
      · refine le_trans ?_ (le_max_left _ _)
        rw [neg_mul]
      · rw [hstep]
        exact le_max_right _ _
    rcases le_max_iff.1 hle with h | h
    · exact le_max_of_le_left (by linarith)
    · exact le_max_of_le_right (by linarith)
  · right
    refine ⟨?_, maxnewvel_neg ha hpos.le (hx.trans_lt hxneg)⟩
    have hfloor : (newvel - tc.currentvel) / tc.cycleTime ≤ saturate ((newvel - tc.currentvel) / tc.cycleTime) a ∨
        saturate ((newvel - tc.currentvel) / tc.cycleTime) a = a := by
      unfold saturate
      split
      · exact .inr rfl
      · split
        · exact .inl (by linarith)
        · exact .inl le_rfl
    rcases hfloor with h | h
    · have := mul_le_mul_of_nonneg_right h hpos.le
      linarith
    · rw [h]
      have := mul_pos ha hpos
      linarith

/-- A segment at its end is made ready to be taken from the queue. -/
theorem tpCheckEndCondition_splits (hforward : tp.reverseRun = false) (env : TpEnv ℝ) (nexttc : Option (Tc ℝ))
    (hend : tc.progress = tc.target) : (tpCheckEndCondition env tp tc nexttc).splitting = true := by
  have hgo : tcGetDistanceToGo { tc with cycleTime := tp.cycleTime } tp.reverseRun ≤ (tpPosEpsilon : ℝ) := by
    rw [hforward]
    show tc.target - tc.progress ≤ 1
    rw [hend, sub_self]
    exact zero_le_one
  have hsplit : ∀ (u : Tc ℝ) (vf : ℝ), (tcSetSplitCycle u 0 vf).splitting = true := by
    intro u vf
    unfold tcSetSplitCycle
    rw [if_neg (by simp)]
  unfold tpCheckEndCondition
  dsimp only
  rw [if_pos hgo, hforward, Bool.or_false, if_neg Bool.false_ne_true]
  split
  · exact hsplit _ _
  · exact hsplit _ _

/-- Such a segment is made ready to be taken from the queue, or it is slower after the cycle. -/
theorem tpAdvance_brakes (hstop : tpGetRealTargetVel env tp tc ≤ 0) (hforward : tp.reverseRun = false)
    (nexttc : Option (Tc ℝ)) (ha : 0 < tcGetTangentialMaxAccel tc) (hdt : tpTimeEpsilon ≤ tc.cycleTime)
    (hvel : 0 ≤ tc.currentvel) (hrange : 0 ≤ tc.progress ∧ tc.progress ≤ tc.target) :
    (tpAdvance env tp tc nexttc).splitting = true ∨ (tpAdvance env tp tc nexttc).currentvel ≤
      max (tc.currentvel - tcGetTangentialMaxAccel tc * tc.cycleTime) 0 := by
  obtain ⟨u, hu⟩ : ∃ u, (if tc.blendingNext = true then tc else { tc with velAtBlendStart := tc.currentvel }) = u :=
    ⟨_, rfl⟩
  have hsame : tcGetTangentialMaxAccel u = tcGetTangentialMaxAccel tc ∧ u.progress = tc.progress ∧
      u.target = tc.target ∧
      u.currentvel = tc.currentvel ∧ u.cycleTime = tc.cycleTime ∧
      tpGetRealTargetVel env tp u = tpGetRealTargetVel env tp tc := by
    rw [← hu]
    split <;> exact ⟨rfl, rfl, rfl, rfl, rfl, rfl⟩
  obtain ⟨haccel, hprogress, htarget, hvel', hcycle, htargetVel⟩ := hsame
  rw [← htargetVel] at hstop
  rw [← haccel] at ha ⊢
  rw [← hcycle] at hdt ⊢
  rw [← hvel'] at hvel ⊢
  rw [← hprogress, ← htarget] at hrange
  have hbrakes := tpCycleAccel_brakes hstop hforward nexttc ha hdt hvel
  have hpos : 0 < u.cycleTime := lt_of_lt_of_le (by unfold tpTimeEpsilon; norm_num) hdt
  unfold tpAdvance
  rw [hu]
  dsimp only
  generalize (tpCycleAccel env tp u nexttc).1 = acc at hbrakes
  generalize (tpCycleAccel env tp u nexttc).2 = velDesired
  have hkept : ∀ d : Tc ℝ, (tpCheckEndCondition env tp d nexttc).currentvel = d.currentvel := by
    intro d
    obtain ⟨_, _, _, _, _, heq, -⟩ := tpCheckEndCondition_eq env tp d nexttc
    rw [heq]
  rw [hforward, hkept]
  -- a velocity below zero becomes zero, any other moves the segment on
  by_cases hneg : u.currentvel + acc * u.cycleTime < 0
  · right
    obtain ⟨progress, onFinalDecel, -, heq⟩ := tcUpdateDistFromAccel_stops hneg velDesired
    rw [heq]
    exact le_max_right _ _
  · obtain ⟨onFinalDecel, heq⟩ :=
      tcUpdateDistFromAccel_moves (not_lt.1 hneg) (hrange.1.trans hrange.2) velDesired
    rw [heq]
    rcases hbrakes with hslow | ⟨hnext, hnear⟩
    · exact .inr hslow
    · left
      refine tpCheckEndCondition_splits hforward env nexttc ?_
      have hfar : u.target ≤ u.progress +
          (u.currentvel + (u.currentvel + acc * u.cycleTime)) / 2 * u.cycleTime := by
        have := mul_nonneg hnext hpos.le
        nlinarith
      show max 0 (min _ u.target) = u.target
      rw [min_eq_right hfar, max_eq_right (hrange.1.trans hrange.2)]

end Braking

/-! ### The accelerations of a run -/

/-- The acceleration of a line is positive, and no kink reduces it. -/
structure Tc.Pulls (tc : Tc ℝ) : Prop where
  maxaccel : 0 < tc.maxaccel
  kinks : tc.kinkAccelReduce = 0 ∧ tc.kinkAccelReducePrev = 0

theorem Tc.Pulls.cycled {a b : Tc ℝ} (h : a.Pulls) (hc : a.Cycled b) : b.Pulls :=
  ⟨(hc.keeps Tc.maxaccel fun _ => rfl).symm ▸ h.maxaccel, (hc.keeps Tc.kinkAccelReduce fun _ => rfl).trans h.kinks.1,
    (hc.keeps Tc.kinkAccelReducePrev fun _ => rfl).trans h.kinks.2⟩

theorem Tc.Pulls.replanned {a b : Tc ℝ} (h : a.Pulls) (hr : a.Replanned b) : b.Pulls :=
  ⟨(hr.keeps Tc.maxaccel fun _ => rfl).symm ▸ h.maxaccel, (hr.keeps Tc.kinkAccelReduce fun _ => rfl).trans h.kinks.1,
    (hr.keeps Tc.kinkAccelReducePrev fun _ => rfl).trans h.kinks.2⟩

theorem Tc.Pulls.accel {p q : EmcPose ℝ} {tc : Tc ℝ} (h : tc.Pulls) (hleg : tc.OnLeg p q) :
    0 < tcGetTangentialMaxAccel tc := by
  unfold tcGetTangentialMaxAccel
  rw [hleg.coords]
  show 0 < tcGetOverallMaxAccel tc
  unfold tcGetOverallMaxAccel
  rw [h.kinks.1, h.kinks.2, fmax_real, max_self, sub_zero]
  dsimp only
  refine mul_pos h.maxaccel ?_
  split
  · norm_num
  · exact one_pos

/-- All queued lines have such accelerations. -/
def Tp.Pulls (tp : Tp ℝ) : Prop := ∀ tc ∈ tp.queue.items, tc.Pulls

theorem exists_of_forall₂ {α β : Type} {R : α → β → Prop} {as : List α} {bs : List β} (h : List.Forall₂ R as bs) {b : β}
    (hb : b ∈ bs) : ∃ a ∈ as, R a b := by
  induction h with
  | nil => cases hb
  | cons hab _ ih =>
    rcases List.mem_cons.1 hb with rfl | hb
    · exact ⟨_, List.mem_cons_self, hab⟩
    · obtain ⟨a, ha, hR⟩ := ih hb
      exact ⟨a, List.mem_cons_of_mem _ ha, hR⟩

section Items

variable {P : Tc ℝ → Prop} {tp : Tp ℝ}

theorem Tcq.Cells.forall_items {a b : Tcq (Tc ℝ)} {R : Tc ℝ → Tc ℝ → Prop} (hcells : a.Cells R b)
    (hR : ∀ {t u : Tc ℝ}, P t → R t u → P u) (h : ∀ tc ∈ a.items, P tc) : ∀ tc ∈ b.items, P tc := by
  intro t ht
  obtain ⟨tc, htc, hrel⟩ := exists_of_forall₂ hcells.items ht
  exact hR (h tc htc) hrel

/-- What a segment keeps from cycle to cycle, the queued ones keep. -/
theorem tpRunCycle_items (hP : ∀ {t u : Tc ℝ}, P t → t.Cycled u → P u) (h : ∀ tc ∈ tp.queue.items, P tc)
    (hforward : tp.reverseRun = false) (env : TpEnv ℝ) : ∀ tc ∈ (tpRunCycle env tp).queue.items, P tc := by
  have hresult := tpRunCycle_result env tp
  generalize tpRunCycle env tp = tp' at hresult
  cases hresult with
  | emptied hqueue hreverse hspindle =>
    intro t ht
    rw [hqueue] at ht
    cases ht
  | advanced ha => exact ha.cells.forall_items hP h
  | @popped _ _ q ha hq hqueue hgoal hreverse hspindle =>
    rw [hforward, if_neg Bool.false_ne_true] at hqueue
    intro t ht
    rw [tcqPop_items hqueue] at ht
    exact hq.forall_items hP h t (List.mem_of_mem_tail ht)

/-- What a segment keeps when it is replanned and every new line has, the queued ones have. -/
theorem tpAddLine_items (hP : ∀ {t u : Tc ℝ}, P t → t.Replanned u → P u) (h : ∀ tc ∈ tp.queue.items, P tc)
    (hw : tp.queue.WF) (env : TpEnv ℝ) (stop : EmcPose ℝ) (canonMotionType : Int) (vel iniMaxvel acc : ℝ)
    (enables : UInt8) (atspeed : Bool) (indexerJnum : Int)
    (hnew : (tpAddLine env tp stop canonMotionType vel iniMaxvel acc enables atspeed indexerJnum).2 = .ok →
      P { newLine tp stop canonMotionType vel iniMaxvel acc enables atspeed indexerJnum with id := tp.nextId }) :
    ∀ tc ∈ (tpAddLine env tp stop canonMotionType vel iniMaxvel acc enables atspeed indexerJnum).1.queue.items,
      P tc := by
  have hline := tpAddLine_line env hw stop canonMotionType vel iniMaxvel acc enables atspeed indexerJnum
  generalize tpAddLine env tp stop canonMotionType vel iniMaxvel acc enables atspeed indexerJnum = r at hline hnew
  cases hline with
  | @refused q err hq herr => exact hq.forall_items hP h
  | @appended q q₁ q₂ nextId depth hlong hq hput hq₂ =>
    refine hq₂.forall_items hP fun t ht => ?_
    rw [tcqPut_items (hq.wf hw) hput] at ht
    rcases List.mem_append.1 ht with ht | ht
    · exact hq.forall_items hP h t ht
    · rw [List.mem_singleton.1 ht]
      exact hnew rfl

end Items

theorem Tp.Pulls.cycle {tp : Tp ℝ} (h : tp.Pulls) (hforward : tp.reverseRun = false) (env : TpEnv ℝ) :
    (tpRunCycle env tp).Pulls :=
  tpRunCycle_items (fun ht hc => ht.cycled hc) h hforward env

theorem Tp.Pulls.addLine {tp : Tp ℝ} (h : tp.Pulls) (hw : tp.queue.WF) (env : TpEnv ℝ) (stop : EmcPose ℝ)
    (canonMotionType : Int) (vel iniMaxvel acc : ℝ) (enables : UInt8) (atspeed : Bool) (indexerJnum : Int)
    (hacc : (tpAddLine env tp stop canonMotionType vel iniMaxvel acc enables atspeed indexerJnum).2 = .ok → 0 < acc) :
    (tpAddLine env tp stop canonMotionType vel iniMaxvel acc enables atspeed indexerJnum).1.Pulls :=
  tpAddLine_items (fun ht hr => ht.replanned hr) h hw env stop canonMotionType vel iniMaxvel acc enables atspeed
    indexerJnum fun hok => ⟨hacc hok, rfl, rfl⟩

/-! ### One cycle of an abort -/

/-- An abort under way on the path through the stops. -/
structure Braking (start : EmcPose ℝ) (stops : List (EmcPose ℝ)) (tp : Tp ℝ) : Prop where
  follows : Trip.Follows start ⟨tp, stops⟩
  aborting : tp.aborting = true
  cycleTime : tpTimeEpsilon ≤ tp.cycleTime
  pulls : tp.Pulls

/-- The planner after an abort. -/
structure Tp.Reset (tp : Tp ℝ) : Prop where
  empty : tp.queue.len = 0
  aborting : tp.aborting = false
  pausing : tp.pausing = false
  done : tp.done = true
  goalPos : tp.goalPos = tp.currentPos

/-- What is left to do until the head stands still: the queued segments, and the cycles that stop the head segment. -/
noncomputable def brakingLeft (secs : ℝ) (items : List (Tc ℝ)) : Nat × Nat :=
  (items.length, match items with
    | [] => 0
    | tc :: _ => if tc.splitting then 0 else ⌈tc.currentvel / (tcGetTangentialMaxAccel tc * secs)⌉₊ + 1)

noncomputable def Tp.brakingLeft (tp : Tp ℝ) : Nat × Nat := SoemMotion.brakingLeft tp.cycleTime tp.queue.items

theorem ceil_slower {a dt v w : ℝ} (ha : 0 < a) (hdt : 0 < dt) (hv : 0 < v) (hw : w ≤ max (v - a * dt) 0) :
    ⌈w / (a * dt)⌉₊ < ⌈v / (a * dt)⌉₊ := by
  have hpos := mul_pos ha hdt
  have hceil : 0 < ⌈v / (a * dt)⌉₊ := Nat.ceil_pos.2 (div_pos hv hpos)
  rcases le_max_iff.1 hw with hle | hle
  · have hdiv : w / (a * dt) ≤ v / (a * dt) - 1 := by
      rw [div_le_iff₀ hpos, sub_mul, div_mul_cancel₀ _ hpos.ne', one_mul]
      exact hle
    have := Nat.ceil_le_ceil hdiv
    rw [Nat.ceil_sub_one] at this
    omega
  · rw [Nat.ceil_eq_zero.2 (div_nonpos_of_nonpos_of_nonneg hle hpos.le)]
    exact hceil

/-- No segment like this one is asked for a velocity within a cycle of the planner. -/
def AsksStop (env : TpEnv ℝ) (tp : Tp ℝ) (tc : Tc ℝ) : Prop :=
  ∀ v t, tp.Moves v → tc.Cycled t → tpGetRealTargetVel env v t ≤ 0

/-- A turn that pops its head segment leaves less to do. -/
theorem brakingLeft_popped (secs : ℝ) {tc t : Tc ℝ} {rest r : List (Tc ℝ)} (hlen : r.length = rest.length)
    (hremove : t.remove = true) : Prod.Lex (· < ·) (· < ·) (brakingLeft secs (if t.remove = true then r else t :: r))
      (brakingLeft secs (tc :: rest)) := by
  rw [if_pos hremove]
  refine Prod.Lex.left _ _ ?_
  rw [List.length_cons, hlen]
  exact Nat.lt_succ_self _

/-- A turn of a head segment that is to stop leaves less to do. -/
theorem Turn.brakes {env : TpEnv ℝ} {tp : Tp ℝ} {tc t : Tc ℝ} {rest r : List (Tc ℝ)} {pos : EmcPose ℝ} {w : Int}
    {p q : EmcPose ℝ} (h : Turn env tp tc rest pos t r) (hstop : AsksStop env tp tc) (hforward : tp.reverseRun = false)
    (hcycle : tpTimeEpsilon ≤ tp.cycleTime) (hhead : tc.Runs w p q) (haccel : 0 < tcGetTangentialMaxAccel tc)
    (hmoving : tc.currentvel ≠ 0) :
    Prod.Lex (· < ·) (· < ·) (brakingLeft tp.cycleTime (if t.remove = true then r else t :: r))
      (brakingLeft tp.cycleTime (tc :: rest)) := by
  -- a popped segment lowers the first component, every other turn the second
  cases h with
  | flagged hremove ht hr => exact brakingLeft_popped _ hr.length_eq.symm (ht.remove.trans hremove)
  | @regular v t₀ _ next _ _ hremove hsplit hv ht ht' hr =>
    by_cases hdone : t.remove = true
    · exact brakingLeft_popped _ hr.length_eq.symm hdone
    · rw [if_neg hdone]
      have hcycle' : v.cycleTime = tp.cycleTime := hv.moves.cycleTime
      have haccel₀ : tcGetTangentialMaxAccel t₀ = tcGetTangentialMaxAccel tc := ht.cycled.keeps _ fun _ => rfl
      obtain ⟨t₁, ht₁⟩ : ∃ t₁, ({ t₀ with cycleTime := v.cycleTime } : Tc ℝ) = t₁ := ⟨_, rfl⟩
      have hsame : tcGetTangentialMaxAccel t₁ = tcGetTangentialMaxAccel tc ∧ t₁.currentvel = tc.currentvel ∧
          t₁.cycleTime = tp.cycleTime ∧ t₁.progress = tc.progress ∧ t₁.target = tc.target := by
        rw [← ht₁]
        exact ⟨haccel₀, ht.currentvel, hcycle', ht.progress, ht.cycled.keeps Tc.target fun _ => rfl⟩
      obtain ⟨haccel₁, hvel₁, hcycle₁, hprogress₁, htarget₁⟩ := hsame
      have hcycled : tc.Cycled t₁ := by
        rw [← ht₁]
        exact ht.cycled
      have hslower := tpAdvance_brakes (hstop v t₁ hv.moves hcycled)
        (hv.moves.reverseRun.trans hforward) next (haccel₁ ▸ haccel)
        (hcycle₁ ▸ hcycle) (hvel₁ ▸ hhead.vel) (by rw [hprogress₁, htarget₁]; exact hhead.range)
      rw [ht₁] at ht'
      have hafter : tcGetTangentialMaxAccel t = tcGetTangentialMaxAccel tc := by
        rw [ht'.cycled.keeps tcGetTangentialMaxAccel fun _ => rfl,
          (tpAdvance_cycled env v t₁ next).keeps tcGetTangentialMaxAccel
          fun _ => rfl, haccel₁]
      unfold brakingLeft
      rw [List.length_cons, List.length_cons, hr.length_eq]
      refine Prod.Lex.right _ ?_
      dsimp only
      rw [hsplit, if_neg Bool.false_ne_true, hafter, ht'.splitting, ht'.currentvel]
      rcases hslower with hsplits | hslower
      · rw [hsplits, if_pos rfl]
        exact Nat.succ_pos _
      · rw [haccel₁, hvel₁, hcycle₁] at hslower
        have hpos : 0 < tp.cycleTime := lt_of_lt_of_le (by unfold tpTimeEpsilon; norm_num) hcycle
        have := ceil_slower haccel hpos (lt_of_le_of_ne hhead.vel hmoving.symm) hslower
        split
        · exact Nat.succ_pos _
        · omega
  | splitLast hremove hsplit ht => exact brakingLeft_popped _ rfl rfl
  | split hremove hsplit hv ht hn => exact brakingLeft_popped _ rfl rfl

/-- A head segment that has stopped ends the abort. -/
theorem tpRunCycle_stopped {env : TpEnv ℝ} {tp : Tp ℝ} {tc : Tc ℝ} {rest : List (Tc ℝ)}
    (hforward : tp.reverseRun = false)
    (hitems : tp.queue.items = tc :: rest) (hstop : tpAbortStopped (tpUpdateInitialStatus tp) tc rest.head? = true) :
    tpRunCycle env tp = tpResetAborted (tpUpdateInitialStatus tp) := by
  have hnext : tcqItem tp.queue (if tp.reverseRun = true then -1 else 1) = rest.head? := by
    rw [hforward, if_neg Bool.false_ne_true, tcqItem_one hitems]
  unfold tpRunCycle tpRunSegment
  dsimp only
  rw [tcqItem_zero hitems, hnext]
  dsimp only
  rw [if_pos hstop]

/-- A cycle of an abort: the planner is reset where it is, or it goes on braking on the path with less left to do. -/
theorem Braking.cycle {start : EmcPose ℝ} {stops : List (EmcPose ℝ)}
    {tp : Tp ℝ} (h : Braking start stops tp) (env : TpEnv ℝ) :
    (tpRunCycle env tp).Reset ∧ (tpRunCycle env tp).currentPos = tp.currentPos ∨
      Braking start stops (tpRunCycle env tp) ∧
        Trip.travelled start ⟨tp, stops⟩ ≤ Trip.travelled start ⟨tpRunCycle env tp, stops⟩ ∧
          Prod.Lex (· < ·) (· < ·) (tpRunCycle env tp).brakingLeft tp.brakingLeft := by
  obtain ⟨passed, queued, hstops, hway⟩ := h.follows.path
  have hw : tp.queue.WF := h.follows.wf
  change Underway tp.spindle.waitingForAtspeed _ _ tp.currentPos tp.queue.items at hway
  generalize hitems : tp.queue.items = items at hway
  generalize hpos : tp.currentPos = pos at hway
  cases hway with
  | arrived =>
    left
    rw [tpRunCycle_empty ((items_nil_iff hw).1 hitems)]
    exact ⟨⟨rfl, rfl, rfl, rfl, rfl⟩, hpos⟩
  | @going q stops' tc rest hhead hrest =>
    -- nothing behind the head moves, so the abort ends when the head stands still
    have hnext : ∀ next, rest.head? = some next → next.currentvel = 0 := by
      intro next hnext
      cases stops' with
      | nil =>
        cases hrest
        cases hnext
      | cons q' stops' =>
        cases hrest with
        | cons hahead _ =>
          cases hnext
          exact hahead.currentvel
    by_cases hstopped : tc.currentvel = 0
    · left
      have hstop : tpAbortStopped (tpUpdateInitialStatus tp) tc rest.head? = true := by
        unfold tpAbortStopped
        rw [show (tpUpdateInitialStatus tp).aborting = true from h.aborting, hstopped]
        cases hafter : rest.head? with
        | none => simp
        | some next => simp [hnext next hafter]
      rw [tpRunCycle_stopped h.follows.forward hitems hstop]
      exact ⟨⟨rfl, rfl, rfl, rfl, rfl⟩, hpos⟩
    · right
      have hgo : tpAbortStopped tp tc rest.head? = false := by
        unfold tpAbortStopped
        rw [beq_false_of_ne hstopped, Bool.and_false, Bool.false_and]
      obtain ⟨hfollows, htravelled, -⟩ := h.follows.cycle env fun tc' rest' hitems' => by
        cases hitems.symm.trans hitems'
        exact hgo
      obtain ⟨t, r, hturn, hitems', hwf, hgoal, hsame⟩ := tpRunCycle_turn env hw h.follows.forward hitems hgo
        hhead.blendingNext hhead.termCond hhead.id hhead.indexer
      refine ⟨⟨hfollows, hsame.aborting.trans h.aborting, hsame.cycleTime.symm ▸ h.cycleTime,
        h.pulls.cycle h.follows.forward env⟩, htravelled, ?_⟩
      unfold Tp.brakingLeft
      rw [hsame.cycleTime, hitems', hitems]
      have hstop : AsksStop env tp tc := fun v t hv _ => by
        refine tpGetRealTargetVel_aborting ?_ env t
        obtain ⟨_, _, _, _, _, _, rfl⟩ := hv
        exact h.aborting
      refine hturn.brakes hstop h.follows.forward h.cycleTime hhead ?_ hstopped
      exact (h.pulls tc (hitems ▸ List.mem_cons_self)).accel hhead.leg

/-! ### The run of an abort -/

/-- Cycle after cycle, with what the planner reads in each of them. -/
noncomputable def tpRunCycles (envs : Nat → TpEnv ℝ) (tp : Tp ℝ) : Nat → Tp ℝ
  | 0 => tp
  | n + 1 => tpRunCycle (envs n) (tpRunCycles envs tp n)

/-- An abort brakes on the path until a cycle resets the planner where it is. -/
theorem Braking.rests {start : EmcPose ℝ} {stops : List (EmcPose ℝ)} {tp : Tp ℝ} (h : Braking start stops tp)
    (envs : Nat → TpEnv ℝ) : ∃ n, (∀ m ≤ n, Braking start stops (tpRunCycles envs tp m)) ∧
      (∀ m < n, Trip.travelled start ⟨tpRunCycles envs tp m, stops⟩ ≤
        Trip.travelled start ⟨tpRunCycles envs tp (m + 1), stops⟩) ∧
      (tpRunCycles envs tp (n + 1)).Reset ∧
        (tpRunCycles envs tp (n + 1)).currentPos = (tpRunCycles envs tp n).currentPos := by
  suffices hfrom : ∀ left : Nat × Nat, ∀ k, (tpRunCycles envs tp k).brakingLeft = left →
      (∀ m ≤ k, Braking start stops (tpRunCycles envs tp m)) →
      (∀ m < k, Trip.travelled start ⟨tpRunCycles envs tp m, stops⟩ ≤
        Trip.travelled start ⟨tpRunCycles envs tp (m + 1), stops⟩) → _ by
    refine hfrom _ 0 rfl (fun m hm => ?_) fun m hm => absurd hm (Nat.not_lt_zero m)
    rw [Nat.le_zero.1 hm]
    exact h
  intro left
  -- well-founded induction on what the abort still has to do
  induction left using (Prod.lex Nat.lt_wfRel Nat.lt_wfRel).wf.induction with
  | h left ih =>
    intro k hk hbraking hforth
    rcases (hbraking k le_rfl).cycle (envs k) with ⟨hreset, hpos⟩ | ⟨hnext, htravelled, hless⟩
    · exact ⟨k, hbraking, hforth, hreset, hpos⟩
    · refine ih _ (hk ▸ hless) (k + 1) rfl ?_ ?_
      · intro m hm
        rcases Nat.le_succ_iff.1 hm with hm | rfl
        · exact hbraking m hm
        · exact hnext
      · intro m hm
        rcases (Nat.lt_succ_iff_lt_or_eq).1 hm with hm | rfl
        · exact hforth m hm
        · exact htravelled

/-- The calls that append a line with a positive acceleration, none of whose parts is rounded to a point. -/
def PulledLine (p q : EmcPose ℝ) (acc : ℝ) : Prop := LineExact p q ∧ 0 < acc

/-- What an abort finds in a trip. -/
structure Trip.Ready (start : EmcPose ℝ) (s : Trip) : Prop extends s.Goes start where
  long : tpTimeEpsilon ≤ s.tp.cycleTime
  pulls : s.tp.Pulls

theorem Trip.Ready.step {start : EmcPose ℝ} {s t : Trip} {c : TpCall ℝ} (h : s.Ready start)
    (hc : TripStep PulledLine s c t) :
    t.Ready start := by
  have hgoes := (h.toGoes.step (fun _ _ _ hline _ => hline.1) hc).1
  obtain ⟨rfl, hcall⟩ := hc
  cases c with
  | addLine env stop canonMotionType vel iniMaxvel acc enables atspeed indexerJnum =>
    refine ⟨hgoes, ?_, ?_⟩
    · have hline := tpAddLine_line env h.wf stop canonMotionType vel iniMaxvel acc enables atspeed indexerJnum
      show _ ≤ (tpAddLine env s.tp stop canonMotionType vel iniMaxvel acc enables atspeed indexerJnum).1.cycleTime
      generalize tpAddLine env s.tp stop canonMotionType vel iniMaxvel acc enables atspeed indexerJnum = r at hline
      cases hline <;> exact h.long
    · exact h.pulls.addLine h.wf env stop canonMotionType vel iniMaxvel acc enables atspeed indexerJnum
        fun hok => (hcall hok).2.2.2
  | runCycle env =>
    refine ⟨hgoes, ?_, h.pulls.cycle h.forward env⟩
    show _ ≤ (tpRunCycle env s.tp).cycleTime
    rw [tpRunCycle_cycleTime]
    exact h.long
  | _ => exact hcall.elim

theorem Trip.Ready.abort {start : EmcPose ℝ} {s : Trip} (h : s.Ready start) : Braking start s.stops (tpAbort s.tp) := by
  have habort : tpAbort s.tp = { tpPause s.tp with aborting := true } := by
    unfold tpAbort
    rw [h.aborting, if_neg Bool.false_ne_true]
  rw [habort]
  exact ⟨⟨h.wf, h.forward, h.cycleTime, h.termCond, h.goalPos, h.path⟩, rfl, h.long, h.pulls⟩

/-- Whenever a trip of lines is aborted, the planner refuses further lines, stays on the path and does not go back,
until after finitely many cycles it is reset where it is. -/
theorem abort_rests {tp : Tp ℝ} (hstart : tp.Parked) (hlong : tpTimeEpsilon ≤ tp.cycleTime) {s : Trip}
    (h : Reaches (TripStep PulledLine) ⟨tp, []⟩ s) (envs : Nat → TpEnv ℝ) :
    ∃ n, (∀ m ≤ n, Trip.OnPath tp.currentPos ⟨tpRunCycles envs (tpAbort s.tp) m, s.stops⟩ ∧
        ∀ env stop canonMotionType vel iniMaxvel acc enables atspeed indexerJnum,
          tpAddLine env (tpRunCycles envs (tpAbort s.tp) m) stop canonMotionType vel iniMaxvel acc enables atspeed
            indexerJnum = (tpRunCycles envs (tpAbort s.tp) m, .fail)) ∧
      (∀ m < n, Trip.travelled tp.currentPos ⟨tpRunCycles envs (tpAbort s.tp) m, s.stops⟩ ≤
        Trip.travelled tp.currentPos ⟨tpRunCycles envs (tpAbort s.tp) (m + 1), s.stops⟩) ∧
      (tpRunCycles envs (tpAbort s.tp) (n + 1)).Reset ∧
        (tpRunCycles envs (tpAbort s.tp) (n + 1)).currentPos = (tpRunCycles envs (tpAbort s.tp) n).currentPos := by
  have hready : s.Ready tp.currentPos := by
    refine h.invariant (I := Trip.Ready tp.currentPos) (fun u c v hu hc => hu.step hc) ?_
    refine ⟨⟨hstart.follows, hstart.aborting⟩, hlong, ?_⟩
    intro tc htc
    rw [(items_nil_iff hstart.wf).2 hstart.empty] at htc
    cases htc
  obtain ⟨n, hbraking, hforth, hreset, hpos⟩ := hready.abort.rests envs
  refine ⟨n, fun m hm => ⟨(hbraking m hm).follows.onPath, fun env stop _ vel iniMaxvel acc _ _ _ => ?_⟩,
    hforth, hreset, hpos⟩
  unfold tpAddLine
  rw [if_pos (hbraking m hm).aborting]

/-- The first cycle of a line is followed by an abort. -/
theorem abort_rests_line : ∃ n, (tpRunCycles (fun _ => plainEnv)
    (tpAbort (((⟨parkedTp, []⟩ : Trip).run (lineCallTo 100)).run (.runCycle plainEnv)).tp) n).Reset := by
  obtain ⟨hid, hwait, hgoal, -, hcycle, -⟩ := parkedTp_settings
  have hline : PulledLine parkedTp.goalPos { (emcPoseZero : EmcPose ℝ) with tran := ⟨100, 0, 0⟩ } 1 := by
    rw [hgoal]
    refine ⟨⟨.inr ?_, .inl rfl, .inl rfl⟩, one_pos⟩
    show (pmCartLineInit ⟨0, 0, 0⟩ ⟨100, 0, 0⟩).tmagZero = false
    rw [pmCartLineInit_alongX (by norm_num)]
  obtain ⟨n, -, -, hreset, -⟩ := abort_rests parkedTp_parked (by rw [hcycle]; norm_num [tpTimeEpsilon])
    (((Reaches.refl _).tail (e := lineCallTo 100)
    ⟨rfl, fun _ => ⟨by rw [hid, hwait]; exact one_ne_zero, rfl, hline⟩⟩).tail
      (e := .runCycle plainEnv) ⟨rfl, trivial⟩) fun _ => plainEnv
  exact ⟨n + 1, hreset⟩

/-- A line of one unit that also turns the first rotary axis, by less than `CART_FUZZ`. -/
noncomputable def slantedStop : EmcPose ℝ := { (emcPoseZero : EmcPose ℝ) with tran := ⟨1, 0, 0⟩, a := 1.0e-9 }

theorem slanted_position {tc : Tc ℝ} (hcoords : tc.coords = .line (pmLine9Init emcPoseZero slantedStop))
    (htarget : tc.target = 1) :
    (tcGetPos tc).tran.x = tc.progress ∧ (tcGetPos tc).a = 1.0e-9 := by
  have hpoint : (pmCartLineInit (⟨0, 0, 0⟩ : PmCartesian ℝ) ⟨1.0e-9, 0, 0⟩).tmagZero = true := by
    rw [pmCartLineInit_tmagZero]
    norm_num [pmCartInfNorm, pmCartCartSub, cartFuzz, fabs_real, fmax_real, abs_of_pos]
  unfold tcGetPos tcGetPosReal
  rw [hcoords, htarget]
  constructor
  · show (pmCartLinePoint (pmCartLineInit ⟨0, 0, 0⟩ ⟨1, 0, 0⟩)
      (tc.progress * (pmCartLineInit ⟨0, 0, 0⟩ ⟨1, 0, 0⟩).tmag / 1)).x = tc.progress
    rw [pmCartLineInit_alongX le_rfl]
    simp [pmCartLinePoint, pmCartCartAdd, pmCartScalMult]
  · show (pmCartLinePoint (pmCartLineInit ⟨0, 0, 0⟩ ⟨1.0e-9, 0, 0⟩) _).x = 1.0e-9
    unfold pmCartLinePoint
    rw [if_pos hpoint, pmCartLineInit_end]

theorem tpCompleteSegment_currentPos (env : TpEnv ℝ) (tp : Tp ℝ) (tc : Tc ℝ) :
    (tpCompleteSegment env tp tc).currentPos = tp.currentPos := by
  unfold tpCompleteSegment
  split
  · rfl
  · dsimp only
    split <;> rfl

theorem tpRunCycle_currentPos (env : TpEnv ℝ) {tp tp' : Tp ℝ} {tc : Option (Tc ℝ)}
    (h : tpRunSegment env tp = (tp', tc)) : (tpRunCycle env tp).currentPos = tp'.currentPos := by
  unfold tpRunCycle
  rw [h]
  cases tc with
  | none => rfl
  | some tc =>
    dsimp only
    split
    · exact tpCompleteSegment_currentPos env tp' tc
    · rfl

theorem tpAbort_currentPos (tp : Tp ℝ) : (tpAbort tp).currentPos = tp.currentPos := by
  unfold tpAbort
  split <;> rfl

theorem slantedStop_length : lineLength (emcPoseZero : EmcPose ℝ).tran slantedStop.tran = 1 := by
  show pmCartMag (pmCartCartSub ⟨1, 0, 0⟩ ⟨0, 0, 0⟩) = 1
  have hline := pmCartLineInit_alongX (le_refl (1 : ℝ))
  have hmag : (pmCartLineInit (⟨0, 0, 0⟩ : PmCartesian ℝ) ⟨1, 0, 0⟩).tmag = 1 := by rw [hline]
  unfold pmCartLineInit at hmag
  dsimp only at hmag
  split at hmag <;> exact hmag

/-- A way along the first axis alone leaves the slanted line. -/
theorem slanted_leaves {now start : EmcPose ℝ} (hrotary : now.a = start.a) (hmoved : start.tran.x < now.tran.x) (t : ℝ) :
    emcPoseAdd emcPoseZero (emcPoseSub now start) ≠ poseBetween emcPoseZero slantedStop t := by
  intro hbetween
  have ha : now.a - start.a = 0 + t * (1.0e-9 - 0) := by
    have := congrArg EmcPose.a hbetween
    simpa [emcPoseAdd, emcPoseSub, emcPoseZero, poseBetween, pointBetween, pmCartesianToEmcPose, emcPoseAbc,
      pmCartCartAdd, pmCartCartSub, pmCartScalMult, slantedStop, mul_comm] using this
  have hx : now.tran.x - start.tran.x = 0 + t * (1 - 0) := by
    have := congrArg (fun p : EmcPose ℝ => p.tran.x) hbetween
    simpa [emcPoseAdd, emcPoseSub, emcPoseZero, poseBetween, pointBetween, pmCartesianToEmcPose, emcPoseAbc,
      pmCartCartAdd, pmCartCartSub, pmCartScalMult, slantedStop, mul_comm] using this
  -- the rotary axis has not moved, so this can only be the start of the line
  have ht : t = 0 := by
    rw [hrotary] at ha
    linarith
  rw [ht] at hx
  linarith

/-- The small part of a line is taken for a point: its cycle moves the planner in the large part only, off the path. -/
theorem abort_offPath : ∃ s : Trip, Reaches (TripStep fun _ _ acc => 0 < acc) ⟨parkedTp, []⟩ s ∧
    s.stops = [slantedStop] ∧
      ∀ t, (tpAbort s.tp).currentPos ≠ poseBetween parkedTp.currentPos slantedStop t := by
  obtain ⟨hid, -, hgoal, hpos, hcycle, -⟩ := parkedTp_settings
  have hset : parkedTp.Sound ∧ parkedTp.Idle := by
    rw [parkedTp_eq]
    exact ⟨⟨tcqInit_wf (by show 0 < 2000; decide), by show 1 < 2000; decide, rfl, rfl⟩, rfl, rfl, rfl, rfl⟩
  obtain ⟨hsound, hidle⟩ := hset
  have hlength : lineLength parkedTp.goalPos.tran slantedStop.tran = 1 := by
    rw [hgoal]
    exact slantedStop_length
  obtain ⟨hlong, hwaits⟩ := queuedLine_waits hidle one_pos hlength.ge 2 10 10 0 false (-1)
  obtain ⟨u, hadd, hitem, hlen, habort, -⟩ := tpAddLine_idle hsound hidle rfl hlong plainEnv (-1)
  have hkept : u.reverseRun = false ∧ u.cycleTime = 1 ∧ u.currentPos = emcPoseZero := by
    have hline := tpAddLine_line plainEnv hsound.wf slantedStop 2 10 10 1 0 false (-1)
    rw [hadd] at hline
    cases hline with
    | refused _ herr => exact absurd rfl herr
    | appended => exact ⟨hsound.forward, hcycle, hpos⟩
  obtain ⟨tc, hrun, hmoves, -⟩ := hwaits.cycle plainEnv hkept.1 hkept.2.1 ⟨habort, hlen, hitem⟩
  obtain ⟨tc', hrun', -, hcome⟩ :=
    tpRunSegment_position plainEnv hkept.1 ⟨habort, hlen, hitem⟩ hwaits.unmoved.synchronized
  cases hrun.symm.trans hrun'
  have hpair : tpRunSegment plainEnv u = ((tpRunSegment plainEnv u).1, some tc) := by rw [← hrun]
  have hcycled : (queuedLine parkedTp (tpLineSegment parkedTp slantedStop 2 10 10 1 0 false) (-1)).Cycled tc := by
    obtain ⟨-, ⟨t, ht, hcycled⟩, -⟩ := tpRunSegment_advances hpair
    cases hitem.symm.trans ht
    exact hcycled
  have hcoords : tc.coords = .line (pmLine9Init emcPoseZero slantedStop) := by
    rw [← hgoal]
    exact hcycled.keeps Tc.coords fun _ => rfl
  have htarget : tc.target = 1 := (hcycled.keeps Tc.target fun _ => rfl).trans (hwaits.line.target.trans hlength)
  have hstart := slanted_position (show (queuedLine parkedTp (tpLineSegment parkedTp slantedStop 2 10 10 1 0 false)
    (-1)).coords = _ by rw [← hgoal]; rfl) (hwaits.line.target.trans hlength)
  have hnow := slanted_position hcoords htarget
  have hafter : (tpRunCycle plainEnv u).currentPos = emcPoseAdd emcPoseZero (emcPoseSub (tcGetPos tc)
      (tcGetPos (queuedLine parkedTp (tpLineSegment parkedTp slantedStop 2 10 10 1 0 false) (-1)))) := by
    rw [← hkept.2.2, ← hcome]
    exact tpRunCycle_currentPos plainEnv hpair
  have hadded : (⟨parkedTp, []⟩ : Trip).run
      (.addLine plainEnv slantedStop 2 10 10 1 0 false (-1)) = ⟨u, [slantedStop]⟩ := by
    show Trip.mk (tpAddLine plainEnv parkedTp slantedStop 2 10 10 1 0 false (-1)).1
        (if (tpAddLine plainEnv parkedTp slantedStop
      2 10 10 1 0 false (-1)).2 = .ok then [] ++ [slantedStop] else []) = _
    rw [hadd]
    rfl
  -- the trip is the slanted line and one cycle along it
  refine ⟨⟨tpRunCycle plainEnv u, [slantedStop]⟩, ?_, rfl, ?_⟩
  · refine ((Reaches.refl _).tail (e := .addLine plainEnv slantedStop 2 10 10 1 0 false (-1))
      ⟨hadded.symm, fun _ => ?_⟩).tail
      (e := .runCycle plainEnv) ⟨rfl, trivial⟩
    show parkedTp.nextId ≠ parkedTp.spindle.waitingForAtspeed ∧ -1 = -1 ∧ (0 : ℝ) < 1
    rw [hid, hsound.noWait]
    exact ⟨one_ne_zero, rfl, one_pos⟩
  · intro t
    show (tpAbort (tpRunCycle plainEnv u)).currentPos ≠ _
    rw [tpAbort_currentPos, hafter, hpos]
    have hmoved : 0 < tc.progress := hmoves (.inr hlength.le)
    refine slanted_leaves ?_ ?_ t
    · rw [hnow.2, hstart.2]
    · rw [hnow.1, hstart.1, hwaits.unmoved.progress]
      exact hmoved

end SoemMotion
