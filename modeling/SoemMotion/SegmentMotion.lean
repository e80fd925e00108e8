import SoemMotion.LineCycle
import SoemMotion.QueueItems

/-!
# The motion of the queued lines

Position along a line, and what one cycle does to the head segment and to the one it hands over to: the segments that
are not moved keep their place and their speed (`Tc.Poised`), and the planner moves by what the others have come
(`Turn`).
-/

namespace SoemMotion

/-! ### Points of a line -/

/-- The point at the fraction `t` of the way from `p` to `q`. -/
noncomputable def pointBetween (p q : PmCartesian ℝ) (t : ℝ) : PmCartesian ℝ :=
  pmCartCartAdd p (pmCartScalMult (pmCartCartSub q p) t)

/-- The pose at the fraction `t` of the way from `p` to `q`. -/
noncomputable def poseBetween (p q : EmcPose ℝ) (t : ℝ) : EmcPose ℝ :=
  pmCartesianToEmcPose (pointBetween p.tran q.tran t) (pointBetween (emcPoseAbc p) (emcPoseAbc q) t)
    (pointBetween (emcPoseUvw p) (emcPoseUvw q) t)

/-- The length of a line as the planner measures it. -/
noncomputable def legLength (p q : EmcPose ℝ) : ℝ := pmLine9Target (pmLine9Init p q)

/-- A part of a line is at rest or long enough not to be taken for a point. -/
def PartExact (p q : PmCartesian ℝ) : Prop := p = q ∨ (pmCartLineInit p q).tmagZero = false

/-- None of the three parts of a line is rounded to a point. -/
structure LineExact (p q : EmcPose ℝ) : Prop where
  xyz : PartExact p.tran q.tran
  abc : PartExact (emcPoseAbc p) (emcPoseAbc q)
  uvw : PartExact (emcPoseUvw p) (emcPoseUvw q)

theorem pointBetween_zero (p q : PmCartesian ℝ) : pointBetween p q 0 = p := by
  simp [pointBetween, pmCartCartAdd, pmCartScalMult]

theorem pointBetween_one (p q : PmCartesian ℝ) : pointBetween p q 1 = q := by
  simp [pointBetween, pmCartCartAdd, pmCartScalMult, pmCartCartSub]

theorem pointBetween_self (p : PmCartesian ℝ) (t : ℝ) : pointBetween p p t = p := by
  simp [pointBetween, pmCartCartAdd, pmCartScalMult, pmCartCartSub]

theorem poseBetween_zero (p q : EmcPose ℝ) : poseBetween p q 0 = p := by
  unfold poseBetween
  rw [pointBetween_zero, pointBetween_zero, pointBetween_zero]
  rfl

theorem poseBetween_one (p q : EmcPose ℝ) : poseBetween p q 1 = q := by
  unfold poseBetween
  rw [pointBetween_one, pointBetween_one, pointBetween_one]
  rfl

theorem pmCartMag_ne_zero {p q : PmCartesian ℝ} (h : (pmCartLineInit p q).tmagZero = false) :
    pmCartMag (pmCartCartSub q p) ≠ 0 := by
  intro hzero
  unfold pmCartLineInit at h
  dsimp only at h
  split at h
  · cases h
  · rename_i hfar
    generalize pmCartCartSub q p = v at hzero hfar
    unfold pmCartMag pmSqrt at hzero
    have hsum : ¬ 0 < pmSq v.x + pmSq v.y + pmSq v.z := by
      intro hpos
      rw [if_pos hpos, sqrt_real] at hzero
      exact (Real.sqrt_pos.2 hpos).ne' hzero
    unfold pmSq at hsum
    have hx : v.x = 0 := by nlinarith [mul_self_nonneg v.x, mul_self_nonneg v.y, mul_self_nonneg v.z]
    have hy : v.y = 0 := by nlinarith [mul_self_nonneg v.x, mul_self_nonneg v.y, mul_self_nonneg v.z]
    have hz : v.z = 0 := by nlinarith [mul_self_nonneg v.x, mul_self_nonneg v.y, mul_self_nonneg v.z]
    apply hfar
    unfold pmCartInfNorm cartFuzz
    rw [hx, hy, hz]
    norm_num [fabs_real, fmax_real]

/-- The point of a part, a fraction of the whole line along. -/
theorem pmCartLinePoint_between {p q : PmCartesian ℝ} (h : PartExact p q) (x target : ℝ) :
    pmCartLinePoint (pmCartLineInit p q) (x * (pmCartLineInit p q).tmag / target) = pointBetween p q (x / target) := by
  -- a line that is a point, or one with a direction of length one
  cases hzero : (pmCartLineInit p q).tmagZero with
  | true =>
    have heq : p = q := h.resolve_right (by rw [hzero]; exact Bool.noConfusion)
    have hend : (pmCartLineInit p q).end = q := by
      unfold pmCartLineInit
      dsimp only
      split <;> rfl
    unfold pmCartLinePoint
    rw [hzero, if_pos rfl, hend, heq, pointBetween_self]
  | false =>
    have hmag := pmCartMag_ne_zero hzero
    have hline : pmCartLineInit p q =
        { start := p, «end» := q, uVec := pmCartUnit (pmCartCartSub q p)
          tmag := pmCartMag (pmCartCartSub q p), tmagZero := false } := by
      unfold pmCartLineInit at hzero ⊢
      dsimp only at hzero ⊢
      split at hzero
      · cases hzero
      · rename_i hfar
        rw [if_neg hfar]
    have hunit : pmCartUnit (pmCartCartSub q p) =
        pmCartScalMult (pmCartCartSub q p) (1 / pmCartMag (pmCartCartSub q p)) := by
      show (if (pmCartMag (pmCartCartSub q p) == 0) = true then pmCartCartSub q p else _) = _
      rw [beq_real, decide_eq_false hmag, if_neg Bool.false_ne_true]
      unfold pmCartScalMult
      simp only [mul_one_div]
      rfl
    rw [hline]
    unfold pmCartLinePoint pointBetween
    dsimp only
    rw [if_neg Bool.false_ne_true, hunit]
    generalize pmCartMag (pmCartCartSub q p) = m at hmag
    unfold pmCartScalMult
    dsimp only
    have hscale : ∀ d : ℝ, d * (1 / m) * (x * m / target) = d * (x / target) := by
      intro d
      field_simp
    rw [hscale, hscale, hscale]

/-! ### Lines of the queue -/

/-- The segment is the line from `p` to `q`. -/
structure Tc.OnLeg (p q : EmcPose ℝ) (tc : Tc ℝ) : Prop where
  coords : tc.coords = .line (pmLine9Init p q)
  target : tc.target = legLength p q
  long : 1 ≤ legLength p q
  unrounded : LineExact p q

theorem Tc.OnLeg.cycled {p q : EmcPose ℝ} {a b : Tc ℝ} (h : a.OnLeg p q) (hc : a.Cycled b) : b.OnLeg p q :=
  ⟨(hc.keeps Tc.coords fun _ => rfl).trans h.coords, (hc.keeps Tc.target fun _ => rfl).trans h.target,
  h.long, h.unrounded⟩

theorem Tc.OnLeg.position {p q : EmcPose ℝ} {tc : Tc ℝ} (h : tc.OnLeg p q) :
    tcGetPos tc = poseBetween p q (tc.progress / legLength p q) := by
  unfold tcGetPos tcGetPosReal
  rw [h.coords, ← h.target]
  unfold pmLine9Init poseBetween
  dsimp only [Option.getD_some]
  rw [pmCartLinePoint_between h.unrounded.xyz, pmCartLinePoint_between h.unrounded.abc,
    pmCartLinePoint_between h.unrounded.uvw]

theorem Tc.OnLeg.position_start {p q : EmcPose ℝ} {tc : Tc ℝ} (h : tc.OnLeg p q) (hstart : tc.progress = 0) :
    tcGetPos tc = p := by
  rw [h.position, hstart, zero_div, poseBetween_zero]

theorem Tc.OnLeg.position_end {p q : EmcPose ℝ} {tc : Tc ℝ} (h : tc.OnLeg p q) (hend : tc.progress = tc.target) :
    tcGetPos tc = q := by
  have hne : legLength p q ≠ 0 := (zero_lt_one.trans_le h.long).ne'
  rw [h.position, hend, h.target, div_self hne, poseBetween_one]

/-! ### One cycle of a segment -/

/-- A segment that has gone on along its line. -/
structure Tc.Forward (a b : Tc ℝ) : Prop where
  cycled : a.Cycled b
  progress : a.progress ≤ b.progress
  target : b.progress ≤ a.target
  vel : 0 ≤ b.currentvel
  remove : b.remove = true → a.remove = true ∨ b.progress = a.target
  blendingNext : b.blendingNext = a.blendingNext

theorem Tc.Forward.trans {a b c : Tc ℝ} (h : a.Forward b) (h' : b.Forward c) : a.Forward c := by
  have htarget := h.cycled.keeps Tc.target fun _ => rfl
  refine ⟨h.cycled.trans h'.cycled, h.progress.trans h'.progress, ?_, h'.vel, ?_, h'.blendingNext.trans h.blendingNext⟩
  · rw [← htarget]
    exact h'.target
  · intro hremove
    rcases h'.remove hremove with hb | hend
    · refine (h.remove hb).imp_right fun hb => le_antisymm ?_ ?_
      · rw [← htarget]
        exact h'.target
      · rw [← hb]
        exact h'.progress
    · exact .inr (hend.trans htarget)

/-- The acceleration of a cycle, whatever it is, does not move a segment back. -/
theorem tcUpdateDistFromAccel_forward {tc : Tc ℝ} (acc velDesired : ℝ)
    (hrange : 0 ≤ tc.progress ∧ tc.progress ≤ tc.target)
    (hpace : 0 ≤ tc.currentvel ∧ 0 ≤ tc.cycleTime ∨ tc.progress = 0) :
    tc.Forward (tcUpdateDistFromAccel tc acc velDesired false) := by
  have hcycled := tcUpdateDistFromAccel_cycled tc acc velDesired false
  rcases lt_or_ge (tc.currentvel + acc * tc.cycleTime) 0 with hneg | hnonneg
  · obtain ⟨progress, onFinalDecel, hway, heq⟩ := tcUpdateDistFromAccel_stops hneg velDesired
    rw [heq] at hcycled ⊢
    rcases hway with rfl | ⟨rfl, -⟩
    · exact ⟨hcycled, le_rfl, hrange.2, le_rfl, fun h => .inl h, rfl⟩
    · exact ⟨hcycled, hrange.2, le_rfl, le_rfl, fun _ => .inr rfl, rfl⟩
  · obtain ⟨onFinalDecel, heq⟩ := tcUpdateDistFromAccel_moves hnonneg (hrange.1.trans hrange.2) velDesired
    rw [heq] at hcycled ⊢
    refine ⟨hcycled, ?_, max_le (hrange.1.trans hrange.2) (min_le_right _ _), hnonneg, fun h => .inl h, rfl⟩
    rcases hpace with ⟨hvel, hcycle⟩ | hzero
    · have hway := mul_nonneg (add_nonneg hvel hnonneg) hcycle
      exact le_max_of_le_right (le_min (by linarith) hrange.2)
    · exact le_max_of_le_left hzero.le

theorem tpCheckEndCondition_forward (env : TpEnv ℝ) {tp : Tp ℝ} {tc : Tc ℝ} (nexttc : Option (Tc ℝ))
    (hforward : tp.reverseRun = false) (hrange : tc.progress ≤ tc.target) (hvel : 0 ≤ tc.currentvel) :
    tc.Forward (tpCheckEndCondition env tp tc nexttc) := by
  have hcycled := tpCheckEndCondition_cycled env tp tc nexttc
  obtain ⟨progress, _, _, _, remove, heq, hend⟩ := tpCheckEndCondition_eq env tp tc nexttc
  rw [hforward] at hend
  rw [heq] at hcycled ⊢
  rcases hend with ⟨hprogress, hremove⟩ | hprogress
  · exact ⟨hcycled, hprogress.ge, hprogress.trans_le hrange, hvel, fun h => .inl (hremove.symm.trans h), rfl⟩
  · exact ⟨hcycled, hrange.trans hprogress.ge, hprogress.le, hvel, fun _ => .inr hprogress, rfl⟩

/-- A cycle moves a segment on along its line, up to its end. -/
theorem tpAdvance_forward (env : TpEnv ℝ) {tp : Tp ℝ} {tc : Tc ℝ} (nexttc : Option (Tc ℝ))
    (hforward : tp.reverseRun = false)
    (hrange : 0 ≤ tc.progress ∧ tc.progress ≤ tc.target)
    (hpace : 0 ≤ tc.currentvel ∧ 0 ≤ tc.cycleTime ∨ tc.progress = 0) : tc.Forward (tpAdvance env tp tc nexttc) := by
  obtain ⟨u, hu⟩ : ∃ u, (if tc.blendingNext = true then tc else { tc with velAtBlendStart := tc.currentvel }) = u :=
    ⟨_, rfl⟩
  have hsame : tc.Cycled u ∧ u.progress = tc.progress ∧ u.target = tc.target ∧ u.currentvel = tc.currentvel ∧
      u.cycleTime = tc.cycleTime ∧ u.remove = tc.remove ∧ u.blendingNext = tc.blendingNext := by
    rw [← hu]
    split <;> exact ⟨rfl, rfl, rfl, rfl, rfl, rfl, rfl⟩
  obtain ⟨hcycled, hprogress, htarget, hvel, hcycle, hremove, hblend⟩ := hsame
  unfold tpAdvance
  rw [hu, hforward]
  dsimp only
  have hdist := tcUpdateDistFromAccel_forward (tpCycleAccel env tp u nexttc).1 (tpCycleAccel env tp u nexttc).2
    (by rw [hprogress, htarget]; exact hrange) (by rw [hvel, hcycle, hprogress]; exact hpace)
  have hend := tpCheckEndCondition_forward env nexttc hforward
    (hdist.target.trans (hdist.cycled.keeps Tc.target fun _ => rfl).ge)
    hdist.vel
  have hboth := hdist.trans hend
  refine ⟨hcycled.trans hboth.cycled, ?_, ?_, hboth.vel, ?_, hboth.blendingNext.trans hblend⟩
  · rw [← hprogress]
    exact hboth.progress
  · rw [← htarget]
    exact hboth.target
  · rw [← hremove, ← htarget]
    exact hboth.remove

/-! ### The cycle and the list of segments -/

/-- The segment with its place, its speed and the way it ends. -/
structure Tc.Poised (a b : Tc ℝ) : Prop where
  cycled : a.Cycled b
  progress : b.progress = a.progress
  currentvel : b.currentvel = a.currentvel
  termVel : b.termVel = a.termVel
  cycleTime : b.cycleTime = a.cycleTime
  splitting : b.splitting = a.splitting
  remove : b.remove = a.remove
  blendingNext : a.blendingNext = false → b.blendingNext = false

@[refl] theorem Tc.Poised.refl (a : Tc ℝ) : a.Poised a := ⟨rfl, rfl, rfl, rfl, rfl, rfl, rfl, fun h => h⟩

theorem Tc.Poised.trans {a b c : Tc ℝ} (h : a.Poised b) (h' : b.Poised c) : a.Poised c :=
  ⟨h.cycled.trans h'.cycled, h'.progress.trans h.progress, h'.currentvel.trans h.currentvel, h'.termVel.trans h.termVel,
    h'.cycleTime.trans h.cycleTime, h'.splitting.trans h.splitting, h'.remove.trans h.remove,
    fun hblend => h'.blendingNext (h.blendingNext hblend)⟩

theorem Tc.Poised.position {a b : Tc ℝ} (h : a.Poised b) : tcGetPos b = tcGetPos a := by
  unfold tcGetPos tcGetPosReal
  rw [h.progress, h.cycled.keeps Tc.coords fun _ => rfl, h.cycled.keeps Tc.target fun _ => rfl]

theorem poisedNext_trans {a b c : Option (Tc ℝ)} (h : Option.Rel Tc.Poised a b) (h' : Option.Rel Tc.Poised b c) :
    Option.Rel Tc.Poised a c := by
  cases h with
  | none => exact h'
  | some h =>
    cases h' with
    | some h' => exact .some (h.trans h')

theorem poisedNext_map {f : Tc ℝ → Tc ℝ} (hf : ∀ tc : Tc ℝ, tc.Poised (f tc)) (a : Option (Tc ℝ)) :
    Option.Rel Tc.Poised a (a.map f) := by
  cases a with
  | none => exact .none
  | some a => exact .some (hf a)

/-- The planner within a cycle, before it moves. -/
structure Tp.Stays (tp tp' : Tp ℝ) : Prop where
  moves : tp.Moves tp'
  currentPos : tp'.currentPos = tp.currentPos

theorem Tp.Stays.trans {a b c : Tp ℝ} (h : a.Stays b) (h' : b.Stays c) : a.Stays c :=
  ⟨h.moves.trans h'.moves, h'.currentPos.trans h.currentPos⟩

theorem tpActivateSegment_poised (env : TpEnv ℝ) {tp : Tp ℝ} (hforward : tp.reverseRun = false) (tc : Tc ℝ) :
    ∃ r, tpActivateSegment env tp tc = some r ∧ tp.Stays r.1 ∧ tc.Poised r.2 := by
  unfold tpActivateSegment
  split
  · exact ⟨_, rfl, ⟨Tp.Moves.refl _, rfl⟩, Tc.Poised.refl _⟩
  · rw [if_neg (by rw [hforward, Bool.false_and]; exact Bool.false_ne_true)]
    exact ⟨_, rfl, ⟨⟨_, _, _, _, _, _, rfl⟩, rfl⟩, rfl, rfl, rfl, rfl, rfl, rfl, rfl, fun _ => rfl⟩

theorem tpSyncVelocityMode_poised (tc : Tc ℝ) (nexttc : Option (Tc ℝ)) :
    Option.Rel Tc.Poised nexttc (tpSyncVelocityMode tc nexttc) := by
  refine poisedNext_map (fun next => ?_) nexttc
  split
  · exact ⟨rfl, rfl, rfl, rfl, rfl, rfl, rfl, fun h => h⟩
  · rfl

/-- The spindle synchronization only asks for another velocity. -/
theorem tpSync_poised (tp : Tp ℝ) (tc : Tc ℝ) (nexttc : Option (Tc ℝ)) : tp.Stays (tpSync tp tc nexttc).1 ∧
    tc.Poised (tpSync tp tc nexttc).2.1 ∧ Option.Rel Tc.Poised nexttc (tpSync tp tc nexttc).2.2 := by
  have hnext : Option.Rel Tc.Poised nexttc nexttc := by
    cases nexttc with
    | none => exact .none
    | some next => exact .some (Tc.Poised.refl next)
  have hclamp : ∀ u : Tc ℝ, tc.Poised u → tc.Poised (if u.targetVel < 0 then { u with targetVel := 0 } else u) := by
    intro u hu
    split
    · exact hu.trans ⟨rfl, rfl, rfl, rfl, rfl, rfl, rfl, fun h => h⟩
    · exact hu
  unfold tpSync
  split
  · exact ⟨⟨Tp.Moves.refl _, rfl⟩, Tc.Poised.refl _, hnext⟩
  · exact ⟨⟨Tp.Moves.refl _, rfl⟩, Tc.Poised.refl _, tpSyncVelocityMode_poised _ _⟩
  · unfold tpSyncPositionMode
    dsimp only
    split
    · split
      · exact ⟨⟨⟨_, _, _, _, _, _, rfl⟩, rfl⟩, hclamp _ ⟨rfl, rfl, rfl, rfl, rfl, rfl, rfl, fun h => h⟩,
          tpSyncVelocityMode_poised _ _⟩
      · exact ⟨⟨Tp.Moves.refl _, rfl⟩, hclamp _ ⟨rfl, rfl, rfl, rfl, rfl, rfl, rfl, fun h => h⟩,
          tpSyncVelocityMode_poised _ _⟩
    · exact ⟨⟨Tp.Moves.refl _, rfl⟩, hclamp _ ⟨rfl, rfl, rfl, rfl, rfl, rfl, rfl, fun h => h⟩,
        tpSyncVelocityMode_poised _ _⟩

/-- The segment after the head, as a split cycle begins it. -/
noncomputable def Tc.handedOver (tp : Tp ℝ) (tc next : Tc ℝ) : Tc ℝ :=
  if tc.termCond = .tangent then { next with cycleTime := tp.cycleTime - tc.cycleTime, currentvel := tc.termVel }
  else next

/-- The head at the end of its line, to be removed. -/
def Tc.atEnd (tc : Tc ℝ) : Tc ℝ := { tc with progress := tc.target, remove := true }

/-- What a cycle does to the position of the planner, to the head segment and to the segments after it. -/
inductive Turn (env : TpEnv ℝ) (tp : Tp ℝ) (tc : Tc ℝ) : List (Tc ℝ) → EmcPose ℝ → Tc ℝ → List (Tc ℝ) → Prop
  | flagged {t : Tc ℝ} {rest r : List (Tc ℝ)} (hremove : tc.remove = true) (ht : tc.Poised t)
      (hr : List.Forall₂ Tc.Poised rest r) : Turn env tp tc rest tp.currentPos t r
  | regular {v : Tp ℝ} {t t' : Tc ℝ} {next : Option (Tc ℝ)} {rest r : List (Tc ℝ)} (hremove : tc.remove = false)
      (hsplit : tc.splitting = false) (hv : tp.Stays v) (ht : tc.Poised t)
      (ht' : (tpAdvance env v { t with cycleTime := v.cycleTime } next).Poised t')
      (hr : List.Forall₂ Tc.Poised rest r) :
      Turn env tp tc rest (emcPoseAdd tp.currentPos (emcPoseSub (tcGetPos t') (tcGetPos tc))) t' r
  | splitLast {t : Tc ℝ} (hremove : tc.remove = false) (hsplit : tc.splitting = true) (ht : tc.Poised t) :
      Turn env tp tc [] (emcPoseAdd tp.currentPos (emcPoseSub (tcGetPos t.atEnd) (tcGetPos tc))) t.atEnd []
  | split {v : Tp ℝ} {t next n : Tc ℝ} {next2 : Option (Tc ℝ)} {rest : List (Tc ℝ)} (hremove : tc.remove = false)
      (hsplit : tc.splitting = true) (hv : tp.Moves v) (ht : tc.Poised t) (hn : next.Poised n) :
      Turn env tp tc (next :: rest) (emcPoseAdd (emcPoseAdd tp.currentPos (emcPoseSub (tcGetPos t.atEnd) (tcGetPos tc)))
        (emcPoseSub (tcGetPos (tpAdvance env v (t.handedOver v n) next2)) (tcGetPos next))) t.atEnd
        (tpAdvance env v (t.handedOver v n) next2 :: rest)

/-- The segments after the head, once the first of them has been written back. -/
def withNext {α : Type} (rest : List α) (next : Option α) : List α :=
  match next with
  | none => rest
  | some next => rest.set 0 next

theorem withNext_poised {rest : List (Tc ℝ)} {next : Option (Tc ℝ)} (h : Option.Rel Tc.Poised rest.head? next) :
    List.Forall₂ Tc.Poised rest (withNext rest next) := by
  cases rest with
  | nil =>
    cases h
    exact .nil
  | cons a rest =>
    cases h with
    | some h => exact .cons h (List.forall₂_same.2 fun _ _ => Tc.Poised.refl _)

section Handle

variable {env : TpEnv ℝ} {tp₀ tp : Tp ℝ} {tc₀ tc : Tc ℝ} {rest : List (Tc ℝ)} {next : Option (Tc ℝ)}

theorem tpHandleRegularCycle_turn (hstays : tp₀.Stays tp) (htc : tc₀.Poised tc)
    (hnext : Option.Rel Tc.Poised rest.head? next) (hsplit : tc₀.splitting = false) (hblend : tc₀.blendingNext = false)
    (hcond : tc₀.termCond ≠ .parabolic) : Turn env tp₀ tc₀ rest (tpHandleRegularCycle env tp tc next).1.currentPos
      (tpHandleRegularCycle env tp tc next).2.1 (withNext rest (tpHandleRegularCycle env tp tc next).2.2) := by
  unfold tpHandleRegularCycle
  by_cases hremove : tc.remove = true
  · rw [if_pos hremove, hstays.currentPos]
    exact .flagged (htc.remove.symm.trans hremove) htc (withNext_poised hnext)
  · rw [if_neg hremove]
    have hremove₀ : tc₀.remove = false := htc.remove.symm.trans (Bool.eq_false_iff.2 hremove)
    have hpos : ∀ u : Tc ℝ, emcPoseAdd tp.currentPos (emcPoseSub (tcGetPos u) (tcGetPos tc)) =
        emcPoseAdd tp₀.currentPos (emcPoseSub (tcGetPos u) (tcGetPos tc₀)) := by
      intro u
      rw [hstays.currentPos, htc.position]
    obtain ⟨t, ht⟩ : ∃ t, tpAdvance env tp { tc with cycleTime := tp.cycleTime } next = t := ⟨_, rfl⟩
    have hupdate : tpUpdateCycle env tp { tc with cycleTime := tp.cycleTime } next =
        (tpAddCurrentPos tp (emcPoseSub (tcGetPos t) (tcGetPos tc)), t) := by
      unfold tpUpdateCycle
      rw [ht]
      rfl
    rw [hupdate]
    cases next with
    | none =>
      have hturn := @Turn.regular env tp₀ tc₀ tp tc { t with blendVel := 0 } none rest
        (withNext rest none) hremove₀ hsplit
        hstays htc (by rw [ht]; exact ⟨rfl, rfl, rfl, rfl, rfl, rfl, rfl, fun h => h⟩) (withNext_poised hnext)
      rw [← hpos] at hturn
      exact hturn
    | some next =>
      dsimp only
      obtain ⟨_, _, _, _, _, _, _, _, heq⟩ := tpAdvance_eq env tp { tc with cycleTime := tp.cycleTime } (some next)
      have hkept : t.blendingNext = false ∧ t.termCond ≠ .parabolic := by
        rw [← ht, heq]
        exact ⟨htc.blendingNext hblend, fun h => hcond ((htc.cycled.keeps Tc.termCond fun _ => rfl).symm.trans h)⟩
      -- no blend starts, so the turn stays within one segment
      have hno : ∀ v : ℝ, (tcIsBlending { t with blendVel := v }).blendingNext = false := by
        intro v
        show (t.blendingNext || (t.termCond == .parabolic && t.onFinalDecel && decide (t.currentvel < v))) = false
        rw [hkept.1, Bool.false_or, beq_false_of_ne hkept.2, Bool.false_and, Bool.false_and]
      rw [hno, if_neg Bool.false_ne_true]
      generalize tpComputeBlendVelocity t next (tpGetRealTargetVel env (tpAddCurrentPos tp
        (emcPoseSub (tcGetPos t) (tcGetPos tc))) t) (tpGetRealTargetVel env (tpAddCurrentPos tp
        (emcPoseSub (tcGetPos t) (tcGetPos tc))) next) = vel
      have hpoised : t.Poised (tcIsBlending { t with blendVel := vel.1 }) :=
        ⟨rfl, rfl, rfl, rfl, rfl, rfl, rfl, fun _ => hno vel.1⟩
      have hnext' : Option.Rel Tc.Poised rest.head? (some { next with blendVel := vel.2 }) := by
        refine poisedNext_trans hnext (.some ?_)
        exact ⟨rfl, rfl, rfl, rfl, rfl, rfl, rfl, fun h => h⟩
      have hturn := @Turn.regular env tp₀ tc₀ tp tc (tcIsBlending { t with blendVel := vel.1 })
        (some next) rest _ hremove₀
        hsplit hstays htc (by rw [ht]; exact hpoised) (withNext_poised hnext')
      rw [← hpos] at hturn
      exact hturn

theorem tpHandleSplitCycle_turn (hstays : tp₀.Stays tp) (htc : tc₀.Poised tc)
    (hnext : Option.Rel Tc.Poised rest.head? next) (hsplit : tc₀.splitting = true) (hforward : tp.reverseRun = false) :
    Turn env tp₀ tc₀ rest (tpHandleSplitCycle env tp tc next).1.currentPos
      (tpHandleSplitCycle env tp tc next).2.1 (withNext rest (tpHandleSplitCycle env tp tc next).2.2) := by
  unfold tpHandleSplitCycle
  by_cases hremove : tc.remove = true
  · rw [if_pos hremove, hstays.currentPos]
    exact .flagged (htc.remove.symm.trans hremove) htc (withNext_poised hnext)
  · rw [if_neg hremove]
    have hremove₀ : tc₀.remove = false := htc.remove.symm.trans (Bool.eq_false_iff.2 hremove)
    have hend : tcGetTarget tc tp.reverseRun = tc.target := by
      rw [hforward]
      rfl
    have hpos : tcGetPos tc.atEnd = tcGetPos { tc with progress := tc.target } := rfl
    rw [hend]
    cases hnext' : rest.head? with
    | none =>
      rw [hnext'] at hnext
      cases hnext
      cases List.head?_eq_none_iff.1 hnext'
      have hturn := @Turn.splitLast env tp₀ tc₀ tc hremove₀ hsplit htc
      rw [hpos, ← htc.position, ← hstays.currentPos] at hturn
      exact hturn
    | some next₀ =>
      rw [hnext'] at hnext
      obtain ⟨rest', rfl⟩ : ∃ rest', rest = next₀ :: rest' := ⟨_, (List.cons_head?_tail hnext').symm⟩
      cases hnext with
      | @some _ next hn =>
        obtain ⟨v, hv⟩ : ∃ v, tpAddCurrentPos tp
            (emcPoseSub (tcGetPos { tc with progress := tc.target }) (tcGetPos tc)) =
            v := ⟨_, rfl⟩
        have hvmoves : tp₀.Moves v ∧ v.currentPos =
            emcPoseAdd tp₀.currentPos (emcPoseSub (tcGetPos tc.atEnd) (tcGetPos tc₀)) := by
          rw [← hv, ← hstays.currentPos, hpos, ← htc.position]
          exact ⟨hstays.moves.trans (tpAddCurrentPos_moves _ _), rfl⟩
        dsimp only
        rw [hv]
        obtain ⟨next2, hnext2⟩ : ∃ next2, tcqItem v.queue (if v.reverseRun = true then -2 else 2) = next2 := ⟨_, rfl⟩
        rw [hnext2]
        -- the segment in which the rest of the cycle is spent
        have hover : (if tc.termCond = .tangent then
            { next with cycleTime := v.cycleTime - tc.cycleTime, currentvel := tc.termVel } else next) =
            tc.handedOver v next :=
          rfl
        have hstart : tcGetPos (tc.handedOver v next) = tcGetPos next₀ := by
          rw [← hn.position]
          unfold Tc.handedOver
          split <;> rfl
        have hupdate : tpUpdateCycle env v (tc.handedOver v next) next2 = (tpAddCurrentPos v (emcPoseSub
            (tcGetPos (tpAdvance env v (tc.handedOver v next) next2)) (tcGetPos next₀)),
              tpAdvance env v (tc.handedOver v next) next2) := by
          unfold tpUpdateCycle
          rw [hstart]
        have hturn := @Turn.split env tp₀ tc₀ v tc next₀ next next2 rest' hremove₀ hsplit hvmoves.1 htc hn
        rw [← hvmoves.2] at hturn
        rw [hover, hupdate]
        split <;> exact hturn

end Handle

/-! ### The whole cycle -/

/-- Writing the segments of a cycle back into the queue. -/
theorem tpStoreSegments_items {u : Tp ℝ} {tc t : Tc ℝ} {rest : List (Tc ℝ)} {next : Option (Tc ℝ)} (hw : u.queue.WF)
    (hforward : u.reverseRun = false) (hitems : u.queue.items = tc :: rest) (hnext : next ≠ none → rest ≠ []) :
    (tpStoreSegments u t next).queue.items = t :: withNext rest next := by
  have hlen := items_length u.queue
  rw [hitems, List.length_cons] at hlen
  have hhead : (u.queue.setItem 0 t).items = t :: rest := by
    have hset := @setItem_items _ u.queue hw 0 (by omega) t
    rw [hitems] at hset
    exact hset
  unfold tpStoreSegments
  dsimp only
  rw [hforward]
  cases next with
  | none => exact hhead
  | some n =>
    have hne := hnext (by simp)
    have hpos : 0 < rest.length := List.length_pos_iff.2 hne
    have hset := @setItem_items _ (u.queue.setItem 0 t) (setItem_wf hw 0 t) 1 (by
      show (1 : Int) < u.queue.len
      omega) n
    rw [hhead] at hset
    exact hset

/-- A cycle of a planner that has a segment to run. -/
theorem tpRunSegment_turn (env : TpEnv ℝ) {tp : Tp ℝ} {tc : Tc ℝ} {rest : List (Tc ℝ)} (hw : tp.queue.WF)
    (hforward : tp.reverseRun = false) (hitems : tp.queue.items = tc :: rest)
    (hgo : tpAbortStopped tp tc rest.head? = false)
    (hblend : tc.blendingNext = false) (hcond : tc.termCond ≠ .parabolic) :
    ∃ u t r, tpRunSegment env tp = (u, some t) ∧ u.queue.items = t :: r ∧ Turn env tp tc rest u.currentPos t r := by
  obtain ⟨tp₁, htp₁⟩ : ∃ tp₁, tpUpdateInitialStatus tp = tp₁ := ⟨_, rfl⟩
  have hstays₁ : tp.Stays tp₁ ∧ tp₁.reverseRun = false ∧ tpAbortStopped tp₁ tc rest.head? = false := by
    rw [← htp₁]
    exact ⟨⟨⟨_, _, _, _, _, _, rfl⟩, rfl⟩, hforward, hgo⟩
  obtain ⟨⟨tp₂, tc₂⟩, hact, hstays₂, hpoised₂⟩ := tpActivateSegment_poised env hstays₁.2.1 tc
  obtain ⟨hstays₃, hpoised₃, hnext₃⟩ := tpSync_poised tp₂ tc₂ rest.head?
  obtain ⟨⟨tp₃, tc₃, next₃⟩, hsync⟩ : ∃ r, tpSync tp₂ tc₂ rest.head? = r := ⟨_, rfl⟩
  rw [hsync] at hstays₃ hpoised₃ hnext₃
  have hstays := (hstays₁.1.trans hstays₂).trans hstays₃
  have hclear : ∀ t : Tc ℝ, t.Poised (tcClearFlags t) := fun _ => ⟨rfl, rfl, rfl, rfl, rfl, rfl, rfl, fun h => h⟩
  have hpoised : tc.Poised (tcClearFlags tc₃) := (hpoised₂.trans hpoised₃).trans (hclear _)
  have hnext : Option.Rel Tc.Poised rest.head? (next₃.map tcClearFlags) :=
    poisedNext_trans hnext₃ (poisedNext_map hclear _)
  have hrev : tp₃.reverseRun = false := hstays.moves.reverseRun.trans hforward
  -- up to here no stage has moved the segment
  obtain ⟨r, hr⟩ : ∃ r, (if (tcClearFlags tc₃).splitting = true then
      tpHandleSplitCycle env tp₃ (tcClearFlags tc₃) (next₃.map tcClearFlags)
    else tpHandleRegularCycle env tp₃ (tcClearFlags tc₃) (next₃.map tcClearFlags)) = r := ⟨_, rfl⟩
  have hturn : Turn env tp tc rest r.1.currentPos r.2.1 (withNext rest r.2.2) ∧
      SegmentCycle tp₃ (tcClearFlags tc₃) (next₃.map tcClearFlags) r := by
    rw [← hr]
    split
    · rename_i hsplit
      exact ⟨tpHandleSplitCycle_turn hstays hpoised hnext (hpoised.splitting.symm.trans hsplit) hrev,
        tpHandleSplitCycle_spec env _ _ _⟩
    · rename_i hsplit
      exact ⟨tpHandleRegularCycle_turn hstays hpoised hnext
        (hpoised.splitting.symm.trans (Bool.eq_false_iff.2 hsplit)) hblend
        hcond, tpHandleRegularCycle_spec env _ _ _⟩
  have hu := hstays.moves.trans hturn.2.tp
  have hstored : (tpStoreSegments r.1 r.2.1 r.2.2).queue.items = r.2.1 :: withNext rest r.2.2 := by
    refine @tpStoreSegments_items r.1 tc _ rest _ (by rw [hu.queue]; exact hw) (hu.reverseRun.trans hforward)
      (by rw [hu.queue]; exact hitems) ?_
    intro hsome hnil
    have hcycle := hturn.2.nexttc
    rw [hnil] at hnext
    generalize next₃.map tcClearFlags = o at hnext hcycle
    cases hnext
    generalize r.2.2 = o' at hsome hcycle
    cases hcycle
    exact hsome rfl
  refine ⟨_, _, _, ?_, hstored, hturn.1⟩
  have hnextItem : tcqItem tp.queue (if tp.reverseRun = true then -1 else 1) = rest.head? := by
    rw [hforward, if_neg Bool.false_ne_true, tcqItem_one hitems]
  unfold tpRunSegment
  dsimp only
  rw [tcqItem_zero hitems, htp₁, hnextItem]
  dsimp only
  rw [hstays₁.2.2, if_neg Bool.false_ne_true, hact]
  dsimp only
  rw [hsync]
  dsimp only
  rw [hr]

/-- The planner with the settings that neither a cycle nor an appended segment changes. -/
structure Tp.SameSettings (a b : Tp ℝ) : Prop where
  reverseRun : b.reverseRun = a.reverseRun
  cycleTime : b.cycleTime = a.cycleTime
  aborting : b.aborting = a.aborting
  waitingForAtspeed : b.spindle.waitingForAtspeed = a.spindle.waitingForAtspeed
  termCond : b.termCond = a.termCond

theorem Tp.Advances.settings {a b : Tp ℝ} (h : a.Advances b) : a.SameSettings b := by
  obtain ⟨_, _, ⟨_, _, _, _, _, _, rfl⟩, _, rfl⟩ := h
  exact ⟨rfl, rfl, rfl, rfl, rfl⟩

/-- A finished segment that waits for nothing is taken from the queue. -/
theorem tpCompleteSegment_items (env : TpEnv ℝ) {u : Tp ℝ} {t : Tc ℝ} {r : List (Tc ℝ)} (hw : u.queue.WF)
    (hforward : u.reverseRun = false) (hitems : u.queue.items = t :: r) (hid : t.id ≠ u.spindle.waitingForAtspeed)
    (hindexer : t.indexerJnum = -1) : (tpCompleteSegment env u t).queue.items = r ∧
      (tpCompleteSegment env u t).queue.WF ∧ (tpCompleteSegment env u t).currentPos = u.currentPos ∧
      (tpCompleteSegment env u t).goalPos = u.goalPos ∧ u.SameSettings (tpCompleteSegment env u t) := by
  have hlen := items_length u.queue
  rw [hitems, List.length_cons] at hlen
  unfold tpCompleteSegment
  rw [if_neg hid.symm]
  dsimp only
  rw [if_neg fun h => h.1 hindexer, if_neg (by rw [hforward]; exact Bool.false_ne_true)]
  generalize ({ t with
    active := false, remove := false, isBlending := false, splitting := false, cycleTime := u.cycleTime
    currentvel := 0, termVel := 0 } : Tc ℝ) = t'
  have hset : (u.queue.setItem 0 t').items = t' :: r := by
    have h := @setItem_items _ u.queue hw 0 (by omega) t'
    rw [hitems] at h
    exact h
  have hpop : ∃ q, tcqPop (u.queue.setItem 0 t') = some q := by
    unfold tcqPop
    rw [if_neg (by
      rw [Bool.and_eq_true, decide_eq_true_eq]
      rintro ⟨h, -⟩
      change u.queue.len < 1 at h
      omega)]
    dsimp only
    split
    · exact ⟨_, rfl⟩
    · exact ⟨_, rfl⟩
  obtain ⟨q, hpop⟩ := hpop
  rw [hpop]
  refine ⟨?_, (tcqPop_wf (setItem_wf hw 0 t') hpop).1, rfl, rfl, rfl, rfl, rfl, rfl, rfl⟩
  show q.items = r
  rw [tcqPop_items hpop, hset]
  rfl

/-- A cycle of a planner whose head segment waits for nothing. -/
theorem tpRunCycle_turn (env : TpEnv ℝ) {tp : Tp ℝ} {tc : Tc ℝ} {rest : List (Tc ℝ)} (hw : tp.queue.WF)
    (hforward : tp.reverseRun = false) (hitems : tp.queue.items = tc :: rest)
    (hgo : tpAbortStopped tp tc rest.head? = false)
    (hblend : tc.blendingNext = false) (hcond : tc.termCond ≠ .parabolic) (hid : tc.id ≠ tp.spindle.waitingForAtspeed)
    (hindexer : tc.indexerJnum = -1) : ∃ t r, Turn env tp tc rest (tpRunCycle env tp).currentPos t r ∧
      (tpRunCycle env tp).queue.items = (if t.remove = true then r else t :: r) ∧ (tpRunCycle env tp).queue.WF ∧
      (tpRunCycle env tp).goalPos = tp.goalPos ∧ tp.SameSettings (tpRunCycle env tp) := by
  obtain ⟨u, t, r, hrun, hstored, hturn⟩ := tpRunSegment_turn env hw hforward hitems hgo hblend hcond
  obtain ⟨hadvances, ⟨tc', htc', hcycled⟩, -⟩ := tpRunSegment_advances hrun
  have hwu : u.queue.WF := hadvances.cells.wf hw
  have hsame := hadvances.settings
  rw [tcqItem_zero hitems] at htc'
  cases htc'
  refine ⟨t, r, ?_⟩
  unfold tpRunCycle
  rw [hrun]
  dsimp only
  by_cases hremove : t.remove = true
  · rw [if_pos hremove, if_pos hremove]
    obtain ⟨hdone, hwf, hpos, hgoal, hkept⟩ := tpCompleteSegment_items env hwu (hsame.reverseRun.trans hforward) hstored
      (by rw [hcycled.keeps Tc.id fun _ => rfl, hsame.waitingForAtspeed]; exact hid)
      ((hcycled.keeps Tc.indexerJnum fun _ => rfl).trans hindexer)
    rw [hpos]
    exact ⟨hturn, hdone, hwf, hgoal.trans hadvances.goalPos, hkept.reverseRun.trans hsame.reverseRun,
      hkept.cycleTime.trans hsame.cycleTime, hkept.aborting.trans hsame.aborting,
      hkept.waitingForAtspeed.trans hsame.waitingForAtspeed, hkept.termCond.trans hsame.termCond⟩
  · rw [if_neg hremove, if_neg hremove]
    exact ⟨hturn, hstored, hwu, hadvances.goalPos, hsame⟩

end SoemMotion
