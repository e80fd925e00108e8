import SoemMotion.SegmentPop

/-!
# The first cycle of a line

A line that is alone in the queue moves the planner by what it has come itself.  In its first cycle it comes away from
its start exactly if it may move at all or is no longer than the tolerance of its end; otherwise it stays as it is.
-/

namespace SoemMotion

/-! ### Lines in exact arithmetic -/

/-- The point of the line from `start` to `stop` at the distance `p` from its start. -/
noncomputable def linePoint (start stop : PmCartesian ℝ) (p : ℝ) : PmCartesian ℝ :=
  pmCartCartAdd start (pmCartScalMult (pmCartUnit (pmCartCartSub stop start)) p)

noncomputable def lineLength (start stop : PmCartesian ℝ) : ℝ := pmCartMag (pmCartCartSub stop start)

theorem one_le_of_mag {v : PmCartesian ℝ} (h : 1 ≤ pmCartMag v) : 1 ≤ pmSq v.x + pmSq v.y + pmSq v.z := by
  unfold pmCartMag pmSqrt at h
  by_cases hpos : 0 < pmSq v.x + pmSq v.y + pmSq v.z
  · rw [if_pos hpos, sqrt_real] at h
    exact Real.one_le_sqrt.1 h
  · rw [if_neg hpos] at h
    norm_num at h

theorem pmCartUnit_eq {v : PmCartesian ℝ} (h : 1 ≤ pmCartMag v) :
    pmCartUnit v = ⟨v.x / pmCartMag v, v.y / pmCartMag v, v.z / pmCartMag v⟩ := by
  have hne : pmCartMag v ≠ 0 := (zero_lt_one.trans_le h).ne'
  show (if (pmCartMag v == 0) = true then v else _) = _
  rw [beq_real, decide_eq_false hne, if_neg Bool.false_ne_true]
  rfl

theorem pmCartLineInit_end (p q : PmCartesian ℝ) : (pmCartLineInit p q).end = q := by
  unfold pmCartLineInit
  dsimp only
  split <;> rfl

theorem pmCartLineInit_tmagZero (p q : PmCartesian ℝ) :
    (pmCartLineInit p q).tmagZero = decide (pmCartInfNorm (pmCartCartSub q p) < cartFuzz) := by
  have hnorm : fabs (pmCartInfNorm (pmCartCartSub q p)) = pmCartInfNorm (pmCartCartSub q p) := by
    unfold pmCartInfNorm
    simp only [fabs_real, fmax_real]
    exact abs_of_nonneg (le_max_of_le_left (abs_nonneg _))
  unfold pmCartLineInit
  dsimp only
  rw [hnorm]
  split
  · rename_i h
    exact (decide_eq_true h).symm
  · rename_i h
    exact (decide_eq_false h).symm

/-- A line of one unit or more is not taken for a point. -/
theorem pmCartLineInit_long {start stop : PmCartesian ℝ} (h : 1 ≤ lineLength start stop) :
    pmCartLineInit start stop =
      { start := start, «end» := stop, uVec := pmCartUnit (pmCartCartSub stop start)
        tmag := lineLength start stop, tmagZero := false } := by
  have hsum := one_le_of_mag h
  have hnorm : ¬ fabs (pmCartInfNorm (pmCartCartSub stop start)) < cartFuzz := by
    intro hlt
    generalize pmCartCartSub stop start = v at hsum hlt
    unfold pmCartInfNorm cartFuzz at hlt
    rw [fabs_real, fabs_real, fabs_real, fabs_real, fmax_real, fmax_real, abs_lt, max_lt_iff, max_lt_iff] at hlt
    obtain ⟨-, hx, hy, hz⟩ := hlt
    have hsmall : ∀ a : ℝ, |a| < 1.0e-8 → pmSq a < 1 / 3 := by
      intro a ha
      have h1 : |a| * |a| < 1.0e-8 * 1.0e-8 := mul_self_lt_mul_self (abs_nonneg a) ha
      rw [abs_mul_abs_self] at h1
      unfold pmSq
      refine h1.trans ?_
      norm_num
    have := hsmall _ hx
    have := hsmall _ hy
    have := hsmall _ hz
    linarith
  unfold pmCartLineInit
  dsimp only
  rw [if_neg hnorm]
  rfl

theorem linePoint_zero (start stop : PmCartesian ℝ) : linePoint start stop 0 = start := by
  unfold linePoint pmCartCartAdd pmCartScalMult
  simp

/-- A move from one point of the line to another, made from its start, ends at the second point only if the first one is
the start. -/
theorem linePoint_moved_iff {start stop : PmCartesian ℝ} (h : 1 ≤ lineLength start stop) (p q : ℝ) :
    pmCartCartAdd start (pmCartCartSub (linePoint start stop q) (linePoint start stop p)) = linePoint start stop q ↔
      p = 0 := by
  constructor
  · intro heq
    by_contra hp
    have hsum := one_le_of_mag h
    have hmag : pmCartMag (pmCartCartSub stop start) ≠ 0 := (zero_lt_one.trans_le h).ne'
    have hunit := pmCartUnit_eq h
    unfold linePoint at heq
    rw [hunit] at heq
    generalize pmCartCartSub stop start = v at hsum hmag heq
    have hzero : ∀ a b : ℝ, a + (a + b / pmCartMag v * q - (a + b / pmCartMag v * p)) = a + b / pmCartMag v * q →
        b = 0 := by
      intro a b hab
      have hprod : b / pmCartMag v * p = 0 := by linarith
      rcases mul_eq_zero.1 hprod with hb | hb
      · exact (div_eq_zero_iff.1 hb).resolve_right hmag
      · exact absurd hb hp
    have hx := hzero _ _ (congrArg PmCartesian.x heq)
    have hy := hzero _ _ (congrArg PmCartesian.y heq)
    have hz := hzero _ _ (congrArg PmCartesian.z heq)
    rw [hx, hy, hz] at hsum
    unfold pmSq at hsum
    norm_num at hsum
  · rintro rfl
    rw [linePoint_zero]
    unfold pmCartCartAdd pmCartCartSub
    simp

/-- The segment is the line from `start` to `stop`. -/
structure Tc.IsLine (start stop : PmCartesian ℝ) (tc : Tc ℝ) : Prop where
  long : 1 ≤ lineLength start stop
  coords : ∃ abc uvw, tc.coords = .line ⟨pmCartLineInit start stop, abc, uvw⟩
  target : tc.target = lineLength start stop

theorem Tc.IsLine.same {start stop : PmCartesian ℝ} {a b : Tc ℝ} (h : a.IsLine start stop) (hs : a.Same b) :
    b.IsLine start stop :=
  ⟨h.long, by rw [hs.coords]; exact h.coords, hs.target.trans h.target⟩

theorem Tc.IsLine.position {start stop : PmCartesian ℝ} {tc : Tc ℝ} (h : tc.IsLine start stop) :
    (tcGetPos tc).tran = linePoint start stop tc.progress := by
  obtain ⟨abc, uvw, hcoords⟩ := h.coords
  have hne : lineLength start stop ≠ 0 := (zero_lt_one.trans_le h.long).ne'
  unfold tcGetPos tcGetPosReal
  rw [hcoords]
  show pmCartLinePoint (pmCartLineInit start stop) (tc.progress * (pmCartLineInit start stop).tmag / tc.target) = _
  rw [pmCartLineInit_long h.long, h.target]
  show pmCartLinePoint _ (tc.progress * lineLength start stop / lineLength start stop) = _
  rw [mul_div_cancel_right₀ _ hne]
  rfl

theorem linePoint_length {start stop : PmCartesian ℝ} (h : 1 ≤ lineLength start stop) :
    linePoint start stop (lineLength start stop) = stop := by
  have hne : pmCartMag (pmCartCartSub stop start) ≠ 0 := (zero_lt_one.trans_le h).ne'
  unfold linePoint
  rw [pmCartUnit_eq h]
  unfold lineLength pmCartCartAdd pmCartScalMult
  dsimp only
  rw [div_mul_cancel₀ _ hne, div_mul_cancel₀ _ hne, div_mul_cancel₀ _ hne]
  unfold pmCartCartSub
  simp

/-- The end of a line, whatever is known of the pose otherwise. -/
theorem Tc.IsLine.endpoint {start stop : PmCartesian ℝ} {tc : Tc ℝ} (h : tc.IsLine start stop) (pos : EmcPose ℝ) :
    (tcGetEndpoint tc pos).tran = stop := by
  have hpos := @Tc.IsLine.position start stop { tc with progress := tc.target } ⟨h.long, h.coords, h.target⟩
  obtain ⟨abc, uvw, hcoords⟩ := h.coords
  have heq : tcGetEndpoint tc pos = tcGetPos { tc with progress := tc.target } := by
    unfold tcGetEndpoint tcGetPos tcGetPosReal
    dsimp only
    rw [hcoords]
    rfl
  rw [heq, hpos]
  show linePoint start stop tc.target = stop
  rw [h.target, linePoint_length h.long]

/-- The segment of a line. -/
theorem tpLineSegment_isLine {tp : Tp ℝ} {stop : EmcPose ℝ} (h : 1 ≤ lineLength tp.goalPos.tran stop.tran)
    (canonMotionType : Int) (vel iniMaxvel acc : ℝ) (enables : UInt8) (atspeed : Bool) :
    (tpLineSegment tp stop canonMotionType vel iniMaxvel acc enables atspeed).IsLine tp.goalPos.tran stop.tran := by
  refine ⟨h, ⟨_, _, rfl⟩, ?_⟩
  show pmLine9Target (pmLine9Init tp.goalPos stop) = _
  unfold pmLine9Target pmLine9Init
  rw [pmCartLineInit_long h]
  rfl

/-! ### What a cycle changes of a segment -/

theorem tcSetSplitCycle_eq (tc : Tc ℝ) (splitTime vf : ℝ) : ∃ cycleTime splitting termVel,
    tcSetSplitCycle tc splitTime vf =
    { tc with cycleTime := cycleTime, splitting := splitting, termVel := termVel } := by
  unfold tcSetSplitCycle
  split
  · exact ⟨_, _, _, rfl⟩
  · exact ⟨_, _, _, rfl⟩

theorem tcUpdateDistFromAccel_eq (tc : Tc ℝ) (acc velDesired : ℝ) (reverse : Bool) :
    ∃ progress currentvel onFinalDecel, tcUpdateDistFromAccel tc acc velDesired reverse =
      { tc with progress := progress, currentvel := currentvel, onFinalDecel := onFinalDecel } := by
  unfold tcUpdateDistFromAccel
  dsimp only
  split
  · split
    · exact ⟨_, _, _, rfl⟩
    · exact ⟨_, _, _, rfl⟩
  · exact ⟨_, _, _, rfl⟩

theorem tpCheckEndCondition_eq (env : TpEnv ℝ) (tp : Tp ℝ) (tc : Tc ℝ) (nexttc : Option (Tc ℝ)) :
    ∃ progress cycleTime splitting termVel remove, tpCheckEndCondition env tp tc nexttc =
      { tc with
        progress := progress, cycleTime := cycleTime, splitting := splitting, termVel := termVel, remove := remove } ∧
      (progress = tc.progress ∧ remove = tc.remove ∨ progress = tcGetTarget tc tp.reverseRun) := by
  -- a split writes the cycle time, its own flag and the velocity at the end
  have hsplit : ∀ (progress splitTime vf : ℝ), ∃ cycleTime splitting termVel,
      tcSetSplitCycle { tc with cycleTime := tp.cycleTime, progress := progress } splitTime vf =
        { tc with progress := progress, cycleTime := cycleTime, splitting := splitting, termVel := termVel } := by
    intro progress splitTime vf
    obtain ⟨_, _, _, h⟩ := tcSetSplitCycle_eq { tc with cycleTime := tp.cycleTime, progress := progress } splitTime vf
    exact ⟨_, _, _, h⟩
  unfold tpCheckEndCondition
  dsimp only
  split
  · obtain ⟨_, _, _, h⟩ := hsplit (tcGetTarget { tc with cycleTime := tp.cycleTime } tp.reverseRun) 0 tc.currentvel
    split
    · split
      · exact ⟨_, _, _, _, _, rfl, .inr rfl⟩
      · rw [h]
        exact ⟨_, _, _, _, _, rfl, .inr rfl⟩
    · split
      · exact ⟨_, _, _, _, _, rfl, .inr rfl⟩
      · rw [h]
        exact ⟨_, _, _, _, _, rfl, .inr rfl⟩
  · split
    · exact ⟨_, _, _, _, _, rfl, .inl ⟨rfl, rfl⟩⟩
    · split
      · exact ⟨_, _, _, _, _, rfl, .inl ⟨rfl, rfl⟩⟩
      · split
        · exact ⟨_, _, _, _, _, rfl, .inl ⟨rfl, rfl⟩⟩
        · split
          · obtain ⟨_, _, _, h⟩ := hsplit (tcGetTarget { tc with cycleTime := tp.cycleTime } tp.reverseRun) 0 _
            rw [h]
            exact ⟨_, _, _, _, _, rfl, .inr rfl⟩
          · split
            · obtain ⟨_, _, _, h⟩ := hsplit tc.progress _ _
              rw [h]
              exact ⟨_, _, _, _, _, rfl, .inl ⟨rfl, rfl⟩⟩
            · exact ⟨_, _, _, _, _, rfl, .inl ⟨rfl, rfl⟩⟩

/-- A cycle of a segment changes how far it has come, how fast it is and how it ends. -/
theorem tpAdvance_eq (env : TpEnv ℝ) (tp : Tp ℝ) (tc : Tc ℝ) (nexttc : Option (Tc ℝ)) :
    ∃ velAtBlendStart progress currentvel onFinalDecel cycleTime splitting termVel remove,
      tpAdvance env tp tc nexttc = { tc with
        velAtBlendStart := velAtBlendStart, progress := progress, currentvel := currentvel, onFinalDecel := onFinalDecel
        cycleTime := cycleTime, splitting := splitting, termVel := termVel, remove := remove } := by
  obtain ⟨v, hstart⟩ : ∃ v, (if tc.blendingNext = true then tc else { tc with velAtBlendStart := tc.currentvel }) =
      { tc with velAtBlendStart := v } := by
    split
    · exact ⟨_, rfl⟩
    · exact ⟨_, rfl⟩
  unfold tpAdvance
  rw [hstart]
  obtain ⟨_, _, _, h⟩ := tcUpdateDistFromAccel_eq { tc with velAtBlendStart := v }
    (tpCycleAccel env tp { tc with velAtBlendStart := v } nexttc).1
    (tpCycleAccel env tp { tc with velAtBlendStart := v } nexttc).2 tp.reverseRun
  dsimp only
  rw [h]
  obtain ⟨_, _, _, _, _, h', -⟩ := tpCheckEndCondition_eq env tp _ nexttc
  rw [h']
  exact ⟨_, _, _, _, _, _, _, _, rfl⟩

/-! ### The move of the planner -/

theorem emcPoseAdd_sub_self (p q : EmcPose ℝ) : emcPoseAdd p (emcPoseSub q q) = p := by
  unfold emcPoseAdd emcPoseSub pmCartCartAdd pmCartCartSub
  simp

theorem tpCycleAlone_position (env : TpEnv ℝ) (tp : Tp ℝ) (tc : Tc ℝ) :
    (tpCycleAlone env tp tc).1.currentPos =
      emcPoseAdd tp.currentPos (emcPoseSub (tcGetPos (tpCycleAlone env tp tc).2.1) (tcGetPos tc)) := by
  unfold tpCycleAlone
  split
  · unfold tpHandleSplitCycle
    split
    · rw [emcPoseAdd_sub_self]
    · rfl
  · unfold tpHandleRegularCycle
    split
    · rw [emcPoseAdd_sub_self]
    · rfl

theorem tpCycleAlone_synchronized (env : TpEnv ℝ) (tp : Tp ℝ) (tc : Tc ℝ) :
    (tpCycleAlone env tp tc).2.1.synchronized = tc.synchronized := by
  unfold tpCycleAlone
  split
  · unfold tpHandleSplitCycle
    split <;> rfl
  · unfold tpHandleRegularCycle
    split
    · rfl
    · show (tpAdvance env tp { tc with cycleTime := tp.cycleTime } none).synchronized = tc.synchronized
      obtain ⟨_, _, _, _, _, _, _, _, h⟩ := tpAdvance_eq env tp { tc with cycleTime := tp.cycleTime } none
      rw [h]

/-- The planner moves by what its only segment has come. -/
theorem tpRunSegment_position (env : TpEnv ℝ) {tp : Tp ℝ} {tc : Tc ℝ} (hforward : tp.reverseRun = false)
    (hs : tp.Single tc) (hsync : tc.synchronized = .none) : ∃ tc', (tpRunSegment env tp).2 = some tc' ∧
      tc'.synchronized = .none ∧
      (tpRunSegment env tp).1.currentPos = emcPoseAdd tp.currentPos (emcPoseSub (tcGetPos tc') (tcGetPos tc)) := by
  obtain ⟨tp', tc₁, _, _, _, _, htp, htc, hrun⟩ := tpRunSegment_single env hforward hs hsync
  have hpos := tpCycleAlone_position env tp' tc₁
  have hstart : tp'.currentPos = tp.currentPos ∧ tcGetPos tc₁ = tcGetPos tc ∧ tc₁.synchronized = .none := by
    rw [htp, htc]
    exact ⟨rfl, rfl, hsync⟩
  rw [hstart.1, hstart.2.1] at hpos
  rw [hrun]
  exact ⟨_, rfl, (tpCycleAlone_synchronized env tp' tc₁).trans hstart.2.2, hpos⟩

/-! ### The first cycle of a segment -/

theorem saturate_pos {x max : ℝ} (hx : 0 < x) (hmax : 0 < max) : 0 < saturate x max := by
  unfold saturate
  split
  · exact hmax
  · rw [if_neg (by linarith)]
    exact hx

theorem saturate_nonpos {x max : ℝ} (hx : x ≤ 0) (hmax : 0 < max) : saturate x max ≤ 0 := by
  unfold saturate
  rw [if_neg (by linarith)]
  split
  · linarith
  · exact hx

/-- A segment at its start, at rest, that ends without speed. -/
structure Tc.Unmoved (tc : Tc ℝ) : Prop where
  progress : tc.progress = 0
  currentvel : tc.currentvel = 0
  finalvel : tc.finalvel = 0
  termCond : tc.termCond = .tangent
  synchronized : tc.synchronized = .none
  splitting : tc.splitting = false
  remove : tc.remove = false
  isBlending : tc.isBlending = false

section

variable {env : TpEnv ℝ} {tp : Tp ℝ} {tc : Tc ℝ}

theorem tpGetRealFinalVel_nonpos (h : tc.finalvel = 0) : tpGetRealFinalVel env tp tc none ≤ 0 := by
  unfold tpGetRealFinalVel
  split
  · exact le_rfl
  · dsimp only
    rw [h, fmin_real]
    exact min_le_left _ _

/-- Such a segment is given the acceleration to its velocity, under its limit. -/
theorem Tc.Unmoved.accel (h : tc.Unmoved) (hforward : tp.reverseRun = false) (hcycle : tc.cycleTime = 1)
    (htarget : 0 < tc.target) (hacc : 0 < tcGetTangentialMaxAccel tc) : ∃ maxnewvel velDesired, 0 < maxnewvel ∧
      tpCycleAccel env tp tc none =
        (saturate (saturate maxnewvel (tpGetRealTargetVel env tp tc)) (tcGetTangentialMaxAccel tc), velDesired) := by
  have hramp : tpCalculateRampAccel env tp tc none = none := by
    unfold tpCalculateRampAccel
    exact if_pos ((tpGetRealFinalVel_nonpos h.finalvel).trans_lt one_pos)
  have htrapezoid : tpCycleAccel env tp tc none = tpCalculateTrapezoidalAccel env tp tc none := by
    unfold tpCycleAccel
    rw [hramp, Option.getD_none]
    split <;> rfl
  have hgo : tcGetDistanceToGo tc tp.reverseRun = tc.target := by
    rw [hforward]
    show tc.target - tc.progress = tc.target
    rw [h.progress, sub_zero]
  have hdt : fmax tc.cycleTime (tpTimeEpsilon : ℝ) = 1 := by
    rw [hcycle, fmax_real]
    unfold tpTimeEpsilon
    norm_num
  obtain ⟨vf, hvf⟩ : ∃ vf, tpGetRealFinalVel env tp tc none = vf := ⟨_, rfl⟩
  rw [htrapezoid]
  unfold tpCalculateTrapezoidalAccel
  dsimp only
  rw [hgo, hdt, h.currentvel, hvf, hcycle]
  generalize tcGetTangentialMaxAccel tc = a at hacc
  refine ⟨_, _, ?_, by rw [sub_zero, div_one]⟩
  unfold pmSq
  -- the root is of more than the square that is taken off it
  have hmore : a * 1 * 0.5 * (a * 1 * 0.5) < vf * vf + a * (2 * tc.target - 0 * 1) + a * 1 * 0.5 * (a * 1 * 0.5) := by
    have h1 : 0 < a * (2 * tc.target - 0 * 1) := mul_pos hacc (by linarith)
    have h2 : 0 ≤ vf * vf := mul_self_nonneg vf
    linarith
  rw [if_pos hmore]
  unfold pmSqrt
  have hsq : 0 ≤ a * 1 * 0.5 * (a * 1 * 0.5) := mul_self_nonneg _
  rw [if_pos (hsq.trans_lt hmore), sqrt_real]
  have hroot : a * 1 * 0.5 < Real.sqrt (vf * vf + a * (2 * tc.target - 0 * 1) + a * 1 * 0.5 * (a * 1 * 0.5)) := by
    refine Real.lt_sqrt_of_sq_lt ?_
    rw [sq]
    exact hmore
  linarith

/-- Accelerated, the segment comes away from its start. -/
theorem tcUpdateDistFromAccel_pos (h : tc.Unmoved) (hcycle : tc.cycleTime = 1) (htarget : 0 < tc.target) {acc : ℝ}
    (hacc : 0 < acc) (velDesired : ℝ) : 0 < (tcUpdateDistFromAccel tc acc velDesired false).progress := by
  have hnext : 0 < tc.currentvel + acc * tc.cycleTime := by
    rw [h.currentvel, hcycle]
    linarith
  obtain ⟨onFinalDecel, heq⟩ := tcUpdateDistFromAccel_moves hnext.le htarget.le velDesired
  rw [heq]
  refine lt_max_of_lt_right (lt_min ?_ htarget)
  rw [h.progress, h.currentvel, hcycle]
  linarith

/-- Not accelerated, it stays where it is, at rest. -/
theorem tcUpdateDistFromAccel_stays (h : tc.Unmoved) (hcycle : tc.cycleTime = 1) (htarget : 0 < tc.target) {acc : ℝ}
    (hacc : acc ≤ 0) (velDesired : ℝ) : ∃ onFinalDecel, tcUpdateDistFromAccel tc acc velDesired false =
      { tc with currentvel := 0, onFinalDecel := onFinalDecel } := by
  have hnext : tc.currentvel + acc * tc.cycleTime = acc := by
    rw [h.currentvel, hcycle]
    ring
  rcases lt_or_ge (tc.currentvel + acc * tc.cycleTime) 0 with hneg | hnonneg
  · obtain ⟨progress, onFinalDecel, hway, heq⟩ := tcUpdateDistFromAccel_stops hneg velDesired
    rw [heq]
    rcases hway with rfl | ⟨-, hnear⟩
    · exact ⟨onFinalDecel, rfl⟩
    · rw [h.progress, h.currentvel] at hnear
      linarith
  · obtain ⟨onFinalDecel, heq⟩ := tcUpdateDistFromAccel_moves hnonneg htarget.le velDesired
    have hzero : acc = 0 := by linarith
    have hprogress : max 0 (min (tc.progress +
        (tc.currentvel + (tc.currentvel + acc * tc.cycleTime)) / 2 * tc.cycleTime) tc.target) = tc.progress := by
      rw [h.progress, hnext, h.currentvel, hzero, min_eq_left (by linarith), max_eq_left (by norm_num)]
    rw [heq, hprogress, hnext, hzero]
    exact ⟨onFinalDecel, rfl⟩

theorem tpCheckEndCondition_pos (hforward : tp.reverseRun = false) (htarget : 0 < tc.target)
    (h : 0 < tc.progress ∨ tc.target - tc.progress ≤ 1) : 0 < (tpCheckEndCondition env tp tc none).progress := by
  have hsplit : ∀ (u : Tc ℝ) (splitTime vf : ℝ), (tcSetSplitCycle u splitTime vf).progress = u.progress := by
    intro u splitTime vf
    unfold tcSetSplitCycle
    split <;> rfl
  have hgo : tcGetDistanceToGo { tc with cycleTime := tp.cycleTime } tp.reverseRun = tc.target - tc.progress := by
    rw [hforward]
    rfl
  have hend : tcGetTarget { tc with cycleTime := tp.cycleTime } tp.reverseRun = tc.target := by
    rw [hforward]
    rfl
  unfold tpCheckEndCondition
  dsimp only
  rw [hgo, hend]
  -- near its end the segment is put there, elsewhere it had moved already
  by_cases hnear : tc.target - tc.progress ≤ (tpPosEpsilon : ℝ)
  · rw [if_pos hnear, hforward, if_neg Bool.false_ne_true]
    split
    · show 0 < (tcSetSplitCycle _ _ _).progress
      rw [hsplit]
      exact htarget
    · rw [hsplit]
      exact htarget
  · have hpos : 0 < tc.progress := h.resolve_right hnear
    rw [if_neg hnear]
    split
    · exact hpos
    · split
      · exact hpos
      · split
        · exact hpos
        · split
          · rw [hsplit]
            exact htarget
          · split
            · rw [hsplit]
              exact hpos
            · exact hpos

theorem tpCheckEndCondition_stays (h : tc.Unmoved) (hforward : tp.reverseRun = false) (hcycle : tp.cycleTime = 1)
    (hfar : 1 < tc.target) : tpCheckEndCondition env tp tc none = { tc with cycleTime := 1 } := by
  have hgo : tcGetDistanceToGo { tc with cycleTime := tp.cycleTime } tp.reverseRun = tc.target := by
    rw [hforward]
    show tc.target - tc.progress = tc.target
    rw [h.progress, sub_zero]
  have hnear : ¬ tc.target ≤ (tpPosEpsilon : ℝ) := not_le.2 hfar
  have hvf : tpGetRealFinalVel env tp { tc with cycleTime := tp.cycleTime } none ≤ 0 :=
    tpGetRealFinalVel_nonpos h.finalvel
  have hvel : tc.currentvel ≤ 0 := h.currentvel.le
  unfold tpCheckEndCondition
  dsimp only
  rw [hgo, if_neg hnear, hcycle]
  rw [hcycle] at hvf
  generalize tpGetRealFinalVel env tp { tc with cycleTime := 1 } none = vf at hvf
  have hslow : (tc.currentvel + vf) / 2 ≤ 0 := by linarith
  have hfast : ¬ (tpVelEpsilon : ℝ) < (tc.currentvel + vf) / 2 := not_lt.2 (hslow.trans zero_le_one)
  have hcruise : (tc.currentvel + vf) / 2 * 1 < tc.target := by linarith
  split
  · rfl
  · rw [decide_eq_false hfast, decide_eq_true hcruise, decide_eq_true (show (tpPosEpsilon : ℝ) < tc.target from hfar)]
    rfl

/-- The first cycle of such a segment, up to its end condition. -/
theorem Tc.Unmoved.advance (h : tc.Unmoved) (hforward : tp.reverseRun = false) (hcycle : tc.cycleTime = 1)
    (htarget : 0 < tc.target) (hacc : 0 < tcGetTangentialMaxAccel tc) :
    ∃ (u : Tc ℝ) (velAtBlendStart maxnewvel velDesired : ℝ), u = { tc with velAtBlendStart := velAtBlendStart } ∧
      u.Unmoved ∧ 0 < maxnewvel ∧ tpAdvance env tp tc none = tpCheckEndCondition env tp (tcUpdateDistFromAccel u
        (saturate (saturate maxnewvel (tpGetRealTargetVel env tp tc)) (tcGetTangentialMaxAccel tc)) velDesired false)
        none := by
  obtain ⟨u, v, hu, hadv⟩ : ∃ (u : Tc ℝ) (v : ℝ), u = { tc with velAtBlendStart := v } ∧ tpAdvance env tp tc none =
      tpCheckEndCondition env tp
        (tcUpdateDistFromAccel u (tpCycleAccel env tp u none).1 (tpCycleAccel env tp u none).2 tp.reverseRun) none := by
    unfold tpAdvance
    by_cases hblend : tc.blendingNext = true
    · rw [if_pos hblend]
      exact ⟨tc, tc.velAtBlendStart, rfl, rfl⟩
    · rw [if_neg hblend]
      exact ⟨_, _, rfl, rfl⟩
  have hunmoved : u.Unmoved := by
    rw [hu]
    exact ⟨h.progress, h.currentvel, h.finalvel, h.termCond, h.synchronized, h.splitting, h.remove, h.isBlending⟩
  have hsame : u.cycleTime = 1 ∧ 0 < u.target ∧ 0 < tcGetTangentialMaxAccel u := by
    rw [hu]
    exact ⟨hcycle, htarget, hacc⟩
  obtain ⟨m, vd, hm, haccel⟩ := hunmoved.accel hforward hsame.1 hsame.2.1 hsame.2.2
  refine ⟨u, v, m, vd, hu, hunmoved, hm, ?_⟩
  rw [hadv, haccel, hforward, hu]
  rfl

/-- The request of a segment that may not move. -/
theorem saturate_stopped {m v : ℝ} (hm : 0 < m) (hv : v ≤ 0) : saturate m v ≤ 0 := by
  unfold saturate
  rw [if_pos (by linarith)]
  exact hv

/-- In its first cycle a segment that may move, or is no longer than the tolerance of its end, comes away from its
start. -/
theorem tpAdvance_moves (h : tc.Unmoved) (hforward : tp.reverseRun = false) (hcycle : tc.cycleTime = 1)
    (htarget : 0 < tc.target) (hacc : 0 < tcGetTangentialMaxAccel tc)
    (hmoves : 0 < tpGetRealTargetVel env tp tc ∨ tc.target ≤ 1) : 0 < (tpAdvance env tp tc none).progress := by
  obtain ⟨u, v, m, vd, hu, hunmoved, hm, hadv⟩ := h.advance hforward hcycle htarget hacc
  have hsame : u.cycleTime = 1 ∧ u.target = tc.target := by
    rw [hu]
    exact ⟨hcycle, rfl⟩
  have hpos : 0 < u.target := hsame.2.symm ▸ htarget
  rw [hadv]
  generalize hv : tpGetRealTargetVel env tp tc = vel at hmoves
  have hdist := tcUpdateDistFromAccel_cycled u (saturate (saturate m vel) (tcGetTangentialMaxAccel tc)) vd false
  refine tpCheckEndCondition_pos hforward (hdist.same.target.symm ▸ hpos) ?_
  by_cases hvel : 0 < vel
  · exact .inl (tcUpdateDistFromAccel_pos hunmoved hsame.1 hpos (saturate_pos (saturate_pos hm hvel) hacc) vd)
  · obtain ⟨b, hb⟩ := tcUpdateDistFromAccel_stays hunmoved hsame.1 hpos
      (saturate_nonpos (saturate_stopped hm (not_lt.1 hvel)) hacc) vd
    rw [hb]
    refine .inr ?_
    show u.target - u.progress ≤ 1
    rw [hunmoved.progress, sub_zero, hsame.2]
    exact hmoves.resolve_left hvel

/-- A segment that may not move stays at its start. -/
theorem tpAdvance_stays (h : tc.Unmoved) (hforward : tp.reverseRun = false) (hcycle : tc.cycleTime = 1)
    (hplanner : tp.cycleTime = 1) (hfar : 1 < tc.target) (hacc : 0 < tcGetTangentialMaxAccel tc)
    (hstays : tpGetRealTargetVel env tp tc ≤ 0) : ∃ velAtBlendStart onFinalDecel, tpAdvance env tp tc none =
      { tc with
        velAtBlendStart := velAtBlendStart, currentvel := 0, onFinalDecel := onFinalDecel, cycleTime := 1 } := by
  obtain ⟨u, v, m, vd, hu, hunmoved, hm, hadv⟩ :=
    h.advance hforward hcycle (one_pos.trans hfar) hacc
  have hsame : u.cycleTime = 1 ∧ 1 < u.target := by
    rw [hu]
    exact ⟨hcycle, hfar⟩
  obtain ⟨b, hb⟩ := tcUpdateDistFromAccel_stays hunmoved hsame.1 (one_pos.trans hsame.2)
    (saturate_nonpos (saturate_stopped hm hstays) hacc) vd
  rw [hadv, hb]
  have hstill : ({ u with currentvel := 0, onFinalDecel := b } : Tc ℝ).Unmoved :=
    ⟨hunmoved.progress, rfl, hunmoved.finalvel, hunmoved.termCond, hunmoved.synchronized, hunmoved.splitting,
      hunmoved.remove, hunmoved.isBlending⟩
  rw [tpCheckEndCondition_stays hstill hforward hplanner hsame.2, hu]
  exact ⟨_, _, rfl⟩

end

/-! ### The first cycle of a line alone in the queue -/

/-- The velocity of a line that is not blended into. -/
theorem tpGetRealTargetVel_line (env : TpEnv ℝ) (tp : Tp ℝ) {tc : Tc ℝ} {start stop : PmCartesian ℝ}
    (hline : tc.IsLine start stop) (hsync : tc.synchronized = .none) (hblend : tc.isBlending = false) :
    tpGetRealTargetVel env tp tc =
      min (tc.reqvel * if tp.pausing = true ∨ tp.aborting = true then 0 else env.netFeedScale)
        (min (min (tc.reqvel * env.maxAxisScale) tc.maxvel) tp.vLimit) := by
  have hrotary : tcPureRotaryCheck tc = false := by
    obtain ⟨abc, uvw, hcoords⟩ := hline.coords
    unfold tcPureRotaryCheck
    rw [hcoords]
    dsimp only
    rw [pmCartLineInit_long hline.long]
    rfl
  have hscale : tpGetFeedScale env tp tc = if tp.pausing = true ∨ tp.aborting = true then 0 else env.netFeedScale := by
    unfold tpGetFeedScale
    rw [hsync, hblend]
    cases tp.pausing <;> cases tp.aborting <;> simp
  unfold tpGetRealTargetVel tpGetMaxTargetVel tcGetMaxTargetVel
  rw [hscale, hrotary, hsync, hblend]
  simp [fmin_real]

/-- What the velocity of a line depends on, in two cycles of one run. -/
structure SamePace (env env' : TpEnv ℝ) (tp tp' : Tp ℝ) (tc tc' : Tc ℝ) : Prop where
  netFeedScale : env'.netFeedScale = env.netFeedScale
  maxAxisScale : env'.maxAxisScale = env.maxAxisScale
  vLimit : tp'.vLimit = tp.vLimit
  aborting : tp'.aborting = tp.aborting
  pausing : tp.pausing = true → tp'.pausing = true
  reqvel : tc'.reqvel = tc.reqvel
  maxvel : tc'.maxvel = tc.maxvel

/-- A line that may not move may not move later. -/
theorem SamePace.stays {env env' : TpEnv ℝ} {tp tp' : Tp ℝ} {tc tc' : Tc ℝ} {start stop : PmCartesian ℝ}
    (h : SamePace env env' tp tp' tc tc') (hline : tc.IsLine start stop) (htc : tc.Unmoved)
    (hline' : tc'.IsLine start stop) (htc' : tc'.Unmoved) (hstays : tpGetRealTargetVel env tp tc ≤ 0) :
    tpGetRealTargetVel env' tp' tc' ≤ 0 := by
  rw [tpGetRealTargetVel_line env tp hline htc.synchronized htc.isBlending] at hstays
  rw [tpGetRealTargetVel_line env' tp' hline' htc'.synchronized htc'.isBlending, h.netFeedScale, h.maxAxisScale,
    h.vLimit, h.aborting, h.reqvel, h.maxvel]
  by_cases hstop : tp'.pausing = true ∨ tp.aborting = true
  · rw [if_pos hstop, mul_zero]
    exact min_le_left _ _
  · have hsame : ¬ (tp.pausing = true ∨ tp.aborting = true) := fun hor => hstop (hor.imp_left h.pausing)
    rw [if_neg hsame] at hstays
    rw [if_neg hstop]
    exact hstays

/-- A line at its start, at rest, that has an acceleration. -/
structure Tc.Waits (start stop : PmCartesian ℝ) (tc : Tc ℝ) : Prop where
  line : tc.IsLine start stop
  unmoved : tc.Unmoved
  accel : 0 < tcGetTangentialMaxAccel tc

/-- The cycle of a line at its start: it comes away from it, or stays as it is. -/
theorem Tc.Waits.cycle {start stop : PmCartesian ℝ} {tp : Tp ℝ} {tc : Tc ℝ} (h : tc.Waits start stop)
    (env : TpEnv ℝ) (hforward : tp.reverseRun = false) (hcycle : tp.cycleTime = 1) (hs : tp.Single tc) :
    ∃ tc', (tpRunSegment env tp).2 = some tc' ∧
      (0 < tpGetRealTargetVel env tp tc ∨ lineLength start stop ≤ 1 → 0 < tc'.progress) ∧
      (tpGetRealTargetVel env tp tc ≤ 0 → 1 < lineLength start stop →
        tc'.Waits start stop ∧ tc'.reqvel = tc.reqvel ∧ tc'.maxvel = tc.maxvel) := by
  obtain ⟨tp', tc₁, _, _, _, _, htp, htc, hrun⟩ := tpRunSegment_single env hforward hs h.unmoved.synchronized
  obtain ⟨u, hu⟩ : ∃ u : Tc ℝ, u = { tc₁ with cycleTime := tp'.cycleTime } := ⟨_, rfl⟩
  have hplanner : tp'.reverseRun = false ∧ tp'.cycleTime = 1 := by
    rw [htp]
    exact ⟨hforward, hcycle⟩
  have hunmoved : u.Unmoved := by
    rw [hu, htc]
    have hm := h.unmoved
    exact ⟨hm.progress, hm.currentvel, hm.finalvel, hm.termCond, hm.synchronized, hm.splitting, hm.remove, rfl⟩
  have hline : u.IsLine start stop := by
    rw [hu, htc]
    exact ⟨h.line.long, h.line.coords, h.line.target⟩
  have hsame : tcGetTangentialMaxAccel u = tcGetTangentialMaxAccel tc ∧ u.reqvel = tc.reqvel ∧ u.maxvel = tc.maxvel ∧
      u.cycleTime = 1 := by
    rw [hu, htc]
    exact ⟨rfl, rfl, rfl, hplanner.2⟩
  -- waking the segment changes nothing that its target velocity depends on
  have hvel : tpGetRealTargetVel env tp' u = tpGetRealTargetVel env tp tc := by
    rw [tpGetRealTargetVel_line env tp' hline hunmoved.synchronized hunmoved.isBlending,
      tpGetRealTargetVel_line env tp h.line h.unmoved.synchronized h.unmoved.isBlending, hsame.2.1, hsame.2.2.1, htp]
    rfl
  have haccel : 0 < tcGetTangentialMaxAccel u := hsame.1.symm ▸ h.accel
  have hpos : 0 < u.target := by
    rw [hline.target]
    exact one_pos.trans_le hline.long
  have hresult : (tpRunSegment env tp).2 = some { tpAdvance env tp' u none with blendVel := 0 } := by
    have hregular : (tpCycleAlone env tp' tc₁).2.1 = { tpAdvance env tp' u none with blendVel := 0 } := by
      have hflags : tc₁.splitting = false ∧ tc₁.remove = false := by
        rw [htc]
        exact ⟨h.unmoved.splitting, h.unmoved.remove⟩
      unfold tpCycleAlone tpHandleRegularCycle
      rw [if_neg (ne_true_of_eq_false hflags.1), if_neg (ne_true_of_eq_false hflags.2), hu]
      rfl
    rw [hrun, ← hregular]
  refine ⟨_, hresult, ?_, ?_⟩
  · intro hmoves
    refine tpAdvance_moves hunmoved hplanner.1 hsame.2.2.2 hpos haccel ?_
    rw [hvel, hline.target]
    exact hmoves
  · intro hstays hfar
    obtain ⟨x, b, hadv⟩ := tpAdvance_stays hunmoved hplanner.1 hsame.2.2.2 hplanner.2
      (by rw [hline.target]; exact hfar) haccel (by rw [hvel]; exact hstays)
    rw [hadv]
    refine ⟨⟨⟨hline.long, hline.coords, hline.target⟩, ?_, haccel⟩, hsame.2.1, hsame.2.2.1⟩
    exact ⟨hunmoved.progress, rfl, hunmoved.finalvel, hunmoved.termCond, hunmoved.synchronized, hunmoved.splitting,
      hunmoved.remove, hunmoved.isBlending⟩

end SoemMotion
