import SoemMotion.BlendAccel
import SoemMotion.LookAhead

/-!
# Nearly tangent segments

`tpSetupTangent` of `tp.c`: before any blend is made, the planner tries to join two segments as they are.  The velocity
turns at the junction within one cycle, so the turn costs each axis some of its acceleration.  Where this is a small
share of the limits, the segments are tangent; else the velocity at the junction is reduced until it is.  The share is
taken off what the two segments may accelerate.
-/

namespace SoemMotion

section Source

variable {K : Type} [Arith K]

/-- Any motion beside the one in `xyz`. -/
def tcRotaryMotionCheck (tc : Tc K) : Bool :=
  match tc.coords with
  | .line line => !(line.abc.tmagZero && line.uvw.tmagZero)
  | .circle circle => !(circle.abc.tmagZero && circle.uvw.tmagZero)

def getMaxFeedScale (env : TpEnv K) (tc : Tc K) : K := if tc.synchronized = .position then 1 else env.maxAxisScale

def tpGetTangentKinkRatio (cfg : BlendConfig K) : K := fmax (fmin cfg.arcBlendTangentKinkRatio 0.7071) 0.001

def findAccelScale (acc bounds : PmCartesian K) : PmCartesian K where
  x := if bounds.x == 0 then 0 else fabs (acc.x / bounds.x)
  y := if bounds.y == 0 then 0 else fabs (acc.y / bounds.y)
  z := if bounds.z == 0 then 0 else fabs (acc.z / bounds.z)

def pmCartAbsMax (v : PmCartesian K) : K := fmax (fmax (fabs v.x) (fabs v.y)) (fabs v.z)

def pmCartCartAntiParallel (u1 u2 : PmCartesian K) (tol : K) : Bool :=
  decide (pmCartMagSq (pmCartCartAdd u1 u2) < tol)

/-- `SHARP_CORNER_EPSILON`, for two degrees. -/
def sharpCornerEpsilon : K := pmSq (Arith.pi * (2 / 180))

def tcSetKinkProperties (prevTc tc : Tc K) (kinkVel accelReduction : K) : Tc K × Tc K :=
  ({ prevTc with kinkVel := kinkVel, kinkAccelReduce := fmax accelReduction prevTc.kinkAccelReduce },
    { tc with kinkAccelReducePrev := fmax accelReduction tc.kinkAccelReducePrev })

/-- `v_max` of `tpSetupTangent`. -/
def tangentVMax (env : TpEnv K) (prevTc tc : Tc K) : K :=
  fmin (tcGetMaxTargetVel prevTc (getMaxFeedScale env prevTc)) (tcGetMaxTargetVel tc (getMaxFeedScale env tc))

/-- Its `acc_scale_max`: the share of the limits that the turn takes at `v_max`. -/
def tangentAccScaleMax (env : TpEnv K) (cfg : BlendConfig K) (tp : Tp K) (prevTc tc : Tc K) : K :=
  -- the next segment may speed up in a split cycle
  let aInst := tangentVMax env prevTc tc / tp.cycleTime + tc.maxaccel
  let acc1 := pmCartScalMult (tcGetEndTangentUnitVector prevTc) aInst
  let acc2 := pmCartScalMult (tcGetStartTangentUnitVector tc) aInst
  let accScaleMax := pmCartAbsMax (findAccelScale (pmCartCartSub acc2 acc1) cfg.accBound)
  match prevTc.coords, tc.coords with
  | .line _, .line _ => accScaleMax
  | _, _ => accScaleMax / blendAccRatioTangential

/-- Join two segments without a blend, or limit the velocity at which they may be joined.  A blend arc before `tc`
counts as rotary and is never joined. -/
def tpSetupTangent (env : TpEnv K) (cfg : BlendConfig K) (tp : Tp K) (prevTc tc : Tc K) : Tc K × Tc K × TpErr :=
  if tcRotaryMotionCheck tc || tcRotaryMotionCheck prevTc then (prevTc, tc, .fail)
  else if env.arcBlendOptDepth < 2 then (prevTc, tc, .fail)
  else if prevTc.termCond = .stop then (prevTc, tc, .fail)
  else if pmCartCartAntiParallel (tcGetEndTangentUnitVector prevTc) (tcGetStartTangentUnitVector tc)
      sharpCornerEpsilon then
    let (prevTc, tc) := tcSetTermCond prevTc tc .stop
    (prevTc, tc, .fail)
  else
    let vMax := tangentVMax env prevTc tc
    let accScaleMax := tangentAccScaleMax env cfg tp prevTc tc
    let kinkRatio := tpGetTangentKinkRatio cfg
    if accScaleMax < kinkRatio then
      let (prevTc, tc) := tcSetTermCond prevTc tc .tangent
      let (prevTc, tc) := tcSetKinkProperties prevTc tc vMax accScaleMax
      (prevTc, tc, .ok)
    else
      let (prevTc, tc) := tcSetKinkProperties prevTc tc (vMax * kinkRatio / accScaleMax) kinkRatio
      (prevTc, tc, .noAction)

end Source

variable {env : TpEnv ℝ} {cfg : BlendConfig ℝ} {tp : Tp ℝ} {prevTc tc p t : Tc ℝ}

/-! ### The share of the limits -/

theorem tpGetTangentKinkRatio_bounds (cfg : BlendConfig ℝ) :
    0 < tpGetTangentKinkRatio cfg ∧ tpGetTangentKinkRatio cfg < 1 := by
  unfold tpGetTangentKinkRatio
  rw [fmax_real, fmin_real]
  exact ⟨lt_max_of_lt_right (by norm_num), max_lt ((min_le_right _ _).trans_lt (by norm_num)) (by norm_num)⟩

theorem findAccelScale_get (acc bounds : PmCartesian ℝ) (hbounds : ∀ i, 0 < bounds.get i) (i : Fin 3) :
    (findAccelScale acc bounds).get i = |acc.get i| / bounds.get i := by
  have hi := hbounds i
  fin_cases i <;>
  · simp only [PmCartesian.get, findAccelScale] at hi ⊢
    simp [hi.ne', fabs_real, abs_div, abs_of_pos hi]

theorem le_pmCartAbsMax (v : PmCartesian ℝ) (i : Fin 3) : v.get i ≤ pmCartAbsMax v := by
  have hx := le_abs_self v.x
  have hy := le_abs_self v.y
  have hz := le_abs_self v.z
  unfold pmCartAbsMax
  simp only [fmax_real, fabs_real]
  fin_cases i
  · exact hx.trans ((le_max_left _ _).trans (le_max_left _ _))
  · exact hy.trans ((le_max_right _ _).trans (le_max_left _ _))
  · exact hz.trans (le_max_right _ _)

theorem pmCartAbsMax_nonneg (v : PmCartesian ℝ) : 0 ≤ pmCartAbsMax v := by
  unfold pmCartAbsMax
  simp only [fmax_real, fabs_real]
  exact (abs_nonneg _).trans (le_max_right _ _)

/-- How the direction turns at the junction. -/
noncomputable def turnAt (prevTc tc : Tc ℝ) (i : Fin 3) : ℝ :=
  (tcGetStartTangentUnitVector tc).get i - (tcGetEndTangentUnitVector prevTc).get i

/-- The share is enough for the turn, at the velocity and with the acceleration that it is computed for. -/
theorem tangentAccScaleMax_spec (env : TpEnv ℝ) (tp : Tp ℝ) (prevTc tc : Tc ℝ) (hbound : ∀ i, 0 < cfg.accBound.get i)
    (i : Fin 3) :
    0 ≤ tangentAccScaleMax env cfg tp prevTc tc ∧
      |(tangentVMax env prevTc tc / tp.cycleTime + tc.maxaccel) * turnAt prevTc tc i| ≤
        tangentAccScaleMax env cfg tp prevTc tc * cfg.accBound.get i := by
  obtain ⟨diff, hdiff⟩ : ∃ diff, pmCartCartSub
      (pmCartScalMult (tcGetStartTangentUnitVector tc) (tangentVMax env prevTc tc / tp.cycleTime + tc.maxaccel))
      (pmCartScalMult (tcGetEndTangentUnitVector prevTc) (tangentVMax env prevTc tc / tp.cycleTime + tc.maxaccel)) =
        diff := ⟨_, rfl⟩
  have hturn : (tangentVMax env prevTc tc / tp.cycleTime + tc.maxaccel) * turnAt prevTc tc i = diff.get i := by
    rw [← hdiff, turnAt]
    fin_cases i <;> simp only [PmCartesian.get, pmCartCartSub, pmCartScalMult] <;> ring
  obtain ⟨share, hshare⟩ : ∃ share, pmCartAbsMax (findAccelScale diff cfg.accBound) = share := ⟨_, rfl⟩
  have hnonneg : 0 ≤ share := hshare ▸ pmCartAbsMax_nonneg _
  -- with a circle the share is counted twice
  have hle : share ≤ tangentAccScaleMax env cfg tp prevTc tc := by
    unfold tangentAccScaleMax
    dsimp only
    rw [hdiff, hshare]
    split
    · exact le_rfl
    · rw [blendAccRatioTangential]
      linarith [show share / (0.5 : ℝ) = 2 * share by norm_num; ring]
  have hget := le_pmCartAbsMax (findAccelScale diff cfg.accBound) i
  rw [findAccelScale_get _ _ hbound, hshare, div_le_iff₀ (hbound i)] at hget
  refine ⟨hnonneg.trans hle, ?_⟩
  rw [hturn]
  exact hget.trans (mul_le_mul_of_nonneg_right hle (hbound i).le)

/-! ### The junction -/

/-- No limit of the segment is negative, and the axes allow its own acceleration in the direction `u`. -/
structure Tc.Allowed (tc : Tc ℝ) (u bound : PmCartesian ℝ) : Prop where
  maxvel : 0 ≤ tc.maxvel
  reqvel : 0 ≤ tc.reqvel
  maxaccel : 0 ≤ tc.maxaccel
  axes : ∀ i, tc.maxaccel * |u.get i| ≤ bound.get i

/-- Up to the velocity of the kink, the turn takes a share of the limits that the segments leave. -/
structure Kinked (T : ℝ) (turn : Fin 3 → ℝ) (bound : PmCartesian ℝ) (p t : Tc ℝ) (share : ℝ) : Prop where
  nonneg : 0 ≤ share
  lt_one : share < 1
  vel : 0 ≤ p.kinkVel
  before : share ≤ p.kinkAccelReduce
  after : share ≤ t.kinkAccelReducePrev
  turn : ∀ w, 0 ≤ w → w ≤ p.kinkVel → ∀ i, |w / T * turn i| ≤ share * bound.get i

theorem tcGetMaxTargetVel_nonneg {scale : ℝ} (hmaxvel : 0 ≤ tc.maxvel) (hreqvel : 0 ≤ tc.reqvel) (hscale : 0 ≤ scale) :
    0 ≤ tcGetMaxTargetVel tc scale := by
  unfold tcGetMaxTargetVel
  dsimp only
  rw [fmin_real]
  refine le_min ?_ hmaxvel
  split
  · exact mul_nonneg hreqvel hscale
  · exact hmaxvel

theorem getMaxFeedScale_nonneg (hscale : 0 ≤ env.maxAxisScale) (tc : Tc ℝ) : 0 ≤ getMaxFeedScale env tc := by
  unfold getMaxFeedScale
  split
  · exact zero_le_one
  · exact hscale

/-- What is left of the acceleration of a segment with a kink. -/
theorem tcGetOverallMaxAccel_le {share : ℝ} (hacc : 0 ≤ tc.maxaccel) (hlt : share < 1)
    (hle : share ≤ fmax tc.kinkAccelReduce tc.kinkAccelReducePrev) :
    tcGetOverallMaxAccel tc ≤ tc.maxaccel * (1 - share) := by
  unfold tcGetOverallMaxAccel
  dsimp only
  generalize fmax tc.kinkAccelReduce tc.kinkAccelReducePrev = reduce at hle ⊢
  refine mul_le_mul_of_nonneg_left ?_ hacc
  split
  · norm_num
    linarith
  · linarith

theorem Kinked.set {T share vel : ℝ} {turn : Fin 3 → ℝ} {bound : PmCartesian ℝ} (hdt : 0 < T) (hnonneg : 0 ≤ share)
    (hlt : share < 1) (hvel : 0 ≤ vel) (hturn : ∀ i, vel / T * |turn i| ≤ share * bound.get i) :
    Kinked T turn bound (tcSetKinkProperties p t vel share).1 (tcSetKinkProperties p t vel share).2 share where
  nonneg := hnonneg
  lt_one := hlt
  vel := hvel
  before := by
    show share ≤ fmax share p.kinkAccelReduce
    rw [fmax_real]
    exact le_max_left _ _
  after := by
    show share ≤ fmax share t.kinkAccelReducePrev
    rw [fmax_real]
    exact le_max_left _ _
  turn w hw hle i := by
    have hslower : w / T * |turn i| ≤ vel / T * |turn i| :=
      mul_le_mul_of_nonneg_right (div_le_div_of_nonneg_right hle hdt.le) (abs_nonneg _)
    rw [abs_mul, abs_of_nonneg (div_nonneg hw hdt.le)]
    exact hslower.trans (hturn i)

section Setup

variable {u₁ u₂ : PmCartesian ℝ} {res : TpErr}

/-- The two outcomes that are not a failure. -/
theorem tpSetupTangent_cases (h : tpSetupTangent env cfg tp prevTc tc = (p, t, res)) (hres : res ≠ .fail) :
    (tangentAccScaleMax env cfg tp prevTc tc < tpGetTangentKinkRatio cfg ∧ res = .ok ∧
      (p, t) = tcSetKinkProperties { prevTc with termCond := .tangent } { tc with blendPrev := false }
        (tangentVMax env prevTc tc) (tangentAccScaleMax env cfg tp prevTc tc)) ∨
    (tpGetTangentKinkRatio cfg ≤ tangentAccScaleMax env cfg tp prevTc tc ∧ res = .noAction ∧
      (p, t) = tcSetKinkProperties prevTc tc
        (tangentVMax env prevTc tc * tpGetTangentKinkRatio cfg / tangentAccScaleMax env cfg tp prevTc tc)
        (tpGetTangentKinkRatio cfg)) := by
  have hfail {q r : Tc ℝ} : (q, r, TpErr.fail) ≠ (p, t, res) := fun heq => hres (congrArg (fun x => x.2.2) heq).symm
  unfold tpSetupTangent at h
  dsimp only at h
  split_ifs at h with hrotary hdepth hstop hsharp hless
  · exact absurd h hfail
  · exact absurd h hfail
  · exact absurd h hfail
  · exact absurd h hfail
  · obtain ⟨rfl, rfl, rfl⟩ := by simpa only [Prod.mk.injEq] using h
    exact .inl ⟨hless, rfl, rfl⟩
  · obtain ⟨rfl, rfl, rfl⟩ := by simpa only [Prod.mk.injEq] using h
    exact .inr ⟨not_lt.1 hless, rfl, rfl⟩

/-- The turn at `v_max` alone. -/
theorem tangentVMax_turn (hdt : 0 < tp.cycleTime) (hbound : ∀ i, 0 < cfg.accBound.get i)
    (hvel : 0 ≤ tangentVMax env prevTc tc) (hacc : 0 ≤ tc.maxaccel) (i : Fin 3) :
    tangentVMax env prevTc tc / tp.cycleTime * |turnAt prevTc tc i| ≤
      tangentAccScaleMax env cfg tp prevTc tc * cfg.accBound.get i := by
  have hle := (tangentAccScaleMax_spec env tp prevTc tc hbound i).2
  have hquot : 0 ≤ tangentVMax env prevTc tc / tp.cycleTime := div_nonneg hvel hdt.le
  rw [abs_mul, abs_of_nonneg (add_nonneg hquot hacc)] at hle
  exact (mul_le_mul_of_nonneg_right (le_add_of_nonneg_right hacc) (abs_nonneg _)).trans hle

theorem tpSetupTangent_kinked (hdt : 0 < tp.cycleTime) (hbound : ∀ i, 0 < cfg.accBound.get i)
    (hscale : 0 ≤ env.maxAxisScale) (hprev : prevTc.Allowed u₁ cfg.accBound) (htc : tc.Allowed u₂ cfg.accBound)
    (h : tpSetupTangent env cfg tp prevTc tc = (p, t, res)) (hres : res ≠ .fail) :
    ∃ share, Kinked tp.cycleTime (turnAt prevTc tc) cfg.accBound p t share := by
  obtain ⟨hratio, hratio'⟩ := tpGetTangentKinkRatio_bounds cfg
  have hvel : 0 ≤ tangentVMax env prevTc tc := by
    unfold tangentVMax
    rw [fmin_real]
    exact le_min (tcGetMaxTargetVel_nonneg hprev.maxvel hprev.reqvel (getMaxFeedScale_nonneg hscale _))
      (tcGetMaxTargetVel_nonneg htc.maxvel htc.reqvel (getMaxFeedScale_nonneg hscale _))
  have hshare := (tangentAccScaleMax_spec env tp prevTc tc hbound 0).1
  have hturn := tangentVMax_turn hdt hbound hvel htc.maxaccel
  rcases tpSetupTangent_cases h hres with ⟨hless, -, hset⟩ | ⟨hmore, -, hset⟩
  · -- as they are
    obtain ⟨rfl, rfl⟩ := Prod.mk.inj hset
    exact ⟨_, Kinked.set hdt hshare (hless.trans hratio') hvel hturn⟩
  · -- at a lower velocity
    obtain ⟨rfl, rfl⟩ := Prod.mk.inj hset
    refine ⟨_, Kinked.set hdt hratio.le hratio' (div_nonneg (mul_nonneg hvel hratio.le) hshare) fun i => ?_⟩
    generalize tangentAccScaleMax env cfg tp prevTc tc = share at hmore hshare hturn ⊢
    generalize tangentVMax env prevTc tc = vMax at hturn ⊢
    have hpos : 0 < share := hratio.trans_le hmore
    calc vMax * tpGetTangentKinkRatio cfg / share / tp.cycleTime * |turnAt prevTc tc i|
        = tpGetTangentKinkRatio cfg / share * (vMax / tp.cycleTime * |turnAt prevTc tc i|) := by ring
      _ ≤ tpGetTangentKinkRatio cfg / share * (share * cfg.accBound.get i) :=
          mul_le_mul_of_nonneg_left (hturn i) (div_nonneg hratio.le hshare)
      _ = tpGetTangentKinkRatio cfg * cfg.accBound.get i := by
          rw [← mul_assoc, div_mul_cancel₀ _ hpos.ne']

/-- The rest of the two segments. -/
theorem tpSetupTangent_kept (h : tpSetupTangent env cfg tp prevTc tc = (p, t, res)) (hres : res ≠ .fail) :
    p.maxaccel = prevTc.maxaccel ∧ t.maxaccel = tc.maxaccel ∧ (res = .ok → p.termCond = .tangent) := by
  rcases tpSetupTangent_cases h hres with ⟨-, -, hset⟩ | ⟨-, rfl, hset⟩
  · obtain ⟨rfl, rfl⟩ := Prod.mk.inj hset
    exact ⟨rfl, rfl, fun _ => rfl⟩
  · obtain ⟨rfl, rfl⟩ := Prod.mk.inj hset
    exact ⟨rfl, rfl, fun hok => nomatch hok⟩

end Setup

/-! ### The choice -/

theorem tpChooseBestBlend_tangent {blendTc : Option (BlendTc ℝ)} {p' t' : Tc ℝ}
    (h : tpChooseBestBlend env tp p t blendTc = (p', t', .tangentSegments)) :
    p' = { p with termCond := .tangent } ∧ t' = { t with blendPrev := false } := by
  unfold tpChooseBestBlend at h
  dsimp only [tcRemoveKinkProperties, tcSetTermCond] at h
  split at h
  · simp at h
  · split at h
    · simp at h
    · simp only [Prod.mk.injEq, and_true] at h
      exact ⟨h.1.symm, h.2.symm⟩
    · simp at h
    · simp at h

/-- The two segments are joined without a blend: as they are, or because this is faster than the blends. -/
inductive TangentJoin (env : TpEnv ℝ) (cfg : BlendConfig ℝ) (tp : Tp ℝ) (prevTc tc : Tc ℝ) : Tc ℝ → Tc ℝ → Prop
  | tangent {p t : Tc ℝ} : tpSetupTangent env cfg tp prevTc tc = (p, t, .ok) → TangentJoin env cfg tp prevTc tc p t
  | chosen {p₀ t₀ p t : Tc ℝ} {blendTc : Option (BlendTc ℝ)} :
    tpSetupTangent env cfg tp prevTc tc = (p₀, t₀, .noAction) →
      tpChooseBestBlend env tp p₀ t₀ blendTc = (p, t, .tangentSegments) → TangentJoin env cfg tp prevTc tc p t
  | again {p₀ t₀ p t : Tc ℝ} {blendTc : Option (BlendTc ℝ)} : TangentJoin env cfg tp prevTc tc p₀ t₀ →
      tpChooseBestBlend env tp p₀ t₀ blendTc = (p, t, .tangentSegments) → TangentJoin env cfg tp prevTc tc p t

theorem Kinked.chosen {T share : ℝ} {turn : Fin 3 → ℝ} {bound : PmCartesian ℝ} (h : Kinked T turn bound p t share) :
    Kinked T turn bound { p with termCond := .tangent } { t with blendPrev := false } share :=
  ⟨h.nonneg, h.lt_one, h.vel, h.before, h.after, h.turn⟩

section Join

variable {u₁ u₂ : PmCartesian ℝ}

theorem TangentJoin.spec (hdt : 0 < tp.cycleTime) (hbound : ∀ i, 0 < cfg.accBound.get i)
    (hscale : 0 ≤ env.maxAxisScale) (hprev : prevTc.Allowed u₁ cfg.accBound) (htc : tc.Allowed u₂ cfg.accBound)
    (h : TangentJoin env cfg tp prevTc tc p t) :
    p.maxaccel = prevTc.maxaccel ∧ t.maxaccel = tc.maxaccel ∧ p.termCond = .tangent ∧
      ∃ share, Kinked tp.cycleTime (turnAt prevTc tc) cfg.accBound p t share := by
  induction h with
  | tangent hsetup =>
    obtain ⟨hp, ht, htangent⟩ := tpSetupTangent_kept hsetup (by decide)
    exact ⟨hp, ht, htangent rfl, tpSetupTangent_kinked hdt hbound hscale hprev htc hsetup (by decide)⟩
  | chosen hsetup hbest =>
    obtain ⟨hp, ht, -⟩ := tpSetupTangent_kept hsetup (by decide)
    obtain ⟨share, hkinked⟩ := tpSetupTangent_kinked hdt hbound hscale hprev htc hsetup (by decide)
    obtain ⟨rfl, rfl⟩ := tpChooseBestBlend_tangent hbest
    exact ⟨hp, ht, rfl, share, hkinked.chosen⟩
  | again _ hbest ih =>
    obtain ⟨hp, ht, -, share, hkinked⟩ := ih
    obtain ⟨rfl, rfl⟩ := tpChooseBestBlend_tangent hbest
    exact ⟨hp, ht, rfl, share, hkinked.chosen⟩

/-- The pass over the queue plans no more than the velocity of the kink. -/
theorem tpOptimizePair_kink (hkink : 0 ≤ p.kinkVel) (htangent : p.termCond = .tangent) :
    (tpOptimizePair env tp t p).2.finalvel ≤ p.kinkVel := by
  have hjoin : 0 ≤ p.kinkVel ∧ p.termCond = .tangent := ⟨hkink, htangent⟩
  have hlimit (v : ℝ) : fmin v p.kinkVel ≤ p.kinkVel := by
    rw [fmin_real]
    exact min_le_right _ _
  have hoptimal (t : Tc ℝ) : (tpComputeOptimalVelocity tp t p).2.finalvel ≤ p.kinkVel := by
    obtain ⟨limit, heq⟩ : ∃ limit, fmin t.maxvel (if 0 ≤ p.kinkVel ∧ p.termCond = .tangent then
        fmin p.maxvel p.kinkVel else p.maxvel) = limit := ⟨_, rfl⟩
    have hle : limit ≤ p.kinkVel := by
      rw [← heq, if_pos hjoin, fmin_real]
      exact (min_le_right _ _).trans (hlimit _)
    unfold tpComputeOptimalVelocity
    dsimp only
    rw [heq]
    split
    · exact hle
    · rename_i hlt
      exact (not_le.1 hlt).le.trans hle
  unfold tpOptimizePair
  dsimp only
  generalize (if t.atspeed = true then { t with finalvel := 0 } else t) = next
  split
  · exact hoptimal next
  · exact hlimit _

/-- A part of the turn and a part of the segment's own acceleration together. -/
theorem turn_add_le {T share w a turn bound u m : ℝ} (hu : m * |u| ≤ bound) (hlt : share < 1)
    (hturn : |w / T * turn| ≤ share * bound) (ha : |a| ≤ m * (1 - share)) :
    |w / T * turn + a * u| ≤ bound := by
  have hown : |a * u| ≤ (1 - share) * bound := by
    rw [abs_mul]
    calc |a| * |u| ≤ m * (1 - share) * |u| := mul_le_mul_of_nonneg_right ha (abs_nonneg _)
      _ = (1 - share) * (m * |u|) := by ring
      _ ≤ (1 - share) * bound := mul_le_mul_of_nonneg_left hu (sub_pos.2 hlt).le
  calc |w / T * turn + a * u| ≤ |w / T * turn| + |a * u| := abs_add_le _ _
    _ ≤ share * bound + (1 - share) * bound := add_le_add hturn hown
    _ = bound := by ring

/-- Segments that are joined without a blend are taken around their corner within a cycle, at any velocity up to the
planned one and while either of them accelerates, without an axis beyond its limit. -/
theorem tangent_kink (hdt : 0 < tp.cycleTime) (hbound : ∀ i, 0 < cfg.accBound.get i) (hscale : 0 ≤ env.maxAxisScale)
    (hprev : prevTc.Allowed (tcGetEndTangentUnitVector prevTc) cfg.accBound)
    (htc : tc.Allowed (tcGetStartTangentUnitVector tc) cfg.accBound) (h : TangentJoin env cfg tp prevTc tc p t)
    (env' : TpEnv ℝ) (tp' : Tp ℝ) {w a : ℝ} (hw : 0 ≤ w) (hplan : w ≤ (tpOptimizePair env' tp' t p).2.finalvel)
    (i : Fin 3) :
    (|a| ≤ tcGetOverallMaxAccel p →
        |w / tp.cycleTime * turnAt prevTc tc i + a * (tcGetEndTangentUnitVector prevTc).get i| ≤ cfg.accBound.get i) ∧
      (|a| ≤ tcGetOverallMaxAccel t →
        |w / tp.cycleTime * turnAt prevTc tc i + a * (tcGetStartTangentUnitVector tc).get i| ≤
          cfg.accBound.get i) := by
  obtain ⟨hp, ht, htangent, share, hkinked⟩ := h.spec hdt hbound hscale hprev htc
  have hturn := hkinked.turn w hw (hplan.trans (tpOptimizePair_kink hkinked.vel htangent)) i
  constructor
  · intro ha
    refine turn_add_le (hprev.axes i) hkinked.lt_one hturn ?_
    rw [← hp]
    refine ha.trans (tcGetOverallMaxAccel_le (hp ▸ hprev.maxaccel) hkinked.lt_one ?_)
    rw [fmax_real]
    exact hkinked.before.trans (le_max_left _ _)
  · intro ha
    refine turn_add_le (htc.axes i) hkinked.lt_one hturn ?_
    rw [← ht]
    refine ha.trans (tcGetOverallMaxAccel_le (ht ▸ htc.maxaccel) hkinked.lt_one ?_)
    rw [fmax_real]
    exact hkinked.after.trans (le_max_right _ _)

end Join

/-! ### At a right angle -/

/-- A slow line from `a` to `b`. -/
noncomputable def slowLine (a b : PmCartesian ℝ) : Tc ℝ :=
  { blendLine a b with reqvel := 1, maxvel := 1, maxaccel := 1 }

/-- A planner with long cycles. -/
noncomputable def slowTp : Tp ℝ := { squareTp with cycleTime := 1 }

/-- Limits that leave much to a kink. -/
noncomputable def kinkConfig : BlendConfig ℝ := { squareConfig with arcBlendTangentKinkRatio := 1 }

theorem slowLine_directions : tcGetEndTangentUnitVector (slowLine rightFrom rightAt) = ⟨1, 0, 0⟩ ∧
    tcGetStartTangentUnitVector (slowLine rightAt rightTo) = ⟨0, 1, 0⟩ := by
  have hu₁ := congrArg BlendGeom3.u1 square_directions
  have hu₂ := congrArg BlendGeom3.u2 square_directions
  exact ⟨(pmCartLineInit_uVec (blendLine_blendable lineLength_square.1).long).trans hu₁,
    (pmCartLineInit_uVec (blendLine_blendable lineLength_square.2).long).trans hu₂⟩

theorem slowLine_xyz (a b : PmCartesian ℝ) : tcRotaryMotionCheck (slowLine a b) = false := by
  have hzero : (pmCartLineInit (⟨0, 0, 0⟩ : PmCartesian ℝ) ⟨0, 0, 0⟩).tmagZero = true := by
    norm_num [pmCartLineInit, pmCartCartSub, pmCartInfNorm, cartFuzz, fabs_real, fmax_real]
  show (!((pmCartLineInit (⟨0, 0, 0⟩ : PmCartesian ℝ) ⟨0, 0, 0⟩).tmagZero &&
    (pmCartLineInit (⟨0, 0, 0⟩ : PmCartesian ℝ) ⟨0, 0, 0⟩).tmagZero)) = false
  rw [hzero]
  rfl

/-- The turn takes a fifth of the limits. -/
theorem slowLine_share : tangentVMax plainEnv (slowLine rightFrom rightAt) (slowLine rightAt rightTo) = 1 ∧
    tangentAccScaleMax plainEnv kinkConfig slowTp (slowLine rightFrom rightAt) (slowLine rightAt rightTo) =
      2 / 10 := by
  obtain ⟨hu₁, hu₂⟩ := slowLine_directions
  have hvel : tangentVMax plainEnv (slowLine rightFrom rightAt) (slowLine rightAt rightTo) = 1 := by
    norm_num [tangentVMax, tcGetMaxTargetVel, getMaxFeedScale, slowLine, blendLine, tcSetupMotion, tcInit, plainEnv,
      fmin_real]
  refine ⟨hvel, ?_⟩
  unfold tangentAccScaleMax
  rw [hvel, hu₁, hu₂]
  norm_num [slowTp, slowLine, kinkConfig, squareConfig, blendLine, tcSetupMotion, tcInit, pmCartScalMult,
    pmCartCartSub, findAccelScale, pmCartAbsMax, fmax_real, fabs_real]

theorem slowLine_tangent : ∃ p t, tpSetupTangent plainEnv kinkConfig slowTp (slowLine rightFrom rightAt)
    (slowLine rightAt rightTo) = (p, t, .ok) ∧ p.kinkVel = 1 ∧ 0 ≤ tcGetOverallMaxAccel p := by
  obtain ⟨hu₁, hu₂⟩ := slowLine_directions
  obtain ⟨hvel, hshare⟩ := slowLine_share
  have hratio : tpGetTangentKinkRatio kinkConfig = 0.7071 := by
    norm_num [tpGetTangentKinkRatio, kinkConfig, fmax_real, fmin_real]
  have hsharp : ¬ pmCartCartAntiParallel (⟨1, 0, 0⟩ : PmCartesian ℝ) ⟨0, 1, 0⟩ sharpCornerEpsilon = true := by
    have hpi : Real.pi * (2 / 180) < 1 := by linarith [Real.pi_le_four]
    have hpos : 0 < Real.pi * (2 / 180) := by positivity
    have hsum : pmCartMagSq (pmCartCartAdd (⟨1, 0, 0⟩ : PmCartesian ℝ) ⟨0, 1, 0⟩) = 2 := by
      norm_num [pmCartMagSq, pmCartCartAdd, pmSq]
    simp only [pmCartCartAntiParallel, hsum, sharpCornerEpsilon, pmSq, pi_real, decide_eq_true_eq, not_lt]
    nlinarith
  unfold tpSetupTangent
  rw [slowLine_xyz, slowLine_xyz, hu₁, hu₂, hvel, hshare, hratio, if_neg (by decide), if_neg (by decide),
    if_neg (by rintro ⟨⟩), if_neg hsharp, if_pos (by norm_num)]
  refine ⟨_, _, rfl, rfl, ?_⟩
  norm_num [tcGetOverallMaxAccel, tcSetTermCond, tcSetKinkProperties, slowLine, blendLine, tcSetupMotion, tcInit,
    fmax_real]
  split <;> norm_num

theorem slowLine_allowed (a b u : PmCartesian ℝ) (hu : ∀ i, |u.get i| ≤ 1) :
    (slowLine a b).Allowed u kinkConfig.accBound where
  maxvel := zero_le_one
  reqvel := zero_le_one
  maxaccel := zero_le_one
  axes i := by
    have hten : kinkConfig.accBound.get i = 10 := by fin_cases i <;> rfl
    have hone : (slowLine a b).maxaccel = 1 := rfl
    rw [hten, hone]
    linarith [hu i]

/-- The corner of the right angle, with all the acceleration that the kink leaves. -/
theorem tangent_kink_square : ∃ p t, TangentJoin plainEnv kinkConfig slowTp (slowLine rightFrom rightAt)
    (slowLine rightAt rightTo) p t ∧ p.kinkVel = 1 ∧ ∀ w, 0 ≤ w → w ≤ (tpOptimizePair plainEnv slowTp t p).2.finalvel →
      ∀ i, |w / slowTp.cycleTime * turnAt (slowLine rightFrom rightAt) (slowLine rightAt rightTo) i +
        tcGetOverallMaxAccel p * (⟨1, 0, 0⟩ : PmCartesian ℝ).get i| ≤ kinkConfig.accBound.get i := by
  obtain ⟨hu₁, hu₂⟩ := slowLine_directions
  obtain ⟨p, t, hsetup, hkink, hacc⟩ := slowLine_tangent
  refine ⟨p, t, .tangent hsetup, hkink, fun w hw hplan i => ?_⟩
  have hprev : (slowLine rightFrom rightAt).Allowed (tcGetEndTangentUnitVector (slowLine rightFrom rightAt))
      kinkConfig.accBound := by
    refine slowLine_allowed _ _ _ fun i => ?_
    rw [hu₁]
    fin_cases i <;> simp [PmCartesian.get]
  have htc : (slowLine rightAt rightTo).Allowed (tcGetStartTangentUnitVector (slowLine rightAt rightTo))
      kinkConfig.accBound := by
    refine slowLine_allowed _ _ _ fun i => ?_
    rw [hu₂]
    fin_cases i <;> simp [PmCartesian.get]
  have hjoin : TangentJoin plainEnv kinkConfig slowTp (slowLine rightFrom rightAt) (slowLine rightAt rightTo) p t :=
    .tangent hsetup
  have hbound : ∀ i, 0 < kinkConfig.accBound.get i := squareConfig_pos
  have hwithin := (tangent_kink one_pos hbound zero_le_one hprev htc hjoin plainEnv slowTp hw hplan i).1
    (abs_of_nonneg hacc).le
  rwa [hu₁] at hwithin

end SoemMotion
