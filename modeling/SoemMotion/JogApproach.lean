import SoemMotion.FreePlanner

/-!
# A single jog

A jog from rest in exact arithmetic and with a period of one second.  On the way up the planner keeps `v² ≤ 2 a e` of
its velocity `v` and the way `e` to its target (`SimpleTp.Climbs`), in the dead band as well, where it brakes to rest
in one period.  The way down is the mirror image.
-/

namespace SoemMotion

open Lib

/-- The planner after `n` updates. -/
noncomputable def simpleTpRun (tp : SimpleTp) (n : ℕ) : SimpleTp := (fun tp => simpleTpUpdate ℝ tp 1)^[n] tp

theorem simpleTpRun_succ (tp : SimpleTp) (n : ℕ) :
    simpleTpRun tp (n + 1) = simpleTpUpdate ℝ (simpleTpRun tp n) 1 :=
  Function.iterate_succ_apply' _ n tp

/-- `q` lies on the way from `p` to the goal. -/
def Toward (goal p q : Int) : Prop := p ≤ q ∧ q ≤ goal ∨ goal ≤ q ∧ q ≤ p

/-! ### The way up -/

/-- A velocity that is not negative is ramped to one that is not, by at most `a`; it is at most the request unless it
brakes fully. -/
theorem rampVel_nonneg {v a : Int} {q : ℝ} (hv : 0 ≤ v) (ha : 0 ≤ a) (hq : 0 ≤ q) :
    0 ≤ rampVel v q (a : ℝ) ∧ |rampVel v q (a : ℝ) - v| ≤ a ∧
      (rampVel v q (a : ℝ) = v - a ∨ ((rampVel v q (a : ℝ) : Int) : ℝ) ≤ q) := by
  have hsum : (v : ℝ) + (a : ℝ) = ((v + a : Int) : ℝ) := by push_cast; ring
  have hdiff : (v : ℝ) - (a : ℝ) = ((v - a : Int) : ℝ) := by push_cast; ring
  unfold rampVel
  rw [hsum, hdiff]
  by_cases hup : ((v + a : Int) : ℝ) < q
  · rw [if_pos hup, trunc_real, truncReal_intCast]
    refine ⟨by omega, ?_, .inr hup.le⟩
    rw [abs_le]
    omega
  · rw [if_neg hup]
    by_cases hdown : q < ((v - a : Int) : ℝ)
    · rw [if_pos hdown, trunc_real, truncReal_intCast]
      have hpos : 0 < v - a := by exact_mod_cast lt_of_le_of_lt hq hdown
      refine ⟨hpos.le, ?_, .inl rfl⟩
      rw [abs_le]
      omega
    · rw [if_neg hdown, trunc_real]
      have htrunc : truncReal q = ⌊q⌋ := if_pos hq
      have hlow : v - a ≤ ⌊q⌋ := Int.le_floor.2 (not_lt.1 hdown)
      have hhigh : ⌊q⌋ ≤ v + a := by exact_mod_cast (Int.floor_le q).trans (not_lt.1 hup)
      rw [htrunc]
      refine ⟨Int.floor_nonneg.2 hq, ?_, .inr (Int.floor_le q)⟩
      rw [abs_le]
      omega

/-- The limit keeps a request that is not negative between zero and itself. -/
theorem limitVel_nonneg {r : ℝ} {vel : Int} (hr : 0 ≤ r) (hv : 0 ≤ vel) :
    0 ≤ limitVel r vel ∧ limitVel r vel ≤ r ∧ limitVel r vel ≤ (vel : ℝ) := by
  have hv' : (0 : ℝ) ≤ (vel : ℝ) := by exact_mod_cast hv
  unfold limitVel
  by_cases h : (vel : ℝ) < r
  · rw [if_pos h]
    exact ⟨hv', h.le, le_rfl⟩
  · have hneg : ¬ r < ((Arith.i32 ℝ (-vel) : Int) : ℝ) := by
      rw [i32_real]
      push_cast
      linarith
    rw [if_neg h, if_neg hneg]
    exact ⟨hr, le_rfl, not_lt.1 h⟩

/-- The planner moves up to the goal, and can stop before it. -/
structure SimpleTp.Climbs (goal a vmax : Int) (tp : SimpleTp) : Prop where
  acc : tp.acc = a
  vel : tp.vel = vmax
  nonneg : 0 ≤ tp.currVel
  le_vel : tp.currVel ≤ vmax
  stop : tp.currVel * tp.currVel ≤ 2 * a * (goal - tp.currPos)
  target : tp.enable = true → tp.posCmd = goal
  rest : tp.enable = false → tp.currVel = 0

theorem SimpleTp.Climbs.le_goal {goal acc vel : Int} {tp : SimpleTp} (h : tp.Climbs goal acc vel) (ha : 1 ≤ acc) :
    tp.currPos ≤ goal := by
  have hsq : 0 ≤ 2 * acc * (goal - tp.currPos) := (mul_self_nonneg tp.currVel).trans h.stop
  have hway : 0 ≤ goal - tp.currPos := nonneg_of_mul_nonneg_right hsq (by omega)
  omega

/-- The request of a planner on its way up is not negative, is zero once the planner is disabled, and can else be
stopped at the goal. -/
theorem SimpleTp.Climbs.request {goal acc vel : Int} {tp : SimpleTp} (h : tp.Climbs goal acc vel) (ha : 1 ≤ acc) :
    0 ≤ (tp.request ℝ 1).2 ∧
      ((tp.request ℝ 1).1.enable = false → (tp.request ℝ 1).2 = 0 ∧ tp.currVel ≤ acc) ∧
      ((tp.request ℝ 1).1.enable = true → ((tp.request ℝ 1).2 + acc) * ((tp.request ℝ 1).2 + acc) =
        2 * acc * ((goal - tp.currPos : Int) : ℝ) + acc * acc) := by
  have ha' : (0 : ℝ) < (acc : ℝ) := by exact_mod_cast (by omega : 0 < acc)
  have hway : (0 : ℝ) ≤ ((goal - tp.currPos : Int) : ℝ) := by
    have := h.le_goal ha
    exact_mod_cast (by omega : 0 ≤ goal - tp.currPos)
  rw [request_one, h.acc]
  cases hen : tp.enable with
  | false =>
    have hrest := h.rest hen
    exact ⟨le_rfl, fun _ => ⟨rfl, by omega⟩, (fun he => by cases he)⟩
  | true =>
    rw [h.target hen, if_pos rfl]
    by_cases hfar : (acc : ℝ) * 0.001 < ((goal - tp.currPos : Int) : ℝ)
    · rw [if_pos hfar]
      have hrad : 0 ≤ 2 * (acc : ℝ) * ((goal - tp.currPos : Int) : ℝ) + (acc : ℝ) * (acc : ℝ) := by positivity
      have hroot : (acc : ℝ) ≤ √(2 * (acc : ℝ) * ((goal - tp.currPos : Int) : ℝ) + (acc : ℝ) * (acc : ℝ)) := by
        apply Real.le_sqrt_of_sq_le
        nlinarith
      have hsq := Real.mul_self_sqrt hrad
      refine ⟨by dsimp only; linarith, (fun he => by cases he), fun _ => ?_⟩
      dsimp only
      rw [neg_add_cancel_comm]
      exact hsq
    · have hnot : ¬ ((goal - tp.currPos : Int) : ℝ) < -((acc : ℝ) * 0.001) := by
        have : (0 : ℝ) < (acc : ℝ) * 0.001 := by positivity
        linarith
      rw [if_neg hfar, if_neg hnot]
      refine ⟨le_rfl, fun _ => ⟨rfl, ?_⟩, (fun he => by cases he)⟩
      -- in the dead band `v² ≤ 0.002 a²`
      by_contra hlt
      have hv : (acc : ℝ) < (tp.currVel : ℝ) := by exact_mod_cast not_le.1 hlt
      have hstop : (tp.currVel : ℝ) * (tp.currVel : ℝ) ≤ 2 * (acc : ℝ) * ((goal - tp.currPos : Int) : ℝ) := by
        exact_mod_cast h.stop
      nlinarith

/-- One update on the way up. -/
theorem SimpleTp.Climbs.update {goal acc vel : Int} {tp : SimpleTp} (h : tp.Climbs goal acc vel) (ha : 1 ≤ acc)
    (hv : 0 ≤ vel) : (simpleTpUpdate ℝ tp 1).Climbs goal acc vel ∧
      tp.currPos ≤ (simpleTpUpdate ℝ tp 1).currPos ∧ |(simpleTpUpdate ℝ tp 1).currVel - tp.currVel| ≤ acc := by
  obtain ⟨active, heq⟩ := simpleTpUpdate_one tp
  obtain ⟨hacc, hvel, htarget⟩ := request_fst tp
  obtain ⟨hr, hoff, hon⟩ := h.request ha
  have hv' : 0 ≤ tp.vel := by
    rw [h.vel]
    exact hv
  obtain ⟨hq, hqr, hqv⟩ := limitVel_nonneg hr hv'
  obtain ⟨hw, hramp, hle⟩ := rampVel_nonneg (a := tp.acc) h.nonneg (by rw [h.acc]; omega) hq
  change 0 ≤ tp.nextVel at hw
  change |tp.nextVel - tp.currVel| ≤ tp.acc at hramp
  change tp.nextVel = tp.currVel - tp.acc ∨ ((tp.nextVel : Int) : ℝ) ≤ limitVel (tp.request ℝ 1).2 tp.vel at hle
  rw [h.acc] at hramp hle
  rw [h.vel] at hqv hqr
  have hrest : (tp.request ℝ 1).1.enable = false → tp.nextVel = 0 := by
    intro hen
    obtain ⟨hzero, hslow⟩ := hoff hen
    have hlim : limitVel (tp.request ℝ 1).2 tp.vel ≤ 0 := by
      rw [h.vel]
      linarith
    rcases hle with hle | hle
    · omega
    · have : tp.nextVel ≤ 0 := by exact_mod_cast hle.trans hlim
      omega
  -- the planner slows by all it can, or takes no more than the way to the goal allows
  have hstop : tp.nextVel * tp.nextVel + 2 * acc * tp.nextVel ≤ 2 * acc * (goal - tp.currPos) := by
    rcases hle with hle | hle
    · rw [hle]
      have := h.stop
      nlinarith
    · by_cases hzero : tp.nextVel = 0
      · rw [hzero]
        have := (mul_self_nonneg tp.currVel).trans h.stop
        linarith
      · have hen : (tp.request ℝ 1).1.enable = true := Bool.eq_true_of_not_eq_false fun hen => hzero (hrest hen)
        refine stop_of_le_request (by omega) (by omega) ?_ hqr (hon hen)
        rw [h.vel] at hle
        exact hle
  rw [heq]
  refine ⟨⟨hacc.trans h.acc, hvel.trans h.vel, hw, ?_, ?_, ?_, hrest⟩, ?_, hramp⟩
  · show tp.nextVel ≤ vel
    rcases hle with hle | hle
    · have := h.le_vel
      omega
    · rw [h.vel] at hle
      exact_mod_cast hle.trans hqv
  · show tp.nextVel * tp.nextVel ≤ 2 * acc * (goal - (tp.currPos + tp.nextVel))
    linarith
  · intro hen
    obtain ⟨hen', hcmd⟩ := htarget hen
    exact hcmd.trans (h.target hen')
  · show tp.currPos ≤ tp.currPos + tp.nextVel
    omega

theorem SimpleTp.Climbs.run {goal acc vel : Int} {tp : SimpleTp} (h : tp.Climbs goal acc vel) (ha : 1 ≤ acc)
    (hv : 0 ≤ vel) (n : ℕ) : (simpleTpRun tp n).Climbs goal acc vel ∧ tp.currPos ≤ (simpleTpRun tp n).currPos := by
  induction n with
  | zero => exact ⟨h, le_rfl⟩
  | succ n ih =>
    rw [simpleTpRun_succ]
    obtain ⟨hclimbs, hpos, -⟩ := ih.1.update ha hv
    exact ⟨hclimbs, ih.2.trans hpos⟩

/-- A planner at rest below its target. -/
theorem climbs_of_rest {tp : SimpleTp} (ha : 1 ≤ tp.acc) (hv : 0 ≤ tp.vel) (hrest : tp.currVel = 0)
    (hup : tp.currPos ≤ tp.posCmd) : tp.Climbs tp.posCmd tp.acc tp.vel := by
  refine ⟨rfl, rfl, hrest.ge, hrest.le.trans hv, ?_, fun _ => rfl, fun _ => hrest⟩
  rw [hrest, mul_zero]
  exact mul_nonneg (by omega) (by omega)

/-! ### The way down -/

/-- The planner moves down as it moves up. -/
theorem simpleTpUpdate_mirror {tp : SimpleTp} (ha : 0 ≤ tp.acc) (hv : 0 ≤ tp.vel) :
    simpleTpUpdate ℝ tp.mirror 1 = (simpleTpUpdate ℝ tp 1).mirror := by
  have ha' : (0 : ℝ) ≤ (tp.acc : ℝ) := by exact_mod_cast ha
  have hdv : tp.maxDv ℝ 1 = (tp.acc : ℝ) := by
    unfold SimpleTp.maxDv
    rw [i32_real, mul_one]
  have hnext : rampVel tp.mirror.currVel (limitVel (-(tp.request ℝ 1).2) tp.mirror.vel) (tp.mirror.maxDv ℝ 1) =
      -rampVel tp.currVel (limitVel (tp.request ℝ 1).2 tp.vel) (tp.maxDv ℝ 1) := by
    show rampVel (-tp.currVel) (limitVel (-(tp.request ℝ 1).2) tp.vel) (tp.maxDv ℝ 1) = _
    rw [limitVel_mirror hv, hdv, rampVel_mirror ha']
  have hmoves : ∀ w : Int, (-w != 0) = (w != 0) := by
    intro w
    by_cases h : w = 0
    · rw [h]
      rfl
    · rw [bne_iff_ne.2 h, bne_iff_ne.2 (neg_ne_zero.2 h)]
  unfold simpleTpUpdate
  rw [request_mirror ha]
  dsimp only
  rw [hnext, hmoves]
  simp only [i32_real, mul_one]
  dsimp only [SimpleTp.mirror]
  rw [neg_add]

theorem simpleTpUpdate_settings (tp : SimpleTp) :
    (simpleTpUpdate ℝ tp 1).acc = tp.acc ∧ (simpleTpUpdate ℝ tp 1).vel = tp.vel := by
  obtain ⟨active, heq⟩ := simpleTpUpdate_one tp
  obtain ⟨hacc, hvel, -⟩ := request_fst tp
  rw [heq]
  exact ⟨hacc, hvel⟩

theorem simpleTpRun_mirror {tp : SimpleTp} (ha : 0 ≤ tp.acc) (hv : 0 ≤ tp.vel) (n : ℕ) :
    simpleTpRun tp.mirror n = (simpleTpRun tp n).mirror ∧ (simpleTpRun tp n).acc = tp.acc ∧
      (simpleTpRun tp n).vel = tp.vel := by
  induction n with
  | zero => exact ⟨rfl, rfl, rfl⟩
  | succ n ih =>
    obtain ⟨hrun, hacc, hvel⟩ := ih
    obtain ⟨hacc', hvel'⟩ := simpleTpUpdate_settings (simpleTpRun tp n)
    rw [simpleTpRun_succ, simpleTpRun_succ, hrun]
    exact ⟨simpleTpUpdate_mirror (by omega) (by omega), hacc'.trans hacc, hvel'.trans hvel⟩

/-! ### Main result -/

/-- A jog moves toward its target in every update and never past it, within its velocity and its acceleration. -/
theorem jog_approaches {tp : SimpleTp} (ha : 1 ≤ tp.acc) (hv : 0 ≤ tp.vel) (hrest : tp.currVel = 0) (n : ℕ) :
    Toward tp.posCmd tp.currPos (simpleTpRun tp n).currPos ∧
      Toward tp.posCmd (simpleTpRun tp n).currPos (simpleTpRun tp (n + 1)).currPos ∧
      |(simpleTpRun tp n).currVel| ≤ tp.vel ∧
      |(simpleTpRun tp (n + 1)).currVel - (simpleTpRun tp n).currVel| ≤ tp.acc := by
  by_cases hup : tp.currPos ≤ tp.posCmd
  · obtain ⟨hclimbs, hpos⟩ := (climbs_of_rest ha hv hrest hup).run ha hv n
    obtain ⟨hnext, hstep, hchange⟩ := hclimbs.update ha hv
    rw [simpleTpRun_succ, abs_of_nonneg hclimbs.nonneg]
    exact ⟨.inl ⟨hpos, hclimbs.le_goal ha⟩, .inl ⟨hstep, hnext.le_goal ha⟩, hclimbs.le_vel, hchange⟩
  · have hdown : tp.mirror.currPos ≤ tp.mirror.posCmd := by
      show -tp.currPos ≤ -tp.posCmd
      omega
    have hrest' : tp.mirror.currVel = 0 := by
      show -tp.currVel = 0
      omega
    have hstart : tp.mirror.Climbs tp.mirror.posCmd tp.acc tp.vel := climbs_of_rest ha hv hrest' hdown
    obtain ⟨hclimbs, hpos⟩ := hstart.run ha hv n
    obtain ⟨hnext, hstep, hchange⟩ := hclimbs.update ha hv
    have hgoal := hclimbs.le_goal ha
    have hgoal' := hnext.le_goal ha
    have hnonneg := hclimbs.nonneg
    have hle := hclimbs.le_vel
    rw [← simpleTpRun_succ] at hstep hchange hgoal'
    rw [(simpleTpRun_mirror (by omega) hv n).1] at hpos hgoal hnonneg hle hstep hchange
    rw [(simpleTpRun_mirror (by omega) hv (n + 1)).1] at hstep hchange hgoal'
    dsimp only [SimpleTp.mirror] at hpos hgoal hnonneg hle hstep hchange hgoal'
    refine ⟨.inr (by omega), .inr (by omega), ?_, ?_⟩
    · rw [abs_of_nonpos (by omega)]
      exact hle
    · rw [← abs_neg]
      convert hchange using 2
      ring

/-- A jog from 10 down to -4. -/
def downJog : SimpleTp where
  posCmd := -4
  maxVel := 5
  maxAcc := 3
  vel := 5
  acc := 3
  enable := true
  currPos := 10
  currVel := 0
  active := false
  dir := 0

theorem jog_approaches_down : 1 ≤ downJog.acc ∧ 0 ≤ downJog.vel ∧ downJog.currVel = 0 ∧
    Toward (-4) 10 (simpleTpRun downJog 4).currPos :=
  have ha : 1 ≤ downJog.acc := by decide
  have hv : 0 ≤ downJog.vel := by decide
  ⟨ha, hv, rfl, (jog_approaches ha hv rfl 4).1⟩

end SoemMotion
