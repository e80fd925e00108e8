import SoemMotion.Control
import SoemMotion.JogApproach

/-!
# The end of a jog

The velocity of a jog is an integer, and the request is truncated: one count before its target the planner requests
less than one count a second, which is none.  So a jog that is not over when it starts ends only in a dead band that
holds the last count, which takes an acceleration of 1000 or more; otherwise it stays active for ever.
-/

namespace SoemMotion

/-! ### One update -/

/-- The jog to `goal` is over. -/
structure SimpleTp.Arrived (goal : Int) (tp : SimpleTp) : Prop where
  active : tp.active = false
  enable : tp.enable = false
  currVel : tp.currVel = 0
  near : |((goal - tp.currPos : Int) : ℝ)| ≤ 0.001 * tp.acc

theorem simpleTpUpdate_active (tp : SimpleTp) :
    (simpleTpUpdate ℝ tp 1).active = ((tp.request ℝ 1).1.active || tp.nextVel != 0) := by
  unfold simpleTpUpdate SimpleTp.nextVel SimpleTp.maxDv
  simp only [i32_real, mul_one]

/-- The velocity comes up to a request of one count or more. -/
theorem one_le_rampVel {v a : Int} {q : ℝ} (hv : 0 ≤ v) (ha : 1 ≤ a) (hq : 1 ≤ q) : 1 ≤ rampVel v q (a : ℝ) := by
  have hsum : (v : ℝ) + (a : ℝ) = ((v + a : Int) : ℝ) := by push_cast; ring
  have hdiff : (v : ℝ) - (a : ℝ) = ((v - a : Int) : ℝ) := by push_cast; ring
  unfold rampVel
  rw [hsum, hdiff]
  by_cases hup : ((v + a : Int) : ℝ) < q
  · rw [if_pos hup, trunc_real, truncReal_intCast]
    omega
  · rw [if_neg hup]
    by_cases hdown : q < ((v - a : Int) : ℝ)
    · rw [if_pos hdown, trunc_real, truncReal_intCast]
      have : (1 : ℝ) < ((v - a : Int) : ℝ) := hq.trans_lt hdown
      have : 1 < v - a := by exact_mod_cast this
      omega
    · rw [if_neg hdown, trunc_real]
      have htrunc : truncReal q = ⌊q⌋ := if_pos (by linarith)
      rw [htrunc]
      exact Int.le_floor.2 (by exact_mod_cast hq)

theorem one_le_limitVel {r : ℝ} {vel : Int} (hr : 1 ≤ r) (hv : 1 ≤ vel) : 1 ≤ limitVel r vel := by
  have hv' : (1 : ℝ) ≤ (vel : ℝ) := by exact_mod_cast hv
  unfold limitVel
  by_cases h : (vel : ℝ) < r
  · rw [if_pos h]
    exact hv'
  · have hneg : ¬ r < ((Arith.i32 ℝ (-vel) : Int) : ℝ) := by
      rw [i32_real]
      push_cast
      linarith
    rw [if_neg h, if_neg hneg]
    exact hr

/-- Outside the dead band the planner stays enabled and active. -/
theorem request_outside {tp : SimpleTp} (hen : tp.enable = true)
    (hfar : (tp.acc : ℝ) * 0.001 < ((tp.posCmd - tp.currPos : Int) : ℝ)) :
    (tp.request ℝ 1).1 = { tp with active := true } := by
  rw [request_enabled hen, if_pos hfar]

/-- Inside it the planner is switched off. -/
theorem request_inside {tp : SimpleTp} (hen : tp.enable = true)
    (hup : ((tp.posCmd - tp.currPos : Int) : ℝ) ≤ (tp.acc : ℝ) * 0.001)
    (hdown : -((tp.acc : ℝ) * 0.001) ≤ ((tp.posCmd - tp.currPos : Int) : ℝ)) :
    (tp.request ℝ 1).1 = { tp with active := false, enable := false } := by
  rw [request_enabled hen, if_neg (not_lt.2 hup), if_neg (not_lt.2 hdown)]

/-! ### The way up -/

/-- A jog on its way up that is not over. -/
structure SimpleTp.Running (goal a vmax : Int) (tp : SimpleTp) : Prop extends tp.Climbs goal a vmax where
  enable : tp.enable = true
  below : tp.currPos < goal

theorem SimpleTp.Running.way {goal a vmax : Int} {tp : SimpleTp} (h : tp.Running goal a vmax) :
    1 ≤ goal - tp.currPos ∧ tp.posCmd = goal := by
  have := h.below
  exact ⟨by omega, h.target h.enable⟩

/-- The goal is never reached from below. -/
theorem SimpleTp.Climbs.below {goal a vmax : Int} {tp : SimpleTp} (h : tp.Climbs goal a vmax) (ha : 1 ≤ a)
    (hv : 0 ≤ vmax) (hbelow : tp.currPos < goal) : (simpleTpUpdate ℝ tp 1).currPos < goal := by
  obtain ⟨hclimbs, -, -⟩ := h.update ha hv
  obtain ⟨active, heq⟩ := simpleTpUpdate_one tp
  -- at the goal the velocity would be zero, so the planner would have been there before
  by_contra hreached
  have hgoal := hclimbs.le_goal ha
  have hat : goal - (simpleTpUpdate ℝ tp 1).currPos = 0 := by omega
  have hstop := hclimbs.stop
  rw [hat, mul_zero] at hstop
  have hzero : (simpleTpUpdate ℝ tp 1).currVel = 0 := mul_self_eq_zero.1 (le_antisymm hstop (mul_self_nonneg _))
  rw [heq] at hzero hat
  change tp.nextVel = 0 at hzero
  change goal - (tp.currPos + tp.nextVel) = 0 at hat
  omega

/-- Outside the dead band the jog goes on, and does not reach the goal in the next update. -/
theorem SimpleTp.Running.outside {goal a vmax : Int} {tp : SimpleTp} (h : tp.Running goal a vmax) (ha : 1 ≤ a)
    (hv : 1 ≤ vmax) (hfar : (a : ℝ) * 0.001 < ((goal - tp.currPos : Int) : ℝ)) :
    (simpleTpUpdate ℝ tp 1).Running goal a vmax ∧ (simpleTpUpdate ℝ tp 1).active = true ∧
      (2 ≤ goal - tp.currPos → tp.currPos < (simpleTpUpdate ℝ tp 1).currPos) := by
  obtain ⟨hclimbs, hpos, -⟩ := h.toClimbs.update ha (by omega)
  have hreq := request_outside h.enable (by rw [h.acc, h.way.2]; exact hfar)
  obtain ⟨active, heq⟩ := simpleTpUpdate_one tp
  have hen : (simpleTpUpdate ℝ tp 1).enable = true := by
    rw [heq, hreq]
    exact h.enable
  refine ⟨⟨hclimbs, hen, ?_⟩, ?_, ?_⟩
  · exact h.toClimbs.below ha (by omega) h.below
  · rw [simpleTpUpdate_active, hreq]
    rfl
  · intro hfar₂
    obtain ⟨hr, -, hon⟩ := h.toClimbs.request ha
    have hsq := hon (by rw [hreq]; exact h.enable)
    have hr₁ : 1 ≤ (tp.request ℝ 1).2 := by
      have ha' : (1 : ℝ) ≤ (a : ℝ) := by exact_mod_cast ha
      have hway : (2 : ℝ) ≤ ((goal - tp.currPos : Int) : ℝ) := by exact_mod_cast hfar₂
      by_contra hlt
      nlinarith
    have hvel : tp.vel = vmax := h.vel
    have hnext : 1 ≤ tp.nextVel := by
      unfold SimpleTp.nextVel
      rw [h.acc, hvel]
      exact one_le_rampVel h.nonneg ha (one_le_limitVel hr₁ hv)
    rw [heq]
    show tp.currPos < tp.currPos + tp.nextVel
    omega

/-- Inside the dead band it is over with the next update. -/
theorem SimpleTp.Climbs.inside {goal a vmax : Int} {tp : SimpleTp} (h : tp.Climbs goal a vmax) (ha : 1 ≤ a)
    (hv : 1 ≤ vmax) (hen : tp.enable = true) (hnear : ((goal - tp.currPos : Int) : ℝ) ≤ (a : ℝ) * 0.001) :
    (simpleTpUpdate ℝ tp 1).Arrived goal := by
  have ha' : (0 : ℝ) < (a : ℝ) := by exact_mod_cast (by omega : 0 < a)
  have hway : (0 : ℝ) ≤ ((goal - tp.currPos : Int) : ℝ) := by
    have := h.le_goal ha
    exact_mod_cast (by omega : 0 ≤ goal - tp.currPos)
  have hreq := request_inside hen (by rw [h.acc, h.target hen]; exact hnear)
    (by rw [h.acc, h.target hen]; linarith)
  obtain ⟨hclimbs, -, -⟩ := h.update ha (by omega)
  obtain ⟨active, heq⟩ := simpleTpUpdate_one tp
  have hoff : (simpleTpUpdate ℝ tp 1).enable = false := by rw [heq, hreq]
  have hzero : (simpleTpUpdate ℝ tp 1).currVel = 0 := hclimbs.rest hoff
  have hnext : tp.nextVel = 0 := by
    rw [heq] at hzero
    exact hzero
  refine ⟨?_, hoff, hzero, ?_⟩
  · rw [simpleTpUpdate_active, hreq, hnext]
    rfl
  · rw [hclimbs.acc, heq]
    show |((goal - (tp.currPos + tp.nextVel) : Int) : ℝ)| ≤ _
    rw [hnext, add_zero, abs_of_nonneg hway]
    linarith

/-- With an acceleration below 1000 the dead band holds no count, and the jog goes on for ever. -/
theorem SimpleTp.Running.stays {goal a vmax : Int} {tp : SimpleTp} (h : tp.Running goal a vmax) (ha : 1 ≤ a)
    (hv : 1 ≤ vmax) (hsmall : a < 1000) (n : ℕ) : (simpleTpRun tp n).Running goal a vmax ∧
      (1 ≤ n → (simpleTpRun tp n).active = true) := by
  induction n with
  | zero => exact ⟨h, fun hn => by omega⟩
  | succ n ih =>
    have hfar : (a : ℝ) * 0.001 < ((goal - (simpleTpRun tp n).currPos : Int) : ℝ) := by
      have hway : (1 : ℝ) ≤ ((goal - (simpleTpRun tp n).currPos : Int) : ℝ) := by exact_mod_cast ih.1.way.1
      have hsmall' : (a : ℝ) < 1000 := by exact_mod_cast hsmall
      linarith
    obtain ⟨hrunning, hactive, -⟩ := ih.1.outside ha hv hfar
    rw [simpleTpRun_succ]
    exact ⟨hrunning, fun _ => hactive⟩

theorem simpleTpRun_update (tp : SimpleTp) (n : ℕ) :
    simpleTpRun (simpleTpUpdate ℝ tp 1) n = simpleTpRun tp (n + 1) :=
  (Function.iterate_succ_apply _ n tp).symm

/-- With an acceleration of 1000 or more it goes on by a count in every update until it is inside. -/
theorem SimpleTp.Climbs.arrives {goal a vmax : Int} {tp : SimpleTp} (h : tp.Climbs goal a vmax) (ha : 1000 ≤ a)
    (hv : 1 ≤ vmax) (hen : tp.enable = true) : ∃ n, (simpleTpRun tp (n + 1)).Arrived goal := by
  induction hk : (goal - tp.currPos).toNat using Nat.strong_induction_on generalizing tp with
  | h k ih =>
    by_cases hnear : ((goal - tp.currPos : Int) : ℝ) ≤ (a : ℝ) * 0.001
    · refine ⟨0, ?_⟩
      rw [simpleTpRun_succ]
      exact h.inside (by omega) hv hen hnear
    · have hfar := not_le.1 hnear
      have hway : 2 ≤ goal - tp.currPos := by
        have ha' : (1000 : ℝ) ≤ (a : ℝ) := by exact_mod_cast ha
        have : (1 : ℝ) < ((goal - tp.currPos : Int) : ℝ) := by linarith
        have : 1 < goal - tp.currPos := by exact_mod_cast this
        omega
      have hrunning : tp.Running goal a vmax := ⟨h, hen, by omega⟩
      obtain ⟨hnext, -, hmoves⟩ := hrunning.outside (by omega) hv hfar
      have hless := hmoves hway
      have hbelow := hnext.below
      obtain ⟨n, hn⟩ := ih (goal - (simpleTpUpdate ℝ tp 1).currPos).toNat (by omega) hnext.toClimbs hnext.enable rfl
      rw [simpleTpRun_update] at hn
      exact ⟨n + 1, hn⟩

/-! ### Both ways -/

/-- The jog is over after some updates. -/
def SimpleTp.Completes (tp : SimpleTp) : Prop := ∃ n, (simpleTpRun tp (n + 1)).Arrived tp.posCmd

/-- The jog stays active for ever. -/
def SimpleTp.Hangs (tp : SimpleTp) : Prop :=
  ∀ n, (simpleTpRun tp n).enable = true ∧ (1 ≤ n → (simpleTpRun tp n).active = true)

/-- A dead band that holds the last count, or nothing to do. -/
def SimpleTp.CanComplete (tp : SimpleTp) : Prop := 1000 ≤ tp.acc ∨ tp.currPos = tp.posCmd

/-- A jog from rest. -/
structure SimpleTp.JogReady (tp : SimpleTp) : Prop where
  acc : 1 ≤ tp.acc
  vel : 1 ≤ tp.vel
  rest : tp.currVel = 0
  enable : tp.enable = true

theorem jogUp_completes {tp : SimpleTp} (h : tp.JogReady) (hup : tp.currPos ≤ tp.posCmd) :
    (tp.CanComplete → tp.Completes) ∧ (¬ tp.CanComplete → tp.Hangs) := by
  have hv := h.vel
  have hclimbs := climbs_of_rest h.acc (by omega) h.rest hup
  constructor
  · rintro (hlarge | hthere)
    · exact hclimbs.arrives hlarge hv h.enable
    · refine ⟨0, ?_⟩
      rw [simpleTpRun_succ]
      refine hclimbs.inside h.acc hv h.enable ?_
      have hacc : (0 : ℝ) ≤ (tp.acc : ℝ) := by exact_mod_cast (by have := h.acc; omega : 0 ≤ tp.acc)
      show ((tp.posCmd - tp.currPos : Int) : ℝ) ≤ _
      rw [hthere, sub_self, Int.cast_zero]
      positivity
  · intro hnot n
    rw [SimpleTp.CanComplete, not_or, not_le] at hnot
    have hrunning : tp.Running tp.posCmd tp.acc tp.vel := ⟨hclimbs, h.enable, by omega⟩
    obtain ⟨hrun, hactive⟩ := hrunning.stays h.acc hv hnot.1 n
    exact ⟨hrun.enable, hactive⟩

theorem SimpleTp.Arrived.of_mirror {goal : Int} {tp : SimpleTp} (h : tp.mirror.Arrived (-goal)) : tp.Arrived goal := by
  refine ⟨h.active, h.enable, neg_eq_zero.1 h.currVel, ?_⟩
  have hflip : ((-goal - -tp.currPos : Int) : ℝ) = -((goal - tp.currPos : Int) : ℝ) := by push_cast; ring
  have hnear : |((-goal - -tp.currPos : Int) : ℝ)| ≤ 0.001 * tp.acc := h.near
  rw [hflip, abs_neg] at hnear
  exact hnear

theorem jog_completes {tp : SimpleTp} (h : tp.JogReady) :
    (tp.CanComplete → tp.Completes) ∧ (¬ tp.CanComplete → tp.Hangs) := by
  have ha := h.acc
  have hv := h.vel
  by_cases hup : tp.currPos ≤ tp.posCmd
  · exact jogUp_completes h hup
  · have hready : tp.mirror.JogReady := ⟨h.acc, h.vel, neg_eq_zero.2 h.rest, h.enable⟩
    have hdown : tp.mirror.currPos ≤ tp.mirror.posCmd := neg_le_neg (not_le.1 hup).le
    have hsame : tp.mirror.CanComplete ↔ tp.CanComplete := or_congr Iff.rfl neg_inj
    have hrun : ∀ n, simpleTpRun tp.mirror n = (simpleTpRun tp n).mirror := fun n =>
      (simpleTpRun_mirror (by omega) (by omega) n).1
    obtain ⟨hcompletes, hhangs⟩ := jogUp_completes hready hdown
    rw [hsame] at hcompletes hhangs
    constructor
    · intro hcan
      obtain ⟨n, hn⟩ := hcompletes hcan
      rw [hrun] at hn
      exact ⟨n, hn.of_mirror⟩
    · intro hnot n
      have hn := hhangs hnot n
      rw [hrun] at hn
      exact hn

/-! ### The axis -/

/-- An axis after `n` cycles of free mode, with the acceleration limits of the machine in them. -/
def Axis.freeRun {K : Type} [Arith K] (maxacc : ℕ → Int) (axis : Axis K) : ℕ → Axis K
  | 0 => axis
  | n + 1 => freeAxisCycle (axis.freeRun maxacc n) (maxacc n) 1

theorem simpleTpUpdate_maxAcc (tp : SimpleTp) (m : Int) :
    simpleTpUpdate ℝ { tp with maxAcc := m } 1 = { simpleTpUpdate ℝ tp 1 with maxAcc := m } := by
  have hreq : ({ tp with maxAcc := m } : SimpleTp).request ℝ 1 =
      ({ (tp.request ℝ 1).1 with maxAcc := m }, (tp.request ℝ 1).2) := by
    rw [request_one, request_one]
    dsimp only
    split
    · split
      · rfl
      · split <;> rfl
    · rfl
  unfold simpleTpUpdate
  rw [hreq]
  rfl

/-- The axis follows its planner, and is in position when that is not active. -/
theorem freeRun_spec {axis : Axis ℝ} (hactive : axis.flag.active = true) (maxacc : ℕ → Int) (n : ℕ) :
    (axis.freeRun maxacc n).flag.active = true ∧
    (∃ m, (axis.freeRun maxacc n).freeTp = { simpleTpRun axis.freeTp n with maxAcc := m }) ∧
    (1 ≤ n → (axis.freeRun maxacc n).flag.inpos = !(simpleTpRun axis.freeTp n).active) := by
  induction n with
  | zero => exact ⟨hactive, ⟨axis.freeTp.maxAcc, rfl⟩, fun h => by omega⟩
  | succ n ih =>
    obtain ⟨hn, ⟨m, hm⟩, -⟩ := ih
    have hfree : ∀ l, simpleTpUpdate ℝ { (axis.freeRun maxacc n).freeTp with maxAcc := l } 1 =
        { simpleTpRun axis.freeTp (n + 1) with maxAcc := l } := by
      intro l
      rw [hm, simpleTpRun_succ]
      exact simpleTpUpdate_maxAcc (simpleTpRun axis.freeTp n) l
    have hcycle : axis.freeRun maxacc (n + 1) = freeAxisCycle (axis.freeRun maxacc n) (maxacc n) 1 := rfl
    rw [hcycle]
    unfold freeAxisCycle
    rw [if_neg (by rw [hn]; simp)]
    dsimp only
    rw [hfree]
    exact ⟨hn, ⟨_, rfl⟩, fun _ => rfl⟩

/-- A jog from rest is over after some updates, and its axis in position, exactly if its acceleration is 1000 or more or
it is at its target from the start. -/
theorem jog_completes_iff {tp : SimpleTp} (h : tp.JogReady) :
    ((∃ n, (simpleTpRun tp n).Arrived tp.posCmd) ↔ 1000 ≤ tp.acc ∨ tp.currPos = tp.posCmd) ∧
    ∀ (axis : Axis ℝ) (maxacc : ℕ → Int), axis.flag.active = true → axis.freeTp = tp →
      ((∃ n, 1 ≤ n ∧ (axis.freeRun maxacc n).flag.inpos = true) ↔ 1000 ≤ tp.acc ∨ tp.currPos = tp.posCmd) := by
  obtain ⟨hcompletes, hhangs⟩ := jog_completes h
  constructor
  · constructor
    · rintro ⟨n, hn⟩
      by_contra hnot
      have hen := (hhangs hnot n).1
      rw [hn.enable] at hen
      cases hen
    · intro hcan
      obtain ⟨n, hn⟩ := hcompletes hcan
      exact ⟨n + 1, hn⟩
  · rintro axis maxacc hactive rfl
    constructor
    · rintro ⟨n, hn, hinpos⟩
      by_contra hnot
      rw [(freeRun_spec hactive maxacc n).2.2 hn, (hhangs hnot n).2 hn] at hinpos
      cases hinpos
    · intro hcan
      obtain ⟨n, hn⟩ := hcompletes hcan
      refine ⟨n + 1, by omega, ?_⟩
      rw [(freeRun_spec hactive maxacc (n + 1)).2.2 (by omega), hn.active]
      rfl

/-- A jog from 0 to `goal`. -/
def plainJog (goal vel acc : Int) : SimpleTp where
  posCmd := goal
  maxVel := vel
  maxAcc := acc
  vel := vel
  acc := acc
  enable := true
  currPos := 0
  currVel := 0
  active := false
  dir := 0

theorem jog_completes_fast : ∃ n, (simpleTpRun (plainJog 5000 100 2000) n).Arrived 5000 :=
  have hready : (plainJog 5000 100 2000).JogReady := ⟨by decide, by decide, rfl, rfl⟩
  (jog_completes_iff hready).1.2 (.inl (by decide))

theorem jog_hangs : (plainJog 50 10 100).JogReady ∧ ¬ ∃ n, (simpleTpRun (plainJog 50 10 100) n).Arrived 50 := by
  have hready : (plainJog 50 10 100).JogReady := ⟨by decide, by decide, rfl, rfl⟩
  refine ⟨hready, ?_⟩
  rintro ⟨n, hn⟩
  have hnot : ¬ (plainJog 50 10 100).CanComplete := by
    rintro (h | h)
    · exact absurd h (by decide)
    · exact absurd h (by decide)
  have hen := ((jog_completes hready).2 hnot n).1
  rw [hn.enable] at hen
  cases hen

end SoemMotion
