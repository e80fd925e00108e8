import SoemMotion.SimpleTp
import SoemMotion.Lib.Braking

/-!
# The stopping points of the free planner

The free planner in exact arithmetic and with a period of one second.  A positive request can be stopped at the target
and a ramp that is not allowed to follow the request brakes fully, so the points in which the current velocity can be
stopped never leave an interval that holds them and the target (`SimpleTp.Safe`).
-/

namespace SoemMotion

open Lib

/-! ### One update of the planner -/

theorem truncReal_le_max (x : ℝ) : ((truncReal x : Int) : ℝ) ≤ x ∨ truncReal x ≤ 0 := by
  unfold truncReal
  split
  · exact .inl (Int.floor_le x)
  · rename_i h
    exact .inr (Int.ceil_le.2 (by exact_mod_cast (not_le.1 h).le))

theorem truncReal_intCast (n : Int) : truncReal (n : ℝ) = n := by
  unfold truncReal
  split
  · exact Int.floor_intCast n
  · exact Int.ceil_intCast n

/-- A ramped velocity brakes fully, does not move forward, or is at most the request. -/
theorem rampVel_upper (v a : Int) (r : ℝ) :
    rampVel v r (a : ℝ) = v - a ∨ rampVel v r (a : ℝ) ≤ 0 ∨ ((rampVel v r (a : ℝ) : Int) : ℝ) ≤ r := by
  unfold rampVel
  split
  · rename_i h
    have hcast : (v : ℝ) + (a : ℝ) = ((v + a : Int) : ℝ) := by push_cast; ring
    rw [trunc_real, hcast, truncReal_intCast]
    rw [hcast] at h
    exact .inr (.inr h.le)
  · split
    · have hcast : (v : ℝ) - (a : ℝ) = ((v - a : Int) : ℝ) := by push_cast; ring
      rw [trunc_real, hcast, truncReal_intCast]
      exact .inl rfl
    · rw [trunc_real]
      exact .inr (truncReal_le_max r).symm

/-- An axis at rest without acceleration stays at rest. -/
theorem rampVel_zero (r : ℝ) : rampVel 0 r ((0 : Int) : ℝ) = 0 := by
  unfold rampVel
  simp only [Int.cast_zero, add_zero, sub_zero, trunc_real]
  have h0 : truncReal 0 = 0 := by exact_mod_cast truncReal_intCast 0
  split
  · exact h0
  · split
    · exact h0
    · have hr : r = 0 := by linarith
      rw [hr, h0]

/-- A positive limited request is at most the request. -/
theorem limitVel_pos {r : ℝ} {vel : Int} (h : 0 < limitVel r vel) : limitVel r vel ≤ r ∨ vel < 0 := by
  unfold limitVel at h ⊢
  split
  · rename_i hlt
    exact .inl hlt.le
  · rename_i hlt
    rw [if_neg hlt] at h
    split
    · rename_i hneg
      rw [if_pos hneg] at h
      right
      rw [i32_real] at h
      have : (0 : ℝ) < ((-vel : Int) : ℝ) := h
      have hv : 0 < -vel := by exact_mod_cast this
      omega
    · exact .inl le_rfl

/-- The request of the planner with a period of one second. -/
theorem request_one (tp : SimpleTp) : tp.request ℝ 1 =
    if tp.enable then
      if (tp.acc : ℝ) * 0.001 < ((tp.posCmd - tp.currPos : Int) : ℝ) then
        ({ tp with active := true },
          -(tp.acc : ℝ) + √(2 * (tp.acc : ℝ) * ((tp.posCmd - tp.currPos : Int) : ℝ) + (tp.acc : ℝ) * (tp.acc : ℝ)))
      else if ((tp.posCmd - tp.currPos : Int) : ℝ) < -((tp.acc : ℝ) * 0.001) then
        ({ tp with active := true },
          (tp.acc : ℝ) - √(-2 * (tp.acc : ℝ) * ((tp.posCmd - tp.currPos : Int) : ℝ) + (tp.acc : ℝ) * (tp.acc : ℝ)))
      else ({ tp with active := false, enable := false }, 0)
    else ({ tp with active := false, posCmd := tp.currPos }, 0) := by
  have h2 : ((2 * tp.acc : Int) : ℝ) = 2 * (tp.acc : ℝ) := by push_cast; ring
  have h3 : ((-2 * tp.acc : Int) : ℝ) = -2 * (tp.acc : ℝ) := by push_cast; ring
  unfold SimpleTp.request SimpleTp.maxDv tinyDp
  simp only [i32_real, mul_one, sqrt_real, h2, h3]

/-- A positive request can be stopped at the target. -/
theorem request_pos {tp : SimpleTp} (ha : 0 < tp.acc) (h : 0 < (tp.request ℝ 1).2) :
    tp.enable = true ∧ ((tp.request ℝ 1).2 + tp.acc) * ((tp.request ℝ 1).2 + tp.acc) =
      2 * tp.acc * ((tp.posCmd - tp.currPos : Int) : ℝ) + tp.acc * tp.acc := by
  have hacc : (0 : ℝ) < (tp.acc : ℝ) := by exact_mod_cast ha
  rw [request_one] at h ⊢
  cases hen : tp.enable with
  | false =>
    rw [hen] at h
    exact absurd h (lt_irrefl _)
  | true =>
    rw [hen] at h
    simp only [if_true] at h ⊢
    split at h
    · rename_i hpos
      rw [if_pos hpos]
      refine ⟨trivial, ?_⟩
      have hrad : 0 ≤ 2 * (tp.acc : ℝ) * ((tp.posCmd - tp.currPos : Int) : ℝ) + (tp.acc : ℝ) * (tp.acc : ℝ) := by
        have : 0 < ((tp.posCmd - tp.currPos : Int) : ℝ) := by nlinarith
        positivity
      have := Real.mul_self_sqrt hrad
      nlinarith
    · split at h
      · rename_i hneg
        -- the root is at least the acceleration, so the request is not positive
        have hle : (tp.acc : ℝ) ≤
            √(-2 * (tp.acc : ℝ) * ((tp.posCmd - tp.currPos : Int) : ℝ) + (tp.acc : ℝ) * (tp.acc : ℝ)) := by
          apply Real.le_sqrt_of_sq_le
          nlinarith
        dsimp only at h
        linarith
      · exact absurd h (lt_irrefl _)

/-- The planner keeps its settings, and its target while it stays enabled. -/
theorem request_fst (tp : SimpleTp) : (tp.request ℝ 1).1.acc = tp.acc ∧ (tp.request ℝ 1).1.vel = tp.vel ∧
    ((tp.request ℝ 1).1.enable = true → tp.enable = true ∧ (tp.request ℝ 1).1.posCmd = tp.posCmd) := by
  rw [request_one]
  cases hen : tp.enable with
  | false =>
    refine ⟨rfl, rfl, fun h => ?_⟩
    cases h
  | true =>
    simp only [if_true]
    split
    · exact ⟨rfl, rfl, fun _ => ⟨trivial, rfl⟩⟩
    · split
      · exact ⟨rfl, rfl, fun _ => ⟨trivial, rfl⟩⟩
      · exact ⟨rfl, rfl, fun _ => ⟨trivial, rfl⟩⟩

/-! ### The other direction -/

/-- The planner seen from the other direction. -/
def SimpleTp.mirror (tp : SimpleTp) : SimpleTp :=
  { tp with posCmd := -tp.posCmd, currPos := -tp.currPos, currVel := -tp.currVel }

theorem truncReal_neg (x : ℝ) : truncReal (-x) = -truncReal x := by
  rcases lt_trichotomy x 0 with h | rfl | h
  · unfold truncReal
    rw [if_pos (by linarith), if_neg (by linarith), Int.floor_neg]
  · have h0 : truncReal 0 = 0 := by exact_mod_cast truncReal_intCast 0
    rw [neg_zero, h0, neg_zero]
  · unfold truncReal
    rw [if_neg (by linarith), if_pos h.le, Int.ceil_neg]

theorem limitVel_mirror {vel : Int} (hv : 0 ≤ vel) (r : ℝ) : limitVel (-r) vel = -limitVel r vel := by
  have hv' : (0 : ℝ) ≤ (vel : ℝ) := by exact_mod_cast hv
  unfold limitVel
  rw [i32_real]
  push_cast
  by_cases hup : (vel : ℝ) < r
  · rw [if_pos hup, if_neg (by linarith), if_pos (by linarith)]
  · by_cases hdown : r < -(vel : ℝ)
    · rw [if_neg hup, if_pos hdown, if_pos (by linarith), neg_neg]
    · rw [if_neg hup, if_neg hdown, if_neg (by linarith), if_neg (by linarith)]

theorem rampVel_mirror {a : ℝ} (ha : 0 ≤ a) (v : Int) (r : ℝ) : rampVel (-v) (-r) a = -rampVel v r a := by
  unfold rampVel
  push_cast
  simp only [trunc_real]
  by_cases hup : (v : ℝ) + a < r
  · rw [if_pos hup, if_neg (by linarith), if_pos (by linarith), ← truncReal_neg]
    congr 1
    ring
  · by_cases hdown : r < (v : ℝ) - a
    · rw [if_neg hup, if_pos hdown, if_pos (by linarith), ← truncReal_neg]
      congr 1
      ring
    · rw [if_neg hup, if_neg hdown, if_neg (by linarith), if_neg (by linarith), truncReal_neg]

/-- The request of an enabled planner. -/
theorem request_enabled {tp : SimpleTp} (hen : tp.enable = true) : tp.request ℝ 1 =
    if (tp.acc : ℝ) * 0.001 < ((tp.posCmd - tp.currPos : Int) : ℝ) then
      ({ tp with active := true },
        -(tp.acc : ℝ) + √(2 * (tp.acc : ℝ) * ((tp.posCmd - tp.currPos : Int) : ℝ) + (tp.acc : ℝ) * (tp.acc : ℝ)))
    else if ((tp.posCmd - tp.currPos : Int) : ℝ) < -((tp.acc : ℝ) * 0.001) then
      ({ tp with active := true },
        (tp.acc : ℝ) - √(-2 * (tp.acc : ℝ) * ((tp.posCmd - tp.currPos : Int) : ℝ) + (tp.acc : ℝ) * (tp.acc : ℝ)))
    else ({ tp with active := false, enable := false }, 0) := by
  rw [request_one, if_pos hen]

theorem request_mirror {tp : SimpleTp} (ha : 0 ≤ tp.acc) :
    tp.mirror.request ℝ 1 = ((tp.request ℝ 1).1.mirror, -(tp.request ℝ 1).2) := by
  have hacc : (0 : ℝ) ≤ (tp.acc : ℝ) * 0.001 := by
    have : (0 : ℝ) ≤ (tp.acc : ℝ) := by exact_mod_cast ha
    positivity
  have hflip : ((tp.mirror.posCmd - tp.mirror.currPos : Int) : ℝ) = -((tp.posCmd - tp.currPos : Int) : ℝ) := by
    show ((-tp.posCmd - -tp.currPos : Int) : ℝ) = _
    push_cast
    ring
  have hfar : (tp.mirror.acc : ℝ) * 0.001 < ((tp.mirror.posCmd - tp.mirror.currPos : Int) : ℝ) ↔
      ((tp.posCmd - tp.currPos : Int) : ℝ) < -((tp.acc : ℝ) * 0.001) := by
    rw [hflip]
    exact lt_neg
  have hback : ((tp.mirror.posCmd - tp.mirror.currPos : Int) : ℝ) < -((tp.mirror.acc : ℝ) * 0.001) ↔
      (tp.acc : ℝ) * 0.001 < ((tp.posCmd - tp.currPos : Int) : ℝ) := by
    rw [hflip]
    exact neg_lt_neg_iff
  cases hen : tp.enable with
  | false =>
    rw [request_one, if_neg (by rw [show tp.mirror.enable = tp.enable from rfl, hen]; simp), request_one,
      if_neg (by rw [hen]; simp), neg_zero]
    rfl
  | true =>
    have hen' : tp.mirror.enable = true := hen
    rw [request_enabled hen, request_enabled hen']
    -- upwards, downwards, or near enough to stop
    by_cases hup : (tp.acc : ℝ) * 0.001 < ((tp.posCmd - tp.currPos : Int) : ℝ)
    · rw [if_neg (fun h => by have := hfar.1 h; linarith), if_pos (hback.2 hup), if_pos hup, hflip]
      refine Prod.ext rfl ?_
      show (tp.acc : ℝ) - √(-2 * (tp.acc : ℝ) * -((tp.posCmd - tp.currPos : Int) : ℝ) + (tp.acc : ℝ) * (tp.acc : ℝ)) =
        -(-(tp.acc : ℝ) + √_)
      rw [neg_add, neg_neg, ← sub_eq_add_neg, neg_mul, neg_mul_neg]
    · by_cases hdown : ((tp.posCmd - tp.currPos : Int) : ℝ) < -((tp.acc : ℝ) * 0.001)
      · rw [if_pos (hfar.2 hdown), if_neg hup, if_pos hdown, hflip]
        refine Prod.ext rfl ?_
        show -(tp.acc : ℝ) + √(2 * (tp.acc : ℝ) * -((tp.posCmd - tp.currPos : Int) : ℝ) + (tp.acc : ℝ) * (tp.acc : ℝ)) =
          -((tp.acc : ℝ) - √_)
        rw [neg_sub, neg_add_eq_sub, mul_neg, neg_mul, neg_mul]
      · rw [if_neg (fun h => hdown (hfar.1 h)), if_neg (fun h => hup (hback.1 h)), if_neg hup, if_neg hdown, neg_zero]
        rfl

/-! ### The stopping points -/

/-- The planner can stop within `[m, M]`, and is not asked to leave it. -/
structure SimpleTp.Safe (m M : Int) (tp : SimpleTp) : Prop where
  settings : tp.acc = 0 ∧ tp.currVel = 0 ∨ 0 < tp.acc ∧ 0 ≤ tp.vel
  lower : m ≤ tp.currPos - brake tp.acc (-tp.currVel)
  upper : tp.currPos + brake tp.acc tp.currVel ≤ M
  target : tp.enable = true → m ≤ tp.posCmd ∧ tp.posCmd ≤ M

theorem SimpleTp.Safe.currPos {m M : Int} {tp : SimpleTp} (h : tp.Safe m M) : m ≤ tp.currPos ∧ tp.currPos ≤ M := by
  have h1 := brake_nonneg tp.acc (-tp.currVel)
  have h2 := brake_nonneg tp.acc tp.currVel
  have h3 := h.lower
  have h4 := h.upper
  omega

/-- The velocity of the next period. -/
noncomputable def SimpleTp.nextVel (tp : SimpleTp) : Int :=
  rampVel tp.currVel (limitVel (tp.request ℝ 1).2 tp.vel) (tp.acc : ℝ)

theorem simpleTpUpdate_one (tp : SimpleTp) : ∃ active, simpleTpUpdate ℝ tp 1 =
    { (tp.request ℝ 1).1 with currVel := tp.nextVel, active := active, currPos := tp.currPos + tp.nextVel } := by
  unfold simpleTpUpdate SimpleTp.nextVel SimpleTp.maxDv
  simp only [i32_real, mul_one]
  exact ⟨_, rfl⟩

/-- A velocity below a positive request can be stopped before the target. -/
theorem stop_of_le_request {a w e : Int} {r q : ℝ} (ha : 0 < a) (hw : 0 < w) (hwr : (w : ℝ) ≤ q) (hr : q ≤ r)
    (he : (r + a) * (r + a) = 2 * a * (e : ℝ) + a * a) : w * w + 2 * a * w ≤ 2 * a * e := by
  have hw' : (0 : ℝ) < (w : ℝ) := by exact_mod_cast hw
  have ha' : (0 : ℝ) < (a : ℝ) := by exact_mod_cast ha
  have hle : ((w : ℝ) + a) * ((w : ℝ) + a) ≤ (r + a) * (r + a) := by nlinarith
  have hreal : (w : ℝ) * w + 2 * a * w ≤ 2 * a * e := by nlinarith
  exact_mod_cast hreal

theorem nextVel_upper {m M : Int} {tp : SimpleTp} (h : tp.Safe m M) (ha : 0 < tp.acc) (hv : 0 ≤ tp.vel) :
    tp.currPos + tp.nextVel + brake tp.acc tp.nextVel ≤ M := by
  rcases rampVel_upper tp.currVel tp.acc (limitVel (tp.request ℝ 1).2 tp.vel) with hw | hw | hw
  · have hw' : tp.nextVel = tp.currVel - tp.acc := hw
    rw [hw']
    exact brake_decel ha h.upper
  · exact brake_back h.upper hw
  · by_cases hpos : tp.nextVel ≤ 0
    · exact brake_back h.upper hpos
    · have hw0 : 0 < tp.nextVel := not_le.1 hpos
      have hwr : ((tp.nextVel : Int) : ℝ) ≤ limitVel (tp.request ℝ 1).2 tp.vel := hw
      have hlim : 0 < limitVel (tp.request ℝ 1).2 tp.vel := lt_of_lt_of_le (by exact_mod_cast hw0) hwr
      have hle : limitVel (tp.request ℝ 1).2 tp.vel ≤ (tp.request ℝ 1).2 :=
        (limitVel_pos hlim).resolve_right (not_lt.2 hv)
      obtain ⟨hen, hreq⟩ := request_pos ha (lt_of_lt_of_le hlim hle)
      have htarget := (h.target hen).2
      exact brake_track ha hw0.le (stop_of_le_request ha hw0 hwr hle hreq) (by omega)

theorem nextVel_mirror {tp : SimpleTp} (ha : 0 ≤ tp.acc) (hv : 0 ≤ tp.vel) : tp.mirror.nextVel = -tp.nextVel := by
  have ha' : (0 : ℝ) ≤ (tp.acc : ℝ) := by exact_mod_cast ha
  unfold SimpleTp.nextVel
  rw [request_mirror ha]
  show rampVel (-tp.currVel) (limitVel (-(tp.request ℝ 1).2) tp.vel) (tp.acc : ℝ) = _
  rw [limitVel_mirror hv, rampVel_mirror ha']

theorem SimpleTp.Safe.mirror {m M : Int} {tp : SimpleTp} (h : tp.Safe m M) : tp.mirror.Safe (-M) (-m) := by
  refine ⟨?_, ?_, ?_, ?_⟩
  · rcases h.settings with ⟨ha, hrest⟩ | hset
    · exact .inl ⟨ha, neg_eq_zero.2 hrest⟩
    · exact .inr hset
  · show -M ≤ -tp.currPos - brake tp.acc (- -tp.currVel)
    have hupper := h.upper
    rw [neg_neg]
    omega
  · show -tp.currPos + brake tp.acc (-tp.currVel) ≤ -m
    have hlower := h.lower
    omega
  · intro hen
    obtain ⟨hmin, hmax⟩ := h.target hen
    exact ⟨neg_le_neg hmax, neg_le_neg hmin⟩

/-- The mirror image of the upper bound. -/
theorem nextVel_lower {m M : Int} {tp : SimpleTp} (h : tp.Safe m M) (ha : 0 < tp.acc) (hv : 0 ≤ tp.vel) :
    m ≤ tp.currPos + tp.nextVel - brake tp.acc (-tp.nextVel) := by
  have hupper := nextVel_upper h.mirror ha hv
  rw [nextVel_mirror ha.le hv] at hupper
  change -tp.currPos + -tp.nextVel + brake tp.acc (-tp.nextVel) ≤ -m at hupper
  omega

/-- A safe planner stays safe. -/
theorem simpleTpUpdate_safe {m M : Int} {tp : SimpleTp} (h : tp.Safe m M) : (simpleTpUpdate ℝ tp 1).Safe m M := by
  obtain ⟨active, heq⟩ := simpleTpUpdate_one tp
  obtain ⟨hacc, hvel, htarget⟩ := request_fst tp
  rw [heq]
  -- neither acceleration nor velocity, or a planner that brakes in time
  rcases h.settings with ⟨ha, hv⟩ | ⟨ha, hv⟩
  · have hnext : tp.nextVel = 0 := by
      unfold SimpleTp.nextVel
      rw [ha, hv]
      exact rampVel_zero _
    have hpos := h.currPos
    refine ⟨.inl ⟨hacc.trans ha, hnext⟩, ?_, ?_, ?_⟩
    · show m ≤ tp.currPos + tp.nextVel - brake (tp.request ℝ 1).1.acc (-tp.nextVel)
      rw [hnext, neg_zero, brake_zero]
      omega
    · show tp.currPos + tp.nextVel + brake (tp.request ℝ 1).1.acc tp.nextVel ≤ M
      rw [hnext, brake_zero]
      omega
    · intro hen
      obtain ⟨hen', hcmd⟩ := htarget hen
      show m ≤ (tp.request ℝ 1).1.posCmd ∧ (tp.request ℝ 1).1.posCmd ≤ M
      rw [hcmd]
      exact h.target hen'
  · refine ⟨.inr ⟨by rw [hacc]; exact ha, by rw [hvel]; exact hv⟩, ?_, ?_, ?_⟩
    · show m ≤ tp.currPos + tp.nextVel - brake (tp.request ℝ 1).1.acc (-tp.nextVel)
      rw [hacc]
      exact nextVel_lower h ha hv
    · show tp.currPos + tp.nextVel + brake (tp.request ℝ 1).1.acc tp.nextVel ≤ M
      rw [hacc]
      exact nextVel_upper h ha hv
    · intro hen
      obtain ⟨hen', hcmd⟩ := htarget hen
      show m ≤ (tp.request ℝ 1).1.posCmd ∧ (tp.request ℝ 1).1.posCmd ≤ M
      rw [hcmd]
      exact h.target hen'

end SoemMotion
