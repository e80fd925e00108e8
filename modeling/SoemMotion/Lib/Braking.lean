import Mathlib.Tactic.Linarith
import Mathlib.Tactic.LinearCombination
import Mathlib.Tactic.Ring
import SoemMotion.Lib.Numerals

/-!
# Braking distances

A mover on the integers takes a step of its velocity in every period, and brakes by reducing the velocity by at most
`a` a period.  `brake a v` is the way it still makes after a period of velocity `v` when it brakes from then on.  Two
kinds of period keep the stopping point `p + brake a v` below a bound: one that brakes, and one whose velocity `w` can
be stopped within the distance `e` to a target below the bound, `w² + 2aw ≤ 2ae`.

`Brakes f a d v` is the condition of a mover whose velocity changes linearly within a period: within the distance `d`
the velocity `v` can be reduced to `f` with the deceleration `a`.  It is kept by the same two kinds of period.
-/

namespace SoemMotion.Lib

/-- The way made after a period of velocity `v` while braking with `a`; zero for a velocity that is not positive. -/
def brake (a v : Int) : Int := if 0 < a ∧ a < v then (v - a) + brake a (v - a) else 0
termination_by v.toNat

theorem brake_of_lt {a v : Int} (ha : 0 < a) (h : a < v) : brake a v = (v - a) + brake a (v - a) := by
  rw [brake, if_pos ⟨ha, h⟩]

theorem brake_zero (a : Int) : brake a 0 = 0 := by
  rw [brake, if_neg]
  omega

theorem brake_of_nonpos {a v : Int} (h : v ≤ 0) : brake a v = 0 := by
  rw [brake, if_neg]
  omega

theorem brake_nonneg (a v : Int) : 0 ≤ brake a v := by
  induction v using brake.induct a with
  | case1 v h ih =>
    rw [brake_of_lt h.1 h.2]
    omega
  | case2 v h =>
    rw [brake, if_neg h]

/-- The braking distance is at most that of the continuous motion. -/
theorem two_mul_brake_le {a v : Int} (hv : 0 ≤ v) : 2 * a * brake a v ≤ v * v := by
  induction v using brake.induct a with
  | case1 v h ih =>
    rw [brake_of_lt h.1 h.2]
    have hrec := ih (by omega)
    have ha := mul_pos h.1 h.1
    nlinarith
  | case2 v h =>
    rw [brake, if_neg h, mul_zero]
    exact mul_nonneg hv hv

section Bound

variable {a p v w e bound : Int}

/-- A period of full braking keeps the stopping point. -/
theorem brake_decel (ha : 0 < a) (h : p + brake a v ≤ bound) : p + (v - a) + brake a (v - a) ≤ bound := by
  by_cases hv : a < v
  · rw [brake_of_lt ha hv] at h
    omega
  · rw [brake_of_nonpos (by omega)]
    have := brake_nonneg a v
    omega

/-- So does a period that does not move forward. -/
theorem brake_back (h : p + brake a v ≤ bound) (hw : w ≤ 0) : p + w + brake a w ≤ bound := by
  rw [brake_of_nonpos hw]
  have := brake_nonneg a v
  omega

/-- So does a period whose velocity can be stopped before the target. -/
theorem brake_track (ha : 0 < a) (hw : 0 ≤ w) (he : w * w + 2 * a * w ≤ 2 * a * e) (h : p + e ≤ bound) :
    p + w + brake a w ≤ bound := by
  have hb := two_mul_brake_le (a := a) hw
  have hle : 2 * a * (w + brake a w) ≤ 2 * a * e := by linarith
  have : w + brake a w ≤ e := by
    by_contra hlt
    have hlt' : e + 1 ≤ w + brake a w := by omega
    have := mul_le_mul_of_nonneg_left hlt' (show 0 ≤ 2 * a by omega)
    linarith
  omega

end Bound

/-! ### Linear velocities -/

section Linear

variable {K : Type*} [Field K] [LinearOrder K] [IsStrictOrderedRing K] {f a d e v w r T : K}

/-- The velocity `v` can be reduced to `f` within the distance `d`, with the deceleration `a`. -/
def Brakes (f a d v : K) : Prop := v ^ 2 ≤ f ^ 2 + 2 * a * d

theorem brakes_zero (ha : 0 ≤ a) (hd : 0 ≤ d) : Brakes f a d 0 := by
  have h := mul_nonneg ha hd
  have hf := sq_nonneg f
  unfold Brakes
  linarith

theorem Brakes.of_le (h : Brakes f a d v) (ha : 0 ≤ a) (hde : d ≤ e) : Brakes f a e v := by
  have hmul := mul_le_mul_of_nonneg_left hde ha
  unfold Brakes at h ⊢
  linarith

/-- A period of full braking keeps the condition. -/
theorem Brakes.decel (h : Brakes f a d v) : Brakes f a (d - (v + (v - a * T)) / 2 * T) (v - a * T) := by
  unfold Brakes at h ⊢
  linear_combination h

/-- So does a period that ends below the root of the braking equation. -/
theorem brakes_linear (hw : 0 ≤ w + a * T / 2) (hle : w + a * T / 2 ≤ r)
    (hroot : r ^ 2 = f ^ 2 + a * (2 * d - v * T) + (a * T / 2) ^ 2) : Brakes f a (d - (v + w) / 2 * T) w := by
  have hsq := pow_le_pow_left₀ hw hle 2
  unfold Brakes
  linear_combination hsq + hroot

end Linear

end SoemMotion.Lib
