import Mathlib.Analysis.Real.Sqrt
import Mathlib.Algebra.Order.BigOperators.Ring.Finset
import Mathlib.Topology.Order.OrderClosed
import Mathlib.Tactic.Linarith
import Mathlib.Tactic.Ring
import SoemMotion.Lib.Numerals

/-!
# Sections of a box

A box with the half-widths `b i` is cut by the hyperplane through its centre with the unit normal `n`.  The ball of
radius `d` in the section is inside the box exactly when `d² (1 - n i²) ≤ (b i)²` for every axis: `√(1 - n i²)` is the
largest component a unit vector of the section has along it.
-/

namespace SoemMotion.Lib

variable {ι : Type*} [Fintype ι] {n b : ι → ℝ} {d : ℝ}

/-- Every vector of the length `d` perpendicular to `n` is within the bounds `b`. -/
def Inscribed (n b : ι → ℝ) (d : ℝ) : Prop :=
  0 ≤ d ∧ ∀ v : ι → ℝ, ∑ i, v i * n i = 0 → ∑ i, v i ^ 2 = d ^ 2 → ∀ i, |v i| ≤ b i

section Direction

variable [DecidableEq ι]

/-- The projection of an axis onto the section. -/
def planar (n : ι → ℝ) (i : ι) : ι → ℝ := Pi.single i 1 - n i • n

theorem sum_mul_planar (v : ι → ℝ) (i : ι) : ∑ j, v j * planar n i j = v i - n i * ∑ j, v j * n j := by
  simp only [planar, Pi.sub_apply, Pi.smul_apply, smul_eq_mul, mul_sub, Finset.sum_sub_distrib, Pi.single_apply,
    mul_ite, mul_one, mul_zero, Finset.sum_ite_eq', Finset.mem_univ, if_true, Finset.mul_sum]
  congr 1
  exact Finset.sum_congr rfl fun j _ => by ring

omit [Fintype ι] in
theorem planar_self (i : ι) : planar n i i = 1 - n i ^ 2 := by
  simp [planar, sq]

theorem sum_planar_sq (hn : ∑ i, n i ^ 2 = 1) (i : ι) : ∑ j, planar n i j ^ 2 = 1 - n i ^ 2 := by
  have hperp : ∑ j, planar n i j * n j = 0 := by
    simp only [mul_comm (planar n i _), sum_mul_planar, ← sq, hn]
    ring
  simp only [sq (planar n i _), sum_mul_planar, hperp, planar_self]
  ring

/-- By the Cauchy-Schwarz inequality. -/
theorem component_sq_le (hn : ∑ i, n i ^ 2 = 1) {v : ι → ℝ} (hv : ∑ i, v i * n i = 0) (i : ι) :
    v i ^ 2 ≤ (∑ j, v j ^ 2) * (1 - n i ^ 2) := by
  calc v i ^ 2
      = (∑ j, v j * planar n i j) ^ 2 := by rw [sum_mul_planar, hv, mul_zero, sub_zero]
    _ ≤ (∑ j, v j ^ 2) * ∑ j, planar n i j ^ 2 := Finset.sum_mul_sq_le_sq_mul_sq _ _ _
    _ = (∑ j, v j ^ 2) * (1 - n i ^ 2) := by rw [sum_planar_sq hn]

end Direction

/-- The ball is inside the box when it is along every axis. -/
theorem inscribed_iff (hn : ∑ i, n i ^ 2 = 1) (hb : ∀ i, 0 < b i) :
    Inscribed n b d ↔ 0 ≤ d ∧ ∀ i, d ^ 2 * (1 - n i ^ 2) ≤ b i ^ 2 := by
  classical
  constructor
  · rintro ⟨hd, h⟩
    refine ⟨hd, fun i => ?_⟩
    by_cases hi : 1 - n i ^ 2 ≤ 0
    · -- an axis perpendicular to the section has no component in it
      exact (mul_nonpos_of_nonneg_of_nonpos (sq_nonneg d) hi).trans (sq_nonneg _)
    · have hpos : 0 < 1 - n i ^ 2 := not_le.1 hi
      obtain ⟨k, hk⟩ : ∃ k, k = d / √(1 - n i ^ 2) := ⟨_, rfl⟩
      have hksq : k ^ 2 * (1 - n i ^ 2) = d ^ 2 := by
        rw [hk, div_pow, Real.sq_sqrt hpos.le, div_mul_cancel₀ _ hpos.ne']
      have hle := h (fun j => k * planar n i j)
        (by simp only [mul_assoc, ← Finset.mul_sum, mul_comm (planar n i _), sum_mul_planar, ← sq, hn]; ring)
        (by simp only [mul_pow, ← Finset.mul_sum, sum_planar_sq hn, hksq]) i
      calc d ^ 2 * (1 - n i ^ 2)
          = |k * planar n i i| ^ 2 := by rw [sq_abs, planar_self, ← hksq]; ring
        _ ≤ b i ^ 2 := pow_le_pow_left₀ (abs_nonneg _) hle 2
  · rintro ⟨hd, h⟩
    refine ⟨hd, fun v hv hlen i => ?_⟩
    have hsq := component_sq_le hn hv i
    rw [hlen] at hsq
    exact abs_le_of_sq_le_sq (hsq.trans (h i)) (hb i).le

/-- A ball that touches no side of the box can grow. -/
theorem exists_inscribed_gt (hn : ∑ i, n i ^ 2 = 1) (hb : ∀ i, 0 < b i) (hd : 0 ≤ d)
    (h : ∀ i, d ^ 2 * (1 - n i ^ 2) < b i ^ 2) : ∃ e > d, Inscribed n b e := by
  have hnear : ∀ᶠ e in nhds d, ∀ i, e ^ 2 * (1 - n i ^ 2) < b i ^ 2 := by
    refine Filter.eventually_all.2 fun i => ?_
    have hcont : Continuous fun e : ℝ => e ^ 2 * (1 - n i ^ 2) := (continuous_pow 2).mul continuous_const
    exact (hcont.tendsto d).eventually_lt_const (h i)
  obtain ⟨e, he, hgt⟩ := ((hnear.filter_mono nhdsWithin_le_nhds).and (self_mem_nhdsWithin (s := Set.Ioi d))).exists
  exact ⟨e, hgt, (inscribed_iff hn hb).2 ⟨hd.trans (le_of_lt hgt), fun i => (he i).le⟩⟩

end SoemMotion.Lib
