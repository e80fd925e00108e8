import Mathlib.Algebra.Order.Field.Basic
import Mathlib.Tactic.Linarith
import Mathlib.Tactic.Positivity
import Mathlib.Tactic.Ring
import SoemMotion.Lib.Numerals

/-!
# Uniform cubic B-splines

A segment of the spline over four control points is a weighted average of them, and its derivative one of their
differences.  The parameter runs from zero to one between the inner two points, and two segments that share three
points meet with the same value and the same first two derivatives.
-/

namespace SoemMotion.Lib

variable {F : Type*} [Field F]

/-- The segment over four control points. -/
def bspline (x₀ x₁ x₂ x₃ s : F) : F :=
  ((1 - s) ^ 3 * x₀ + (1 + 3 * ((1 - s) * (1 + s * (1 - s)))) * x₁ +
  (1 + 3 * (s * (1 + s * (1 - s)))) * x₂ + s ^ 3 * x₃) / 6

/-- Its derivative, over the three differences of the points. -/
def bsplineVel (d₀ d₁ d₂ s : F) : F := ((1 - s) ^ 2 * d₀ + (1 + 2 * (s * (1 - s))) * d₁ + s ^ 2 * d₂) / 2

/-- Its second derivative, over the two second differences. -/
def bsplineAcc (e₀ e₁ s : F) : F := (1 - s) * e₀ + s * e₁

/-! ### Where two segments meet -/

theorem bspline_join (x₀ x₁ x₂ x₃ x₄ : F) : bspline x₀ x₁ x₂ x₃ 1 = bspline x₁ x₂ x₃ x₄ 0 := by
  unfold bspline
  ring

theorem bsplineVel_join (d₀ d₁ d₂ d₃ : F) : bsplineVel d₀ d₁ d₂ 1 = bsplineVel d₁ d₂ d₃ 0 := by
  unfold bsplineVel
  ring

theorem bsplineAcc_join (e₀ e₁ e₂ : F) : bsplineAcc e₀ e₁ 1 = bsplineAcc e₁ e₂ 0 := by
  unfold bsplineAcc
  ring

/-! ### Weighted averages -/

section Order

variable [LinearOrder F] [IsStrictOrderedRing F] {s : F}

theorem parabola_nonneg (hs : 0 ≤ s ∧ s ≤ 1) : 0 ≤ s * (1 - s) := mul_nonneg hs.1 (sub_nonneg.2 hs.2)

theorem bspline_nonneg {x₀ x₁ x₂ x₃ : F} (hs : 0 ≤ s ∧ s ≤ 1) (h₀ : 0 ≤ x₀) (h₁ : 0 ≤ x₁) (h₂ : 0 ≤ x₂) (h₃ : 0 ≤ x₃) :
    0 ≤ bspline x₀ x₁ x₂ x₃ s := by
  have hp := parabola_nonneg hs
  have hs₀ := hs.1
  have hs₁ : 0 ≤ 1 - s := sub_nonneg.2 hs.2
  unfold bspline
  positivity

theorem bsplineVel_nonneg {d₀ d₁ d₂ : F} (hs : 0 ≤ s ∧ s ≤ 1) (h₀ : 0 ≤ d₀) (h₁ : 0 ≤ d₁) (h₂ : 0 ≤ d₂) :
    0 ≤ bsplineVel d₀ d₁ d₂ s := by
  have hp := parabola_nonneg hs
  have hs₀ := hs.1
  have hs₁ : 0 ≤ 1 - s := sub_nonneg.2 hs.2
  unfold bsplineVel
  positivity

/-- The weights of the points add up to one. -/
theorem bspline_sub (x₀ x₁ x₂ x₃ c : F) :
    bspline (x₀ - c) (x₁ - c) (x₂ - c) (x₃ - c) s = bspline x₀ x₁ x₂ x₃ s - c := by
  unfold bspline
  ring

theorem bspline_rsub (x₀ x₁ x₂ x₃ c : F) : bspline (c - x₀) (c - x₁) (c - x₂) (c - x₃) s =
    c - bspline x₀ x₁ x₂ x₃ s := by
  unfold bspline
  ring

theorem bsplineVel_sub (d₀ d₁ d₂ c : F) : bsplineVel (d₀ - c) (d₁ - c) (d₂ - c) s = bsplineVel d₀ d₁ d₂ s - c := by
  unfold bsplineVel
  ring

theorem bsplineVel_rsub (d₀ d₁ d₂ c : F) : bsplineVel (c - d₀) (c - d₁) (c - d₂) s = c - bsplineVel d₀ d₁ d₂ s := by
  unfold bsplineVel
  ring

/-- The segment lies between any bounds of its points. -/
theorem bspline_mem {x₀ x₁ x₂ x₃ lo hi : F} (hs : 0 ≤ s ∧ s ≤ 1) (h₀ : lo ≤ x₀ ∧ x₀ ≤ hi) (h₁ : lo ≤ x₁ ∧ x₁ ≤ hi)
    (h₂ : lo ≤ x₂ ∧ x₂ ≤ hi) (h₃ : lo ≤ x₃ ∧ x₃ ≤ hi) : lo ≤ bspline x₀ x₁ x₂ x₃ s ∧ bspline x₀ x₁ x₂ x₃ s ≤ hi := by
  have hlow := bspline_nonneg hs (sub_nonneg.2 h₀.1) (sub_nonneg.2 h₁.1) (sub_nonneg.2 h₂.1) (sub_nonneg.2 h₃.1)
  have hhigh := bspline_nonneg hs (sub_nonneg.2 h₀.2) (sub_nonneg.2 h₁.2) (sub_nonneg.2 h₂.2) (sub_nonneg.2 h₃.2)
  rw [bspline_sub] at hlow
  rw [bspline_rsub] at hhigh
  exact ⟨sub_nonneg.1 hlow, sub_nonneg.1 hhigh⟩

/-- The derivative is not larger than the largest difference. -/
theorem abs_bsplineVel_le {d₀ d₁ d₂ m : F} (hs : 0 ≤ s ∧ s ≤ 1) (h₀ : |d₀| ≤ m) (h₁ : |d₁| ≤ m) (h₂ : |d₂| ≤ m) :
    |bsplineVel d₀ d₁ d₂ s| ≤ m := by
  rw [abs_le] at h₀ h₁ h₂ ⊢
  have hlow := bsplineVel_nonneg hs (sub_nonneg.2 h₀.1) (sub_nonneg.2 h₁.1) (sub_nonneg.2 h₂.1)
  have hhigh := bsplineVel_nonneg hs (sub_nonneg.2 h₀.2) (sub_nonneg.2 h₁.2) (sub_nonneg.2 h₂.2)
  rw [bsplineVel_sub] at hlow
  rw [bsplineVel_rsub] at hhigh
  exact ⟨sub_nonneg.1 hlow, sub_nonneg.1 hhigh⟩

end Order

end SoemMotion.Lib
