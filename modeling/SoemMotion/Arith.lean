import Mathlib.Analysis.Real.Sqrt
import Mathlib.Analysis.SpecialFunctions.Trigonometric.Inverse
import Mathlib.Algebra.Order.Round
import SoemMotion.Lib.Numerals

/-!
# Arithmetic of the controller

The controller computes in `double` and in `int32_t`.  Every definition of the model is generic in the type `K`
of its floating values, and goes through the class `Arith` for their operations and for the conversions between
the two.  Nothing is assumed of `K`, so a theorem about an arbitrary `K` holds in particular for the rounded
arithmetic of the machine; `Arith ℝ` is the exact arithmetic.
-/

namespace SoemMotion

/-- The operations of `double`, the C conversion to an integer, and the reduction of a result to `int32_t`. -/
class Arith (K : Type) extends Zero K, One K, NatCast K, IntCast K, OfScientific K, Add K, Sub K, Mul K, Div K,
    Neg K, LT K, LE K, BEq K where
  decLt (a b : K) : Decidable (a < b)
  decLe (a b : K) : Decidable (a ≤ b)
  sqrt : K → K
  sin : K → K
  cos : K → K
  tan : K → K
  acos : K → K
  pi : K
  isnan : K → Bool
  /-- `(int32_t) x`: truncation towards zero. -/
  trunc : K → Int
  /-- The value an `int32_t` holds after a result has been stored in it. -/
  i32 : Int → Int
  i32_of_range (n : Int) (hmin : -2 ^ 31 ≤ n) (hmax : n ≤ 2 ^ 31 - 1) : i32 n = n

namespace Arith

variable {K : Type} [Arith K]

instance (a b : K) : Decidable (a < b) := decLt a b

instance (a b : K) : Decidable (a ≤ b) := decLe a b

end Arith

/-- The number of axes. -/
instance neZeroThree : NeZero 3 := ⟨by decide⟩

variable {K : Type} [Arith K]

/-- `fmin` of `math.h`: a NaN argument is treated as missing data. -/
def fmin (a b : K) : K := if Arith.isnan b then a else if a < b then a else b

/-- `fmax` of `math.h`. -/
def fmax (a b : K) : K := if Arith.isnan b then a else if b < a then a else b

/-- `fabs` of `math.h`. -/
def fabs (a : K) : K := if a < 0 then -a else a

/-- `saturate` of blendmath.c: `x` within `±max`. -/
def saturate (x max : K) : K := if max < x then max else if x < -max then -max else x

/-- `bisaturate` of blendmath.c: `x` within `[min, max]`. -/
def bisaturate (x max min : K) : K := if max < x then max else if x < min then min else x

/-- `sat_inplace` of blendmath.c: the saturated value, and whether it was changed. -/
def satInplace (x max : K) : K × Bool :=
  if max < x then (max, true) else if x < -max then (-max, true) else (x, false)

/-- Truncation of a real number towards zero. -/
noncomputable def truncReal (x : ℝ) : Int := if 0 ≤ x then ⌊x⌋ else ⌈x⌉

/-- The exact arithmetic: reals for `double`, unbounded integers for `int32_t`. -/
noncomputable instance instArithReal : Arith ℝ where
  beq a b := decide (a = b)
  decLt _ _ := inferInstance
  decLe _ _ := inferInstance
  sqrt := Real.sqrt
  sin := Real.sin
  cos := Real.cos
  tan := Real.tan
  acos := Real.arccos
  pi := Real.pi
  isnan _ := false
  trunc := truncReal
  i32 n := n
  i32_of_range _ _ _ := rfl

/-- The same reals, with integers that wrap around as `int32_t` does. -/
def Wrapped : Type := ℝ

/-- The exact arithmetic as one of `Wrapped`. -/
noncomputable abbrev arithWrappedBase : Arith Wrapped := instArithReal

noncomputable instance instArithWrapped : Arith Wrapped :=
  { arithWrappedBase with
    i32 := fun n => Int.bmod n (2 ^ 32)
    i32_of_range := fun n hmin hmax => Int.bmod_eq_of_le_mul_two (by norm_num at hmin ⊢; omega)
      (by norm_num at hmax ⊢; omega) }

/-- The arithmetics whose integers wrap around as `int32_t` does, whatever their floating values are. -/
class Int32Arith (K : Type) extends Arith K where
  i32_eq (n : Int) : Arith.i32 K n = Int.bmod n (2 ^ 32)

noncomputable instance : Int32Arith Wrapped where
  i32_eq _ := rfl

/-- An `int32_t` changes when it is incremented. -/
theorem i32_succ_ne (K : Type) [Int32Arith K] (n : Int) : Arith.i32 K (n + 1) ≠ n := by
  rw [Int32Arith.i32_eq]
  intro h
  have hdvd := Int.dvd_bmod_sub_self (x := n + 1) (m := 2 ^ 32)
  rw [h] at hdvd
  obtain ⟨k, hk⟩ := hdvd
  norm_num at hk
  omega

/-! ### The exact arithmetic -/

section Real

@[simp] theorem i32_real (n : Int) : Arith.i32 ℝ n = n := rfl

@[simp] theorem isnan_real (x : ℝ) : Arith.isnan x = false := rfl

@[simp] theorem sqrt_real (x : ℝ) : Arith.sqrt x = Real.sqrt x := rfl

@[simp] theorem sin_real (x : ℝ) : Arith.sin x = Real.sin x := rfl

@[simp] theorem cos_real (x : ℝ) : Arith.cos x = Real.cos x := rfl

@[simp] theorem tan_real (x : ℝ) : Arith.tan x = Real.tan x := rfl

@[simp] theorem acos_real (x : ℝ) : Arith.acos x = Real.arccos x := rfl

@[simp] theorem pi_real : (Arith.pi : ℝ) = Real.pi := rfl

@[simp] theorem trunc_real (x : ℝ) : Arith.trunc x = truncReal x := rfl

@[simp] theorem beq_real (a b : ℝ) : (a == b) = decide (a = b) := rfl

theorem fmin_real (a b : ℝ) : fmin a b = min a b := by
  unfold fmin
  by_cases h : a < b
  · simp [h, h.le]
  · simp [h, not_lt.mp h]

theorem fmax_real (a b : ℝ) : fmax a b = max a b := by
  unfold fmax
  by_cases h : b < a
  · simp [h, h.le]
  · simp [h, not_lt.mp h]

theorem fabs_real (a : ℝ) : fabs a = |a| := by
  unfold fabs
  by_cases h : a < 0
  · rw [if_pos h, abs_of_neg h]
  · rw [if_neg h, abs_of_nonneg (not_lt.mp h)]

end Real

end SoemMotion
