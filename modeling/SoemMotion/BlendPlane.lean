import SoemMotion.Axis
import SoemMotion.Blend
import SoemMotion.Lib.Section
import SoemMotion.Vectors

/-!
# The inscribed limit of a blend plane

The bounds of the axes limit a vector of the plane through its components: an axis with the bound `b` and the component
`n` of the normal allows a length of `b / √(1 - n²)`, and one perpendicular to the plane any length.  The guard against
a division by zero replaces `1 - n²` by `1 + n² (1 - n²)`, which only leaves an axis alone that lies in the plane.
-/

namespace SoemMotion

open Lib

/-! ### Axes -/

theorem exists_get (w : Fin 3 → ℝ) : ∃ v : PmCartesian ℝ, v.get = w := by
  refine ⟨⟨w 0, w 1, w 2⟩, ?_⟩
  ext i
  fin_cases i <;> rfl

theorem pmCartCartDot_eq_sum (v w : PmCartesian ℝ) : pmCartCartDot v w = ∑ i, v.get i * w.get i := by
  rw [Fin.sum_univ_three]
  rfl

theorem sum_get_sq (v : PmCartesian ℝ) : ∑ i, v.get i ^ 2 = v.x ^ 2 + v.y ^ 2 + v.z ^ 2 := by
  rw [Fin.sum_univ_three]
  rfl

theorem pmCartMagSq_eq_sum (v : PmCartesian ℝ) : pmCartMagSq v = ∑ i, v.get i ^ 2 := by
  rw [sum_get_sq, sq, sq, sq]
  rfl

theorem pmCartMag_eq_iff (v : PmCartesian ℝ) {d : ℝ} (hd : 0 ≤ d) : pmCartMag v = d ↔ ∑ i, v.get i ^ 2 = d ^ 2 := by
  rw [pmCartMag_real, sum_get_sq, Real.sqrt_eq_iff_eq_sq (by positivity) hd]

/-- Every vector of the length `d` in the plane is within the bounds. -/
def WithinBounds (normal bounds : PmCartesian ℝ) (d : ℝ) : Prop :=
  0 ≤ d ∧ ∀ v : PmCartesian ℝ, pmCartCartDot v normal = 0 → pmCartMag v = d → ∀ i, |v.get i| ≤ bounds.get i

theorem withinBounds_iff_inscribed (normal bounds : PmCartesian ℝ) (d : ℝ) :
    WithinBounds normal bounds d ↔ Inscribed normal.get bounds.get d := by
  constructor
  · rintro ⟨hd, h⟩
    refine ⟨hd, fun w hw hlen => ?_⟩
    obtain ⟨v, rfl⟩ := exists_get w
    exact h v (by rw [pmCartCartDot_eq_sum, hw]) ((pmCartMag_eq_iff v hd).2 hlen)
  · rintro ⟨hd, h⟩
    refine ⟨hd, fun v hv hlen => ?_⟩
    exact h v.get (by rw [← pmCartCartDot_eq_sum, hv]) ((pmCartMag_eq_iff v hd).1 hlen)

/-! ### The computed value -/

/-- What the guard makes of the sine of the angle between an axis and the normal. -/
noncomputable def guardedScale (n : ℝ) : ℝ := √(1 + n ^ 2 * (1 - n ^ 2))

/-- The projection of an axis onto the plane, after the guard. -/
theorem guarded_sq {n b c : ℝ} (hunit : n ^ 2 + b ^ 2 + c ^ 2 = 1) :
    max |n * -n + 1| 1 ^ 2 + |b * -n| ^ 2 + |c * -n| ^ 2 = 1 + n ^ 2 * (1 - n ^ 2) := by
  have hmax : max |n * -n + 1| 1 = 1 := by
    refine max_eq_right (abs_le.2 ⟨?_, ?_⟩)
    · nlinarith [sq_nonneg b, sq_nonneg c]
    · nlinarith [sq_nonneg n]
  have hone : 1 - n ^ 2 = b ^ 2 + c ^ 2 := by linarith
  rw [hmax, sq_abs, sq_abs, hone]
  ring

theorem least_of_three (e : Fin 3 → ℝ) :
    IsLeast (Set.range e) (min (min (min (max (max (e 0) (e 1)) (e 2)) (e 0)) (e 1)) (e 2)) := by
  have hfirst : min (max (max (e 0) (e 1)) (e 2)) (e 0) = e 0 :=
    min_eq_right ((le_max_left _ _).trans (le_max_left _ _))
  rw [hfirst]
  constructor
  · rcases min_choice (min (e 0) (e 1)) (e 2) with h | h
    · rcases min_choice (e 0) (e 1) with h' | h'
      · exact ⟨0, by rw [h, h']⟩
      · exact ⟨1, by rw [h, h']⟩
    · exact ⟨2, h.symm⟩
  · rintro _ ⟨i, rfl⟩
    fin_cases i
    · exact (min_le_left _ _).trans (min_le_left _ _)
    · exact (min_le_left _ _).trans (min_le_right _ _)
    · exact min_le_right _ _

/-- The value is the least of the extents of the axes. -/
theorem calculateInscribedDiameter_eq {normal bounds : PmCartesian ℝ} (hunit : pmCartMagSq normal = 1)
    (hbounds : ∀ i, 0 < bounds.get i) : ∃ d, calculateInscribedDiameter normal bounds = some d ∧
      IsLeast (Set.range fun i => bounds.get i / guardedScale (normal.get i)) d := by
  have hsum : normal.x ^ 2 + normal.y ^ 2 + normal.z ^ 2 = 1 := by rw [← sum_get_sq, ← pmCartMagSq_eq_sum, hunit]
  have hx : √(max |normal.x * -normal.x + 1| 1 ^ 2 + |normal.y * -normal.x| ^ 2 + |normal.z * -normal.x| ^ 2) =
      guardedScale normal.x := congrArg Real.sqrt (guarded_sq hsum)
  have hy : √(|normal.x * -normal.y| ^ 2 + max |normal.y * -normal.y + 1| 1 ^ 2 + |normal.z * -normal.y| ^ 2) =
      guardedScale normal.y := by
    rw [add_comm (|normal.x * -normal.y| ^ 2)]
    exact congrArg Real.sqrt (guarded_sq (by linarith))
  have hz : √(|normal.x * -normal.z| ^ 2 + |normal.y * -normal.z| ^ 2 + max |normal.z * -normal.z + 1| 1 ^ 2) =
      guardedScale normal.z := by
    rw [add_comm, ← add_assoc]
    exact congrArg Real.sqrt (guarded_sq (by linarith))
  have hactive (b : ℝ) (hb : 0 < b) : (b != 0) = true := by simp [bne, hb.ne']
  have hnone : ¬ √(1 : ℝ) < |1 - 1| := by simp
  refine ⟨_, ?_, least_of_three fun i => bounds.get i / guardedScale (normal.get i)⟩
  unfold calculateInscribedDiameter
  simp only [hunit, pmCartAbs, pmCartScalMult, tpPosEpsilon, fabs_real, fmax_real, fmin_real,
    pmCartMag_real, pmSqrt_real, hnone, hx, hy, hz, hactive bounds.x (hbounds 0), hactive bounds.y (hbounds 1),
    hactive bounds.z (hbounds 2), if_true, if_false]
  rfl

/-! ### When the value is the limit -/

/-- An axis that lies in the plane has the least extent. -/
def PlaneAxisBinds (normal bounds : PmCartesian ℝ) : Prop :=
  ∃ j, normal.get j = 0 ∧
    ∀ i, bounds.get j ^ 2 * (1 + normal.get i ^ 2 * (1 - normal.get i ^ 2)) ≤ bounds.get i ^ 2

section Limit

variable {normal bounds : PmCartesian ℝ} {d : ℝ}

theorem get_sq_le_one (hunit : pmCartMagSq normal = 1) (i : Fin 3) : normal.get i ^ 2 ≤ 1 := by
  rw [← hunit, pmCartMagSq_eq_sum]
  exact Finset.single_le_sum (fun j _ => sq_nonneg (normal.get j)) (Finset.mem_univ i)

theorem guardedScale_sq (hunit : pmCartMagSq normal = 1) (i : Fin 3) :
    guardedScale (normal.get i) ^ 2 = 1 + normal.get i ^ 2 * (1 - normal.get i ^ 2) :=
  Real.sq_sqrt (add_nonneg zero_le_one (mul_nonneg (sq_nonneg _) (sub_nonneg.2 (get_sq_le_one hunit i))))

theorem guardedScale_pos (hunit : pmCartMagSq normal = 1) (i : Fin 3) : 0 < guardedScale (normal.get i) :=
  Real.sqrt_pos.2 (add_pos_of_pos_of_nonneg one_pos
    (mul_nonneg (sq_nonneg _) (sub_nonneg.2 (get_sq_le_one hunit i))))

/-- No axis has a smaller extent than the value. -/
theorem sq_mul_le_of_least (hunit : pmCartMagSq normal = 1) (hbounds : ∀ i, 0 < bounds.get i)
    (hd : IsLeast (Set.range fun i => bounds.get i / guardedScale (normal.get i)) d) (i : Fin 3) :
    0 < d ∧ d ^ 2 * (1 + normal.get i ^ 2 * (1 - normal.get i ^ 2)) ≤ bounds.get i ^ 2 := by
  have hpos : 0 < d := by
    obtain ⟨j, hj⟩ := hd.1
    rw [← hj]
    exact div_pos (hbounds j) (guardedScale_pos hunit j)
  have hle : d * guardedScale (normal.get i) ≤ bounds.get i :=
    (le_div_iff₀ (guardedScale_pos hunit i)).1 (hd.2 ⟨i, rfl⟩)
  refine ⟨hpos, ?_⟩
  rw [← guardedScale_sq hunit, ← mul_pow]
  exact pow_le_pow_left₀ (mul_nonneg hpos.le (guardedScale_pos hunit i).le) hle 2

/-- The guard only ever lowers the value. -/
theorem withinBounds_of_least (hunit : pmCartMagSq normal = 1) (hbounds : ∀ i, 0 < bounds.get i)
    (hd : IsLeast (Set.range fun i => bounds.get i / guardedScale (normal.get i)) d) :
    WithinBounds normal bounds d := by
  rw [withinBounds_iff_inscribed, inscribed_iff (by rw [← pmCartMagSq_eq_sum, hunit]) hbounds]
  refine ⟨(sq_mul_le_of_least hunit hbounds hd 0).1.le, fun i => ?_⟩
  obtain ⟨-, hle⟩ := sq_mul_le_of_least hunit hbounds hd i
  nlinarith [get_sq_le_one hunit i, sq_nonneg (normal.get i), sq_nonneg d,
    mul_nonneg (sq_nonneg d) (mul_nonneg (sq_nonneg (normal.get i)) (sub_nonneg.2 (get_sq_le_one hunit i)))]

/-- An axis that binds without the help of the guard lies in the plane. -/
theorem planeAxisBinds_of_tight (hunit : pmCartMagSq normal = 1) (hbounds : ∀ i, 0 < bounds.get i)
    (hd : IsLeast (Set.range fun i => bounds.get i / guardedScale (normal.get i)) d) {j : Fin 3}
    (hj : bounds.get j ^ 2 ≤ d ^ 2 * (1 - normal.get j ^ 2)) : PlaneAxisBinds normal bounds := by
  obtain ⟨hpos, hle⟩ := sq_mul_le_of_least hunit hbounds hd j
  have hzero : normal.get j = 0 := by
    have hprod : d ^ 2 * (normal.get j ^ 2 * (2 - normal.get j ^ 2)) ≤ 0 := by linarith
    have hsq : normal.get j ^ 2 = 0 := by
      by_contra hne
      have hn : 0 < normal.get j ^ 2 := lt_of_le_of_ne (sq_nonneg _) (Ne.symm hne)
      have htwo : 0 < 2 - normal.get j ^ 2 := by linarith [get_sq_le_one hunit j]
      exact absurd hprod (not_le.2 (mul_pos (pow_pos hpos 2) (mul_pos hn htwo)))
    exact pow_eq_zero_iff two_ne_zero |>.1 hsq
  refine ⟨j, hzero, fun i => ?_⟩
  rw [hzero] at hj
  obtain ⟨-, hi⟩ := sq_mul_le_of_least hunit hbounds hd i
  refine le_trans (mul_le_mul_of_nonneg_right ?_ ?_) hi
  · linarith
  · rw [← guardedScale_sq hunit]
    exact sq_nonneg _

theorem greatest_iff (hunit : pmCartMagSq normal = 1) (hbounds : ∀ i, 0 < bounds.get i)
    (hd : IsLeast (Set.range fun i => bounds.get i / guardedScale (normal.get i)) d) :
    IsGreatest {e | WithinBounds normal bounds e} d ↔ PlaneAxisBinds normal bounds := by
  have hn : ∑ i, normal.get i ^ 2 = 1 := by rw [← pmCartMagSq_eq_sum, hunit]
  constructor
  · rintro ⟨-, hmax⟩
    by_contra hnot
    obtain ⟨e, he, hin⟩ := exists_inscribed_gt hn hbounds (sq_mul_le_of_least hunit hbounds hd 0).1.le fun j =>
      not_le.1 fun hj => hnot (planeAxisBinds_of_tight hunit hbounds hd hj)
    exact absurd (hmax ((withinBounds_iff_inscribed normal bounds e).2 hin)) (not_le.2 he)
  · rintro ⟨j, hzero, hleast⟩
    refine ⟨withinBounds_of_least hunit hbounds hd, fun e he => ?_⟩
    replace he : WithinBounds normal bounds e := he
    rw [withinBounds_iff_inscribed, inscribed_iff hn hbounds] at he
    have hej : e ≤ bounds.get j := by
      have hsq := he.2 j
      rw [hzero] at hsq
      exact le_of_sq_le_sq (by linarith) (hbounds j).le
    -- the value is the extent of some axis, which is no less than the bound of this one
    obtain ⟨i, rfl⟩ := hd.1
    refine hej.trans ((le_div_iff₀ (guardedScale_pos hunit i)).2 ?_)
    refine le_of_sq_le_sq ?_ (hbounds i).le
    rw [mul_pow, guardedScale_sq hunit]
    exact hleast i

end Limit

/-- The computed value is the largest length all directions of the plane can have. -/
theorem calculateInscribedDiameter_iff (normal bounds : PmCartesian ℝ) (hunit : pmCartMagSq normal = 1)
    (hbounds : ∀ i, 0 < bounds.get i) :
    (∃ d, calculateInscribedDiameter normal bounds = some d ∧ IsGreatest {e | WithinBounds normal bounds e} d) ↔
      PlaneAxisBinds normal bounds := by
  obtain ⟨d, heq, hd⟩ := calculateInscribedDiameter_eq hunit hbounds
  rw [← greatest_iff hunit hbounds hd, heq]
  constructor
  · rintro ⟨e, he, hgreatest⟩
    rw [Option.some.inj he]
    exact hgreatest
  · intro h
    exact ⟨d, rfl, h⟩

theorem calculateInscribedDiameter_iff_cube : (∃ d, calculateInscribedDiameter ⟨0, 0, 1⟩ ⟨1, 1, 1⟩ = some d ∧
    IsGreatest {e | WithinBounds ⟨0, 0, 1⟩ ⟨1, 1, 1⟩ e} d) ↔ PlaneAxisBinds ⟨0, 0, 1⟩ ⟨1, 1, 1⟩ := by
  refine calculateInscribedDiameter_iff ⟨0, 0, 1⟩ ⟨1, 1, 1⟩ ?_ fun i => ?_
  · simp [pmCartMagSq, pmSq]
  · fin_cases i <;> exact one_pos

/-- The bound of an axis perpendicular to the plane restricts it. -/
theorem calculateInscribedDiameter_perpendicular : ¬ ∃ d,
    calculateInscribedDiameter ⟨0, 0, 1⟩ ⟨2, 2, 1⟩ = some d ∧ IsGreatest
      {e | WithinBounds ⟨0, 0, 1⟩ ⟨2, 2, 1⟩ e} d := by
  have hunit : pmCartMagSq (⟨0, 0, 1⟩ : PmCartesian ℝ) = 1 := by simp [pmCartMagSq, pmSq]
  have hbounds : ∀ i, 0 < (⟨2, 2, 1⟩ : PmCartesian ℝ).get i := by
    intro i
    fin_cases i <;> simp [PmCartesian.get]
  obtain ⟨d, heq, hd⟩ := calculateInscribedDiameter_eq hunit hbounds
  rintro ⟨e, he, hgreatest⟩
  rw [heq] at he
  rw [← Option.some.inj he] at hgreatest
  obtain ⟨j, hzero, hleast⟩ := (greatest_iff hunit hbounds hd).1 hgreatest
  have hz := hleast ⟨2, by decide⟩
  fin_cases j
  · have hlarge : (2 : ℝ) ^ 2 * (1 + 1 ^ 2 * (1 - 1 ^ 2)) ≤ 1 ^ 2 := hz
    linarith
  · have hlarge : (2 : ℝ) ^ 2 * (1 + 1 ^ 2 * (1 - 1 ^ 2)) ≤ 1 ^ 2 := hz
    linarith
  · exact one_ne_zero hzero

end SoemMotion
