import SoemMotion.CubicRuns

/-!
# The time inside a segment

The end of a segment is recognised by the time coming within half an increment of it.  It does if the end lies so close
to a whole number of increments ahead (`Cubic.EndsOn`), which holds when a point has been taken, and is lost only by a
change of the segment time or of the rate in the middle of a segment.
-/

namespace SoemMotion

/-! ### What is asked of the calls -/

/-- A time or a rate that is set is positive. -/
def CubicCall.Positive : CubicCall ℝ → Prop
  | .setSegmentTime time => 0 < time
  | .setInterpolationRate rate => 0 < rate
  | _ => True

/-- The call changes the segment time or the rate. -/
def CubicCall.isChange {K : Type} : CubicCall K → Bool
  | .setSegmentTime _ | .setInterpolationRate _ => true
  | _ => false

/-- The interpolator that `cubicInterpolate` evaluates: it takes the last point again if it has run out of points. -/
def Cubic.ready {K : Type} [Arith K] (ci : Cubic K) : Cubic K := if ci.needNextPoint then cubicAddPoint ci ci.x3 else ci

/-- The time at which the next `cubicInterpolate` evaluates the segment. -/
def Cubic.evalTime {K : Type} [Arith K] (ci : Cubic K) : K := ci.ready.interpolationTime

/-- A segment of length `time` ends within half an increment of a positive whole number of increments ahead. -/
def Cubic.EndsOn (time increment : ℝ) (ci : Cubic ℝ) : Prop :=
  ∃ n : ℕ, 1 ≤ n ∧ |time - (ci.interpolationTime + n * increment)| < increment / 2

/-- A change is made when the segment is used up, or leaves its end near a whole number of the new increments ahead. -/
def CubicCall.Fits : CubicCall ℝ → Cubic ℝ → Prop
  | .setSegmentTime time, ci => ci.needNextPoint = true ∨ ci.EndsOn time (time / ci.interpolationRate)
  | .setInterpolationRate rate, ci => ci.needNextPoint = true ∨ ci.EndsOn ci.segmentTime (ci.segmentTime / rate)
  | _, _ => True

/-- In all calls that come and change neither the segment time nor the rate, the next point is asked for once enough of
them are `cubicInterpolate`. -/
def Cubic.Finishes (ci : Cubic ℝ) : Prop :=
  ∀ calls : ℕ → CubicCall ℝ, (∀ n, (calls n).isChange = false) → (∀ n, ∃ m, n ≤ m ∧ calls m = .interpolate) →
    ∃ n, (Cubic.states calls ci n).needNextPoint = true

/-! ### Increments -/

/-- The parameters are positive and the increment is that of the rate; only a configured interpolator has taken a
point. -/
structure Cubic.Timed (ci : Cubic ℝ) : Prop where
  time : ci.segmentTimeSet = true → 0 < ci.segmentTime
  rate : ci.interpolationRateSet = true → 0 < ci.interpolationRate
  increment : ci.allSet = true → ci.interpolationIncrement = ci.segmentTime / ci.interpolationRate
  idle : ci.allSet = false → ci.needNextPoint = true
  started : ci.needNextPoint = false → 0 ≤ ci.interpolationTime

section Timed

variable {ci : Cubic ℝ}

theorem cubicInit_timed (ci : Cubic ℝ) : (cubicInit ci).Timed := by
  refine ⟨fun h => ?_, fun h => ?_, fun h => ?_, fun _ => rfl, fun h => ?_⟩
  all_goals cases h

theorem Cubic.Timed.rate_pos (h : ci.Timed) (hset : ci.allSet = true) : (0 : ℝ) < ci.interpolationRate :=
  Int.cast_pos.2 (h.rate (Bool.and_eq_true_iff.1 hset).2)

theorem Cubic.Timed.time_pos (h : ci.Timed) (hset : ci.allSet = true) : 0 < ci.segmentTime :=
  h.time (Bool.and_eq_true_iff.1 hset).1

theorem Cubic.Timed.increment_pos (h : ci.Timed) (hset : ci.allSet = true) : 0 < ci.interpolationIncrement := by
  rw [h.increment hset]
  exact div_pos (h.time_pos hset) (h.rate_pos hset)

theorem Cubic.Timed.set_of_started (h : ci.Timed) (hneed : ci.needNextPoint = false) : ci.allSet = true := by
  by_contra hset
  have := h.idle (Bool.eq_false_iff.2 hset)
  rw [hneed] at this
  cases this

theorem setIncrement_timed (htime : ci.segmentTimeSet = true → 0 < ci.segmentTime)
    (hrate : ci.interpolationRateSet = true → 0 < ci.interpolationRate)
    (hidle : ci.allSet = false → ci.needNextPoint = true)
    (hstarted : ci.needNextPoint = false → 0 ≤ ci.interpolationTime) : ci.setIncrement.Timed := by
  unfold Cubic.setIncrement
  split
  · exact ⟨htime, hrate, fun _ => rfl, hidle, hstarted⟩
  · rename_i hset
    exact ⟨htime, hrate, fun h => absurd h hset, hidle, hstarted⟩

/-- A point is taken: the segment starts anew, with the same parameters. -/
theorem cubicAddPoint_restarts (htakes : (ci.allSet && ci.needNextPoint) = true) (point : ℝ) :
    ∃ c : Cubic ℝ, cubicAddPoint ci point = { c with
      segmentTimeSet := ci.segmentTimeSet, interpolationRateSet := ci.interpolationRateSet
      segmentTime := ci.segmentTime, interpolationRate := ci.interpolationRate
      interpolationIncrement := ci.interpolationIncrement, interpolationTime := 0, needNextPoint := false } := by
  refine ⟨cubicAddPoint ci point, ?_⟩
  unfold cubicAddPoint Cubic.refit Cubic.shift
  rw [if_pos htakes]
  split <;> rfl

theorem cubicAddPoint_timed (h : ci.Timed) (point : ℝ) : (cubicAddPoint ci point).Timed := by
  cases htakes : ci.allSet && ci.needNextPoint with
  | false =>
    unfold cubicAddPoint
    rw [if_neg (by rw [htakes]; exact Bool.false_ne_true)]
    exact h
  | true =>
    obtain ⟨c, hc⟩ := cubicAddPoint_restarts htakes point
    rw [hc]
    refine ⟨h.time, h.rate, h.increment, fun hset => ?_, fun _ => le_refl _⟩
    exact absurd (hset.symm.trans (Bool.and_eq_true_iff.1 htakes).1) Bool.false_ne_true

theorem ready_allSet (ci : Cubic ℝ) : ci.ready.allSet = ci.allSet := by
  unfold Cubic.ready
  split
  · exact cubicAddPoint_allSet ci ci.x3
  · rfl

theorem ready_timed (h : ci.Timed) : ci.ready.Timed := by
  unfold Cubic.ready
  split
  · exact cubicAddPoint_timed h ci.x3
  · exact h

theorem ready_started (hset : ci.allSet = true) : ci.ready.needNextPoint = false := by
  unfold Cubic.ready
  cases hneed : ci.needNextPoint with
  | true => rw [if_pos rfl, cubicAddPoint_needNextPoint, hset, hneed]; rfl
  | false => rw [if_neg Bool.false_ne_true, hneed]

/-- The flag is raised if the time comes near the end of the segment. -/
theorem cubicInterpolate_eq (hset : ci.allSet = true) : (cubicInterpolate ci).1 = { ci.ready with
    interpolationTime := ci.ready.interpolationTime + ci.ready.interpolationIncrement
    needNextPoint := decide (|ci.ready.segmentTime - (ci.ready.interpolationTime + ci.ready.interpolationIncrement)| <
      ci.ready.interpolationIncrement / 2) } := by
  have hneed := ready_started hset
  unfold cubicInterpolate
  rw [if_pos hset]
  unfold Cubic.ready at hneed ⊢
  dsimp only
  rw [fabs_real, hneed]
  have hhalf : ∀ x : ℝ, (0.5 : ℝ) * x = x / 2 := by
    intro x
    norm_num
    ring
  rw [hhalf]
  congr 1

theorem CubicCall.apply_timed {c : CubicCall ℝ} (hc : c.Positive) (h : ci.Timed) : (c.apply ci).Timed := by
  cases c with
  | setSegmentTime time =>
    show (cubicSetSegmentTime ci time).Timed
    unfold cubicSetSegmentTime
    rw [if_neg (not_le.2 hc)]
    refine setIncrement_timed (fun _ => hc) h.rate (fun hset => h.idle ?_) h.started
    have hrate : ci.interpolationRateSet = false := by simpa [Cubic.allSet] using hset
    rw [Cubic.allSet, hrate, Bool.and_false]
  | setInterpolationRate rate =>
    show (cubicSetInterpolationRate ci rate).Timed
    unfold cubicSetInterpolationRate
    rw [if_neg (not_le.2 hc)]
    refine setIncrement_timed h.time (fun _ => hc) (fun hset => h.idle ?_) h.started
    have htime : ci.segmentTimeSet = false := by simpa [Cubic.allSet] using hset
    rw [Cubic.allSet, htime, Bool.false_and]
  | addPoint point => exact cubicAddPoint_timed h point
  | interpolate =>
    show (cubicInterpolate ci).1.Timed
    cases hset : ci.allSet with
    | false =>
      unfold cubicInterpolate
      rw [if_neg (by rw [hset]; exact Bool.false_ne_true)]
      exact h
    | true =>
      have hready := ready_timed h
      rw [cubicInterpolate_eq hset]
      refine ⟨hready.time, hready.rate, hready.increment, fun hno => ?_, fun _ => ?_⟩
      · have hready' : ci.ready.allSet = false := hno
        rw [ready_allSet, hset] at hready'
        cases hready'
      · have hpos := hready.increment_pos ((ready_allSet ci).trans hset)
        exact add_nonneg (hready.started (ready_started hset)) hpos.le
  | drain =>
    refine ⟨h.time, h.rate, h.increment, fun _ => rfl, fun hno => ?_⟩
    cases hno

/-! ### The end of a segment -/

/-- A segment that is not used up ends near a whole number of increments ahead. -/
def Cubic.Ends (ci : Cubic ℝ) : Prop :=
  ci.needNextPoint = false → ci.EndsOn ci.segmentTime ci.interpolationIncrement

theorem Cubic.EndsOn.lt {time increment : ℝ} (h : ci.EndsOn time increment) (hinc : 0 < increment) :
    ci.interpolationTime < time := by
  obtain ⟨n, hn, hnear⟩ := h
  have hone : (1 : ℝ) ≤ n := by exact_mod_cast hn
  have hfar : increment ≤ n * increment := le_mul_of_one_le_left hinc.le hone
  have := (abs_lt.1 hnear).1
  linarith

theorem ready_ends (h : ci.Timed) (hset : ci.allSet = true) (hends : ci.Ends) :
    ci.ready.EndsOn ci.ready.segmentTime ci.ready.interpolationIncrement := by
  unfold Cubic.ready
  cases hneed : ci.needNextPoint with
  | false =>
    rw [if_neg Bool.false_ne_true]
    exact hends hneed
  | true =>
    have htakes : (ci.allSet && ci.needNextPoint) = true := Bool.and_eq_true_iff.2 ⟨hset, hneed⟩
    obtain ⟨c, hc⟩ := cubicAddPoint_restarts htakes ci.x3
    have hrate := h.rate (Bool.and_eq_true_iff.1 hset).2
    have hpos := h.increment_pos hset
    rw [if_pos rfl, hc]
    refine ⟨ci.interpolationRate.toNat, by omega, ?_⟩
    have hcast : ((ci.interpolationRate.toNat : ℕ) : ℝ) = (ci.interpolationRate : ℝ) := by
      have := Int.toNat_of_nonneg hrate.le
      exact_mod_cast this
    have hzero : ci.segmentTime - (0 + (ci.interpolationRate.toNat : ℝ) * ci.interpolationIncrement) = 0 := by
      rw [hcast, h.increment hset, mul_div_cancel₀ _ (h.rate_pos hset).ne']
      ring
    show |ci.segmentTime - (0 + (ci.interpolationRate.toNat : ℝ) * ci.interpolationIncrement)| < _
    rw [hzero, abs_zero]
    exact half_pos hpos

/-- A step of `cubicInterpolate` toward an end that is `n` increments ahead. -/
theorem cubicInterpolate_near (hset : ci.allSet = true) {n : ℕ} (hn : 1 ≤ n)
    (hnear : |ci.ready.segmentTime - (ci.ready.interpolationTime + n * ci.ready.interpolationIncrement)| <
      ci.ready.interpolationIncrement / 2) :
    (cubicInterpolate ci).1.needNextPoint = true ∨ 2 ≤ n ∧
      |(cubicInterpolate ci).1.segmentTime - ((cubicInterpolate ci).1.interpolationTime +
        ((n - 1 : ℕ) : ℝ) * (cubicInterpolate ci).1.interpolationIncrement)| <
        (cubicInterpolate ci).1.interpolationIncrement / 2 := by
  rw [cubicInterpolate_eq hset]
  by_cases hone : n = 1
  · left
    rw [hone, Nat.cast_one, one_mul] at hnear
    exact decide_eq_true hnear
  · right
    refine ⟨by omega, ?_⟩
    have hcast : ((n - 1 : ℕ) : ℝ) = n - 1 := by
      rw [Nat.cast_sub hn, Nat.cast_one]
    have hsum : ci.ready.interpolationTime + ci.ready.interpolationIncrement +
        ((n - 1 : ℕ) : ℝ) * ci.ready.interpolationIncrement =
        ci.ready.interpolationTime + n * ci.ready.interpolationIncrement := by
      rw [hcast]
      ring
    dsimp only
    rw [hsum]
    exact hnear

/-- A positive segment time set in the middle of a segment. -/
theorem cubicSetSegmentTime_started {time : ℝ} (hpos : 0 < time) (h : ci.Timed) (hneed : ci.needNextPoint = false) :
    cubicSetSegmentTime ci time = { ci with
      segmentTime := time, segmentTimeSet := true, interpolationIncrement := time / ci.interpolationRate } := by
  have hset := h.set_of_started hneed
  have hall : ({ ci with segmentTime := time, segmentTimeSet := true } : Cubic ℝ).allSet = true :=
    Bool.and_eq_true_iff.2 ⟨rfl, (Bool.and_eq_true_iff.1 hset).2⟩
  unfold cubicSetSegmentTime Cubic.setIncrement
  rw [if_neg (not_le.2 hpos), if_pos hall]

/-- A positive rate set in the middle of a segment. -/
theorem cubicSetInterpolationRate_started {rate : Int} (hpos : 0 < rate) (h : ci.Timed)
    (hneed : ci.needNextPoint = false) :
    cubicSetInterpolationRate ci rate = { ci with
      interpolationRate := rate, interpolationRateSet := true, interpolationIncrement := ci.segmentTime / rate } := by
  have hset := h.set_of_started hneed
  have hall : ({ ci with interpolationRate := rate, interpolationRateSet := true } : Cubic ℝ).allSet = true :=
    Bool.and_eq_true_iff.2 ⟨(Bool.and_eq_true_iff.1 hset).1, rfl⟩
  unfold cubicSetInterpolationRate Cubic.setIncrement
  rw [if_neg (not_le.2 hpos), if_pos hall]

theorem CubicCall.apply_ends {c : CubicCall ℝ} (hc : c.Positive) (h : ci.Timed) (hfits : c.Fits ci) (hends : ci.Ends) :
    (c.apply ci).Ends := by
  intro hneed
  -- there is something to show only where no point is wanted
  cases c with
  | setSegmentTime time =>
    have hold : ci.needNextPoint = false := (cubicSetSegmentTime_needNextPoint ci time).symm.trans hneed
    have hgrid := hfits.resolve_left (by rw [hold]; exact Bool.false_ne_true)
    show (cubicSetSegmentTime ci time).EndsOn (cubicSetSegmentTime ci time).segmentTime
      (cubicSetSegmentTime ci time).interpolationIncrement
    rw [cubicSetSegmentTime_started hc h hold]
    exact hgrid
  | setInterpolationRate rate =>
    have hold : ci.needNextPoint = false := (cubicSetInterpolationRate_needNextPoint ci rate).symm.trans hneed
    have hgrid := hfits.resolve_left (by rw [hold]; exact Bool.false_ne_true)
    show (cubicSetInterpolationRate ci rate).EndsOn (cubicSetInterpolationRate ci rate).segmentTime
      (cubicSetInterpolationRate ci rate).interpolationIncrement
    rw [cubicSetInterpolationRate_started hc h hold]
    exact hgrid
  | addPoint point =>
    cases htakes : ci.allSet && ci.needNextPoint with
    | false =>
      have hsame : cubicAddPoint ci point = ci := if_neg (by rw [htakes]; exact Bool.false_ne_true)
      show (cubicAddPoint ci point).EndsOn _ _
      have hneed' : (cubicAddPoint ci point).needNextPoint = false := hneed
      rw [hsame] at hneed'
      show (cubicAddPoint ci point).EndsOn (cubicAddPoint ci point).segmentTime
          (cubicAddPoint ci point).interpolationIncrement
      rw [hsame]
      exact hends hneed'
    | true =>
      have hready : (cubicAddPoint ci point).EndsOn (cubicAddPoint ci point).segmentTime
          (cubicAddPoint ci point).interpolationIncrement := by
        obtain ⟨hset, hneed'⟩ := Bool.and_eq_true_iff.1 htakes
        obtain ⟨n, hn, hnear⟩ := ready_ends h hset hends
        obtain ⟨c, hc⟩ := cubicAddPoint_restarts htakes point
        obtain ⟨c', hc'⟩ := cubicAddPoint_restarts htakes ci.x3
        have heq : ci.ready = cubicAddPoint ci ci.x3 := if_pos hneed'
        rw [heq, hc'] at hnear
        rw [hc]
        exact ⟨n, hn, hnear⟩
      exact hready
  | interpolate =>
    cases hset : ci.allSet with
    | false =>
      have hsame : (cubicInterpolate ci).1 = ci := by
        unfold cubicInterpolate
        rw [if_neg (by rw [hset]; exact Bool.false_ne_true)]
      show (cubicInterpolate ci).1.EndsOn (cubicInterpolate ci).1.segmentTime
          (cubicInterpolate ci).1.interpolationIncrement
      have hneed' : (cubicInterpolate ci).1.needNextPoint = false := hneed
      rw [hsame] at hneed' ⊢
      exact hends hneed'
    | true =>
      obtain ⟨n, hn, hnear⟩ := ready_ends h hset hends
      rcases cubicInterpolate_near hset hn hnear with hflag | ⟨htwo, hnear'⟩
      · have hneed' : (cubicInterpolate ci).1.needNextPoint = false := hneed
        rw [hneed'] at hflag
        cases hflag
      · exact ⟨n - 1, by omega, hnear'⟩
  | drain => cases hneed

/-! ### The flag comes up -/

/-- While the flag is down, a call that is not `cubicInterpolate` and changes no parameter leaves everything, or
drains. -/
theorem CubicCall.apply_waits {c : CubicCall ℝ} (hchange : c.isChange = false) (hneed : ci.needNextPoint = false)
    (hno : c ≠ .interpolate) : c.apply ci = ci ∨ (c.apply ci).needNextPoint = true := by
  cases c with
  | setSegmentTime time => cases hchange
  | setInterpolationRate rate => cases hchange
  | addPoint point =>
    left
    have htakes : ¬ (ci.allSet && ci.needNextPoint) = true := by
      rw [hneed, Bool.and_false]
      exact Bool.false_ne_true
    exact if_neg htakes
  | interpolate => exact absurd rfl hno
  | drain => exact Or.inr rfl

/-- Up to the first `cubicInterpolate` the segment waits, unless the flag comes up before. -/
theorem states_wait (calls : ℕ → CubicCall ℝ) (hchange : ∀ n, (calls n).isChange = false)
    (hneed : ci.needNextPoint = false)
    (m : ℕ) (hfirst : ∀ k < m, calls k ≠ .interpolate) :
    Cubic.states calls ci m = ci ∨ ∃ n, (Cubic.states calls ci n).needNextPoint = true := by
  induction m with
  | zero => exact Or.inl rfl
  | succ m ih =>
    rcases ih (fun k hk => hfirst k (by omega)) with hsame | hflag
    · rcases CubicCall.apply_waits (hchange m) hneed (hfirst m (by omega)) with hstay | hup
      · left
        show (calls m).apply (Cubic.states calls ci m) = ci
        rw [hsame, hstay]
      · right
        refine ⟨m + 1, ?_⟩
        show ((calls m).apply (Cubic.states calls ci m)).needNextPoint = true
        rw [hsame]
        exact hup
    · exact Or.inr hflag

theorem states_add (calls : ℕ → CubicCall ℝ) (ci : Cubic ℝ) (m n : ℕ) :
    Cubic.states calls ci (m + n) = Cubic.states (fun k => calls (m + k)) (Cubic.states calls ci m) n := by
  induction n with
  | zero => rfl
  | succ n ih =>
    show (calls (m + n)).apply (Cubic.states calls ci (m + n)) = _
    rw [ih]
    rfl

/-- A segment that ends near `n` increments ahead is used up after at most `n` evaluations. -/
theorem finishes_of_near (n : ℕ) (h : ci.Timed) (hset : ci.allSet = true)
    (hneed : ci.needNextPoint = false) (hn : 1 ≤ n)
    (hnear : |ci.segmentTime - (ci.interpolationTime + n * ci.interpolationIncrement)| <
    ci.interpolationIncrement / 2) :
    ci.Finishes := by
  -- over the increments that are left; `m` is the call that makes the next one
  induction n generalizing ci with
  | zero => omega
  | succ n ih =>
    intro calls hchange hoften
    classical
    have hex : ∃ m, calls m = .interpolate := (hoften 0).imp fun _ hm => hm.2
    let m := Nat.find hex
    have hm : calls m = .interpolate := Nat.find_spec hex
    have hfirst : ∀ k < m, calls k ≠ .interpolate := fun k hk => Nat.find_min hex hk
    rcases states_wait calls hchange hneed m hfirst with hsame | hflag
    · have hready : ci.ready = ci := if_neg (by rw [hneed]; exact Bool.false_ne_true)
      have hstep : Cubic.states calls ci (m + 1) = (cubicInterpolate ci).1 := by
        show (calls m).apply (Cubic.states calls ci m) = _
        rw [hsame, hm]
        rfl
      have hnear' := cubicInterpolate_near hset hn (by rw [hready]; exact hnear)
      cases hdone : (cubicInterpolate ci).1.needNextPoint with
      | true => exact ⟨m + 1, by rw [hstep]; exact hdone⟩
      | false =>
        obtain ⟨htwo, hnear'⟩ := hnear'.resolve_left (by rw [hdone]; exact Bool.false_ne_true)
        have htimed : (cubicInterpolate ci).1.Timed := CubicCall.apply_timed (c := .interpolate) trivial h
        have hrest : (cubicInterpolate ci).1.Finishes :=
          ih htimed ((cubicInterpolate_allSet ci).trans hset) hdone (by omega) hnear'
        obtain ⟨k, hk⟩ := hrest (fun k => calls (m + 1 + k)) (fun k => hchange _) fun k => by
          obtain ⟨j, hj, hcall⟩ := hoften (m + 1 + k)
          exact ⟨j - (m + 1), by omega, by rw [show m + 1 + (j - (m + 1)) = j by omega]; exact hcall⟩
        refine ⟨m + 1 + k, ?_⟩
        rw [states_add, hstep]
        exact hk
    · exact hflag

/-- A segment whose end is missed by every evaluation to come is not used up. -/
theorem Cubic.Finishes.ends (h : ci.Timed) (hfinishes : ci.Finishes) : ci.Ends := by
  intro hneed
  have hset := h.set_of_started hneed
  classical
  have hex := hfinishes (fun _ => .interpolate) (fun _ => rfl) fun n => ⟨n, le_refl n, rfl⟩
  let n := Nat.find hex
  have hn : (Cubic.states (fun _ => .interpolate) ci n).needNextPoint = true := Nat.find_spec hex
  have hdown : ∀ k < n, (Cubic.states (fun _ => .interpolate) ci k).needNextPoint = false :=
    fun k hk => Bool.eq_false_iff.2 (Nat.find_min hex hk)
  -- Until the flag comes up, every evaluation moves the time on by one increment.
  have hsteps : ∀ k ≤ n, (Cubic.states (fun _ => .interpolate) ci k).allSet = true ∧
      (Cubic.states (fun _ => .interpolate) ci k).segmentTime = ci.segmentTime ∧
      (Cubic.states (fun _ => .interpolate) ci k).interpolationIncrement = ci.interpolationIncrement ∧
      (Cubic.states (fun _ => .interpolate) ci k).interpolationTime =
        ci.interpolationTime + k * ci.interpolationIncrement := by
    intro k hk
    induction k with
    | zero => exact ⟨hset, rfl, rfl, by simp [Cubic.states]⟩
    | succ k ih =>
      obtain ⟨hall, htime, hinc, hpos⟩ := ih (by omega)
      have hready : (Cubic.states (fun _ => .interpolate) ci k).ready = Cubic.states (fun _ => .interpolate) ci k :=
        if_neg (by rw [hdown k (by omega)]; exact Bool.false_ne_true)
      have hstep : Cubic.states (fun _ => .interpolate) ci (k + 1) =
          (cubicInterpolate (Cubic.states (fun _ => .interpolate) ci k)).1 := rfl
      rw [hstep]
      refine ⟨(cubicInterpolate_allSet _).trans hall, ?_⟩
      rw [cubicInterpolate_eq hall, hready]
      refine ⟨htime, hinc, ?_⟩
      dsimp only
      rw [hpos, hinc, Nat.cast_succ]
      ring
  have hpositive : 1 ≤ n := by
    by_contra hzero
    have hstart : n = 0 := by omega
    rw [hstart] at hn
    exact absurd (hn.symm.trans hneed) Bool.noConfusion
  obtain ⟨hall, htime, hinc, hpos⟩ := hsteps (n - 1) (by omega)
  have hready : (Cubic.states (fun _ => .interpolate) ci (n - 1)).ready =
      Cubic.states (fun _ => .interpolate) ci (n - 1) :=
    if_neg (by rw [hdown (n - 1) (by omega)]; exact Bool.false_ne_true)
  have hlast : Cubic.states (fun _ => .interpolate) ci n =
      (cubicInterpolate (Cubic.states (fun _ => .interpolate) ci (n - 1))).1 := by
    rw [show n = n - 1 + 1 by omega]
    rfl
  rw [hlast, cubicInterpolate_eq hall, hready] at hn
  have hwindow := of_decide_eq_true hn
  rw [htime, hinc, hpos] at hwindow
  refine ⟨n, hpositive, ?_⟩
  have hcast : (n : ℝ) = ((n - 1 : ℕ) : ℝ) + 1 := by exact_mod_cast (Nat.sub_add_cancel hpositive).symm
  rw [hcast, add_mul, one_mul, ← add_assoc]
  exact hwindow

theorem Cubic.Ends.finishes (h : ci.Timed) (hends : ci.Ends) : ci.Finishes := by
  cases hneed : ci.needNextPoint with
  | true => exact fun _ _ _ => ⟨0, hneed⟩
  | false =>
    obtain ⟨n, hn, hnear⟩ := hends hneed
    exact finishes_of_near n h (h.set_of_started hneed) hneed hn hnear

theorem Cubic.Ends.evalTime_mem (h : ci.Timed) (hset : ci.allSet = true) (hends : ci.Ends) :
    0 ≤ ci.evalTime ∧ ci.evalTime < ci.segmentTime := by
  have hready := ready_timed h
  have hsame : ci.ready.segmentTime = ci.segmentTime := by
    unfold Cubic.ready
    cases hneed : ci.needNextPoint with
    | true =>
      obtain ⟨c, hc⟩ := cubicAddPoint_restarts (Bool.and_eq_true_iff.2 ⟨hset, hneed⟩) ci.x3
      rw [if_pos rfl, hc]
    | false => rw [if_neg Bool.false_ne_true]
  refine ⟨hready.started (ready_started hset), ?_⟩
  rw [← hsame]
  exact (ready_ends h hset hends).lt (hready.increment_pos ((ready_allSet ci).trans hset))

/-- A change in the middle of a segment after which the end is still reached leaves it near the grid of the new
increments. -/
theorem CubicCall.fits_of_ends {c : CubicCall ℝ} (hc : c.Positive) (h : ci.Timed)
    (hends : (c.apply ci).Ends) : c.Fits ci := by
  cases c with
  | setSegmentTime time =>
    cases hneed : ci.needNextPoint with
    | true => exact Or.inl hneed
    | false =>
      right
      have hgrid := hends ((cubicSetSegmentTime_needNextPoint ci time).trans hneed)
      have heq : (CubicCall.setSegmentTime time).apply ci = _ := cubicSetSegmentTime_started hc h hneed
      rw [heq] at hgrid
      exact hgrid
  | setInterpolationRate rate =>
    cases hneed : ci.needNextPoint with
    | true => exact Or.inl hneed
    | false =>
      right
      have hgrid := hends ((cubicSetInterpolationRate_needNextPoint ci rate).trans hneed)
      have heq : (CubicCall.setInterpolationRate rate).apply ci = _ := cubicSetInterpolationRate_started hc h hneed
      rw [heq] at hgrid
      exact hgrid
  | addPoint point => trivial
  | interpolate => trivial
  | drain => trivial

end Timed

/-! ### Runs -/

section Runs

variable {calls : ℕ → CubicCall ℝ} {ci : Cubic ℝ}

theorem states_timed (hpos : ∀ n, (calls n).Positive) (h : ci.Timed) (n : ℕ) : (Cubic.states calls ci n).Timed := by
  induction n with
  | zero => exact h
  | succ n ih => exact CubicCall.apply_timed (hpos n) ih

theorem states_ends (hpos : ∀ n, (calls n).Positive) (h : ci.Timed) (hends : ci.Ends)
    (hfits : ∀ n, (calls n).Fits (Cubic.states calls ci n)) (n : ℕ) : (Cubic.states calls ci n).Ends := by
  induction n with
  | zero => exact hends
  | succ n ih => exact CubicCall.apply_ends (hpos n) (states_timed hpos h n) (hfits n) ih

end Runs

/-- Every evaluation stays inside its segment and every segment is used up, in exactly the runs in which each change of
the segment time or of the rate finds no segment in progress or leaves its end near the grid of the new increments. -/
theorem states_inside_iff (ci : Cubic ℝ) (calls : ℕ → CubicCall ℝ) (hpos : ∀ n, (calls n).Positive) :
    (∀ n, (Cubic.states calls (cubicInit ci) n).allSet = true →
      (0 ≤ (Cubic.states calls (cubicInit ci) n).evalTime ∧
        (Cubic.states calls (cubicInit ci) n).evalTime < (Cubic.states calls (cubicInit ci) n).segmentTime) ∧
      (Cubic.states calls (cubicInit ci) n).Finishes) ↔
    ∀ n, (calls n).Fits (Cubic.states calls (cubicInit ci) n) := by
  have hinit := cubicInit_timed ci
  constructor
  · intro hinside n
    have htimed := states_timed hpos hinit (n + 1)
    refine CubicCall.fits_of_ends (hpos n) (states_timed hpos hinit n) fun hneed => ?_
    exact ((hinside (n + 1) (htimed.set_of_started hneed)).2.ends htimed) hneed
  · intro hfits n hset
    have hstart : (cubicInit ci).Ends := fun hneed => by cases hneed
    have hends := states_ends hpos hinit hstart hfits n
    have htimed := states_timed hpos hinit n
    exact ⟨hends.evalTime_mem htimed hset, hends.finishes htimed⟩

theorem states_inside_iff_stepped :
    (∀ n, (Cubic.states steppedCalls (cubicInit Cubic.zero) n).allSet = true →
      (0 ≤ (Cubic.states steppedCalls (cubicInit Cubic.zero) n).evalTime ∧
        (Cubic.states steppedCalls (cubicInit Cubic.zero) n).evalTime <
          (Cubic.states steppedCalls (cubicInit Cubic.zero) n).segmentTime) ∧
      (Cubic.states steppedCalls (cubicInit Cubic.zero) n).Finishes) ↔
    ∀ n, (steppedCalls n).Fits (Cubic.states steppedCalls (cubicInit Cubic.zero) n) := by
  refine states_inside_iff Cubic.zero steppedCalls fun n => ?_
  unfold steppedCalls
  split <;> norm_num [CubicCall.Positive]

/-- Three quarters of a segment of length `1` are used up when its length is halved. -/
noncomputable def halvedCalls : ℕ → CubicCall ℝ
  | 0 => .setSegmentTime 1
  | 1 => .setInterpolationRate 4
  | 2 => .addPoint 0
  | 3 | 4 | 5 => .interpolate
  | 6 => .setSegmentTime (1 / 2)
  | _ => .interpolate

theorem halvedCalls_positive (n : ℕ) : (halvedCalls n).Positive := by
  unfold halvedCalls
  split <;> norm_num [CubicCall.Positive]

theorem halvedCalls_seven : (Cubic.states halvedCalls (cubicInit Cubic.zero) 7).allSet = true ∧
    (Cubic.states halvedCalls (cubicInit Cubic.zero) 7).evalTime = 3 / 4 ∧
    (Cubic.states halvedCalls (cubicInit Cubic.zero) 7).segmentTime = 1 / 2 := by
  have h₃ : Cubic.states halvedCalls (cubicInit Cubic.zero) 3 = { (Cubic.zero : Cubic ℝ) with
      segmentTimeSet := true, interpolationRateSet := true, segmentTime := 1, interpolationRate := 4
      interpolationIncrement := 1 / 4, filled := true } := by
    norm_num [Cubic.states, halvedCalls, CubicCall.apply, cubicSetSegmentTime, cubicInit, cubicDrain, Cubic.zero,
      Cubic.setIncrement, Cubic.allSet, cubicSetInterpolationRate, cubicAddPoint, Cubic.shift, Cubic.refit,
      wayPoint, velPoint, cubicCoeff]
  have h₆ : Cubic.states halvedCalls (cubicInit Cubic.zero) 6 = { (Cubic.zero : Cubic ℝ) with
      segmentTimeSet := true, interpolationRateSet := true, segmentTime := 1, interpolationRate := 4
      interpolationIncrement := 1 / 4, interpolationTime := 3 / 4, filled := true } := by
    have hlast : Cubic.states halvedCalls (cubicInit Cubic.zero) 6 = (cubicInterpolate (cubicInterpolate
        (cubicInterpolate (Cubic.states halvedCalls (cubicInit Cubic.zero) 3)).1).1).1 := rfl
    rw [hlast, h₃]
    norm_num [cubicInterpolate, Cubic.allSet, Cubic.zero, fabs_real]
  have hlast : Cubic.states halvedCalls (cubicInit Cubic.zero) 7 =
      cubicSetSegmentTime (Cubic.states halvedCalls (cubicInit Cubic.zero) 6) (1 / 2) := rfl
  rw [hlast, h₆]
  norm_num [cubicSetSegmentTime, Cubic.setIncrement, Cubic.allSet, Cubic.evalTime, Cubic.ready, Cubic.zero]

/-- The next evaluation is at `3 / 4`, beyond the end of the halved segment. -/
theorem states_outside : ¬ ∀ calls : ℕ → CubicCall ℝ, (∀ n, (calls n).Positive) →
    ∀ n, (Cubic.states calls (cubicInit Cubic.zero) n).allSet = true →
      (0 ≤ (Cubic.states calls (cubicInit Cubic.zero) n).evalTime ∧
        (Cubic.states calls (cubicInit Cubic.zero) n).evalTime <
        (Cubic.states calls (cubicInit Cubic.zero) n).segmentTime) ∧
      (Cubic.states calls (cubicInit Cubic.zero) n).Finishes := by
  intro hinside
  obtain ⟨hset, htime, hsegment⟩ := halvedCalls_seven
  have hlt := (hinside halvedCalls halvedCalls_positive 7 hset).1.2
  rw [htime, hsegment] at hlt
  norm_num at hlt

end SoemMotion
