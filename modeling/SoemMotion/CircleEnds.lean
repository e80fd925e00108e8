import SoemMotion.CircleInit
import SoemMotion.PathFollow

/-!
# The ends of a circular segment

A circular move that the planner accepts starts at its goal and ends where it was commanded, and the goal moves there.
Its rotary and auxiliary parts are lines, and a line that is too short starts at its end.
-/

namespace SoemMotion

open Real

/-! ### Accepted segments -/

section Accepted

variable {K : Type} [Arith K]

/-- A segment that is accepted is the last one of the queue. -/
theorem tpQueueSegment_accepted {env : TpEnv K} {tp : Tp K} {seg : Tc K} (hw : tp.queue.WF)
    (hok : (tpQueueSegment env tp seg).2 = .ok) : ∃ tc, tcqLast (tpQueueSegment env tp seg).1.queue = some tc ∧
      tc.coords = seg.coords ∧ tc.target = seg.target ∧
      (tpQueueSegment env tp seg).1.goalPos = tcGetEndpoint tc tp.goalPos := by
  obtain ⟨q, hjoin, hq, hsame⟩ := tpJoinLast_spec tp seg
  cases hput : tcqPut q { (tpJoinLast tp seg).2 with id := tp.nextId } with
  | none =>
    rw [tpQueueSegment_refused env hjoin hput] at hok
    cases hok
  | some q₁ =>
    obtain ⟨q₂, h, hq₂⟩ := tpRunOptimization_spec env (tp.append { (tpJoinLast tp seg).2 with id := tp.nextId } q₁)
    have hlast : SameNext (tcqLast q₁) (tcqLast q₂) := hq₂.last
    rw [tcqPut_last (hq.wf hw) hput] at hlast
    rw [tpQueueSegment_appended env hjoin hput]
    dsimp only
    rw [h]
    dsimp only [Tp.append]
    generalize tcqLast q₂ = last at hlast
    cases hlast with
    | @some _ tc hlast =>
      refine ⟨tc, rfl, hlast.coords.trans hsame.coords, hlast.target.trans hsame.target, ?_⟩
      rw [hlast.endpoint]

end Accepted

/-! ### Parts -/

/-- Where a line starts: at its end, if it is taken for a point. -/
noncomputable def partStart (p q : PmCartesian ℝ) : PmCartesian ℝ :=
  if pmCartInfNorm (pmCartCartSub q p) < cartFuzz then q else p

/-- Where a circular segment from `start` to `stop` starts. -/
noncomputable def circleStart (start stop : EmcPose ℝ) : EmcPose ℝ :=
  pmCartesianToEmcPose start.tran (partStart (emcPoseAbc start) (emcPoseAbc stop))
    (partStart (emcPoseUvw start) (emcPoseUvw stop))

theorem pmCartLinePoint_start (p q : PmCartesian ℝ) (target : ℝ) :
    pmCartLinePoint (pmCartLineInit p q) (0 * (pmCartLineInit p q).tmag / target) = partStart p q := by
  have hzero := pmCartLineInit_tmagZero p q
  unfold partStart
  split
  · rename_i h
    rw [decide_eq_true h] at hzero
    unfold pmCartLinePoint
    rw [if_pos hzero, pmCartLineInit_end]
  · rename_i h
    rw [decide_eq_false h] at hzero
    rw [pmCartLinePoint_between (.inr hzero), zero_div, pointBetween_zero]

theorem pmCartLinePoint_end (p q : PmCartesian ℝ) {target : ℝ} (ht : target ≠ 0) :
    pmCartLinePoint (pmCartLineInit p q) (target * (pmCartLineInit p q).tmag / target) = q := by
  cases hzero : (pmCartLineInit p q).tmagZero with
  | true =>
    unfold pmCartLinePoint
    rw [if_pos hzero, pmCartLineInit_end]
  | false => rw [pmCartLinePoint_between (.inr hzero), div_self ht, pointBetween_one]

/-! ### The segment -/

/-- The segment of a circular move with its length. -/
structure Tc.OnCircle (start stop : EmcPose ℝ) (center normal : PmCartesian ℝ) (turn : Int) (tc : Tc ℝ) : Prop where
  coords : tc.coords = .circle
    { xyz := pmCircleInit start.tran stop.tran center normal turn
      abc := pmCartLineInit (emcPoseAbc start) (emcPoseAbc stop)
      uvw := pmCartLineInit (emcPoseUvw start) (emcPoseUvw stop)
      fit := spiralFit (pmCircleInit start.tran stop.tran center normal turn) }
  target : tc.target = helicalLength (pmCircleInit start.tran stop.tran center normal turn)

section Segment

variable {start stop : EmcPose ℝ} {center normal : PmCartesian ℝ} {turn : Int} {tc : Tc ℝ}

theorem Tc.OnCircle.position_start (h : tc.OnCircle start stop center normal turn)
    (hmove : CircleMove start.tran stop.tran center normal turn) : tcGetPosReal tc 0 =
    some (circleStart start stop) := by
  have hangle := (fitSound hmove.proper).start
  unfold tcGetPosReal
  rw [h.coords]
  dsimp only
  rw [hangle, Option.map_some, hmove.point_start, pmCartLinePoint_start, pmCartLinePoint_start]
  rfl

theorem Tc.OnCircle.position_end (h : tc.OnCircle start stop center normal turn)
    (hmove : CircleMove start.tran stop.tran center normal turn) : tcGetPosReal tc tc.target = some stop := by
  have hangle := (fitSound hmove.proper).stop
  have hne : tc.target ≠ 0 := by
    rw [h.target]
    exact (helicalLength_pos hmove.proper).ne'
  unfold tcGetPosReal
  rw [h.coords]
  dsimp only
  rw [pmCartLinePoint_end _ _ hne, pmCartLinePoint_end _ _ hne, h.target, hangle, Option.map_some, hmove.point_stop]
  rfl

/-- The segment is refused if its fit fails. -/
theorem pmCircle9Init_eq (start stop : EmcPose ℝ) (center normal : PmCartesian ℝ) (turn : Int) :
    pmCircle9Init start stop center normal turn =
      if (findSpiralArcLengthFit (pmCircleInit start.tran stop.tran center normal turn)).2 then
        some
          { xyz := pmCircleInit start.tran stop.tran center normal turn
            abc := pmCartLineInit (emcPoseAbc start) (emcPoseAbc stop)
            uvw := pmCartLineInit (emcPoseUvw start) (emcPoseUvw stop)
            fit := spiralFit (pmCircleInit start.tran stop.tran center normal turn) }
      else none := rfl

end Segment

/-- The segment that `tpAddCircle` hands to the queue. -/
theorem tpAddCircle_segment (env : TpEnv ℝ) {tp : Tp ℝ} {stop : EmcPose ℝ} {center normal : PmCartesian ℝ} {turn : Int}
    (hmove : CircleMove tp.goalPos.tran stop.tran center normal turn) (canonMotionType : Int) (vel iniMaxvel acc : ℝ)
    (enables : UInt8) (atspeed : Bool) :
    (tp.aborting = true ∨ helicalLength (pmCircleInit tp.goalPos.tran stop.tran center normal turn) < 1) ∧
      (tpAddCircle env tp stop center normal turn canonMotionType vel iniMaxvel acc enables atspeed).2 ≠ .ok ∨
    ∃ seg : Tc ℝ, seg.OnCircle tp.goalPos stop center normal turn ∧
      tpAddCircle env tp stop center normal turn canonMotionType vel iniMaxvel acc enables atspeed =
        tpQueueSegment env tp seg := by
  unfold tpAddCircle
  rw [pmCircle9Init_eq, findSpiralArcLengthFit_accepts hmove.proper, if_pos rfl]
  by_cases habort : tp.aborting = true
  · rw [if_pos habort]
    exact .inl ⟨.inl habort, nofun⟩
  · rw [if_neg habort]
    dsimp only
    split
    · rename_i hshort
      exact .inl ⟨.inr hshort, nofun⟩
    · exact .inr ⟨_, ⟨rfl, rfl⟩, rfl⟩

/-! ### Moves that are accepted -/

theorem tpQueueSegment_empty {K : Type} [Arith K] (env : TpEnv K) {tp : Tp K} (seg : Tc K) (hw : tp.queue.WF)
    (hlen : tp.queue.len = 0) : (tpQueueSegment env tp seg).2 = .ok := by
  have hnone : tcqLast tp.queue = none := by
    unfold tcqLast
    rw [if_pos hlen]
  obtain ⟨q, hput, -, -⟩ := tcqPut_empty hw hlen { seg with id := tp.nextId }
  unfold tpQueueSegment
  rw [tpJoinLast_none hnone]
  dsimp only
  rw [tpAddSegmentToQueue_put hput]

/-- The fitted length is no less than the one at the inner radius. -/
theorem helicalLength_ge {circle : PmCircle ℝ} (h : circle.Proper) :
    innerRadius circle * circle.angle ≤ helicalLength circle := by
  have hb : innerRadius circle ≤ (spiralFit circle).b1 := by
    rw [spiralFit_eq]
    refine Real.le_sqrt_of_sq_le ?_
    rw [mul_zero, add_zero]
    exact le_add_of_nonneg_right (sq_nonneg _)
  have htotal : (spiralFit circle).b1 * circle.angle ≤ (spiralFit circle).totalPlanarLength := by
    rw [totalPlanarLength_eq]
    exact le_add_of_nonneg_left (mul_nonneg (b0_nonneg h) (sq_nonneg _))
  calc innerRadius circle * circle.angle
      ≤ (spiralFit circle).b1 * circle.angle := mul_le_mul_of_nonneg_right hb h.angle.le
    _ ≤ (spiralFit circle).totalPlanarLength := htotal
    _ ≤ helicalLength circle := by
        rw [helicalLength_eq]
        exact Real.le_sqrt_of_sq_le (le_add_of_nonneg_right (sq_nonneg _))

/-- A circle that does not shrink is no shorter than the arc it sweeps at its first radius. -/
theorem CircleMove.length_ge {start stop center normal : PmCartesian ℝ} {turn : Int}
    (h : CircleMove start stop center normal turn)
    (hgrow : pmCartMag (startRadius start center normal) ≤ pmCartMag (endRadius start stop center normal turn)) :
    pmCartMag (startRadius start center normal) * singleAngle start stop center normal turn ≤
      helicalLength (pmCircleInit start stop center normal turn) := by
  have hspiral := pmCircleInit_spiral start stop center normal turn
  have hangle : singleAngle start stop center normal turn ≤ (pmCircleInit start stop center normal turn).angle := by
    obtain ⟨k, hk⟩ := h.angle_eq
    have := mul_nonneg (Nat.cast_nonneg k : (0 : ℝ) ≤ k) two_pi_pos.le
    linarith
  have hlong := helicalLength_ge h.proper
  rw [innerRadius, if_neg (by rw [pmCircleInit_radius] at hspiral; linarith), pmCircleInit_radius] at hlong
  exact (mul_le_mul_of_nonneg_left hangle h.start_pos.le).trans hlong

/-- The planner at rest at the origin accepts a circle of at least the length one. -/
theorem CircleMove.accepted {stop : EmcPose ℝ} {center normal : PmCartesian ℝ}
    (h : CircleMove ⟨0, 0, 0⟩ stop.tran center normal 0)
    (hlong : 1 ≤ helicalLength (pmCircleInit ⟨0, 0, 0⟩ stop.tran center normal 0)) :
    CircleMove parkedTp.goalPos.tran stop.tran center normal 0 ∧
      (tpAddCircle plainEnv parkedTp stop center normal 0 1 1 1 1 0 false).2 = .ok := by
  obtain ⟨-, -, hgoal, -, -, hworks⟩ := parkedTp_settings
  have hmove : CircleMove parkedTp.goalPos.tran stop.tran center normal 0 := by
    rw [hgoal]
    exact h
  refine ⟨hmove, ?_⟩
  rcases tpAddCircle_segment plainEnv hmove 1 1 1 1 0 false with ⟨habort | hshort, -⟩ | ⟨seg, -, heq⟩
  · rw [hworks] at habort
    cases habort
  · rw [hgoal] at hshort
    exact absurd hlong (not_le.2 hshort)
  · rw [heq]
    exact tpQueueSegment_empty plainEnv seg parkedTp_parked.wf parkedTp_parked.empty

/-- From the origin around a centre at the distance one. -/
theorem startRadius_unit : startRadius ⟨0, 0, 0⟩ ⟨1, 0, 0⟩ ⟨0, 0, 1⟩ = ⟨-1, 0, 0⟩ := by
  simp [startRadius, circleCenter, pmCartCartProj, pmCartCartDot, pmCartCartSub, pmCartCartAdd, pmCartScalMult]

theorem startRadius_unit_mag : pmCartMag (startRadius ⟨0, 0, 0⟩ ⟨1, 0, 0⟩ ⟨0, 0, 1⟩) = 1 := by
  rw [startRadius_unit, pmCartMag_real]
  norm_num

/-- A move from the origin once around the centre. -/
theorem fullTurn_move : CircleMove ⟨0, 0, 0⟩ ⟨0, 0, 0⟩ ⟨1, 0, 0⟩ ⟨0, 0, 1⟩ 0 := by
  have hnormal : (⟨0, 0, 1⟩ : PmCartesian ℝ) ≠ ⟨0, 0, 0⟩ := by simp
  have hpos : 0 < pmCartMag (startRadius ⟨0, 0, 0⟩ ⟨1, 0, 0⟩ ⟨0, 0, 1⟩) := by
    rw [startRadius_unit_mag]
    exact one_pos
  exact ⟨hnormal, hpos, by rw [endRadius_eq_start hnormal rfl]; exact hpos, .inl rfl⟩

theorem fullTurn_accepted {stop : EmcPose ℝ} (hstop : stop.tran = ⟨0, 0, 0⟩) :
    CircleMove parkedTp.goalPos.tran stop.tran ⟨1, 0, 0⟩ ⟨0, 0, 1⟩ 0 ∧
      (tpAddCircle plainEnv parkedTp stop ⟨1, 0, 0⟩ ⟨0, 0, 1⟩ 0 1 1 1 1 0 false).2 = .ok := by
  have hmove : CircleMove ⟨0, 0, 0⟩ stop.tran ⟨1, 0, 0⟩ ⟨0, 0, 1⟩ 0 := hstop ▸ fullTurn_move
  have hsame : pmCartPlaneProj ⟨0, 0, 0⟩ ⟨0, 0, 1⟩ = pmCartPlaneProj stop.tran ⟨0, 0, 1⟩ := by rw [hstop]
  refine hmove.accepted ?_
  have hlong := hmove.length_ge (by rw [endRadius_eq_start hmove.normal_ne hsame])
  rw [startRadius_unit_mag, one_mul, singleAngle_same hsame] at hlong
  linarith [two_le_pi]

/-- Half a turn that goes from the radius one to the radius two, rises by one and turns the first rotary axis. -/
noncomputable def spiralStop : EmcPose ℝ := { (emcPoseZero : EmcPose ℝ) with tran := ⟨3, 0, 1⟩, a := 90 }

theorem spiralStop_endRadius : endRadius ⟨0, 0, 0⟩ ⟨3, 0, 1⟩ ⟨1, 0, 0⟩ ⟨0, 0, 1⟩ 0 = ⟨2, 0, 0⟩ := by
  have hunit : pmCartMag (⟨0, 0, 1⟩ : PmCartesian ℝ) = 1 := by
    rw [pmCartMag_real]
    norm_num
  have hnormal : circleNormal ⟨0, 0, 1⟩ 0 = ⟨0, 0, 1⟩ := by
    rw [circleNormal, if_neg (lt_irrefl 0), pmCartUnit_of_mag hunit one_ne_zero]
    simp [pmCartScalMult]
  rw [endRadius, hnormal]
  simp [circleCenter, pmCartPlaneProj, pmCartCartProj, pmCartCartDot, pmCartCartSub, pmCartCartAdd, pmCartScalMult]
  norm_num

theorem spiralStop_radius : pmCartMag (endRadius ⟨0, 0, 0⟩ ⟨3, 0, 1⟩ ⟨1, 0, 0⟩ ⟨0, 0, 1⟩ 0) = 2 := by
  rw [spiralStop_endRadius]
  exact pmCartMag_eq_of_dot two_pos.le (by norm_num [pmCartCartDot])

/-- The half turn leads from the first radius to the opposite one, twice as long. -/
theorem spiralStop_swept : endRadius ⟨0, 0, 0⟩ ⟨3, 0, 1⟩ ⟨1, 0, 0⟩ ⟨0, 0, 1⟩ 0 =
    pmCartScalMult (planeVector (startRadius ⟨0, 0, 0⟩ ⟨1, 0, 0⟩ ⟨0, 0, 1⟩) (circleNormal ⟨0, 0, 1⟩ 0) π)
      (pmCartMag (endRadius ⟨0, 0, 0⟩ ⟨3, 0, 1⟩ ⟨1, 0, 0⟩ ⟨0, 0, 1⟩ 0) /
        pmCartMag (startRadius ⟨0, 0, 0⟩ ⟨1, 0, 0⟩ ⟨0, 0, 1⟩)) := by
  rw [spiralStop_radius, spiralStop_endRadius, startRadius_unit_mag, startRadius_unit]
  simp [planeVector, pmCartScalMult, pmCartCartAdd]

theorem spiralStop_apart : cartFuzz ≤ pmCartCartDisp (pmCartPlaneProj ⟨0, 0, 0⟩ ⟨0, 0, 1⟩)
    (pmCartPlaneProj (⟨3, 0, 1⟩ : PmCartesian ℝ) ⟨0, 0, 1⟩) := by
  have hthree : pmCartMag (pmCartCartSub (pmCartPlaneProj ⟨0, 0, 0⟩ ⟨0, 0, 1⟩)
      (pmCartPlaneProj (⟨3, 0, 1⟩ : PmCartesian ℝ) ⟨0, 0, 1⟩)) = 3 :=
    pmCartMag_eq_of_dot (by norm_num)
      (by norm_num [pmCartPlaneProj, pmCartCartProj, pmCartCartDot, pmCartCartSub, pmCartScalMult])
  rw [pmCartCartDisp_eq, hthree]
  norm_num [cartFuzz]

theorem spiralStop_accepted : CircleMove parkedTp.goalPos.tran spiralStop.tran ⟨1, 0, 0⟩ ⟨0, 0, 1⟩ 0 ∧
    (tpAddCircle plainEnv parkedTp spiralStop ⟨1, 0, 0⟩ ⟨0, 0, 1⟩ 0 1 1 1 1 0 false).2 = .ok := by
  have hmove : CircleMove ⟨0, 0, 0⟩ spiralStop.tran ⟨1, 0, 0⟩ ⟨0, 0, 1⟩ 0 := by
    refine ⟨by simp, ?_, ?_, .inr ⟨spiralStop_apart, π, pi_pos.le, by linarith [pi_pos], spiralStop_swept, .inl rfl⟩⟩
    · rw [startRadius_unit_mag]
      exact one_pos
    · exact spiralStop_radius.symm ▸ two_pos
  refine hmove.accepted ?_
  have hangle := hmove.singleAngle_swept spiralStop_apart pi_pos.le (by linarith [pi_pos]) spiralStop_swept (.inl rfl)
  have hlong := hmove.length_ge (by
    rw [startRadius_unit_mag]
    exact one_le_two.trans spiralStop_radius.ge)
  rw [startRadius_unit_mag, one_mul, hangle] at hlong
  linarith [two_le_pi]

/-! ### The result -/

/-- An accepted circular move ends where it was commanded, and starts at the goal but for parts that are taken for
points. -/
theorem tpAddCircle_ends (env : TpEnv ℝ) (tp : Tp ℝ) (stop : EmcPose ℝ) (center normal : PmCartesian ℝ) (turn : Int)
    (canonMotionType : Int) (vel iniMaxvel acc : ℝ) (enables : UInt8) (atspeed : Bool) (hw : tp.queue.WF)
    (hmove : CircleMove tp.goalPos.tran stop.tran center normal turn)
    (hok : (tpAddCircle env tp stop center normal turn canonMotionType vel iniMaxvel acc enables atspeed).2 = .ok) :
    ∃ tc,
      tcqLast (tpAddCircle env tp stop center normal turn canonMotionType vel iniMaxvel acc enables atspeed).1.queue =
        some tc ∧
      tcGetPosReal tc 0 = some (circleStart tp.goalPos stop) ∧ tcGetPosReal tc tc.target = some stop ∧
      (tpAddCircle env tp stop center normal turn canonMotionType vel iniMaxvel acc enables atspeed).1.goalPos =
        stop := by
  rcases tpAddCircle_segment env hmove canonMotionType vel iniMaxvel acc enables atspeed with
    ⟨-, hno⟩ | ⟨seg, hseg, heq⟩
  · exact absurd hok hno
  · rw [heq] at hok ⊢
    obtain ⟨tc, hlast, hcoords, htarget, hgoal⟩ := tpQueueSegment_accepted hw hok
    have hcircle : tc.OnCircle tp.goalPos stop center normal turn :=
      ⟨hcoords.trans hseg.coords, htarget.trans hseg.target⟩
    refine ⟨tc, hlast, hcircle.position_start hmove, hcircle.position_end hmove, ?_⟩
    rw [hgoal, tcGetEndpoint, hcircle.position_end hmove]
    rfl

theorem tpAddCircle_ends_spiral : ∃ tc,
    tcqLast (tpAddCircle plainEnv parkedTp spiralStop ⟨1, 0, 0⟩ ⟨0, 0, 1⟩ 0 1 1 1 1 0 false).1.queue = some tc ∧
      tcGetPosReal tc 0 = some (circleStart parkedTp.goalPos spiralStop) ∧
      tcGetPosReal tc tc.target = some spiralStop ∧
      (tpAddCircle plainEnv parkedTp spiralStop ⟨1, 0, 0⟩ ⟨0, 0, 1⟩ 0 1 1 1 1 0 false).1.goalPos = spiralStop :=
  tpAddCircle_ends plainEnv parkedTp spiralStop ⟨1, 0, 0⟩ ⟨0, 0, 1⟩ 0 1 1 1 1 0 false parkedTp_parked.wf
    spiralStop_accepted.1 spiralStop_accepted.2

/-- A full turn that also turns the first rotary axis, by half of `CART_FUZZ`. -/
noncomputable def turnedStop : EmcPose ℝ := { (emcPoseZero : EmcPose ℝ) with a := cartFuzz / 2 }

/-- The turned axis of an accepted move starts where it ends. -/
theorem tpAddCircle_turned : CircleMove parkedTp.goalPos.tran turnedStop.tran ⟨1, 0, 0⟩ ⟨0, 0, 1⟩ 0 ∧
    (tpAddCircle plainEnv parkedTp turnedStop ⟨1, 0, 0⟩ ⟨0, 0, 1⟩ 0 1 1 1 1 0 false).2 = .ok ∧
    ∀ tc, tcqLast (tpAddCircle plainEnv parkedTp turnedStop ⟨1, 0, 0⟩ ⟨0, 0, 1⟩ 0 1 1 1 1 0 false).1.queue = some tc →
      tcGetPosReal tc 0 ≠ some parkedTp.goalPos := by
  obtain ⟨hmove, hok⟩ := fullTurn_accepted (show turnedStop.tran = ⟨0, 0, 0⟩ from rfl)
  refine ⟨hmove, hok, fun tc htc => ?_⟩
  rcases tpAddCircle_segment plainEnv hmove 1 1 1 1 0 false with ⟨-, hno⟩ | ⟨seg, hseg, heq⟩
  · exact absurd hok hno
  · rw [heq] at hok htc
    obtain ⟨tc', hlast, hcoords, htarget, -⟩ := tpQueueSegment_accepted parkedTp_parked.wf hok
    cases htc.symm.trans hlast
    rw [Tc.OnCircle.position_start ⟨hcoords.trans hseg.coords, htarget.trans hseg.target⟩ hmove, parkedTp_settings.2.2.1]
    intro hsame
    have hzero : (circleStart emcPoseZero turnedStop).a = 0 := by rw [Option.some.inj hsame]; rfl
    have hhalf : (circleStart emcPoseZero turnedStop).a = cartFuzz / 2 := by
      show (partStart ⟨0, 0, 0⟩ ⟨cartFuzz / 2, 0, 0⟩).x = cartFuzz / 2
      have hsmall : pmCartInfNorm (pmCartCartSub ⟨cartFuzz / 2, 0, 0⟩ ⟨0, 0, 0⟩) < (cartFuzz : ℝ) := by
        simp only [pmCartInfNorm, pmCartCartSub, fabs_real, fmax_real, sub_zero, abs_zero, max_self]
        rw [abs_of_pos (half_pos cartFuzz_pos), max_eq_left (half_pos cartFuzz_pos).le]
        exact half_lt_self cartFuzz_pos
      rw [partStart, if_pos hsmall]
    exact (half_pos cartFuzz_pos).ne' (hhalf.symm.trans hzero)

end SoemMotion
