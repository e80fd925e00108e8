import Mathlib.Tactic.Linarith
import Mathlib.Algebra.Order.Ring.Int
import SoemMotion.Lib.Run

/-!
# The schedule of a real-time task

A task of `uspace_rtapi_app.cpp` keeps the time at which its next period starts, and moves it on by the period and a
correction whenever it waits.  The starts therefore lie on a grid that no delay shifts, within one percent of a period
for each period gone by (`wait_grid`); and a task that is late is back on the grid after a number of periods that its
lateness gives (`lateness_recovers`).
-/

namespace SoemMotion

open Lib

/-! ### Times -/

/-- `struct timespec`. -/
structure Timespec where
  tvSec : Int
  tvNsec : Int
  deriving DecidableEq

/-- `ONE_SEC_IN_NS`. -/
def oneSecInNs : Nat := 1000000000

/-- The loop of `rtapi_timespec_advance`. -/
def advanceSeconds (sec : Int) (nsec : Nat) : Int × Nat :=
  if oneSecInNs ≤ nsec then advanceSeconds (sec + 1) (nsec - oneSecInNs) else (sec, nsec)
termination_by nsec
decreasing_by
  unfold oneSecInNs at *
  omega

/-- `rtapi_timespec_advance`. -/
def rtapiTimespecAdvance (src : Timespec) (nsec : Nat) : Timespec :=
  let (sec, nsec) := advanceSeconds src.tvSec nsec
  let nsec := nsec + src.tvNsec
  if oneSecInNs ≤ nsec then ⟨sec + 1, nsec - oneSecInNs⟩ else ⟨sec, nsec⟩

/-- `rtapi_timespec_less`. -/
def rtapiTimespecLess (ta tb : Timespec) : Bool :=
  if ta.tvSec < tb.tvSec then true
  else if ta.tvSec > tb.tvSec then false
  else decide (ta.tvNsec < tb.tvNsec)

namespace Timespec

/-- What `clock_gettime` answers. -/
def Normal (ts : Timespec) : Prop := 0 ≤ ts.tvNsec ∧ ts.tvNsec < oneSecInNs

/-- The time in nanoseconds, as `task_pll_get_reference` answers it. -/
def ns (ts : Timespec) : Int := ts.tvSec * 1000000000 + ts.tvNsec

theorem ns_mk (sec nsec : Int) : (⟨sec, nsec⟩ : Timespec).ns = sec * 1000000000 + nsec := rfl

end Timespec

theorem advanceSeconds_eq (sec : Int) (nsec : Nat) :
    advanceSeconds sec nsec = (sec + (nsec / oneSecInNs : Nat), nsec % oneSecInNs) := by
  induction nsec using Nat.strong_induction_on generalizing sec with
  | _ nsec ih =>
    unfold advanceSeconds
    split
    · rename_i hge
      have hpos : 0 < oneSecInNs := by decide
      rw [ih _ (Nat.sub_lt (hpos.trans_le hge) hpos), ← Nat.mod_eq_sub_mod hge, Nat.div_eq_sub_div hpos hge]
      push_cast
      rw [add_assoc, add_comm (1 : Int)]
    · rename_i hlt
      rw [Nat.div_eq_of_lt (not_le.1 hlt), Nat.mod_eq_of_lt (not_le.1 hlt)]
      simp

/-- The sum of a time and a duration, in the normal form again. -/
theorem rtapiTimespecAdvance_spec {src : Timespec} (h : src.Normal) (nsec : Nat) :
    (rtapiTimespecAdvance src nsec).Normal ∧ (rtapiTimespecAdvance src nsec).ns = src.ns + nsec := by
  unfold rtapiTimespecAdvance
  rw [advanceSeconds_eq]
  unfold Timespec.Normal oneSecInNs at *
  unfold Timespec.ns
  dsimp only
  split
  · dsimp only
    omega
  · dsimp only
    omega

/-- On times in normal form the comparison is that of the nanoseconds. -/
theorem rtapiTimespecLess_iff {ta tb : Timespec} (ha : ta.Normal) (hb : tb.Normal) :
    rtapiTimespecLess ta tb = true ↔ ta.ns < tb.ns := by
  unfold rtapiTimespecLess Timespec.ns
  unfold Timespec.Normal oneSecInNs at ha hb
  split
  · simp only [true_iff]
    omega
  split
  · simp only [Bool.false_eq_true, false_iff]
    omega
  · rw [decide_eq_true_eq]
    omega

/-! ### Tasks -/

/-- What the schedule uses of an `rtapi_task`. -/
structure RtapiTask where
  period : Int
  nextstart : Timespec
  pllCorrection : Int
  pllCorrectionLimit : Int

/-- A `long` given where an `unsigned long` is expected. -/
def toUnsignedLong (x : Int) : Nat := (x % 2 ^ 64).toNat

namespace RtapiTask

/-- `Posix::task_start`, up to the creation of its thread. -/
def taskStart (periodNsec : UInt64) (task : RtapiTask) : RtapiTask :=
  { task with
    period := periodNsec.toInt64.toInt
    -- limit PLL correction values to +/-1% of cycle time
    pllCorrectionLimit := (periodNsec / 100).toInt64.toInt
    pllCorrection := 0 }

/-- `Posix::wrapper`, up to the call of the task function. -/
def wrapper (now : Timespec) (task : RtapiTask) : RtapiTask :=
  { task with nextstart := rtapiTimespecAdvance now (toUnsignedLong (task.period + task.pllCorrection)) }

/-- `Posix::task_pll_set_correction` of a task that runs. -/
def taskPllSetCorrection (value : Int) (task : RtapiTask) : RtapiTask :=
  let value := if task.pllCorrectionLimit < value then task.pllCorrectionLimit else value
  let value := if value < -task.pllCorrectionLimit then -task.pllCorrectionLimit else value
  { task with pllCorrection := value }

theorem taskPllSetCorrection_nextstart (value : Int) (task : RtapiTask) :
    (task.taskPllSetCorrection value).nextstart = task.nextstart := rfl

/-- `Posix::wait`, up to the sleep. -/
def wait (task : RtapiTask) : RtapiTask :=
  { task with nextstart := rtapiTimespecAdvance task.nextstart (toUnsignedLong (task.period + task.pllCorrection)) }

/-- `Posix::wait` does not sleep, since the start of the next period has gone by. -/
def delayed (now : Timespec) (task : RtapiTask) : Bool := rtapiTimespecLess task.nextstart now

end RtapiTask

/-- A task that runs, the time at which its period began, the number of periods it has waited for, and the sum of the
corrections of these. -/
structure RtTask where
  task : RtapiTask
  began : Timespec
  cycles : Nat
  drift : Int

inductive RtEvent
  | correct (value : Int)
  | wait (now woke : Timespec)

/-- The task sets its correction, or waits: at the time `now`, and goes on at the time `woke`. -/
inductive RtStep (s : RtTask) : RtEvent → RtTask → Prop
  | correct (value : Int) : RtStep s (.correct value) { s with task := s.task.taskPllSetCorrection value }
  | wait (now woke : Timespec) (hnow : now.Normal ∧ s.began.ns ≤ now.ns) (hwoke : woke.Normal)
    (hlate : s.task.wait.delayed now = true → woke = now)
    -- a sleep ends at the time given or later
    (hsleep : s.task.wait.delayed now = false → s.task.wait.nextstart.ns ≤ woke.ns) :
    RtStep s (.wait now woke)
      { task := s.task.wait, began := woke, cycles := s.cycles + 1, drift := s.drift + s.task.pllCorrection }

/-- The task when `Posix::wrapper` calls its function. -/
def RtTask.start (periodNsec : UInt64) (now : Timespec) (task : RtapiTask) : RtTask :=
  ⟨(task.taskStart periodNsec).wrapper now, now, 0, 0⟩

/-- The period of the task is `p`, and its corrections are one percent of it at most. -/
structure RtapiTask.Scheduled (p : Int) (task : RtapiTask) : Prop where
  period : task.period = p
  range : 0 ≤ p ∧ p + p / 100 < 2 ^ 63
  limit : task.pllCorrectionLimit = p / 100
  correction : |task.pllCorrection| ≤ p / 100
  nextstart : task.nextstart.Normal

variable {p : Int} {task : RtapiTask} {s s' : RtTask} {ev : RtEvent}

namespace RtapiTask

theorem Scheduled.step (h : task.Scheduled p) :
    (toUnsignedLong (task.period + task.pllCorrection) : Int) = p + task.pllCorrection := by
  have hperiod := h.period
  have hrange := h.range
  have hcorr := abs_le.1 h.correction
  unfold toUnsignedLong
  rw [hperiod]
  omega

theorem Scheduled.taskPllSetCorrection (h : task.Scheduled p) (value : Int) :
    (task.taskPllSetCorrection value).Scheduled p := by
  refine ⟨h.period, h.range, h.limit, ?_, h.nextstart⟩
  have hlimit := h.limit
  have hrange := h.range
  unfold RtapiTask.taskPllSetCorrection
  dsimp only
  rw [hlimit, abs_le]
  split <;> split <;> omega

/-- The start of the next period moves on by the period and the correction. -/
theorem Scheduled.wait (h : task.Scheduled p) :
    task.wait.Scheduled p ∧ task.wait.nextstart.ns = task.nextstart.ns + p + task.pllCorrection := by
  obtain ⟨hnormal, hns⟩ :=
    rtapiTimespecAdvance_spec h.nextstart (toUnsignedLong (task.period + task.pllCorrection))
  have hstep := h.step
  refine ⟨⟨h.period, h.range, h.limit, h.correction, hnormal⟩, ?_⟩
  show (rtapiTimespecAdvance task.nextstart (toUnsignedLong (task.period + task.pllCorrection))).ns = _
  omega

end RtapiTask

theorem RtStep.scheduled (h : s.task.Scheduled p) (hstep : RtStep s ev s') : s'.task.Scheduled p := by
  cases hstep with
  | correct value => exact h.taskPllSetCorrection value
  | wait now woke _ _ _ _ => exact h.wait.1

theorem toInt64_eq {x : UInt64} (h : x.toNat < 2 ^ 63) : x.toInt64.toInt = x.toNat :=
  BitVec.toInt_eq_toNat_of_lt (x := x.toBitVec) (by show 2 * x.toNat < 2 ^ 64; omega)

theorem RtTask.start_scheduled {periodNsec : UInt64} (hperiod : periodNsec.toNat + periodNsec.toNat / 100 < 2 ^ 63)
    {now : Timespec} (hnow : now.Normal) (task : RtapiTask) :
    (RtTask.start periodNsec now task).task.Scheduled periodNsec.toNat ∧
      (RtTask.start periodNsec now task).task.nextstart.ns = now.ns + periodNsec.toNat := by
  have hp : periodNsec.toInt64.toInt = periodNsec.toNat := toInt64_eq (by omega)
  have hlimit : (periodNsec / 100).toInt64.toInt = (periodNsec.toNat / 100 : Nat) := by
    have hdiv : (periodNsec / 100).toNat = periodNsec.toNat / 100 := by
      rw [UInt64.toNat_div]
      rfl
    rw [toInt64_eq (by omega), hdiv]
  have hstep : (toUnsignedLong (periodNsec.toInt64.toInt + 0) : Int) = periodNsec.toNat := by
    unfold toUnsignedLong
    rw [hp]
    omega
  obtain ⟨hnormal, hns⟩ := rtapiTimespecAdvance_spec hnow (toUnsignedLong (periodNsec.toInt64.toInt + 0))
  refine ⟨⟨hp, by omega, ?_, ?_, hnormal⟩, ?_⟩
  · show (periodNsec / 100).toInt64.toInt = _
    rw [hlimit]
    omega
  · show |(0 : Int)| ≤ _
    rw [abs_zero]
    omega
  · show (rtapiTimespecAdvance now (toUnsignedLong (periodNsec.toInt64.toInt + 0))).ns = _
    rw [hns, hstep]

/-! ### The grid -/

/-- What holds of a task that was started at `t₀`. -/
structure RtTask.OnGrid (p t₀ : Int) (s : RtTask) : Prop where
  scheduled : s.task.Scheduled p
  grid : s.task.nextstart.ns = t₀ + (s.cycles + 1) * p + s.drift
  drift : |s.drift| ≤ s.cycles * (p / 100)
  began : s.began.Normal
  early : s.cycles ≠ 0 → s.task.nextstart.ns ≤ s.began.ns

theorem RtStep.onGrid {t₀ : Int} (h : s.OnGrid p t₀) (hstep : RtStep s ev s') : s'.OnGrid p t₀ := by
  have hscheduled := RtStep.scheduled h.scheduled hstep
  cases hstep with
  | correct value => exact ⟨hscheduled, h.grid, h.drift, h.began, h.early⟩
  | wait now woke hnow hwoke hlate hsleep =>
    obtain ⟨-, hmoved⟩ := h.scheduled.wait
    have hcorr := abs_le.1 h.scheduled.correction
    have hdrift := abs_le.1 h.drift
    refine ⟨hscheduled, ?_, ?_, hwoke, fun _ => ?_⟩
    · show s.task.wait.nextstart.ns = t₀ + ((s.cycles + 1 : Nat) + 1) * p + (s.drift + s.task.pllCorrection)
      rw [hmoved, h.grid]
      push_cast
      linarith
    · show |s.drift + s.task.pllCorrection| ≤ (s.cycles + 1 : Nat) * (p / 100)
      rw [abs_le]
      push_cast
      constructor <;> linarith
    · show s.task.wait.nextstart.ns ≤ woke.ns
      cases hdelayed : s.task.wait.delayed now with
      | false => exact hsleep hdelayed
      | true =>
        rw [hlate hdelayed]
        exact le_of_lt ((rtapiTimespecLess_iff hscheduled.nextstart hnow.1).1 hdelayed)

theorem RtTask.onGrid {periodNsec : UInt64} (hperiod : periodNsec.toNat + periodNsec.toNat / 100 < 2 ^ 63)
    {now : Timespec} (hnow : now.Normal) (task : RtapiTask) (h : Reaches RtStep (RtTask.start periodNsec now task) s) :
    s.OnGrid periodNsec.toNat now.ns := by
  obtain ⟨hscheduled, hstart⟩ := RtTask.start_scheduled hperiod hnow task
  refine h.invariant (fun _ _ _ hs hstep => RtStep.onGrid hs hstep)
    ⟨hscheduled, ?_, ?_, hnow, fun hno => absurd rfl hno⟩
  · rw [hstart]
    show _ = now.ns + ((0 : Nat) + 1) * (periodNsec.toNat : Int) + 0
    omega
  · show |(0 : Int)| ≤ (0 : Nat) * _
    simp

/-- In every run of a task, however long its periods take and whatever corrections it sets, the next start lies on the
grid of its period, moved by the corrections alone: by one percent of a period at most for each period gone by.  No
period but the first begins before its time. -/
theorem wait_grid {periodNsec : UInt64} (hperiod : periodNsec.toNat + periodNsec.toNat / 100 < 2 ^ 63) {now : Timespec}
    (hnow : now.Normal) (task : RtapiTask) (h : Reaches RtStep (RtTask.start periodNsec now task) s) :
    s.task.nextstart.Normal ∧ s.task.nextstart.ns = now.ns + (s.cycles + 1) * periodNsec.toNat + s.drift ∧
      |s.drift| ≤ s.cycles * (periodNsec.toNat / 100) ∧ (s.cycles ≠ 0 → s.task.nextstart.ns ≤ s.began.ns) := by
  have hgrid := RtTask.onGrid hperiod hnow task h
  exact ⟨hgrid.scheduled.nextstart, hgrid.grid, hgrid.drift, hgrid.early⟩

/-- A wait that comes after the next start goes on at once. -/
theorem RtStep.late (h : s.task.Scheduled p) {now : Timespec} (hnow : now.Normal) (hbegan : s.began.ns ≤ now.ns)
    (hlate : s.task.nextstart.ns + p + s.task.pllCorrection ≤ now.ns) : RtStep s (.wait now now)
      ⟨s.task.wait, now, s.cycles + 1, s.drift + s.task.pllCorrection⟩ :=
  RtStep.wait now now ⟨hnow, hbegan⟩ hnow (fun _ => rfl) fun _ => by rw [h.wait.2]; exact hlate

/-- A task of one millisecond that sets the largest correction and is late once. -/
def lateTask : RtTask := RtTask.start 1000000 ⟨5, 999999999⟩ ⟨0, ⟨0, 0⟩, 0, 0⟩

theorem lateTask_period : (1000000 : UInt64).toNat + (1000000 : UInt64).toNat / 100 < 2 ^ 63 := by decide

theorem lateTask_now : (⟨5, 999999999⟩ : Timespec).Normal := by
  unfold Timespec.Normal
  decide

theorem lateTask_wake : (⟨7, 0⟩ : Timespec).Normal := by
  unfold Timespec.Normal
  decide

theorem lateTask_start : lateTask.task.Scheduled 1000000 ∧ lateTask.task.nextstart.ns = 6000999999 := by
  obtain ⟨hscheduled, hstart⟩ := RtTask.start_scheduled lateTask_period lateTask_now ⟨0, ⟨0, 0⟩, 0, 0⟩
  have hp : ((1000000 : UInt64).toNat : Int) = 1000000 := rfl
  rw [hp] at hscheduled hstart
  exact ⟨hscheduled, hstart.trans rfl⟩

theorem lateTask_late : ∃ s, Reaches RtStep lateTask s ∧ s.cycles = 1 ∧ s.drift = 10000 ∧ s.began = ⟨7, 0⟩ := by
  obtain ⟨hscheduled, hstart⟩ := lateTask_start
  have hcycles : lateTask.cycles = 0 ∧ lateTask.drift = 0 ∧ lateTask.began = ⟨5, 999999999⟩ := ⟨rfl, rfl, rfl⟩
  have hset := hscheduled.taskPllSetCorrection 20000
  have hpll : (lateTask.task.taskPllSetCorrection 20000).pllCorrection = 10000 := by
    unfold RtapiTask.taskPllSetCorrection
    rw [hscheduled.limit]
    decide
  have hnext : (lateTask.task.taskPllSetCorrection 20000).nextstart.ns = 6000999999 := by
    rw [RtapiTask.taskPllSetCorrection_nextstart, hstart]
  generalize lateTask = s₀ at *
  obtain ⟨value, hvalue⟩ : ∃ value : Int, value = 20000 := ⟨_, rfl⟩
  rw [← hvalue] at hset hpll hnext
  have hcorrect := RtStep.correct (s := s₀) value
  have hwait := RtStep.late (s := { s₀ with task := s₀.task.taskPllSetCorrection value }) hset lateTask_wake
    (by rw [hcycles.2.2, Timespec.ns_mk, Timespec.ns_mk]; omega)
    (by rw [hnext, hpll, Timespec.ns_mk]; omega)
  refine ⟨_, ((Reaches.refl s₀).tail hcorrect).tail hwait, ?_, ?_, rfl⟩
  · rw [hcycles.1]
  · rw [hcycles.2.1, hpll]
    rfl

/-- After a delay of one second the next start is 2.01 ms after the first one. -/
theorem wait_grid_lateTask : ∃ s, Reaches RtStep lateTask s ∧ s.began = ⟨7, 0⟩ ∧
    s.task.nextstart.ns = (⟨5, 999999999⟩ : Timespec).ns + 2010000 := by
  obtain ⟨s, hreach, hcycles, hdrift, hbegan⟩ := lateTask_late
  obtain ⟨-, hns, -, -⟩ := wait_grid lateTask_period lateTask_now _ hreach
  have hp : ((1000000 : UInt64).toNat : Int) = 1000000 := rfl
  refine ⟨s, hreach, hbegan, ?_⟩
  rw [hns, hcycles, hdrift, hp]
  omega

/-! ### Lateness -/

/-- How long after its start on the grid the period began. -/
def RtTask.lateness (s : RtTask) : Int := s.began.ns - s.task.nextstart.ns

/-- The period took `work` at most, and a sleep lasted `latency` too long at most. -/
def RtTask.Prompt (work latency : Int) (s : RtTask) : RtEvent → RtTask → Prop
  | .correct _, _ => True
  | .wait now woke, s' => now.ns ≤ s.began.ns + work ∧ woke.ns ≤ max now.ns (s'.task.nextstart.ns + latency)

/-- A period shortens the lateness by what it leaves of itself. -/
theorem RtStep.lateness {work latency : Int} (h : s.task.Scheduled p)
    (hstep : Restrict RtStep (RtTask.Prompt work latency) s ev s') :
    s'.lateness ≤ max latency (s.lateness - (s'.cycles - s.cycles : Int) * (p - p / 100 - work)) := by
  obtain ⟨hstep, hprompt⟩ := hstep
  cases hstep with
  | correct value =>
    unfold RtTask.lateness
    dsimp only
    rw [sub_self, zero_mul, sub_zero]
    exact le_max_right _ _
  | wait now woke hnow hwoke hlate hsleep =>
    obtain ⟨hscheduled, hmoved⟩ := h.wait
    have hcorr := abs_le.1 h.correction
    have hworked : now.ns ≤ s.began.ns + work := hprompt.1
    have hslept : woke.ns ≤ max now.ns (s.task.wait.nextstart.ns + latency) := hprompt.2
    have hone : ((s.cycles + 1 : Nat) - s.cycles : Int) = 1 := by omega
    unfold RtTask.lateness
    dsimp only
    rw [hone, one_mul, le_max_iff]
    rcases le_max_iff.1 hslept with hnowait | hwaited
    · right
      omega
    · left
      omega

theorem RtapiTask.Scheduled.recovers {work latency : Int} (h : s.task.Scheduled p) (hwork : work ≤ p - p / 100)
    (hrun : Reaches (Restrict RtStep (RtTask.Prompt work latency)) s s') :
    s'.lateness ≤ max latency (s.lateness - (s'.cycles - s.cycles : Int) * (p - p / 100 - work)) := by
  have hall := hrun.invariant (I := fun s' => s'.task.Scheduled p ∧ s.cycles ≤ s'.cycles ∧
    s'.lateness ≤ max latency (s.lateness - (s'.cycles - s.cycles : Int) * (p - p / 100 - work))) ?_
    ⟨h, le_refl _, by simp⟩
  · exact hall.2.2
  rintro s₁ ev s₂ ⟨hscheduled, hcycles, hbound⟩ hstep
  have hmore : s₁.cycles ≤ s₂.cycles := by
    cases hstep.1 with
    | correct value => exact le_refl _
    | wait now woke _ _ _ _ => exact Nat.le_succ _
  refine ⟨RtStep.scheduled hscheduled hstep.1, hcycles.trans hmore, ?_⟩
  have hnext := RtStep.lateness hscheduled hstep
  have hslack : 0 ≤ (s₂.cycles - s₁.cycles : Int) * (p - p / 100 - work) := by
    refine mul_nonneg ?_ ?_ <;> omega
  have hsum : (s₂.cycles - s.cycles : Int) * (p - p / 100 - work) =
      (s₁.cycles - s.cycles : Int) * (p - p / 100 - work) + (s₂.cycles - s₁.cycles : Int) * (p - p / 100 - work) := by
    rw [← add_mul]
    congr 1
    omega
  rw [hsum]
  rcases le_max_iff.1 hnext with hdone | hlater
  · exact le_max_of_le_left hdone
  rcases le_max_iff.1 hbound with hdone | hlater'
  · refine le_max_of_le_left ?_
    omega
  · refine le_max_of_le_right ?_
    omega

/-- A task whose periods leave it time comes back to the grid, whatever has delayed it: from any moment of its run on,
each period shortens its lateness by the time that is left, until only the latency of a sleep remains. -/
theorem lateness_recovers {periodNsec : UInt64} (hperiod : periodNsec.toNat + periodNsec.toNat / 100 < 2 ^ 63)
    {now : Timespec} (hnow : now.Normal) (task : RtapiTask) (h : Reaches RtStep (RtTask.start periodNsec now task) s)
    {work latency : Int} (hwork : work ≤ periodNsec.toNat - periodNsec.toNat / 100)
    (hrun : Reaches (Restrict RtStep (RtTask.Prompt work latency)) s s') :
    s'.lateness ≤ max latency (s.lateness -
      (s'.cycles - s.cycles : Int) * (periodNsec.toNat - periodNsec.toNat / 100 - work)) :=
  (RtTask.onGrid hperiod hnow task h).scheduled.recovers hwork hrun

/-- The next period of the late task takes a tenth of its time, and starts 0.89 ms less late. -/
theorem lateness_recovers_lateTask : ∃ s s' : RtTask, s.lateness = 997990001 ∧ s'.cycles = 2 ∧
    s'.lateness ≤ 997100001 := by
  obtain ⟨s, hreach, hcycles, hdrift, hbegan⟩ := lateTask_late
  have hgrid := RtTask.onGrid lateTask_period lateTask_now _ hreach
  have hp : ((1000000 : UInt64).toNat : Int) = 1000000 := rfl
  rw [hp] at hgrid
  have hnext : s.task.nextstart.ns = 6002009999 := by
    rw [hgrid.grid, hcycles, hdrift, Timespec.ns_mk]
    omega
  have hcorr := abs_le.1 hgrid.scheduled.correction
  have hsoon : (⟨7, 100000⟩ : Timespec).Normal := by
    unfold Timespec.Normal
    decide
  have hwait := RtStep.late hgrid.scheduled hsoon (by rw [hbegan, Timespec.ns_mk, Timespec.ns_mk]; omega)
    (by rw [hnext, Timespec.ns_mk]; omega)
  have hprompt : s.Prompt 100000 0 (.wait ⟨7, 100000⟩ ⟨7, 100000⟩)
      ⟨s.task.wait, ⟨7, 100000⟩, s.cycles + 1, s.drift + s.task.pllCorrection⟩ := by
    refine ⟨?_, le_max_left _ _⟩
    rw [hbegan, Timespec.ns_mk, Timespec.ns_mk]
    omega
  have hlate : s.lateness = 997990001 := by
    unfold RtTask.lateness
    rw [hbegan, hnext, Timespec.ns_mk]
    omega
  obtain ⟨s', hs'⟩ : ∃ s' : RtTask, s' =
      ⟨s.task.wait, ⟨7, 100000⟩, s.cycles + 1, s.drift + s.task.pllCorrection⟩ := ⟨_, rfl⟩
  rw [← hs'] at hwait hprompt
  have hrun : Reaches (Restrict RtStep (RtTask.Prompt 100000 0)) s s' := (Reaches.refl s).tail ⟨hwait, hprompt⟩
  have hbound := lateness_recovers lateTask_period lateTask_now _ hreach (by rw [hp]; omega) hrun
  have hcycles' : s'.cycles = 2 := by rw [hs', hcycles]
  rw [hlate, hcycles', hcycles, hp] at hbound
  exact ⟨s, s', hlate, hcycles', hbound.trans (by omega)⟩

end SoemMotion
