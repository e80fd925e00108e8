import SoemMotion.Lib.SplitRead
import SoemMotion.System

/-!
# Reading the status

The controller and the command handler count `head` of the status block up when they begin to change it and set `tail`
to it when they are done.  The task reads the block while they run: `usrmotReadEmcmotStatus` copies it, from the head
up, and takes the copy when its two counts agree.  The copy goes word by word, and between two words the motion thread
may take any number of steps.
-/

namespace SoemMotion

open Lib

variable {K : Type}

/-! ### The block -/

/-- The data of `emcmot_status_t`: what the motion code and what the planner keeps there. -/
structure StatusData (K : Type) where
  motion : Status K
  planner : TpStatus K

def Machine.statusData (s : Machine K) : StatusData K := ⟨s.status, s.internal.coordTp.status⟩

/-- The words of a pose. -/
inductive PoseWord
  | x | y | z | a | b | c | u | v | w
deriving DecidableEq

/-- The words of a pose in their order. -/
def poseWords : List PoseWord := [.x, .y, .z, .a, .b, .c, .u, .v, .w]

def PoseWord.copy (p : PoseWord) (src dst : EmcPose K) : EmcPose K :=
  match p with
  | .x => { dst with tran := { dst.tran with x := src.tran.x } }
  | .y => { dst with tran := { dst.tran with y := src.tran.y } }
  | .z => { dst with tran := { dst.tran with z := src.tran.z } }
  | .a => { dst with a := src.a }
  | .b => { dst with b := src.b }
  | .c => { dst with c := src.c }
  | .u => { dst with u := src.u }
  | .v => { dst with v := src.v }
  | .w => { dst with w := src.w }

/-- The words that the motion code writes. -/
inductive MotionField
  | commandNumEcho
  | commandStatus
  | enablesNew
  | netFeedScale
  | motionState
  | motionFlag
  | cartePosCmd (word : PoseWord)
  | cartePosFb (word : PoseWord)
  | onSoftLimit
  | miscError (num : Nat)
  | id
  | depth
  | activeDepth
  | queueFull
  | paused
  | overrideLimitMask
  | maxvel
  | maxacc
  | stepping
deriving DecidableEq

def MotionField.copy (f : MotionField) (src dst : Status K) : Status K :=
  match f with
  | .commandNumEcho => { dst with commandNumEcho := src.commandNumEcho }
  | .commandStatus => { dst with commandStatus := src.commandStatus }
  | .enablesNew => { dst with enablesNew := src.enablesNew }
  | .netFeedScale => { dst with netFeedScale := src.netFeedScale }
  | .motionState => { dst with motionState := src.motionState }
  | .motionFlag => { dst with motionFlag := src.motionFlag }
  | .cartePosCmd word => { dst with cartePosCmd := word.copy src.cartePosCmd dst.cartePosCmd }
  | .cartePosFb word => { dst with cartePosFb := word.copy src.cartePosFb dst.cartePosFb }
  | .onSoftLimit => { dst with onSoftLimit := src.onSoftLimit }
  | .miscError num => { dst with miscError := Function.update dst.miscError num (src.miscError num) }
  | .id => { dst with id := src.id }
  | .depth => { dst with depth := src.depth }
  | .activeDepth => { dst with activeDepth := src.activeDepth }
  | .queueFull => { dst with queueFull := src.queueFull }
  | .paused => { dst with paused := src.paused }
  | .overrideLimitMask => { dst with overrideLimitMask := src.overrideLimitMask }
  | .maxvel => { dst with maxvel := src.maxvel }
  | .maxacc => { dst with maxacc := src.maxacc }
  | .stepping => { dst with stepping := src.stepping }

/-- The words that the planner writes. -/
inductive PlannerField
  | tcqlen
  | requestedVel
  | currentVel
  | distanceToGo
  | enablesQueued
  | dtg (word : PoseWord)
deriving DecidableEq

def PlannerField.copy (f : PlannerField) (src dst : TpStatus K) : TpStatus K :=
  match f with
  | .tcqlen => { dst with tcqlen := src.tcqlen }
  | .requestedVel => { dst with requestedVel := src.requestedVel }
  | .currentVel => { dst with currentVel := src.currentVel }
  | .distanceToGo => { dst with distanceToGo := src.distanceToGo }
  | .enablesQueued => { dst with enablesQueued := src.enablesQueued }
  | .dtg word => { dst with dtg := word.copy src.dtg dst.dtg }

inductive StatusField
  | motion (f : MotionField)
  | planner (f : PlannerField)
deriving DecidableEq

def StatusField.copy (f : StatusField) (src dst : StatusData K) : StatusData K :=
  match f with
  | .motion f => { dst with motion := f.copy src.motion dst.motion }
  | .planner f => { dst with planner := f.copy src.planner dst.planner }

/-- `EMCMOT_MAX_MISC_ERROR`. -/
def emcmotMaxMiscError : Nat := 64

/-- The words of `emcmot_status_t` between its counts. -/
def statusWords : List StatusField := List.flatten
  [[.motion .commandNumEcho, .motion .commandStatus, .motion .enablesNew, .motion .netFeedScale,
      .planner .enablesQueued, .motion .motionState, .motion .motionFlag],
    poseWords.map fun word => .motion (.cartePosCmd word),
    poseWords.map fun word => .motion (.cartePosFb word),
    [.motion .onSoftLimit],
    (List.range emcmotMaxMiscError).map fun num => .motion (.miscError num),
    [.motion .id, .motion .depth, .motion .activeDepth, .motion .queueFull, .motion .paused,
      .motion .overrideLimitMask, .motion .maxvel, .motion .maxacc, .planner .distanceToGo],
    poseWords.map fun word => .planner (.dtg word),
    [.planner .currentVel, .planner .requestedVel, .planner .tcqlen]]

/-- Those behind the tail. -/
def statusWordsBehind : List StatusField := [.motion .stepping]

/-! ### The words by themselves -/

theorem PoseWord.copy_copy (p : PoseWord) (d e s : EmcPose K) : p.copy d (p.copy e s) = p.copy d s := by
  cases p <;> rfl

theorem PoseWord.copy_comm {p q : PoseWord} (h : p ≠ q) (d e s : EmcPose K) :
    p.copy d (q.copy e s) = q.copy e (p.copy d s) := by
  cases p <;> cases q <;> first | rfl | exact absurd rfl h

theorem PoseWord.eq_of_copy {d s : EmcPose K} (h : ∀ p : PoseWord, p.copy d s = s) : s = d := by
  have hx := congrArg (fun e => e.tran.x) (h .x)
  have hy := congrArg (fun e => e.tran.y) (h .y)
  have hz := congrArg (fun e => e.tran.z) (h .z)
  have ha := congrArg EmcPose.a (h .a)
  have hb := congrArg EmcPose.b (h .b)
  have hc := congrArg EmcPose.c (h .c)
  have hu := congrArg EmcPose.u (h .u)
  have hv := congrArg EmcPose.v (h .v)
  have hw := congrArg EmcPose.w (h .w)
  obtain ⟨⟨_, _, _⟩, _, _, _, _, _, _⟩ := d
  obtain ⟨⟨_, _, _⟩, _, _, _, _, _, _⟩ := s
  simp only [copy] at hx hy hz ha hb hc hu hv hw
  simp only [hx, hy, hz, ha, hb, hc, hu, hv, hw]

theorem MotionField.copy_copy (f : MotionField) (d e s : Status K) : f.copy d (f.copy e s) = f.copy d s := by
  cases f <;> simp [copy, PoseWord.copy_copy]

theorem MotionField.copy_comm {f g : MotionField} (h : f ≠ g) (d e s : Status K) :
    f.copy d (g.copy e s) = g.copy e (f.copy d s) := by
  cases f with
  | cartePosCmd p =>
    cases g with
    | cartePosCmd q =>
      have hpq : p ≠ q := fun hpq => h (congrArg cartePosCmd hpq)
      simp only [copy, PoseWord.copy_comm hpq]
    | _ => rfl
  | cartePosFb p =>
    cases g with
    | cartePosFb q =>
      have hpq : p ≠ q := fun hpq => h (congrArg cartePosFb hpq)
      simp only [copy, PoseWord.copy_comm hpq]
    | _ => rfl
  | miscError i =>
    cases g with
    | miscError j =>
      have hij : i ≠ j := fun hij => h (congrArg miscError hij)
      simp only [copy, Function.update_comm hij]
    | _ => rfl
  | _ => cases g <;> first | rfl | exact absurd rfl h

theorem PlannerField.copy_copy (f : PlannerField) (d e s : TpStatus K) : f.copy d (f.copy e s) = f.copy d s := by
  cases f <;> simp [copy, PoseWord.copy_copy]

theorem PlannerField.copy_comm {f g : PlannerField} (h : f ≠ g) (d e s : TpStatus K) :
    f.copy d (g.copy e s) = g.copy e (f.copy d s) := by
  cases f with
  | dtg p =>
    cases g with
    | dtg q =>
      have hpq : p ≠ q := fun hpq => h (congrArg dtg hpq)
      simp only [copy, PoseWord.copy_comm hpq]
    | _ => rfl
  | _ => cases g <;> first | rfl | exact absurd rfl h

/-- The words of the block. -/
def statusFields : Fields StatusField (StatusData K) where
  copy := StatusField.copy
  copy_copy f d e s := by
    cases f with
    | motion f => simp [StatusField.copy, f.copy_copy]
    | planner f => simp [StatusField.copy, f.copy_copy]
  copy_comm f g h d e s := by
    cases f with
    | motion f =>
      cases g with
      | motion g => simp [StatusField.copy, MotionField.copy_comm fun hfg => h (congrArg StatusField.motion hfg)]
      | planner g => rfl
    | planner f =>
      cases g with
      | motion g => rfl
      | planner g => simp [StatusField.copy, PlannerField.copy_comm fun hfg => h (congrArg StatusField.planner hfg)]

/-! ### The reader -/

/-- What `usrmotReadEmcmotStatus` returns for a block that is mapped. -/
inductive ReadResult
  | ok
  | splitReadTimeout
deriving DecidableEq, Repr

/-- Three tries, word `k` of try `n` being copied from the block of the time `t n k`. -/
def usrmotReadEmcmotStatus (w : Nat → Writer (StatusData K)) (t : Nat → Nat → Nat) (s : Counted (StatusData K)) :
    ReadResult × Counted (StatusData K) :=
  let r := splitRead statusFields w (places statusWords statusWordsBehind) 3 t s
  (if r.1 then .ok else .splitReadTimeout, r.2)

theorem statusPlaces_nodup : (places statusWords statusWordsBehind).Nodup := places_nodup (by decide +kernel)

/-- The number of the tail in the order of the copy. -/
def statusTail : Nat := statusWords.length + 1

/-! ### What a copy holds -/

/-- The copy is the status of the machine, but for the words behind the tail. -/
structure StatusCopy (s : Machine K) (data : StatusData K) : Prop where
  motion : data.motion = { s.status with miscError := data.motion.miscError, stepping := data.motion.stepping }
  miscError : ∀ num < emcmotMaxMiscError, data.motion.miscError num = s.status.miscError num
  planner : data.planner = s.internal.coordTp.status

/-- The words of the planner are those of the machine when each of them is. -/
theorem PlannerField.eq_of_copy {d s : TpStatus K} (h : ∀ f : PlannerField, f.copy d s = s) : s = d := by
  have hdtg : s.dtg = d.dtg := PoseWord.eq_of_copy fun word => congrArg TpStatus.dtg (h (.dtg word))
  have hlen := congrArg TpStatus.tcqlen (h .tcqlen)
  have hrequested := congrArg TpStatus.requestedVel (h .requestedVel)
  have hcurrent := congrArg TpStatus.currentVel (h .currentVel)
  have hdistance := congrArg TpStatus.distanceToGo (h .distanceToGo)
  have henables := congrArg TpStatus.enablesQueued (h .enablesQueued)
  obtain ⟨_, _, _, _, _, _⟩ := s
  simp only [copy] at hdtg hlen hrequested hcurrent hdistance henables
  simp only [hdtg, ← hlen, ← hrequested, ← hcurrent, ← hdistance, ← henables]

theorem MotionField.eq_of_copy {d s : Status K}
    (h : ∀ f : MotionField, f ≠ .stepping → (∀ num, f ≠ .miscError num) → f.copy d s = s) :
    s = { d with miscError := s.miscError, stepping := s.stepping } := by
  have hcmd : s.cartePosCmd = d.cartePosCmd :=
    PoseWord.eq_of_copy fun word => congrArg Status.cartePosCmd (h (.cartePosCmd word) (by simp) (by simp))
  have hfb : s.cartePosFb = d.cartePosFb :=
    PoseWord.eq_of_copy fun word => congrArg Status.cartePosFb (h (.cartePosFb word) (by simp) (by simp))
  have hecho := congrArg Status.commandNumEcho (h .commandNumEcho (by simp) (by simp))
  have hresult := congrArg Status.commandStatus (h .commandStatus (by simp) (by simp))
  have henables := congrArg Status.enablesNew (h .enablesNew (by simp) (by simp))
  have hscale := congrArg Status.netFeedScale (h .netFeedScale (by simp) (by simp))
  have hstate := congrArg Status.motionState (h .motionState (by simp) (by simp))
  have hflag := congrArg Status.motionFlag (h .motionFlag (by simp) (by simp))
  have hlimit := congrArg Status.onSoftLimit (h .onSoftLimit (by simp) (by simp))
  have hid := congrArg Status.id (h .id (by simp) (by simp))
  have hdepth := congrArg Status.depth (h .depth (by simp) (by simp))
  have hactive := congrArg Status.activeDepth (h .activeDepth (by simp) (by simp))
  have hfull := congrArg Status.queueFull (h .queueFull (by simp) (by simp))
  have hpaused := congrArg Status.paused (h .paused (by simp) (by simp))
  have hmask := congrArg Status.overrideLimitMask (h .overrideLimitMask (by simp) (by simp))
  have hvel := congrArg Status.maxvel (h .maxvel (by simp) (by simp))
  have hacc := congrArg Status.maxacc (h .maxacc (by simp) (by simp))
  obtain ⟨_, _, _, _, _, _, _, _, _, _, _, _, _, _, _, _, _, _, _⟩ := s
  simp only [copy] at hcmd hfb hecho hresult henables hscale hstate hflag hlimit
  simp only [copy] at hid hdepth hactive hfull hpaused hmask hvel hacc
  simp only [hcmd, hfb, ← hecho, ← hresult, ← henables, ← hscale, ← hstate, ← hflag, ← hlimit, ← hid, ← hdepth,
    ← hactive, ← hfull, ← hpaused, ← hmask, ← hvel, ← hacc]

theorem StatusCopy.of_same {s : Machine K} {data : StatusData K}
    (h : ∀ f ∈ statusWords, statusFields.Same f s.statusData data) : StatusCopy s data := by
  have hmotion : ∀ f, .motion f ∈ statusWords → f.copy s.status data.motion = data.motion :=
    fun f hf => congrArg StatusData.motion (h _ hf)
  refine ⟨MotionField.eq_of_copy fun f hstep hmisc => hmotion f ?_, fun num hnum => ?_,
    PlannerField.eq_of_copy fun f => congrArg StatusData.planner (h (.planner f) ?_)⟩
  · cases f with
    | cartePosCmd word => cases word <;> decide +kernel
    | cartePosFb word => cases word <;> decide +kernel
    | miscError num => exact absurd rfl (hmisc num)
    | stepping => exact absurd rfl hstep
    | _ => decide +kernel
  · have hmem : StatusField.motion (.miscError num) ∈ statusWords := by
      simp [statusWords, hnum]
    have hcopy := congrFun (congrArg Status.miscError (hmotion _ hmem)) num
    simpa [MotionField.copy] using hcopy.symm
  · cases f with
    | dtg word => cases word <;> decide +kernel
    | _ => decide +kernel

/-! ### The block in a run of the program -/

section Run

variable [Arith K] {numAxes : Int} {m : Nat → Machine K} {w : Nat → Writer (StatusData K)}

/-- The block over time in a run of the program: while no update is in progress, it is the status of the machine. -/
structure StatusRun (numAxes : Int) (m : Nat → Machine K) (w : Nat → Writer (StatusData K)) : Prop
    extends WriterRun w where
  init : Reachable numAxes (m 0)
  machine : ∀ n, m (n + 1) = m n ∨ ∃ e, Step (m n) e (m (n + 1))
  rest : ∀ n, (w n).busy = false → (w n).block.data = (m n).statusData

theorem StatusRun.reachable (h : StatusRun numAxes m w) (n : Nat) : Reachable numAxes (m n) := by
  induction n with
  | zero => exact h.init
  | succ n ih =>
    rcases h.machine n with heq | ⟨e, he⟩
    · rwa [heq]
    · exact ih.tail he

omit [Arith K] in
theorem usrmotReadEmcmotStatus_ok (t : Nat → Nat → Nat) (s₀ : Counted (StatusData K)) :
    (usrmotReadEmcmotStatus w t s₀).1 = .ok ↔
      (splitRead statusFields w (places statusWords statusWordsBehind) 3 t s₀).1 = true := by
  unfold usrmotReadEmcmotStatus
  cases hread : (splitRead statusFields w (places statusWords statusWordsBehind) 3 t s₀).1 <;> simp [hread]

/-- A copy of the status is taken when the updates that had begun with a try, and no others, were over at its end.
Each of its words is that of a moment of the try, and when no update was in progress as the try began or ended, the copy
is the status of a machine between two calls. -/
theorem status_read (h : StatusRun numAxes m w) {t : Nat → Nat → Nat} (ht : ∀ n, Monotone (t n))
    (hfew : ∀ n, begun w (t n statusTail) ≤ begun w (t n 0) + 255) (s₀ : Counted (StatusData K)) :
    ((usrmotReadEmcmotStatus w t s₀).1 = .ok ↔ ∃ n < 3, ended w (t n statusTail) = begun w (t n 0)) ∧
      ((usrmotReadEmcmotStatus w t s₀).1 = .ok → ∃ n < 3, ended w (t n statusTail) = begun w (t n 0) ∧
        (∀ k f, statusWords[k]? = some f →
          statusFields.Same f (w (t n (k + 1))).block.data (usrmotReadEmcmotStatus w t s₀).2.data) ∧
        ((w (t n 0)).busy = false → (w (t n statusTail)).busy = false →
          Reachable numAxes (m (t n 0)) ∧ StatusCopy (m (t n 0)) (usrmotReadEmcmotStatus w t s₀).2.data)) := by
  have hiff : (splitRead statusFields w (places statusWords statusWordsBehind) 3 t s₀).1 = true ↔
      ∃ n < 3, ended w (t n statusTail) = begun w (t n 0) :=
    splitRead_ok_iff h.toWriterRun statusPlaces_nodup ht hfew
  rw [usrmotReadEmcmotStatus_ok]
  refine ⟨hiff, fun hok => ?_⟩
  obtain ⟨n, hn, hagree, hfields⟩ := splitRead_fields (s := (usrmotReadEmcmotStatus w t s₀).2) h.toWriterRun
    statusPlaces_nodup ht hfew (Prod.ext hok rfl)
  refine ⟨n, hn, hagree, hfields, fun hfirst hlast => ⟨h.reachable _, StatusCopy.of_same fun f hf => ?_⟩⟩
  obtain ⟨k, hk⟩ := List.mem_iff_getElem?.1 hf
  obtain ⟨hlt, -⟩ := List.getElem?_eq_some_iff.1 hk
  -- no update between the ends of the try
  have hdata := h.data_between (ht n (Nat.zero_le (k + 1))) (ht n (show k + 1 ≤ statusWords.length + 1 by omega))
    hfirst hlast hagree
  have hsame := hfields k f hk
  rwa [hdata, h.rest _ hfirst] at hsame

end Run

theorem initMachine_status (numAxes : Int) :
    (initMachine numAxes : Machine ℝ).status = (initBuffers numAxes).status := by
  unfold initMachine setTrajCycleTime setServoCycleTime
  dsimp only
  split <;> split <;> rfl

/-- The initialised machine with a command of a new number. -/
noncomputable def armedMachine (c : CmdCode) : Machine ℝ :=
  { initMachine 3 with command := { (initMachine 3 : Machine ℝ).command with commandNum := 1, command := c } }

theorem armedMachine_new (c : CmdCode) :
    (armedMachine c).command.commandNum ≠ (armedMachine c).status.commandNumEcho := by
  show 1 ≠ (initMachine 3 : Machine ℝ).status.commandNumEcho
  rw [initMachine_status]
  decide

/-- Two calls of the handler, each with its update of the status. -/
noncomputable def handlerCalls (c : CmdCode) (s : Machine ℝ) : Nat → Machine ℝ
  | 0 => initMachine 3
  | 1 => armedMachine c
  | 2 => armedMachine c
  | _ + 3 => s

theorem handlerCalls_run {c : CmdCode} {s : Machine ℝ} (hs : emcmotCommandHandler (armedMachine c) false = some s)
    (hagain : emcmotCommandHandler s false = some s) :
    StatusRun 3 (handlerCalls c s) (twoUpdates (initMachine 3).statusData s.statusData s.statusData) := by
  have harm : Step (initMachine 3 : Machine ℝ) (.command (armedMachine c).command) (armedMachine c) := .command _ _
  refine ⟨twoUpdates_run _ _ _, Reaches.refl _, fun n => ?_, fun n hn => ?_⟩
  · match n with
    | 0 => exact .inr ⟨_, harm⟩
    | 1 => exact .inl rfl
    | 2 => exact .inr ⟨_, .handle hs⟩
    | 3 | 4 => exact .inl rfl
    | 5 => exact .inr ⟨_, .handle hagain⟩
    | n + 6 => exact .inl rfl
  · match n with
    | 0 => rfl
    | 1 => cases hn
    | 2 => cases hn
    | 3 => rfl
    | 4 => cases hn
    | 5 => cases hn
    | n + 6 => rfl

/-- A read after the handler has taken the command. -/
theorem status_read_handled : ∃ (s : Machine ℝ) (s₀ : Counted (StatusData ℝ)), Reachable 3 s ∧
    s.status.commandNumEcho = 1 ∧
    StatusCopy s (usrmotReadEmcmotStatus (twoUpdates (initMachine 3).statusData s.statusData s.statusData)
      (fun _ _ => 3) s₀).2.data := by
  obtain ⟨s, hs, hagain, hnum⟩ : ∃ s, emcmotCommandHandler (armedMachine .motionDisable) false = some s ∧
      emcmotCommandHandler s false = some s ∧ s.status.commandNumEcho = 1 :=
    ⟨_, if_pos (armedMachine_new _), if_neg (not_not.2 rfl), rfl⟩
  obtain ⟨hok, hcopy⟩ := status_read (handlerCalls_run hs hagain) (t := fun _ _ => 3) (fun _ _ _ _ => le_rfl)
    (fun _ => Nat.le_add_right _ _) ⟨0, s.statusData, 0⟩
  obtain ⟨n, -, -, -, hsnap⟩ := hcopy (hok.2 ⟨0, by decide, rfl⟩)
  obtain ⟨hreach, hstatus⟩ := hsnap rfl rfl
  exact ⟨s, _, hreach, hnum, hstatus⟩

/-! ### Two updates in one copy -/

/-- A copy that is taken may be of no moment at all: for any three states of the data and any two words there are a run
of the writer and times of the copy such that the words before the first come from before an update, those up to the
second from after it, and the others from the middle of the next. -/
theorem status_read_mixed {a b : Nat} (hab : a ≤ b) (hb : b ≤ statusWords.length) (d₀ d₁ d₂ : StatusData K)
    (s₀ : Counted (StatusData K)) :
    WriterRun (twoUpdates d₀ d₁ d₂) ∧ Monotone (slowCopy a b) ∧
      (usrmotReadEmcmotStatus (twoUpdates d₀ d₁ d₂) (fun _ => slowCopy a b) s₀).1 = .ok ∧
      ∀ k f, statusWords[k]? = some f → statusFields.Same f (if k < a then d₀ else if k < b then d₁ else d₂)
        (usrmotReadEmcmotStatus (twoUpdates d₀ d₁ d₂) (fun _ => slowCopy a b) s₀).2.data := by
  obtain ⟨s, hs, hsame⟩ := splitRead_mixed (F := statusFields) statusPlaces_nodup hab hb d₀ d₁ d₂ 2 s₀
  refine ⟨twoUpdates_run _ _ _, slowCopy_mono, ?_⟩
  unfold usrmotReadEmcmotStatus
  rw [hs]
  exact ⟨rfl, hsame⟩

/-- The number of the old command with the result of the new one, a line refused in free mode. -/
theorem status_read_mixed_result : ∃ (m : Nat → Machine ℝ) (d : StatusData ℝ) (t : Nat → Nat → Nat)
    (s : Counted (StatusData ℝ)),
    StatusRun 3 m (twoUpdates (initMachine 3).statusData d d) ∧ (∀ n, Monotone (t n)) ∧
    usrmotReadEmcmotStatus (twoUpdates (initMachine 3).statusData d d) t ⟨0, d, 0⟩ = (.ok, s) ∧
    s.data.motion.commandNumEcho = 0 ∧ s.data.motion.commandStatus = .invalidCommand := by
  have hrefused : ∀ r : Machine ℝ, r.status.motionFlag.coord = false → setLine r =
      (r.setCommandStatus .invalidCommand).setMotionError true := fun r hr => by
    simp [setLine, coordMoveRefused, hr]
  obtain ⟨s, hs, hagain, hcode⟩ : ∃ s, emcmotCommandHandler (armedMachine .setLine) false = some s ∧
      emcmotCommandHandler s false = some s ∧ s.status.commandStatus = .invalidCommand := by
    refine ⟨_, (if_pos (armedMachine_new _)).trans (congrArg some (hrefused _ ?_)), if_neg (not_not.2 rfl), rfl⟩
    exact congrArg (fun st => st.motionFlag.coord) (initMachine_status 3)
  obtain ⟨-, hmono, hok, hsame⟩ := status_read_mixed (a := 1) (b := 2) (by decide) (by decide +kernel)
    (initMachine 3 : Machine ℝ).statusData s.statusData s.statusData ⟨0, s.statusData, 0⟩
  generalize hread : usrmotReadEmcmotStatus _ _ _ = r at hok hsame
  have hecho : statusFields.Same (.motion .commandNumEcho) (initMachine 3 : Machine ℝ).statusData r.2.data :=
    hsame 0 _ rfl
  have hresult : statusFields.Same (.motion .commandStatus) s.statusData r.2.data := hsame 1 _ rfl
  have hnum := congrArg (fun d => d.motion.commandNumEcho) hecho
  have hstatus := congrArg (fun d => d.motion.commandStatus) hresult
  exact ⟨_, s.statusData, _, r.2, handlerCalls_run hs hagain, fun _ => hmono, hread.trans (Prod.ext hok rfl),
    hnum.symm.trans (congrArg (fun st => st.commandNumEcho) (initMachine_status 3)), hstatus.symm.trans hcode⟩

end SoemMotion
