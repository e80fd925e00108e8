import SoemMotion.Mailbox
import SoemMotion.PlannerRun
import SoemMotion.Task

/-!
# Acknowledgement of task commands

The task side and `ProcessTask` share the command block and its number.  The task side writes the number 0 and waits for
the echo 0, `ProcessTask` counts on from whatever number it finds.  So an echo of 0 that was there before the call is
taken for an acknowledgement, and any other echo makes the handler ignore the network command that reaches that number.
-/

namespace SoemMotion

/-! ### Runs during a call -/

/-- What a run does to the mailbox. -/
inductive Entry (K : Type)
  | published (r : Request)
  | executed (block : Command K)

/-- The entries of `ProcessTask`. -/
def Entry.isPublished {K : Type} : Entry K → Bool
  | .published _ => true
  | .executed _ => false

/-- The network commands published in a run. -/
def published {K : Type} (log : List (Entry K)) : Nat := log.countP Entry.isPublished

variable {K : Type} [Arith K]

/-- Frames, calls of the handler and cycles of the controller, in any order, with what they do to the mailbox. -/
inductive NetRun : Machine K → List (Entry K) → Machine K → Prop
  | refl (s : Machine K) : NetRun s [] s
  | frame {s t u : Machine K} {log : List (Entry K)} {f : LinuxFrame} (h : NetRun s log t)
      (hf : processFrame t f = some u) : NetRun s (log ++ f.request.toList.map .published) u
  | handle {s t u : Machine K} {log : List (Entry K)} {j : Bool} (h : NetRun s log t)
      (hh : emcmotCommandHandler t j = some u) :
      NetRun s (log ++ if t.Pending then [.executed t.command] else []) u
  | cycle {s t u : Machine K} {log : List (Entry K)} {inp : Inputs} {fuel : Nat} (h : NetRun s log t)
      (hc : emcmotController t inp motionThreadPeriod fuel = some u) : NetRun s log u

/-- Whenever the call that writes the block returns OK, the handler has executed that block since. -/
def AcknowledgesSoundly (s : Machine K) (block : Command K) : Prop :=
  ∀ (w t : Machine K) (log : List (Entry K)), usrmotWrite s block = some w → NetRun w log t →
    published log < 2 ^ 32 → usrmotPoll t = some .ok → .executed block ∈ log

/-- No network command published after the write is one that the handler ignores. -/
def LeavesNetwork (s : Machine K) (block : Command K) : Prop :=
  ∀ (w t u : Machine K) (log : List (Entry K)) (f : LinuxFrame) (r : Request), usrmotWrite s block = some w →
    NetRun w log t → published log + 1 < 2 ^ 32 → f.request = some r → processFrame t f = some u → u.Pending

/-! ### The system with the task side -/

/-- The shared state and the block of the task side. -/
structure Shared (K : Type) where
  machine : Machine K
  block : Command K

/-- A step of the network, the handler or the controller, or a write of the task side. -/
inductive SharedStep : Shared K → Unit → Shared K → Prop
  | motion {s : Shared K} {e : Event K} {t : Machine K} (hnet : e.fromNetwork) (h : Step s.machine e t) :
      SharedStep s () { s with machine := t }
  | task {s : Shared K} {call : TaskCall} {block : Command K} {t : Machine K} (hcall : call.block s.block = some block)
      (h : usrmotWrite s.machine block = some t) : SharedStep s () ⟨t, block⟩

def startShared (numAxes : Int) : Shared K := ⟨initMachine numAxes, initCommand⟩

theorem startShared_echo (numAxes : Int) : (startShared numAxes : Shared K).machine.status.commandNumEcho = 0 := by
  obtain ⟨_, _, _, _, _, _, _, hinit⟩ := initMachine_eq (K := K) numAxes
  show (initMachine numAxes : Machine K).status.commandNumEcho = 0
  rw [hinit]
  rfl

def SharedReachable (numAxes : Int) (s : Shared K) : Prop := Lib.Reaches SharedStep (startShared numAxes) s

/-- A network command is published whatever was in the block. -/
theorem Shared.publish_step (s : Shared K) : ∃ t : Shared K, SharedStep s () t ∧ t.block = s.block ∧
    t.machine.command.commandNum = Arith.i32 K (s.machine.command.commandNum + 1) ∧
    t.machine.status = s.machine.status ∧ t.machine.command.axis = 0 := by
  obtain ⟨t, ht⟩ := publish_isSome (r := .plain .setCoord 0) (by decide) s.machine
  obtain ⟨hnum, hstatus, haxis, -⟩ := publish_spec ht
  refine ⟨{ s with machine := t }, .motion (e := .frame coordPacket.frame) trivial (.frame ?_), rfl, hnum, hstatus,
    haxis⟩
  rw [processFrame_eq]
  exact ht

/-- The handler takes a command for axis 0. -/
theorem Shared.handle_step {s : Shared K} (haxis : s.machine.command.axis = 0) : ∃ t : Shared K, SharedStep s () t ∧
    t.block = s.block ∧ t.machine.status.commandNumEcho = s.machine.command.commandNum := by
  obtain ⟨t, ht⟩ := emcmotCommandHandler_isSome (s := s.machine) (i := 0) (by rw [haxis]; rfl) false
  exact ⟨{ s with machine := t }, .motion (e := .handle false) trivial (.handle ht), rfl,
    (emcmotCommandHandler_taken ht).2⟩

/-! ### The mailbox in a cycle -/

/-- What the mailbox consists of. -/
def Machine.mail {K : Type} (s : Machine K) : Command K × Int × CmdStatus :=
  (s.command, s.status.commandNumEcho, s.status.commandStatus)

theorem planPositions_mail {inp : Inputs} {fuel : Nat} {s t : Machine K} (h : planPositions inp fuel s = some t) :
    t.mail = s.mail := by
  have hkept : KeptByPlanning inp fun u : Machine K => u.mail = s.mail :=
    ⟨fun _ h => h, fun _ h => h, fun _ h => h, fun _ h => h, fun _ h => h⟩
  exact hkept.planPositions rfl h

theorem checkSoftLimits_mail (s : Machine K) : (checkSoftLimits s).mail = s.mail := by
  obtain ⟨error, onSoftLimit, h⟩ := checkSoftLimits_eq s
  rw [h]
  rfl

theorem setOperatingMode_mail (s : Machine K) : (setOperatingMode s).mail = s.mail := by
  have hkept : KeptByModes fun u : Machine K => u.mail = s.mail :=
    ⟨fun _ h => h, fun _ h => h, fun _ _ h => h, fun _ h => h, fun _ h => h, fun _ h => h, fun _ h => h⟩
  exact hkept.setOperatingMode rfl

theorem controllerFront_mail (s : Machine K) (inp : Inputs) (period : Int) :
    (controllerFront s inp period).mail = s.mail := by
  obtain ⟨_, _, _, _, _, _, _, hperiod⟩ := updatePeriod_eq s period
  obtain ⟨axisArray, hinputs⟩ := processInputs_eq (handleInterpolation (updatePeriod s period)) inp
  unfold controllerFront
  rw [setOperatingMode_mail, hinputs, hperiod]
  rfl

/-- A cycle leaves the mailbox alone. -/
theorem emcmotController_mail {s t : Machine K} {inp : Inputs} {period : Int} {fuel : Nat}
    (h : emcmotController s inp period fuel = some t) : t.mail = s.mail := by
  obtain ⟨u, hu, rfl⟩ := Option.map_eq_some_iff.1 h
  obtain ⟨v, hv, rfl⟩ := Option.map_eq_some_iff.1 hu
  have hsoft : (checkSoftLimits v).mail = v.mail := checkSoftLimits_mail v
  have hplan : v.mail = s.mail := (planPositions_mail hv).trans (controllerFront_mail s inp period)
  exact hsoft.trans hplan

/-! ### The numbers in a run -/

theorem bmod_ne {a b : Nat} (h : a < b) (hb : b < 2 ^ 32) : Int.bmod a (2 ^ 32) ≠ Int.bmod b (2 ^ 32) := by
  intro heq
  have hmod := congrArg (· % ((2 ^ 32 : Nat) : Int)) heq
  simp only [Int.bmod_emod] at hmod
  norm_num at hmod
  omega

theorem published_append {K : Type} (log log' : List (Entry K)) :
    published (log ++ log') = published log + published log' := List.countP_append ..

section

variable {K : Type} [Int32Arith K]

theorem i32_bmod (n : Nat) : Arith.i32 K (Int.bmod n (2 ^ 32) + 1) = Int.bmod (n + 1 : Nat) (2 ^ 32) := by
  rw [Int32Arith.i32_eq, Int.bmod_add_bmod]
  rfl

/-- What a run from the write of a block keeps: `ProcessTask` has counted on from 0, the echo is one of the numbers
since or still the old one, and an echo of 0 is old or the echo of the block. -/
structure CallState (w : Machine K) (block : Command K) (log : List (Entry K)) (t : Machine K) : Prop where
  num : t.command.commandNum = Int.bmod (published log) (2 ^ 32)
  first : published log = 0 → t.command = block ∨ .executed block ∈ log
  echo : (∃ n ≤ published log, t.status.commandNumEcho = Int.bmod n (2 ^ 32)) ∨
    t.status.commandNumEcho = w.status.commandNumEcho
  acked : t.status.commandNumEcho = 0 → .executed block ∈ log ∨
    w.status.commandNumEcho = 0 ∧ t.status.commandStatus = w.status.commandStatus

theorem CallState.frame {w t u : Machine K} {block : Command K} {log : List (Entry K)} {f : LinuxFrame}
    (h : CallState w block log t) (hf : processFrame t f = some u) :
    CallState w block (log ++ f.request.toList.map .published) u := by
  rw [processFrame_eq] at hf
  cases hr : f.request with
  | none =>
    rw [hr] at hf
    cases hf
    rw [Option.toList_none, List.map_nil, List.append_nil]
    exact h
  | some r =>
    rw [hr] at hf
    obtain ⟨hnum, hstatus, -, -⟩ := publish_spec hf
    have hcount : published (log ++ [.published r]) = published log + 1 := published_append log [.published r]
    rw [Option.toList_some, List.map_singleton]
    refine ⟨?_, ?_, ?_, ?_⟩
    · rw [hnum, h.num, hcount, i32_bmod]
    · intro hzero
      omega
    · rw [hstatus, hcount]
      rcases h.echo with ⟨n, hn, hecho⟩ | hecho
      · exact .inl ⟨n, by omega, hecho⟩
      · exact .inr hecho
    · rw [hstatus]
      intro hzero
      rcases h.acked hzero with hmem | hold
      · exact .inl (List.mem_append_left _ hmem)
      · exact .inr hold

theorem CallState.handle {w t u : Machine K} {block : Command K} {log : List (Entry K)} {j : Bool}
    (h : CallState w block log t) (hlog : published log < 2 ^ 32) (hh : emcmotCommandHandler t j = some u) :
    CallState w block (log ++ if t.Pending then [.executed t.command] else []) u := by
  by_cases hp : t.Pending
  · rw [if_pos hp]
    have hcount : published (log ++ [.executed t.command]) = published log := published_append log [.executed t.command]
    obtain ⟨hnum, hecho⟩ := emcmotCommandHandler_taken hh
    have hexecuted : published log = 0 → Entry.executed block ∈ log ++ [.executed t.command] := by
      intro hzero
      rcases h.first hzero with hblock | hmem
      · rw [hblock]
        simp
      · exact List.mem_append_left _ hmem
    refine ⟨?_, ?_, ?_, ?_⟩
    · rw [hnum, h.num, hcount]
    · rw [hcount]
      exact fun hzero => .inr (hexecuted hzero)
    · rw [hcount]
      exact .inl ⟨published log, le_refl _, hecho.trans h.num⟩
    · intro hzero
      refine .inl (hexecuted ?_)
      rw [hecho, h.num] at hzero
      by_contra hne
      exact bmod_ne (Nat.pos_of_ne_zero hne) hlog hzero.symm
  · rw [if_neg hp, List.append_nil]
    have hsame : u = t := by
      rcases emcmotCommandHandler_cases hh with ⟨hnew, -⟩ | ⟨-, hsame⟩
      · exact absurd hnew hp
      · exact hsame
    rw [hsame]
    exact h

theorem CallState.cycle {w t u : Machine K} {block : Command K} {log : List (Entry K)} {inp : Inputs} {fuel : Nat}
    (h : CallState w block log t) (hc : emcmotController t inp motionThreadPeriod fuel = some u) :
    CallState w block log u := by
  have hmail := emcmotController_mail hc
  obtain ⟨hcommand, hrest⟩ := Prod.mk.inj hmail
  obtain ⟨hecho, hstatus⟩ := Prod.mk.inj hrest
  refine ⟨?_, ?_, ?_, ?_⟩
  · rw [hcommand]
    exact h.num
  · rw [hcommand]
    exact h.first
  · rw [hecho]
    exact h.echo
  · rw [hecho, hstatus]
    exact h.acked

/-- Every run from the write of a block numbered 0. -/
theorem NetRun.callState {w t : Machine K} {log : List (Entry K)} (h : NetRun w log t)
    (hnum : w.command.commandNum = 0) (hlog : published log < 2 ^ 32) : CallState w w.command log t := by
  induction h with
  | refl => exact ⟨by simp [hnum, published], fun _ => .inl rfl, .inr rfl, fun hzero => .inr ⟨hzero, rfl⟩⟩
  | frame h hf ih =>
    rw [published_append] at hlog
    exact (ih (by omega)).frame hf
  | handle h hh ih =>
    rw [published_append] at hlog
    exact (ih (by omega)).handle (by omega) hh
  | cycle h hc ih => exact (ih hlog).cycle hc

/-- Frames that publish nothing but requests for coordinated mode, one after the other. -/
theorem publish_run (w : Machine K) (hnum : w.command.commandNum = 0) (n : Nat) : ∃ (t : Machine K)
    (log : List (Entry K)), NetRun w log t ∧ published log = n ∧ t.command.commandNum = Int.bmod n (2 ^ 32) ∧
      t.status = w.status := by
  induction n with
  | zero => exact ⟨w, [], .refl w, rfl, by simp [hnum], rfl⟩
  | succ n ih =>
    obtain ⟨t, log, hrun, hcount, ht, hstatus⟩ := ih
    have hrequest : coordPacket.frame.request = some (.plain .setCoord 0) := rfl
    obtain ⟨u, hu⟩ := publish_isSome (r := .plain .setCoord 0) (by decide) t
    have hframe : processFrame t coordPacket.frame = some u := by
      rw [processFrame_eq, hrequest]
      exact hu
    obtain ⟨hnum', hstatus', -, -⟩ := publish_spec hu
    refine ⟨u, _, hrun.frame hframe, ?_, ?_, hstatus'.trans hstatus⟩
    · rw [published_append, hcount, hrequest]
      rfl
    · rw [hnum', ht, i32_bmod]

/-! ### The reachable mailboxes -/

/-- The numbers are those of an `int32_t`, and the task side has never set its own. -/
structure Shared.Ranged (s : Shared K) : Prop where
  num : -2 ^ 31 ≤ s.machine.command.commandNum ∧ s.machine.command.commandNum < 2 ^ 31
  echo : -2 ^ 31 ≤ s.machine.status.commandNumEcho ∧ s.machine.status.commandNumEcho < 2 ^ 31
  block : s.block.commandNum = 0 ∧ s.block.id = 0

theorem TaskCall.block_eq {K : Type} {call : TaskCall} {b block : Command K} (h : call.block b = some block) :
    block.commandNum = b.commandNum ∧ block.id = b.id := by
  cases call with
  | trajDisable =>
    cases h
    exact ⟨rfl, rfl⟩
  | trajAbort =>
    cases h
    exact ⟨rfl, rfl⟩
  | jogAbort axis =>
    have h' : emcJogAbort axis b = some block := h
    unfold emcJogAbort at h'
    split at h'
    · cases h'
    · cases h'
      exact ⟨rfl, rfl⟩

theorem SharedStep.ranged {s t : Shared K} {e : Unit} (hs : s.Ranged) (h : SharedStep s e t) : t.Ranged := by
  cases h with
  | motion hnet h =>
    cases h with
    | frame hf =>
      rw [processFrame_eq] at hf
      generalize LinuxFrame.request _ = r at hf
      cases r with
      | none =>
        cases hf
        exact hs
      | some r =>
        obtain ⟨hnum, hstatus, -, -⟩ := publish_spec hf
        refine ⟨?_, ?_, hs.block⟩
        · dsimp only
          rw [hnum, Int32Arith.i32_eq]
          have hlow := Int.le_bmod (x := s.machine.command.commandNum + 1) (m := 2 ^ 32) (by norm_num)
          have hhigh := Int.bmod_lt (x := s.machine.command.commandNum + 1) (m := 2 ^ 32) (by norm_num)
          norm_num at hlow hhigh ⊢
          exact ⟨hlow, hhigh⟩
        · dsimp only
          rw [hstatus]
          exact hs.echo
    | command c => exact absurd hnet id
    | handle hh =>
      obtain ⟨hnum, hecho⟩ := emcmotCommandHandler_taken hh
      refine ⟨?_, ?_, hs.block⟩
      · dsimp only
        rw [hnum]
        exact hs.num
      · dsimp only
        rw [hecho]
        exact hs.num
    | cycle hc =>
      obtain ⟨hcommand, hrest⟩ := Prod.mk.inj (emcmotController_mail hc)
      obtain ⟨hecho, -⟩ := Prod.mk.inj hrest
      refine ⟨?_, ?_, hs.block⟩
      · dsimp only
        rw [hcommand]
        exact hs.num
      · dsimp only
        rw [hecho]
        exact hs.echo
  -- the task writes its whole block, with the numbers it had at the start
  | task hcall h =>
    obtain ⟨hnum, hid⟩ := TaskCall.block_eq hcall
    unfold usrmotWrite at h
    split at h
    · cases h
    · cases h
      refine ⟨?_, hs.echo, hnum.trans hs.block.1, hid.trans hs.block.2⟩
      dsimp only
      rw [hnum, hs.block.1]
      norm_num

theorem SharedReachable.ranged {numAxes : Int} {s : Shared K} (h : SharedReachable numAxes s) : s.Ranged := by
  refine Lib.Reaches.invariant (I := Shared.Ranged) (fun _ _ _ hs hst => hst.ranged hs) h ?_
  refine ⟨?_, ?_, rfl, rfl⟩
  · have hnum : (startShared numAxes : Shared K).machine.command.commandNum = 0 :=
      congrArg Command.commandNum (initMachine_command numAxes)
    rw [hnum]
    norm_num
  · rw [startShared_echo]
    norm_num

/-! ### Main result -/

theorem acknowledgesSoundly_iff {s : Machine K} {block : Command K} (hnum : block.commandNum = 0)
    (hid : block.id = 0) : AcknowledgesSoundly s block ↔
      ¬ (s.status.commandNumEcho = 0 ∧ s.status.commandStatus = .ok) := by
  have hwrite : usrmotWrite s block = some { s with command := block } := by
    unfold usrmotWrite
    rw [if_neg (by rw [hid]; decide)]
  constructor
  · intro hsound ⟨hecho, hstatus⟩
    have hpoll : usrmotPoll { s with command := block } = some .ok := by
      unfold usrmotPoll
      rw [if_pos hecho, if_pos hstatus]
    have hmem := hsound _ _ [] hwrite (.refl _) (Nat.two_pow_pos 32) hpoll
    cases hmem
  · intro hstale w t log hw hrun hlog hpoll
    rw [hwrite] at hw
    cases hw
    have hstate := hrun.callState hnum hlog
    unfold usrmotPoll at hpoll
    by_cases hecho : t.status.commandNumEcho = 0
    · rw [if_pos hecho] at hpoll
      rcases hstate.acked hecho with hmem | ⟨hzero, hsame⟩
      · exact hmem
      · by_cases hok : t.status.commandStatus = .ok
        · exact absurd ⟨hzero, hsame.symm.trans hok⟩ hstale
        · rw [if_neg hok] at hpoll
          cases hpoll
    · rw [if_neg hecho] at hpoll
      cases hpoll

theorem leavesNetwork_iff {s : Machine K} {block : Command K} (hnum : block.commandNum = 0) (hid : block.id = 0)
    (hecho : -2 ^ 31 ≤ s.status.commandNumEcho ∧ s.status.commandNumEcho < 2 ^ 31) :
    LeavesNetwork s block ↔ s.status.commandNumEcho = 0 := by
  have hwrite : usrmotWrite s block = some { s with command := block } := by
    unfold usrmotWrite
    rw [if_neg (by rw [hid]; decide)]
  constructor
  · intro hleaves
    by_contra hne
    -- as many commands as the old echo says, none of them executed
    obtain ⟨n, hn, hpos⟩ : ∃ n : Nat, s.status.commandNumEcho % 2 ^ 32 = n + 1 ∧ n + 1 < 2 ^ 32 := by
      refine ⟨(s.status.commandNumEcho % 2 ^ 32 - 1).toNat, ?_, ?_⟩
      · omega
      · omega
    obtain ⟨t, log, hrun, hcount, ht, hstatus⟩ := publish_run { s with command := block } hnum n
    have hrequest : coordPacket.frame.request = some (.plain .setCoord 0) := rfl
    obtain ⟨u, hu⟩ := publish_isSome (r := .plain .setCoord 0) (by decide) t
    have hframe : processFrame t coordPacket.frame = some u := by
      rw [processFrame_eq, hrequest]
      exact hu
    obtain ⟨hnum', hstatus', -, -⟩ := publish_spec hu
    refine hleaves _ t u log coordPacket.frame _ hwrite hrun (by omega) hrequest hframe ?_
    rw [hnum', ht, i32_bmod, hstatus', hstatus]
    have hemod : Int.bmod ((n + 1 : Nat) : Int) (2 ^ 32) = Int.bmod (s.status.commandNumEcho % 2 ^ 32) (2 ^ 32) := by
      rw [hn]
      rfl
    rw [hemod]
    have hback : Int.bmod (s.status.commandNumEcho % ((2 ^ 32 : Nat) : Int)) (2 ^ 32) =
        Int.bmod s.status.commandNumEcho (2 ^ 32) := Int.emod_bmod _ _
    norm_num at hback ⊢
    rw [hback]
    exact Int.bmod_eq_of_le_mul_two (by norm_num; omega) (by norm_num; omega)
  · intro hzero w t u log f r hw hrun hlog hrequest hframe
    rw [hwrite] at hw
    cases hw
    have hstate := hrun.callState hnum (by omega)
    rw [processFrame_eq, hrequest] at hframe
    obtain ⟨hnum', hstatus', -, -⟩ := publish_spec hframe
    have hold : ∃ n ≤ published log, t.status.commandNumEcho = Int.bmod n (2 ^ 32) := by
      rcases hstate.echo with hold | hold
      · exact hold
      · exact ⟨0, Nat.zero_le _, hold.trans hzero⟩
    obtain ⟨n, hn, hecho'⟩ := hold
    unfold Machine.Pending
    rw [hnum', hstate.num, i32_bmod, hstatus', hecho']
    exact (bmod_ne (by omega) hlog).symm

/-- A call acknowledges only what has been executed exactly if the echo is not already an OK for the number 0, and
leaves every later network command to be executed exactly if the echo is 0. -/
theorem taskCommand_iff {numAxes : Int} {s : Shared K} (hs : SharedReachable numAxes s) {call : TaskCall}
    {block : Command K} (hcall : call.block s.block = some block) :
    (AcknowledgesSoundly s.machine block ↔
      ¬ (s.machine.status.commandNumEcho = 0 ∧ s.machine.status.commandStatus = .ok)) ∧
    (LeavesNetwork s.machine block ↔ s.machine.status.commandNumEcho = 0) := by
  obtain ⟨-, hecho, hblock⟩ := hs.ranged
  obtain ⟨hnum, hid⟩ := TaskCall.block_eq hcall
  exact ⟨acknowledgesSoundly_iff (hnum.trans hblock.1) (hid.trans hblock.2),
    leavesNetwork_iff (hnum.trans hblock.1) (hid.trans hblock.2) hecho⟩

end

/-- At the start an abort leaves the network alone; once a network command has been executed it is the other way
round. -/
theorem taskCommand_iff_counted :
    LeavesNetwork (startShared 3 : Shared Wrapped).machine (emcTrajAbort initCommand) ∧
      ∃ s : Shared Wrapped, SharedReachable 3 s ∧ s.machine.status.commandNumEcho = 1 ∧
        AcknowledgesSoundly s.machine (emcTrajAbort s.block) ∧ ¬ LeavesNetwork s.machine (emcTrajAbort s.block) := by
  have hstart : SharedReachable 3 (startShared 3 : Shared Wrapped) := Lib.Reaches.refl _
  obtain ⟨s, hpublish, -, hnum, -, haxis⟩ := (startShared 3 : Shared Wrapped).publish_step
  obtain ⟨t, hhandle, -, hecho⟩ := Shared.handle_step haxis
  have ht : SharedReachable 3 t := (hstart.tail hpublish).tail hhandle
  have hzero : (startShared 3 : Shared Wrapped).machine.command.commandNum = 0 :=
    congrArg Command.commandNum (initMachine_command 3)
  have hone : t.machine.status.commandNumEcho = 1 := by
    rw [hecho, hnum, hzero]
    exact Arith.i32_of_range _ (by norm_num) (by norm_num)
  have hfirst := taskCommand_iff hstart (show TaskCall.trajAbort.block initCommand = some _ from rfl)
  have hiff := taskCommand_iff ht (show TaskCall.trajAbort.block t.block = some _ from rfl)
  refine ⟨hfirst.2.2 (startShared_echo 3), t, ht, hone, hiff.1.2 fun hold => ?_, fun hleaves => ?_⟩
  · rw [hone] at hold
    exact absurd hold.1 one_ne_zero
  · have hecho' := hiff.2.1 hleaves
    rw [hone] at hecho'
    exact absurd hecho' one_ne_zero

/-- The first abort of the task side is acknowledged although no call of the handler has seen it. -/
theorem taskCommand_unseen : ∃ (s : Shared Wrapped) (w : Machine Wrapped), SharedReachable 3 s ∧
    usrmotWrite s.machine (emcTrajAbort s.block) = some w ∧ NetRun w [] w ∧ usrmotPoll w = some .ok ∧
    ¬ AcknowledgesSoundly s.machine (emcTrajAbort s.block) := by
  obtain ⟨_, _, _, _, _, _, _, hinit⟩ := initMachine_eq (K := Wrapped) 3
  have hecho : (initMachine 3 : Machine Wrapped).status.commandNumEcho = 0 := startShared_echo 3
  have hstatus : (initMachine 3 : Machine Wrapped).status.commandStatus = .ok := by
    rw [hinit]
    rfl
  have hwrite : usrmotWrite (initMachine 3) (emcTrajAbort initCommand) =
      some { (initMachine 3 : Machine Wrapped) with command := emcTrajAbort initCommand } :=
    if_neg (by decide)
  have hpoll : usrmotPoll { (initMachine 3 : Machine Wrapped) with command := emcTrajAbort initCommand } =
      some .ok := by
    unfold usrmotPoll
    rw [if_pos hecho, if_pos hstatus]
  refine ⟨startShared 3, _, Lib.Reaches.refl _, hwrite, .refl _, hpoll, ?_⟩
  intro hsound
  cases hsound _ _ [] hwrite (.refl _) (Nat.two_pow_pos 32) hpoll

end SoemMotion
