import SoemMotion.Acknowledge

/-!
# The axis index of a command

`ProcessTask` takes the index of the axis from the frame and the task side writes a sentinel, and neither they nor the
handler compare it with the size of `axes`.  A command for an axis that exists stays inside the arrays; a command for
any other is published and executed like the rest.
-/

namespace SoemMotion

variable {K : Type} [Arith K]

/-! ### Safety -/

/-- Whenever the frame is processed, it is dropped without a trace, or its axis exists and neither `ProcessTask` nor the
handler, when it later executes what has been published, leaves the axes. -/
def FrameIndexSafe (K : Type) [Arith K] (numAxes : Int) (frame : LinuxFrame) : Prop :=
  ∀ s : Machine K, NetReachable numAxes s → processFrame s frame = some s ∨
    frame.u16 2 < 3 ∧ ∃ t, processFrame s frame = some t ∧
      ∀ (u : Machine K) (j : Bool), u.command = t.command → ∃ v, emcmotCommandHandler u j = some v

/-- The handler has answered the command with an error and changed nothing else. -/
def Refuses (s t : Machine K) : Prop :=
  t.status.commandStatus ≠ .ok ∧ t = { s with status := { s.status with
    commandNumEcho := t.status.commandNumEcho, commandStatus := t.status.commandStatus } }

/-- Whenever the handler finds the block of the task side, it stays inside the axes, and refuses the block if its axis
does not exist. -/
def TaskIndexSafe (numAxes : Int) (block : Command K) : Prop :=
  ∀ (s : Shared K) (j : Bool), SharedReachable numAxes s → s.machine.command = block →
    ∃ t, emcmotCommandHandler s.machine j = some t ∧ ((axisIndex block.axis).isSome ∨ Refuses s.machine t)

/-! ### Frames -/

theorem request_axis {frame : LinuxFrame} {r : Request} (h : frame.request = some r) : r.axis = frame.u16 2 := by
  unfold LinuxFrame.request at h
  split at h
  · cases h
  · unfold LinuxFrame.decoded at h
    dsimp only at h
    split at h <;> cases h <;> rfl

theorem frameIndexSafe_of_lt {frame : LinuxFrame} (h : frame.u16 2 < 3) (numAxes : Int) :
    FrameIndexSafe K numAxes frame := by
  intro s _
  cases hr : frame.request with
  | none =>
    left
    rw [processFrame_eq, hr]
    rfl
  | some r =>
    right
    have haxis : r.axis < 3 := lt_of_eq_of_lt (request_axis hr) h
    obtain ⟨t, ht⟩ := publish_isSome (r := r) haxis s
    obtain ⟨i, hi⟩ := axisIndex_of_lt haxis
    refine ⟨h, t, ?_, ?_⟩
    · rw [processFrame_eq, hr]
      exact ht
    · intro u j hu
      refine emcmotCommandHandler_isSome (i := i) ?_ j
      rw [hu, (publish_spec ht).2.2.1]
      exact hi

/-- A published command for another axis changes the state, if it does not leave the axes at once. -/
theorem not_frameIndexSafe {frame : LinuxFrame} {r : Request} (hr : frame.request = some r) (h : 3 ≤ frame.u16 2)
    (numAxes : Int) : ¬ FrameIndexSafe K numAxes frame := by
  intro hsafe
  rcases hsafe (initMachine numAxes) (Lib.Reaches.refl _) with hsame | ⟨hlt, -⟩
  · rw [processFrame_eq, hr] at hsame
    have hnum := publish_commandNum hsame
    rw [initMachine_command] at hnum
    have hnext : Arith.i32 K ((initCommand : Command K).commandNum + 1) = 1 :=
      Arith.i32_of_range _ (by norm_num [initCommand]) (by norm_num [initCommand])
    rw [hnext] at hnum
    cases hnum
  · omega

/-! ### The task side -/

theorem SharedReachable.block {numAxes : Int} {s : Shared K} (h : SharedReachable numAxes s) :
    s.block.commandNum = 0 ∧ s.block.id = 0 := by
  refine Lib.Reaches.invariant (I := fun s : Shared K => s.block.commandNum = 0 ∧ s.block.id = 0) ?_ h ⟨rfl, rfl⟩
  intro s e t hs hstep
  cases hstep with
  | motion hnet h => exact hs
  | task hcall h =>
    obtain ⟨hnum, hid⟩ := TaskCall.block_eq hcall
    exact ⟨hnum.trans hs.1, hid.trans hs.2⟩

/-- The network can always bring about an echo that is not 0. -/
theorem SharedReachable.echo_ne {numAxes : Int} {s : Shared K} (hs : SharedReachable numAxes s) :
    ∃ t : Shared K, SharedReachable numAxes t ∧ t.block = s.block ∧ t.machine.status.commandNumEcho ≠ 0 := by
  obtain ⟨t, hst, hblock, hnum, -, haxis⟩ := s.publish_step
  by_cases hzero : t.machine.command.commandNum = 0
  · obtain ⟨u, htu, hblock', hnum', -, haxis'⟩ := t.publish_step
    obtain ⟨v, huv, hblock'', hecho⟩ := Shared.handle_step haxis'
    refine ⟨v, ((hs.tail hst).tail htu).tail huv, (hblock''.trans hblock').trans hblock, ?_⟩
    rw [hecho, hnum', hzero, Arith.i32_of_range _ (by norm_num) (by norm_num)]
    norm_num
  · obtain ⟨u, htu, hblock', hecho⟩ := Shared.handle_step haxis
    refine ⟨u, (hs.tail hst).tail htu, hblock'.trans hblock, ?_⟩
    rw [hecho]
    exact hzero

theorem taskIndexSafe_of_isSome {block : Command K} (h : (axisIndex block.axis).isSome) (numAxes : Int) :
    TaskIndexSafe numAxes block := by
  intro s j _ hblock
  obtain ⟨i, hi⟩ := Option.isSome_iff_exists.1 h
  obtain ⟨t, ht⟩ := emcmotCommandHandler_isSome (s := s.machine) (i := i) (by rw [hblock]; exact hi) j
  exact ⟨t, ht, .inl h⟩

/-- A block of the task side for an axis that does not exist is executed all the same. -/
theorem not_taskIndexSafe {numAxes : Int} {s : Shared K} (hs : SharedReachable numAxes s) {call : TaskCall}
    {block : Command K} (hcall : call.block s.block = some block) (haxis : axisIndex block.axis = none) :
    ¬ TaskIndexSafe numAxes block := by
  intro hsafe
  -- a state in which the command of the task counts as new
  obtain ⟨t, ht, hblock, hecho⟩ := hs.echo_ne
  have hcall' : call.block t.block = some block := by
    rw [hblock]
    exact hcall
  obtain ⟨hnum, hid⟩ := TaskCall.block_eq hcall'
  rw [ht.block.1] at hnum
  rw [ht.block.2] at hid
  have hwrite : usrmotWrite t.machine block = some { t.machine with command := block } := by
    unfold usrmotWrite
    rw [if_neg (by rw [hid]; decide)]
  have hreach : SharedReachable numAxes (Shared.mk { t.machine with command := block } block) :=
    ht.tail (.task hcall' hwrite)
  obtain ⟨u, hu, hrefused⟩ := hsafe _ false hreach rfl
  rw [haxis] at hrefused
  have hpending : ({ t.machine with command := block } : Machine K).Pending := by
    show block.commandNum ≠ t.machine.status.commandNumEcho
    rw [hnum]
    exact hecho.symm
  rcases emcmotCommandHandler_cases hu with ⟨-, hexec⟩ | ⟨hold, -⟩
  · rcases hrefused with hsome | ⟨hstatus, -⟩
    · cases hsome
    · cases call with
      | trajDisable =>
        cases hcall'
        cases hexec
        exact hstatus rfl
      | trajAbort =>
        cases hcall'
        cases hexec
        refine hstatus ?_
        unfold abortMotion
        dsimp only
        split <;> rfl
      | jogAbort axis =>
        have hjog : block.command = .jogAbort := by
          have h' : emcJogAbort axis t.block = some block := hcall'
          unfold emcJogAbort at h'
          split at h'
          · cases h'
          · cases h'
            rfl
        unfold executeCommand at hexec
        rw [show (Machine.echo { t.machine with command := block }).command.command = .jogAbort from hjog] at hexec
        dsimp only at hexec
        unfold Machine.writeAxis at hexec
        rw [show axisIndex (Machine.echo { t.machine with command := block }).command.axis = none from haxis] at hexec
        cases hexec
  · exact hpending hold

/-! ### Main result -/

theorem axisIndex_isSome_iff (n : Int) : (axisIndex n).isSome ↔ 0 ≤ n ∧ n < 3 := by
  unfold axisIndex
  split
  · rename_i h
    simp [h]
  · split
    · rename_i h
      simp [h]
    · split
      · rename_i h
        simp [h]
      · simp
        omega

/-- A frame is safe exactly if its axis exists or it publishes nothing, and a block of the task side exactly if its axis
exists. -/
theorem axisIndex_iff (numAxes : Int) :
    (∀ frame : LinuxFrame, FrameIndexSafe K numAxes frame ↔ frame.u16 2 < 3 ∨ frame.request = none) ∧
    (∀ (s : Shared K) (call : TaskCall) (block : Command K), SharedReachable numAxes s →
      call.block s.block = some block → (TaskIndexSafe numAxes block ↔ 0 ≤ block.axis ∧ block.axis < 3)) := by
  constructor
  · intro frame
    constructor
    · intro hsafe
      by_cases hlt : frame.u16 2 < 3
      · exact .inl hlt
      · right
        cases hr : frame.request with
        | none => rfl
        | some r => exact absurd hsafe (not_frameIndexSafe hr (by omega) numAxes)
    · rintro (hlt | hnone)
      · exact frameIndexSafe_of_lt hlt numAxes
      · intro s _
        left
        rw [processFrame_eq, hnone]
        rfl
  · intro s call block hs hcall
    rw [← axisIndex_isSome_iff]
    constructor
    · intro hsafe
      by_contra hnone
      exact not_taskIndexSafe hs hcall (by simpa using hnone) hsafe
    · intro hsome
      exact taskIndexSafe_of_isSome hsome numAxes

/-- A continuous jog of axis 7. -/
def jogSevenPacket : Packet := ⟨0x55AA55AA, [9, 0, 7, 0] ++ List.replicate 16 0, 36⟩

theorem jogSevenPacket_request : jogSevenPacket.frame.request = some (.jogCont 7 0 0 0) := by
  have hlength : jogSevenPacket.frame.paramDataLength = 16 := by decide
  have hcode : CmdCode.ofIndex (jogSevenPacket.frame.u16 0) = .jogCont := by decide
  have haxis : jogSevenPacket.frame.u16 2 = 7 := by decide
  have hparam : jogSevenPacket.frame.param 0 = 0 ∧ jogSevenPacket.frame.param 1 = 0 ∧
      jogSevenPacket.frame.param 3 = 0 := by decide
  unfold LinuxFrame.request LinuxFrame.decoded
  rw [hlength, hcode, haxis, hparam.1, hparam.2.1, hparam.2.2, if_neg (by decide)]

/-- The jog writes past the axes, and so does the abort of a jog by the task side. -/
theorem axisIndex_outside : jogSevenPacket.WellFormed ∧
    processFrame (initMachine 3 : Machine ℝ) jogSevenPacket.frame = none ∧
    ¬ FrameIndexSafe ℝ 3 jogSevenPacket.frame ∧
    ∃ block : Command ℝ, emcJogAbort 0 initCommand = some block ∧ block.axis = -1 ∧ ¬ TaskIndexSafe 3 block := by
  refine ⟨⟨rfl, by decide, by decide⟩, ?_, not_frameIndexSafe jogSevenPacket_request (by decide) 3, _, rfl, rfl, ?_⟩
  · rw [processFrame_eq, jogSevenPacket_request]
    rfl
  · exact not_taskIndexSafe (s := startShared 3) (Lib.Reaches.refl _)
      (show TaskCall.block (.jogAbort 0) initCommand = some _ from rfl) rfl

end SoemMotion
