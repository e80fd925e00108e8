import SoemMotion.CommandFrame
import SoemMotion.FrameDecode

/-!
# The command mailbox

`ProcessTask` publishes a command by writing the one command block there is and incrementing its number; the handler
executes the block when its number differs from the number it executed last.  Nothing tells `ProcessTask` whether the
block has been taken.  So every command is executed exactly once, in order, exactly if the handler gets its turn after
each of them.
-/

namespace SoemMotion

variable {K : Type}

/-! ### The handler and the numbers -/

/-- The command number and its echo are those of the other state. -/
def SameNumbers (s t : Machine K) : Prop :=
  t.command.commandNum = s.command.commandNum ∧ t.status.commandNumEcho = s.status.commandNumEcho

theorem SameNumbers.refl (s : Machine K) : SameNumbers s s := ⟨rfl, rfl⟩

theorem writeAxis_numbers {s t : Machine K} {n : Int} {f : Axis K → Axis K} (h : s.writeAxis n f = some t) :
    SameNumbers s t := by
  obtain ⟨i, -, rfl⟩ := Option.map_eq_some_iff.1 h
  exact SameNumbers.refl s

theorem jogChecked_numbers {s t : Machine K} {jogInhibit : Bool} {jog : Fin 3 → Machine K}
    (hjog : ∀ i, SameNumbers s (jog i)) (h : jogChecked s jogInhibit jog = some t) : SameNumbers s t := by
  unfold jogChecked at h
  by_cases hen : s.status.motionFlag.enable = true
  · rw [hen, Bool.not_true, if_neg Bool.false_ne_true] at h
    by_cases hinhibit : jogInhibit = true
    · rw [if_pos hinhibit] at h
      cases h
      exact SameNumbers.refl s
    · rw [if_neg hinhibit] at h
      obtain ⟨i, -, rfl⟩ := Option.map_eq_some_iff.1 h
      split
      · exact SameNumbers.refl s
      · exact hjog i
  · rw [Bool.not_eq_true] at hen
    rw [hen, Bool.not_false, if_pos rfl] at h
    exact writeAxis_numbers h

theorem setAxisActive_numbers {s t : Machine K} {fl : Bool} (h : s.setAxisActive fl = some t) : SameNumbers s t := by
  obtain ⟨i, -, rfl⟩ := Option.map_eq_some_iff.1 h
  exact SameNumbers.refl s

variable [Arith K]

theorem jogIncr_numbers (s : Machine K) (i : Fin 3) : SameNumbers s (jogIncr s i) := by
  rcases jogIncr_cases s i with h | ⟨-, -, h⟩ <;> rw [h] <;> exact SameNumbers.refl s

omit [Arith K] in
theorem abortMotion_numbers (s : Machine K) : SameNumbers s (abortMotion s) := by
  unfold abortMotion
  dsimp only
  split <;> exact SameNumbers.refl s

omit [Arith K] in
theorem coordMoveRefused_numbers {s t : Machine K} (h : coordMoveRefused s = some t) : SameNumbers s t := by
  obtain ⟨status, tp, -, -, rfl⟩ := coordMoveRefused_cases h
  exact SameNumbers.refl s

theorem appendLine_numbers (s : Machine K) : SameNumbers s (appendLine s) := by
  unfold appendLine
  dsimp only
  split <;> exact SameNumbers.refl s

theorem appendCircle_numbers (s : Machine K) : SameNumbers s (appendCircle s) := by
  unfold appendCircle
  dsimp only
  split <;> exact SameNumbers.refl s

/-- No command touches the numbers. -/
theorem executeCommand_numbers {s t : Machine K} {jogInhibit : Bool} (h : executeCommand s jogInhibit = some t) :
    SameNumbers s t := by
  unfold executeCommand at h
  cases hcmd : s.command.command <;> rw [hcmd] at h
  case downloadsConfig =>
    obtain ⟨u, hu, rfl⟩ := Option.map_eq_some_iff.1 h
    obtain ⟨hnum, hecho⟩ := writeAxis_numbers hu
    exact ⟨hnum, hecho⟩
  case axisEnable =>
    rcases axisEnable_eq h with ⟨-, rfl⟩ | ⟨-, h⟩
    · exact SameNumbers.refl _
    · obtain ⟨i, -, rfl⟩ := Option.map_eq_some_iff.1 h
      exact SameNumbers.refl s
  case axisDisable => exact setAxisActive_numbers h
  case abort =>
    cases h
    exact abortMotion_numbers s
  case jogCont => exact jogChecked_numbers (fun i => show SameNumbers s (jogCont s i) from SameNumbers.refl s) h
  case jogIncr => exact jogChecked_numbers (jogIncr_numbers s) h
  case jogAbs => exact jogChecked_numbers (fun i => show SameNumbers s (jogAbs s i) from SameNumbers.refl s) h
  case jogAbort => exact writeAxis_numbers h
  case setLine =>
    cases h
    unfold setLine
    cases hr : coordMoveRefused s with
    | none => exact appendLine_numbers s
    | some u => exact coordMoveRefused_numbers hr
  case setCircle =>
    cases h
    unfold setCircle
    cases hr : coordMoveRefused s with
    | none => exact appendCircle_numbers s
    | some u => exact coordMoveRefused_numbers hr
  all_goals
    cases h
    exact SameNumbers.refl s

/-- After a call of the handler no command is pending. -/
theorem emcmotCommandHandler_taken {s t : Machine K} {jogInhibit : Bool}
    (h : emcmotCommandHandler s jogInhibit = some t) :
    t.command.commandNum = s.command.commandNum ∧ t.status.commandNumEcho = s.command.commandNum := by
  rcases emcmotCommandHandler_cases h with ⟨-, hexec⟩ | ⟨hold, rfl⟩
  · exact executeCommand_numbers hexec
  · exact ⟨rfl, hold.symm⟩

omit [Arith K] in
theorem jogChecked_isSome {s : Machine K} {i : Fin 3} (h : axisIndex s.command.axis = some i) (jogInhibit : Bool)
    (jog : Fin 3 → Machine K) : ∃ t, jogChecked s jogInhibit jog = some t := by
  unfold jogChecked Machine.writeAxis
  rw [h]
  split
  · exact ⟨_, rfl⟩
  · split <;> exact ⟨_, rfl⟩

/-- A command for an axis that exists can be executed. -/
theorem executeCommand_isSome {s : Machine K} {i : Fin 3} (h : axisIndex s.command.axis = some i) (jogInhibit : Bool) :
    ∃ t, executeCommand s jogInhibit = some t := by
  have hwrite : ∀ f : Axis K → Axis K, ∃ t, s.writeAxis s.command.axis f = some t := by
    intro f
    unfold Machine.writeAxis
    rw [h]
    exact ⟨_, rfl⟩
  have hactive : ∀ fl, ∃ t, s.setAxisActive fl = some t := by
    intro fl
    unfold Machine.setAxisActive
    rw [h]
    exact ⟨_, rfl⟩
  unfold executeCommand
  cases hcode : s.command.command with
  | downloadsConfig =>
    obtain ⟨t, ht⟩ := hwrite fun a => downloadsConfigAxis a s.command
    dsimp only
    unfold downloadsConfig
    rw [ht]
    exact ⟨_, rfl⟩
  | axisEnable =>
    dsimp only
    unfold axisEnable
    split
    · exact ⟨_, rfl⟩
    · exact hactive true
  | axisDisable => exact hactive false
  | jogCont => exact jogChecked_isSome h _ _
  | jogIncr => exact jogChecked_isSome h _ _
  | jogAbs => exact jogChecked_isSome h _ _
  | jogAbort => exact hwrite jogAbortAxis
  | free | motionEnable | motionDisable | abort | pause | resume | setLine | setCircle | setFree | setCoord
  | unknown => exact ⟨_, rfl⟩

theorem emcmotCommandHandler_isSome {s : Machine K} {i : Fin 3} (h : axisIndex s.command.axis = some i)
    (jogInhibit : Bool) : ∃ t, emcmotCommandHandler s jogInhibit = some t := by
  unfold emcmotCommandHandler
  split
  · exact executeCommand_isSome (s := s.echo) h jogInhibit
  · exact ⟨s, rfl⟩

/-! ### Publishing -/

/-- The axis the frame names exists. -/
def Request.AxisExists (r : Request) : Prop := r.axis < 3

instance (r : Request) : Decidable r.AxisExists := inferInstanceAs (Decidable (_ < _))

omit [Arith K] in
theorem axisIndex_of_lt {n : Nat} (h : n < 3) : ∃ i, axisIndex n = some i := by
  have hn : n = 0 ∨ n = 1 ∨ n = 2 := by omega
  rcases hn with rfl | rfl | rfl
  · exact ⟨0, rfl⟩
  · exact ⟨1, rfl⟩
  · exact ⟨2, rfl⟩

theorem request_command_axis (r : Request) (cmd : Command K) : (r.command cmd).axis = r.axis := by
  cases r <;> rfl

theorem publish_isSome {r : Request} (h : r.AxisExists) (s : Machine K) : ∃ t, publish (some r) s = some t := by
  obtain ⟨i, hi⟩ := axisIndex_of_lt h
  have hwrite : ∀ {n : Nat} {vel acc : Int}, n = r.axis → ∃ t, publishAxis s n vel acc = some t := by
    intro n vel acc hn
    unfold publishAxis Machine.writeAxis
    rw [hn, hi]
    exact ⟨_, rfl⟩
  have hprepare : ∃ t, r.prepare s = some t := by
    cases r with
    | jogCont axis vel acc dir => exact hwrite rfl
    | jogIncr axis vel acc pos dir => exact hwrite rfl
    | jogAbs axis vel acc pos => exact hwrite rfl
    | downloadsConfig => exact ⟨_, rfl⟩
    | setLine => exact ⟨_, rfl⟩
    | enable => exact ⟨_, rfl⟩
    | plain => exact ⟨_, rfl⟩
  obtain ⟨t, ht⟩ := hprepare
  refine ⟨{ t with command := r.command s.command }, ?_⟩
  show (r.prepare s).map _ = _
  rw [ht]
  rfl

omit [Arith K] in
theorem prepare_status {r : Request} {s t : Machine K} (h : r.prepare s = some t) : t.status = s.status := by
  have hwrite : ∀ {axis : Nat} {vel acc : Int}, publishAxis s axis vel acc = some t → t.status = s.status := by
    intro axis vel acc h
    obtain ⟨i, -, rfl⟩ := Option.map_eq_some_iff.1 h
    rfl
  cases r with
  | jogCont axis vel acc dir => exact hwrite h
  | jogIncr axis vel acc pos dir => exact hwrite h
  | jogAbs axis vel acc pos => exact hwrite h
  | downloadsConfig =>
    cases h
    rfl
  | setLine =>
    cases h
    rfl
  | enable =>
    cases h
    rfl
  | plain =>
    cases h
    rfl

/-- Publishing increments the number and leaves its echo alone. -/
theorem publish_spec {r : Request} {s t : Machine K} (h : publish (some r) s = some t) :
    t.command.commandNum = Arith.i32 K (s.command.commandNum + 1) ∧
      t.status = s.status ∧ t.command.axis = r.axis ∧ t.command = r.command s.command := by
  refine ⟨publish_commandNum h, ?_⟩
  obtain ⟨u, hu, rfl⟩ := Option.map_eq_some_iff.1 h
  have hstatus : u.status = s.status := prepare_status hu
  exact ⟨hstatus, request_command_axis r s.command, rfl⟩

/-! ### Interleavings -/

/-- A call of `ProcessTask`, a call of the handler, or one that does not get the mutex. -/
inductive MailEvent
  | process
  | handle (jogInhibit : Bool)
  | skip

/-- The system, and the states in which the handler has executed a command. -/
structure Mailbox (K : Type) where
  link : Downlink K
  executed : List (Machine K)

/-- The handler would execute a command. -/
def Machine.Pending (s : Machine K) : Prop := s.command.commandNum ≠ s.status.commandNumEcho

instance (s : Machine K) : Decidable s.Pending := inferInstanceAs (Decidable (_ ≠ _))

def Mailbox.step (m : Mailbox K) : MailEvent → Option (Mailbox K)
  | .process => (processTask m.link).map fun d => { m with link := d }
  | .handle j => (emcmotCommandHandler m.link.machine j).map fun t =>
    { link := { m.link with machine := t }
      executed := if m.link.machine.Pending then m.executed ++ [m.link.machine] else m.executed }
  | .skip => some m

def Mailbox.run (m : Mailbox K) : List MailEvent → Option (Mailbox K)
  | [] => some m
  | e :: es => (m.step e).bind fun m => m.run es

/-- The calls of `ProcessTask`. -/
def processes : List MailEvent → Nat
  | [] => 0
  | .process :: es => processes es + 1
  | _ :: es => processes es

/-- After each call of `ProcessTask`, the one before the list being pending or not, the handler gets its turn before
the next. -/
def Delivers : Bool → List MailEvent → Prop
  | pending, [] => pending = false
  | pending, .process :: es => pending = false ∧ Delivers true es
  | _, .handle _ :: es => Delivers false es
  | pending, .skip :: es => Delivers pending es

/-- The state executed is the one publishing the request has left. -/
def Carries (s : Machine K) (r : Request) : Prop := ∃ u, publish (some r) u = some s

/-- The ring holds frames with these requests, all stored and counted, and every one names an axis that exists. -/
structure Holds (d : Downlink K) (rs : List Request) : Prop where
  stored : d.rx.ring.Stored
  counted : d.rx.ring.length ≤ d.rx.sem
  requests : d.rx.ring.contents.map LinuxFrame.request = rs.map some
  exist : ∀ r ∈ rs, r.AxisExists

omit [Arith K] in
theorem Holds.length {d : Downlink K} {rs : List Request} (h : Holds d rs) : d.rx.ring.length = rs.length := by
  have hlen := congrArg List.length h.requests
  unfold RingBuff.contents at hlen
  rw [List.length_map, List.length_map, List.length_map, List.length_range] at hlen
  exact hlen

/-- A call of `ProcessTask` publishes the first request. -/
theorem Holds.process {d : Downlink K} {r : Request} {rs : List Request} (h : Holds d (r :: rs)) :
    ∃ d', processTask d = some d' ∧ Holds d' rs ∧ publish (some r) d.machine = some d'.machine := by
  have hlen := h.length
  rw [List.length_cons] at hlen
  have hne : d.rx.ring.length ≠ 0 := by omega
  obtain ⟨hread, hstored, -⟩ := h.stored.read hne
  have hrequests := h.requests
  rw [(h.stored.wf.drop hne).2, List.map_cons, List.map_cons] at hrequests
  obtain ⟨hframe, hrest⟩ := List.cons_eq_cons.1 hrequests
  obtain ⟨t, ht⟩ := publish_isSome (h.exist r (by simp)) d.machine
  have hcounted := h.counted
  refine ⟨{ rx := { d.rx with sem := d.rx.sem - 1, ring := d.rx.ring.drop }, machine := t }, ?_,
    ⟨hstored, ?_, hrest, ?_⟩, ht⟩
  · unfold processTask
    rw [if_neg (by omega), hread]
    dsimp only
    rw [processFrame_eq, hframe, ht]
    rfl
  · show d.rx.ring.length - 1 ≤ d.rx.sem - 1
    omega
  · intro q hq
    exact h.exist q (List.mem_cons_of_mem r hq)

/-! ### Delivery -/

/-- With a turn of the handler after each request, every request is executed, in order. -/
theorem run_delivers {K : Type} [Int32Arith K] {es : List MailEvent} {m : Mailbox K} {rs : List Request}
    (pending done : List Request) (hholds : Holds m.link rs) (hcount : processes es = rs.length)
    (hdone : List.Forall₂ Carries m.executed done)
    (hpending : pending = [] ∧ ¬ m.link.machine.Pending ∨
      ∃ r, pending = [r] ∧ r.AxisExists ∧ Carries m.link.machine r ∧ m.link.machine.Pending)
    (hes : Delivers (!pending.isEmpty) es) :
    ∃ m', m.run es = some m' ∧ List.Forall₂ Carries m'.executed (done ++ pending ++ rs) := by
  -- over the events; `pending` is the request that is published and not yet handled, if there is one
  induction es generalizing m rs pending done with
  | nil =>
    have hrs : rs = [] := List.eq_nil_of_length_eq_zero hcount.symm
    have hp : pending = [] := by
      rcases hpending with ⟨hp, -⟩ | ⟨r, hp, -⟩
      · exact hp
      · rw [hp] at hes
        cases hes
    refine ⟨m, rfl, ?_⟩
    rw [hrs, hp, List.append_nil, List.append_nil]
    exact hdone
  | cons e es ih =>
    cases e with
    | process =>
      obtain ⟨hfree, hes⟩ := hes
      have hp : pending = [] ∧ ¬ m.link.machine.Pending := by
        rcases hpending with hp | ⟨r, hp, -⟩
        · exact hp
        · rw [hp] at hfree
          cases hfree
      obtain ⟨hp, hidle⟩ := hp
      cases rs with
      | nil => cases hcount
      | cons r rs =>
        obtain ⟨d, hd, hholds', hpublish⟩ := hholds.process
        obtain ⟨hnum, hstatus, -, -⟩ := publish_spec hpublish
        have hnew : d.machine.Pending := by
          have hold := not_not.1 hidle
          unfold Machine.Pending
          rw [hnum, hstatus, ← hold]
          exact i32_succ_ne K _
        have hcount' : processes es = rs.length := Nat.succ.inj hcount
        obtain ⟨m', hm', hexecuted⟩ := ih (m := { m with link := d }) [r] done hholds' hcount' hdone
          (.inr ⟨r, rfl, hholds.exist r (by simp), ⟨_, hpublish⟩, hnew⟩) hes
        refine ⟨m', ?_, ?_⟩
        · show (Option.map _ (processTask m.link)).bind _ = _
          rw [hd]
          exact hm'
        · rw [hp, List.append_nil]
          rw [List.append_assoc] at hexecuted
          exact hexecuted
    | handle j =>
      have hstep : ∃ t, emcmotCommandHandler m.link.machine j = some t := by
        rcases hpending with ⟨-, hidle⟩ | ⟨r, -, hexists, ⟨u, hu⟩, -⟩
        · exact ⟨m.link.machine, if_neg hidle⟩
        · obtain ⟨i, hi⟩ := axisIndex_of_lt hexists
          refine emcmotCommandHandler_isSome (i := i) ?_ j
          rw [(publish_spec hu).2.2.1]
          exact hi
      obtain ⟨t, ht⟩ := hstep
      obtain ⟨hnum, hecho⟩ := emcmotCommandHandler_taken ht
      have hidle : ¬ t.Pending := by
        unfold Machine.Pending
        rw [hnum, hecho]
        exact not_not.2 rfl
      have hdone' : List.Forall₂ Carries
          (if m.link.machine.Pending then m.executed ++ [m.link.machine] else m.executed) (done ++ pending) := by
        rcases hpending with ⟨hp, hold⟩ | ⟨r, hp, -, hcarries, hnew⟩
        · rw [if_neg hold, hp, List.append_nil]
          exact hdone
        · rw [if_pos hnew, hp]
          exact List.rel_append hdone (.cons hcarries .nil)
      obtain ⟨m', hm', hexecuted⟩ := ih (m := ⟨{ m.link with machine := t }, _⟩) [] (done ++ pending)
        ⟨hholds.stored, hholds.counted, hholds.requests, hholds.exist⟩ hcount hdone' (.inl ⟨rfl, hidle⟩) hes
      refine ⟨m', ?_, ?_⟩
      · show (Option.map _ (emcmotCommandHandler m.link.machine j)).bind _ = _
        rw [ht]
        exact hm'
      · rw [List.append_nil] at hexecuted
        exact hexecuted
    | skip => exact ih pending done hholds hcount hdone hpending hes

/-- Each call of `ProcessTask` leads to at most one execution, and to one only if the handler gets its turn. -/
theorem run_executed {es : List MailEvent} {m m' : Mailbox K} {b : Bool} (hb : b = false → ¬ m.link.machine.Pending)
    (h : m.run es = some m') :
    m'.executed.length ≤ m.executed.length + b.toNat + processes es ∧
      (m'.executed.length = m.executed.length + b.toNat + processes es → Delivers b es) := by
  -- over the events; `b` says whether a request may be pending
  induction es generalizing m b with
  | nil =>
    cases h
    cases b with
    | false => exact ⟨Nat.le_refl _, fun _ => rfl⟩
    | true =>
      refine ⟨Nat.le_succ _, fun heq => ?_⟩
      simp [processes] at heq
  | cons e es ih =>
    cases e with
    | process =>
      obtain ⟨m₁, hm₁, h⟩ := Option.bind_eq_some_iff.1 h
      obtain ⟨d, -, rfl⟩ := Option.map_eq_some_iff.1 hm₁
      obtain ⟨hle, hdelivers⟩ := ih (b := true) (fun h => Bool.noConfusion h) h
      have hle' : m'.executed.length ≤ m.executed.length + 1 + processes es := hle
      have hcount : processes (.process :: es) = processes es + 1 := rfl
      cases b with
      | false =>
        refine ⟨?_, fun heq => ⟨rfl, hdelivers ?_⟩⟩
        · rw [hcount, Bool.toNat_false]
          omega
        · rw [hcount, Bool.toNat_false] at heq
          show m'.executed.length = m.executed.length + 1 + processes es
          omega
      | true =>
        refine ⟨?_, fun heq => ?_⟩
        · rw [hcount, Bool.toNat_true]
          omega
        · rw [hcount, Bool.toNat_true] at heq
          omega
    | handle j =>
      obtain ⟨m₁, hm₁, h⟩ := Option.bind_eq_some_iff.1 h
      obtain ⟨t, ht, rfl⟩ := Option.map_eq_some_iff.1 hm₁
      obtain ⟨hnum, hecho⟩ := emcmotCommandHandler_taken ht
      obtain ⟨hle, hdelivers⟩ := ih (b := false) (fun _ => by
        unfold Machine.Pending
        rw [hnum, hecho]
        exact not_not.2 rfl) h
      have hcount : processes (.handle j :: es) = processes es := rfl
      have hlength : (if m.link.machine.Pending then m.executed ++ [m.link.machine] else m.executed).length ≤
          m.executed.length + b.toNat := by
        by_cases hpending : m.link.machine.Pending
        · have hbt : b = true := by
            by_contra hf
            exact hb (by simpa using hf) hpending
          rw [if_pos hpending, hbt, List.length_append]
          exact Nat.le_refl _
        · rw [if_neg hpending]
          omega
      rw [Bool.toNat_false] at hle hdelivers
      dsimp only at hle hdelivers
      refine ⟨by rw [hcount]; omega, fun heq => hdelivers ?_⟩
      rw [hcount] at heq
      omega
    | skip => exact ih hb h

/-- Every request in the ring is executed exactly once, in order and with its parameters, exactly if the handler gets
its turn after each call of `ProcessTask`. -/
theorem delivered_iff {K : Type} [Int32Arith K] {d : Downlink K} {rs : List Request} (hholds : Holds d rs)
    (hidle : ¬ d.machine.Pending) {es : List MailEvent} (hcount : processes es = rs.length) :
    (∃ m', (Mailbox.mk d []).run es = some m' ∧ List.Forall₂ Carries m'.executed rs) ↔ Delivers false es := by
  constructor
  · rintro ⟨m', hrun, hexecuted⟩
    obtain ⟨-, hdelivers⟩ := run_executed (b := false) (m := ⟨d, []⟩) (fun _ => hidle) hrun
    refine hdelivers ?_
    rw [hexecuted.length_eq, hcount]
    simp
  · intro hes
    exact run_delivers (m := ⟨d, []⟩) [] [] hholds hcount .nil (.inl ⟨rfl, hidle⟩) hes

/-! ### Examples of delivery -/

/-- The system at its start, with the frames of these packets in the ring. -/
noncomputable def loadedDownlink (p q : Packet) (n : Nat) : Downlink Wrapped where
  rx := ⟨⟨fun i => if i = 0 then p.frame else q.frame, 0, n, n⟩, n, q.frame⟩
  machine := initMachine 3

theorem initMachine_idle {K : Type} [Arith K] (numAxes : Int) : ¬ (initMachine numAxes : Machine K).Pending := by
  obtain ⟨_, _, _, _, _, _, _, h⟩ := initMachine_eq (K := K) numAxes
  rw [h]
  exact not_not.2 rfl

/-- A request to enable motion. -/
def enablePacket : Packet := ⟨0x55AA55AA, [4, 0, 0, 0, 0, 0, 0, 0], 12⟩

theorem loadedDownlink_holds : Holds (loadedDownlink enablePacket coordPacket 2)
    [.plain .motionEnable 0, .plain .setCoord 0] :=
  ⟨⟨rfl, by decide⟩, by decide, rfl, by decide⟩

/-- With the handler between them both commands are executed, though it does not get the mutex at first. -/
theorem delivered_iff_two : (∃ m', (Mailbox.mk (loadedDownlink enablePacket coordPacket 2) []).run
      [.process, .skip, .handle false, .process, .handle false] = some m' ∧
      List.Forall₂ Carries m'.executed [.plain .motionEnable 0, .plain .setCoord 0]) ↔
    Delivers false [.process, .skip, .handle false, .process, .handle false] :=
  delivered_iff loadedDownlink_holds (initMachine_idle 3) rfl

/-- Two frames taken before the handler gets its turn: the first command is lost. -/
theorem delivered_lost : Holds (loadedDownlink enablePacket coordPacket 2)
      [.plain .motionEnable 0, .plain .setCoord 0] ∧
    ¬ ∃ m', (Mailbox.mk (loadedDownlink enablePacket coordPacket 2) []).run [.process, .process, .handle false] =
      some m' ∧ List.Forall₂ Carries m'.executed [.plain .motionEnable 0, .plain .setCoord 0] := by
  refine ⟨loadedDownlink_holds, ?_⟩
  rintro ⟨m', hrun, hexecuted⟩
  obtain ⟨-, hdelivers⟩ := run_executed (b := false) (fun _ => initMachine_idle 3) hrun
  obtain ⟨-, hfree, -⟩ := hdelivers hexecuted.length_eq
  cases hfree

end SoemMotion
