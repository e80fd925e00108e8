import SoemMotion.HalRelink

/-!
# The task of a thread

`thread_task` walks along the entries of its thread once a period and calls the function of each.  It does not take the
mutex, so other threads may call the library while one of its functions runs.  As long as they leave the entry whose
function runs where it is, the task stays on the list of its own thread (`thread_task_calls`), and meets every entry
that stays on the list once, in the order of the list (`thread_task_pass`).
-/

namespace SoemMotion

open Lib HalBlock

/-! ### The steps of the task -/

namespace HalBlock

/-- The entry `thread_task` begins a period with: none while the threads do not run, and none on an empty list. -/
def firstEntry (thread : Int) (b : HalBlock) : Option Int :=
  if 0 < b.threadsRunning then
    let functEntry := b.links.next (functList thread)
    if functEntry = functList thread then none else some functEntry
  else none

/-- The entry after that of a function which has returned; the times of the function and of the thread are left out. -/
def nextEntry (thread functEntry : Int) (b : HalBlock) : Option Int :=
  -- the loop is left where an entry has no function any more
  if (b.entries functEntry).functPtr = 0 then none
  else
    let functEntry := b.links.next functEntry
    if functEntry = functList thread then none else some functEntry

end HalBlock

/-- `funct_entry->funct(funct_entry->arg, thread->period)`. -/
structure FunctCall where
  funct : Int
  arg : Int
  period : Int
  deriving DecidableEq

def HalBlock.functCall (thread functEntry : Int) (b : HalBlock) : FunctCall :=
  ⟨(b.entries functEntry).funct, (b.entries functEntry).arg, (b.threads.cell thread).period⟩

/-- The block, the entry whose function runs, and the entries whose functions have been called in this period. -/
structure ThreadTask where
  block : HalBlock
  functEntry : Option Int
  called : List Int

/-- A call of the library by another thread, the start of a period, or the end of a function. -/
inductive TaskEvent
  | hal (c : BlockCall)
  | start
  | next

/-- What may happen to the task of a thread.  A thread that is freed takes its task with it. -/
inductive TaskStep (thread : Int) (s : ThreadTask) : TaskEvent → ThreadTask → Prop
  | hal (c : BlockCall) (r : Int) (b : HalBlock) (hc : c.InRun) (hrun : c.run s.block = .ok (r, b)) :
    TaskStep thread s (.hal c)
      { s with block := b, functEntry := if thread ∈ b.threads.list then s.functEntry else none }
  | start (hthread : thread ∈ s.block.threads.list) (hwait : s.functEntry = none) :
    TaskStep thread s .start
      { s with functEntry := s.block.firstEntry thread, called := (s.block.firstEntry thread).toList }
  | next (functEntry : Int) (hruns : s.functEntry = some functEntry) :
    TaskStep thread s .next
      { s with
        functEntry := s.block.nextEntry thread functEntry
        called := s.called ++ (s.block.nextEntry thread functEntry).toList }

/-- No call takes the entry whose function runs from its thread. -/
def ThreadTask.Steady (thread : Int) (_ : ThreadTask) : TaskEvent → ThreadTask → Prop
  | .hal _, s => ∀ e, s.functEntry = some e → e ∈ s.block.entriesOf (functList thread)
  | _, _ => True

/-! ### On the list -/

variable {b b₀ : HalBlock} {thread : Int} {s s' s₀ s₁ s₂ : ThreadTask} {ev : TaskEvent}

section Entries

variable (h : b.Sound) (hthread : thread ∈ b.threads.list)

include h hthread

theorem HalBlock.Sound.ring : Ring b.links (functList thread) (b.entriesOf (functList thread)) := by
  obtain ⟨es, hes⟩ := h.entries
  have hroot := mem_ringRoots (List.mem_append_left b.threads.free hthread)
  rw [hes.entriesOf_eq hroot]
  exact hes.rings.ring _ hroot

theorem HalBlock.Sound.entriesOf_nodup : (b.entriesOf (functList thread)).Nodup :=
  (List.nodup_cons.1 (h.ring hthread).nodup).2

theorem HalBlock.Sound.functPtr_ne {e : Int} (he : e ∈ b.entriesOf (functList thread)) :
    (b.entries e).functPtr ≠ 0 := by
  have hbound := (h.functs.bound _ (List.mem_append_left _ (h.counted.refers thread hthread e he))).1
  have hmem := h.memory
  omega

/-- The node after a place, none if it is the root. -/
theorem HalBlock.Sound.next_at {as bs xs : List Int} {p : Int} (hsplit : b.entriesOf (functList thread) = as ++ bs)
    (hp : functList thread :: as = xs ++ [p]) :
    (if b.links.next p = functList thread then none else some (b.links.next p)) = bs.head? := by
  have hring := h.ring hthread
  rw [hsplit] at hring
  cases bs with
  | nil =>
    rw [hring.next_eq hp (List.nil_append [functList thread]), if_pos rfl]
    rfl
  | cons n bs =>
    have hne : n ≠ functList thread := by
      rintro rfl
      exact (List.nodup_cons.1 hring.nodup).1 (by simp)
    rw [hring.next_eq hp (List.cons_append), if_neg hne]
    rfl

theorem HalBlock.Sound.firstEntry_eq (hrunning : 0 < b.threadsRunning) :
    b.firstEntry thread = (b.entriesOf (functList thread)).head? := by
  unfold firstEntry
  rw [if_pos hrunning]
  exact h.next_at hthread (List.nil_append _).symm (List.nil_append [functList thread]).symm

theorem HalBlock.Sound.nextEntry_eq {e : Int} (he : e ∈ b.entriesOf (functList thread)) :
    b.nextEntry thread e = (after e (b.entriesOf (functList thread))).head? := by
  obtain ⟨as, hsplit, -, -⟩ := split_at_mem (h.entriesOf_nodup hthread) he
  have hplace : b.entriesOf (functList thread) = (as ++ [e]) ++ after e (b.entriesOf (functList thread)) := by
    rw [List.append_assoc]
    exact hsplit
  unfold nextEntry
  rw [if_neg (h.functPtr_ne hthread he)]
  exact h.next_at hthread hplace (List.cons_append).symm

end Entries

/-- The task stands at an entry of its thread, if at any. -/
structure ThreadTask.Ok (thread : Int) (s : ThreadTask) : Prop where
  sound : s.block.Sound
  wired : s.block.Wired
  place : ∀ e, s.functEntry = some e →
    thread ∈ s.block.threads.list ∧ e ∈ s.block.entriesOf (functList thread)

theorem TaskStep.ok (hs : s.Ok thread) (hstep : Restrict (TaskStep thread) (ThreadTask.Steady thread) s ev s') :
    s'.Ok thread := by
  obtain ⟨hstep, hsteady⟩ := hstep
  cases hstep with
  | hal c r b hc hrun =>
    have hsound := BlockCall.run_sound hs.sound hc hrun
    refine ⟨hsound, (BlockCall.run_relinked hs.sound hc r b hrun).wired hsound hs.wired, fun e he => ?_⟩
    dsimp only at he
    split at he
    · rename_i hthread
      exact ⟨hthread, hsteady e (by dsimp only; rw [if_pos hthread, he])⟩
    · cases he
  | start hthread hwait =>
    refine ⟨hs.sound, hs.wired, fun e he => ⟨hthread, ?_⟩⟩
    have hfirst : s.block.firstEntry thread = some e := he
    by_cases hrunning : 0 < s.block.threadsRunning
    · rw [hs.sound.firstEntry_eq hthread hrunning] at hfirst
      exact List.mem_of_head? hfirst
    · unfold firstEntry at hfirst
      rw [if_neg hrunning] at hfirst
      cases hfirst
  | next functEntry hruns =>
    obtain ⟨hthread, hmem⟩ := hs.place functEntry hruns
    refine ⟨hs.sound, hs.wired, fun e he => ⟨hthread, ?_⟩⟩
    have hnext : s.block.nextEntry thread functEntry = some e := he
    rw [hs.sound.nextEntry_eq hthread hmem] at hnext
    exact (List.dropWhile_sublist _).subset (List.mem_of_mem_tail (List.mem_of_head? hnext))

theorem ThreadTask.ok_empty (h : b₀.Empty) : ThreadTask.Ok thread ⟨b₀, none, []⟩ :=
  ⟨h.sound, h.wired, fun _ he => nomatch he⟩

theorem ThreadTask.ok_reaches (h : b₀.Empty)
    (hrun : Reaches (Restrict (TaskStep thread) (ThreadTask.Steady thread)) ⟨b₀, none, []⟩ s) : s.Ok thread :=
  hrun.invariant (fun _ _ _ hs hstep => TaskStep.ok hs hstep) (ThreadTask.ok_empty h)

/-- As long as no call takes away the entry whose function runs, the task is at an entry of its own thread, and what it
calls there is a function on the list, with the code and the argument it was exported with. -/
theorem thread_task_calls (h : b₀.Empty)
    (hrun : Reaches (Restrict (TaskStep thread) (ThreadTask.Steady thread)) ⟨b₀, none, []⟩ s) {e : Int}
    (he : s.functEntry = some e) :
    thread ∈ s.block.threads.list ∧ e ∈ s.block.entriesOf (functList thread) ∧ ∃ f ∈ s.block.functs.list,
      s.block.functCall thread e =
        ⟨(s.block.functs.cell f).funct, (s.block.functs.cell f).arg, (s.block.threads.cell thread).period⟩ := by
  have hok := ThreadTask.ok_reaches h hrun
  obtain ⟨hthread, hmem⟩ := hok.place e he
  obtain ⟨harg, hfunct⟩ := hok.wired.holds thread hthread e hmem
  refine ⟨hthread, hmem, _, hok.wired.refers thread hthread e hmem, ?_⟩
  unfold HalBlock.functCall
  rw [harg, hfunct]

/-- While the task waits, the calls of the library are steps of the system. -/
theorem waiting_reaches (thread : Int) (hrun : Reaches blockStep b₀ b) (called : List Int) :
    Reaches (Restrict (TaskStep thread) (ThreadTask.Steady thread)) ⟨b₀, none, called⟩ ⟨b, none, called⟩ := by
  refine hrun.invariant (I := fun b =>
    Reaches (Restrict (TaskStep thread) (ThreadTask.Steady thread)) ⟨b₀, none, called⟩ ⟨b, none, called⟩) ?_
    (Reaches.refl _)
  rintro b₁ c b₂ hreach ⟨hc, r, hcall⟩
  have hstep : TaskStep thread ⟨b₁, none, called⟩ (.hal c) _ := TaskStep.hal c r b₂ hc hcall
  have hnone : (if thread ∈ b₂.threads.list then (none : Option Int) else none) = none := ite_self _
  dsimp only at hstep
  rw [hnone] at hstep
  exact hreach.tail ⟨hstep, fun e he => nomatch he⟩

/-- A component with two functions, a thread that has both, and the threads running. -/
def taskCalls : List BlockCall :=
  [.init 1 (some [97]), .exportFunct [102] 4096 8192 0 1 1, .exportFunct [103] 4100 8200 0 1 1,
    .createThread ⟨2, 3, 0⟩ [116] 1000000 1 0, .addFunct (some [102]) (some [116]) 1,
    .addFunct (some [103]) (some [116]) (-1), .startThreads]

/-- After these calls the thread begins with the first of two entries, and that one stays if the second function is
deleted from the thread. -/
def taskReady (b : HalBlock) : Bool :=
  (b.halprFindThreadByName [116]).any fun thread => (b.firstEntry thread).any fun e =>
    ((BlockCall.delFunct (some [103]) (some [116])).call b).any fun x =>
      decide (0 < b.threadsRunning) && decide (thread ∈ x.2.threads.list) &&
        decide (e ∈ x.2.entriesOf (functList thread)) && (b.entriesOf (functList thread)).length == 2 &&
          (x.2.entriesOf (functList thread)).length == 1

theorem taskCalls_ready : ∃ (b b' : HalBlock) (thread e r : Int), Reaches blockStep zeroBlock.initialised b ∧
    thread ∈ b.threads.list ∧ 0 < b.threadsRunning ∧ b.firstEntry thread = some e ∧
    (BlockCall.delFunct (some [103]) (some [116])).run b = .ok (r, b') ∧ thread ∈ b'.threads.list ∧
    e ∈ b'.entriesOf (functList thread) ∧ (b.entriesOf (functList thread)).length = 2 ∧
    (b'.entriesOf (functList thread)).length = 1 := by
  have hready : (runCalls BlockCall.call taskCalls zeroBlock.initialised).any (fun x => taskReady x.2) = true := by
    decide +kernel
  obtain ⟨⟨rs, b⟩, hrun, hready⟩ := (Option.any_eq_true _ _).1 hready
  obtain ⟨thread, hthread, hready⟩ := (Option.any_eq_true _ _).1 hready
  obtain ⟨e, he, hready⟩ := (Option.any_eq_true _ _).1 hready
  obtain ⟨⟨r, b'⟩, hcall, hready⟩ := (Option.any_eq_true _ _).1 hready
  simp only [Bool.and_eq_true, beq_iff_eq, decide_eq_true_eq] at hready
  obtain ⟨⟨⟨⟨hrunning, hstays⟩, hmem⟩, hlen⟩, hlen'⟩ := hready
  have hin : ∀ c ∈ taskCalls, c.InRun := by
    intro c hc
    simp only [taskCalls, List.mem_cons, List.not_mem_nil, or_false] at hc
    rcases hc with rfl | rfl | rfl | rfl | rfl | rfl | rfl
    all_goals exact trivial
  have hreach : Reaches blockStep zeroBlock.initialised b :=
    runCalls_reaches (fun b c r b' hc hcall => ⟨hin c hc, r, BlockCall.call_eq_some.1 hcall⟩) hrun
  exact ⟨b, b', thread, e, r, hreach, halprFindThreadByName_mem hthread, hrunning, he, BlockCall.call_eq_some.1 hcall,
    hstays, hmem, hlen, hlen'⟩

/-- The thread begins its period with a function that is on the list. -/
theorem thread_task_calls_taskCalls : ∃ (b : HalBlock) (thread e : Int), b.firstEntry thread = some e ∧
    ∃ f ∈ b.functs.list, b.functCall thread e =
      ⟨(b.functs.cell f).funct, (b.functs.cell f).arg, (b.threads.cell thread).period⟩ := by
  obtain ⟨b, -, thread, e, -, hreach, hthread, -, he, -⟩ := taskCalls_ready
  have hrun := (waiting_reaches thread hreach []).tail
    ⟨TaskStep.start (s := ⟨b, none, []⟩) hthread rfl, trivial⟩
  exact ⟨b, thread, e, he, (thread_task_calls zeroBlock_empty hrun he).2.2⟩

/-! ### A pass -/

/-- A step within a period, after which the thread still has the entries `keep`. -/
def ThreadTask.InPass (thread : Int) (keep : List Int) (s : ThreadTask) (ev : TaskEvent) (s' : ThreadTask) : Prop :=
  ev ≠ .start ∧ ThreadTask.Steady thread s ev s' ∧ thread ∈ s'.block.threads.list ∧
    ∀ e ∈ keep, e ∈ s'.block.entriesOf (functList thread)

/-- The pass as a walk along the entries of the thread. -/
def ThreadTask.cursor (thread : Int) (s : ThreadTask) : Cursor Int :=
  ⟨s.block.entriesOf (functList thread), s.functEntry, s.called⟩

/-- A step of a pass is a step of the walk. -/
theorem TaskStep.walks {keep : List Int} (hs : s.Ok thread) (hthread : thread ∈ s.block.threads.list)
    (hstep : Restrict (TaskStep thread) (ThreadTask.InPass thread keep) s ev s') :
    ∃ cev, Restrict Cursor.Step (fun _ _ c => ∀ e ∈ keep, e ∈ c.list) (s.cursor thread) cev (s'.cursor thread) := by
  obtain ⟨hstep, hstart, hsteady, hthread', hkeep⟩ := hstep
  cases hstep with
  | hal c r b hc hrun =>
    have hsound := BlockCall.run_sound hs.sound hc hrun
    have hrelinks := BlockCall.run_relinked hs.sound hc r b hrun
    have hthread' : thread ∈ b.threads.list := hthread'
    have hcursor : ThreadTask.cursor thread ⟨b, if thread ∈ b.threads.list then s.functEntry else none, s.called⟩ =
        { s.cursor thread with list := b.entriesOf (functList thread) } := by
      unfold ThreadTask.cursor
      dsimp only
      rw [if_pos hthread']
    refine ⟨.edit, ?_, hkeep⟩
    rw [hcursor]
    refine Cursor.Step.edit _ (hsound.entriesOf_nodup hthread') (hrelinks.order thread hthread' hthread) ?_
    intro e he
    exact hsteady e (by dsimp only; rw [if_pos hthread']; exact he)
  | start _ _ => exact absurd rfl hstart
  | next functEntry hruns =>
    obtain ⟨-, hmem⟩ := hs.place functEntry hruns
    have hahead : s.block.nextEntry thread functEntry = (s.cursor thread).ahead.head? := by
      rw [hs.sound.nextEntry_eq hthread hmem]
      unfold Cursor.ahead ThreadTask.cursor
      rw [hruns]
    refine ⟨.move, ?_, hkeep⟩
    unfold ThreadTask.cursor at hahead ⊢
    dsimp only
    rw [hahead]
    exact Cursor.Step.move functEntry hruns

theorem pass_walks {keep : List Int} (hs : s₁.Ok thread) (hthread : thread ∈ s₁.block.threads.list)
    (hrun : Reaches (Restrict (TaskStep thread) (ThreadTask.InPass thread keep)) s₁ s₂) :
    (s₂.Ok thread ∧ thread ∈ s₂.block.threads.list) ∧
      Reaches (Restrict Cursor.Step fun _ _ c => ∀ e ∈ keep, e ∈ c.list) (s₁.cursor thread) (s₂.cursor thread) := by
  refine hrun.invariant (I := fun s => (s.Ok thread ∧ thread ∈ s.block.threads.list) ∧
    Reaches (Restrict Cursor.Step fun _ _ c => ∀ e ∈ keep, e ∈ c.list) (s₁.cursor thread) (s.cursor thread)) ?_
    ⟨⟨hs, hthread⟩, Reaches.refl _⟩
  rintro s ev s' ⟨⟨hok, hthread⟩, hwalk⟩ hstep
  obtain ⟨cev, hcursor⟩ := TaskStep.walks hok hthread hstep
  exact ⟨⟨TaskStep.ok hok ⟨hstep.1, hstep.2.2.1⟩, hstep.2.2.2.1⟩, hwalk.tail hcursor⟩

/-- Left alone, a pass comes to its end. -/
theorem pass_ends (hs : s.Ok thread) : ∃ s', Reaches (Restrict (TaskStep thread) fun _ ev _ => ev = .next) s s' ∧
    s'.functEntry = none ∧ s'.block = s.block := by
  -- by the number of entries still to come
  obtain ⟨n, hn⟩ : ∃ n, (s.cursor thread).ahead.length = n := ⟨_, rfl⟩
  induction n using Nat.strong_induction_on generalizing s with
  | _ n ih =>
    cases hruns : s.functEntry with
    | none => exact ⟨s, Reaches.refl s, hruns, rfl⟩
    | some e =>
      obtain ⟨hthread, hmem⟩ := hs.place e hruns
      have hstep : TaskStep thread s .next _ := TaskStep.next e hruns
      obtain ⟨s₁, hs₁⟩ : ∃ s₁ : ThreadTask, s₁ = { s with
        functEntry := s.block.nextEntry thread e
        called := s.called ++ (s.block.nextEntry thread e).toList } := ⟨_, rfl⟩
      rw [← hs₁] at hstep
      have hok : s₁.Ok thread := TaskStep.ok hs ⟨hstep, trivial⟩
      have hfirst : Reaches (Restrict (TaskStep thread) fun _ ev _ => ev = .next) s s₁ :=
        (Reaches.refl s).tail ⟨hstep, rfl⟩
      have hblock : s₁.block = s.block := by rw [hs₁]
      cases hnext : s.block.nextEntry thread e with
      | none => exact ⟨s₁, hfirst, by rw [hs₁]; exact hnext, hblock⟩
      | some e' =>
        have hcursor : (s.cursor thread).Ok := ⟨hs.sound.entriesOf_nodup hthread, fun a ha => (hs.place a ha).2⟩
        have hahead : s.block.nextEntry thread e = (s.cursor thread).ahead.head? := by
          rw [hs.sound.nextEntry_eq hthread hmem]
          unfold Cursor.ahead ThreadTask.cursor
          rw [hruns]
        have hlen : (s₁.cursor thread).ahead.length < n := by
          have hmove := congrArg List.length (Cursor.ahead_move hcursor hruns)
          rw [← hahead, hnext, List.length_append] at hmove
          have hsame : s₁.cursor thread = { s.cursor thread with
              place := some e', seen := (s.cursor thread).seen ++ (some e').toList } := by
            rw [hs₁, hnext]
            rfl
          rw [hsame, ← hn, hmove]
          simp
        obtain ⟨s', hrun, hend, hsame⟩ := ih _ hlen hok rfl
        exact ⟨s', hfirst.trans hrun, hend, hsame.trans hblock⟩

/-- A pass calls the functions of the entries that stay on the list once each, in the order in which they were on it
when it began, whatever else is put in or taken out meanwhile; and from every moment on it comes to its end if it is
left alone. -/
theorem thread_task_pass (h : b₀.Empty)
    (hrun : Reaches (Restrict (TaskStep thread) (ThreadTask.Steady thread)) ⟨b₀, none, []⟩ s₀)
    (hstart : TaskStep thread s₀ .start s₁) (hrunning : 0 < s₀.block.threadsRunning) {keep : List Int}
    (hkeep : ∀ e ∈ keep, e ∈ s₀.block.entriesOf (functList thread))
    (hpass : Reaches (Restrict (TaskStep thread) (ThreadTask.InPass thread keep)) s₁ s₂) :
    (s₂.functEntry = none →
      s₂.called.filter (· ∈ keep) = (s₀.block.entriesOf (functList thread)).filter (· ∈ keep) ∧
      ∀ e ∈ keep, s₂.called.count e = 1) ∧
    ∃ s₃, Reaches (Restrict (TaskStep thread) fun _ ev _ => ev = .next) s₂ s₃ ∧ s₃.functEntry = none := by
  have hok := ThreadTask.ok_reaches h hrun
  have hok₁ := TaskStep.ok hok ⟨hstart, trivial⟩
  cases hstart with
  | start hthread hwait =>
    have hnodup := hok.sound.entriesOf_nodup hthread
    obtain ⟨⟨hok₂, -⟩, hwalk⟩ := pass_walks hok₁ hthread hpass
    have hbegin : ThreadTask.cursor thread { s₀ with
        functEntry := s₀.block.firstEntry thread, called := (s₀.block.firstEntry thread).toList } =
        Cursor.start (s₀.block.entriesOf (functList thread)) := by
      unfold ThreadTask.cursor Cursor.start
      dsimp only
      rw [hok.sound.firstEntry_eq hthread hrunning]
    rw [hbegin] at hwalk
    obtain ⟨-, haccounts⟩ := Cursor.accounts hnodup hkeep hwalk
    refine ⟨fun hend => ?_, ?_⟩
    · have hdone : (s₂.cursor thread).ahead = [] := by
        unfold Cursor.ahead ThreadTask.cursor
        rw [hend]
      rw [hdone, List.append_nil] at haccounts
      have hcalled : s₂.called.filter (· ∈ keep) =
          (s₀.block.entriesOf (functList thread)).filter (· ∈ keep) := haccounts
      refine ⟨hcalled, fun e he => ?_⟩
      have hcount : ∀ l : List Int, (l.filter (· ∈ keep)).count e = l.count e :=
        fun l => List.count_filter (by simpa using he)
      rw [← hcount, hcalled, hcount]
      exact List.count_eq_one_of_mem hnodup (hkeep e he)
    · obtain ⟨s₃, hrest, hend, -⟩ := pass_ends hok₂
      exact ⟨s₃, hrest, hend⟩

/-- While the first function of two runs, the second is deleted from the thread: the pass still comes to its end, and
has called the first one once. -/
theorem thread_task_pass_taskCalls : ∃ (b : HalBlock) (thread e : Int) (s : ThreadTask),
    (b.entriesOf (functList thread)).length = 2 ∧ (s.block.entriesOf (functList thread)).length = 1 ∧
    s.functEntry = none ∧ s.called.count e = 1 := by
  obtain ⟨b, b', thread, e, r, hreach, hthread, hrunning, he, hcall, hthread', hmem, hlen, hlen'⟩ := taskCalls_ready
  have hstart : TaskStep thread ⟨b, none, []⟩ .start _ := TaskStep.start hthread rfl
  obtain ⟨s₁, hs₁⟩ : ∃ s₁ : ThreadTask, s₁ = ⟨b, b.firstEntry thread, (b.firstEntry thread).toList⟩ := ⟨_, rfl⟩
  have hwait := waiting_reaches thread hreach []
  have hkeep : ∀ a ∈ [e], a ∈ b.entriesOf (functList thread) := by
    have hplace := (ThreadTask.ok_reaches zeroBlock_empty (hwait.tail ⟨hstart, trivial⟩)).place e he
    intro a ha
    rw [List.mem_singleton.1 ha]
    exact hplace.2
  have hdel : TaskStep thread s₁ _ _ := TaskStep.hal (.delFunct (some [103]) (some [116])) r b' trivial
    (by rw [hs₁]; exact hcall)
  rw [if_pos hthread'] at hdel
  have hkept : ∀ a ∈ [e], a ∈ b'.entriesOf (functList thread) := by
    intro a ha
    rw [List.mem_singleton.1 ha]
    exact hmem
  have hinPass : s₁.InPass thread [e] (.hal (.delFunct (some [103]) (some [116]))) { s₁ with block := b' } := by
    refine ⟨TaskEvent.noConfusion, fun a ha => ?_, hthread', hkept⟩
    have hplace : b.firstEntry thread = some a := by
      rw [hs₁] at ha
      exact ha
    rw [he] at hplace
    cases hplace
    exact hmem
  have hpass : Reaches (Restrict (TaskStep thread) (ThreadTask.InPass thread [e])) s₁ { s₁ with block := b' } :=
    (Reaches.refl s₁).tail ⟨hdel, hinPass⟩
  rw [← hs₁] at hstart
  obtain ⟨-, s₃, hrest, hend⟩ := thread_task_pass zeroBlock_empty hwait hstart hrunning hkeep hpass
  -- the rest of the pass leaves the block as it is
  have hwhole : s₃.block = b' ∧ Reaches (Restrict (TaskStep thread) (ThreadTask.InPass thread [e])) s₁ s₃ := by
    refine hrest.invariant (I := fun s => s.block = b' ∧
      Reaches (Restrict (TaskStep thread) (ThreadTask.InPass thread [e])) s₁ s) ?_ ⟨rfl, hpass⟩
    rintro s ev s' ⟨hblock, hreach⟩ ⟨hstep, rfl⟩
    have hsame : s'.block = b' := by
      cases hstep
      exact hblock
    refine ⟨hsame, hreach.tail ⟨hstep, TaskEvent.noConfusion, trivial, ?_, ?_⟩⟩
    · rw [hsame]
      exact hthread'
    · rw [hsame]
      exact hkept
  obtain ⟨hdone, -⟩ := thread_task_pass zeroBlock_empty hwait hstart hrunning hkeep hwhole.2
  refine ⟨b, thread, e, s₃, hlen, ?_, hend, (hdone hend).2 e List.mem_cons_self⟩
  rw [hwhole.1]
  exact hlen'

end SoemMotion
