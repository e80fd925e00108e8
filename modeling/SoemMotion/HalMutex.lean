import SoemMotion.HalUsage

/-!
# The mutex of the HAL library

No walk of the library touches the mutex (`Untouched`).  A call that is made while the mutex is free therefore gives it
back, unless it is `hal_thread_delete` of a thread that has a component: `hal_exit` then waits for the mutex that
`hal_thread_delete` holds.
-/

namespace SoemMotion

open Lib HalBlock

namespace HalBlock

/-- Work on the block that neither waits for the mutex nor changes it. -/
def Untouched (mutex : Bool) (run : HalRun HalBlock) : Prop :=
  run ≠ .error .deadlock ∧ ∀ b, run = .ok b → b.mutex = mutex

/-- A call that never waits for the mutex while it holds it, and returns with the mutex free. -/
def Released (run : HalRun (Int × HalBlock)) : Prop :=
  run ≠ .error .deadlock ∧ ∀ r b, run = .ok (r, b) → b.mutex = false

variable {b : HalBlock} {mutex : Bool}

theorem Untouched.ok (b : HalBlock) : Untouched b.mutex (.ok b) := by
  refine ⟨fun h => (nomatch h), fun b' h => ?_⟩
  cases h
  rfl

theorem Untouched.error {e : HalFault} (he : e ≠ .deadlock) : Untouched mutex (.error e) := by
  refine ⟨fun h => he ?_, fun _ h => (nomatch h)⟩
  cases h
  rfl

theorem Untouched.bind {run : HalRun HalBlock} {k : HalBlock → HalRun HalBlock} (h : Untouched mutex run)
    (hk : ∀ b, b.mutex = mutex → Untouched mutex (k b)) : Untouched mutex (run.bind k) := by
  cases run with
  | error e => exact Untouched.error fun he => h.1 (by rw [he])
  | ok b => exact hk b (h.2 b rfl)

theorem Released.ok {r : Int} (h : b.mutex = false) : Released (.ok (r, b)) := by
  refine ⟨fun h => (nomatch h), fun r' b' heq => ?_⟩
  cases heq
  exact h

theorem Released.error {e : HalFault} (he : e ≠ .deadlock) : Released (.error e) := by
  refine ⟨fun h => he ?_, fun _ _ h => (nomatch h)⟩
  cases h
  rfl

/-- A call that goes on after another one. -/
theorem Released.bind {run : HalRun (Int × HalBlock)} {k : Int × HalBlock → HalRun (Int × HalBlock)} (h : Released run)
    (hk : ∀ r b, b.mutex = false → Released (k (r, b))) : Released (run.bind k) := by
  cases run with
  | error e => exact Released.error fun he => h.1 (by rw [he])
  | ok x => exact hk x.1 x.2 (h.2 x.1 x.2 rfl)

/-- A call that gives the mutex back after its work. -/
theorem Untouched.give {run : HalRun HalBlock} (h : Untouched mutex run) (r : Int) :
    Released (run.bind fun b => .ok (r, b.rtapiMutexGive)) := by
  cases run with
  | error e => exact Released.error fun he => h.1 (by rw [he])
  | ok b => exact Released.ok rfl

/-! ### Walks -/

theorem freeFunctEntryStruct_mutex (e : Int) (b : HalBlock) : (b.freeFunctEntryStruct e).mutex = b.mutex := by
  unfold freeFunctEntryStruct setEntry
  dsimp only
  split <;> rfl

theorem removeEntries_untouched (funct root : Int) (n : Nat) (entry : Int) (b : HalBlock) :
    Untouched b.mutex (removeEntries funct root n entry b) := by
  induction n generalizing entry b with
  | zero => exact Untouched.error (by decide)
  | succ n ih =>
    unfold removeEntries
    split
    · exact Untouched.ok b
    split
    · have := ih (b.links.next entry) ({ b with links := b.links.remove entry }.freeFunctEntryStruct entry)
      rwa [freeFunctEntryStruct_mutex] at this
    · exact ih _ b

theorem clearEntries_untouched (root : Int) (n : Nat) (entry : Int) (b : HalBlock) :
    Untouched b.mutex (clearEntries root n entry b) := by
  induction n generalizing entry b with
  | zero => exact Untouched.error (by decide)
  | succ n ih =>
    unfold clearEntries
    split
    · exact Untouched.ok b
    · have := ih (b.links.next entry) ({ b with links := b.links.remove entry }.freeFunctEntryStruct entry)
      rwa [freeFunctEntryStruct_mutex] at this

theorem removeFromThreads_untouched (funct : Int) (ts : List Int) (b : HalBlock) :
    Untouched b.mutex (removeFromThreads funct ts b) := by
  induction ts generalizing b with
  | nil => exact Untouched.ok b
  | cons t ts ih =>
    refine (removeEntries_untouched funct (functList t) halSize.toNat _ b).bind fun b' hb' => ?_
    rw [← hb']
    exact ih b'

theorem freeFunctStruct_untouched (funct : Int) (b : HalBlock) : Untouched b.mutex (freeFunctStruct funct b) := by
  refine Untouched.bind ?_ fun b' hb' => ?_
  · split
    · exact removeFromThreads_untouched funct b.threads.list b
    · exact Untouched.ok b
  · rw [← hb']
    exact Untouched.ok _

theorem freeParamStruct_untouched (p : Int) (b : HalBlock) : Untouched b.mutex (freeParamStruct p b) := by
  unfold freeParamStruct
  split
  · exact Untouched.error (by decide)
  · exact Untouched.ok _

theorem freeEach_untouched {free : Int → HalBlock → HalRun HalBlock} (hfree : ∀ p b, Untouched b.mutex (free p b))
    (ps : List Int) (b : HalBlock) : Untouched b.mutex (freeEach free ps b) := by
  induction ps generalizing b with
  | nil => exact Untouched.ok b
  | cons p ps ih =>
    refine (hfree p b).bind fun b' hb' => ?_
    rw [← hb']
    exact ih b'

theorem freeCompStruct_untouched (comp : Int) (b : HalBlock) : Untouched b.mutex (freeCompStruct comp b) := by
  refine Untouched.bind (freeEach_untouched freeFunctStruct_untouched _ _) fun b' hb' => ?_
  refine Untouched.bind ?_ fun b'' hb'' => ?_
  · rw [← hb']
    exact freeEach_untouched freeParamStruct_untouched _ _
  · rw [← hb'']
    exact Untouched.ok _

theorem freeThreadStruct_untouched (t : Int) (b : HalBlock) : Untouched b.mutex (freeThreadStruct t b) := by
  refine Untouched.bind (clearEntries_untouched _ _ _ _) fun b' hb' => ?_
  rw [← hb']
  exact Untouched.ok _

theorem freeThreads_untouched (ts : List Int) (b : HalBlock) : Untouched b.mutex (freeThreads ts b) := by
  induction ts generalizing b with
  | nil => exact Untouched.ok b
  | cons t ts ih =>
    refine (freeThreadStruct_untouched t _).bind fun b' hb' => ?_
    rw [← hb']
    exact ih b'

theorem findEntry_not_deadlock (funct root : Int) (n : Nat) (entry : Int) :
    findEntry funct root b n entry ≠ .error .deadlock := by
  induction n generalizing entry with
  | zero =>
    intro h
    cases h
  | succ n ih =>
    unfold findEntry
    split
    · intro h
      cases h
    split
    · intro h
      cases h
    · exact ih _

/-! ### Calls -/

theorem halInit_released (hm : b.mutex = false) (moduleId : Int) (name : Option CString) :
    Released (b.halInit moduleId name) := by
  rw [halInit_eq hm]
  split
  · exact Released.ok hm
  split
  · exact Released.ok hm
  · exact Released.ok hm

/-- The calls that look a component up, and give the mutex back on both sides. -/
theorem findComp_released (hm : b.mutex = false) {compId : Int} {k : Int → HalBlock → HalRun (Int × HalBlock)}
    (hk : ∀ comp, Released (k comp { b with mutex := true })) :
    Released (b.rtapiMutexGet fun b =>
      match b.halprFindCompById compId with
      | none => .ok (-einval, b.rtapiMutexGive)
      | some comp => k comp b) :=
  findComp_cases hm (Released.ok rfl) hk

theorem halReady_released (hm : b.mutex = false) (compId : Int) : Released (b.halReady compId) := by
  refine findComp_released hm fun comp => ?_
  split <;> exact Released.ok rfl

theorem halUnready_released (hm : b.mutex = false) (compId : Int) : Released (b.halUnready compId) := by
  refine findComp_released hm fun comp => ?_
  split <;> exact Released.ok rfl

theorem halSetUnready_released (hm : b.mutex = false) (compId : Int) : Released (b.halSetUnready compId) :=
  findComp_released hm fun _ => Released.ok rfl

theorem halSetConstructor_released (hm : b.mutex = false) (compId : Int) : Released (b.halSetConstructor compId) :=
  findComp_released hm fun _ => Released.ok rfl

theorem halExit_released (hm : b.mutex = false) (compId : Int) : Released (b.halExit compId) :=
  findComp_released hm fun comp => (freeCompStruct_untouched comp _).give 0

theorem halPinNew_released (hm : b.mutex = false) (name : CString) (type : HalType) (addr compId : Int) :
    Released (b.halPinNew name type addr compId) := by
  rw [halPinNew_eq hm]
  split
  · exact Released.ok hm
  split
  · exact Released.ok hm
  · split
    · exact Released.error (by decide)
    · exact Released.ok hm
  · exact Released.ok hm

theorem halPinNewf_released (hm : b.mutex = false) (type : HalType) (addr compId : Int) (name : CString) :
    Released (b.halPinNewf type addr compId name) := by
  unfold halPinNewf
  split
  · exact Released.ok hm
  · exact halPinNew_released hm name type addr compId

theorem halParamNew_released (hm : b.mutex = false) (name : CString) (type : HalType) (dir : HalParamDir)
    (addr compId : Int) : Released (b.halParamNew name type dir addr compId) := by
  rw [halParamNew_eq hm]
  split
  · exact Released.ok hm
  split
  · exact Released.ok hm
  · split
    · exact Released.error (by decide)
    · exact Released.ok hm
  · exact Released.ok hm

theorem finishFunct_released (hm : b.mutex = false) (new : Int) (name : CString) (compId : Int) :
    Released (finishFunct new name compId b) := by
  refine (halPinNewf_released hm _ _ _ _).bind fun r b hb => ?_
  dsimp only
  split
  · exact Released.ok hb
  · refine (halParamNew_released hb _ _ _ _ _).bind fun _ b hb => ?_
    exact (halParamNew_released hb _ _ _ _ _).bind fun _ b hb => Released.ok hb

theorem halExportFunct_released (hm : b.mutex = false) (name : CString) (funct arg usesFp reentrant compId : Int) :
    Released (b.halExportFunct name funct arg usesFp reentrant compId) := by
  rw [halExportFunct_eq hm]
  split
  · exact Released.ok hm
  split
  · exact Released.ok hm
  · exact Released.ok hm
  · exact finishFunct_released (by exact hm) _ _ _

theorem finishThread_released (hm : b.mutex = false) (rt : ThreadAnswer) (new : Int) (name : CString) :
    Released (finishThread rt new name b) := by
  refine (halInit_released hm _ _).bind fun compId b hb => ?_
  dsimp only
  split
  · exact Released.ok hb
  · refine (halParamNew_released (by exact hb) _ _ _ _ _).bind fun _ b hb => ?_
    dsimp only
    split
    · exact Released.ok hb
    · refine (halPinNewf_released hb _ _ _ _).bind fun _ b hb => ?_
      dsimp only
      split
      · exact Released.ok hb
      · exact (halReady_released hb _).bind fun _ b hb => Released.ok hb

theorem halCreateThread_released (hm : b.mutex = false) (rt : ThreadAnswer) (name : CString) (period : UInt64)
    (usesFp priority : Int) : Released (b.halCreateThread rt name period usesFp priority) := by
  cases hcheck : b.threadError name period with
  | some e =>
    rw [halCreateThread_error hm rt usesFp priority (.inl hcheck)]
    exact Released.ok hm
  | none =>
    cases htake : b.takeThread with
    | none =>
      rw [halCreateThread_error hm rt usesFp priority (.inr ⟨hcheck, htake, rfl⟩)]
      exact Released.ok hm
    | some x =>
      obtain ⟨cell, base, -, hrun⟩ := halCreateThread_taken hm rt usesFp priority hcheck htake
      rw [hrun]
      split
      · exact finishThread_released (by exact hm) _ _ _
      · exact Released.ok hm

theorem halThreadDelete_released (hm : b.mutex = false) {name : CString} (hno : b.deletesComponent name = false) :
    Released (b.halThreadDelete name) := by
  rw [halThreadDelete_free hm hno]
  split
  · exact Released.ok hm
  cases b.halprFindThreadByName name with
  | none => exact Released.ok hm
  | some t => exact (freeThreadStruct_untouched t _).give 0

theorem halAddFunctToThread_released (hm : b.mutex = false) (functName threadName : Option CString) (position : Int) :
    Released (b.halAddFunctToThread functName threadName position) := by
  rw [halAddFunctToThread_eq hm]
  split
  · exact Released.ok hm
  · unfold allocFunctEntryStruct
    dsimp only
    split
    · exact Released.ok hm
    split
    · exact Released.error (by decide)
    · exact Released.ok hm

theorem halDelFunctFromThread_released (hm : b.mutex = false) (functName threadName : Option CString) :
    Released (b.halDelFunctFromThread functName threadName) := by
  rw [halDelFunctFromThread_eq hm]
  split
  · exact Released.ok hm
  · rename_i funct thread _
    have hfind := findEntry_not_deadlock (b := b) funct (functList thread) halSize.toNat
      (b.links.next (functList thread))
    cases hfound : findEntry funct (functList thread) b halSize.toNat (b.links.next (functList thread)) with
    | error e => exact Released.error fun he => hfind (by rw [hfound, he])
    | ok found =>
      cases found with
      | none => exact Released.ok hm
      | some entry => exact Released.ok ((freeFunctEntryStruct_mutex _ _).trans hm)

end HalBlock

/-! ### Every call -/

variable {b : HalBlock}

theorem BlockCall.run_released (hm : b.mutex = false) {c : BlockCall} (hdead : c.deadlocks b = false) :
    Released (c.run b) := by
  cases c with
  | init moduleId name => exact halInit_released hm moduleId name
  | exit compId => exact halExit_released hm compId
  | setUnready compId => exact halSetUnready_released hm compId
  | ready compId => exact halReady_released hm compId
  | unready compId => exact halUnready_released hm compId
  | pinNew name type dataPtrAddr compId => exact halPinNew_released hm name type dataPtrAddr compId
  | pinNewf type dataPtrAddr compId name => exact halPinNewf_released hm type dataPtrAddr compId name
  | paramNew name type dir dataAddr compId => exact halParamNew_released hm name type dir dataAddr compId
  | paramFloatNewf dir dataAddr compId size name =>
    show Released (b.halParamFloatNewf dir dataAddr compId size name)
    unfold halParamFloatNewf
    split
    · exact Released.ok hm
    · exact halParamNew_released hm _ _ _ _ _
  | exportFunct name funct arg usesFp reentrant compId =>
    exact halExportFunct_released hm name funct arg usesFp reentrant compId
  | exportFunctf size name funct arg usesFp reentrant compId =>
    show Released (b.halExportFunctf size name funct arg usesFp reentrant compId)
    unfold halExportFunctf
    split
    · exact Released.ok hm
    · exact halExportFunct_released hm _ _ _ _ _ _
  | createThread rt name period usesFp priority => exact halCreateThread_released hm rt name period usesFp priority
  | threadDelete name => exact halThreadDelete_released hm hdead
  | addFunct functName threadName position => exact halAddFunctToThread_released hm functName threadName position
  | delFunct functName threadName => exact halDelFunctFromThread_released hm functName threadName
  | appMain moduleId memId =>
    show Released (b.halAppMain moduleId memId)
    unfold halAppMain
    split
    · exact Released.ok hm
    split
    · exact Released.ok hm
    · rw [initHalData_eq hm]
      exact Released.ok hm
  | appExit =>
    show Released b.halAppExit
    unfold halAppExit
    rw [rtapiMutexGet_free hm]
    exact (freeThreads_untouched _ _).give 0
  | setConstructor compId => exact halSetConstructor_released hm compId
  | compName compId =>
    show Released ((b.halCompName compId).map fun answer => (0, answer.2))
    unfold halCompName
    rw [rtapiMutexGet_free hm]
    exact Released.ok rfl
  | setLock lockType => exact Released.ok hm
  | getLock => exact Released.ok hm
  | startThreads =>
    show Released (.ok (b.halSetThreadsRunning 1))
    unfold halSetThreadsRunning
    split <;> exact Released.ok hm
  | stopThreads =>
    show Released (.ok (b.halSetThreadsRunning 0))
    unfold halSetThreadsRunning
    split <;> exact Released.ok hm
  | malloc size =>
    show Released (b.halMalloc size)
    unfold halMalloc
    rw [rtapiMutexGet_free hm]
    exact Released.ok rfl

/-- Every call on a sound block comes back, `hal_app_main` included, unless it deadlocks or starves. -/
theorem BlockCall.run_comesBack (h : b.Sound) {c : BlockCall} (hdead : c.deadlocks b = false)
    (hstarve : c.starves b = false) :
    ∃ r b', c.run b = .ok (r, b') := by
  have hrun : c.InRun → ∃ r b', c.run b = .ok (r, b') := by
    intro hc
    obtain ⟨r, b', hcall, -⟩ := BlockCall.run_returns h hc hdead hstarve
    exact ⟨r, b', hcall⟩
  cases c with
  | appMain moduleId memId =>
    show ∃ r b', b.halAppMain moduleId memId = .ok (r, b')
    unfold halAppMain
    split
    · exact ⟨_, _, rfl⟩
    split
    · exact ⟨_, _, rfl⟩
    · rw [initHalData_eq h.mutex]
      exact ⟨_, _, rfl⟩
  | malloc size =>
    show ∃ r b', b.halMalloc size = .ok (r, b')
    unfold halMalloc
    rw [rtapiMutexGet_free h.mutex]
    exact ⟨_, _, rfl⟩
  | _ => exact hrun trivial

/-- A call made while the mutex is free takes it only while it does not hold it, and returns with the mutex free,
exactly if it is not a `hal_thread_delete` of a thread that has a component.  It comes back, too, exactly if it is not
a `hal_add_funct_to_thread` that finds no memory for its entry either. -/
theorem hal_mutex_discipline (hm : b.mutex = false) (c : BlockCall) :
    (Released (c.run b) ↔ c.deadlocks b = false) ∧
      (b.Sound → ((∃ r b', c.run b = .ok (r, b') ∧ b'.mutex = false) ↔
      c.deadlocks b = false ∧ c.starves b = false)) := by
  have hno : Released (c.run b) → c.deadlocks b = false := by
    intro h
    by_contra hdead
    exact h.1 (BlockCall.run_deadlocks hm (by simpa using hdead))
  refine ⟨⟨hno, BlockCall.run_released hm⟩, fun hsound => ⟨?_, ?_⟩⟩
  · rintro ⟨r, b', hrun, -⟩
    constructor
    · by_contra hdead
      rw [BlockCall.run_deadlocks hm (by simpa using hdead)] at hrun
      cases hrun
    · by_contra hstarve
      rw [BlockCall.run_starves hm (by simpa using hstarve)] at hrun
      cases hrun
  · rintro ⟨hdead, hstarve⟩
    obtain ⟨r, b', hrun⟩ := BlockCall.run_comesBack hsound hdead hstarve
    exact ⟨r, b', hrun, (BlockCall.run_released hm hdead).2 r b' hrun⟩

/-- While a thread runs a function of component 1, that component can leave, and the thread cannot be deleted. -/
theorem hal_mutex_discipline_usageCalls :
    ∃ rs b, runCalls BlockCall.call usageCalls zeroBlock.initialised = some (rs, b) ∧
      (∃ r b', (BlockCall.exit 1).run b = .ok (r, b') ∧ b'.mutex = false) ∧
      ¬ Released ((BlockCall.threadDelete [116]).run b) := by
  have hsome : ((runCalls BlockCall.call usageCalls zeroBlock.initialised).map fun x =>
      (BlockCall.threadDelete [116]).deadlocks x.2) = some true := by
    decide +kernel
  obtain ⟨⟨rs, b⟩, hrun, hdead⟩ := Option.map_eq_some_iff.1 hsome
  have hsound := zeroBlock_empty.reaches (usageCalls_reaches hrun)
  refine ⟨rs, b, hrun, ((hal_mutex_discipline hsound.mutex (.exit 1)).2 hsound).2 ⟨rfl, rfl⟩, fun hreleased => ?_⟩
  have hno := (hal_mutex_discipline hsound.mutex (.threadDelete [116])).1.1 hreleased
  rw [hdead] at hno
  cases hno

/-- A block with a thread, made by `hal_create_thread`. -/
def threadBlock : HalBlock :=
  match (BlockCall.createThread ⟨2, 3, 0⟩ [116] 1000000 1 0).run zeroBlock.initialised with
  | .ok (_, b) => b
  | .error _ => zeroBlock.initialised

/-- The thread cannot be deleted: the call waits for ever. -/
theorem hal_threadDelete_hangs :
    threadBlock.mutex = false ∧ (BlockCall.threadDelete [116]).run threadBlock = .error .deadlock := by
  have hm : threadBlock.mutex = false := by decide +kernel
  exact ⟨hm, halThreadDelete_deadlock hm (by decide +kernel)⟩

end SoemMotion
