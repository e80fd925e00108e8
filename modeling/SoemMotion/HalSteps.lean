import SoemMotion.HalBlock
import Mathlib.Tactic.Common

/-!
# What the HAL operations do

Each registration checks its request (`itemOwner`, `functOwner`), takes a structure and puts it on its list
(`HalPool.put`).  The equations of this module say so for a block whose mutex is free, and every later result about
these operations uses them instead of the operations themselves.
-/

namespace SoemMotion

open Lib

/-! ### Putting a structure on a list -/

/-- What becomes of a structure that is to be put on a list: there is none left, its name is taken, or it has a
place. -/
inductive Put (α : Type)
  | full
  | taken (new : Int) (pool : HalPool α) (top : Int)
  | placed (new : Int) (pool : HalPool α) (top : Int)

namespace HalPool

variable {α : Type} {size bot top : Int} {empty write : α → α} {name : α → CString}
  {pool pool' : HalPool α} {new top' : Int}

/-- Take a structure, fill it in by `write` and look for its place. -/
def put (size : Int) (empty write : α → α) (name : α → CString) (bot top : Int) (pool : HalPool α) : Put α :=
  match pool.alloc size empty bot top with
  | none => .full
  | some (new, pool, top) =>
    match (pool.set new write).insertByName name new pool.list with
    | none => .taken new (pool.set new write) top
    | some list => .placed new { pool.set new write with list := list } top

/-- The structure `new` has been taken: from the free list, or from the top of the memory. -/
structure Takes (size bot top : Int) (pool : HalPool α) (new : Int) (free : List Int) (top' : Int) : Prop where
  source : pool.free = new :: free ∧ top' = top ∨
    pool.free = [] ∧ free = [] ∧ shmallocDn size bot top = some new ∧ top' = new

theorem alloc_takes (h : pool.alloc size empty bot top = some (new, pool', top')) :
    Takes size bot top pool new pool'.free top' ∧ pool'.list = pool.list ∧
      pool'.cell = Function.update pool.cell new (empty (pool.cell new)) := by
  unfold alloc at h
  split at h
  · rename_i p rest hfree
    cases h
    exact ⟨⟨.inl ⟨hfree, rfl⟩⟩, rfl, rfl⟩
  · rename_i hfree
    obtain ⟨p, hp, heq⟩ := Option.map_eq_some_iff.1 h
    cases heq
    exact ⟨⟨.inr ⟨hfree, hfree, hp, rfl⟩⟩, rfl, rfl⟩

/-- A place in the list is between two of its parts. -/
theorem insertByName_some {l list : List Int} (h : pool.insertByName name new l = some list) :
    ∃ l₁ l₂, l = l₁ ++ l₂ ∧ list = l₁ ++ new :: l₂ := by
  induction l generalizing list with
  | nil =>
    cases h
    exact ⟨[], [], rfl, rfl⟩
  | cons ptr rest ih =>
    unfold insertByName at h
    split at h
    · cases h
      exact ⟨[], ptr :: rest, rfl, rfl⟩
    · split at h
      · cases h
      · obtain ⟨l, hl, rfl⟩ := Option.map_eq_some_iff.1 h
        obtain ⟨l₁, l₂, rfl, rfl⟩ := ih hl
        exact ⟨ptr :: l₁, l₂, rfl, rfl⟩

/-- What a structure taken for a list leaves of the pool. -/
structure Taken (size : Int) (empty write : α → α) (bot top : Int) (pool : HalPool α) (new : Int) (pool' : HalPool α)
    (top' : Int) : Prop where
  takes : Takes size bot top pool new pool'.free top'
  cell : pool'.cell = Function.update pool.cell new (write (empty (pool.cell new)))

/-- A structure that is freed again leaves all others as they were. -/
theorem Taken.release_cell (h : Taken size empty write bot top pool new pool' top') (f : α → α) :
    ∀ p ≠ new, (pool'.release new f).cell p = pool.cell p := by
  intro p hp
  show Function.update pool'.cell new _ p = _
  rw [Function.update_of_ne hp, h.cell, Function.update_of_ne hp]

theorem put_taken (h : pool.put size empty write name bot top = .taken new pool' top') :
    Taken size empty write bot top pool new pool' top' ∧ pool'.list = pool.list := by
  unfold put at h
  split at h
  · cases h
  · rename_i p pool₁ top₁ halloc
    obtain ⟨htakes, hlist, hcell⟩ := alloc_takes halloc
    split at h
    · cases h
      refine ⟨⟨htakes, ?_⟩, hlist⟩
      simp [set, hcell]
    · cases h

theorem put_placed (h : pool.put size empty write name bot top = .placed new pool' top') :
    Taken size empty write bot top pool new pool' top' ∧ ∃ l₁ l₂, pool.list = l₁ ++ l₂ ∧
    pool'.list = l₁ ++ new :: l₂ := by
  unfold put at h
  split at h
  · cases h
  · rename_i p pool₁ top₁ halloc
    obtain ⟨htakes, hlist, hcell⟩ := alloc_takes halloc
    split at h
    · cases h
    · rename_i list hins
      cases h
      refine ⟨⟨htakes, ?_⟩, ?_⟩
      · simp [set, hcell]
      · rw [← hlist]
        exact insertByName_some hins

end HalPool

namespace HalBlock

variable {b : HalBlock}

theorem rtapiMutexGet_free {α : Type} (h : b.mutex = false) (k : HalBlock → HalRun α) :
    b.rtapiMutexGet k = k { b with mutex := true } := by
  unfold rtapiMutexGet
  rw [h, if_neg Bool.false_ne_true]

/-- The block between calls. -/
theorem give_eq (h : b.mutex = false) : { b with mutex := true }.rtapiMutexGive = b := by
  obtain ⟨_⟩ := b
  cases h
  rfl

/-! ### Components -/

/-- The checks of `hal_init` before it takes a structure. -/
def compError (moduleId : Int) (name : Option CString) (b : HalBlock) : Option Int :=
  match name with
  | none => some (-einval)
  | some name =>
    if halNameLen < name.length then some (-einval)
    else if moduleId < 0 then some (-einval)
    else if (b.halprFindCompByName (snprintf (halNameLen + 1) name)).isSome then some (-einval)
    else none

theorem compError_neg {moduleId e : Int} {name : Option CString} (h : b.compError moduleId name = some e) : e < 0 := by
  unfold compError at h
  repeat' split at h
  all_goals cases h
  all_goals decide

/-- A component structure emptied by `halpr_alloc_comp_struct`. -/
def takeComp (b : HalBlock) : Option (Int × HalPool CompStruct × Int) :=
  b.comps.alloc 104 (fun p => { p with compId := 0, type := .user, name := [] }) b.shmemBot b.shmemTop

/-- The component `hal_init` puts at the head of the list. -/
def putComp (moduleId comp : Int) (comps : HalPool CompStruct) : HalPool CompStruct :=
  { comps.set comp fun p => { p with compId := moduleId, type := .realtime, ready := 0 } with list := comp :: comps.list }

theorem halInit_eq (hm : b.mutex = false) (moduleId : Int) (name : Option CString) :
    b.halInit moduleId name =
      match b.compError moduleId name with
      | some e => .ok (e, b)
      | none =>
        match b.takeComp with
        | none => .ok (-enomem, b)
        | some (comp, comps, top) =>
          .ok (moduleId, { b with comps := putComp moduleId comp comps, shmemTop := top }) := by
  unfold halInit compError
  cases name with
  | none => rfl
  | some name =>
    dsimp only
    split
    · rfl
    split
    · rfl
    have hfind : ({ b with mutex := true } : HalBlock).halprFindCompByName (snprintf (halNameLen + 1) name) =
        b.halprFindCompByName (snprintf (halNameLen + 1) name) := rfl
    rw [rtapiMutexGet_free hm, hfind]
    split
    · exact congrArg (fun b => Except.ok (-einval, b)) (give_eq hm)
    unfold halprAllocCompStruct takeComp
    dsimp only
    cases b.comps.alloc 104 (fun p => { p with compId := 0, type := .user, name := [] }) b.shmemBot b.shmemTop with
    | none => exact congrArg (fun b => Except.ok (-enomem, b)) (give_eq hm)
    | some r =>
      obtain ⟨comp, comps, top⟩ := r
      simp only [Option.map_some, rtapiMutexGive, hm]
      rfl

/-- The calls that write the readiness of a component. -/
theorem halReady_eq (hm : b.mutex = false) (compId : Int) : b.halReady compId =
    match b.halprFindCompById compId with
    | none => .ok (-einval, b)
    | some comp =>
      if 0 < (b.comps.cell comp).ready then .ok (-einval, b)
      else .ok (0, { b with comps := b.comps.set comp fun p => { p with ready := 1 } }) := by
  have hfind : ({ b with mutex := true } : HalBlock).halprFindCompById compId = b.halprFindCompById compId := rfl
  unfold halReady
  rw [rtapiMutexGet_free hm, hfind]
  cases b.halprFindCompById compId with
  | none => exact congrArg (fun b => Except.ok (-einval, b)) (give_eq hm)
  | some comp =>
    dsimp only
    split
    · exact congrArg (fun b => Except.ok (-einval, b)) (give_eq hm)
    · simp only [rtapiMutexGive, hm]

/-! ### Pins and parameters -/

/-- The checks of `hal_pin_new` and `hal_param_new`, in their order: the error, or the component that will own the
item. -/
def itemOwner (name : CString) (typeOk : Bool) (addr compId : Int) (b : HalBlock) : Except Int Int :=
  if !typeOk then .error (-einval)
  else if halNameLen < name.length then .error (-einval)
  else if b.lock &&& halLockLoad ≠ 0 then .error (-eperm)
  else
    match b.halprFindCompById compId with
    | none => .error (-einval)
    | some comp =>
      if !shmchk addr then .error (-einval)
      else if (b.comps.cell comp).ready ≠ 0 then .error (-einval)
      else .ok comp

/-- The pin that `hal_pin_new` looks for a place for. -/
def putPin (name : CString) (type : HalType) (addr comp : Int) (b : HalBlock) : Put PinStruct :=
  b.pins.put 104 (fun p => { p with dataPtrAddr := 0, owner := 0, type := .uninitialized, name := [] })
    (fun p => { p with dataPtrAddr := addr, owner := comp, type := type, name := snprintf (halNameLen + 1) name })
    PinStruct.name b.shmemBot b.shmemTop

theorem halPinNew_eq (hm : b.mutex = false) (name : CString) (type : HalType) (addr compId : Int) :
    b.halPinNew name type addr compId =
      match b.itemOwner name (type.isValue || type == .port) addr compId with
      | .error e => .ok (e, b)
      | .ok comp =>
        match b.putPin name type addr comp with
        | .full => .ok (-enomem, b)
        | .taken new pins top =>
          if (pins.cell new).oldname ≠ 0 then .error .dangling
          else .ok (-einval, { b with
            pins := pins.release new fun p =>
              { p with dataPtrAddr := 0, owner := 0, type := .uninitialized, name := [] }
            shmemTop := top, ptrs := Function.update b.ptrs addr (new + 32) })
        | .placed new pins top =>
          .ok (0, { b with pins := pins, shmemTop := top, ptrs := Function.update b.ptrs addr (new + 32) }) := by
  unfold halPinNew itemOwner
  split
  · rfl
  split
  · rfl
  split
  · rfl
  rw [rtapiMutexGet_free hm]
  have hfind : ({ b with mutex := true } : HalBlock).halprFindCompById compId = b.halprFindCompById compId := rfl
  rw [hfind]
  cases b.halprFindCompById compId with
  | none => exact congrArg (fun b => Except.ok (-einval, b)) (give_eq hm)
  | some comp =>
    dsimp only
    split
    · exact congrArg (fun b => Except.ok (-einval, b)) (give_eq hm)
    split
    · exact congrArg (fun b => Except.ok (-einval, b)) (give_eq hm)
    unfold allocPinStruct putPin HalPool.put
    dsimp only
    cases b.pins.alloc 104 (fun p => { p with dataPtrAddr := 0, owner := 0, type := .uninitialized, name := [] })
        b.shmemBot b.shmemTop with
    | none => exact congrArg (fun b => Except.ok (-enomem, b)) (give_eq hm)
    | some r =>
      obtain ⟨new, pins, top⟩ := r
      dsimp only [Option.map_some]
      obtain ⟨pins', hpins⟩ : ∃ pins', pins' = pins.set new fun p => { p with
        dataPtrAddr := addr, owner := comp, type := type, name := snprintf (halNameLen + 1) name } := ⟨_, rfl⟩
      have hlist : pins'.list = pins.list := by rw [hpins]; rfl
      rw [← hpins, ← hlist]
      cases hins : pins'.insertByName PinStruct.name new pins'.list with
      | some list =>
        simp only [rtapiMutexGive, hm]
      | none =>
        dsimp only
        unfold freePinStruct
        split
        · rfl
        · simp only [Except.bind, rtapiMutexGive, hm]

/-- The parameter that `hal_param_new` looks for a place for. -/
def putParam (name : CString) (type : HalType) (dir : HalParamDir) (addr comp : Int) (b : HalBlock) : Put ParamStruct :=
  b.params.put 88 (fun p => { p with dataPtr := 0, owner := 0, type := .uninitialized, name := [] })
    (fun p => { p with
      dataPtr := addr, owner := comp, type := type, dir := dir, name := snprintf (halNameLen + 1) name })
    ParamStruct.name b.shmemBot b.shmemTop

theorem halParamNew_eq (hm : b.mutex = false) (name : CString) (type : HalType) (dir : HalParamDir)
    (addr compId : Int) :
    b.halParamNew name type dir addr compId =
      match b.itemOwner name (type.isValue && dir != .other) addr compId with
      | .error e => .ok (e, b)
      | .ok comp =>
        match b.putParam name type dir addr comp with
        | .full => .ok (-enomem, b)
        | .taken new params top =>
          if (params.cell new).oldname ≠ 0 then .error .dangling
          else .ok (-einval, { b with
            params := params.release new fun p =>
            { p with dataPtr := 0, owner := 0, type := .uninitialized, name := [] }
            shmemTop := top })
        | .placed _ params top => .ok (0, { b with params := params, shmemTop := top }) := by
  have hfind : ({ b with mutex := true } : HalBlock).halprFindCompById compId = b.halprFindCompById compId := rfl
  unfold halParamNew itemOwner
  by_cases htype : type.isValue = true
  swap
  · rw [Bool.eq_false_iff.2 htype]
    rfl
  by_cases hdir : dir = .other
  · rw [hdir, htype]
    rfl
  have hok : (type.isValue && dir != .other) = true := by
    rw [htype, Bool.true_and, bne_iff_ne]
    exact hdir
  have hnot : ¬ (!true) = true := Bool.false_ne_true
  rw [hok, htype, if_neg hnot, if_neg hdir, if_neg hnot]
  split
  · rfl
  split
  · rfl
  rw [rtapiMutexGet_free hm, hfind]
  cases b.halprFindCompById compId with
  | none => exact congrArg (fun b => Except.ok (-einval, b)) (give_eq hm)
  | some comp =>
    dsimp only
    split
    · exact congrArg (fun b => Except.ok (-einval, b)) (give_eq hm)
    split
    · exact congrArg (fun b => Except.ok (-einval, b)) (give_eq hm)
    unfold allocParamStruct putParam HalPool.put
    dsimp only
    cases b.params.alloc 88 (fun p => { p with dataPtr := 0, owner := 0, type := .uninitialized, name := [] })
        b.shmemBot b.shmemTop with
    | none => exact congrArg (fun b => Except.ok (-enomem, b)) (give_eq hm)
    | some r =>
      obtain ⟨new, params, top⟩ := r
      dsimp only [Option.map_some]
      obtain ⟨params', hparams⟩ : ∃ params', params' = params.set new fun p => { p with
        dataPtr := addr, owner := comp, type := type, dir := dir, name := snprintf (halNameLen + 1) name } := ⟨_, rfl⟩
      -- filling the structure leaves the list it is inserted into as it was
      have hlist : params'.list = params.list := by rw [hparams]; rfl
      rw [← hparams, ← hlist]
      cases hins : params'.insertByName ParamStruct.name new params'.list with
      | some list =>
        dsimp only
        simp only [rtapiMutexGive, hm]
      | none =>
        dsimp only
        unfold freeParamStruct
        split
        · rfl
        · simp only [Except.bind, rtapiMutexGive, hm]

/-! ### Functions -/

/-- The checks of `hal_export_funct`, in their order. -/
def functOwner (name : CString) (compId : Int) (b : HalBlock) : Except Int Int :=
  if halNameLen < name.length then .error (-einval)
  else if b.lock &&& halLockLoad ≠ 0 then .error (-eperm)
  else
    match b.halprFindCompById compId with
    | none => .error (-einval)
    | some comp =>
      if (b.comps.cell comp).type = .user then .error (-einval)
      else if (b.comps.cell comp).ready ≠ 0 then .error (-einval)
      else .ok comp

/-- The function that `hal_export_funct` looks for a place for. -/
def putFunct (name : CString) (funct arg usesFp reentrant comp : Int) (b : HalBlock) : Put FunctStruct :=
  b.functs.put 112 emptyFunct
    (fun _ =>
      { usesFp := usesFp, owner := comp, reentrant := reentrant, users := 0, arg := arg, funct := funct
        name := snprintf (halNameLen + 1) name })
    FunctStruct.name b.shmemBot b.shmemTop

theorem halExportFunct_eq (hm : b.mutex = false) (name : CString) (funct arg usesFp reentrant compId : Int) :
    b.halExportFunct name funct arg usesFp reentrant compId =
      match b.functOwner name compId with
      | .error e => .ok (e, b)
      | .ok comp =>
        match b.putFunct name funct arg usesFp reentrant comp with
        | .full => .ok (-enomem, b)
        | .taken new functs top =>
          .ok (-einval, { b with
            functs := functs.release new emptyFunct, shmemTop := top, ptrs := Function.update b.ptrs (new + 48) 0 })
        | .placed new functs top => finishFunct new name compId { b with functs := functs, shmemTop := top } := by
  have hfind : ({ b with mutex := true } : HalBlock).halprFindCompById compId = b.halprFindCompById compId := rfl
  unfold halExportFunct functOwner
  split
  · rfl
  split
  · rfl
  rw [rtapiMutexGet_free hm, hfind]
  cases b.halprFindCompById compId with
  | none => exact congrArg (fun b => Except.ok (-einval, b)) (give_eq hm)
  | some comp =>
    dsimp only
    split
    · exact congrArg (fun b => Except.ok (-einval, b)) (give_eq hm)
    split
    · exact congrArg (fun b => Except.ok (-einval, b)) (give_eq hm)
    unfold allocFunctStruct putFunct HalPool.put
    dsimp only
    cases b.functs.alloc 112 emptyFunct b.shmemBot b.shmemTop with
    | none => exact congrArg (fun b => Except.ok (-enomem, b)) (give_eq hm)
    | some r =>
      obtain ⟨new, functs, top⟩ := r
      dsimp only [Option.map_some]
      obtain ⟨functs', hfuncts⟩ : ∃ functs', functs' = functs.set new fun _ =>
          { usesFp := usesFp, owner := comp, reentrant := reentrant, users := 0, arg := arg, funct := funct
            name := snprintf (halNameLen + 1) name } := ⟨_, rfl⟩
      have hnew : functs'.list = functs.list ∧ (functs'.cell new).users = 0 := by
        rw [hfuncts]
        simp [HalPool.set]
      rw [← hfuncts, ← hnew.1]
      cases hins : functs'.insertByName FunctStruct.name new functs'.list with
      | some list =>
        dsimp only
        simp only [rtapiMutexGive, hm]
      | none =>
        dsimp only
        unfold freeFunctStruct
        rw [if_neg (by rw [hnew.2]; decide)]
        simp only [Except.bind, rtapiMutexGive, hm]

/-! ### Threads -/

/-- The checks of `hal_create_thread` before it takes a structure. -/
def threadError (name : CString) (period : UInt64) (b : HalBlock) : Option Int :=
  if period = 0 then some (-einval)
  else if halNameLen < name.length then some (-einval)
  else if b.lock &&& halLockConfig ≠ 0 then some (-eperm)
  else if (b.halprFindThreadByName name).isSome then some (-einval)
  else none

/-- The task of a new thread runs: the clock fits the first one, and the task can be made and started. -/
def taskRuns (rt : ThreadAnswer) (period : UInt64) (b : HalBlock) : Bool :=
  (!b.threads.list.isEmpty || (b.clockFits period).1) && decide (0 ≤ rt.taskNew ∧ 0 ≤ rt.taskStart)

/-- A thread structure emptied by `alloc_thread_struct`. -/
def takeThread (b : HalBlock) : Option (Int × HalPool ThreadStruct × Int) :=
  b.threads.alloc 120 (fun p => { p with usesFp := 0, period := 0, priority := 0, taskId := 0, name := [] })
    b.shmemBot b.shmemTop

theorem halCreateThread_error (hm : b.mutex = false) (rt : ThreadAnswer) {name : CString} {period : UInt64}
    (usesFp priority : Int) {e : Int}
    (h : b.threadError name period = some e ∨ b.threadError name period = none ∧ b.takeThread = none ∧ e = -enomem) :
    b.halCreateThread rt name period usesFp priority = .ok (e, b) := by
  have hfind : ({ b with mutex := true } : HalBlock).halprFindThreadByName name = b.halprFindThreadByName name := rfl
  unfold threadError at h
  unfold halCreateThread
  split
  · rw [if_pos ‹_›] at h
    obtain h | ⟨h, -⟩ := h <;> cases h
    rfl
  rw [if_neg ‹_›] at h
  split
  · rw [if_pos ‹_›] at h
    obtain h | ⟨h, -⟩ := h <;> cases h
    rfl
  rw [if_neg ‹_›] at h
  split
  · rw [if_pos ‹_›] at h
    obtain h | ⟨h, -⟩ := h <;> cases h
    rfl
  rw [if_neg ‹_›] at h
  rw [rtapiMutexGet_free hm, hfind]
  split
  · rw [if_pos ‹_›] at h
    obtain h | ⟨h, -⟩ := h <;> cases h
    exact congrArg (fun b => Except.ok (-einval, b)) (give_eq hm)
  rw [if_neg ‹_›] at h
  obtain h | ⟨-, halloc, rfl⟩ := h
  · cases h
  · unfold takeThread at halloc
    unfold allocThreadStruct
    dsimp only
    rw [halloc]
    exact congrArg (fun b => Except.ok (-enomem, b)) (give_eq hm)

theorem clockFits_eq (period : UInt64) (b : HalBlock) : (b.clockFits period).2 =
    { b with period := (b.clockFits period).2.period } := by
  unfold clockFits
  dsimp only
  split <;> rfl

/-- The base period once the clock has been looked at. -/
def basePeriod (period : UInt64) (b : HalBlock) : Int :=
  if b.threads.list.isEmpty then (b.clockFits period).2.period else b.period

theorem basePeriod_eq (period : UInt64) (b : HalBlock) :
    b.basePeriod period = if b.threads.list.isEmpty ∧ b.period = 0 then period.toInt64.toInt else b.period := by
  unfold basePeriod clockFits
  by_cases hempty : b.threads.list.isEmpty <;> by_cases hperiod : b.period = 0 <;> simp [hempty, hperiod]

/-- What `hal_create_thread` writes into the structure of a thread whose task runs, all but its component. -/
def runningThread (rt : ThreadAnswer) (period : UInt64) (priority : Int) (t : ThreadStruct) : ThreadStruct :=
  { t with period := period.toInt64.toInt, priority := priority, taskId := rt.taskNew }

/-- The start of the task: the thread is kept off the list if it fails, and goes on the list if it does not. -/
theorem startTask_eq (rt : ThreadAnswer) (new : Int) (name : CString) (period : UInt64)
    (priority : Int) (b : HalBlock) :
    ∃ cell base, ((∀ p ≠ new, cell p = b.threads.cell p) ∧ base = b.basePeriod period ∧
        (b.taskRuns rt period → cell new = runningThread rt period priority (b.threads.cell new))) ∧
      b.startTask rt new name period priority =
        if b.taskRuns rt period then finishThread rt new name { b with
          mutex := false, threads := ⟨new :: b.threads.list, b.threads.free, cell⟩, period := base }
        else .ok (-einval, { b with
          mutex := false, threads := ⟨b.threads.list, b.threads.free, cell⟩, period := base }) := by
  -- every write is to the cell of the new thread
  have hset : ∀ (f : ThreadStruct → ThreadStruct) (c : Int → ThreadStruct), (∀ p ≠ new, c p = b.threads.cell p) →
      ∀ p ≠ new, Function.update c new (f (c new)) p = b.threads.cell p := by
    intro f c hc p hp
    rw [Function.update_of_ne hp]
    exact hc p hp
  have hbase : (if b.threads.list.isEmpty then b.clockFits period else (true, b)) =
      (!b.threads.list.isEmpty || (b.clockFits period).1, { b with period := b.basePeriod period }) := by
    unfold basePeriod
    cases b.threads.list.isEmpty with
    | true => exact Prod.ext rfl (clockFits_eq period b)
    | false => rfl
  unfold startTask taskRuns
  rw [hbase]
  dsimp only
  cases hfits : !b.threads.list.isEmpty || (b.clockFits period).1 with
  | false => exact ⟨b.threads.cell, _, ⟨fun _ _ => rfl, rfl, fun h => by cases h⟩, rfl⟩
  | true =>
    rw [if_neg (by simp)]
    rw [Bool.true_and]
    have hplanned := hset (fun p => { p with period := period.toInt64.toInt, priority := priority }) b.threads.cell
      fun _ _ => rfl
    have hmade := hset (fun p => { p with taskId := rt.taskNew }) _ hplanned
    by_cases htask : rt.taskNew < 0
    · refine ⟨_, _, ⟨hplanned, rfl, fun h => absurd (of_decide_eq_true h).1 (by omega)⟩, ?_⟩
      rw [if_pos htask, if_neg fun h => absurd (of_decide_eq_true h).1 (by omega)]
      rfl
    by_cases hstart : rt.taskStart < 0
    · refine ⟨_, _, ⟨hmade, rfl, fun h => absurd (of_decide_eq_true h).2 (by omega)⟩, ?_⟩
      rw [if_neg htask, if_pos hstart, if_neg fun h => absurd (of_decide_eq_true h).2 (by omega)]
      rfl
    · refine ⟨_, _, ⟨hmade, rfl, fun _ => ?_⟩, ?_⟩
      · rw [Function.update_self, Function.update_self]
        rfl
      · rw [if_neg htask, if_neg hstart, if_pos (decide_eq_true ⟨by omega, by omega⟩)]
        rfl

/-- The block with the structure of a new thread. -/
def withThread (new : Int) (threads : HalPool ThreadStruct) (top base : Int) (b : HalBlock) : HalBlock :=
  { b with threads := threads, shmemTop := top, links := b.links.init (functList new), period := base }

/-- `hal_create_thread` once it has taken a structure: it fails and keeps the structure off the list, or it goes on
with the thread on the list. -/
theorem halCreateThread_taken (hm : b.mutex = false) (rt : ThreadAnswer) {name : CString} {period : UInt64}
    (usesFp priority : Int) (hcheck : b.threadError name period = none) {new top : Int} {threads : HalPool ThreadStruct}
    (halloc : b.takeThread = some (new, threads, top)) :
    ∃ cell base, ((∀ p ≠ new, cell p = b.threads.cell p) ∧ base = b.basePeriod period ∧
        (b.taskRuns rt period → cell new = runningThread rt period priority { threads.cell new with
          usesFp := usesFp, name := snprintf (halNameLen + 1) name })) ∧
      b.halCreateThread rt name period usesFp priority =
        if b.taskRuns rt period then
          finishThread rt new name (b.withThread new ⟨new :: b.threads.list, threads.free, cell⟩ top base)
        else .ok (-einval, b.withThread new ⟨b.threads.list, threads.free, cell⟩ top base) := by
  have hfind : ({ b with mutex := true } : HalBlock).halprFindThreadByName name = b.halprFindThreadByName name := rfl
  -- `threadError` makes the checks of the call in their order
  unfold threadError at hcheck
  unfold halCreateThread
  split at hcheck
  · cases hcheck
  rw [if_neg ‹_›]
  split at hcheck
  · cases hcheck
  rw [if_neg ‹_›]
  split at hcheck
  · cases hcheck
  rw [if_neg ‹_›, rtapiMutexGet_free hm, hfind]
  split at hcheck
  · cases hcheck
  rw [if_neg ‹_›]
  unfold takeThread at halloc
  unfold allocThreadStruct
  dsimp only
  rw [halloc]
  obtain ⟨-, hlist, hcell⟩ := HalPool.alloc_takes halloc
  obtain ⟨d, hd⟩ : ∃ d : HalBlock, d = { b with
      mutex := true, threads := threads.set new fun p =>
      { p with usesFp := usesFp, name := snprintf (halNameLen + 1) name }
      shmemTop := top, links := b.links.init (functList new) } := ⟨_, rfl⟩
  -- `d` is the block that `startTask` gets
  obtain ⟨cell, base, ⟨hkept, hbase, hmade⟩, hrun⟩ := startTask_eq rt new name period priority d
  have hruns : d.taskRuns rt period = b.taskRuns rt period := by
    unfold taskRuns clockFits
    rw [hd]
    show ((!threads.list.isEmpty || _) && _) = ((!b.threads.list.isEmpty || _) && _)
    rw [hlist]
    dsimp only
    split <;> rfl
  refine ⟨cell, base, ⟨?_, ?_, ?_⟩, ?_⟩
  · intro p hp
    rw [hkept p hp, hd]
    show Function.update threads.cell new _ p = _
    rw [Function.update_of_ne hp, hcell, Function.update_of_ne hp]
  · rw [hbase, hd]
    rw [basePeriod_eq, basePeriod_eq]
    show (if threads.list.isEmpty ∧ b.period = 0 then _ else b.period) = _
    rw [hlist]
  · intro htask
    rw [hmade (hruns.trans htask), hd]
    exact congrArg _ (Function.update_self _ _ _)
  · have hlist' : d.threads.list = b.threads.list ∧ d.threads.free = threads.free := by
      rw [hd]
      exact ⟨hlist, rfl⟩
    rw [hruns, hlist'.1, hlist'.2, hd] at hrun
    unfold withThread
    rw [hm]
    exact hrun

/-! ### The functions of a thread -/

/-- The checks of `hal_add_funct_to_thread`, in their order: the error, or the function and the entry to insert
after. -/
def addPlace (functName threadName : Option CString) (position : Int) (b : HalBlock) : Except Int (Int × Int × Int) :=
  if b.lock &&& halLockConfig ≠ 0 then .error (-eperm)
  else if position = 0 then .error (-einval)
  else
    match functName, threadName with
    | some functName, some threadName =>
      match b.halprFindFunctByName functName with
      | none => .error (-einval)
      | some funct =>
        if 0 < (b.functs.cell funct).users ∧ (b.functs.cell funct).reentrant = 0 then .error (-einval)
        else
          match b.halprFindThreadByName threadName with
          | none => .error (-einval)
          | some thread =>
            if (b.functs.cell funct).usesFp ≠ 0 ∧ (b.threads.cell thread).usesFp = 0 then .error (-einval)
            else
              match b.insertionPoint (functList thread) position with
              | none => .error (-einval)
              | some entry => .ok (funct, thread, entry)
    | _, _ => .error (-einval)

/-- The entry that `hal_add_funct_to_thread` links in. -/
def linkEntry (funct entry new : Int) (b : HalBlock) : HalBlock :=
  { b with
    entries := Function.update b.entries new ⟨(b.functs.cell funct).arg, (b.functs.cell funct).funct, funct⟩
    links := b.links.addAfter new entry
    functs := b.functs.set funct fun p => { p with users := p.users + 1 } }

theorem halAddFunctToThread_eq (hm : b.mutex = false) (functName threadName : Option CString) (position : Int) :
    b.halAddFunctToThread functName threadName position =
      match b.addPlace functName threadName position with
      | .error e => .ok (e, b)
      | .ok (funct, _, entry) => b.allocFunctEntryStruct.bind fun (new, b) => .ok (0, b.linkEntry funct entry new) := by
  have hfunct : ∀ name, ({ b with mutex := true } : HalBlock).halprFindFunctByName name = b.halprFindFunctByName name :=
    fun _ => rfl
  have hthread : ∀ name, ({ b with mutex := true } : HalBlock).halprFindThreadByName name =
    b.halprFindThreadByName name :=
    fun _ => rfl
  have hplace : ∀ root, ({ b with mutex := true } : HalBlock).insertionPoint root position =
    b.insertionPoint root position :=
    fun _ => rfl
  have hback := congrArg (fun b => (Except.ok (-einval, b) : HalRun (Int × HalBlock))) (give_eq hm)
  unfold halAddFunctToThread addPlace
  split
  · rfl
  rw [rtapiMutexGet_free hm]
  split
  · exact hback
  cases functName with
  | none => exact hback
  | some functName =>
    cases threadName with
    | none => exact hback
    | some threadName =>
      dsimp only
      rw [hfunct]
      cases b.halprFindFunctByName functName with
      | none => exact hback
      | some funct =>
        dsimp only
        split
        · exact hback
        rw [hthread]
        cases b.halprFindThreadByName threadName with
        | none => exact hback
        | some thread =>
          dsimp only
          split
          · exact hback
          rw [hplace]
          cases b.insertionPoint (functList thread) position with
          | none => exact hback
          | some entry =>
            dsimp only
            unfold allocFunctEntryStruct
            dsimp only
            split
            · show Except.ok _ = Except.ok _
              unfold linkEntry rtapiMutexGive setEntry
              simp only [hm, Function.update_idem]
            · cases HalPool.shmallocDn 40 b.shmemBot b.shmemTop with
              | none => rfl
              | some new =>
                show Except.ok _ = Except.ok _
                unfold linkEntry rtapiMutexGive setEntry
                simp only [hm, Function.update_idem]

/-- The checks of `hal_del_funct_from_thread` before it looks for the entry: the error, or the function and the
thread. -/
def delPlace (functName threadName : Option CString) (b : HalBlock) : Except Int (Int × Int) :=
  if b.lock &&& halLockConfig ≠ 0 then .error (-eperm)
  else
    match functName, threadName with
    | some functName, some threadName =>
      match b.halprFindFunctByName functName with
      | none => .error (-einval)
      | some funct =>
        if (b.functs.cell funct).users = 0 then .error (-einval)
        else
          match b.halprFindThreadByName threadName with
          | none => .error (-einval)
          | some thread => .ok (funct, thread)
    | _, _ => .error (-einval)

theorem findEntry_mutex (funct root : Int) (mutex : Bool) (n : Nat) (entry : Int) :
    findEntry funct root { b with mutex := mutex } n entry = findEntry funct root b n entry := by
  induction n generalizing entry with
  | zero => rfl
  | succ n ih =>
    unfold findEntry
    rw [ih]

theorem halDelFunctFromThread_eq (hm : b.mutex = false) (functName threadName : Option CString) :
    b.halDelFunctFromThread functName threadName =
      match b.delPlace functName threadName with
      | .error e => .ok (e, b)
      | .ok (funct, thread) =>
        (findEntry funct (functList thread) b halSize.toNat (b.links.next (functList thread))).bind fun
          | none => .ok (-einval, b)
          | some entry => .ok (0, { b with links := b.links.remove entry }.freeFunctEntryStruct entry) := by
  have hfunct : ∀ name, ({ b with mutex := true } : HalBlock).halprFindFunctByName name = b.halprFindFunctByName name :=
    fun _ => rfl
  have hthread : ∀ name, ({ b with mutex := true } : HalBlock).halprFindThreadByName name =
    b.halprFindThreadByName name :=
    fun _ => rfl
  have hback := congrArg (fun b => (Except.ok (-einval, b) : HalRun (Int × HalBlock))) (give_eq hm)
  unfold halDelFunctFromThread delPlace
  split
  · rfl
  rw [rtapiMutexGet_free hm]
  cases functName with
  | none => exact hback
  | some functName =>
    cases threadName with
    | none => exact hback
    | some threadName =>
      dsimp only
      rw [hfunct]
      cases b.halprFindFunctByName functName with
      | none => exact hback
      | some funct =>
        dsimp only
        split
        · exact hback
        rw [hthread]
        cases b.halprFindThreadByName threadName with
        | none => exact hback
        | some thread =>
          dsimp only
          rw [findEntry_mutex]
          cases findEntry funct (functList thread) b halSize.toNat (b.links.next (functList thread)) with
          | error e => rfl
          | ok found =>
            cases found with
            | none => exact hback
            | some entry =>
              show Except.ok _ = Except.ok _
              unfold freeFunctEntryStruct
              dsimp only
              split <;> simp only [rtapiMutexGive, setEntry, hm]

end HalBlock

end SoemMotion
