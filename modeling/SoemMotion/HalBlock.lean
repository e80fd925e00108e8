import SoemMotion.HalComponents
import SoemMotion.Lib.Ring

/-!
# The shared memory block of the HAL library

The operations of `hal_lib.c` over the whole block: components, pins, parameters, functions, threads and the function
entries of the threads.  A structure is known by its offset in the block, and what lies at an offset is read as the
kind of structure that is looked for there; a structure that has never been handed out holds what was left in the
memory.  The pointers of a singly linked list are the list itself; the links of the function entries are kept node by
node.  The numbers that `rtapi_init`, `rtapi_task_new` and `rtapi_task_start` answer are arguments.
-/

namespace SoemMotion

open Lib

/-! ### Structures -/

/-- Why a call never returns: it waits for the mutex it holds, writes through a null pointer, follows a pointer that was
never stored, or walks for ever. -/
inductive HalFault
  | deadlock
  | null
  | dangling
  | endless
  deriving DecidableEq, Repr

abbrev HalRun (α : Type) := Except HalFault α

/-- `component_type_t`. -/
inductive ComponentType
  | unknown
  | user
  | realtime
  | other
  deriving DecidableEq

/-- `hal_type_t`. -/
inductive HalType
  | unspecified
  | uninitialized
  | bit
  | float
  | s32
  | u32
  | port
  | s64
  | u64
  | int32
  | max
  deriving DecidableEq

/-- The types of a parameter; a pin may be a port, too. -/
def HalType.isValue : HalType → Bool
  | .bit | .float | .s32 | .u32 | .s64 | .u64 => true
  | _ => false

/-- `hal_param_dir_t`, and any other number. -/
inductive HalParamDir
  | ro
  | rw
  | other
  deriving DecidableEq

/-- `hal_comp_t`. -/
structure CompStruct where
  compId : Int
  type : ComponentType
  ready : Int
  name : CString

/-- `hal_pin_t`. -/
structure PinStruct where
  dataPtrAddr : Int
  owner : Int
  oldname : Int
  type : HalType
  name : CString

/-- `hal_param_t`. -/
structure ParamStruct where
  dataPtr : Int
  owner : Int
  oldname : Int
  type : HalType
  dir : HalParamDir
  name : CString

/-- `hal_funct_t`. -/
structure FunctStruct where
  usesFp : Int
  owner : Int
  reentrant : Int
  users : Int
  arg : Int
  funct : Int
  name : CString

/-- `hal_thread_t`. -/
structure ThreadStruct where
  usesFp : Int
  period : Int
  priority : Int
  taskId : Int
  name : CString
  compId : Int

/-- `hal_funct_entry_t`. -/
structure FunctEntry where
  arg : Int
  funct : Int
  functPtr : Int

/-- The structures of one kind: those on the list, those on the free list, and what is at each offset. -/
structure HalPool (α : Type) where
  list : List Int
  free : List Int
  cell : Int → α

/-- `hal_data_t` and the memory after it; `ptrs` holds the pointers to pin data, and `period` is the base period of the
real-time application, which lies outside the block. -/
structure HalBlock where
  mutex : Bool
  lock : UInt8
  threadsRunning : Int
  shmemBot : Int
  shmemTop : Int
  comps : HalPool CompStruct
  pins : HalPool PinStruct
  params : HalPool ParamStruct
  functs : HalPool FunctStruct
  threads : HalPool ThreadStruct
  entries : Int → FunctEntry
  links : Links Int
  ptrs : Int → Int
  period : Int

/-- The offset of `funct_entry_free` in the block. -/
def functEntryFree : Int := 224

/-- The root of the function entries of a thread: `funct_list` is 48 bytes into a `hal_thread_t`. -/
def functList (thread : Int) : Int := thread + 48

/-- `SHMCHK`. -/
def shmchk (off : Int) : Bool := decide (0 < off ∧ off < halSize)

/-! ### The mutex and the memory -/

/-- `rtapi_mutex_get`, and what is done after it. -/
def HalBlock.rtapiMutexGet {α : Type} (b : HalBlock) (k : HalBlock → HalRun α) : HalRun α :=
  if b.mutex then .error .deadlock else k { b with mutex := true }

/-- `rtapi_mutex_give`. -/
def HalBlock.rtapiMutexGive (b : HalBlock) : HalBlock := { b with mutex := false }

/-- `shmalloc_dn`: where `size` bytes are carved from the top of the free memory. -/
def HalPool.shmallocDn (size bot top : Int) : Option Int :=
  let tmpTop := alignDown size (top - size)
  if tmpTop < bot then none else some tmpTop

/-- The alignment `shmalloc_up` gives `size` bytes. -/
def alignUp (size bot : Int) : Int :=
  if 16 ≤ size then (bot + 15) - (bot + 15) % 16
  else if 8 ≤ size then (bot + 7) - (bot + 7) % 8
  else if 4 ≤ size then (bot + 3) - (bot + 3) % 4
  else if size = 2 then (bot + 1) - (bot + 1) % 2
  else bot

/-- `shmalloc_up`: zero if there is no room. -/
def HalBlock.shmallocUp (size : Int) (b : HalBlock) : Int × HalBlock :=
  let tmpBot := alignUp size b.shmemBot
  if b.shmemTop - tmpBot < size then (0, b) else (tmpBot, { b with shmemBot := tmpBot + size })

namespace HalPool

variable {α : Type}

/-- Write into the structure at an offset. -/
def set (p : Int) (f : α → α) (pool : HalPool α) : HalPool α :=
  { pool with cell := Function.update pool.cell p (f (pool.cell p)) }

/-- `alloc_…_struct`: the first free structure or a new one, emptied by `empty`; and the top of the free memory. -/
def alloc (size : Int) (empty : α → α) (bot top : Int) (pool : HalPool α) : Option (Int × HalPool α × Int) :=
  match pool.free with
  | p :: rest => some (p, { pool with free := rest }.set p empty, top)
  | [] => (shmallocDn size bot top).map fun p => (p, pool.set p empty, p)

/-- `free_…_struct`: the structure emptied by `empty`, and on the free list. -/
def release (p : Int) (empty : α → α) (pool : HalPool α) : HalPool α :=
  { pool.set p empty with free := p :: pool.free }

/-- The search for the place of `new` in a list ordered by name, none if its name is taken. -/
def insertByName (name : α → CString) (new : Int) (pool : HalPool α) : List Int → Option (List Int)
  | [] => some [new]
  | ptr :: rest =>
    if name (pool.cell new) < name (pool.cell ptr) then some (new :: ptr :: rest)
    else if name (pool.cell ptr) = name (pool.cell new) then none
    else (pool.insertByName name new rest).map (ptr :: ·)

end HalPool

namespace HalBlock

/-! ### Handing out and freeing structures -/

/-- `halpr_alloc_comp_struct`. -/
def halprAllocCompStruct (b : HalBlock) : Option (Int × HalBlock) :=
  (b.comps.alloc 104 (fun p => { p with compId := 0, type := .user, name := [] }) b.shmemBot b.shmemTop).map
    fun (p, comps, top) => (p, { b with comps := comps, shmemTop := top })

/-- `alloc_pin_struct`. -/
def allocPinStruct (b : HalBlock) : Option (Int × HalBlock) :=
  (b.pins.alloc 104 (fun p => { p with dataPtrAddr := 0, owner := 0, type := .uninitialized, name := [] })
    b.shmemBot b.shmemTop).map fun (p, pins, top) => (p, { b with pins := pins, shmemTop := top })

/-- `alloc_param_struct`. -/
def allocParamStruct (b : HalBlock) : Option (Int × HalBlock) :=
  (b.params.alloc 88 (fun p => { p with dataPtr := 0, owner := 0, type := .uninitialized, name := [] })
    b.shmemBot b.shmemTop).map fun (p, params, top) => (p, { b with params := params, shmemTop := top })

/-- What `alloc_funct_struct` and `free_funct_struct` leave of a function. -/
def emptyFunct (_ : FunctStruct) : FunctStruct :=
  { usesFp := 0, owner := 0, reentrant := 0, users := 0, arg := 0, funct := 0, name := [] }

/-- `alloc_funct_struct`. -/
def allocFunctStruct (b : HalBlock) : Option (Int × HalBlock) :=
  (b.functs.alloc 112 emptyFunct b.shmemBot b.shmemTop).map
    fun (p, functs, top) => (p, { b with functs := functs, shmemTop := top })

/-- `alloc_thread_struct`. -/
def allocThreadStruct (b : HalBlock) : Option (Int × HalBlock) :=
  (b.threads.alloc 120 (fun p => { p with usesFp := 0, period := 0, priority := 0, taskId := 0, name := [] })
    b.shmemBot b.shmemTop).map fun (p, threads, top) =>
      (p, { b with threads := threads, shmemTop := top, links := b.links.init (functList p) })

/-- Write into a function entry. -/
def setEntry (e : Int) (entry : FunctEntry) (b : HalBlock) : HalBlock :=
  { b with entries := Function.update b.entries e entry }

/-- `alloc_funct_entry_struct`: a new entry is linked to itself before it is known that there was room for one. -/
def allocFunctEntryStruct (b : HalBlock) : HalRun (Int × HalBlock) :=
  let l := b.links.next functEntryFree
  if l ≠ functEntryFree then .ok (l, { b with links := b.links.remove l }.setEntry l ⟨0, 0, 0⟩)
  else
    match HalPool.shmallocDn 40 b.shmemBot b.shmemTop with
    | none => .error .null
    | some p => .ok (p, { b with shmemTop := p, links := b.links.init p }.setEntry p ⟨0, 0, 0⟩)

/-- `free_funct_entry_struct`. -/
def freeFunctEntryStruct (e : Int) (b : HalBlock) : HalBlock :=
  let funct := (b.entries e).functPtr
  let b := if 0 < funct then { b with functs := b.functs.set funct fun p => { p with users := p.users - 1 } } else b
  let b := b.setEntry e ⟨0, 0, 0⟩
  { b with links := b.links.addAfter e functEntryFree }

/-- `free_pin_struct`; no structure that was handed out has an old name. -/
def freePinStruct (p : Int) (b : HalBlock) : HalRun HalBlock :=
  if (b.pins.cell p).oldname ≠ 0 then .error .dangling
  else .ok { b with
    pins := b.pins.release p fun p => { p with dataPtrAddr := 0, owner := 0, type := .uninitialized, name := [] } }

/-- `free_param_struct`. -/
def freeParamStruct (p : Int) (b : HalBlock) : HalRun HalBlock :=
  if (b.params.cell p).oldname ≠ 0 then .error .dangling
  else .ok { b with
    params := b.params.release p fun p => { p with dataPtr := 0, owner := 0, type := .uninitialized, name := [] } }

/-- The walk of `free_funct_struct` along the entries of a thread, from `entry` on. -/
def removeEntries (funct root : Int) : Nat → Int → HalBlock → HalRun HalBlock
  | 0, _, _ => .error .endless
  | n + 1, entry, b =>
    if entry = root then .ok b
    else if (b.entries entry).functPtr = funct then
      removeEntries funct root n (b.links.next entry)
        ({ b with links := b.links.remove entry }.freeFunctEntryStruct entry)
    else removeEntries funct root n (b.links.next entry) b

/-- The loop of `free_funct_struct` over the threads; no walk meets more nodes than there are offsets. -/
def removeFromThreads (funct : Int) : List Int → HalBlock → HalRun HalBlock
  | [], b => .ok b
  | thread :: rest, b =>
    (removeEntries funct (functList thread) halSize.toNat (b.links.next (functList thread)) b).bind fun b =>
      removeFromThreads funct rest b

/-- `free_funct_struct`. -/
def freeFunctStruct (funct : Int) (b : HalBlock) : HalRun HalBlock :=
  (if 0 < (b.functs.cell funct).users then removeFromThreads funct b.threads.list b else .ok b).bind fun b =>
    .ok { b with
      functs := b.functs.release funct emptyFunct, ptrs := Function.update b.ptrs (funct + 48) 0 }

/-- Free one structure after the other. -/
def freeEach (free : Int → HalBlock → HalRun HalBlock) : List Int → HalBlock → HalRun HalBlock
  | [], b => .ok b
  | p :: rest, b => (free p b).bind (freeEach free rest)

/-- `free_comp_struct`: the functions and the parameters of the component go with it. -/
def freeCompStruct (comp : Int) (b : HalBlock) : HalRun HalBlock :=
  let owned := b.functs.list.filter fun p => (b.functs.cell p).owner = comp
  let kept := b.functs.list.filter fun p => (b.functs.cell p).owner ≠ comp
  (freeEach freeFunctStruct owned { b with functs := { b.functs with list := kept } }).bind fun b =>
    let owned := b.params.list.filter fun p => (b.params.cell p).owner = comp
    let kept := b.params.list.filter fun p => (b.params.cell p).owner ≠ comp
    (freeEach freeParamStruct owned { b with params := { b.params with list := kept } }).bind fun b =>
      .ok { b with comps := b.comps.release comp fun p => { p with compId := 0, type := .user, name := [] } }

/-- The walk of `free_thread_struct`: all entries are freed. -/
def clearEntries (root : Int) : Nat → Int → HalBlock → HalRun HalBlock
  | 0, _, _ => .error .endless
  | n + 1, entry, b =>
    if entry = root then .ok b
    else clearEntries root n (b.links.next entry)
      ({ b with links := b.links.remove entry }.freeFunctEntryStruct entry)

/-- `free_thread_struct`. -/
def freeThreadStruct (thread : Int) (b : HalBlock) : HalRun HalBlock :=
  let b := { b with
    threadsRunning := 0
    threads := b.threads.set thread fun p => { p with usesFp := 0, period := 0, priority := 0, taskId := 0 } }
  (clearEntries (functList thread) halSize.toNat (b.links.next (functList thread)) b).bind fun b =>
    .ok { b with threads := b.threads.release thread fun p => { p with name := [] } }

/-! ### Looking things up -/

/-- `halpr_find_comp_by_name`. -/
def halprFindCompByName (name : CString) (b : HalBlock) : Option Int :=
  b.comps.list.find? fun p => (b.comps.cell p).name == name

/-- `halpr_find_comp_by_id`. -/
def halprFindCompById (id : Int) (b : HalBlock) : Option Int :=
  b.comps.list.find? fun p => (b.comps.cell p).compId == id

/-- `halpr_find_funct_by_name`. -/
def halprFindFunctByName (name : CString) (b : HalBlock) : Option Int :=
  b.functs.list.find? fun p => (b.functs.cell p).name == name

/-- `halpr_find_thread_by_name`. -/
def halprFindThreadByName (name : CString) (b : HalBlock) : Option Int :=
  b.threads.list.find? fun p => (b.threads.cell p).name == name

/-! ### Components -/

/-- `hal_init` in a process that has mapped the block; `moduleId` is the number of its `rtapi_init`. -/
def halInit (moduleId : Int) (name : Option CString) (b : HalBlock) : HalRun (Int × HalBlock) :=
  match name with
  | none => .ok (-einval, b)
  | some name =>
    if halNameLen < name.length then .ok (-einval, b)
    else if moduleId < 0 then .ok (-einval, b)
    else b.rtapiMutexGet fun b =>
      if (b.halprFindCompByName (snprintf (halNameLen + 1) name)).isSome then .ok (-einval, b.rtapiMutexGive)
      else
        match b.halprAllocCompStruct with
        | none => .ok (-enomem, b.rtapiMutexGive)
        | some (comp, b) =>
          -- the structure goes to the head of the list, so the last component is found first
          let comps := b.comps.set comp fun p => { p with compId := moduleId, type := .realtime, ready := 0 }
          let b := { b with comps := { comps with list := comp :: comps.list } }
          .ok (moduleId, b.rtapiMutexGive)

/-- `hal_exit`. -/
def halExit (compId : Int) (b : HalBlock) : HalRun (Int × HalBlock) :=
  b.rtapiMutexGet fun b =>
    match b.halprFindCompById compId with
    | none => .ok (-einval, b.rtapiMutexGive)
    | some comp =>
      let list := b.comps.list.eraseP fun p => (b.comps.cell p).compId == compId
      (freeCompStruct comp { b with comps := { b.comps with list := list } }).bind fun b =>
        .ok (0, b.rtapiMutexGive)

/-- `hal_set_unready`. -/
def halSetUnready (compId : Int) (b : HalBlock) : HalRun (Int × HalBlock) :=
  b.rtapiMutexGet fun b =>
    match b.halprFindCompById compId with
    | none => .ok (-einval, b.rtapiMutexGive)
    | some comp => .ok (0, { b with comps := b.comps.set comp fun p => { p with ready := 0 } }.rtapiMutexGive)

/-- `hal_ready`. -/
def halReady (compId : Int) (b : HalBlock) : HalRun (Int × HalBlock) :=
  b.rtapiMutexGet fun b =>
    match b.halprFindCompById compId with
    | none => .ok (-einval, b.rtapiMutexGive)
    | some comp =>
      if 0 < (b.comps.cell comp).ready then .ok (-einval, b.rtapiMutexGive)
      else .ok (0, { b with comps := b.comps.set comp fun p => { p with ready := 1 } }.rtapiMutexGive)

/-- `hal_unready`. -/
def halUnready (compId : Int) (b : HalBlock) : HalRun (Int × HalBlock) :=
  b.rtapiMutexGet fun b =>
    match b.halprFindCompById compId with
    | none => .ok (-einval, b.rtapiMutexGive)
    | some comp =>
      if (b.comps.cell comp).ready < 1 then .ok (-einval, b.rtapiMutexGive)
      else .ok (0, { b with comps := b.comps.set comp fun p => { p with ready := 0 } }.rtapiMutexGive)

/-! ### Pins and parameters -/

/-- `hal_pin_new`. -/
def halPinNew (name : CString) (type : HalType) (dataPtrAddr compId : Int) (b : HalBlock) : HalRun (Int × HalBlock) :=
  if !(type.isValue || type == .port) then .ok (-einval, b)
  else if halNameLen < name.length then .ok (-einval, b)
  else if b.lock &&& halLockLoad ≠ 0 then .ok (-eperm, b)
  else b.rtapiMutexGet fun b =>
    match b.halprFindCompById compId with
    | none => .ok (-einval, b.rtapiMutexGive)
    | some comp =>
      if !shmchk dataPtrAddr then .ok (-einval, b.rtapiMutexGive)
      else if (b.comps.cell comp).ready ≠ 0 then .ok (-einval, b.rtapiMutexGive)
      else
        match b.allocPinStruct with
        | none => .ok (-enomem, b.rtapiMutexGive)
        | some (new, b) =>
          let b := { b with
            pins := b.pins.set new fun p => { p with
              dataPtrAddr := dataPtrAddr, owner := comp, type := type, name := snprintf (halNameLen + 1) name }
            -- the dummy signal is 32 bytes into a `hal_pin_t`
            ptrs := Function.update b.ptrs dataPtrAddr (new + 32) }
          match b.pins.insertByName PinStruct.name new b.pins.list with
          | none => (freePinStruct new b).bind fun b => .ok (-einval, b.rtapiMutexGive)
          | some list => .ok (0, { b with pins := { b.pins with list := list } }.rtapiMutexGive)

/-- `hal_pin_newf`, with the name as its format and arguments give it. -/
def halPinNewf (type : HalType) (dataPtrAddr compId : Int) (name : CString) (b : HalBlock) : HalRun (Int × HalBlock) :=
  if halNameLen < name.length then .ok (-enomem, b) else b.halPinNew name type dataPtrAddr compId

/-- `hal_param_new`. -/
def halParamNew (name : CString) (type : HalType) (dir : HalParamDir) (dataAddr compId : Int) (b : HalBlock) :
    HalRun (Int × HalBlock) :=
  if !type.isValue then .ok (-einval, b)
  else if dir = .other then .ok (-einval, b)
  else if halNameLen < name.length then .ok (-einval, b)
  else if b.lock &&& halLockLoad ≠ 0 then .ok (-eperm, b)
  else b.rtapiMutexGet fun b =>
    match b.halprFindCompById compId with
    | none => .ok (-einval, b.rtapiMutexGive)
    | some comp =>
      if !shmchk dataAddr then .ok (-einval, b.rtapiMutexGive)
      else if (b.comps.cell comp).ready ≠ 0 then .ok (-einval, b.rtapiMutexGive)
      else
        match b.allocParamStruct with
        | none => .ok (-enomem, b.rtapiMutexGive)
        | some (new, b) =>
          let b := { b with params := b.params.set new fun p => { p with
            dataPtr := dataAddr, owner := comp, type := type, dir := dir, name := snprintf (halNameLen + 1) name } }
          match b.params.insertByName ParamStruct.name new b.params.list with
          | none => (freeParamStruct new b).bind fun b => .ok (-einval, b.rtapiMutexGive)
          | some list => .ok (0, { b with params := { b.params with list := list } }.rtapiMutexGive)

/-- `hal_param_float_newf`: the arguments are formatted from a list that is not theirs, so `name` is any text and
`size` any length. -/
def halParamFloatNewf (dir : HalParamDir) (dataAddr compId size : Int) (name : CString) (b : HalBlock) :
    HalRun (Int × HalBlock) :=
  if size = -1 ∨ (halNameLen : Int) < size then .ok (-enomem, b) else b.halParamNew name .float dir dataAddr compId

/-! ### Functions -/

/-- `"%s.tmax-increased"`. -/
def tmaxIncreasedName (name : CString) : CString :=
  snprintf (halNameLen + 1) (name ++ [46, 116, 109, 97, 120, 45, 105, 110, 99, 114, 101, 97, 115, 101, 100])

/-- The last part of `hal_export_funct`: the pin and the parameters of the new function; what becomes of the parameters
is not looked at. -/
def finishFunct (new : Int) (name : CString) (compId : Int) (b : HalBlock) : HalRun (Int × HalBlock) :=
  (b.halPinNewf .s32 (new + 48) compId (timeName name)).bind fun (retval, b) =>
    if retval ≠ 0 then .ok (-einval, b)
    else (b.halParamNew (tmaxName name) .s32 .rw (new + 56) compId).bind fun (_, b) =>
      (b.halParamNew (tmaxIncreasedName name) .bit .ro (new + 60) compId).bind fun (_, b) => .ok (0, b)

/-- `hal_export_funct`. -/
def halExportFunct (name : CString) (funct arg usesFp reentrant compId : Int) (b : HalBlock) :
    HalRun (Int × HalBlock) :=
  if halNameLen < name.length then .ok (-einval, b)
  else if b.lock &&& halLockLoad ≠ 0 then .ok (-eperm, b)
  else b.rtapiMutexGet fun b =>
    match b.halprFindCompById compId with
    | none => .ok (-einval, b.rtapiMutexGive)
    | some comp =>
      if (b.comps.cell comp).type = .user then .ok (-einval, b.rtapiMutexGive)
      else if (b.comps.cell comp).ready ≠ 0 then .ok (-einval, b.rtapiMutexGive)
      else
        match b.allocFunctStruct with
        | none => .ok (-enomem, b.rtapiMutexGive)
        | some (new, b) =>
          let b := { b with functs := b.functs.set new fun p => { p with
            usesFp := usesFp, owner := comp, reentrant := reentrant, users := 0, arg := arg, funct := funct
            name := snprintf (halNameLen + 1) name } }
          match b.functs.insertByName FunctStruct.name new b.functs.list with
          | none => (freeFunctStruct new b).bind fun b => .ok (-einval, b.rtapiMutexGive)
          -- the pin and the parameters each take the mutex anew
          | some list => finishFunct new name compId { b with functs := { b.functs with list := list } }.rtapiMutexGive

/-- `hal_export_functf` neither formats its name nor sets the length it checks: `size` and `name` are what the stack
holds. -/
def halExportFunctf (size : Int) (name : CString) (funct arg usesFp reentrant compId : Int) (b : HalBlock) :
    HalRun (Int × HalBlock) :=
  if size = -1 ∨ (halNameLen : Int) < size then .ok (-enomem, b)
  else b.halExportFunct name funct arg usesFp reentrant compId

/-! ### Threads -/

/-- The answers `hal_create_thread` is given by `rtapi_init`, `rtapi_task_new` and `rtapi_task_start`. -/
structure ThreadAnswer where
  moduleId : Int
  taskNew : Int
  taskStart : Int

/-- The clock of the first thread: set to its period unless it runs, and not slower than the period, up to one
percent. -/
def clockFits (period : UInt64) (b : HalBlock) : Bool × HalBlock :=
  let limit := (period + period / 100).toInt64.toInt
  if b.period = 0 then
    -- `rtapi_clock_set_period` of zero only asks
    (decide (0 ≤ period.toInt64.toInt ∧ period.toInt64.toInt ≤ limit), { b with period := period.toInt64.toInt })
  else (decide (b.period ≤ limit), b)

/-- The last part of `hal_create_thread`: the component of the thread, its parameter and its pin. -/
def finishThread (rt : ThreadAnswer) (new : Int) (name : CString) (b : HalBlock) : HalRun (Int × HalBlock) :=
  (b.halInit rt.moduleId (some (pseudoName name))).bind fun (compId, b) =>
    let b := { b with threads := b.threads.set new fun p => { p with compId := compId } }
    if compId < 0 then .ok (-einval, b)
    else (b.halParamNew (tmaxName name) .s32 .rw (new + 40) compId).bind fun (retval, b) =>
      if retval ≠ 0 then .ok (-einval, b)
      else (b.halPinNewf .s32 (new + 32) compId (timeName name)).bind fun (retval, b) =>
        if retval ≠ 0 then .ok (-einval, b)
        else (b.halReady compId).bind fun (_, b) => .ok (compId, b)

/-- `hal_create_thread` from the clock on, with the structure of the new thread. -/
def startTask (rt : ThreadAnswer) (new : Int) (name : CString) (period : UInt64) (priority : Int) (b : HalBlock) :
    HalRun (Int × HalBlock) :=
  let (fits, b) := if b.threads.list.isEmpty then b.clockFits period else (true, b)
  if !fits then .ok (-einval, b.rtapiMutexGive)
  else
    let b := { b with threads := b.threads.set new fun p => { p with
      period := period.toInt64.toInt, priority := priority } }
    -- a failure from here on leaves the structure neither in the list nor on the free list
    if rt.taskNew < 0 then .ok (-einval, b.rtapiMutexGive)
    else
      let b := { b with threads := b.threads.set new fun p => { p with taskId := rt.taskNew } }
      if rt.taskStart < 0 then .ok (-einval, b.rtapiMutexGive)
      else
        let b := { b with threads := { b.threads with list := new :: b.threads.list } }
        finishThread rt new name b.rtapiMutexGive

/-- `hal_create_thread`. -/
def halCreateThread (rt : ThreadAnswer) (name : CString) (period : UInt64) (usesFp priority : Int) (b : HalBlock) :
    HalRun (Int × HalBlock) :=
  if period = 0 then .ok (-einval, b)
  else if halNameLen < name.length then .ok (-einval, b)
  else if b.lock &&& halLockConfig ≠ 0 then .ok (-eperm, b)
  else b.rtapiMutexGet fun b =>
    if (b.halprFindThreadByName name).isSome then .ok (-einval, b.rtapiMutexGive)
    else
      match b.allocThreadStruct with
      | none => .ok (-enomem, b.rtapiMutexGive)
      | some (new, b) =>
        startTask rt new name period priority { b with threads := b.threads.set new fun p => { p with
          usesFp := usesFp, name := snprintf (halNameLen + 1) name } }

/-- `hal_thread_delete`: the component of the thread is removed by `hal_exit`, which takes the mutex. -/
def halThreadDelete (name : CString) (b : HalBlock) : HalRun (Int × HalBlock) :=
  if b.lock &&& halLockConfig ≠ 0 then .ok (-eperm, b)
  else b.rtapiMutexGet fun b =>
    match b.halprFindThreadByName name with
    | none => .ok (-einval, b.rtapiMutexGive)
    | some thread =>
      (if (b.threads.cell thread).compId ≠ 0 then
          (b.halExit (b.threads.cell thread).compId).bind fun (_, b) =>
            .ok { b with threads := b.threads.set thread fun p => { p with compId := 0 } }
        else .ok b).bind fun b =>
        let list := b.threads.list.eraseP fun p => (b.threads.cell p).name == name
        (freeThreadStruct thread { b with threads := { b.threads with list := list } }).bind fun b =>
          .ok (0, b.rtapiMutexGive)

/-! ### The functions of a thread -/

/-- `n` steps along the links, none if they meet the root. -/
def walk (step : Int → Int) (root : Int) : Nat → Int → Option Int
  | 0, entry => some entry
  | n + 1, entry => if step entry = root then none else walk step root n (step entry)

/-- The entry after which `hal_add_funct_to_thread` inserts: counted from the start of the list, or from its end. -/
def insertionPoint (root position : Int) (b : HalBlock) : Option Int :=
  if 0 < position then walk b.links.next root (position.natAbs - 1) root
  else (walk b.links.prev root (position.natAbs - 1) root).map b.links.prev

/-- `hal_add_funct_to_thread`; a missing name is a null pointer. -/
def halAddFunctToThread (functName threadName : Option CString) (position : Int) (b : HalBlock) :
    HalRun (Int × HalBlock) :=
  if b.lock &&& halLockConfig ≠ 0 then .ok (-eperm, b)
  else b.rtapiMutexGet fun b =>
    if position = 0 then .ok (-einval, b.rtapiMutexGive)
    else
      match functName, threadName with
      | some functName, some threadName =>
        match b.halprFindFunctByName functName with
        | none => .ok (-einval, b.rtapiMutexGive)
        | some funct =>
          if 0 < (b.functs.cell funct).users ∧ (b.functs.cell funct).reentrant = 0 then .ok (-einval, b.rtapiMutexGive)
          else
            match b.halprFindThreadByName threadName with
            | none => .ok (-einval, b.rtapiMutexGive)
            | some thread =>
              if (b.functs.cell funct).usesFp ≠ 0 ∧
                (b.threads.cell thread).usesFp = 0 then .ok (-einval, b.rtapiMutexGive)
              else
                -- both searches stop with an error where they meet the root of the list
                match b.insertionPoint (functList thread) position with
                | none => .ok (-einval, b.rtapiMutexGive)
                | some entry =>
                  b.allocFunctEntryStruct.bind fun (new, b) =>
                    let b := b.setEntry new ⟨(b.functs.cell funct).arg, (b.functs.cell funct).funct, funct⟩
                    let b := { b with
                      links := b.links.addAfter new entry
                      functs := b.functs.set funct fun p => { p with users := p.users + 1 } }
                    .ok (0, b.rtapiMutexGive)
      | _, _ => .ok (-einval, b.rtapiMutexGive)

/-- The search of `hal_del_funct_from_thread` along the entries of a thread, from `entry` on. -/
def findEntry (funct root : Int) (b : HalBlock) : Nat → Int → HalRun (Option Int)
  | 0, _ => .error .endless
  | n + 1, entry =>
    if entry = root then .ok none
    else if (b.entries entry).functPtr = funct then .ok (some entry)
    else findEntry funct root b n (b.links.next entry)

/-- `hal_del_funct_from_thread`. -/
def halDelFunctFromThread (functName threadName : Option CString) (b : HalBlock) : HalRun (Int × HalBlock) :=
  if b.lock &&& halLockConfig ≠ 0 then .ok (-eperm, b)
  else b.rtapiMutexGet fun b =>
    match functName, threadName with
    | some functName, some threadName =>
      match b.halprFindFunctByName functName with
      | none => .ok (-einval, b.rtapiMutexGive)
      | some funct =>
        if (b.functs.cell funct).users = 0 then .ok (-einval, b.rtapiMutexGive)
        else
          match b.halprFindThreadByName threadName with
          | none => .ok (-einval, b.rtapiMutexGive)
          | some thread =>
            -- a list in the block is shorter than the block, so a longer search goes round a cycle
            (findEntry funct (functList thread) b halSize.toNat (b.links.next (functList thread))).bind fun
              | none => .ok (-einval, b.rtapiMutexGive)
              | some entry =>
                .ok (0, ({ b with links := b.links.remove entry }.freeFunctEntryStruct entry).rtapiMutexGive)
    | _, _ => .ok (-einval, b.rtapiMutexGive)

/-! ### The library -/

/-- `init_hal_data`; a `hal_data_t` takes 256 bytes. -/
def initHalData (b : HalBlock) : HalRun (Int × HalBlock) :=
  b.rtapiMutexGet fun b =>
    -- the lists of pins are not among what is reset
    let b := { b with
      comps := { b.comps with list := [], free := [] }
      params := { b.params with list := [], free := [] }
      functs := { b.functs with list := [], free := [] }
      threads := { b.threads with list := [], free := [] }
      threadsRunning := 0, links := b.links.init functEntryFree, shmemBot := 256, shmemTop := halSize, lock := 0 }
    .ok (0, b.rtapiMutexGive)

/-- `hal_app_main`, with the answers of `rtapi_init` and of `rtapi_shmem_new` for this block. -/
def halAppMain (moduleId memId : Int) (b : HalBlock) : HalRun (Int × HalBlock) :=
  if moduleId < 0 then .ok (-einval, b)
  else if memId < 0 then .ok (-einval, b)
  else b.initHalData

/-- The loop of `hal_app_exit`: each thread is taken from the list and freed. -/
def freeThreads : List Int → HalBlock → HalRun HalBlock
  | [], b => .ok b
  | thread :: rest, b =>
    (freeThreadStruct thread { b with threads := { b.threads with list := rest } }).bind (freeThreads rest)

/-- `hal_app_exit`. -/
def halAppExit (b : HalBlock) : HalRun (Int × HalBlock) :=
  b.rtapiMutexGet fun b => (freeThreads b.threads.list b).bind fun b => .ok (0, b.rtapiMutexGive)

/-- `hal_set_constructor`; nothing reads the constructor of a component. -/
def halSetConstructor (compId : Int) (b : HalBlock) : HalRun (Int × HalBlock) :=
  b.rtapiMutexGet fun b =>
    match b.halprFindCompById compId with
    | none => .ok (-einval, b.rtapiMutexGive)
    | some _ => .ok (0, b.rtapiMutexGive)

/-- `hal_comp_name`. -/
def halCompName (compId : Int) (b : HalBlock) : HalRun (Option CString × HalBlock) :=
  b.rtapiMutexGet fun b =>
    .ok ((b.halprFindCompById compId).map fun p => (b.comps.cell p).name, b.rtapiMutexGive)

/-- `hal_set_lock`. -/
def halSetLock (lockType : UInt8) (b : HalBlock) : Int × HalBlock := (0, { b with lock := lockType })

/-- `hal_get_lock`. -/
def halGetLock (b : HalBlock) : UInt8 × HalBlock := (b.lock, b)

/-- `hal_start_threads` and `hal_stop_threads`, by the value they store; `HAL_LOCK_RUN` is 8. -/
def halSetThreadsRunning (running : Int) (b : HalBlock) : Int × HalBlock :=
  if b.lock &&& 8 ≠ 0 then (-eperm, b) else (0, { b with threadsRunning := running })

/-- `hal_start_threads`. -/
def halStartThreads (b : HalBlock) : Int × HalBlock := b.halSetThreadsRunning 1

/-- `hal_stop_threads`. -/
def halStopThreads (b : HalBlock) : Int × HalBlock := b.halSetThreadsRunning 0

/-- `hal_malloc`. -/
def halMalloc (size : Int) (b : HalBlock) : HalRun (Int × HalBlock) :=
  b.rtapiMutexGet fun b => .ok ((b.shmallocUp size).1, (b.shmallocUp size).2.rtapiMutexGive)

end HalBlock

end SoemMotion
