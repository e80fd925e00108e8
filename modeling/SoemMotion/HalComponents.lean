import SoemMotion.Lib.Run

/-!
# The component list of the HAL library

`hal_init`, `hal_exit`, `hal_create_thread` and `hal_thread_delete` of `hal_lib.c` over the shared memory block: the
lists of components, parameters, pins and threads, the lists of freed structures, and the memory new structures are
carved from.  The pointers of a list are the list itself; a component keeps its offset in the block, since its
parameters refer to it.  A call that never returns (it waits for a mutex that nobody gives back, or reads through a null
pointer) is `none`.  `HalBlock` has the whole block; `HalView` and `HalViewCalls` show that these calls do to the lists
kept here what the calls on the block do.
-/

namespace SoemMotion

/-- A C string: its bytes before the terminating zero. -/
abbrev CString := List UInt8

/-! ### The shared memory block -/

def einval : Int := 22

def eperm : Int := 1

def enomem : Int := 12

theorem einval_neg : -einval < 0 := by decide

theorem enomem_neg : -enomem < 0 := by decide

theorem eperm_neg : -eperm < 0 := by decide

def halNameLen : Nat := 47

def halSize : Int := 256 * 4096

/-- `HAL_LOCK_LOAD`. -/
def halLockLoad : UInt8 := 1

/-- `HAL_LOCK_CONFIG`. -/
def halLockConfig : UInt8 := 2

/-- `HAL_PSEUDO_COMP_PREFIX`. -/
def halPseudoCompPrefix : CString := [95, 95]

/-- `rt_snprintf(buf, size, "%s", name)`: a buffer of `size` bytes holds `size - 1` and the terminator. -/
def snprintf (size : Nat) (name : CString) : CString := name.take (size - 1)

theorem snprintf_length (name : CString) : (snprintf (halNameLen + 1) name).length ≤ halNameLen := by
  rw [snprintf, List.length_take]
  exact Nat.min_le_left _ _

/-- `hal_comp_t`, with its offset in the block.  No code reads `createdAs`: it records the name `hal_init` was called
with. -/
structure HalComp where
  off : Int
  compId : Int
  ready : Bool
  name : CString
  createdAs : CString
  deriving DecidableEq

/-- `hal_param_t` or `hal_pin_t`: the name, and the offset of the component that owns it. -/
structure HalItem where
  name : CString
  owner : Int
  deriving DecidableEq

/-- The parameters or the pins: the list ordered by name, and the number of freed structures. -/
structure HalItems where
  list : List HalItem
  free : Nat
  deriving DecidableEq

/-- `hal_thread_t`. -/
structure HalThread where
  name : CString
  compId : Int
  deriving DecidableEq

/-- `hal_data_t`. -/
structure HalData where
  mutex : Bool
  shmemBot : Int
  shmemTop : Int
  compList : List HalComp
  compFree : List HalComp
  params : HalItems
  pins : HalItems
  threadList : List HalThread
  threadFree : Nat
  lock : UInt8
  deriving DecidableEq

/-- `init_hal_data`; a `hal_data_t` takes 256 bytes. -/
def initHalData : HalData where
  mutex := false
  shmemBot := 256
  shmemTop := halSize
  compList := []
  compFree := []
  params := ⟨[], 0⟩
  pins := ⟨[], 0⟩
  threadList := []
  threadFree := 0
  lock := 0

/-- Set or clear the mutex. -/
def HalData.setMutex (b : Bool) (data : HalData) : HalData := { data with mutex := b }

@[simp] theorem HalData.setMutex_mutex (b : Bool) (data : HalData) : (data.setMutex b).mutex = b := rfl

@[simp] theorem HalData.setMutex_compList (b : Bool) (data : HalData) :
    (data.setMutex b).compList = data.compList := rfl

/-- Take the mutex, do `f` and give it back; a mutex that is held is waited for. -/
def HalData.withMutex {α : Type} (f : HalData → Option (α × HalData)) (data : HalData) : Option (α × HalData) :=
  if data.mutex then none
  else (f (data.setMutex true)).map fun r => (r.1, r.2.setMutex false)

/-- The alignment `shmalloc_dn` gives a structure of `size` bytes that ends where the free memory does. -/
def alignDown (size top : Int) : Int :=
  if 16 ≤ size then top - top % 16
  else if 8 ≤ size then top - top % 8
  else if 4 ≤ size then top - top % 4
  else if size = 2 then top - top % 2
  else top

/-- `shmalloc_dn`: carve `size` bytes from the top of the free memory. -/
def shmallocDn (size : Int) (data : HalData) : Option (Int × HalData) :=
  let tmpTop := alignDown size (data.shmemTop - size)
  if tmpTop < data.shmemBot then none else some (tmpTop, { data with shmemTop := tmpTop })

/-! ### Components -/

/-- `halpr_alloc_comp_struct`; a `hal_comp_t` takes 104 bytes. -/
def halprAllocCompStruct (data : HalData) : Option (HalComp × HalData) :=
  match data.compFree with
  | p :: rest => some ({ p with compId := 0, name := [] }, { data with compFree := rest })
  | [] =>
    (shmallocDn 104 data).map fun r => (⟨r.1, 0, false, [], []⟩, r.2)

/-- `halpr_find_comp_by_name`. -/
def halprFindCompByName (name : CString) (data : HalData) : Option HalComp :=
  data.compList.find? fun comp => comp.name == name

/-- `halpr_find_comp_by_id`. -/
def halprFindCompById (id : Int) (data : HalData) : Option HalComp := data.compList.find? fun comp => comp.compId == id

/-- `free_comp_struct`: the parameters of the component go with it. -/
def freeCompStruct (comp : HalComp) (data : HalData) : HalData :=
  let kept := data.params.list.filter fun param => param.owner != comp.off
  { data with
    params := ⟨kept, data.params.free + (data.params.list.length - kept.length)⟩
    compFree := { comp with compId := 0, name := [] } :: data.compFree }

/-- The part of `hal_init` under the mutex. -/
def HalData.insertComp (compId : Int) (name : CString) (data : HalData) : Int × HalData :=
  if (halprFindCompByName name data).isSome then (-einval, data)
  else
    match halprAllocCompStruct data with
    | none => (-enomem, data)
    | some (comp, data) =>
      (compId, { data with
        compList := { comp with compId := compId, ready := false, createdAs := name } :: data.compList })

/-- `hal_exit` on the block. -/
def HalData.halExit (compId : Int) : HalData → Option (Int × HalData) :=
  HalData.withMutex fun data =>
    match halprFindCompById compId data with
    | none => some (-einval, data)
    | some comp =>
      some (0, freeCompStruct comp { data with
        compList := data.compList.eraseP fun comp => comp.compId == compId })

/-- `hal_ready`. -/
def HalData.halReady (compId : Int) : HalData → Option (Int × HalData) :=
  HalData.withMutex fun data =>
    match halprFindCompById compId data with
    | none => some (-einval, data)
    | some comp =>
      if comp.ready then some (-einval, data)
      else some (0, { data with
        compList := data.compList.modify (data.compList.findIdx fun comp => comp.compId == compId) fun comp =>
          { comp with ready := true } })

/-! ### Parameters and pins -/

/-- The search of `hal_param_new` and `hal_pin_new` for the place of a new structure, none if its name is taken. -/
def insertByName (new : HalItem) : List HalItem → Option (List HalItem)
  | [] => some [new]
  | ptr :: rest =>
    if new.name < ptr.name then some (new :: ptr :: rest)
    else if ptr.name = new.name then none
    else (insertByName new rest).map (ptr :: ·)

/-- `alloc_param_struct` or `alloc_pin_struct`, by the size of the structure. -/
def HalItems.alloc (size : Int) (items : HalItems) (data : HalData) : Option (HalItems × HalData) :=
  match items.free with
  | n + 1 => some ({ items with free := n }, data)
  | 0 => (shmallocDn size data).map fun r => (items, r.2)

/-- `hal_param_new` and `hal_pin_new`: `items` reads the list, `store` writes it. -/
def HalData.itemNew (size : Int) (items : HalData → HalItems) (store : HalItems → HalData → HalData)
    (name : CString) (compId : Int) (data : HalData) : Option (Int × HalData) :=
  if halNameLen < name.length then some (-einval, data)
  else if data.lock &&& halLockLoad ≠ 0 then some (-eperm, data)
  else data.withMutex fun data =>
    match halprFindCompById compId data with
    | none => some (-einval, data)
    | some comp =>
      if comp.ready then some (-einval, data)
      else
        match (items data).alloc size data with
        | none => some (-enomem, data)
        | some (new, data) =>
          match insertByName ⟨name, comp.off⟩ new.list with
          | none => some (-einval, store { new with free := new.free + 1 } data)
          | some list => some (0, store { new with list := list } data)

/-- `hal_param_s32_new`; a `hal_param_t` takes 88 bytes. -/
def HalData.halParamS32New : CString → Int → HalData → Option (Int × HalData) :=
  HalData.itemNew 88 HalData.params fun params data => { data with params := params }

/-- `hal_pin_new`; a `hal_pin_t` takes 104 bytes. -/
def HalData.halPinNew : CString → Int → HalData → Option (Int × HalData) :=
  HalData.itemNew 104 HalData.pins fun pins data => { data with pins := pins }

/-- `hal_pin_newf`: the formatted name must fit. -/
def HalData.halPinNewf (name : CString) (compId : Int) (data : HalData) : Option (Int × HalData) :=
  if halNameLen < name.length then some (-enomem, data) else data.halPinNew name compId

/-! ### The library -/

/-- The library in its process: the counter of `rtapi_init`, the base period of the real-time application, the handle of
the block and the block. -/
structure Hal where
  uuid : Int
  period : Int
  libMemId : Int
  data : Option HalData
  deriving DecidableEq

/-- The answers of the operating system: `rtapi_shmem_new` for the block (the counter has handle zero),
`rtapi_task_new` and `rtapi_task_start`. -/
structure RtAnswer where
  shmemNew : Int
  taskNew : Int
  taskStart : Int
  shmemNew_ne : shmemNew ≠ 0

/-- The library before its first call, with any counter in the memory that outlives a process. -/
def Hal.start (uuid : Int) : Hal := ⟨uuid, 0, 0, none⟩

/-- `rtapi_init`: the next number, as an `int`. -/
def rtapiInit (hal : Hal) : Int × Hal :=
  let id := Int.bmod (hal.uuid + 1) 4294967296
  (id, { hal with uuid := id })

/-- `rtapi_clock_set_period`. -/
def rtapiClockSetPeriod (nsecs : Int) (hal : Hal) : Int × Hal :=
  if nsecs = 0 then (hal.period, hal)
  else if hal.period ≠ 0 then (-einval, hal)
  else (nsecs, { hal with period := nsecs })

/-- The first call of `hal_init` maps the block. -/
def Hal.attach (rt : RtAnswer) (hal : Hal) : Int × Hal :=
  if hal.libMemId ≠ 0 then (0, hal)
  else
    let (libModuleId, hal) := rtapiInit hal
    if libModuleId < 0 then (-einval, hal)
    else if rt.shmemNew < 0 then (-einval, { hal with libMemId := rt.shmemNew })
    else (0, { hal with libMemId := rt.shmemNew, data := some initHalData })

/-- `hal_init`; a missing name is a null pointer. -/
def halInit (rt : RtAnswer) (name : Option CString) (hal : Hal) : Option (Int × Hal) :=
  match name with
  | none => some (-einval, hal)
  | some name =>
    if halNameLen < name.length then some (-einval, hal)
    else
      let (retval, hal) := hal.attach rt
      if retval < 0 then some (retval, hal)
      else
        let (compId, hal) := rtapiInit hal
        if compId < 0 then some (-einval, hal)
        else hal.data.bind fun data =>
          (data.withMutex fun data => some (data.insertComp compId (snprintf (halNameLen + 1) name))).map fun r =>
            (r.1, { hal with data := some r.2 })

/-- `hal_exit`. -/
def halExit (compId : Int) (hal : Hal) : Option (Int × Hal) :=
  match hal.data with
  | none => some (-einval, hal)
  | some data => (data.halExit compId).map fun r => (r.1, { hal with data := some r.2 })

/-! ### Threads -/

/-- `alloc_thread_struct`; a `hal_thread_t` takes 120 bytes. -/
def allocThreadStruct (data : HalData) : Option HalData :=
  match data.threadFree with
  | n + 1 => some { data with threadFree := n }
  | 0 => (shmallocDn 120 data).map Prod.snd

/-- The clock of the first thread: set to its period unless it runs, and not slower than the period, up to one
percent. -/
def Hal.clockFits (period : UInt64) (hal : Hal) : Bool × Hal :=
  let limit := (period + period / 100).toInt64.toInt
  let (currPeriod, hal) := rtapiClockSetPeriod 0 hal
  if currPeriod = 0 then
    let (currPeriod, hal) := rtapiClockSetPeriod period.toInt64.toInt hal
    (decide (0 ≤ currPeriod ∧ currPeriod ≤ limit), hal)
  else (decide (currPeriod ≤ limit), hal)

/-- `hal_create_thread` up to the insertion of the thread: the code it returns with, or the library with the thread. -/
def startThread (rt : RtAnswer) (name : CString) (period : UInt64) (hal : Hal) : Option (Except Int Unit × Hal) :=
  match hal.data with
  | none => some (.error (-einval), hal)
  | some data =>
    if period = 0 then some (.error (-einval), hal)
    else if halNameLen < name.length then some (.error (-einval), hal)
    else if data.lock &&& halLockConfig ≠ 0 then some (.error (-eperm), hal)
    else if data.mutex then none
    else if data.threadList.any fun thread => thread.name == name then some (.error (-einval), hal)
    else
      match allocThreadStruct data with
      | none => some (.error (-enomem), hal)
      | some data =>
        let hal := { hal with data := some data }
        let (fits, hal) := if data.threadList.isEmpty then hal.clockFits period else (true, hal)
        if !fits then some (.error (-einval), hal)
        -- neither failure gives the structure back
        else if rt.taskNew < 0 then some (.error (-einval), hal)
        else if rt.taskStart < 0 then some (.error (-einval), hal)
        else some (.ok (), { hal with data := some { data with
          threadList := ⟨snprintf (halNameLen + 1) name, 0⟩ :: data.threadList } })

/-- The name of the component of a thread: `"__%s"` in a buffer of `HAL_NAME_LEN + 1` bytes. -/
def pseudoName (name : CString) : CString :=
  snprintf (halNameLen + 1) (halPseudoCompPrefix ++ snprintf (halNameLen + 1) name)

/-- `"%s.tmax"`, in the same buffer. -/
def tmaxName (name : CString) : CString := snprintf (halNameLen + 1) (name ++ [46, 116, 109, 97, 120])

/-- `"%s.time"`. -/
def timeName (name : CString) : CString := name ++ [46, 116, 105, 109, 101]

/-- The last part of `hal_create_thread`: the parameter and the pin of the thread's component. -/
def HalData.finishThread (name : CString) (compId : Int) (data : HalData) : Option (Int × HalData) :=
  (data.halParamS32New (tmaxName name) compId).bind fun (retval, data) =>
    if retval ≠ 0 then some (-einval, data)
    else (data.halPinNewf (timeName name) compId).bind fun (retval, data) =>
      if retval ≠ 0 then some (-einval, data)
      else (data.halReady compId).map fun r => (compId, r.2)

/-- Write the component's number into the thread that has just been inserted. -/
def HalData.setThreadComp (compId : Int) (data : HalData) : HalData :=
  { data with threadList := data.threadList.modifyHead fun thread => { thread with compId := compId } }

/-- `hal_create_thread`. -/
def halCreateThread (rt : RtAnswer) (name : CString) (period : UInt64) (hal : Hal) : Option (Int × Hal) :=
  (startThread rt name period hal).bind fun (retval, hal) =>
    match retval with
    | .error retval => some (retval, hal)
    | .ok () =>
      (halInit rt (some (pseudoName name)) hal).bind fun (compId, hal) =>
        hal.data.bind fun data =>
          let data := data.setThreadComp compId
          if compId < 0 then some (-einval, { hal with data := some data })
          else (data.finishThread name compId).map fun r => (r.1, { hal with data := some r.2 })

/-- `hal_thread_delete`: the component of the thread is removed by `hal_exit`, under the mutex `hal_exit` takes. -/
def HalData.threadDelete (name : CString) : HalData → Option (Int × HalData) :=
  HalData.withMutex fun data =>
    match data.threadList.find? fun thread => thread.name == name with
    | none => some (-einval, data)
    | some thread =>
      (if thread.compId ≠ 0 then data.halExit thread.compId else some (0, data)).map fun r =>
        (0, { r.2 with
          threadList := r.2.threadList.eraseP fun thread => thread.name == name
          threadFree := r.2.threadFree + 1 })

/-- `hal_thread_delete`. -/
def halThreadDelete (name : CString) (hal : Hal) : Option (Int × Hal) :=
  match hal.data with
  | none => some (-einval, hal)
  | some data =>
    if data.lock &&& halLockConfig ≠ 0 then some (-eperm, hal)
    else (data.threadDelete name).map fun r => (r.1, { hal with data := some r.2 })

end SoemMotion
