import SoemMotion.HalView

/-!
# The calls of the component list on the block

From a sound block and a library that has mapped it each call of `HalNames` answers what the call on the block answers,
and they go on alike, or neither comes back (`halCall_shows`).  So every run of these calls from the start of the
process is a run of the block (`halRun_shows`).
-/

namespace SoemMotion

open Lib HalBlock

namespace HalBlock

/-- The library has mapped the block. -/
structure ShownBy (b : HalBlock) (hal : Hal) : Prop where
  mapped : hal.libMemId ≠ 0
  period : hal.period = b.period
  data : ∃ data, hal.data = some data ∧ b.Shows data

/-- A call of the block and one of the library answer the same and go on alike, or neither comes back. -/
def SameRun (run : HalRun (Int × HalBlock)) (out : Option (Int × Hal)) : Prop :=
  run = .error .deadlock ∧ out = none ∨ ∃ r b hal, run = .ok (r, b) ∧ out = some (r, hal) ∧ b.Sound ∧ b.ShownBy hal

variable {b : HalBlock} {data : HalData} {hal : Hal}

theorem SameRun.same (hs : b.Sound) (h : b.ShownBy hal) (r : Int) : SameRun (.ok (r, b)) (some (r, hal)) :=
  .inr ⟨r, b, hal, rfl, rfl, hs, h⟩

theorem ShownBy.of_shows (hal : Hal) (hlib : hal.libMemId ≠ 0) (hperiod : hal.period = b.period) (h : b.Shows data) :
    b.ShownBy { hal with data := some data } := ⟨hlib, hperiod, data, rfl, h⟩

theorem SameAnswer.shown (hal : Hal) {period : Int} {run : HalRun (Int × HalBlock)} {out : Option (Int × HalData)}
    (h : SameAnswer period run out) (hlib : hal.libMemId ≠ 0) (hperiod : hal.period = period) :
    SameRun run (out.map fun r => (r.1, { hal with data := some r.2 })) := by
  obtain ⟨r, b, data, rfl, rfl, hs, hshows, rfl⟩ := h
  exact .same hs (.of_shows hal hlib hperiod hshows) r

/-! ### Components -/

theorem ShownBy.halInit (hs : b.Sound) (h : b.ShownBy hal) (rt : RtAnswer) (name : Option CString) :
    SameRun (b.halInit (rtapiInit hal).1 name) (SoemMotion.halInit rt name hal) := by
  obtain ⟨hlib, hperiod, data, hdata, hshows⟩ := h
  cases name with
  | none => exact .same hs ⟨hlib, hperiod, data, hdata, hshows⟩ _
  | some name =>
    by_cases hlong : halNameLen < name.length
    · unfold HalBlock.halInit SoemMotion.halInit
      dsimp only
      rw [if_pos hlong, if_pos hlong]
      exact .same hs ⟨hlib, hperiod, data, hdata, hshows⟩ _
    have hname : name.length ≤ halNameLen := Nat.le_of_not_lt hlong
    rw [halInit_mapped hlib hname]
    by_cases hneg : (rtapiInit hal).1 < 0
    · unfold HalBlock.halInit
      dsimp only
      rw [if_neg hlong, if_pos hneg, if_pos hneg]
      exact .inr ⟨_, b, (rtapiInit hal).2, rfl, rfl, hs, hlib, hperiod, data, hdata, hshows⟩
    · rw [if_neg hneg, hdata]
      have hsame := hshows.insertComp hs (Int.not_lt.1 hneg) hname
      rw [snprintf_fits hname] at hsame
      exact hsame.shown (rtapiInit hal).2 hlib hperiod

theorem ShownBy.halExit (hs : b.Sound) (h : b.ShownBy hal) (compId : Int) :
    SameRun (b.halExit compId) (SoemMotion.halExit compId hal) := by
  obtain ⟨hlib, hperiod, data, hdata, hshows⟩ := h
  unfold SoemMotion.halExit
  rw [hdata]
  exact (hshows.halExit hs compId).shown hal hlib hperiod

/-! ### The component of a thread -/

theorem Shows.setThreadComp (h : b.Shows data) {new : Int} {rest : List Int} (hlist : b.threads.list = new :: rest)
    (hnew : new ∉ rest) (compId : Int) :
    { b with threads := b.threads.set new fun p => { p with compId := compId } }.Shows (data.setThreadComp compId) := by
  refine { h with threads := ?_ }
  have hthreads := h.threads
  rw [hlist, List.map_cons] at hthreads
  unfold HalData.setThreadComp
  show data.threadList.modifyHead _ = b.threads.list.map _
  rw [hthreads, hlist, List.modifyHead_cons, List.map_cons]
  refine congrArg₂ List.cons ?_ (map_threadAt_update rfl hnew).symm
  unfold threadAt HalPool.set
  simp only [Function.update_self]

/-- The parameter and the pin of the component, which then is ready. -/
theorem Shows.finishThread (hs : b.Sound) (h : b.Shows data) {new : Int} (hnew : new ∈ b.threads.list)
    (name : CString) (compId : Int) : SameAnswer b.period
      ((b.halParamNew (tmaxName name) .s32 .rw (new + 40) compId).bind fun (retval, b) =>
        if retval ≠ 0 then .ok (-einval, b)
        else (b.halPinNewf .s32 (new + 32) compId (timeName name)).bind fun (retval, b) =>
          if retval ≠ 0 then .ok (-einval, b)
          else (b.halReady compId).bind fun (_, b) => .ok (compId, b))
      (data.finishThread name compId) := by
  have hbound := hs.threads.bound new (List.mem_append_left _ hnew)
  have hmem := hs.memory
  have htmax : shmchk (new + 40) = true := decide_eq_true (by omega)
  have htime : shmchk (new + 32) = true := decide_eq_true (by omega)
  unfold HalData.finishThread
  refine (h.halParamS32New hs (tmaxName name) compId htmax).bind fun r b₁ data₁ hs₁ h₁ hperiod₁ => ?_
  dsimp only
  split
  · exact ⟨_, b₁, data₁, rfl, rfl, hs₁, h₁, hperiod₁⟩
  refine (hperiod₁ ▸ h₁.halPinNewf hs₁ (timeName name) compId htime).bind fun r b₂ data₂ hs₂ h₂ hperiod₂ => ?_
  dsimp only
  split
  · exact ⟨_, b₂, data₂, rfl, rfl, hs₂, h₂, hperiod₂⟩
  rw [Option.map_eq_bind]
  refine (hperiod₂ ▸ h₂.halReady hs₂ compId).bind fun r b₃ data₃ hs₃ h₃ hperiod₃ => ?_
  exact ⟨compId, b₃, data₃, rfl, rfl, hs₃, h₃, hperiod₃⟩

/-- `hal_create_thread` once the thread is on the list. -/
theorem ShownBy.finishThread (hs : b.Sound) (h : b.ShownBy hal) {new : Int} {rest : List Int}
    (hlist : b.threads.list = new :: rest) (rt : RtAnswer) (name : CString) :
    SameRun (HalBlock.finishThread ⟨(rtapiInit hal).1, rt.taskNew, rt.taskStart⟩ new name b)
      ((SoemMotion.halInit rt (some (pseudoName name)) hal).bind fun (compId, hal) =>
        hal.data.bind fun data =>
          let data := data.setThreadComp compId
          if compId < 0 then some (-einval, { hal with data := some data })
          else (data.finishThread name compId).map fun r => (r.1, { hal with data := some r.2 })) := by
  unfold HalBlock.finishThread
  rcases h.halInit hs rt (some (pseudoName name)) with ⟨hrun, hout⟩ | ⟨compId, b₁, hal₁, hrun, hout, hs₁, h₁⟩
  · dsimp only
    rw [hrun, hout]
    exact .inl ⟨rfl, rfl⟩
  have hthreads := halInit_threads hs.mutex hrun
  obtain ⟨hlib, hperiod, data, hdata, hshows⟩ := h₁
  dsimp only
  rw [hrun, hout]
  show SameRun (if compId < 0 then _ else _) (hal₁.data.bind _)
  rw [hdata]
  have hnodup := (List.nodup_append.1 hs.threads.nodup).1
  rw [hlist] at hnodup
  have hlist₁ : b₁.threads.list = new :: rest := (congrArg HalPool.list hthreads).trans hlist
  have hset := hshows.setThreadComp hlist₁ (List.nodup_cons.1 hnodup).1 compId
  have hs₂ := hs₁.setThread new fun p => { p with compId := compId }
  show SameRun _ (if compId < 0 then _ else _)
  by_cases hneg : compId < 0
  · rw [if_pos hneg, if_pos hneg]
    exact .same hs₂ (.of_shows hal₁ hlib hperiod hset) _
  · rw [if_neg hneg, if_neg hneg]
    have hmem : new ∈ b₁.threads.list := hlist₁ ▸ List.mem_cons_self
    exact (hset.finishThread hs₂ hmem name compId).shown hal₁ hlib hperiod

/-! ### Creating a thread -/

theorem Shows.findThread (h : b.Shows data) (name : CString) :
    data.threadList.find? (fun thread => thread.name == name) = (b.halprFindThreadByName name).map b.threadAt := by
  rw [h.threads]
  exact List.find?_map

theorem Shows.anyThread (h : b.Shows data) (name : CString) :
    (data.threadList.any fun thread => thread.name == name) = (b.halprFindThreadByName name).isSome := by
  rw [← List.isSome_find?, h.findThread, Option.isSome_map]

theorem Shows.takeThread_none (h : b.Shows data) (htake : b.takeThread = none) :
    SoemMotion.allocThreadStruct data = none := by
  unfold takeThread HalPool.alloc at htake
  unfold SoemMotion.allocThreadStruct
  rw [h.threadFree]
  split at htake
  · cases htake
  · rename_i hnil
    rw [Option.map_eq_none_iff] at htake
    rw [hnil]
    dsimp only [List.length_nil]
    rw [shmallocDn_eq, h.memory.1, h.memory.2, htake]
    rfl

theorem Shows.takeThread_some (h : b.Shows data) {new top : Int} {threads : HalPool ThreadStruct}
    (htake : b.takeThread = some (new, threads, top)) : SoemMotion.allocThreadStruct data =
      some { data with threadFree := threads.free.length, shmemTop := top } := by
  unfold takeThread HalPool.alloc at htake
  unfold SoemMotion.allocThreadStruct
  rw [h.threadFree]
  split at htake
  · rename_i p rest hfree
    cases htake
    rw [hfree, ← h.memory.2]
    rfl
  · rename_i hnil
    obtain ⟨p, hp, heq⟩ := Option.map_eq_some_iff.1 htake
    cases heq
    rw [hnil]
    dsimp only [List.length_nil]
    rw [shmallocDn_eq, h.memory.1, h.memory.2, hp, Option.map_some, Option.map_some]
    have hfree : data.threadFree = (b.threads.set new fun p =>
        { p with usesFp := 0, period := 0, priority := 0, taskId := 0, name := [] }).free.length := h.threadFree
    rw [← hfree]

/-- A clock that does not run is set to any period. -/
theorem rtapiClockSetPeriod_idle (hidle : hal.period = 0) (nsecs : Int) :
    rtapiClockSetPeriod nsecs hal = (nsecs, { hal with period := nsecs }) := by
  unfold rtapiClockSetPeriod
  split
  · rename_i hzero
    rw [hzero, hidle, ← hidle]
  · rw [if_neg (not_not.2 hidle)]

theorem clockFits_same (period : UInt64) (hperiod : hal.period = b.period) :
    hal.clockFits period = ((b.clockFits period).1, { hal with period := (b.clockFits period).2.period }) := by
  have hask : rtapiClockSetPeriod 0 hal = (hal.period, hal) := if_pos rfl
  unfold Hal.clockFits HalBlock.clockFits
  rw [hask, ← hperiod]
  dsimp only
  by_cases hzero : hal.period = 0
  · rw [if_pos hzero, if_pos hzero, rtapiClockSetPeriod_idle hzero]
  · rw [if_neg hzero, if_neg hzero]
    dsimp only
    rw [← hperiod]

/-- The checks of `hal_create_thread`, and no structure left. -/
theorem ShownBy.startThread_error (hm : b.mutex = false) (h : b.ShownBy hal) (rt : RtAnswer) {name : CString}
    {period : UInt64} {e : Int} (hcheck : b.threadError name period = some e ∨
      b.threadError name period = none ∧ b.takeThread = none ∧ e = -enomem) :
    startThread rt name period hal = some (.error e, hal) := by
  obtain ⟨-, -, data, hdata, hshows⟩ := h
  have hfound : ∀ {e' : Int},
      (some e' = some e ∨ some e' = none ∧ b.takeThread = none ∧ e = -enomem) → e' = e := by
    rintro e' (h | ⟨h, -⟩)
    · exact Option.some.inj h
    · cases h
  unfold threadError at hcheck
  unfold startThread
  rw [hdata]
  dsimp only
  rw [hshows.lock, hshows.mutex, hm, hshows.anyThread]
  split
  · rw [if_pos ‹_›] at hcheck
    rw [hfound hcheck]
  rw [if_neg ‹_›] at hcheck
  split
  · rw [if_pos ‹_›] at hcheck
    rw [hfound hcheck]
  rw [if_neg ‹_›] at hcheck
  split
  · rw [if_pos ‹_›] at hcheck
    rw [hfound hcheck]
  rw [if_neg ‹_›] at hcheck
  rw [if_neg Bool.false_ne_true]
  split
  · rw [if_pos ‹_›] at hcheck
    rw [hfound hcheck]
  rw [if_neg ‹_›] at hcheck
  obtain hcheck | ⟨-, htake, rfl⟩ := hcheck
  · cases hcheck
  · rw [hshows.takeThread_none htake]

/-- The library with the structure of a new thread, and the base period once the clock has been looked at. -/
def withThreadStruct (hal : Hal) (data : HalData) (free : Nat) (top base : Int) (list : List HalThread) : Hal :=
  { hal with period := base, data := some { data with threadFree := free, shmemTop := top, threadList := list } }

theorem Shows.startThread_taken (hm : b.mutex = false) (hperiod : hal.period = b.period)
    (hdata : hal.data = some data) (h : b.Shows data) (rt : RtAnswer) (moduleId : Int) {name : CString}
    {period : UInt64} (hcheck : b.threadError name period = none) {new top : Int} {threads : HalPool ThreadStruct}
    (htake : b.takeThread = some (new, threads, top)) : startThread rt name period hal =
      if b.taskRuns ⟨moduleId, rt.taskNew, rt.taskStart⟩ period then
        some (.ok (), withThreadStruct hal data threads.free.length top (b.basePeriod period)
          (⟨snprintf (halNameLen + 1) name, 0⟩ :: data.threadList))
      else some (.error (-einval),
        withThreadStruct hal data threads.free.length top (b.basePeriod period) data.threadList) := by
  have hempty : data.threadList.isEmpty = b.threads.list.isEmpty := by rw [h.threads, List.isEmpty_map]
  unfold threadError at hcheck
  unfold startThread
  rw [hdata]
  dsimp only
  rw [h.lock, h.mutex, hm, h.anyThread]
  split at hcheck
  · cases hcheck
  rw [if_neg ‹_›]
  split at hcheck
  · cases hcheck
  rw [if_neg ‹_›]
  split at hcheck
  · cases hcheck
  rw [if_neg ‹_›, if_neg Bool.false_ne_true]
  split at hcheck
  · cases hcheck
  rw [if_neg ‹_›, h.takeThread_some htake]
  obtain ⟨taken, htaken⟩ : ∃ taken : Hal, taken =
    { hal with data := some { data with threadFree := threads.free.length, shmemTop := top } } := ⟨_, rfl⟩
  -- only the first thread looks at the clock
  have hclock : (if b.threads.list.isEmpty then taken.clockFits period else (true, taken)) =
      (!b.threads.list.isEmpty || (b.clockFits period).1, { taken with period := b.basePeriod period }) := by
    have htakenPeriod : taken.period = b.period := by rw [htaken, hperiod]
    unfold basePeriod
    cases b.threads.list.isEmpty with
    | true => exact clockFits_same period htakenPeriod
    | false =>
      rw [if_neg Bool.false_ne_true, if_neg Bool.false_ne_true, ← htakenPeriod]
      rfl
  dsimp only
  rw [hempty, ← htaken, hclock, htaken]
  unfold taskRuns
  dsimp only
  cases !b.threads.list.isEmpty || (b.clockFits period).1 with
  | false => rfl
  | true =>
    rw [if_neg (by decide), Bool.true_and]
    by_cases htask : rt.taskNew < 0
    · rw [if_pos htask, if_neg fun hruns => absurd (of_decide_eq_true hruns).1 (by omega)]
      rfl
    by_cases hstart : rt.taskStart < 0
    · rw [if_neg htask, if_pos hstart, if_neg fun hruns => absurd (of_decide_eq_true hruns).2 (by omega)]
      rfl
    · rw [if_neg htask, if_neg hstart, if_pos (decide_eq_true ⟨by omega, by omega⟩)]
      rfl

/-- The block with the structure of a thread that is not on the list. -/
theorem Shows.withThread (h : b.Shows data) {new top base : Int} {free : List Int} {cell : Int → ThreadStruct}
    (hnew : new ∉ b.threads.list) (hcell : ∀ p ≠ new, cell p = b.threads.cell p) :
    (b.withThread new ⟨b.threads.list, free, cell⟩ top base).Shows
      { data with threadFree := free.length, shmemTop := top } := by
  refine { h with memory := ⟨h.memory.1, rfl⟩, threads := ?_, threadFree := rfl }
  exact h.threads.trans (map_threadAt_congr fun p hp => hcell p fun he => hnew (he ▸ hp)).symm

/-- The block with a new thread on its list, which has no component yet. -/
theorem Shows.newThread (h : b.Shows data) {new : Int} {x : CString} (hnew : new ∉ b.threads.list)
    (hname : (b.threads.cell new).name = x) :
    { b with threads := ⟨new :: b.threads.list, b.threads.free,
        (b.threads.set new fun p : ThreadStruct => { p with compId := 0 }).cell⟩ }.Shows
      { data with threadList := ⟨x, 0⟩ :: data.threadList } := by
  refine { h with threads := ?_ }
  show _ :: data.threadList = _ :: b.threads.list.map _
  rw [h.threads]
  refine congrArg₂ List.cons ?_ (map_threadAt_update rfl hnew).symm
  unfold threadAt HalPool.set
  simp only [Function.update_self, hname]

theorem ShownBy.halCreateThread (hs : b.Sound) (h : b.ShownBy hal) (rt : RtAnswer) (name : CString) (period : UInt64)
    (usesFp priority : Int) :
    SameRun (b.halCreateThread ⟨(rtapiInit hal).1, rt.taskNew, rt.taskStart⟩ name period usesFp priority)
      (SoemMotion.halCreateThread rt name period hal) := by
  have hreturns := halCreateThread_returns hs ⟨(rtapiInit hal).1, rt.taskNew, rt.taskStart⟩ name period usesFp priority
  unfold SoemMotion.halCreateThread
  cases hcheck : b.threadError name period with
  | some e =>
    rw [halCreateThread_error hs.mutex _ usesFp priority (.inl hcheck),
      h.startThread_error hs.mutex rt (.inl hcheck)]
    exact .same hs h e
  | none =>
    cases htake : b.takeThread with
    | none =>
      rw [halCreateThread_error hs.mutex _ usesFp priority (.inr ⟨hcheck, htake, rfl⟩),
        h.startThread_error hs.mutex rt (.inr ⟨hcheck, htake, rfl⟩)]
      exact .same hs h _
    | some taken =>
      obtain ⟨new, threads, top⟩ := taken
      obtain ⟨cell, base, ⟨hkept, rfl, hmade⟩, hrun⟩ := halCreateThread_taken hs.mutex
        ⟨(rtapiInit hal).1, rt.taskNew, rt.taskStart⟩ usesFp priority hcheck htake
      obtain ⟨hpool, ⟨hbot, htop⟩, es, -, -, hes⟩ := hs.takeThread htake
      obtain ⟨hlib, hperiod, data, hdata, hshows⟩ := h
      have hnew : new ∉ b.threads.list :=
        fun hmem => (List.nodup_cons.1 hpool.nodup).1 (List.mem_append_left _ hmem)
      have hkeep : (b.withThread new ⟨b.threads.list, threads.free, cell⟩ top (b.basePeriod period)).Shows _ :=
        hshows.withThread hnew hkept
      rw [hrun] at hreturns ⊢
      rw [hshows.startThread_taken hs.mutex hperiod hdata rt (rtapiInit hal).1 hcheck htake]
      by_cases hruns : b.taskRuns ⟨(rtapiInit hal).1, rt.taskNew, rt.taskStart⟩ period
      · rw [if_pos hruns, if_pos hruns, Option.bind_some]
        dsimp only
        obtain ⟨w, hw⟩ : ∃ w : HalBlock, w = b.withThread new ⟨new :: b.threads.list, threads.free, cell⟩ top
          (b.basePeriod period) := ⟨_, rfl⟩
        have hsound : w.Sound := hw ▸ hs.withThread hbot htop hpool hes _
        have hname : (cell new).name = snprintf (halNameLen + 1) name := by
          rw [hmade hruns]
          rfl
        have hshown : { w with threads := w.threads.set new fun p => { p with compId := 0 } }.ShownBy
            (withThreadStruct hal data threads.free.length top (b.basePeriod period)
              (⟨snprintf (halNameLen + 1) name, 0⟩ :: data.threadList)) := by
          rw [hw]
          exact ⟨hlib, rfl, _, rfl, hkeep.newThread hnew hname⟩
        have hlist : w.threads.list = new :: b.threads.list := by rw [hw]; rfl
        -- what the structure said of its component before it was taken does not matter
        rw [← hw, ← finishThread_compId hsound.mutex _ new name 0]
        exact hshown.finishThread (hsound.setThread new fun p => { p with compId := 0 }) hlist rt name
      · rw [if_neg hruns] at hreturns
        rw [if_neg hruns, if_neg hruns]
        obtain ⟨r, b', heq, hsound⟩ := hreturns
        cases heq
        exact .inr ⟨_, _, _, rfl, rfl, hsound, hlib, rfl, _, rfl, hkeep⟩

/-! ### Deleting a thread -/

/-- A thread has been taken from the list and freed. -/
theorem Shows.freeThread (h : b.Shows data) (hs : b.Sound) {b' : HalBlock} {t : Int} {x : ThreadStruct}
    {ts₁ ts₂ : List Int} {name : CString} (hsplit : b.threads.list = ts₁ ++ t :: ts₂)
    (herase : (b.threads.list.eraseP fun p => (b.threads.cell p).name == name) = ts₁ ++ ts₂)
    (hthreads : b'.threads = ⟨ts₁ ++ ts₂, t :: b.threads.free, Function.update b.threads.cell t x⟩)
    (hfreed : ThreadsFreed b b') : b'.Shows { data with
      threadList := data.threadList.eraseP fun thread => thread.name == name
      threadFree := data.threadFree + 1 } := by
  have hframe : b'.mutex = b.mutex ∧ b'.lock = b.lock ∧ b'.shmemBot = b.shmemBot ∧ b'.shmemTop = b.shmemTop ∧
      b'.comps = b.comps ∧ b'.params = b.params ∧ b'.pins = b.pins := by
    rw [hfreed.frame]
    exact ⟨rfl, rfl, rfl, rfl, rfl, rfl, rfl⟩
  obtain ⟨hmutex, hlock, hbot, htop, hcomps, hparams, hpins⟩ := hframe
  have hcompAt : b'.compAt = b.compAt := by
    unfold compAt
    rw [hcomps]
  have hnot : t ∉ ts₁ ++ ts₂ := by
    have hnodup := (List.nodup_append.1 hs.threads.nodup).1
    rw [hsplit] at hnodup
    exact (List.nodup_cons.1 (List.nodup_middle.1 hnodup)).1
  refine ⟨h.mutex.trans hmutex.symm, h.lock.trans hlock.symm, ?_, ?_, ?_, ?_, ?_, ?_, ?_, ?_⟩
  · rw [hbot, htop]
    exact h.memory
  · rw [hcomps, hcompAt]
    exact h.comps
  · rw [hcomps]
    exact h.compFree
  · rw [hcomps]
    exact h.ready
  · rw [hparams]
    exact h.params
  · rw [hpins]
    exact h.pins
  · show data.threadList.eraseP _ = _
    rw [h.threads, List.eraseP_map, hthreads]
    exact (congrArg (List.map b.threadAt) herase).trans (map_threadAt_update (by rw [hthreads]) hnot).symm
  · rw [hthreads]
    exact congrArg (· + 1) h.threadFree

/-- `hal_thread_delete` waits for the mutex it holds, or frees the thread. -/
theorem ShownBy.halThreadDelete (hs : b.Sound) (h : b.ShownBy hal) (name : CString) :
    SameRun (b.halThreadDelete name) (SoemMotion.halThreadDelete name hal) := by
  obtain ⟨hlib, hperiod, data, hdata, hshows⟩ := h
  unfold SoemMotion.halThreadDelete HalData.threadDelete
  rw [hdata]
  dsimp only
  rw [hshows.lock]
  cases hdead : b.deletesComponent name with
  | true =>
    rw [halThreadDelete_deadlock hs.mutex hdead]
    unfold deletesComponent at hdead
    rw [Bool.and_eq_true, beq_iff_eq] at hdead
    obtain ⟨hlock, hthread⟩ := hdead
    cases ht : b.halprFindThreadByName name with
    | none =>
      rw [ht] at hthread
      cases hthread
    | some t =>
      rw [ht, Option.any_some, bne_iff_ne] at hthread
      have hfind : (data.setMutex true).threadList.find? (fun thread => thread.name == name) = some (b.threadAt t) := by
        rw [hshows.take.findThread name]
        exact congrArg (Option.map b.threadAt) ht
      refine .inl ⟨rfl, ?_⟩
      have hcomp : (b.threadAt t).compId ≠ 0 := hthread
      rw [if_neg (by simp [hlock]), hshows.withMutex hs, hfind]
      dsimp only
      rw [if_pos hcomp]
      rfl
  | false =>
    rw [halThreadDelete_free hs.mutex hdead]
    split
    · exact .same hs ⟨hlib, hperiod, data, hdata, hshows⟩ _
    rename_i hlock
    have hfind : (data.setMutex true).threadList.find? (fun thread => thread.name == name) =
        (b.halprFindThreadByName name).map b.threadAt := hshows.take.findThread name
    rw [hshows.withMutex hs, hfind]
    cases ht : b.halprFindThreadByName name with
    | none => exact .same hs (.of_shows hal hlib hperiod (hshows.take.give hs)) _
    | some t =>
      have hcomp : ¬ (b.threadAt t).compId ≠ 0 := by
        unfold deletesComponent at hdead
        rw [ht, Option.any_some, beq_iff_eq.2 (not_not.1 hlock), Bool.true_and, bne_eq_false_iff_eq] at hdead
        exact not_not.2 hdead
      obtain ⟨ts₁, ts₂, hsplit, herase⟩ := eraseP_found ht
      obtain ⟨b₁, hrun, hsound, ⟨x, hthreads⟩, hfreed⟩ :=
        freeThread_spec (b := { b with mutex := true }) (hs.give true) hsplit
      dsimp only [Option.map_some]
      rw [herase, hrun, if_neg hcomp]
      have hshown : b₁.rtapiMutexGive.Shows _ :=
        hshows.freeThread hs hsplit herase hthreads (hfreed.give hs.mutex)
      have hperiod' : b₁.rtapiMutexGive.period = b.period := by rw [(hfreed.give hs.mutex).frame]
      exact .inr ⟨0, _, _, rfl, rfl, hsound, hlib, hperiod.trans hperiod'.symm, _, rfl, { hshown with mutex := rfl }⟩

end HalBlock

/-! ### Runs -/

/-- The call on the block, where `rtapi_init` answers the next number. -/
def HalCall.onBlock (hal : Hal) (usesFp priority : Int) : HalCall → BlockCall
  | .init _ name => .init (rtapiInit hal).1 name
  | .createThread rt name period =>
    .createThread ⟨(rtapiInit hal).1, rt.taskNew, rt.taskStart⟩ name period usesFp priority
  | .threadDelete name => .threadDelete name
  | .exit compId => .exit compId

/-- Each call of the component list answers what the call on the block answers, and they go on alike. -/
theorem halCall_shows {b : HalBlock} {hal : Hal} (hs : b.Sound) (h : b.ShownBy hal) (call : HalCall)
    (usesFp priority : Int) : SameRun ((call.onBlock hal usesFp priority).run b) (call.run hal) := by
  cases call with
  | init rt name => exact h.halInit hs rt name
  | createThread rt name period => exact h.halCreateThread hs rt name period usesFp priority
  | threadDelete name => exact h.halThreadDelete hs name
  | exit compId => exact h.halExit hs compId

theorem HalCall.onBlock_inRun (hal : Hal) (usesFp priority : Int) (call : HalCall) :
    (call.onBlock hal usesFp priority).InRun := by
  cases call <;> exact trivial

/-- A call from a library that has mapped the block is a step of the block. -/
theorem halCall_step {b : HalBlock} {hal hal' : Hal} {r : Int} {call : HalCall} (hs : b.Sound) (h : b.ShownBy hal)
    (hrun : call.run hal = some (r, hal')) :
    ∃ c b', blockStep b c b' ∧ c.run b = .ok (r, b') ∧ b'.Sound ∧ b'.ShownBy hal' := by
  rcases halCall_shows hs h call 0 0 with ⟨-, hnone⟩ | ⟨r', b', hal'', hblock, hout, hs', h'⟩
  · rw [hrun] at hnone
    cases hnone
  · rw [hrun] at hout
    cases hout
    exact ⟨_, b', ⟨call.onBlock_inRun hal 0 0, r, hblock⟩, hblock, hs', h'⟩

/-- Nothing is mapped yet, or a run of the block has led to the block that is. -/
def Hal.OnBlock (hal : Hal) : Prop :=
  hal.data = none ∧ hal.period = 0 ∨ ∃ b, Reaches blockStep zeroBlock.initialised b ∧ b.ShownBy hal

theorem initHalData_shows : zeroBlock.initialised.Shows initHalData where
  mutex := rfl
  lock := rfl
  memory := ⟨rfl, rfl⟩
  comps := rfl
  compFree := rfl
  ready := by
    intro p hp
    cases hp
  params := rfl
  pins := rfl
  threads := rfl
  threadFree := rfl

theorem Hal.attach_period (rt : RtAnswer) (hal : Hal) : (hal.attach rt).2.period = hal.period := by
  unfold Hal.attach
  split
  · rfl
  dsimp only
  split
  · rfl
  split <;> rfl

/-- Before the block is mapped only `hal_init` does anything: it maps an empty block and goes on from there. -/
theorem HalCall.onBlock_unmapped {hal hal' : Hal} {r : Int} {call : HalCall} (hdata : hal.data = none)
    (hperiod : hal.period = 0) (hrun : call.run hal = some (r, hal')) : hal'.OnBlock := by
  have hsame : ∀ {e : Int}, some (e, hal) = some (r, hal') → hal'.OnBlock := by
    intro e heq
    cases heq
    exact .inl ⟨hdata, hperiod⟩
  cases call with
  | init rt name =>
    cases name with
    | none => exact hsame hrun
    | some name =>
      have hcall : SoemMotion.halInit rt (some name) hal = some (r, hal') := hrun
      by_cases hlong : halNameLen < name.length
      · unfold SoemMotion.halInit at hcall
        dsimp only at hcall
        rw [if_pos hlong] at hcall
        exact hsame hcall
      have hname : name.length ≤ halNameLen := Nat.le_of_not_lt hlong
      by_cases hlib : hal.libMemId = 0
      · have hkept : (hal.attach rt).2.period = 0 := (hal.attach_period rt).trans hperiod
        rcases halInit_attach hlib hname with ⟨-, hnone, heq⟩ | ⟨hmap, hlib', heq⟩
        · cases hcall.symm.trans heq
          exact .inl ⟨hnone.trans hdata, hkept⟩
        · have hshown : zeroBlock.initialised.ShownBy (hal.attach rt).2 :=
            ⟨hlib', hkept, initHalData, hmap, initHalData_shows⟩
          have hmapped : HalCall.run (.init rt (some name)) (hal.attach rt).2 = some (r, hal') := heq.symm.trans hcall
          obtain ⟨c, b, hstep, -, -, h⟩ := halCall_step zeroBlock_empty.sound hshown hmapped
          exact .inr ⟨b, (Reaches.refl _).tail hstep, h⟩
      · -- a block that could not be mapped is still used
        rw [halInit_mapped hlib hname, hdata, Option.bind_none] at hcall
        obtain ⟨-, hcall⟩ := Option.ite_none_right_eq_some.1 hcall
        cases hcall
        exact .inl ⟨hdata, hperiod⟩
  | createThread rt name period =>
    have hstart : startThread rt name period hal = some (.error (-einval), hal) := by
      unfold startThread
      rw [hdata]
    have hcall : SoemMotion.halCreateThread rt name period hal = some (r, hal') := hrun
    unfold SoemMotion.halCreateThread at hcall
    rw [hstart] at hcall
    exact hsame hcall
  | threadDelete name =>
    have hcall : SoemMotion.halThreadDelete name hal = some (r, hal') := hrun
    unfold SoemMotion.halThreadDelete at hcall
    rw [hdata] at hcall
    exact hsame hcall
  | exit compId =>
    have hcall : SoemMotion.halExit compId hal = some (r, hal') := hrun
    unfold SoemMotion.halExit at hcall
    rw [hdata] at hcall
    exact hsame hcall

/-- Every run of the calls of the component list is one of the block, from the block of zeros initialised. -/
theorem halRun_shows (uuid : Int) (calls : List HalCall) {rs : List Int} {hal : Hal}
    (hrun : runCalls HalCall.run calls (Hal.start uuid) = some (rs, hal)) : hal.OnBlock := by
  have hreach : Reaches (fun s (call : HalCall) t => ∃ r, call.run s = some (r, t)) (Hal.start uuid) hal :=
    runCalls_reaches (fun _ _ r _ _ hcall => ⟨r, hcall⟩) hrun
  refine hreach.invariant (fun hal call hal' h hstep => ?_) (.inl ⟨rfl, rfl⟩)
  obtain ⟨r, hcall⟩ := hstep
  rcases h with ⟨hdata, hperiod⟩ | ⟨b, hb, h⟩
  · exact call.onBlock_unmapped hdata hperiod hcall
  · obtain ⟨c, b', hstep, -, -, h'⟩ := halCall_step (zeroBlock_empty.reaches hb) h hcall
    exact .inr ⟨b', hb.tail hstep, h'⟩

end SoemMotion
