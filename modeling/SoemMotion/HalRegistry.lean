import SoemMotion.HalEntries

/-!
# The registry of the HAL library

`BlockCall` lists the calls of `hal.h`.  A sound block (`HalBlock.Sound`) has its mutex free, structures that lie above
the free memory and are on one list each, and sound function entries; every call of a run keeps it so, and comes back
unless it deletes a thread that has a component, or adds a function when there is no memory for an entry.
-/

namespace SoemMotion

open Lib

/-! ### Calls -/

/-- A call, with its arguments and the numbers that the libraries below answer it. -/
inductive BlockCall
  | init (moduleId : Int) (name : Option CString)
  | exit (compId : Int)
  | setUnready (compId : Int)
  | ready (compId : Int)
  | unready (compId : Int)
  | pinNew (name : CString) (type : HalType) (dataPtrAddr compId : Int)
  | pinNewf (type : HalType) (dataPtrAddr compId : Int) (name : CString)
  | paramNew (name : CString) (type : HalType) (dir : HalParamDir) (dataAddr compId : Int)
  | paramFloatNewf (dir : HalParamDir) (dataAddr compId size : Int) (name : CString)
  | exportFunct (name : CString) (funct arg usesFp reentrant compId : Int)
  | exportFunctf (size : Int) (name : CString) (funct arg usesFp reentrant compId : Int)
  | createThread (rt : HalBlock.ThreadAnswer) (name : CString) (period : UInt64) (usesFp priority : Int)
  | threadDelete (name : CString)
  | addFunct (functName threadName : Option CString) (position : Int)
  | delFunct (functName threadName : Option CString)
  | appMain (moduleId memId : Int)
  | appExit
  | setConstructor (compId : Int)
  | compName (compId : Int)
  | setLock (lockType : UInt8)
  | getLock
  | startThreads
  | stopThreads
  | malloc (size : Int)

/-- What a call does; the name that `hal_comp_name` answers and the lock that `hal_get_lock` answers are left out. -/
def BlockCall.run : BlockCall → HalBlock → HalRun (Int × HalBlock)
  | .init moduleId name, b => b.halInit moduleId name
  | .exit compId, b => b.halExit compId
  | .setUnready compId, b => b.halSetUnready compId
  | .ready compId, b => b.halReady compId
  | .unready compId, b => b.halUnready compId
  | .pinNew name type dataPtrAddr compId, b => b.halPinNew name type dataPtrAddr compId
  | .pinNewf type dataPtrAddr compId name, b => b.halPinNewf type dataPtrAddr compId name
  | .paramNew name type dir dataAddr compId, b => b.halParamNew name type dir dataAddr compId
  | .paramFloatNewf dir dataAddr compId size name, b => b.halParamFloatNewf dir dataAddr compId size name
  | .exportFunct name funct arg usesFp reentrant compId, b => b.halExportFunct name funct arg usesFp reentrant compId
  | .exportFunctf size name funct arg usesFp reentrant compId, b =>
    b.halExportFunctf size name funct arg usesFp reentrant compId
  | .createThread rt name period usesFp priority, b => b.halCreateThread rt name period usesFp priority
  | .threadDelete name, b => b.halThreadDelete name
  | .addFunct functName threadName position, b => b.halAddFunctToThread functName threadName position
  | .delFunct functName threadName, b => b.halDelFunctFromThread functName threadName
  | .appMain moduleId memId, b => b.halAppMain moduleId memId
  | .appExit, b => b.halAppExit
  | .setConstructor compId, b => b.halSetConstructor compId
  | .compName compId, b => (b.halCompName compId).map fun (_, b) => (0, b)
  | .setLock lockType, b => .ok (b.halSetLock lockType)
  | .getLock, b => .ok (0, b.halGetLock.2)
  | .startThreads, b => .ok b.halStartThreads
  | .stopThreads, b => .ok b.halStopThreads
  | .malloc size, b => b.halMalloc size

/-- The calls of a run: those made once `hal_app_main` has returned.  The size given to `hal_malloc` is a length. -/
def BlockCall.InRun : BlockCall → Prop
  | .appMain _ _ => False
  | .malloc size => 0 ≤ size
  | _ => True

/-! ### Structures in the memory -/

/-- Each structure is on one list once, above the free memory. -/
structure PoolOk (size top : Int) (list free : List Int) : Prop where
  nodup : (list ++ free).Nodup
  bound : ∀ p ∈ list ++ free, top ≤ p ∧ p + size ≤ halSize

theorem shmallocDn_bound {size bot top new : Int} (h : HalPool.shmallocDn size bot top = some new) (hsize : 16 ≤ size) :
    bot ≤ new ∧ new + size ≤ top := by
  unfold HalPool.shmallocDn alignDown at h
  dsimp only at h
  rw [if_pos hsize] at h
  split at h
  · cases h
  · cases h
    omega

namespace PoolOk

variable {size top : Int} {list free : List Int}

theorem mono (h : PoolOk size top list free) {top' : Int} (htop : top' ≤ top) : PoolOk size top' list free :=
  ⟨h.nodup, fun p hp => ⟨htop.trans (h.bound p hp).1, (h.bound p hp).2⟩⟩

theorem perm (h : PoolOk size top list free) {list' free' : List Int} (hperm : (list' ++ free').Perm (list ++ free)) :
    PoolOk size top list' free' :=
  ⟨hperm.nodup_iff.2 h.nodup, fun p hp => h.bound p (hperm.mem_iff.1 hp)⟩

/-- A structure has been taken: from the free list, or from the top of the free memory. -/
theorem takes {α : Type} {pool : HalPool α} {bot new top' : Int} {free' : List Int}
    (h : PoolOk size top pool.list pool.free) (ht : HalPool.Takes size bot top pool new free' top') (hsize : 16 ≤ size)
    (hmem : bot ≤ top ∧ top ≤ halSize) :
    PoolOk size top' (new :: pool.list) free' ∧ bot ≤ top' ∧ top' ≤ top ∧ (new ∈ pool.free ∨ new + size ≤ top) := by
  rcases ht.source with ⟨hfree, rfl⟩ | ⟨hfree, hfree', hdn, rfl⟩
  · refine ⟨h.perm ?_, hmem.1, le_refl _, .inl (by simp [hfree])⟩
    rw [hfree]
    exact List.perm_middle.symm
  · obtain ⟨hbot, htop⟩ := shmallocDn_bound hdn hsize
    refine ⟨?_, hbot, by omega, .inr htop⟩
    have hold : ∀ p ∈ pool.list, top ≤ p ∧ p + size ≤ halSize := fun p hp => h.bound p (List.mem_append_left _ hp)
    rw [hfree']
    constructor
    · rw [List.append_nil]
      refine List.nodup_cons.2 ⟨fun hp => ?_, (List.nodup_append.1 h.nodup).1⟩
      have := (hold _ hp).1
      omega
    · intro p hp
      rw [List.append_nil] at hp
      rcases List.mem_cons.1 hp with rfl | hp
      · omega
      · have := hold p hp
        omega

end PoolOk

/-! ### Sound blocks -/

namespace HalBlock

/-- The mutex is free, the structures of every kind are where they belong, none has an old name, and the function
entries are sound: a function that is not reentrant has one at most. -/
structure Sound (b : HalBlock) : Prop where
  mutex : b.mutex = false
  memory : 256 ≤ b.shmemBot ∧ b.shmemBot ≤ b.shmemTop ∧ b.shmemTop ≤ halSize
  comps : PoolOk 104 b.shmemTop b.comps.list b.comps.free
  pins : PoolOk 104 b.shmemTop b.pins.list b.pins.free
  params : PoolOk 88 b.shmemTop b.params.list b.params.free
  functs : PoolOk 112 b.shmemTop b.functs.list b.functs.free
  threads : PoolOk 120 b.shmemTop b.threads.list b.threads.free
  pinNames : ∀ p, (b.pins.cell p).oldname = 0
  paramNames : ∀ p, (b.params.cell p).oldname = 0
  entries : ∃ es, b.EntriesIn b.functs.list b.threads.list b.threads.free es
  single : ∀ f ∈ b.functs.list, (b.functs.cell f).reentrant = 0 → (b.functs.cell f).users ≤ 1

/-- A call that comes back and leaves a sound block. -/
def Returns (run : HalRun (Int × HalBlock)) : Prop := ∃ r b, run = .ok (r, b) ∧ b.Sound

variable {b : HalBlock}

namespace Sound

theorem returns (h : b.Sound) (r : Int) : Returns (.ok (r, b)) := ⟨r, b, rfl, h⟩

/-- The block after the mutex has been given back. -/
theorem give (h : b.Sound) (mutex : Bool) : { b with mutex := mutex }.rtapiMutexGive.Sound := { h with mutex := rfl }

theorem lower (h : b.Sound) {top : Int} (hbot : b.shmemBot ≤ top) (htop : top ≤ b.shmemTop) :
    { b with shmemTop := top }.Sound := by
  obtain ⟨es, hes⟩ := h.entries
  exact { h with
    memory := ⟨h.memory.1, hbot, htop.trans h.memory.2.2⟩
    comps := h.comps.mono htop, pins := h.pins.mono htop, params := h.params.mono htop
    functs := h.functs.mono htop, threads := h.threads.mono htop
    entries := ⟨es, EntriesOk.lower hes (h.memory.1.trans hbot) htop⟩ }

theorem withComps (h : b.Sound) {comps : HalPool CompStruct} (hpool : PoolOk 104 b.shmemTop comps.list comps.free) :
    { b with comps := comps }.Sound := { h with comps := hpool }

theorem setComp (h : b.Sound) (p : Int) (f : CompStruct → CompStruct) : { b with comps := b.comps.set p f }.Sound :=
  h.withComps h.comps

theorem withPins (h : b.Sound) {pins : HalPool PinStruct} (hpool : PoolOk 104 b.shmemTop pins.list pins.free)
    (hnames : ∀ p, (pins.cell p).oldname = 0) (ptrs : Int → Int) : { b with pins := pins, ptrs := ptrs }.Sound :=
  { h with pins := hpool, pinNames := hnames }

theorem withParams (h : b.Sound) {params : HalPool ParamStruct} (hpool : PoolOk 88 b.shmemTop params.list params.free)
    (hnames : ∀ p, (params.cell p).oldname = 0) : { b with params := params }.Sound :=
  { h with params := hpool, paramNames := hnames }

theorem withFuncts (h : b.Sound) {functs : HalPool FunctStruct} (hpool : PoolOk 112 b.shmemTop functs.list functs.free)
    {es : Int → List Int} (hes :
    EntriesOk b.shmemTop functs.cell functs.list b.threads.list b.threads.free b.entries b.links es)
    (hsingle : ∀ f ∈ functs.list, (functs.cell f).reentrant = 0 → (functs.cell f).users ≤ 1) :
    { b with functs := functs }.Sound := { h with functs := hpool, entries := ⟨es, hes⟩, single := hsingle }

end Sound

/-! ### Components, pins and parameters -/

theorem halInit_returns (h : b.Sound) (moduleId : Int) (name : Option CString) : Returns (b.halInit moduleId name) := by
  rw [halInit_eq h.mutex]
  cases b.compError moduleId name with
  | some e => exact h.returns e
  | none =>
    dsimp only
    cases htake : b.takeComp with
    | none => exact h.returns _
    | some r =>
      obtain ⟨comp, comps, top⟩ := r
      obtain ⟨htakes, hlist, -⟩ := HalPool.alloc_takes htake
      obtain ⟨hpool, hbot, htop, -⟩ := h.comps.takes htakes (by decide) h.memory.2
      rw [← hlist] at hpool
      exact ⟨_, _, rfl, (h.lower hbot htop).withComps hpool⟩

/-- The calls that look a component up and write into it, or do not. -/
theorem findComp_cases {P : HalRun (Int × HalBlock) → Prop} (hm : b.mutex = false) {compId : Int}
    {k : Int → HalBlock → HalRun (Int × HalBlock)} (hnone : P (.ok (-einval, { b with mutex := false })))
    (hsome : ∀ comp, P (k comp { b with mutex := true })) :
    P (b.rtapiMutexGet fun b =>
      match b.halprFindCompById compId with
      | none => .ok (-einval, b.rtapiMutexGive)
      | some comp => k comp b) := by
  rw [rtapiMutexGet_free hm]
  cases { b with mutex := true }.halprFindCompById compId with
  | none => exact hnone
  | some comp => exact hsome comp

theorem findComp_returns (h : b.Sound) {compId : Int} {k : Int → HalBlock → HalRun (Int × HalBlock)}
    (hk : ∀ comp, Returns (k comp { b with mutex := true })) :
    Returns (b.rtapiMutexGet fun b =>
      match b.halprFindCompById compId with
      | none => .ok (-einval, b.rtapiMutexGive)
      | some comp => k comp b) :=
  findComp_cases h.mutex ⟨_, _, rfl, h.give true⟩ hk

theorem halSetUnready_returns (h : b.Sound) (compId : Int) : Returns (b.halSetUnready compId) :=
  findComp_returns h fun comp => ⟨_, _, rfl, (h.setComp comp fun p => { p with ready := 0 }).give true⟩

theorem halReady_returns (h : b.Sound) (compId : Int) : Returns (b.halReady compId) := by
  refine findComp_returns h fun comp => ?_
  split
  · exact ⟨_, _, rfl, h.give true⟩
  · exact ⟨_, _, rfl, (h.setComp comp fun p => { p with ready := 1 }).give true⟩

theorem halUnready_returns (h : b.Sound) (compId : Int) : Returns (b.halUnready compId) := by
  refine findComp_returns h fun comp => ?_
  split
  · exact ⟨_, _, rfl, h.give true⟩
  · exact ⟨_, _, rfl, (h.setComp comp fun p => { p with ready := 0 }).give true⟩

theorem halSetConstructor_returns (h : b.Sound) (compId : Int) : Returns (b.halSetConstructor compId) :=
  findComp_returns h fun _ => ⟨_, _, rfl, h.give true⟩

theorem oldname_update {α : Type} {cell cell' : Int → α} {oldname : α → Int} {new : Int} {x : α}
    (hcell : cell' = Function.update cell new x) (hx : oldname x = oldname (cell new)) (p : Int) :
    oldname (cell' p) = oldname (cell p) := by
  rw [hcell]
  by_cases hp : p = new
  · rw [hp, Function.update_self, hx]
  · rw [Function.update_of_ne hp]

/-- No structure that was handed out gets an old name. -/
theorem oldname_of_cell {α : Type} {cell cell' : Int → α}
    {oldname : α → Int} (h : ∀ p, oldname (cell p) = 0) {new : Int}
    {x : α} (hcell : cell' = Function.update cell new x) (hx : oldname x = oldname (cell new)) (p : Int) :
    oldname (cell' p) = 0 := (oldname_update hcell hx p).trans (h p)

theorem halPinNew_returns (h : b.Sound) (name : CString) (type : HalType) (addr compId : Int) :
    Returns (b.halPinNew name type addr compId) := by
  rw [halPinNew_eq h.mutex]
  cases b.itemOwner name (type.isValue || type == .port) addr compId with
  | error e => exact h.returns e
  | ok comp =>
    dsimp only
    cases hput : b.putPin name type addr comp with
    | full => exact h.returns _
    | taken new pins top =>
      obtain ⟨htaken, hlist⟩ := HalPool.put_taken hput
      obtain ⟨hpool, hbot, htop, -⟩ := h.pins.takes htaken.takes (by decide) h.memory.2
      have hnames := oldname_of_cell h.pinNames htaken.cell rfl
      dsimp only
      rw [if_neg (by simp [hnames])]
      refine ⟨_, _, rfl, (h.lower hbot htop).withPins (hpool.perm ?_) ?_ _⟩
      · rw [← hlist]
        exact List.perm_middle
      · exact oldname_of_cell hnames rfl rfl
    | placed new pins top =>
      obtain ⟨htaken, l₁, l₂, hsplit, hlist⟩ := HalPool.put_placed hput
      obtain ⟨hpool, hbot, htop, -⟩ := h.pins.takes htaken.takes (by decide) h.memory.2
      refine ⟨_, _, rfl, (h.lower hbot htop).withPins (hpool.perm ?_) (oldname_of_cell h.pinNames htaken.cell rfl) _⟩
      rw [hlist, hsplit]
      exact List.perm_middle.append_right _

theorem halPinNewf_returns (h : b.Sound) (type : HalType) (addr compId : Int) (name : CString) :
    Returns (b.halPinNewf type addr compId name) := by
  unfold halPinNewf
  split
  · exact h.returns _
  · exact halPinNew_returns h name type addr compId

theorem halParamNew_returns (h : b.Sound) (name : CString) (type : HalType) (dir : HalParamDir) (addr compId : Int) :
    Returns (b.halParamNew name type dir addr compId) := by
  rw [halParamNew_eq h.mutex]
  cases b.itemOwner name (type.isValue && dir != .other) addr compId with
  | error e => exact h.returns e
  | ok comp =>
    dsimp only
    cases hput : b.putParam name type dir addr comp with
    | full => exact h.returns _
    | taken new params top =>
      obtain ⟨htaken, hlist⟩ := HalPool.put_taken hput
      obtain ⟨hpool, hbot, htop, -⟩ := h.params.takes htaken.takes (by decide) h.memory.2
      have hnames := oldname_of_cell h.paramNames htaken.cell rfl
      dsimp only
      rw [if_neg (by simp [hnames])]
      refine ⟨_, _, rfl, (h.lower hbot htop).withParams (hpool.perm ?_) ?_⟩
      · rw [← hlist]
        exact List.perm_middle
      · exact oldname_of_cell hnames rfl rfl
    | placed new params top =>
      obtain ⟨htaken, l₁, l₂, hsplit, hlist⟩ := HalPool.put_placed hput
      obtain ⟨hpool, hbot, htop, -⟩ := h.params.takes htaken.takes (by decide) h.memory.2
      refine ⟨_, _, rfl, (h.lower hbot htop).withParams (hpool.perm ?_) (oldname_of_cell h.paramNames htaken.cell rfl)⟩
      rw [hlist, hsplit]
      exact List.perm_middle.append_right _

theorem halParamFloatNewf_returns (h : b.Sound) (dir : HalParamDir) (addr compId size : Int) (name : CString) :
    Returns (b.halParamFloatNewf dir addr compId size name) := by
  unfold halParamFloatNewf
  split
  · exact h.returns _
  · exact halParamNew_returns h name .float dir addr compId

/-! ### Functions -/

/-- What follows a call that comes back. -/
theorem Returns.bind {run : HalRun (Int × HalBlock)} {k : Int × HalBlock → HalRun (Int × HalBlock)} (h : Returns run)
    (hk : ∀ r b, b.Sound → Returns (k (r, b))) : Returns (run.bind k) := by
  obtain ⟨r, b, rfl, hb⟩ := h
  exact hk r b hb

theorem finishFunct_returns (h : b.Sound) (new : Int) (name : CString) (compId : Int) :
    Returns (finishFunct new name compId b) := by
  refine (halPinNewf_returns h _ _ _ _).bind fun r b hb => ?_
  dsimp only
  split
  · exact hb.returns _
  · refine (halParamNew_returns hb _ _ _ _ _).bind fun _ b hb => ?_
    exact (halParamNew_returns hb _ _ _ _ _).bind fun _ b hb => hb.returns 0

/-- A sound block with a new function on its list. -/
theorem Sound.placeFunct (h : b.Sound) {name : CString} {funct arg usesFp reentrant comp new top : Int}
    {functs : HalPool FunctStruct} (hput : b.putFunct name funct arg usesFp reentrant comp = .placed new functs top) :
    { b with functs := functs, shmemTop := top }.Sound := by
  obtain ⟨es, hes⟩ := h.entries
  obtain ⟨htaken, l₁, l₂, hsplit, hlist⟩ := HalPool.put_placed hput
  obtain ⟨hpool, hbot, htop, -⟩ := h.functs.takes htaken.takes (by decide) h.memory.2
  have hnew : new ∉ b.functs.list := fun hmem => (List.nodup_cons.1 hpool.nodup).1 (List.mem_append_left _ hmem)
  have hperm : functs.list.Perm (new :: b.functs.list) := by
    rw [hlist, hsplit]
    exact List.perm_middle
  have hlow := h.lower hbot htop
  have hnewest := (EntriesOk.lower hes (h.memory.1.trans hbot) htop).addFunct hnew
    (hpool.bound new List.mem_cons_self).1
    (x := ⟨usesFp, comp, reentrant, 0, arg, funct, snprintf (halNameLen + 1) name⟩)
    rfl hperm
  rw [← htaken.cell] at hnewest
  refine hlow.withFuncts (hpool.perm (hperm.append_right _)) hnewest ?_
  intro f hf
  rw [htaken.cell]
  by_cases hfn : f = new
  · rw [hfn, Function.update_self]
    intro _
    exact Int.zero_le_ofNat 1
  · rw [Function.update_of_ne hfn]
    exact h.single f ((List.mem_cons.1 (hperm.mem_iff.1 hf)).resolve_left hfn)

theorem halExportFunct_returns (h : b.Sound) (name : CString) (funct arg usesFp reentrant compId : Int) :
    Returns (b.halExportFunct name funct arg usesFp reentrant compId) := by
  rw [halExportFunct_eq h.mutex]
  cases b.functOwner name compId with
  | error e => exact h.returns e
  | ok comp =>
    dsimp only
    obtain ⟨es, hes⟩ := h.entries
    cases hput : b.putFunct name funct arg usesFp reentrant comp with
    | full => exact h.returns _
    | taken new functs top =>
      obtain ⟨htaken, hlist⟩ := HalPool.put_taken hput
      obtain ⟨hpool, hbot, htop, -⟩ := h.functs.takes htaken.takes (by decide) h.memory.2
      have hnew : new ∉ b.functs.list := fun hmem => (List.nodup_cons.1 hpool.nodup).1 (List.mem_append_left _ hmem)
      have hlow := h.lower hbot htop
      have hcell : Function.update functs.cell new (emptyFunct (functs.cell new)) =
          Function.update b.functs.cell new (emptyFunct (functs.cell new)) := by
        rw [htaken.cell, Function.update_idem]
      refine ⟨_, _, rfl, { hlow with functs := hpool.perm ?_, entries := ⟨es, ?_⟩, single := ?_ }⟩
      · show (functs.list ++ new :: functs.free).Perm _
        rw [hlist]
        exact List.perm_middle
      · show EntriesOk top (Function.update functs.cell new _) functs.list _ _ _ _ _
        rw [hlist, hcell]
        exact (EntriesOk.lower hes (h.memory.1.trans hbot) htop).setFunct hnew _
      · show ∀ f ∈ functs.list, (Function.update functs.cell new _ f).reentrant = 0 →
          (Function.update functs.cell new _ f).users ≤ 1
        rw [hlist, hcell]
        intro f hf
        rw [Function.update_of_ne (by rintro rfl; exact hnew hf)]
        exact h.single f hf
    | placed new functs top => exact finishFunct_returns (h.placeFunct hput) new name compId

theorem halExportFunctf_returns (h : b.Sound) (size : Int) (name : CString) (funct arg usesFp reentrant compId : Int) :
    Returns (b.halExportFunctf size name funct arg usesFp reentrant compId) := by
  unfold halExportFunctf
  split
  · exact h.returns _
  · exact halExportFunct_returns h name funct arg usesFp reentrant compId

/-! ### Threads -/

theorem Sound.setThread (h : b.Sound) (p : Int) (f : ThreadStruct → ThreadStruct) :
    { b with threads := b.threads.set p f }.Sound := { h with }

theorem finishThread_returns (h : b.Sound) (rt : ThreadAnswer) (new : Int) (name : CString) :
    Returns (finishThread rt new name b) := by
  refine (halInit_returns h _ _).bind fun compId b hb => ?_
  dsimp only
  have hb' := hb.setThread new fun p => { p with compId := compId }
  split
  · exact hb'.returns _
  · refine (halParamNew_returns hb' _ _ _ _ _).bind fun _ b hb => ?_
    dsimp only
    split
    · exact hb.returns _
    · refine (halPinNewf_returns hb _ _ _ _).bind fun _ b hb => ?_
      dsimp only
      split
      · exact hb.returns _
      · exact (halReady_returns hb _).bind fun _ b hb => hb.returns _

theorem Sound.withThread (h : b.Sound) {new top : Int} (hbot : b.shmemBot ≤ top) (htop : top ≤ b.shmemTop)
    {threads : HalPool ThreadStruct} (hpool : PoolOk 120 top threads.list threads.free) {es : Int → List Int}
    (hes : EntriesOk top b.functs.cell b.functs.list threads.list threads.free b.entries
    (b.links.init (functList new)) es)
    (base : Int) : (b.withThread new threads top base).Sound :=
  { h.lower hbot htop with threads := hpool, entries := ⟨es, hes⟩ }

/-- A thread structure has been taken, and a ring is made for it: it was no node of the rings of the other threads. -/
theorem takesThread {fs : List Int} {es : Int → List Int} {cell : Int → FunctStruct} {entries : Int → FunctEntry}
    {links : Links Int} {pool : HalPool ThreadStruct} {free : List Int} {bot top new top' : Int}
    (hes : EntriesOk top cell fs pool.list pool.free entries links es)
    (htakes : HalPool.Takes 120 bot top pool new free top') (hpool : PoolOk 120 top' (new :: pool.list) free)
    (hbase : 256 ≤ bot) (hbot : bot ≤ top') (htop : top' ≤ top) :
    EntriesOk top' cell fs (new :: pool.list) free entries (links.init (functList new))
      (Function.update es (functList new) []) := by
  have hnew : new ∉ pool.list ++ free := (List.nodup_cons.1 hpool.nodup).1
  have hrest : ∃ hsub : free.Sublist pool.free, ¬ Node (ringRoots (pool.list ++ free)) es (functList new) := by
    rcases htakes.source with ⟨hfree, -⟩ | ⟨hfree, hfree', hdn, -⟩
    · refine ⟨by rw [hfree]; exact List.sublist_cons_self _ _, ?_⟩
      rintro ⟨r, hr, hmem⟩
      have hsub : ∀ s ∈ pool.list ++ free, s ∈ pool.list ++ pool.free := by
        rw [hfree]
        exact fun s hs => (List.Sublist.append_left (List.sublist_cons_self _ _) _).subset hs
      have hold : new ∈ pool.list ++ pool.free := by simp [hfree]
      rcases List.mem_cons.1 hr with rfl | hr
      · have := hes.rings.eq_of_mem (mem_ringRoots hold) List.mem_cons_self List.mem_cons_self hmem
        exact hes.free_ne hold this
      · obtain ⟨s, hs, rfl⟩ := List.mem_map.1 hr
        have := hes.rings.eq_of_mem (mem_ringRoots hold) (mem_ringRoots (hsub s hs)) List.mem_cons_self hmem
        exact hnew (functList_inj.1 this ▸ hs)
    · refine ⟨by rw [hfree, hfree'], ?_⟩
      obtain ⟨hlow, hhigh⟩ := shmallocDn_bound hdn (by decide)
      rw [hfree', ← hfree]
      refine hes.not_node ?_ ?_
      · unfold functList
        omega
      · unfold functList
        omega
  obtain ⟨hsub, hnode⟩ := hrest
  have hlow := (hes.dropSpare hsub).lower (hbase.trans hbot) htop
  exact hlow.newThread (hpool.bound new List.mem_cons_self) hnew hnode

/-- The entries with the structure of a new thread taken, and a ring for it. -/
theorem Sound.takeThread (h : b.Sound) {new top : Int} {threads : HalPool ThreadStruct}
    (htake : b.takeThread = some (new, threads, top)) :
    PoolOk 120 top (new :: b.threads.list) threads.free ∧ (b.shmemBot ≤ top ∧ top ≤ b.shmemTop) ∧
      ∃ es, es (functList new) = [] ∧ (∀ r ∈ ringRoots b.threads.list, ∀ e ∈ es r, b.shmemTop ≤ e) ∧
        EntriesOk top b.functs.cell b.functs.list (new :: b.threads.list) threads.free b.entries
          (b.links.init (functList new)) es := by
  obtain ⟨htakes, -, -⟩ := HalPool.alloc_takes htake
  obtain ⟨hpool, hbot, htop, -⟩ := h.threads.takes htakes (by decide) h.memory.2
  obtain ⟨es, hes⟩ := h.entries
  refine ⟨hpool, ⟨hbot, htop⟩, Function.update es (functList new) [], Function.update_self _ _ _, ?_,
    takesThread hes htakes hpool h.memory.1 hbot htop⟩
  intro r hr e he
  by_cases hrn : r = functList new
  · rw [hrn, Function.update_self] at he
    cases he
  · rw [Function.update_of_ne hrn] at he
    exact (hes.nodes r (ringRoots_append b.threads.free hr) e he).1

theorem halCreateThread_returns (h : b.Sound) (rt : ThreadAnswer) (name : CString) (period : UInt64)
    (usesFp priority : Int) : Returns (b.halCreateThread rt name period usesFp priority) := by
  cases hcheck : b.threadError name period with
  | some e =>
    rw [halCreateThread_error h.mutex rt usesFp priority (.inl hcheck)]
    exact h.returns e
  | none =>
    cases htake : b.takeThread with
    | none =>
      rw [halCreateThread_error h.mutex rt usesFp priority (.inr ⟨hcheck, htake, rfl⟩)]
      exact h.returns _
    | some r =>
      obtain ⟨new, threads, top⟩ := r
      obtain ⟨cell, base, -, hrun⟩ := halCreateThread_taken h.mutex rt usesFp priority hcheck htake
      obtain ⟨hpool, ⟨hbot, htop⟩, es, hnone, -, hes⟩ := h.takeThread htake
      rw [hrun]
      split
      · exact finishThread_returns (h.withThread hbot htop hpool hes base) rt new name
      · have hlost : EntriesOk top b.functs.cell b.functs.list b.threads.list threads.free b.entries
            (b.links.init (functList new)) es := by
          have hretired : EntriesOk top b.functs.cell b.functs.list ([] ++ b.threads.list)
              (new :: threads.free) b.entries
              (b.links.init (functList new)) es := EntriesOk.retire hes hnone
          exact hretired.dropSpare (List.sublist_cons_self _ _)
        have hpool' : PoolOk 120 top b.threads.list threads.free :=
          ⟨(List.nodup_cons.1 hpool.nodup).2, fun p hp => hpool.bound p (List.mem_cons_of_mem _ hp)⟩
        exact ⟨_, _, rfl, h.withThread hbot htop hpool' hlost base⟩

/-! ### Function entries -/

theorem halprFindFunctByName_mem {name : CString}
    {f : Int} (h : b.halprFindFunctByName name = some f) : f ∈ b.functs.list :=
  List.mem_of_find?_eq_some h

theorem halprFindThreadByName_mem {name : CString} {t : Int} (h : b.halprFindThreadByName name = some t) :
    t ∈ b.threads.list := List.mem_of_find?_eq_some h

/-- The function and the entry that `hal_add_funct_to_thread` has found. -/
theorem addPlace_ok {functName threadName : Option CString} {position funct thread entry : Int}
    (h : b.addPlace functName threadName position = .ok (funct, thread, entry)) :
    funct ∈ b.functs.list ∧ thread ∈ b.threads.list ∧
      ¬ (0 < (b.functs.cell funct).users ∧ (b.functs.cell funct).reentrant = 0) ∧
      b.insertionPoint (functList thread) position = some entry := by
  unfold addPlace at h
  split at h
  · cases h
  split at h
  · cases h
  split at h
  · split at h
    · cases h
    rename_i hfunct
    split at h
    · cases h
    rename_i husers
    split at h
    · cases h
    rename_i hthread
    split at h
    · cases h
    split at h
    · cases h
    rename_i hentry
    cases h
    exact ⟨halprFindFunctByName_mem hfunct, halprFindThreadByName_mem hthread, husers, hentry⟩
  · cases h

theorem delPlace_ok {functName threadName : Option CString} {funct thread : Int}
    (h : b.delPlace functName threadName = .ok (funct, thread)) : funct ∈ b.functs.list ∧ thread ∈ b.threads.list := by
  unfold delPlace at h
  split at h
  · cases h
  split at h
  · split at h
    · cases h
    rename_i hfunct
    split at h
    · cases h
    split at h
    · cases h
    rename_i hthread
    cases h
    exact ⟨halprFindFunctByName_mem hfunct, halprFindThreadByName_mem hthread⟩
  · cases h

theorem walk_mem {step : Int → Int} {root : Int} {S : List Int} (hstep : ∀ a ∈ S, step a ∈ S) {n : Nat} {a e : Int}
    (ha : a ∈ S) (h : walk step root n a = some e) : e ∈ S := by
  induction n generalizing a with
  | zero =>
    cases h
    exact ha
  | succ n ih =>
    unfold walk at h
    split at h
    · cases h
    · exact ih (hstep a ha) h

/-- The entry to insert after is the root or an entry of the thread. -/
theorem insertionPoint_mem {fs ts spare : List Int} {es : Int → List Int} (h : b.EntriesIn fs ts spare es) {t : Int}
    (ht : t ∈ ts ++ spare) {position entry : Int} (hpoint : b.insertionPoint (functList t) position = some entry) :
    entry ∈ functList t :: es (functList t) := by
  have hring := h.rings.ring _ (mem_ringRoots ht)
  unfold insertionPoint at hpoint
  split at hpoint
  · exact walk_mem (fun a ha => hring.next_mem ha) List.mem_cons_self hpoint
  · obtain ⟨a, ha, rfl⟩ := Option.map_eq_some_iff.1 hpoint
    exact hring.prev_mem (walk_mem (fun a ha => hring.prev_mem ha) List.mem_cons_self ha)

/-- There is neither a free entry nor memory for one. -/
def noEntry (b : HalBlock) : Bool :=
  b.links.next functEntryFree == functEntryFree && (HalPool.shmallocDn 40 b.shmemBot b.shmemTop).isNone

theorem allocFunctEntryStruct_null (h : b.noEntry = true) : b.allocFunctEntryStruct = .error .null := by
  unfold noEntry at h
  rw [Bool.and_eq_true, beq_iff_eq, Option.isNone_iff_eq_none] at h
  unfold allocFunctEntryStruct
  dsimp only
  rw [if_neg (by simp [h.1]), h.2]

/-- The entry that `alloc_funct_entry_struct` takes, the top of the free memory and the rings after it: the first free
entry, or memory for a new one. -/
def freeEntry (es : Int → List Int) (bot top : Int) : Option (Int × Int × (Int → List Int)) :=
  match es functEntryFree with
  | e :: rest => some (e, top, Function.update es functEntryFree rest)
  | [] => (HalPool.shmallocDn 40 bot top).map fun p => (p, p, es)

theorem allocEntry_none {fs ts spare : List Int} {es : Int → List Int} (hes : b.EntriesIn fs ts spare es)
    (hfree : freeEntry es b.shmemBot b.shmemTop = none) : b.noEntry = true := by
  have hring := hes.rings.ring functEntryFree List.mem_cons_self
  unfold freeEntry at hfree
  split at hfree
  · cases hfree
  · rename_i hnil
    rw [hnil] at hring
    have hnext : b.links.next functEntryFree = functEntryFree :=
      (show Ring b.links functEntryFree ([] ++ []) from hring).next_eq
      (show [functEntryFree] = [] ++ [functEntryFree] from rfl) rfl
    unfold noEntry
    rw [hnext, Option.map_eq_none_iff.1 hfree]
    simp

/-- An entry has been taken: a node of no ring, and the rest of the block as it was. -/
theorem allocEntry_some {fs ts spare : List Int} {es es' : Int → List Int} {new top : Int}
    (hes : b.EntriesIn fs ts spare es) (hmem : 256 ≤ b.shmemBot ∧ b.shmemBot ≤ b.shmemTop ∧ b.shmemTop ≤ halSize)
    (hfree : freeEntry es b.shmemBot b.shmemTop = some (new, top, es')) :
    (∃ links, b.allocFunctEntryStruct = .ok (new, { b with
        shmemTop := top, links := links, entries := Function.update b.entries new ⟨0, 0, 0⟩ }) ∧
      EntriesOk top b.functs.cell fs ts spare b.entries links es') ∧
      (b.shmemBot ≤ top ∧ top ≤ b.shmemTop) ∧ (top ≤ new ∧ new < halSize) ∧
      ¬ Node (ringRoots (ts ++ spare)) es' new ∧ ∀ t ∈ ts, es' (functList t) = es (functList t) := by
  have hring := hes.rings.ring functEntryFree List.mem_cons_self
  have hplace : [functEntryFree] = [] ++ [functEntryFree] := rfl
  unfold freeEntry at hfree
  unfold allocFunctEntryStruct
  dsimp only
  split at hfree
  -- an entry from the free list
  · rename_i e bs hcons
    cases hfree
    have hnext : b.links.next functEntryFree = new := by
      rw [hcons] at hring
      exact (show Ring b.links functEntryFree ([] ++ new :: bs) from hring).next_eq hplace rfl
    have hne : new ≠ functEntryFree := by
      rintro rfl
      exact (List.nodup_cons.1 hring.nodup).1 (by simp [hcons])
    obtain ⟨hok, hnode⟩ := hes.takeEntry hcons
    rw [hnext, if_pos hne]
    refine ⟨⟨b.links.remove new, rfl, hok⟩, ⟨hmem.2.1, le_refl _⟩, ?_, hnode, ?_⟩
    · exact hes.nodes functEntryFree List.mem_cons_self new (by simp [hcons])
    · exact fun t ht => Function.update_of_ne (hes.free_ne (List.mem_append_left _ ht)) _ _
  -- a new one from the top of the block
  · rename_i hnil
    obtain ⟨p, hdn, heq⟩ := Option.map_eq_some_iff.1 hfree
    cases heq
    have hnext : b.links.next functEntryFree = functEntryFree := by
      rw [hnil] at hring
      exact (show Ring b.links functEntryFree ([] ++ []) from hring).next_eq hplace rfl
    rw [hnext, if_neg (by simp), hdn]
    obtain ⟨hbot, htop⟩ := shmallocDn_bound hdn (by decide)
    have hnode : ¬ Node (ringRoots (ts ++ spare)) es new := hes.not_node (hmem.1.trans hbot) (by omega)
    have hsize := hmem.2.2
    exact ⟨⟨b.links.init new, rfl, (EntriesOk.lower hes (hmem.1.trans hbot) (by omega)).initNode hnode⟩,
      ⟨hbot, by omega⟩, ⟨le_refl _, by omega⟩, hnode, fun _ _ => rfl⟩

theorem Sound.allocEntry (h : b.Sound) {es : Int → List Int}
    (hes : b.EntriesIn b.functs.list b.threads.list b.threads.free es) (hroom : b.noEntry = false) :
    ∃ new top links es', b.allocFunctEntryStruct = .ok (new, { b with
        shmemTop := top, links := links, entries := Function.update b.entries new ⟨0, 0, 0⟩ }) ∧
      (b.shmemBot ≤ top ∧ top ≤ b.shmemTop) ∧ (top ≤ new ∧ new < halSize) ∧
      EntriesOk top b.functs.cell b.functs.list b.threads.list b.threads.free b.entries links es' ∧
      ¬ Node (ringRoots (b.threads.list ++ b.threads.free)) es' new ∧
      ∀ t ∈ b.threads.list, es' (functList t) = es (functList t) := by
  cases hfree : freeEntry es b.shmemBot b.shmemTop with
  | none =>
    rw [allocEntry_none hes hfree] at hroom
    cases hroom
  | some taken =>
    obtain ⟨new, top, es'⟩ := taken
    obtain ⟨⟨links, halloc, hok⟩, htop, hnew, hnode, hlists⟩ := allocEntry_some hes h.memory hfree
    exact ⟨new, top, links, es', halloc, htop, hnew, hok, hnode, hlists⟩

/-- `hal_add_funct_to_thread` once it has found its place: the new entry is linked in there. -/
theorem Sound.links (h : b.Sound) {functName threadName : Option CString} {position funct thread entry : Int}
    {es : Int → List Int} {as bs xs : List Int} (hes : b.EntriesIn b.functs.list b.threads.list b.threads.free es)
    (hplace : b.addPlace functName threadName position = .ok (funct, thread, entry)) (hroom : b.noEntry = false)
    (hsplit : es (functList thread) = as ++ bs) (hp : functList thread :: as = xs ++ [entry]) :
    ∃ new top links es', b.halAddFunctToThread functName threadName position = .ok (0, { b with
        shmemTop := top, links := links
        entries := Function.update b.entries new ⟨(b.functs.cell funct).arg, (b.functs.cell funct).funct, funct⟩
        functs := b.functs.set funct fun p => { p with users := p.users + 1 } }) ∧
      (b.shmemBot ≤ top ∧ top ≤ b.shmemTop) ∧
      EntriesOk top (b.functs.set funct fun p => { p with users := p.users + 1 }).cell b.functs.list b.threads.list
        b.threads.free (Function.update b.entries new ⟨(b.functs.cell funct).arg, (b.functs.cell funct).funct, funct⟩)
        links es' ∧
      es' (functList thread) = as ++ new :: bs ∧
      ∀ t ∈ b.threads.list, (t ≠ thread → es' (functList t) = es (functList t)) ∧ new ∉ es (functList t) := by
  obtain ⟨hf, ht, -, -⟩ := addPlace_ok hplace
  obtain ⟨new, top, links, es', halloc, hmem, hbound, hok, hnode, hlists⟩ := h.allocEntry hes hroom
  rw [← hlists thread ht] at hsplit
  have hlinked := hok.hook ht hf hsplit hp hnode hbound
    (x := ⟨(b.functs.cell funct).arg, (b.functs.cell funct).funct, funct⟩) rfl
  refine ⟨new, top, links.addAfter new entry, _, ?_, hmem, hlinked, Function.update_self _ _ _,
    fun t htmem => ⟨fun hne => ?_, ?_⟩⟩
  · rw [halAddFunctToThread_eq h.mutex, hplace]
    dsimp only
    rw [halloc]
    have hentries := Function.update_idem (a := new) (v := (⟨0, 0, 0⟩ : FunctEntry))
      (w := ⟨(b.functs.cell funct).arg, (b.functs.cell funct).funct, funct⟩) b.entries
    rw [← hentries]
    rfl
  · rw [Function.update_of_ne (mt functList_inj.1 hne)]
    exact hlists t htmem
  · rw [← hlists t htmem]
    exact fun hmem => hnode ⟨functList t, mem_ringRoots (List.mem_append_left _ htmem), List.mem_cons_of_mem _ hmem⟩

theorem Sound.linkEntry (h : b.Sound) {functName threadName : Option CString} {position funct thread entry : Int}
    (hplace : b.addPlace functName threadName position = .ok (funct, thread, entry)) (hroom : b.noEntry = false) :
    Returns (b.halAddFunctToThread functName threadName position) := by
  obtain ⟨hf, ht, husers, hpoint⟩ := addPlace_ok hplace
  obtain ⟨es, hes⟩ := h.entries
  obtain ⟨as, bs, xs, hsplit, hp⟩ := exists_place (insertionPoint_mem hes (List.mem_append_left _ ht) hpoint)
  obtain ⟨new, top, links, es', hrun, ⟨hbot, htop⟩, hlinked, -, -⟩ := h.links hes hplace hroom hsplit hp
  refine ⟨_, _, hrun, { h.lower hbot htop with entries := ⟨_, hlinked⟩, single := ?_ }⟩
  intro f hf'
  show (Function.update b.functs.cell funct _ f).reentrant = 0 → (Function.update b.functs.cell funct _ f).users ≤ 1
  by_cases hff : f = funct
  · subst hff
    rw [Function.update_self]
    intro hre
    have hcount := hes.users f hf
    show (b.functs.cell f).users + 1 ≤ 1
    have : ¬ 0 < (b.functs.cell f).users := fun hpos => husers ⟨hpos, hre⟩
    omega
  · rw [Function.update_of_ne hff]
    exact h.single f hf'

/-- The search of `hal_del_funct_from_thread` ends, at an entry of the thread that refers to the function if at any. -/
theorem findEntry_spec {fs ts spare as bs : List Int} {es : Int → List Int} (h : b.EntriesIn fs ts spare es) {t f : Int}
    (ht : t ∈ ts ++ spare) (hes : es (functList t) = as ++ bs) {n : Nat} (hn : bs.length < n) :
    findEntry f (functList t) b n ((bs ++ [functList t]).head (by simp)) =
      .ok (bs.find? fun e => (b.entries e).functPtr = f) := by
  induction bs generalizing as n with
  | nil =>
    obtain ⟨m, rfl⟩ := Nat.exists_eq_succ_of_ne_zero (by omega : n ≠ 0)
    exact if_pos rfl
  | cons e bs ih =>
    obtain ⟨m, rfl⟩ := Nat.exists_eq_succ_of_ne_zero (by simp at hn; omega : n ≠ 0)
    have hmem : e ∈ es (functList t) := by simp [hes]
    rw [show ((e :: bs) ++ [functList t]).head (by simp) = e from rfl]
    unfold findEntry
    rw [if_neg (entry_ne_root h ht hmem), next_entry h ht hes]
    by_cases hf : (b.entries e).functPtr = f
    · rw [if_pos hf, List.find?_cons_of_pos (by simpa using hf)]
    · have hsplit : es (functList t) = (as ++ [e]) ++ bs := by
        rw [List.append_assoc]
        exact hes
      rw [if_neg hf, List.find?_cons_of_neg (by simpa using hf)]
      exact ih hsplit (by simp at hn; omega)

/-- A block with fewer entries has no more entries for a function than it had. -/
theorem Sound.single_of_fewer (h : b.Sound) {b' : HalBlock} {fs ts : List Int} {es : Int → List Int}
    (es' : Int → List Int) (hes : b.EntriesIn b.functs.list b.threads.list b.threads.free es)
    (hfs : ∀ f ∈ fs, f ∈ b.functs.list ∧ (b'.functs.cell f).reentrant = (b.functs.cell f).reentrant ∧
      (b'.functs.cell f).users = uses b'.entries es' ts f)
    (hts : ts.Sublist b.threads.list) (hlists : ∀ t ∈ ts, (es' (functList t)).Sublist (es (functList t)))
    (hentries : ∀ t ∈ ts, ∀ e ∈ es' (functList t), b'.entries e = b.entries e) :
    ∀ f ∈ fs, (b'.functs.cell f).reentrant = 0 → (b'.functs.cell f).users ≤ 1 := by
  intro f hf hre
  obtain ⟨hmem, hsame, husers⟩ := hfs f hf
  have hsingle := h.single f hmem (hsame ▸ hre)
  have hle : uses b'.entries es' ts f ≤ uses b.entries es ts f := uses_le hlists hentries
  have hsub : uses b.entries es ts f ≤ uses b.entries es b.threads.list f := by
    unfold uses
    exact (hts.flatMap _).countP_le
  have hcount := hes.users f hmem
  omega

/-- What is left of a sound block when entries have left the threads. -/
theorem Sound.unhooked (h : b.Sound) {b' : HalBlock} {gone : List Int} {es es' : Int → List Int}
    (hok : b'.EntriesIn b.functs.list b.threads.list b.threads.free es')
    (hes : b.EntriesIn b.functs.list b.threads.list b.threads.free es)
    (hout : Unhooked b.threads.list gone b es b' es') : b'.Sound := by
  have hsingle := h.single_of_fewer es' hes
    (fun f (hf : f ∈ b.functs.list) => ⟨hf, by rw [hout.cell f], hok.users f hf⟩) (List.Sublist.refl _)
    (fun t ht => by rw [hout.lists t ht]; exact List.filter_sublist)
    (fun t ht e he => hout.entries e (by rw [hout.lists t ht] at he; simpa using (List.mem_filter.1 he).2))
  rw [hout.frame] at hok hsingle ⊢
  exact { h with entries := ⟨es', hok⟩, single := hsingle }

theorem halDelFunctFromThread_returns (h : b.Sound) (functName threadName : Option CString) :
    Returns (b.halDelFunctFromThread functName threadName) := by
  rw [halDelFunctFromThread_eq h.mutex]
  cases hplace : b.delPlace functName threadName with
  | error e => exact h.returns e
  | ok r =>
    obtain ⟨funct, thread⟩ := r
    obtain ⟨-, ht⟩ := delPlace_ok hplace
    obtain ⟨es, hes⟩ := h.entries
    have hts := List.mem_append_left b.threads.free ht
    have hsplit : es (functList thread) = [] ++ es (functList thread) := rfl
    dsimp only
    rw [next_root hes hts, findEntry_spec hes hts hsplit (hes.length_lt (mem_ringRoots hts))]
    cases hfind : (es (functList thread)).find? fun e => (b.entries e).functPtr = funct with
    | none => exact h.returns _
    | some e =>
      obtain ⟨as, bs, hsplit⟩ := List.append_of_mem (List.mem_of_find?_eq_some hfind)
      obtain ⟨es', hok, hout, -⟩ := unhook_spec hes ht hsplit
      exact ⟨_, _, rfl, h.unhooked hok hes hout⟩

/-! ### Components that leave -/

/-- Every parameter of a list is freed. -/
theorem freeParams_spec (owned : List Int) (hnames : ∀ p, (b.params.cell p).oldname = 0) :
    ∃ cell, freeEach freeParamStruct owned b = .ok { b with
        params := ⟨b.params.list, owned.reverse ++ b.params.free, cell⟩ } ∧
      (∀ p, (cell p).oldname = 0) ∧ ∀ p ∉ owned, cell p = b.params.cell p := by
  induction owned generalizing b with
  | nil => exact ⟨b.params.cell, rfl, hnames, fun _ _ => rfl⟩
  | cons p owned ih =>
    obtain ⟨b₁, hb₁⟩ : ∃ b₁ : HalBlock, b₁ = { b with
      params := b.params.release p fun p => { p with dataPtr := 0, owner := 0, type := .uninitialized, name := [] } } :=
      ⟨_, rfl⟩
    have hcell : ∀ q ≠ p, b₁.params.cell q = b.params.cell q := by
      intro q hq
      rw [hb₁]
      exact Function.update_of_ne hq _ _
    have hnames₁ : ∀ q, (b₁.params.cell q).oldname = 0 := by
      rw [hb₁]
      exact oldname_of_cell hnames rfl rfl
    obtain ⟨cell, hrun, hold, hkept⟩ := ih hnames₁
    refine ⟨cell, ?_, hold, ?_⟩
    · unfold freeEach freeParamStruct
      rw [if_neg (by simp [hnames]), ← hb₁]
      show freeEach freeParamStruct owned b₁ = _
      rw [hrun, hb₁]
      simp [HalPool.release, HalPool.set]
    · intro q hq
      rw [List.mem_cons, not_or] at hq
      rw [hkept q hq.2, hcell q hq.1]

/-- The component `comp` has been emptied: its functions, its parameters and the entries of its functions are gone, and
nothing else has changed. -/
structure Emptied (comp : Int) (b : HalBlock) (es : Int → List Int) (b' : HalBlock) (es' : Int → List Int) : Prop where
  frame : b' = { b with
    comps := b'.comps, params := b'.params, functs := b'.functs
    entries := b'.entries, links := b'.links, ptrs := b'.ptrs }
  comps : b'.comps.list = b.comps.list ∧ b'.comps.free = comp :: b.comps.free
  compCell : ∀ c ≠ comp, b'.comps.cell c = b.comps.cell c
  params : b'.params.list = (b.params.list.filter fun p => (b.params.cell p).owner ≠ comp) ∧
    b'.params.free = (b.params.list.filter fun p => (b.params.cell p).owner = comp).reverse ++ b.params.free
  paramCell : ∀ p ∈ b'.params.list, b'.params.cell p = b.params.cell p
  paramNames : ∀ p, (b'.params.cell p).oldname = 0
  functs : b'.functs.list = (b.functs.list.filter fun f => (b.functs.cell f).owner ≠ comp) ∧
    b'.functs.free = (b.functs.list.filter fun f => (b.functs.cell f).owner = comp).reverse ++ b.functs.free
  functCell : ∀ f ∈ b'.functs.list, b'.functs.cell f = b.functs.cell f
  lists : ∀ t ∈ b.threads.list,
    es' (functList t) = (es (functList t)).filter fun e => (b.functs.cell (b.entries e).functPtr).owner ≠ comp
  entry : ∀ t ∈ b.threads.list, ∀ e ∈ es' (functList t), b'.entries e = b.entries e

/-- `free_comp_struct` after its functions have gone. -/
theorem freeCompStruct_eq {comp : Int} {b₂ : HalBlock}
    (hfuncts : freeEach freeFunctStruct (b.functs.list.filter fun p => (b.functs.cell p).owner = comp)
      { b with functs := { b.functs with list := b.functs.list.filter fun p => (b.functs.cell p).owner ≠ comp } } =
        .ok b₂)
    (hparams : b₂.params = b.params) : freeCompStruct comp b =
      (freeEach freeParamStruct (b.params.list.filter fun p => (b.params.cell p).owner = comp)
        { b₂ with
          params := { b.params with list := b.params.list.filter fun p => (b.params.cell p).owner ≠ comp } }).bind
      fun b => .ok { b with comps := b.comps.release comp fun p => { p with compId := 0, type := .user, name := [] } } := by
  unfold freeCompStruct
  dsimp only
  rw [hfuncts]
  dsimp only [Except.bind]
  rw [hparams]

/-- `free_comp_struct` of a component that has been taken from the list. -/
theorem freeCompStruct_spec {spare : List Int} {es : Int → List Int}
    (hes : b.EntriesIn b.functs.list b.threads.list spare es) (hnodup : b.functs.list.Nodup)
    (hnames : ∀ p, (b.params.cell p).oldname = 0) (comp : Int) :
    ∃ b' es', freeCompStruct comp b = .ok b' ∧ b'.EntriesIn b'.functs.list b.threads.list spare es' ∧
      Emptied comp b es b' es' := by
  obtain ⟨owned, howned⟩ : ∃ owned, owned = b.functs.list.filter fun p => (b.functs.cell p).owner = comp := ⟨_, rfl⟩
  obtain ⟨kept, hkept⟩ : ∃ kept, kept = b.functs.list.filter fun p => (b.functs.cell p).owner ≠ comp := ⟨_, rfl⟩
  obtain ⟨params, hparams⟩ : ∃ params, params = b.params.list.filter fun p => (b.params.cell p).owner ≠ comp := ⟨_, rfl⟩
  have hdead : ∀ f ∈ b.functs.list, (f ∉ owned ↔ (b.functs.cell f).owner ≠ comp) := by
    intro f hf
    rw [howned, List.mem_filter]
    simp [hf]
  have hfs : b.functs.list.filter (· ∉ owned) = kept := by
    rw [hkept]
    exact List.filter_congr fun f hf => by simp only [hdead f hf]
  -- the functions, with the entries that refer to them
  obtain ⟨b₁, hb₁⟩ : ∃ b₁ : HalBlock, b₁ = { b with functs := { b.functs with list := kept } } := ⟨_, rfl⟩
  have hok₁ : b₁.EntriesIn b.functs.list b₁.threads.list spare es := by
    rw [hb₁]
    exact hes
  obtain ⟨b₂, es', hrun₂, hok₂, hout⟩ := freeFuncts_spec hok₁
    (fun f hf => (List.mem_filter.1 (howned ▸ hf)).1) (howned ▸ hnodup.sublist List.filter_sublist)
  rw [hfs] at hok₂
  have hframe := hout.frame
  have hcell : ∀ p ∉ owned, b₂.functs.cell p = { b.functs.cell p with users := (b₂.functs.cell p).users } := by
    have := hout.cell
    rwa [hb₁] at this
  have hentry : ∀ t ∈ b.threads.list, ∀ e ∈ es (functList t), (b.entries e).functPtr ∉ owned →
      b₂.entries e = b.entries e := by
    have := hout.entries
    rwa [hb₁] at this
  have hlists : ∀ t ∈ b.threads.list,
      es' (functList t) = (es (functList t)).filter fun e => (b.entries e).functPtr ∉ owned := by
    have := hout.lists
    rwa [hb₁] at this
  rw [hb₁] at hframe hrun₂ hok₂
  -- the parameters
  obtain ⟨b₃, hb₃⟩ : ∃ b₃ : HalBlock, b₃ = { b₂ with params := { b₂.params with list := params } } := ⟨_, rfl⟩
  have hparams₂ : b₂.params = b.params := by rw [hframe]
  have hnames₃ : ∀ p, (b₃.params.cell p).oldname = 0 := by
    rw [hb₃, hparams₂]
    exact hnames
  obtain ⟨cell, hrun₃, hnames', hparamKept⟩ :=
    freeParams_spec (b.params.list.filter fun p => (b.params.cell p).owner = comp) hnames₃
  obtain ⟨b', hb'⟩ : ∃ b' : HalBlock, b' = { b₂ with
      params := ⟨params, (b.params.list.filter fun p => (b.params.cell p).owner = comp).reverse ++ b.params.free, cell⟩
      comps := b₂.comps.release comp fun p => { p with compId := 0, type := .user, name := [] } } := ⟨_, rfl⟩
  have hrun : freeCompStruct comp b = .ok b' := by
    rw [howned, hkept] at hrun₂
    have hstart : { b₂ with params := { b.params with
        list := b.params.list.filter fun p => (b.params.cell p).owner ≠ comp } } = b₃ := by
      rw [hb₃, hparams, hparams₂]
    rw [freeCompStruct_eq hrun₂ hparams₂, hstart, hrun₃, hb', hb₃, hparams₂]
    rfl
  have hfuncts : b'.functs = b₂.functs := by rw [hb']
  have hfunctList : b₂.functs.list = kept ∧ b₂.functs.free = owned.reverse ++ b.functs.free := by
    rw [hframe]
    exact ⟨rfl, rfl⟩
  have halive : ∀ f ∈ kept, f ∈ b.functs.list ∧ f ∉ owned := by
    intro f hf
    rw [hkept, List.mem_filter] at hf
    exact ⟨hf.1, (hdead f hf.1).2 (by simpa using hf.2)⟩
  have hentry' : ∀ t ∈ b.threads.list, ∀ e ∈ es' (functList t), b₂.entries e = b.entries e := by
    intro t ht e he
    rw [hlists t ht, List.mem_filter] at he
    exact hentry t ht e he.1 (by simpa using he.2)
  refine ⟨b', es', hrun, ?_, ?_, ?_, ?_, ?_, ?_, ?_, ?_, ?_, ?_, ?_⟩
  · rw [hfuncts, hfunctList.1, hb']
    exact hok₂
  · rw [hb', hframe]
  · rw [hb', hframe]
    exact ⟨rfl, rfl⟩
  · intro c hc
    rw [hb', hframe]
    exact Function.update_of_ne hc _ _
  · rw [hb', hparams]
    exact ⟨rfl, rfl⟩
  · intro p hp
    rw [hb'] at hp ⊢
    have hp' : p ∈ params := hp
    rw [hparams, List.mem_filter] at hp'
    show cell p = _
    rw [hparamKept p fun hmem =>
      by simpa using absurd (by simpa using (List.mem_filter.1 hmem).2) (by simpa using hp'.2),
      hb₃, hparams₂]
  · rw [hb']
    exact hnames'
  · rw [hfuncts, hfunctList.1, hfunctList.2, hkept, howned]
    exact ⟨rfl, rfl⟩
  · intro f hf
    rw [hfuncts] at hf ⊢
    rw [hfunctList.1] at hf
    have husers : (b₂.functs.cell f).users = (b.functs.cell f).users := by
      have hafter : (b₂.functs.cell f).users = uses b₂.entries es' b.threads.list f := hok₂.users f hf
      rw [hafter, hes.users f (halive f hf).1, uses_filter (halive f hf).2 hlists hentry']
    rw [hcell f (halive f hf).2, husers]
  · intro t ht
    rw [hlists t ht]
    refine List.filter_congr fun e he => ?_
    simp only [hdead _ (hes.refers t ht e he)]
  · intro t ht e he
    rw [hb']
    exact hentry' t ht e he

/-- The element that is found is the one that is taken out. -/
theorem eraseP_found {l : List Int} {p : Int → Bool} {c : Int} (h : l.find? p = some c) :
    ∃ l₁ l₂, l = l₁ ++ c :: l₂ ∧ l.eraseP p = l₁ ++ l₂ := by
  obtain ⟨hmatch, l₁, l₂, hsplit, hbefore⟩ := List.find?_eq_some_iff_append.1 h
  refine ⟨l₁, l₂, hsplit, ?_⟩
  rw [hsplit, List.eraseP_append_right _ (by simpa using hbefore), List.eraseP_cons_of_pos hmatch]

theorem halExit_none (hm : b.mutex = false) {compId : Int} (hfind : b.halprFindCompById compId = none) :
    b.halExit compId = .ok (-einval, b) := by
  have hsame : ({ b with mutex := true } : HalBlock).halprFindCompById compId = none := hfind
  unfold halExit
  rw [rtapiMutexGet_free hm, hsame]
  exact congrArg (fun b => Except.ok (-einval, b)) (give_eq hm)

/-- The block without a component on its list. -/
def withoutComp (list : List Int) (b : HalBlock) : HalBlock := { b with comps := { b.comps with list := list } }

theorem Sound.emptied (h : b.Sound) {comp : Int} {l₁ l₂ : List Int} {b' : HalBlock} {es es' : Int → List Int}
    (hcomps : b.comps.list = l₁ ++ comp :: l₂) (hes : b.EntriesIn b.functs.list b.threads.list b.threads.free es)
    (hok : b'.EntriesIn b'.functs.list b.threads.list b.threads.free es')
    (hout : Emptied comp (b.withoutComp (l₁ ++ l₂)) es b' es') : b'.Sound := by
  have hsingle := h.single_of_fewer es' hes
    (fun f (hf : f ∈ b'.functs.list) =>
    ⟨(List.mem_filter.1 (hout.functs.1 ▸ hf)).1, by rw [hout.functCell f hf]; rfl, hok.users f hf⟩)
    (List.Sublist.refl _) (fun t ht => by rw [hout.lists t ht]; exact List.filter_sublist) hout.entry
  have hsplit : ∀ (l free : List Int) (owner : Int → Int),
      ((l.filter fun p => owner p ≠ comp) ++ ((l.filter fun p => owner p = comp).reverse ++ free)).Perm
      (l ++ free) := by
    intro l free owner
    rw [← List.append_assoc]
    refine List.Perm.append_right free ?_
    refine (List.Perm.append_left _ (List.reverse_perm _)).trans (List.perm_append_comm.trans ?_)
    have := List.filter_append_perm (fun p => decide (owner p = comp)) l
    simpa using this
  have hcompPool : PoolOk 104 b.shmemTop b'.comps.list b'.comps.free := by
    refine h.comps.perm ?_
    rw [hout.comps.1, hout.comps.2, hcomps]
    show ((l₁ ++ l₂) ++ comp :: b.comps.free).Perm ((l₁ ++ comp :: l₂) ++ b.comps.free)
    exact List.perm_middle.trans (List.perm_middle.append_right b.comps.free).symm
  have hparamPool : PoolOk 88 b.shmemTop b'.params.list b'.params.free := by
    refine h.params.perm ?_
    rw [hout.params.1, hout.params.2]
    exact hsplit _ _ _
  have hfunctPool : PoolOk 112 b.shmemTop b'.functs.list b'.functs.free := by
    refine h.functs.perm ?_
    rw [hout.functs.1, hout.functs.2]
    exact hsplit _ _ _
  have hnames := hout.paramNames
  rw [hout.frame] at hok hsingle ⊢
  exact { h with
    comps := hcompPool, params := hparamPool, paramNames := hnames, functs := hfunctPool
    entries := ⟨es', hok⟩, single := hsingle }

/-- `hal_exit` of a component that is on the list. -/
theorem halExit_frees (h : b.Sound) {es : Int → List Int}
    (hes : b.EntriesIn b.functs.list b.threads.list b.threads.free es) {compId comp : Int}
    (hfind : b.halprFindCompById compId = some comp) :
    ∃ b' es' l₁ l₂, b.halExit compId = .ok (0, b') ∧ b.comps.list = l₁ ++ comp :: l₂ ∧
      b'.EntriesIn b'.functs.list b.threads.list b.threads.free es' ∧
      Emptied comp (b.withoutComp (l₁ ++ l₂)) es b' es' := by
  obtain ⟨l₁, l₂, hcomps, herase⟩ := eraseP_found hfind
  have hsame : ({ b with mutex := true } : HalBlock).halprFindCompById compId = some comp := hfind
  obtain ⟨b₁, hb₁⟩ : ∃ b₁ : HalBlock, b₁ = { b with mutex := true, comps := { b.comps with list := l₁ ++ l₂ } } :=
    ⟨_, rfl⟩
  have hok₁ : b₁.EntriesIn b₁.functs.list b₁.threads.list b.threads.free es := by
    rw [hb₁]
    exact hes
  obtain ⟨b₂, es', hrun, hok, hout⟩ := freeCompStruct_spec hok₁
    (by rw [hb₁]; exact (List.nodup_append.1 h.functs.nodup).1) (by rw [hb₁]; exact h.paramNames) comp
  refine ⟨b₂.rtapiMutexGive, es', l₁, l₂, ?_, hcomps, ?_, ?_⟩
  · unfold halExit
    rw [rtapiMutexGet_free h.mutex, hsame]
    dsimp only
    rw [herase, ← hb₁, hrun]
    rfl
  · rw [hb₁] at hok
    exact hok
  · rw [hb₁] at hout
    refine { hout with frame := ?_ }
    have hframe := hout.frame
    rw [hframe]
    unfold rtapiMutexGive withoutComp
    rw [h.mutex]

theorem halExit_returns (h : b.Sound) (compId : Int) : Returns (b.halExit compId) := by
  cases hfind : b.halprFindCompById compId with
  | none =>
    rw [halExit_none h.mutex hfind]
    exact h.returns _
  | some comp =>
    obtain ⟨es, hes⟩ := h.entries
    obtain ⟨b', es', l₁, l₂, hrun, hcomps, hok, hout⟩ := halExit_frees h hes hfind
    exact ⟨_, _, hrun, h.emptied hcomps hes hok hout⟩

/-! ### Threads that are deleted -/

/-- Threads have been freed: that changes them, the function entries and the counts of the functions. -/
structure ThreadsFreed (b b' : HalBlock) : Prop where
  frame : b' = { b with
    threadsRunning := b'.threadsRunning, threads := b'.threads
    functs := ⟨b.functs.list, b.functs.free, b'.functs.cell⟩, entries := b'.entries, links := b'.links }
  cell : ∀ p, b'.functs.cell p = { b.functs.cell p with users := (b'.functs.cell p).users }

theorem ThreadsFreed.refl (b : HalBlock) : ThreadsFreed b b := ⟨rfl, fun _ => rfl⟩

theorem ThreadsFreed.trans {b' b'' : HalBlock} (h : ThreadsFreed b b') (h' : ThreadsFreed b' b'') :
    ThreadsFreed b b'' := by
  constructor
  · rw [h'.frame, h.frame]
  · intro p
    rw [h'.cell p, h.cell p]

theorem ThreadsFreed.give {b' : HalBlock} (hm : b.mutex = false) (h : ThreadsFreed { b with mutex := true } b') :
    ThreadsFreed b b'.rtapiMutexGive := by
  constructor
  · rw [h.frame]
    unfold rtapiMutexGive
    rw [hm]
  · exact h.cell

/-- A thread is taken from the list and freed. -/
theorem freeThread_spec (h : b.rtapiMutexGive.Sound) {ts₁ ts₂ : List Int} {t : Int}
    (hlist : b.threads.list = ts₁ ++ t :: ts₂) :
    ∃ b', freeThreadStruct t { b with threads := { b.threads with list := ts₁ ++ ts₂ } } = .ok b' ∧
      b'.rtapiMutexGive.Sound ∧
      (∃ x, b'.threads = ⟨ts₁ ++ ts₂, t :: b.threads.free, Function.update b.threads.cell t x⟩) ∧
      ThreadsFreed b b' := by
  obtain ⟨es, hes⟩ := h.entries
  have hes' : EntriesOk b.shmemTop b.functs.cell b.functs.list (ts₁ ++ t :: ts₂) b.threads.free b.entries b.links es :=
    hlist ▸ hes
  obtain ⟨b', es', x, hrun, hok, hlists, hcell, hframe⟩ :=
    freeThreadStruct_spec (b := { b with threads := { b.threads with list := ts₁ ++ ts₂ } }) hes'
  have hsub : (ts₁ ++ ts₂).Sublist b.threads.list := by
    rw [hlist]
    exact List.Sublist.append_left (List.sublist_cons_self t ts₂) ts₁
  have hsingle := h.single_of_fewer es' hes
    (fun f (hf : f ∈ b.functs.list) => ⟨hf, by rw [hcell f]; rfl, hok.users f hf⟩) hsub
    (fun s hs => by rw [(hlists s hs).1]) (fun s hs e he => (hlists s hs).2 e ((hlists s hs).1 ▸ he))
  have hpool : PoolOk 120 b.shmemTop (ts₁ ++ ts₂) (t :: b.threads.free) := by
    refine h.threads.perm ?_
    show ((ts₁ ++ ts₂) ++ t :: b.threads.free).Perm (b.threads.list ++ b.threads.free)
    rw [hlist]
    exact List.perm_middle.trans (List.perm_middle.append_right b.threads.free).symm
  refine ⟨b', hrun, ?_, ⟨x, by rw [hframe]⟩, ⟨by rw [hframe], hcell⟩⟩
  rw [hframe] at hok hsingle ⊢
  exact { h with mutex := rfl, threads := hpool, entries := ⟨es', hok⟩, single := hsingle }

/-- `hal_thread_delete` has a component to remove: the configuration is not locked and the thread has one. -/
def deletesComponent (name : CString) (b : HalBlock) : Bool :=
  b.lock &&& halLockConfig == 0 && (b.halprFindThreadByName name).any fun t => (b.threads.cell t).compId != 0

theorem halThreadDelete_deadlock (hm : b.mutex = false) {name : CString} (h : b.deletesComponent name = true) :
    b.halThreadDelete name = .error .deadlock := by
  unfold deletesComponent at h
  rw [Bool.and_eq_true, beq_iff_eq] at h
  obtain ⟨hlock, hthread⟩ := h
  have hfind : ({ b with mutex := true } : HalBlock).halprFindThreadByName name = b.halprFindThreadByName name := rfl
  unfold halThreadDelete
  rw [if_neg (by simp [hlock]), rtapiMutexGet_free hm, hfind]
  cases ht : b.halprFindThreadByName name with
  | none =>
    rw [ht] at hthread
    cases hthread
  | some t =>
    rw [ht, Option.any_some, bne_iff_ne] at hthread
    dsimp only
    rw [if_pos hthread]
    rfl

/-- `hal_thread_delete` where it has no component to remove. -/
theorem halThreadDelete_free (hm : b.mutex = false) {name : CString} (hno : b.deletesComponent name = false) :
    b.halThreadDelete name =
      if b.lock &&& halLockConfig ≠ 0 then .ok (-eperm, b)
      else match b.halprFindThreadByName name with
        | none => .ok (-einval, b)
        | some thread =>
          (freeThreadStruct thread { b with
            mutex := true
            threads := { b.threads with
              list := b.threads.list.eraseP fun p => (b.threads.cell p).name == name } }).bind fun b =>
            .ok (0, b.rtapiMutexGive) := by
  have hfind : ({ b with mutex := true } : HalBlock).halprFindThreadByName name = b.halprFindThreadByName name := rfl
  unfold halThreadDelete
  split
  · rfl
  rename_i hlock
  rw [rtapiMutexGet_free hm, hfind]
  cases ht : b.halprFindThreadByName name with
  | none => exact congrArg (fun b => Except.ok (-einval, b)) (give_eq hm)
  | some t =>
    have hcomp : ¬ (b.threads.cell t).compId ≠ 0 := by
      intro hne
      unfold deletesComponent at hno
      rw [ht, Option.any_some, beq_iff_eq.2 (not_not.1 hlock), Bool.true_and, bne_eq_false_iff_eq] at hno
      exact hne hno
    dsimp only
    rw [if_neg hcomp]
    rfl

/-- `hal_thread_delete` that has no component to remove: it fails, or the thread is freed. -/
theorem halThreadDelete_eq (h : b.Sound) {name : CString} (hno : b.deletesComponent name = false) :
    (∃ r, b.halThreadDelete name = .ok (r, b)) ∨
      ∃ b', b.halThreadDelete name = .ok (0, b') ∧ b'.Sound ∧ ThreadsFreed b b' := by
  rw [halThreadDelete_free h.mutex hno]
  split
  · exact .inl ⟨_, rfl⟩
  cases ht : b.halprFindThreadByName name with
  | none => exact .inl ⟨_, rfl⟩
  | some t =>
    obtain ⟨ts₁, ts₂, hsplit, herase⟩ := eraseP_found ht
    obtain ⟨b', hrun, hsound, -, hfreed⟩ := freeThread_spec (b := { b with mutex := true }) (h.give true) hsplit
    right
    dsimp only
    rw [herase, hrun]
    exact ⟨_, rfl, hsound, hfreed.give h.mutex⟩

theorem freeThreads_spec (h : b.rtapiMutexGive.Sound) {ts : List Int} (hlist : b.threads.list = ts) :
    ∃ b', freeThreads ts b = .ok b' ∧ b'.rtapiMutexGive.Sound ∧ ThreadsFreed b b' := by
  induction ts generalizing b with
  | nil => exact ⟨b, rfl, h, ThreadsFreed.refl b⟩
  | cons t ts ih =>
    obtain ⟨b₁, hrun₁, hsound, ⟨x, hthreads⟩, hfreed⟩ :=
      freeThread_spec h (show b.threads.list = [] ++ t :: ts from hlist)
    obtain ⟨b', hrun, hsound', hfreed'⟩ := ih hsound (congrArg HalPool.list hthreads)
    refine ⟨b', ?_, hsound', hfreed.trans hfreed'⟩
    unfold freeThreads
    rw [List.nil_append] at hrun₁
    rw [hrun₁]
    exact hrun

theorem halAppExit_eq (h : b.Sound) :
    ∃ b', b.halAppExit = .ok (0, b') ∧ b'.Sound ∧ ThreadsFreed b b' := by
  obtain ⟨b', hrun, hsound, hfreed⟩ := freeThreads_spec (b := { b with mutex := true }) (h.give true) rfl
  unfold halAppExit
  rw [rtapiMutexGet_free h.mutex]
  dsimp only
  rw [hrun]
  exact ⟨_, rfl, hsound, hfreed.give h.mutex⟩

/-! ### Runs -/

theorem halMalloc_returns (h : b.Sound) {size : Int} (hsize : 0 ≤ size) : Returns (b.halMalloc size) := by
  have hup : b.shmemBot ≤ alignUp size b.shmemBot := by
    unfold alignUp
    split
    · omega
    split
    · omega
    split
    · omega
    split <;> omega
  unfold halMalloc
  rw [rtapiMutexGet_free h.mutex]
  refine ⟨_, _, rfl, ?_⟩
  unfold shmallocUp
  dsimp only
  split
  · exact h.give true
  · have hmem := h.memory
    have hnew : 256 ≤ alignUp size b.shmemBot + size ∧ alignUp size b.shmemBot + size ≤ b.shmemTop := by omega
    exact { h with mutex := rfl, memory := ⟨hnew.1, hnew.2, hmem.2.2⟩ }

theorem halCompName_returns (h : b.Sound) (compId : Int) :
    Returns ((b.halCompName compId).map fun (_, b) => (0, b)) := by
  unfold halCompName
  rw [rtapiMutexGet_free h.mutex]
  exact ⟨_, _, rfl, h.give true⟩

theorem halSetThreadsRunning_sound (h : b.Sound) (running : Int) : (b.halSetThreadsRunning running).2.Sound := by
  unfold halSetThreadsRunning
  split
  · exact h
  · exact { h with }

end HalBlock

open HalBlock

/-- The call deletes a thread that has a component. -/
def BlockCall.deadlocks : BlockCall → HalBlock → Bool
  | .threadDelete name, b => b.deletesComponent name
  | _, _ => false

/-- The call adds a function to a thread, and there is neither a free entry nor memory for one. -/
def BlockCall.starves : BlockCall → HalBlock → Bool
  | .addFunct functName threadName position, b => (b.addPlace functName threadName position).isOk && b.noEntry
  | _, _ => false

variable {b b' : HalBlock} {c : BlockCall} {r : Int}

theorem BlockCall.run_deadlocks (hm : b.mutex = false) (h : c.deadlocks b = true) : c.run b = .error .deadlock := by
  cases c
  case threadDelete name => exact halThreadDelete_deadlock hm h
  all_goals cases h

theorem BlockCall.run_starves (hm : b.mutex = false) (h : c.starves b = true) : c.run b = .error .null := by
  cases c
  case addFunct functName threadName position =>
    have hplace : ((b.addPlace functName threadName position).isOk && b.noEntry) = true := h
    rw [Bool.and_eq_true] at hplace
    obtain ⟨hok, hroom⟩ := hplace
    show b.halAddFunctToThread functName threadName position = _
    rw [halAddFunctToThread_eq hm]
    cases hplace : b.addPlace functName threadName position with
    | error e =>
      rw [hplace] at hok
      cases hok
    | ok place =>
      dsimp only
      rw [allocFunctEntryStruct_null hroom]
      rfl
  all_goals cases h

/-- Every other call of a run comes back to a sound block with a sound block. -/
theorem BlockCall.run_returns (h : b.Sound) (hc : c.InRun) (hdead : c.deadlocks b = false)
    (hstarve : c.starves b = false) :
    Returns (c.run b) := by
  cases c with
  | init moduleId name => exact halInit_returns h moduleId name
  | exit compId => exact halExit_returns h compId
  | setUnready compId => exact halSetUnready_returns h compId
  | ready compId => exact halReady_returns h compId
  | unready compId => exact halUnready_returns h compId
  | pinNew name type dataPtrAddr compId => exact halPinNew_returns h name type dataPtrAddr compId
  | pinNewf type dataPtrAddr compId name => exact halPinNewf_returns h type dataPtrAddr compId name
  | paramNew name type dir dataAddr compId => exact halParamNew_returns h name type dir dataAddr compId
  | paramFloatNewf dir dataAddr compId size name => exact halParamFloatNewf_returns h dir dataAddr compId size name
  | exportFunct name funct arg usesFp reentrant compId =>
    exact halExportFunct_returns h name funct arg usesFp reentrant compId
  | exportFunctf size name funct arg usesFp reentrant compId =>
    exact halExportFunctf_returns h size name funct arg usesFp reentrant compId
  | createThread rt name period usesFp priority => exact halCreateThread_returns h rt name period usesFp priority
  | threadDelete name =>
    rcases halThreadDelete_eq h hdead with ⟨r, hrun⟩ | ⟨b', hrun, hsound, -⟩
    · exact ⟨r, b, hrun, h⟩
    · exact ⟨0, _, hrun, hsound⟩
  | addFunct functName threadName position =>
    cases hplace : b.addPlace functName threadName position with
    | error e =>
      show Returns (b.halAddFunctToThread functName threadName position)
      rw [halAddFunctToThread_eq h.mutex, hplace]
      exact h.returns e
    | ok place =>
      have hroom : ((b.addPlace functName threadName position).isOk && b.noEntry) = false := hstarve
      rw [hplace] at hroom
      exact h.linkEntry hplace hroom
  | delFunct functName threadName => exact halDelFunctFromThread_returns h functName threadName
  | appMain moduleId memId => exact absurd hc id
  | appExit =>
    obtain ⟨b', hrun, hsound, -⟩ := halAppExit_eq h
    exact ⟨0, _, hrun, hsound⟩
  | setConstructor compId => exact halSetConstructor_returns h compId
  | compName compId => exact halCompName_returns h compId
  | setLock lockType => exact ⟨_, _, rfl, { h with }⟩
  | getLock => exact h.returns 0
  | startThreads => exact ⟨_, _, rfl, halSetThreadsRunning_sound h 1⟩
  | stopThreads => exact ⟨_, _, rfl, halSetThreadsRunning_sound h 0⟩
  | malloc size => exact halMalloc_returns h hc

/-- A call of a run comes back with a sound block, or ends in one of the two known ways. -/
theorem BlockCall.run_cases (h : b.Sound) (hc : c.InRun) :
    Returns (c.run b) ∨ c.run b = .error .deadlock ∨ c.run b = .error .null := by
  cases hdead : c.deadlocks b with
  | true => exact .inr (.inl (BlockCall.run_deadlocks h.mutex hdead))
  | false =>
    cases hstarve : c.starves b with
    | true => exact .inr (.inr (BlockCall.run_starves h.mutex hstarve))
    | false => exact .inl (BlockCall.run_returns h hc hdead hstarve)

/-- What a call of a run leaves of a sound block. -/
theorem BlockCall.run_sound (h : b.Sound) (hc : c.InRun) (hrun : c.run b = .ok (r, b')) : b'.Sound := by
  rcases BlockCall.run_cases h hc with ⟨r', b'', hreturns, hsound⟩ | hdead | hnull
  · rw [hreturns] at hrun
    cases hrun
    exact hsound
  · rw [hdead] at hrun
    cases hrun
  · rw [hnull] at hrun
    cases hrun

/-- The registry as `init_hal_data` leaves it in memory that was zero: nothing is on a list. -/
structure HalBlock.Empty (b : HalBlock) : Prop where
  mutex : b.mutex = false
  lock : b.lock = 0
  memory : b.shmemBot = 256 ∧ b.shmemTop = halSize
  comps : b.comps.list = [] ∧ b.comps.free = []
  pins : b.pins.list = [] ∧ b.pins.free = []
  params : b.params.list = [] ∧ b.params.free = []
  functs : b.functs.list = [] ∧ b.functs.free = []
  threads : b.threads.list = [] ∧ b.threads.free = []
  pinNames : ∀ p, (b.pins.cell p).oldname = 0
  paramNames : ∀ p, (b.params.cell p).oldname = 0
  entries : b.links.next functEntryFree = functEntryFree ∧ b.links.prev functEntryFree = functEntryFree

/-- What `init_hal_data` writes: the lists of pins, and whatever lies in the memory, stay as they are. -/
def HalBlock.initialised (b : HalBlock) : HalBlock :=
  { b with
    comps := { b.comps with list := [], free := [] }
    params := { b.params with list := [], free := [] }
    functs := { b.functs with list := [], free := [] }
    threads := { b.threads with list := [], free := [] }
    threadsRunning := 0, links := b.links.init functEntryFree, shmemBot := 256, shmemTop := halSize, lock := 0 }

theorem HalBlock.initHalData_eq (hm : b.mutex = false) : b.initHalData = .ok (0, b.initialised) := by
  unfold initHalData
  rw [rtapiMutexGet_free hm]
  unfold rtapiMutexGive initialised
  rw [hm]

/-- A block of zeros. -/
def zeroBlock : HalBlock where
  mutex := false
  lock := 0
  threadsRunning := 0
  shmemBot := 0
  shmemTop := 0
  comps := ⟨[], [], fun _ => ⟨0, .user, 0, []⟩⟩
  pins := ⟨[], [], fun _ => ⟨0, 0, 0, .uninitialized, []⟩⟩
  params := ⟨[], [], fun _ => ⟨0, 0, 0, .uninitialized, .other, []⟩⟩
  functs := ⟨[], [], fun _ => ⟨0, 0, 0, 0, 0, 0, []⟩⟩
  threads := ⟨[], [], fun _ => ⟨0, 0, 0, 0, [], 0⟩⟩
  entries := fun _ => ⟨0, 0, 0⟩
  links := ⟨fun _ => 0, fun _ => 0⟩
  ptrs := fun _ => 0
  period := 0

theorem zeroBlock_empty : zeroBlock.initialised.Empty :=
  ⟨rfl, rfl, ⟨rfl, rfl⟩, ⟨rfl, rfl⟩, ⟨rfl, rfl⟩, ⟨rfl, rfl⟩, ⟨rfl, rfl⟩, ⟨rfl, rfl⟩, fun _ => rfl, fun _ => rfl,
  rfl, rfl⟩

theorem PoolOk.nil (size top : Int) : PoolOk size top [] [] := ⟨List.nodup_nil, fun _ hp => by cases hp⟩

/-- There are no functions and no threads, and no entry is free. -/
theorem HalBlock.EntriesOk.empty {cell : Int → FunctStruct} {entries : Int → FunctEntry} {links : Links Int}
    (h : Ring links functEntryFree []) : EntriesOk halSize cell [] [] [] entries links fun _ => [] := by
  have hroots : ∀ s ∈ ringRoots ([] ++ []), s = functEntryFree := fun s hs => List.mem_singleton.1 hs
  refine ⟨by decide, by simp, by simp, by simp, ⟨?_, ?_⟩, by simp, by simp, by simp, by simp⟩
  · intro s hs
    rw [hroots s hs]
    exact h
  · intro s hs t ht hst
    exact absurd ((hroots s hs).trans (hroots t ht).symm) hst

theorem HalBlock.Empty.sound (h : b.Empty) : b.Sound := by
  have hring : Ring b.links functEntryFree [] := ⟨by simp [h.entries.1], by simp [h.entries.2], List.nodup_singleton _⟩
  refine ⟨h.mutex, ?_, ?_, ?_, ?_, ?_, ?_, h.pinNames, h.paramNames, ⟨fun _ => [], ?_⟩, ?_⟩
  · rw [h.memory.1, h.memory.2]
    decide
  · rw [h.comps.1, h.comps.2]
    exact PoolOk.nil _ _
  · rw [h.pins.1, h.pins.2]
    exact PoolOk.nil _ _
  · rw [h.params.1, h.params.2]
    exact PoolOk.nil _ _
  · rw [h.functs.1, h.functs.2]
    exact PoolOk.nil _ _
  · rw [h.threads.1, h.threads.2]
    exact PoolOk.nil _ _
  · unfold EntriesIn
    rw [h.functs.1, h.threads.1, h.threads.2, h.memory.2]
    exact EntriesOk.empty hring
  · rw [h.functs.1]
    simp

/-- What a call answers, if it comes back. -/
def BlockCall.call (c : BlockCall) (b : HalBlock) : Option (Int × HalBlock) := (c.run b).toOption

theorem BlockCall.call_eq_some : c.call b = some (r, b') ↔ c.run b = .ok (r, b') := by
  unfold BlockCall.call
  cases c.run b with
  | error e => simp [Except.toOption]
  | ok x => simp [Except.toOption]

/-- A call that comes back is a step of a run. -/
def blockStep (b : HalBlock) (c : BlockCall) (b' : HalBlock) : Prop := c.InRun ∧ ∃ r, c.run b = .ok (r, b')

/-- Every block that a run from an empty registry reaches is sound. -/
theorem HalBlock.Empty.reaches (h : b.Empty) (hrun : Reaches blockStep b b') : b'.Sound := by
  refine hrun.invariant (fun b c b' hb hstep => ?_) h.sound
  obtain ⟨hc, r, hcall⟩ := hstep
  exact BlockCall.run_sound hb hc hcall

end SoemMotion
