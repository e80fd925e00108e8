import SoemMotion.HalAtomic

/-!
# The order of the lists

`hal_pin_new`, `hal_param_new` and `hal_export_funct` put a new structure before the first one whose name comes later,
and stop there if they have not met its name.  They find every name that is on the list because the list is in the
order of its names (`HalBlock.Sorted`), and leave it so.
-/

namespace SoemMotion

open Lib HalBlock

/-! ### A list in order -/

namespace HalPool

variable {α : Type} {name : α → CString} {pool pool' : HalPool α} {new : Int} {x : CString}

/-- The names strictly increase along the list. -/
def Sorted (name : α → CString) (pool : HalPool α) : Prop :=
  pool.list.Pairwise fun p q => name (pool.cell p) < name (pool.cell q)

theorem Sorted.of_sublist (h : pool.Sorted name) (hlist : pool'.list.Sublist pool.list)
    (hcell : ∀ p ∈ pool'.list, name (pool'.cell p) = name (pool.cell p)) : pool'.Sorted name := by
  refine (h.sublist hlist).imp_of_mem fun {p q} hp hq hlt => ?_
  rw [hcell p hp, hcell q hq]
  exact hlt

theorem Sorted.of_list (h : pool.Sorted name) (hlist : pool'.list = pool.list)
    (hcell : ∀ p ∈ pool.list, name (pool'.cell p) = name (pool.cell p)) : pool'.Sorted name :=
  h.of_sublist (by rw [hlist]) fun p hp => hcell p (hlist ▸ hp)

/-- Along an ordered list a new structure finds a place that leaves it ordered. -/
theorem insertByName_sorted {l list : List Int} (h : l.Pairwise fun p q => name (pool.cell p) < name (pool.cell q))
    (hins : pool.insertByName name new l = some list) :
    list.Pairwise fun p q => name (pool.cell p) < name (pool.cell q) := by
  induction l generalizing list with
  | nil =>
    cases hins
    exact List.pairwise_singleton _ _
  | cons ptr rest ih =>
    obtain ⟨hhead, hrest⟩ := List.pairwise_cons.1 h
    unfold insertByName at hins
    split at hins
    · rename_i hlt
      cases hins
      refine List.pairwise_cons.2 ⟨fun p hp => ?_, h⟩
      rcases List.mem_cons.1 hp with rfl | hp
      · exact hlt
      · exact List.lt_trans hlt (hhead p hp)
    · rename_i hnot
      split at hins
      · cases hins
      · rename_i hne
        obtain ⟨list, hlist, rfl⟩ := Option.map_eq_some_iff.1 hins
        obtain ⟨l₁, l₂, hsplit, rfl⟩ := insertByName_some hlist
        have hafter : name (pool.cell ptr) < name (pool.cell new) := by
          rcases Std.lt_trichotomy (name (pool.cell ptr)) (name (pool.cell new)) with hlt | heq | hgt
          · exact hlt
          · exact absurd heq hne
          · exact absurd hgt hnot
        refine List.pairwise_cons.2 ⟨fun p hp => ?_, ih hrest hlist⟩
        rcases List.mem_append.1 hp with hp | hp
        · exact hhead p (hsplit ▸ List.mem_append_left _ hp)
        · rcases List.mem_cons.1 hp with rfl | hp
          · exact hafter
          · exact hhead p (hsplit ▸ List.mem_append_right _ hp)

/-- A walk that stops at the first later name meets every name of an ordered list. -/
theorem nameTaken_iff {l : List Int} (h : l.Pairwise fun p q => name (pool.cell p) < name (pool.cell q)) :
    pool.nameTaken name x l = true ↔ ∃ p ∈ l, name (pool.cell p) = x := by
  induction l with
  | nil => simp [nameTaken]
  | cons ptr rest ih =>
    obtain ⟨hhead, hrest⟩ := List.pairwise_cons.1 h
    have hmem : (∃ p ∈ ptr :: rest, name (pool.cell p) = x) ↔ name (pool.cell ptr) = x ∨ ∃ p ∈ rest,
        name (pool.cell p) = x := by
      simp
    rw [hmem]
    unfold nameTaken
    split
    · rename_i hlt
      refine ⟨fun hno => absurd hno Bool.false_ne_true, ?_⟩
      rintro (rfl | ⟨p, hp, rfl⟩)
      · exact absurd hlt (List.lt_irrefl _)
      · exact absurd (List.lt_trans hlt (hhead p hp)) (List.lt_irrefl _)
    split
    · rename_i heq
      exact ⟨fun _ => .inl heq, fun _ => rfl⟩
    · rename_i hne
      rw [ih hrest]
      exact ⟨.inr, fun hex => hex.resolve_left hne⟩

theorem put_placed_sorted {size bot top top' : Int} {empty write : α → α} (h : pool.Sorted name)
    (hnew : new ∉ pool.list)
    (hput : pool.put size empty write name bot top = .placed new pool' top') : pool'.Sorted name := by
  unfold put at hput
  split at hput
  · cases hput
  · rename_i p pool₁ top₁ halloc
    obtain ⟨-, hlist, hcell⟩ := alloc_takes halloc
    split at hput
    · cases hput
    · rename_i list hins
      cases hput
      have hkept : ∀ p ∈ pool.list, (pool₁.set new write).cell p = pool.cell p := by
        intro p hp
        have hne : p ≠ new := by
          rintro rfl
          exact hnew hp
        show Function.update pool₁.cell new _ p = _
        rw [Function.update_of_ne hne, hcell, Function.update_of_ne hne]
      have hold : pool₁.list.Pairwise fun p q =>
          name ((pool₁.set new write).cell p) < name ((pool₁.set new write).cell q) := by
        rw [hlist]
        refine h.imp_of_mem fun {p q} hp hq hlt => ?_
        rw [hkept p hp, hkept q hq]
        exact hlt
      have hsorted := insertByName_sorted hold hins
      exact hsorted

end HalPool

/-! ### Calls keep the order -/

/-- The lists of pins, parameters and functions are in the order of their names. -/
structure HalBlock.Sorted (b : HalBlock) : Prop where
  pins : b.pins.Sorted PinStruct.name
  params : b.params.Sorted ParamStruct.name
  functs : b.functs.Sorted FunctStruct.name

namespace HalBlock

variable {b b' : HalBlock}

/-- A call that leaves the lists of a block in order. -/
def Sorts (run : HalRun (Int × HalBlock)) : Prop := ∀ r b', run = .ok (r, b') → b'.Sorted

theorem Sorts.ok {r : Int} (h : b.Sorted) : Sorts (.ok (r, b)) := by
  intro r' b' heq
  cases heq
  exact h

theorem Sorts.error (e : HalFault) : Sorts (.error e) := fun _ _ h => (nomatch h)

/-- A call that goes on after another one, from a sound block. -/
theorem Sorts.bind {run : HalRun (Int × HalBlock)} {k : Int × HalBlock → HalRun (Int × HalBlock)} (h : Sorts run)
    (hsound : Returns run) (hk : ∀ r (b : HalBlock), b.Sound → b.Sorted → Sorts (k (r, b))) : Sorts (run.bind k) := by
  obtain ⟨r, b, rfl, hb⟩ := hsound
  exact hk r b hb (h r b rfl)

/-- A block with the same pins, parameters and functions. -/
theorem Sorted.same (h : b.Sorted) (hpins : b'.pins = b.pins) (hparams : b'.params = b.params)
    (hfuncts : b'.functs = b.functs) :
    b'.Sorted := ⟨hpins ▸ h.pins, hparams ▸ h.params, hfuncts ▸ h.functs⟩

theorem halPinNew_sorts (h : b.Sound) (hs : b.Sorted) (name : CString) (type : HalType) (addr compId : Int) :
    Sorts (b.halPinNew name type addr compId) := by
  rw [halPinNew_eq h.mutex]
  split
  · exact Sorts.ok hs
  split
  · exact Sorts.ok hs
  · rename_i new pins top hput
    obtain ⟨htaken, hlist⟩ := HalPool.put_taken hput
    have hnew := PoolOk.new_not_mem h.pins htaken.takes (by decide) h.memory.2
    split
    · exact Sorts.error _
    · refine Sorts.ok { hs with pins := hs.pins.of_list hlist fun p hp => ?_ }
      rw [htaken.release_cell _ p]
      rintro rfl
      exact hnew hp
  · rename_i new pins top hput
    obtain ⟨htaken, -⟩ := HalPool.put_placed hput
    have hnew := PoolOk.new_not_mem h.pins htaken.takes (by decide) h.memory.2
    exact Sorts.ok { hs with pins := HalPool.put_placed_sorted hs.pins hnew hput }

theorem halPinNewf_sorts (h : b.Sound) (hs : b.Sorted) (type : HalType) (addr compId : Int) (name : CString) :
    Sorts (b.halPinNewf type addr compId name) := by
  unfold halPinNewf
  split
  · exact Sorts.ok hs
  · exact halPinNew_sorts h hs name type addr compId

theorem halParamNew_sorts (h : b.Sound) (hs : b.Sorted) (name : CString) (type : HalType) (dir : HalParamDir)
    (addr compId : Int) : Sorts (b.halParamNew name type dir addr compId) := by
  rw [halParamNew_eq h.mutex]
  split
  · exact Sorts.ok hs
  split
  · exact Sorts.ok hs
  · rename_i new params top hput
    obtain ⟨htaken, hlist⟩ := HalPool.put_taken hput
    have hnew := PoolOk.new_not_mem h.params htaken.takes (by decide) h.memory.2
    split
    · exact Sorts.error _
    · refine Sorts.ok { hs with params := hs.params.of_list hlist fun p hp => ?_ }
      rw [htaken.release_cell _ p]
      rintro rfl
      exact hnew hp
  · rename_i new params top hput
    obtain ⟨htaken, -⟩ := HalPool.put_placed hput
    have hnew := PoolOk.new_not_mem h.params htaken.takes (by decide) h.memory.2
    exact Sorts.ok { hs with params := HalPool.put_placed_sorted hs.params hnew hput }

theorem halInit_sorts (h : b.Sound) (hs : b.Sorted) (moduleId : Int) (name : Option CString) :
    Sorts (b.halInit moduleId name) := by
  rw [halInit_eq h.mutex]
  split
  · exact Sorts.ok hs
  split
  · exact Sorts.ok hs
  · exact Sorts.ok (hs.same rfl rfl rfl)

theorem halReady_sorts (h : b.Sound) (hs : b.Sorted) (compId : Int) : Sorts (b.halReady compId) := by
  rw [halReady_eq h.mutex]
  split
  · exact Sorts.ok hs
  split
  · exact Sorts.ok hs
  · exact Sorts.ok (hs.same rfl rfl rfl)

theorem finishFunct_sorts (h : b.Sound) (hs : b.Sorted) (new : Int) (name : CString) (compId : Int) :
    Sorts (finishFunct new name compId b) := by
  refine (halPinNewf_sorts h hs _ _ _ _).bind (halPinNewf_returns h _ _ _ _) fun r b h hs => ?_
  dsimp only
  split
  · exact Sorts.ok hs
  · refine (halParamNew_sorts h hs _ _ _ _ _).bind (halParamNew_returns h _ _ _ _ _) fun _ b h hs => ?_
    refine (halParamNew_sorts h hs _ _ _ _ _).bind (halParamNew_returns h _ _ _ _ _) fun _ b _ hs => ?_
    exact Sorts.ok hs

theorem finishThread_sorts (h : b.Sound) (hs : b.Sorted) (rt : ThreadAnswer) (new : Int) (name : CString) :
    Sorts (finishThread rt new name b) := by
  refine (halInit_sorts h hs _ _).bind (halInit_returns h _ _) fun compId b h hs => ?_
  have h' := h.setThread new fun p => { p with compId := compId }
  have hs' : { b with threads := b.threads.set new fun p => { p with compId := compId } }.Sorted := hs.same rfl rfl rfl
  dsimp only
  split
  · exact Sorts.ok hs'
  · refine (halParamNew_sorts h' hs' _ _ _ _ _).bind (halParamNew_returns h' _ _ _ _ _) fun _ b h hs => ?_
    dsimp only
    split
    · exact Sorts.ok hs
    · refine (halPinNewf_sorts h hs _ _ _ _).bind (halPinNewf_returns h _ _ _ _) fun _ b h hs => ?_
      dsimp only
      split
      · exact Sorts.ok hs
      · exact (halReady_sorts h hs _).bind (halReady_returns h _) fun _ b _ hs => Sorts.ok hs

theorem placeFunct_sorted (h : b.Sound) (hs : b.Sorted) {name : CString} {funct arg usesFp reentrant comp new top : Int}
    {functs : HalPool FunctStruct} (hput : b.putFunct name funct arg usesFp reentrant comp = .placed new functs top) :
    { b with functs := functs, shmemTop := top }.Sorted := by
  obtain ⟨htaken, -⟩ := HalPool.put_placed hput
  have hnew := PoolOk.new_not_mem h.functs htaken.takes (by decide) h.memory.2
  exact { hs with functs := HalPool.put_placed_sorted hs.functs hnew hput }

theorem halExportFunct_sorts (h : b.Sound) (hs : b.Sorted) (name : CString) (funct arg usesFp reentrant compId : Int) :
    Sorts (b.halExportFunct name funct arg usesFp reentrant compId) := by
  rw [halExportFunct_eq h.mutex]
  split
  · exact Sorts.ok hs
  split
  · exact Sorts.ok hs
  · rename_i new functs top hput
    obtain ⟨htaken, hlist⟩ := HalPool.put_taken hput
    have hnew := PoolOk.new_not_mem h.functs htaken.takes (by decide) h.memory.2
    refine Sorts.ok { hs with functs := hs.functs.of_list hlist fun p hp => ?_ }
    rw [htaken.release_cell _ p]
    rintro rfl
    exact hnew hp
  · rename_i new functs top hput
    exact finishFunct_sorts (h.placeFunct hput) (placeFunct_sorted h hs hput) new name compId

theorem halCreateThread_sorts (h : b.Sound) (hs : b.Sorted) (rt : ThreadAnswer) (name : CString) (period : UInt64)
    (usesFp priority : Int) : Sorts (b.halCreateThread rt name period usesFp priority) := by
  cases hcheck : b.threadError name period with
  | some e =>
    rw [halCreateThread_error h.mutex rt usesFp priority (.inl hcheck)]
    exact Sorts.ok hs
  | none =>
    cases htake : b.takeThread with
    | none =>
      rw [halCreateThread_error h.mutex rt usesFp priority (.inr ⟨hcheck, htake, rfl⟩)]
      exact Sorts.ok hs
    | some x =>
      obtain ⟨new, threads, top⟩ := x
      obtain ⟨cell, base, -, hrun⟩ := halCreateThread_taken h.mutex rt usesFp priority hcheck htake
      obtain ⟨hpool, ⟨hbot, htop⟩, es, -, -, hes⟩ := h.takeThread htake
      rw [hrun]
      split
      · exact finishThread_sorts (h.withThread hbot htop hpool hes base) (hs.same rfl rfl rfl) rt new name
      · exact Sorts.ok (hs.same rfl rfl rfl)

/-- The names of the functions do not change when only their counts do. -/
theorem ThreadsFreed.sorted (h : ThreadsFreed b b') (hs : b.Sorted) : b'.Sorted := by
  have hframe := h.frame
  refine ⟨?_, ?_, hs.functs.of_list (by rw [hframe]) fun p _ => by rw [h.cell p]⟩
  · rw [hframe]
    exact hs.pins
  · rw [hframe]
    exact hs.params

theorem halThreadDelete_sorts (h : b.Sound) (hs : b.Sorted) (name : CString) : Sorts (b.halThreadDelete name) := by
  cases hdead : b.deletesComponent name with
  | true =>
    rw [halThreadDelete_deadlock h.mutex hdead]
    exact Sorts.error _
  | false =>
    rcases halThreadDelete_eq h hdead with ⟨r, hrun⟩ | ⟨b', hrun, -, hfreed⟩
    · rw [hrun]
      exact Sorts.ok hs
    · rw [hrun]
      exact Sorts.ok (hfreed.sorted hs)

theorem halAppExit_sorts (h : b.Sound) (hs : b.Sorted) : Sorts b.halAppExit := by
  obtain ⟨b', hrun, -, hfreed⟩ := halAppExit_eq h
  rw [hrun]
  exact Sorts.ok (hfreed.sorted hs)

/-- A block in which one function has another count. -/
theorem Sorted.setUsers (hs : b.Sorted) (hpins : b'.pins = b.pins) (hparams : b'.params = b.params) (f : Int)
    (users : FunctStruct → Int) (hfuncts :
    b'.functs = b.functs.set f fun p => { p with users := users p }) : b'.Sorted := by
  refine ⟨hpins ▸ hs.pins, hparams ▸ hs.params, hs.functs.of_list (by rw [hfuncts]; rfl) fun p _ => ?_⟩
  rw [hfuncts]
  show (Function.update b.functs.cell f _ p).name = _
  by_cases hp : p = f
  · rw [hp, Function.update_self]
  · rw [Function.update_of_ne hp]

theorem halAddFunctToThread_sorts (h : b.Sound) (hs : b.Sorted)
    (functName threadName : Option CString) (position : Int) :
    Sorts (b.halAddFunctToThread functName threadName position) := by
  rw [halAddFunctToThread_eq h.mutex]
  cases b.addPlace functName threadName position with
  | error e => exact Sorts.ok hs
  | ok place =>
    obtain ⟨funct, thread, entry⟩ := place
    unfold allocFunctEntryStruct
    dsimp only
    split
    · exact Sorts.ok (hs.setUsers rfl rfl funct (fun p => p.users + 1) rfl)
    split
    · exact Sorts.error _
    · exact Sorts.ok (hs.setUsers rfl rfl funct (fun p => p.users + 1) rfl)

theorem halDelFunctFromThread_sorts (h : b.Sound) (hs : b.Sorted) (functName threadName : Option CString) :
    Sorts (b.halDelFunctFromThread functName threadName) := by
  rw [halDelFunctFromThread_eq h.mutex]
  split
  · exact Sorts.ok hs
  · rename_i funct thread _
    cases findEntry funct (functList thread) b halSize.toNat (b.links.next (functList thread)) with
    | error e => exact Sorts.error e
    | ok found =>
      cases found with
      | none => exact Sorts.ok hs
      | some entry =>
        refine Sorts.ok ?_
        unfold freeFunctEntryStruct setEntry
        dsimp only
        split
        · exact hs.setUsers rfl rfl (b.entries entry).functPtr (fun p => p.users - 1) rfl
        · exact hs.same rfl rfl rfl

/-- The lists of a component's parameters and functions lose what it owns. -/
theorem halExit_sorts (h : b.Sound) (hs : b.Sorted) (compId : Int) : Sorts (b.halExit compId) := by
  cases hfind : b.halprFindCompById compId with
  | none =>
    rw [halExit_none h.mutex hfind]
    exact Sorts.ok hs
  | some comp =>
    obtain ⟨es, hes⟩ := h.entries
    obtain ⟨b', es', l₁, l₂, hrun, -, -, hout⟩ := halExit_frees h hes hfind
    have hpins : b'.pins = b.pins := by
      rw [hout.frame]
      rfl
    rw [hrun]
    refine Sorts.ok ⟨hpins ▸ hs.pins, hs.params.of_sublist ?_ fun p hp => ?_, hs.functs.of_sublist ?_ fun p hp => ?_⟩
    · rw [hout.params.1]
      exact List.filter_sublist
    · rw [hout.paramCell p hp]
      rfl
    · rw [hout.functs.1]
      exact List.filter_sublist
    · rw [hout.functCell p hp]
      rfl

end HalBlock

variable {b b' : HalBlock} {c : BlockCall}

theorem BlockCall.run_sorts (h : b.Sound) (hs : b.Sorted) (hc : c.InRun) : Sorts (c.run b) := by
  have hnone : Sorts (.ok (-einval, { b with mutex := false })) := Sorts.ok (hs.same rfl rfl rfl)
  cases c with
  | init moduleId name => exact halInit_sorts h hs moduleId name
  | exit compId => exact halExit_sorts h hs compId
  | setUnready compId =>
    show Sorts (b.halSetUnready compId)
    exact findComp_cases h.mutex hnone fun _ => Sorts.ok (hs.same rfl rfl rfl)
  | ready compId => exact halReady_sorts h hs compId
  | unready compId =>
    show Sorts (b.halUnready compId)
    refine findComp_cases h.mutex hnone fun comp => ?_
    split <;> exact Sorts.ok (hs.same rfl rfl rfl)
  | pinNew name type dataPtrAddr compId => exact halPinNew_sorts h hs name type dataPtrAddr compId
  | pinNewf type dataPtrAddr compId name => exact halPinNewf_sorts h hs type dataPtrAddr compId name
  | paramNew name type dir dataAddr compId => exact halParamNew_sorts h hs name type dir dataAddr compId
  | paramFloatNewf dir dataAddr compId size name =>
    show Sorts (b.halParamFloatNewf dir dataAddr compId size name)
    unfold halParamFloatNewf
    split
    · exact Sorts.ok hs
    · exact halParamNew_sorts h hs _ _ _ _ _
  | exportFunct name funct arg usesFp reentrant compId =>
    exact halExportFunct_sorts h hs name funct arg usesFp reentrant compId
  | exportFunctf size name funct arg usesFp reentrant compId =>
    show Sorts (b.halExportFunctf size name funct arg usesFp reentrant compId)
    unfold halExportFunctf
    split
    · exact Sorts.ok hs
    · exact halExportFunct_sorts h hs _ _ _ _ _ _
  | createThread rt name period usesFp priority => exact halCreateThread_sorts h hs rt name period usesFp priority
  | threadDelete name => exact halThreadDelete_sorts h hs name
  | addFunct functName threadName position => exact halAddFunctToThread_sorts h hs functName threadName position
  | delFunct functName threadName => exact halDelFunctFromThread_sorts h hs functName threadName
  | appMain moduleId memId => exact absurd hc id
  | appExit => exact halAppExit_sorts h hs
  | setConstructor compId =>
    show Sorts (b.halSetConstructor compId)
    exact findComp_cases h.mutex hnone fun _ => Sorts.ok (hs.same rfl rfl rfl)
  | compName compId =>
    show Sorts ((b.halCompName compId).map fun answer => (0, answer.2))
    unfold halCompName
    rw [rtapiMutexGet_free h.mutex]
    exact Sorts.ok (hs.same rfl rfl rfl)
  | setLock lockType => exact Sorts.ok (hs.same rfl rfl rfl)
  | getLock => exact Sorts.ok hs
  | startThreads =>
    show Sorts (.ok (b.halSetThreadsRunning 1))
    unfold halSetThreadsRunning
    split <;> exact Sorts.ok (hs.same rfl rfl rfl)
  | stopThreads =>
    show Sorts (.ok (b.halSetThreadsRunning 0))
    unfold halSetThreadsRunning
    split <;> exact Sorts.ok (hs.same rfl rfl rfl)
  | malloc size =>
    show Sorts (b.halMalloc size)
    unfold halMalloc shmallocUp
    rw [rtapiMutexGet_free h.mutex]
    dsimp only
    split <;> exact Sorts.ok (hs.same rfl rfl rfl)

theorem HalBlock.Empty.sorted (h : b.Empty) : b.Sorted := by
  refine ⟨?_, ?_, ?_⟩
  · unfold HalPool.Sorted
    rw [h.pins.1]
    exact List.Pairwise.nil
  · unfold HalPool.Sorted
    rw [h.params.1]
    exact List.Pairwise.nil
  · unfold HalPool.Sorted
    rw [h.functs.1]
    exact List.Pairwise.nil

theorem HalBlock.Empty.reaches_sorted (h : b.Empty) (hrun : Reaches blockStep b b') : b'.Sound ∧ b'.Sorted := by
  refine hrun.invariant (I := fun b => b.Sound ∧ b.Sorted) (fun b c b' hb hstep => ?_) ⟨h.sound, h.sorted⟩
  obtain ⟨hc, r, hcall⟩ := hstep
  exact ⟨BlockCall.run_sound hb.1 hc hcall, BlockCall.run_sorts hb.1 hb.2 hc r b' hcall⟩

/-! ### A registration -/

/-- Some structure on the list has the name. -/
def HalPool.HasName {α : Type} (nameOf : α → CString) (name : CString) (pool : HalPool α) : Prop :=
  ∃ p ∈ pool.list, nameOf (pool.cell p) = name

/-- What becomes of a list: a name that is on it is refused, and a new one comes into the list; all else stays as it
is. -/
structure Registers {α : Type} (nameOf : α → CString) (name : CString) (pool : HalPool α) (r : Int)
    (pool' : HalPool α) :
    Prop where
  refused : pool.HasName nameOf name → r = -einval ∧ pool'.list = pool.list
  inserted : ¬ pool.HasName nameOf name → ∃ new l₁ l₂, pool.list = l₁ ++ l₂ ∧ pool'.list = l₁ ++ new :: l₂ ∧
    nameOf (pool'.cell new) = name
  kept : ∀ p ∈ pool.list, pool'.cell p = pool.cell p

/-- A live component that is not ready may register a name of legal length. -/
structure HalBlock.MayRegister (b : HalBlock) (name : CString) (compId comp : Int) : Prop where
  legal : name.length ≤ halNameLen
  unlocked : b.lock &&& halLockLoad = 0
  live : b.halprFindCompById compId = some comp
  unready : (b.comps.cell comp).ready = 0

theorem HalBlock.MayRegister.itemOwner {name : CString} {compId comp addr : Int} (h : b.MayRegister name compId comp)
    (haddr : shmchk addr = true) : b.itemOwner name true addr compId = .ok comp := by
  have hlegal := h.legal
  unfold HalBlock.itemOwner
  rw [if_neg (by simp), if_neg (by omega), if_neg (not_not.2 h.unlocked), h.live]
  dsimp only
  rw [haddr, if_neg (by simp), if_neg (not_not.2 h.unready)]

theorem snprintf_legal {name : CString} (h : name.length ≤ halNameLen) : snprintf (halNameLen + 1) name = name :=
  List.take_of_length_le h

section Registration

variable {α : Type} {nameOf : α → CString} {name : CString} {size bot top new top' : Int} {empty write : α → α}
  {pool pool' : HalPool α}

/-- A structure that is freed again leaves the list as it was. -/
theorem registers_taken (hs : pool.Sorted nameOf) (htaken : pool.nameTaken nameOf name pool.list = true)
    (hlist : pool'.list = pool.list) (hcell : ∀ p ≠ new, pool'.cell p = pool.cell p) (hnew : new ∉ pool.list) :
    Registers nameOf name pool (-einval) pool' := by
  refine ⟨fun _ => ⟨rfl, hlist⟩, fun hno => absurd ((HalPool.nameTaken_iff hs).1 htaken) hno, fun p hp => hcell p ?_⟩
  rintro rfl
  exact hnew hp

theorem registers_placed (hs : pool.Sorted nameOf) (htaken : pool.nameTaken nameOf name pool.list = false)
    (hput : pool.put size empty write nameOf bot top = .placed new pool' top') (hname : ∀ x, nameOf (write x) = name)
    (hnew : new ∉ pool.list) (r : Int) : Registers nameOf name pool r pool' := by
  obtain ⟨hpool, l₁, l₂, hsplit, hlist⟩ := HalPool.put_placed hput
  refine ⟨fun hhas => ?_, fun _ => ⟨new, l₁, l₂, hsplit, hlist, ?_⟩, fun p hp => ?_⟩
  · rw [(HalPool.nameTaken_iff hs).2 hhas] at htaken
    cases htaken
  · rw [hpool.cell, Function.update_self, hname]
  · rw [hpool.cell, Function.update_of_ne]
    rintro rfl
    exact hnew hp

end Registration

variable {name : CString} {compId comp : Int}

theorem halPinNew_registers (h : b.Sound) (hs : b.Sorted) (hmay : b.MayRegister name compId comp) {type : HalType}
    (htype : (type.isValue || type == .port) = true) {addr : Int} (haddr : shmchk addr = true)
    (hroom : (b.pins.next 104 b.shmemBot b.shmemTop).isSome) :
    ∃ r b', b.halPinNew name type addr compId = .ok (r, b') ∧ Registers PinStruct.name name b.pins r b'.pins ∧
      (¬ b.pins.HasName PinStruct.name name → r = 0) := by
  have hlegal := snprintf_legal hmay.legal
  rw [halPinNew_eq h.mutex, htype, hmay.itemOwner haddr]
  dsimp only
  rcases putPin_cases h.pins name type addr comp with ⟨hnext, -⟩ | ⟨new, pins, hnext, ⟨htaken, hput⟩ | ⟨htaken, hput⟩⟩
  · rw [hnext] at hroom
    cases hroom
  · obtain ⟨hpool, hlist⟩ := HalPool.put_taken hput
    have hnew := h.pins.next_not_mem (by decide) new hnext
    rw [hlegal] at htaken
    rw [hput]
    dsimp only
    rw [if_neg (not_not.2 (oldname_of_cell h.pinNames hpool.cell rfl new))]
    refine ⟨_, _, rfl, registers_taken hs.pins htaken hlist (hpool.release_cell _) hnew, fun hno => ?_⟩
    exact absurd ((HalPool.nameTaken_iff hs.pins).1 htaken) hno
  · have hnew := h.pins.next_not_mem (by decide) new hnext
    have hnames : ∀ x : PinStruct, PinStruct.name { x with
        dataPtrAddr := addr, owner := comp, type := type, name := snprintf (halNameLen + 1) name } = name :=
      fun _ => hlegal
    rw [hlegal] at htaken
    rw [hput]
    exact ⟨0, _, rfl, registers_placed hs.pins htaken hput hnames hnew 0, fun _ => rfl⟩

theorem halParamNew_registers (h : b.Sound) (hs : b.Sorted) (hmay : b.MayRegister name compId comp) {type : HalType}
    {dir : HalParamDir} (htype : (type.isValue && dir != .other) = true) {addr : Int} (haddr : shmchk addr = true)
    (hroom : (b.params.next 88 b.shmemBot b.shmemTop).isSome) :
    ∃ r b', b.halParamNew name type dir addr compId = .ok (r, b') ∧
    Registers ParamStruct.name name b.params r b'.params ∧
      (¬ b.params.HasName ParamStruct.name name → r = 0) := by
  have hlegal := snprintf_legal hmay.legal
  rw [halParamNew_eq h.mutex, htype, hmay.itemOwner haddr]
  dsimp only
  rcases putParam_cases h.params name type dir addr comp with ⟨hnext, -⟩
    | ⟨new, params, hnext, ⟨htaken, hput⟩ | ⟨htaken, hput⟩⟩
  · rw [hnext] at hroom
    cases hroom
  · obtain ⟨hpool, hlist⟩ := HalPool.put_taken hput
    have hnew := h.params.next_not_mem (by decide) new hnext
    rw [hlegal] at htaken
    rw [hput]
    dsimp only
    rw [if_neg (not_not.2 (oldname_of_cell h.paramNames hpool.cell rfl new))]
    refine ⟨_, _, rfl, registers_taken hs.params htaken hlist (hpool.release_cell _) hnew, fun hno => ?_⟩
    exact absurd ((HalPool.nameTaken_iff hs.params).1 htaken) hno
  · have hnew := h.params.next_not_mem (by decide) new hnext
    have hnames : ∀ x : ParamStruct, ParamStruct.name { x with
        dataPtr := addr, owner := comp, type := type, dir := dir, name := snprintf (halNameLen + 1) name } = name :=
      fun _ => hlegal
    rw [hlegal] at htaken
    rw [hput]
    exact ⟨0, _, rfl, registers_placed hs.params htaken hput hnames hnew 0, fun _ => rfl⟩

/-- The last part of `hal_export_funct` leaves the list of functions alone. -/
theorem finishFunct_functs (h : b.Sound) (new : Int) (name : CString) (compId : Int) :
    ∃ r b', finishFunct new name compId b = .ok (r, b') ∧ b'.functs = b.functs := by
  -- neither call reads or writes the functions
  have hpin : ∀ (name : CString) (type : HalType) (addr : Int) {b : HalBlock}, b.Sound →
      ∃ r b', b.halPinNewf type addr compId name = .ok (r, b') ∧ b'.Sound ∧ b'.functs = b.functs := by
    intro name type addr b h
    obtain ⟨r, b', hrun, hsound⟩ := halPinNewf_returns h type addr compId name
    refine ⟨r, b', hrun, hsound, ?_⟩
    unfold halPinNewf at hrun
    split at hrun
    · cases hrun
      rfl
    rw [halPinNew_eq h.mutex] at hrun
    split at hrun
    · cases hrun
      rfl
    split at hrun
    · cases hrun
      rfl
    · split at hrun
      · cases hrun
      · cases hrun
        rfl
    · cases hrun
      rfl
  have hparam : ∀ (name : CString) (type : HalType) (dir : HalParamDir) (addr : Int) {b : HalBlock}, b.Sound →
      ∃ r b', b.halParamNew name type dir addr compId = .ok (r, b') ∧ b'.Sound ∧ b'.functs = b.functs := by
    intro name type dir addr b h
    obtain ⟨r, b', hrun, hsound⟩ := halParamNew_returns h name type dir addr compId
    refine ⟨r, b', hrun, hsound, ?_⟩
    rw [halParamNew_eq h.mutex] at hrun
    split at hrun
    · cases hrun
      rfl
    split at hrun
    · cases hrun
      rfl
    · split at hrun
      · cases hrun
      · cases hrun
        rfl
    · cases hrun
      rfl
  obtain ⟨r, b₁, hrun₁, h₁, hsame₁⟩ := hpin (timeName name) .s32 (new + 48) h
  unfold finishFunct
  rw [hrun₁]
  dsimp only [Except.bind]
  split
  · exact ⟨_, b₁, rfl, hsame₁⟩
  · obtain ⟨r₂, b₂, hrun₂, h₂, hsame₂⟩ := hparam (tmaxName name) .s32 .rw (new + 56) h₁
    obtain ⟨r₃, b₃, hrun₃, -, hsame₃⟩ :=
      hparam (tmaxIncreasedName name) .bit .ro (new + 60) h₂
    rw [hrun₂]
    dsimp only
    rw [hrun₃]
    exact ⟨0, b₃, rfl, hsame₃.trans (hsame₂.trans hsame₁)⟩

theorem halExportFunct_registers (h : b.Sound) (hs : b.Sorted) (hmay : b.MayRegister name compId comp)
    (htype : (b.comps.cell comp).type ≠ .user) (hroom : (b.functs.next 112 b.shmemBot b.shmemTop).isSome)
    (funct arg usesFp reentrant : Int) :
    ∃ r b', b.halExportFunct name funct arg usesFp reentrant compId = .ok (r, b') ∧
      Registers FunctStruct.name name b.functs r b'.functs := by
  have hlegal := snprintf_legal hmay.legal
  have hlen := hmay.legal
  have howner : b.functOwner name compId = .ok comp := by
    unfold functOwner
    rw [if_neg (by omega), if_neg (not_not.2 hmay.unlocked), hmay.live]
    dsimp only
    rw [if_neg htype, if_neg (not_not.2 hmay.unready)]
  rw [halExportFunct_eq h.mutex, howner]
  dsimp only
  rcases putFunct_cases h.functs name funct arg usesFp reentrant comp with
    ⟨hnext, -⟩ | ⟨new, functs, hnext, ⟨htaken, hput⟩ | ⟨htaken, hput⟩⟩
  · rw [hnext] at hroom
    cases hroom
  · obtain ⟨hpool, hlist⟩ := HalPool.put_taken hput
    have hnew := h.functs.next_not_mem (by decide) new hnext
    rw [hlegal] at htaken
    rw [hput]
    exact ⟨_, _, rfl, registers_taken hs.functs htaken hlist (hpool.release_cell _) hnew⟩
  · have hnew := h.functs.next_not_mem (by decide) new hnext
    have hnames : ∀ x : FunctStruct, FunctStruct.name { x with
        usesFp := usesFp, owner := comp, reentrant := reentrant, users := 0, arg := arg, funct := funct
        name := snprintf (halNameLen + 1) name } = name := fun _ => hlegal
    rw [hlegal] at htaken
    rw [hput]
    dsimp only
    obtain ⟨r, b', hrun, hsame⟩ := finishFunct_functs (h.placeFunct hput) new name compId
    refine ⟨r, b', hrun, ?_⟩
    rw [hsame]
    exact registers_placed hs.functs htaken hput hnames hnew r

/-- In every block that a run from an empty registry reaches, the lists of pins, parameters and functions strictly
increase; and a live component that is not ready, while there is memory, is refused a name that is on the list, and
comes into the list under any other name, at its place and with all else as it was. -/
theorem hal_lists_sorted (h : b.Empty) (hrun : Reaches blockStep b b') :
    b'.Sorted ∧ ∀ name compId comp, b'.MayRegister name compId comp →
      (∀ (type : HalType) (addr : Int), (type.isValue || type == .port) = true → shmchk addr = true →
        (b'.pins.next 104 b'.shmemBot b'.shmemTop).isSome → ∃ r b'', b'.halPinNew name type addr compId = .ok (r, b'') ∧
          Registers PinStruct.name name b'.pins r b''.pins ∧ (¬ b'.pins.HasName PinStruct.name name → r = 0)) ∧
      (∀ (type : HalType) (dir : HalParamDir) (addr : Int), (type.isValue && dir != .other) = true →
      shmchk addr = true →
        (b'.params.next 88 b'.shmemBot b'.shmemTop).isSome →
        ∃ r b'', b'.halParamNew name type dir addr compId = .ok (r, b'') ∧
          Registers ParamStruct.name name b'.params r b''.params ∧
          (¬ b'.params.HasName ParamStruct.name name → r = 0)) ∧
      ∀ funct arg usesFp reentrant : Int, (b'.comps.cell comp).type ≠ .user →
        (b'.functs.next 112 b'.shmemBot b'.shmemTop).isSome → ∃ r b'',
          b'.halExportFunct name funct arg usesFp reentrant compId = .ok (r, b'') ∧
            Registers FunctStruct.name name b'.functs r b''.functs := by
  obtain ⟨hsound, hs⟩ := h.reaches_sorted hrun
  refine ⟨hs, fun name compId comp hmay => ⟨?_, ?_, ?_⟩⟩
  · exact fun type addr htype haddr hroom => halPinNew_registers hsound hs hmay htype haddr hroom
  · exact fun type dir addr htype haddr hroom => halParamNew_registers hsound hs hmay htype haddr hroom
  · exact fun funct arg usesFp reentrant htype hroom =>
      halExportFunct_registers hsound hs hmay htype hroom funct arg usesFp reentrant

/-- Pins that come in another order than their names'. -/
theorem hal_lists_sorted_pins : ∃ rs b, runCalls BlockCall.call
      [.init 1 (some [97]), .malloc 16, .pinNew [113] .bit 256 1, .pinNew [112] .bit 256 1, .pinNew [113] .bit 256 1]
      zeroBlock.initialised = some (rs, b) ∧
    rs = [1, 256, 0, 0, -einval] ∧ b.Sorted := by
  obtain ⟨rs, b, hrun, hrs⟩ : ∃ rs b, runCalls BlockCall.call
      [.init 1 (some [97]), .malloc 16, .pinNew [113] .bit 256 1, .pinNew [112] .bit 256 1, .pinNew [113] .bit 256 1]
      zeroBlock.initialised = some (rs, b) ∧ rs = [1, 256, 0, 0, -einval] := by
    have hsome : ((runCalls BlockCall.call
        [.init 1 (some [97]), .malloc 16, .pinNew [113] .bit 256 1, .pinNew [112] .bit 256 1, .pinNew [113] .bit 256 1]
        zeroBlock.initialised).map fun x => x.1) = some [1, 256, 0, 0, -einval] := by
      decide +kernel
    obtain ⟨⟨rs, b⟩, hrun, hrs⟩ := Option.map_eq_some_iff.1 hsome
    exact ⟨rs, b, hrun, hrs⟩
  refine ⟨rs, b, hrun, hrs, (hal_lists_sorted zeroBlock_empty (runCalls_reaches ?_ hrun)).1⟩
  intro b c r b' hc hcall
  refine ⟨?_, r, BlockCall.call_eq_some.1 hcall⟩
  simp only [List.mem_cons, List.not_mem_nil, or_false] at hc
  rcases hc with rfl | rfl | rfl | rfl | rfl
  · exact trivial
  · show (0 : Int) ≤ 16
    decide
  all_goals exact trivial

end SoemMotion
