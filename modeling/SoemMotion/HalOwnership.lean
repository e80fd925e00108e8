import SoemMotion.HalMutex

/-!
# Who owns what

A pin, a parameter or a function belongs to the component structure at its owner's offset.  Every call but `hal_exit`
lets the lists grow, and gives what it adds to components that are on the list (`Grows`).  `hal_exit` takes the
functions and the parameters of its component with it, with the function entries of the threads, and leaves the pins.
-/

namespace SoemMotion

open Lib HalBlock

/-! ### Lists that grow -/

/-- The list has grown by structures that belong to `comps`, and what was on it belongs to whom it did. -/
structure PoolGrows {α : Type} (owner : α → Int) (comps : List Int) (pool pool' : HalPool α) : Prop where
  list : ∀ p ∈ pool.list, p ∈ pool'.list
  kept : ∀ p ∈ pool.list, owner (pool'.cell p) = owner (pool.cell p)
  new : ∀ p ∈ pool'.list, p ∈ pool.list ∨ owner (pool'.cell p) ∈ comps

namespace PoolGrows

variable {α : Type} {owner : α → Int} {comps comps' : List Int} {pool pool' pool'' : HalPool α} {new : Int}

theorem of_list (hlist : pool'.list = pool.list) (hkept : ∀ p ∈ pool.list, owner (pool'.cell p) = owner (pool.cell p)) :
    PoolGrows owner comps pool pool' :=
  ⟨fun _ hp => hlist ▸ hp, hkept, fun _ hp => .inl (hlist ▸ hp)⟩

theorem refl (pool : HalPool α) : PoolGrows owner comps pool pool := of_list rfl fun _ _ => rfl

theorem trans (h : PoolGrows owner comps pool pool') (hsub : ∀ c ∈ comps, c ∈ comps')
    (h' : PoolGrows owner comps' pool' pool'') : PoolGrows owner comps' pool pool'' := by
  refine ⟨fun p hp => h'.list p (h.list p hp), fun p hp => ?_, fun p hp => ?_⟩
  · rw [h'.kept p (h.list p hp), h.kept p hp]
  · rcases h'.new p hp with hp' | hp'
    · rcases h.new p hp' with hold | hnew
      · exact .inl hold
      · right
        rw [h'.kept p hp']
        exact hsub _ hnew
    · exact .inr hp'

/-- A structure written over that is not on the list. -/
theorem of_update (hlist : pool'.list = pool.list) (hcell : ∀ p ≠ new, pool'.cell p = pool.cell p)
    (hnew : new ∉ pool.list) : PoolGrows owner comps pool pool' := by
  refine of_list hlist fun p hp => ?_
  rw [hcell]
  rintro rfl
  exact hnew hp

/-- A structure put on the list. -/
theorem of_placed {x : α} (hcell : pool'.cell = Function.update pool.cell new x) {l₁ l₂ : List Int}
    (hsplit : pool.list = l₁ ++ l₂) (hlist : pool'.list = l₁ ++ new :: l₂) (hnew : new ∉ pool.list)
    (howner : owner x ∈ comps) : PoolGrows owner comps pool pool' := by
  have hmem : ∀ p, p ∈ pool'.list ↔ p = new ∨ p ∈ pool.list := by
    intro p
    rw [hlist, hsplit]
    simp only [List.mem_append, List.mem_cons]
    exact or_left_comm
  refine ⟨fun p hp => (hmem p).2 (.inr hp), fun p hp => ?_, fun p hp => ?_⟩
  · rw [hcell, Function.update_of_ne]
    rintro rfl
    exact hnew hp
  · rcases (hmem p).1 hp with rfl | hp
    · right
      rw [hcell, Function.update_self]
      exact howner
    · exact .inl hp

end PoolGrows

/-- The lists have grown, and what is new belongs to components on the list. -/
structure HalBlock.Grows (b b' : HalBlock) : Prop where
  comps : ∀ c ∈ b.comps.list, c ∈ b'.comps.list
  pins : PoolGrows PinStruct.owner b'.comps.list b.pins b'.pins
  params : PoolGrows ParamStruct.owner b'.comps.list b.params b'.params
  functs : PoolGrows FunctStruct.owner b'.comps.list b.functs b'.functs

namespace HalBlock

variable {b b' b'' : HalBlock}

theorem Grows.refl (b : HalBlock) : b.Grows b :=
  ⟨fun _ hc => hc, PoolGrows.refl _, PoolGrows.refl _, PoolGrows.refl _⟩

theorem Grows.trans (h : b.Grows b') (h' : b'.Grows b'') : b.Grows b'' :=
  ⟨fun c hc => h'.comps c (h.comps c hc), h.pins.trans h'.comps h'.pins, h.params.trans h'.comps h'.params,
    h.functs.trans h'.comps h'.functs⟩

/-- A call after which the lists have grown. -/
def Grown (b : HalBlock) (run : HalRun (Int × HalBlock)) : Prop := ∀ r b', run = .ok (r, b') → b.Grows b'

theorem Grown.ok {r : Int} (h : b.Grows b') : b.Grown (.ok (r, b')) := by
  intro r' b'' heq
  cases heq
  exact h

theorem Grown.error (e : HalFault) : b.Grown (.error e) := fun _ _ h => (nomatch h)

/-- A call after which another one is made, from a sound block. -/
theorem Grown.bind {run : HalRun (Int × HalBlock)} {k : Int × HalBlock → HalRun (Int × HalBlock)} (h : b.Grown run)
    (hsound : Returns run) (hk : ∀ r (b' : HalBlock), b'.Sound → b'.Grown (k (r, b'))) : b.Grown (run.bind k) := by
  obtain ⟨r, b₁, rfl, hb₁⟩ := hsound
  intro r' b' hrun
  exact (h r b₁ rfl).trans (hk r b₁ hb₁ r' b' hrun)

/-! ### Calls that let the lists grow -/

theorem findComp_mem {compId comp : Int} (h : b.halprFindCompById compId = some comp) : comp ∈ b.comps.list :=
  List.mem_of_find?_eq_some h

theorem itemOwner_mem {name : CString} {typeOk : Bool} {addr compId comp : Int}
    (h : b.itemOwner name typeOk addr compId = .ok comp) : comp ∈ b.comps.list := by
  unfold itemOwner at h
  split at h
  · cases h
  split at h
  · cases h
  split at h
  · cases h
  split at h
  · cases h
  · rename_i hfind
    split at h
    · cases h
    split at h
    · cases h
    · cases h
      exact findComp_mem hfind

theorem functOwner_ok {name : CString} {compId comp : Int} (h : b.functOwner name compId = .ok comp) :
    b.lock &&& halLockLoad = 0 ∧ b.halprFindCompById compId = some comp ∧ (b.comps.cell comp).ready = 0 := by
  unfold functOwner at h
  split at h
  · cases h
  split at h
  · cases h
  rename_i hlock
  split at h
  · cases h
  · rename_i hfind
    split at h
    · cases h
    split at h
    · cases h
    · rename_i hready
      cases h
      exact ⟨not_not.1 hlock, hfind, not_not.1 hready⟩

/-- A structure that has been taken was not on the list. -/
theorem PoolOk.new_not_mem {α : Type} {size bot top new top' : Int} {free' : List Int} {pool : HalPool α}
    (h : PoolOk size top pool.list pool.free) (ht : HalPool.Takes size bot top pool new free' top') (hsize : 16 ≤ size)
    (hmem : bot ≤ top ∧ top ≤ halSize) : new ∉ pool.list := by
  obtain ⟨hpool, -⟩ := h.takes ht hsize hmem
  exact fun hp => (List.nodup_cons.1 hpool.nodup).1 (List.mem_append_left _ hp)

theorem halPinNew_grown (h : b.Sound) (name : CString) (type : HalType) (addr compId : Int) :
    b.Grown (b.halPinNew name type addr compId) := by
  rw [halPinNew_eq h.mutex]
  cases howner : b.itemOwner name (type.isValue || type == .port) addr compId with
  | error e => exact Grown.ok (Grows.refl b)
  | ok comp =>
    have hcomp := itemOwner_mem howner
    dsimp only
    cases hput : b.putPin name type addr comp with
    | full => exact Grown.ok (Grows.refl b)
    | taken new pins top =>
      obtain ⟨htaken, hlist⟩ := HalPool.put_taken hput
      have hnew := PoolOk.new_not_mem h.pins htaken.takes (by decide) h.memory.2
      dsimp only
      split
      · exact Grown.error _
      · exact Grown.ok { Grows.refl b with pins := PoolGrows.of_update hlist (htaken.release_cell _) hnew }
    | placed new pins top =>
      obtain ⟨htaken, l₁, l₂, hsplit, hlist⟩ := HalPool.put_placed hput
      have hnew := PoolOk.new_not_mem h.pins htaken.takes (by decide) h.memory.2
      exact Grown.ok { Grows.refl b with
        pins := PoolGrows.of_placed htaken.cell hsplit hlist hnew (by exact hcomp) }

theorem halPinNewf_grown (h : b.Sound) (type : HalType) (addr compId : Int) (name : CString) :
    b.Grown (b.halPinNewf type addr compId name) := by
  unfold halPinNewf
  split
  · exact Grown.ok (Grows.refl b)
  · exact halPinNew_grown h name type addr compId

theorem halParamNew_grown (h : b.Sound) (name : CString) (type : HalType) (dir : HalParamDir) (addr compId : Int) :
    b.Grown (b.halParamNew name type dir addr compId) := by
  rw [halParamNew_eq h.mutex]
  cases howner : b.itemOwner name (type.isValue && dir != .other) addr compId with
  | error e => exact Grown.ok (Grows.refl b)
  | ok comp =>
    have hcomp := itemOwner_mem howner
    dsimp only
    cases hput : b.putParam name type dir addr comp with
    | full => exact Grown.ok (Grows.refl b)
    | taken new params top =>
      obtain ⟨htaken, hlist⟩ := HalPool.put_taken hput
      have hnew := PoolOk.new_not_mem h.params htaken.takes (by decide) h.memory.2
      dsimp only
      split
      · exact Grown.error _
      · exact Grown.ok { Grows.refl b with params := PoolGrows.of_update hlist (htaken.release_cell _) hnew }
    | placed new params top =>
      obtain ⟨htaken, l₁, l₂, hsplit, hlist⟩ := HalPool.put_placed hput
      have hnew := PoolOk.new_not_mem h.params htaken.takes (by decide) h.memory.2
      exact Grown.ok { Grows.refl b with
        params := PoolGrows.of_placed htaken.cell hsplit hlist hnew (by exact hcomp) }

theorem halInit_grown (h : b.Sound) (moduleId : Int) (name : Option CString) : b.Grown (b.halInit moduleId name) := by
  rw [halInit_eq h.mutex]
  cases b.compError moduleId name with
  | some e => exact Grown.ok (Grows.refl b)
  | none =>
    dsimp only
    cases htake : b.takeComp with
    | none => exact Grown.ok (Grows.refl b)
    | some x =>
      obtain ⟨comp, comps, top⟩ := x
      obtain ⟨-, hlist, -⟩ := HalPool.alloc_takes htake
      refine Grown.ok ⟨fun c hc => ?_, PoolGrows.refl _, PoolGrows.refl _, PoolGrows.refl _⟩
      show c ∈ comp :: comps.list
      rw [hlist]
      exact List.mem_cons_of_mem _ hc

theorem halReady_grown (h : b.Sound) (compId : Int) : b.Grown (b.halReady compId) := by
  rw [halReady_eq h.mutex]
  split
  · exact Grown.ok (Grows.refl b)
  split
  · exact Grown.ok (Grows.refl b)
  · exact Grown.ok { Grows.refl b with }

theorem finishFunct_grown (h : b.Sound) (new : Int) (name : CString) (compId : Int) :
    b.Grown (finishFunct new name compId b) := by
  refine (halPinNewf_grown h _ _ _ _).bind (halPinNewf_returns h _ _ _ _) fun r b hb => ?_
  dsimp only
  split
  · exact Grown.ok (Grows.refl b)
  · refine (halParamNew_grown hb _ _ _ _ _).bind (halParamNew_returns hb _ _ _ _ _) fun _ b hb => ?_
    refine (halParamNew_grown hb _ _ _ _ _).bind (halParamNew_returns hb _ _ _ _ _) fun _ b hb => ?_
    exact Grown.ok (Grows.refl b)

theorem finishThread_grown (h : b.Sound) (rt : ThreadAnswer) (new : Int) (name : CString) :
    b.Grown (finishThread rt new name b) := by
  refine (halInit_grown h _ _).bind (halInit_returns h _ _) fun compId b hb => ?_
  dsimp only
  have hb' := hb.setThread new fun p => { p with compId := compId }
  have hsame : b.Grows { b with threads := b.threads.set new fun p => { p with compId := compId } } :=
    { Grows.refl b with }
  split
  · exact Grown.ok hsame
  · intro r b' hrun
    refine hsame.trans (Grown.bind (halParamNew_grown hb' _ _ _ _ _) (halParamNew_returns hb' _ _ _ _ _) ?_ r b' hrun)
    intro _ b hb
    dsimp only
    split
    · exact Grown.ok (Grows.refl b)
    · refine (halPinNewf_grown hb _ _ _ _).bind (halPinNewf_returns hb _ _ _ _) fun _ b hb => ?_
      dsimp only
      split
      · exact Grown.ok (Grows.refl b)
      · refine (halReady_grown hb _).bind (halReady_returns hb _) fun _ b hb => ?_
        exact Grown.ok (Grows.refl b)

theorem halExportFunct_grown (h : b.Sound) (name : CString) (funct arg usesFp reentrant compId : Int) :
    b.Grown (b.halExportFunct name funct arg usesFp reentrant compId) := by
  rw [halExportFunct_eq h.mutex]
  cases howner : b.functOwner name compId with
  | error e => exact Grown.ok (Grows.refl b)
  | ok comp =>
    have hcomp := findComp_mem (functOwner_ok howner).2.1
    dsimp only
    cases hput : b.putFunct name funct arg usesFp reentrant comp with
    | full => exact Grown.ok (Grows.refl b)
    | taken new functs top =>
      obtain ⟨htaken, hlist⟩ := HalPool.put_taken hput
      have hnew := PoolOk.new_not_mem h.functs htaken.takes (by decide) h.memory.2
      exact Grown.ok { Grows.refl b with functs := PoolGrows.of_update hlist (htaken.release_cell _) hnew }
    | placed new functs top =>
      obtain ⟨htaken, l₁, l₂, hsplit, hlist⟩ := HalPool.put_placed hput
      have hnew := PoolOk.new_not_mem h.functs htaken.takes (by decide) h.memory.2
      have hgrows : b.Grows { b with functs := functs, shmemTop := top } := { Grows.refl b with
        functs := PoolGrows.of_placed htaken.cell hsplit hlist hnew (by exact hcomp) }
      intro r b' hrun
      exact hgrows.trans (finishFunct_grown (h.placeFunct hput) new name compId r b' hrun)

theorem halCreateThread_grown (h : b.Sound) (rt : ThreadAnswer) (name : CString) (period : UInt64)
    (usesFp priority : Int) : b.Grown (b.halCreateThread rt name period usesFp priority) := by
  cases hcheck : b.threadError name period with
  | some e =>
    rw [halCreateThread_error h.mutex rt usesFp priority (.inl hcheck)]
    exact Grown.ok (Grows.refl b)
  | none =>
    cases htake : b.takeThread with
    | none =>
      rw [halCreateThread_error h.mutex rt usesFp priority (.inr ⟨hcheck, htake, rfl⟩)]
      exact Grown.ok (Grows.refl b)
    | some x =>
      obtain ⟨new, threads, top⟩ := x
      obtain ⟨cell, base, -, hrun⟩ := halCreateThread_taken h.mutex rt usesFp priority hcheck htake
      obtain ⟨hpool, ⟨hbot, htop⟩, es, -, -, hes⟩ := h.takeThread htake
      rw [hrun]
      split
      · intro r b' hfinish
        have hgrows : b.Grows (b.withThread new ⟨new :: b.threads.list, threads.free, cell⟩ top base) :=
          { Grows.refl b with }
        exact hgrows.trans (finishThread_grown (h.withThread hbot htop hpool hes base) rt new name r b' hfinish)
      · exact Grown.ok { Grows.refl b with }

theorem ThreadsFreed.grows (h : ThreadsFreed b b') : b.Grows b' := by
  have hframe := h.frame
  refine ⟨?_, ?_, ?_, ?_⟩
  · rw [hframe]
    exact fun _ hc => hc
  · rw [hframe]
    exact PoolGrows.refl _
  · rw [hframe]
    exact PoolGrows.refl _
  · refine PoolGrows.of_list (by rw [hframe]) fun p _ => ?_
    rw [h.cell p]

theorem halThreadDelete_grown (h : b.Sound) (name : CString) : b.Grown (b.halThreadDelete name) := by
  cases hdead : b.deletesComponent name with
  | true =>
    rw [halThreadDelete_deadlock h.mutex hdead]
    exact Grown.error _
  | false =>
    rcases halThreadDelete_eq h hdead with ⟨r, hrun⟩ | ⟨b', hrun, -, hfreed⟩
    · rw [hrun]
      exact Grown.ok (Grows.refl b)
    · rw [hrun]
      exact Grown.ok hfreed.grows

theorem halAppExit_grown (h : b.Sound) : b.Grown b.halAppExit := by
  obtain ⟨b', hrun, -, hfreed⟩ := halAppExit_eq h
  rw [hrun]
  exact Grown.ok hfreed.grows

theorem halAddFunctToThread_grown (h : b.Sound) (functName threadName : Option CString) (position : Int) :
    b.Grown (b.halAddFunctToThread functName threadName position) := by
  have hlink : ∀ (d : HalBlock) (funct entry new : Int), d.comps = b.comps → d.pins = b.pins → d.params = b.params →
      d.functs = b.functs → b.Grows (d.linkEntry funct entry new) := by
    intro d funct entry new hcomps hpins hparams hfuncts
    refine ⟨fun c hc => hcomps ▸ hc, hpins ▸ PoolGrows.refl _, hparams ▸ PoolGrows.refl _, ?_⟩
    refine PoolGrows.of_list (by rw [← hfuncts]; rfl) fun p _ => ?_
    show (Function.update d.functs.cell funct _ p).owner = _
    rw [hfuncts]
    by_cases hp : p = funct
    · rw [hp, Function.update_self]
    · rw [Function.update_of_ne hp]
  rw [halAddFunctToThread_eq h.mutex]
  split
  · exact Grown.ok (Grows.refl b)
  · unfold allocFunctEntryStruct
    dsimp only
    split
    · exact Grown.ok (hlink _ _ _ _ rfl rfl rfl rfl)
    split
    · exact Grown.error _
    · exact Grown.ok (hlink _ _ _ _ rfl rfl rfl rfl)

theorem halDelFunctFromThread_grown (h : b.Sound) (functName threadName : Option CString) :
    b.Grown (b.halDelFunctFromThread functName threadName) := by
  rw [halDelFunctFromThread_eq h.mutex]
  split
  · exact Grown.ok (Grows.refl b)
  · rename_i funct thread _
    cases findEntry funct (functList thread) b halSize.toNat (b.links.next (functList thread)) with
    | error e => exact Grown.error e
    | ok found =>
      cases found with
      | none => exact Grown.ok (Grows.refl b)
      | some entry =>
        refine Grown.ok ?_
        unfold freeFunctEntryStruct setEntry
        dsimp only
        split
        · refine { Grows.refl b with functs := PoolGrows.of_list rfl fun p _ => ?_ }
          show (Function.update b.functs.cell _ _ p).owner = _
          by_cases hp : p = (b.entries entry).functPtr
          · rw [hp, Function.update_self]
          · rw [Function.update_of_ne hp]
        · exact { Grows.refl b with }

end HalBlock

variable {b b' : HalBlock} {c : BlockCall} {r : Int}

/-- Every call of a run but `hal_exit` lets the lists grow. -/
theorem BlockCall.run_grown (h : b.Sound) (hc : c.InRun) (hexit : ∀ compId, c ≠ .exit compId) : b.Grown (c.run b) := by
  have hsame : ∀ {d : HalBlock}, d.comps.list = b.comps.list → d.pins = b.pins → d.params = b.params →
      d.functs = b.functs → b.Grows d := by
    intro d hcomps hpins hparams hfuncts
    exact ⟨fun c hc => hcomps ▸ hc, hpins ▸ PoolGrows.refl _, hparams ▸ PoolGrows.refl _, hfuncts ▸ PoolGrows.refl _⟩
  have hnone : b.Grown (.ok (-einval, { b with mutex := false })) := Grown.ok (hsame rfl rfl rfl rfl)
  cases c with
  | init moduleId name => exact halInit_grown h moduleId name
  | exit compId => exact absurd rfl (hexit compId)
  | setUnready compId =>
    show b.Grown (b.halSetUnready compId)
    exact findComp_cases h.mutex hnone fun _ => Grown.ok (hsame rfl rfl rfl rfl)
  | ready compId => exact halReady_grown h compId
  | unready compId =>
    show b.Grown (b.halUnready compId)
    refine findComp_cases h.mutex hnone fun comp => ?_
    split <;> exact Grown.ok (hsame rfl rfl rfl rfl)
  | pinNew name type dataPtrAddr compId => exact halPinNew_grown h name type dataPtrAddr compId
  | pinNewf type dataPtrAddr compId name => exact halPinNewf_grown h type dataPtrAddr compId name
  | paramNew name type dir dataAddr compId => exact halParamNew_grown h name type dir dataAddr compId
  | paramFloatNewf dir dataAddr compId size name =>
    show b.Grown (b.halParamFloatNewf dir dataAddr compId size name)
    unfold halParamFloatNewf
    split
    · exact Grown.ok (Grows.refl b)
    · exact halParamNew_grown h _ _ _ _ _
  | exportFunct name funct arg usesFp reentrant compId =>
    exact halExportFunct_grown h name funct arg usesFp reentrant compId
  | exportFunctf size name funct arg usesFp reentrant compId =>
    show b.Grown (b.halExportFunctf size name funct arg usesFp reentrant compId)
    unfold halExportFunctf
    split
    · exact Grown.ok (Grows.refl b)
    · exact halExportFunct_grown h _ _ _ _ _ _
  | createThread rt name period usesFp priority => exact halCreateThread_grown h rt name period usesFp priority
  | threadDelete name => exact halThreadDelete_grown h name
  | addFunct functName threadName position => exact halAddFunctToThread_grown h functName threadName position
  | delFunct functName threadName => exact halDelFunctFromThread_grown h functName threadName
  | appMain moduleId memId => exact absurd hc id
  | appExit => exact halAppExit_grown h
  | setConstructor compId =>
    show b.Grown (b.halSetConstructor compId)
    exact findComp_cases h.mutex hnone fun _ => Grown.ok (hsame rfl rfl rfl rfl)
  | compName compId =>
    show b.Grown ((b.halCompName compId).map fun answer => (0, answer.2))
    unfold halCompName
    rw [rtapiMutexGet_free h.mutex]
    exact Grown.ok (hsame rfl rfl rfl rfl)
  | setLock lockType => exact Grown.ok (hsame rfl rfl rfl rfl)
  | getLock => exact Grown.ok (Grows.refl b)
  | startThreads =>
    show b.Grown (.ok (b.halSetThreadsRunning 1))
    unfold halSetThreadsRunning
    split <;> exact Grown.ok (hsame rfl rfl rfl rfl)
  | stopThreads =>
    show b.Grown (.ok (b.halSetThreadsRunning 0))
    unfold halSetThreadsRunning
    split <;> exact Grown.ok (hsame rfl rfl rfl rfl)
  | malloc size =>
    show b.Grown (b.halMalloc size)
    unfold halMalloc shmallocUp
    rw [rtapiMutexGet_free h.mutex]
    dsimp only
    split <;> exact Grown.ok (hsame rfl rfl rfl rfl)

/-! ### Components that leave -/

/-- Every pin, parameter and function belongs to a component on the list. -/
structure HalBlock.Owned (b : HalBlock) : Prop where
  pins : ∀ p ∈ b.pins.list, (b.pins.cell p).owner ∈ b.comps.list
  params : ∀ p ∈ b.params.list, (b.params.cell p).owner ∈ b.comps.list
  functs : ∀ p ∈ b.functs.list, (b.functs.cell p).owner ∈ b.comps.list

theorem PoolGrows.owned {α : Type} {owner : α → Int} {comps comps' : List Int} {pool pool' : HalPool α}
    (h : PoolGrows owner comps' pool pool') (hsub : ∀ c ∈ comps, c ∈ comps')
    (howned : ∀ p ∈ pool.list, owner (pool.cell p) ∈ comps) : ∀ p ∈ pool'.list, owner (pool'.cell p) ∈ comps' := by
  intro p hp
  rcases h.new p hp with hold | hnew
  · rw [h.kept p hold]
    exact hsub _ (howned p hold)
  · exact hnew

theorem HalBlock.Grows.owned (h : b.Grows b') (howned : b.Owned) : b'.Owned :=
  ⟨h.pins.owned h.comps howned.pins, h.params.owned h.comps howned.params, h.functs.owned h.comps howned.functs⟩

/-- Nothing of the component `comp` is left, and everything else is as it was, in the order it had. -/
structure ComponentGone (comp : Int) (b b' : HalBlock) : Prop where
  comps : b'.comps.list = b.comps.list.erase comp
  compCell : ∀ c ∈ b'.comps.list, b'.comps.cell c = b.comps.cell c
  pins : b'.pins.list = b.pins.list.filter fun p => (b.pins.cell p).owner ≠ comp
  pinCell : ∀ p ∈ b'.pins.list, b'.pins.cell p = b.pins.cell p
  params : b'.params.list = b.params.list.filter fun p => (b.params.cell p).owner ≠ comp
  paramCell : ∀ p ∈ b'.params.list, b'.params.cell p = b.params.cell p
  functs : b'.functs.list = b.functs.list.filter fun f => (b.functs.cell f).owner ≠ comp
  functCell : ∀ f ∈ b'.functs.list, b'.functs.cell f = b.functs.cell f
  threads : b'.threads = b.threads
  lists : ∀ t ∈ b.threads.list, b'.entriesOf (functList t) =
    (b.entriesOf (functList t)).filter fun e => (b.functs.cell (b.entries e).functPtr).owner ≠ comp
  entry : ∀ t ∈ b.threads.list, ∀ e ∈ b'.entriesOf (functList t), b'.entries e = b.entries e

/-- A call that finds its component and removes it leaves nothing of it, and a component that is new on the list owns
nothing that was there before. -/
structure BlockCall.Cleans (b : HalBlock) (c : BlockCall) (b' : HalBlock) : Prop where
  exit : ∀ compId comp, c = .exit compId → b.halprFindCompById compId = some comp → ComponentGone comp b b'
  pins : ∀ comp ∈ b'.comps.list, comp ∉ b.comps.list → ∀ p ∈ b.pins.list, (b'.pins.cell p).owner ≠ comp
  params : ∀ comp ∈ b'.comps.list, comp ∉ b.comps.list → ∀ p ∈ b.params.list, (b'.params.cell p).owner ≠ comp
  functs : ∀ comp ∈ b'.comps.list, comp ∉ b.comps.list → ∀ p ∈ b.functs.list, (b'.functs.cell p).owner ≠ comp

/-- The call is no `hal_exit` of a component that owns a pin. -/
def BlockCall.LeavesNoPin (b : HalBlock) (c : BlockCall) : Prop :=
  ∀ compId comp, c = .exit compId → b.halprFindCompById compId = some comp →
    ∀ p ∈ b.pins.list, (b.pins.cell p).owner ≠ comp

/-- What `hal_exit` leaves of a component that owns no pin. -/
theorem HalBlock.Emptied.gone (h : b.Sound) {comp : Int} {l₁ l₂ : List Int} {es es' : Int → List Int}
    (hcomps : b.comps.list = l₁ ++ comp :: l₂) (hes : b.EntriesIn b.functs.list b.threads.list b.threads.free es)
    (hok : b'.EntriesIn b'.functs.list b.threads.list b.threads.free es')
    (hout : Emptied comp (b.withoutComp (l₁ ++ l₂)) es b' es')
    (hpins : ∀ p ∈ b.pins.list, (b.pins.cell p).owner ≠ comp) : ComponentGone comp b b' := by
  have hpool : b'.pins = b.pins := by
    rw [hout.frame]
    rfl
  have hnodup : (l₁ ++ comp :: l₂).Nodup := hcomps ▸ (List.nodup_append.1 h.comps.nodup).1
  have hcompNot : comp ∉ l₁ ++ l₂ := (List.nodup_cons.1 (List.nodup_middle.1 hnodup)).1
  have hlist : b'.comps.list = l₁ ++ l₂ := hout.comps.1
  have hthread : ∀ t ∈ b.threads.list, b'.entriesOf (functList t) = es' (functList t) ∧
      b.entriesOf (functList t) = es (functList t) := by
    intro t ht
    have hroot := mem_ringRoots (List.mem_append_left b.threads.free ht)
    exact ⟨EntriesIn.entriesOf_eq hok hroot, EntriesIn.entriesOf_eq hes hroot⟩
  constructor
  · rw [hlist, hcomps, List.erase_append_right _ fun hmem => hcompNot
      (List.mem_append_left _ hmem), List.erase_cons_head]
  · intro d hd
    rw [hout.compCell d]
    · rfl
    · rintro rfl
      exact hcompNot (hlist ▸ hd)
  · rw [hpool]
    exact (List.filter_eq_self.2 fun p hp => decide_eq_true (hpins p hp)).symm
  · intro p _
    rw [hpool]
  · exact hout.params.1
  · exact hout.paramCell
  · exact hout.functs.1
  · exact hout.functCell
  · rw [hout.frame]
    rfl
  · intro t ht
    rw [(hthread t ht).1, (hthread t ht).2]
    exact hout.lists t ht
  · intro t ht e he
    exact hout.entry t ht e ((hthread t ht).1 ▸ he)

theorem ComponentGone.owned {comp : Int} (h : ComponentGone comp b b') (howned : b.Owned) : b'.Owned := by
  have hkept : ∀ owner : Int, owner ∈ b.comps.list → owner ≠ comp → owner ∈ b'.comps.list := by
    intro owner hmem hne
    rw [h.comps]
    exact (List.mem_erase_of_ne hne).2 hmem
  constructor
  · intro p hp
    rw [h.pinCell p hp]
    rw [h.pins, List.mem_filter] at hp
    exact hkept _ (howned.pins p hp.1) (by simpa using hp.2)
  · intro p hp
    rw [h.paramCell p hp]
    rw [h.params, List.mem_filter] at hp
    exact hkept _ (howned.params p hp.1) (by simpa using hp.2)
  · intro p hp
    rw [h.functCell p hp]
    rw [h.functs, List.mem_filter] at hp
    exact hkept _ (howned.functs p hp.1) (by simpa using hp.2)

/-- What a component that is new on the list owns was not there before. -/
theorem HalBlock.Grows.cleans (h : b.Grows b') (howned : b.Owned)
    (hexit : ∀ compId, c ≠ .exit compId) : c.Cleans b b' := by
  refine ⟨fun compId _ heq => absurd heq (hexit compId), ?_, ?_, ?_⟩
  · rintro comp - hnew p hp heq
    rw [h.pins.kept p hp] at heq
    exact hnew (heq ▸ howned.pins p hp)
  · rintro comp - hnew p hp heq
    rw [h.params.kept p hp] at heq
    exact hnew (heq ▸ howned.params p hp)
  · rintro comp - hnew p hp heq
    rw [h.functs.kept p hp] at heq
    exact hnew (heq ▸ howned.functs p hp)

theorem BlockCall.cleans_iff (h : b.Sound) (howned : b.Owned) (hc : c.InRun) (hrun : c.run b = .ok (r, b')) :
    (c.Cleans b b' ↔ c.LeavesNoPin b) ∧ (c.Cleans b b' → b'.Owned) := by
  -- only an exit can leave something behind, every other call lets the block grow
  by_cases hexit : ∃ compId, c = .exit compId
  · obtain ⟨compId, rfl⟩ := hexit
    cases hfind : b.halprFindCompById compId with
    | none =>
      have hsame : b' = b := by
        rw [show (BlockCall.exit compId).run b = b.halExit compId from rfl, halExit_none h.mutex hfind] at hrun
        cases hrun
        rfl
      have hvacuous : ∀ {P : Int → Prop} compId' comp, BlockCall.exit compId = .exit compId' →
          b.halprFindCompById compId' = some comp → P comp := by
        intro P compId' comp heq hsome
        cases heq
        rw [hfind] at hsome
        cases hsome
      subst hsame
      refine ⟨⟨fun _ => hvacuous, fun _ => ⟨hvacuous, ?_, ?_, ?_⟩⟩, fun _ => howned⟩
      all_goals exact fun comp hmem hnot => absurd hmem hnot
    | some comp =>
      obtain ⟨es, hes⟩ := h.entries
      obtain ⟨b'', es', l₁, l₂, hspec, hcomps, hok, hout⟩ := halExit_frees h hes hfind
      rw [show (BlockCall.exit compId).run b = b.halExit compId from rfl, hspec] at hrun
      cases hrun
      have hnew : ∀ d ∈ b'.comps.list, d ∈ b.comps.list := by
        intro d hd
        rw [hout.comps.1] at hd
        rw [hcomps]
        exact (List.Sublist.append_left (List.sublist_cons_self comp l₂) l₁).subset hd
      refine ⟨⟨fun hclean => ?_, fun hleaves => ?_⟩, fun hclean => (hclean.exit compId comp rfl hfind).owned howned⟩
      · intro compId' comp' heq hsome p hp
        cases heq
        have hgone := (hclean.exit compId comp' rfl hsome).pins
        have hpool : b'.pins = b.pins := by
          rw [hout.frame]
          rfl
        rw [hpool] at hgone
        have hmem := hgone ▸ hp
        exact by simpa using (List.mem_filter.1 hmem).2
      · refine ⟨fun compId' comp' heq hsome => ?_, ?_, ?_, ?_⟩
        · cases heq
          rw [hfind] at hsome
          cases hsome
          exact hout.gone h hcomps hes hok (hleaves compId comp rfl hfind)
        all_goals exact fun d hd hnot => absurd (hnew d hd) hnot
  · have hne : ∀ compId, c ≠ .exit compId := fun compId heq => hexit ⟨compId, heq⟩
    have hgrows := BlockCall.run_grown h hc hne r b' hrun
    refine ⟨⟨fun _ compId _ heq => absurd heq (hne compId), fun _ => hgrows.cleans howned hne⟩,
      fun _ => hgrows.owned howned⟩

/-- In a run from an empty registry every `hal_exit` removes all its component owns, and no component owns what was
there before it, exactly if no `hal_exit` finds a pin of its component. -/
theorem hal_exit_cleans_iff (h : b.Empty) {cs : List BlockCall} (hcs : ∀ c ∈ cs, c.InRun) :
    AllCalls BlockCall.call (fun b c _ b' => c.Cleans b b') cs b ↔
      AllCalls BlockCall.call (fun b c _ _ => c.LeavesNoPin b) cs b := by
  refine AllCalls.iff_of_mem (I := fun b => b.Sound ∧ b.Owned) ?_ ?_ ⟨h.sound, ?_⟩
  · rintro b c r b' hc ⟨hsound, howned⟩ hcall
    exact (BlockCall.cleans_iff hsound howned (hcs c hc) (BlockCall.call_eq_some.1 hcall)).1
  · rintro b c r b' hc ⟨hsound, howned⟩ hcall hclean
    have hrun := BlockCall.call_eq_some.1 hcall
    exact ⟨BlockCall.run_sound hsound (hcs c hc) hrun,
      (BlockCall.cleans_iff hsound howned (hcs c hc) hrun).2 hclean⟩
  · constructor
    · rw [h.pins.1]
      simp
    · rw [h.params.1]
      simp
    · rw [h.functs.1]
      simp

/-- A component with a pin, which leaves. -/
def pinCalls : List BlockCall := [.init 1 (some [97]), .malloc 16, .pinNew [112] .bit 256 1]

theorem pinCalls_inRun : ∀ c ∈ pinCalls, c.InRun := by
  intro c hc
  simp only [pinCalls, List.mem_cons, List.not_mem_nil, or_false] at hc
  rcases hc with rfl | rfl | rfl
  · exact trivial
  · show (0 : Int) ≤ 16
    decide
  · exact trivial

theorem hal_exit_cleans_iff_pinCalls :
    AllCalls BlockCall.call (fun b c _ b' => c.Cleans b b') (pinCalls ++ [.exit 1]) zeroBlock.initialised ↔
      AllCalls BlockCall.call (fun b c _ _ => c.LeavesNoPin b) (pinCalls ++ [.exit 1]) zeroBlock.initialised := by
  refine hal_exit_cleans_iff zeroBlock_empty fun c hc => ?_
  rcases List.mem_append.1 hc with hc | hc
  · exact pinCalls_inRun c hc
  · rw [List.mem_singleton.1 hc]
    exact trivial

/-- The pin outlives its component. -/
theorem hal_exit_keeps_pin :
    ¬ AllCalls BlockCall.call (fun b c _ b' => c.Cleans b b') (pinCalls ++ [.exit 1]) zeroBlock.initialised := by
  intro h
  have hrun : ((runCalls BlockCall.call pinCalls zeroBlock.initialised).bind fun x =>
      (BlockCall.call (.exit 1) x.2).map fun y =>
        (x.2.halprFindCompById 1, x.2.pins.list, (x.2.pins.cell 1048352).owner, y.2.pins.list)) =
      some (some 1048464, [1048352], 1048464, [1048352]) := by
    decide +kernel
  obtain ⟨⟨rs, b⟩, hcalls, hrest⟩ := Option.bind_eq_some_iff.1 hrun
  obtain ⟨⟨r, b'⟩, hexit, heq⟩ := Option.map_eq_some_iff.1 hrest
  simp only [Prod.mk.injEq] at heq
  obtain ⟨hfind, hpins, howner, hpins'⟩ := heq
  have hgone := ((h.last hcalls hexit).exit 1 1048464 rfl hfind).pins
  rw [hpins, hpins'] at hgone
  simp [howner] at hgone

end SoemMotion
