import SoemMotion.HalAlike

/-!
# What was left in the memory

A structure is emptied when it is handed out, all but the old name of a pin or a parameter, so a run does not depend on
what was left in the memory: a call of one of two blocks that are alike is the same call of the other, unless it frees
a structure with an old name (`Matches`).  `init_hal_data` leaves the lists of pins as they were, and needs a free
mutex.
-/

namespace SoemMotion

open Lib HalBlock

namespace HalBlock

variable {old z b z' z'' : HalBlock} {S : Int → HalBlock → Prop}

/-! ### Components -/

theorem halInit_matches (h : old.Alike z b) (hz : z.Sound) (moduleId : Int) (name : Option CString) :
    Matches old S (z.halInit moduleId name) (b.halInit moduleId name) := by
  rw [halInit_eq hz.mutex, halInit_eq (h.mutex.trans hz.mutex), h.compError]
  cases z.compError moduleId name with
  | some e => exact Matches.ok h
  | none =>
    dsimp only
    obtain ⟨F, hpool⟩ := h.comps
    have htake : b.takeComp =
        b.comps.alloc 104 (fun p => { p with compId := 0, type := .user, name := [] }) z.shmemBot z.shmemTop := by
      rw [← h.shmemBot, ← h.shmemTop]
      rfl
    rw [htake]
    cases halloc : z.takeComp with
    | none =>
      rw [hpool.alloc_none halloc]
      exact Matches.ok h
    | some x =>
      obtain ⟨comp, comps, top⟩ := x
      obtain ⟨comps', halloc', hlist', hfree', hcell', hin⟩ := hpool.alloc_some halloc
      obtain ⟨htakes, hlist, hcell⟩ := HalPool.alloc_takes halloc
      obtain ⟨-, hbot, htop, -⟩ := hz.comps.takes htakes (by decide) hz.memory.2
      rw [halloc']
      have hput : putComp moduleId comp comps = ⟨comp :: comps.list, comps.free,
          Function.update z.comps.cell comp ⟨moduleId, .realtime, 0, []⟩⟩ := by
        simp [putComp, HalPool.set, hcell]
      have hput' : putComp moduleId comp comps' = ⟨comp :: comps.list, comps.free,
          Function.update b.comps.cell comp ⟨moduleId, .realtime, 0, []⟩⟩ := by
        simp [putComp, HalPool.set, hcell', hlist', hfree']
      have hplaced : PoolAlike Eq (fun p => F p ∨ p = comp) (putComp moduleId comp comps)
          (putComp moduleId comp comps') := by
        rw [hput, hput']
        refine hpool.update rfl fun p hp => ?_
        rcases List.mem_cons.1 hp with rfl | hp
        · exact .inr rfl
        · exact .inl (hin p hp)
      dsimp only
      exact Matches.ok ((h.lower (hz.memory.1.trans hbot) htop).withComps hplaced)

theorem findComp_matches (h : old.Alike z b) (hz : z.Sound) {compId : Int}
    {k : Int → HalBlock → HalRun (Int × HalBlock)}
    (hk : ∀ comp ∈ z.comps.list, Matches old S (k comp { z with mutex := true }) (k comp { b with mutex := true })) :
    Matches old S
      (z.rtapiMutexGet fun z =>
        match z.halprFindCompById compId with
        | none => .ok (-einval, z.rtapiMutexGive)
        | some comp => k comp z)
      (b.rtapiMutexGet fun b =>
        match b.halprFindCompById compId with
        | none => .ok (-einval, b.rtapiMutexGive)
        | some comp => k comp b) := by
  rw [rtapiMutexGet_free hz.mutex, rtapiMutexGet_free (h.mutex.trans hz.mutex), (h.withMutex true).findComp]
  cases hfind : { z with mutex := true }.halprFindCompById compId with
  | none => exact Matches.ok (h.withMutex false)
  | some comp => exact hk comp (findComp_mem hfind)

theorem halSetUnready_matches (h : old.Alike z b) (hz : z.Sound) (compId : Int) :
    Matches old S (z.halSetUnready compId) (b.halSetUnready compId) :=
  findComp_matches h hz fun comp _ => Matches.ok ((h.setComp comp fun p => { p with ready := 0 }).withMutex false)

theorem halReady_matches (h : old.Alike z b) (hz : z.Sound) (compId : Int) :
    Matches old S (z.halReady compId) (b.halReady compId) := by
  refine findComp_matches h hz fun comp hcomp => ?_
  dsimp only
  rw [h.compCell hcomp]
  split
  · exact Matches.ok (h.withMutex false)
  · exact Matches.ok ((h.setComp comp fun p => { p with ready := 1 }).withMutex false)

theorem halUnready_matches (h : old.Alike z b) (hz : z.Sound) (compId : Int) :
    Matches old S (z.halUnready compId) (b.halUnready compId) := by
  refine findComp_matches h hz fun comp hcomp => ?_
  dsimp only
  rw [h.compCell hcomp]
  split
  · exact Matches.ok (h.withMutex false)
  · exact Matches.ok ((h.setComp comp fun p => { p with ready := 0 }).withMutex false)

theorem halSetConstructor_matches (h : old.Alike z b) (hz : z.Sound) (compId : Int) :
    Matches old S (z.halSetConstructor compId) (b.halSetConstructor compId) :=
  findComp_matches h hz fun _ _ => Matches.ok (h.withMutex false)

theorem halCompName_matches (h : old.Alike z b) (hz : z.Sound) (compId : Int) :
    Matches old S ((z.halCompName compId).map fun (_, b) => (0, b))
    ((b.halCompName compId).map fun (_, b) => (0, b)) := by
  unfold halCompName
  rw [rtapiMutexGet_free hz.mutex, rtapiMutexGet_free (h.mutex.trans hz.mutex)]
  exact Matches.ok (h.withMutex false)

/-! ### Pins and parameters -/

/-- What is free after a structure has been taken was free before. -/
theorem free_subset {α : Type} {size bot top new top' : Int} {pool : HalPool α} {free : List Int}
    (h : HalPool.Takes size bot top pool new free top') : ∀ p ∈ free, p ∈ pool.free := by
  intro p hp
  rcases h.source with ⟨hfree, -⟩ | ⟨-, hfree, -, -⟩
  · rw [hfree]
    exact List.mem_cons_of_mem _ hp
  · rw [hfree] at hp
    cases hp

/-- What was on the lists of a pool still is when a structure has been taken and freed. -/
theorem takes_handed {α : Type} {size bot top new top' : Int} {pool : HalPool α} {free : List Int}
    (h : HalPool.Takes size bot top pool new free top') {p : Int} (hp : p ∈ pool.list ++ pool.free) :
    p ∈ pool.list ++ new :: free := by
  rcases h.source with ⟨hfree, -⟩ | ⟨hfree, -, -, -⟩
  · rwa [hfree] at hp
  · rw [hfree, List.append_nil] at hp
    exact List.mem_append_left _ hp

/-- What was on the lists of a pool still is when a structure has been taken and placed. -/
theorem takes_placed {α : Type} {size bot top new top' : Int} {pool : HalPool α} {free l₁ l₂ : List Int}
    (h : HalPool.Takes size bot top pool new free top') (hsplit : pool.list = l₁ ++ l₂) {p : Int}
    (hp : p ∈ pool.list ++ pool.free) : p ∈ (l₁ ++ new :: l₂) ++ free := by
  have hperm : ((l₁ ++ l₂) ++ new :: free).Perm ((l₁ ++ new :: l₂) ++ free) :=
    List.perm_middle.trans (List.perm_middle.append_right free).symm
  have := takes_handed h hp
  rw [hsplit] at this
  exact hperm.mem_iff.1 this

theorem oldname_release {α : Type} (oldname : α → Int) {pool : HalPool α} {f : α → α}
    (hf : ∀ a, oldname (f a) = oldname a)
    (new p : Int) : oldname ((pool.release new f).cell p) = oldname (pool.cell p) := oldname_update rfl (hf _) p

theorem halPinNew_matches (h : old.Alike z b) (hz : z.Sound) (name : CString) (type : HalType) (addr compId : Int) :
    Matches old old.StalePin (z.halPinNew name type addr compId) (b.halPinNew name type addr compId) := by
  rw [halPinNew_eq hz.mutex, halPinNew_eq (h.mutex.trans hz.mutex), h.itemOwner]
  cases z.itemOwner name (type.isValue || type == .port) addr compId with
  | error e => exact Matches.ok h
  | ok comp =>
    dsimp only
    obtain ⟨F, hpool⟩ := h.pins
    have hput' : b.putPin name type addr comp = b.pins.put 104
        (fun p => { p with dataPtrAddr := 0, owner := 0, type := .uninitialized, name := [] })
        (fun p => { p with dataPtrAddr := addr, owner := comp, type := type, name := snprintf (halNameLen + 1) name })
        PinStruct.name z.shmemBot z.shmemTop := by
      rw [← h.shmemBot, ← h.shmemTop]
      rfl
    have hput : PutAlike PinStruct.Same (z.putPin name type addr comp) (b.putPin name type addr comp) := by
      rw [hput']
      refine hpool.put (fun _ _ => rfl) fun p q hpq => ?_
      rw [hpq]
    generalize hzput : z.putPin name type addr comp = x at hput ⊢
    generalize hbput : b.putPin name type addr comp = y at hput ⊢
    cases hput with
    | full => exact Matches.ok h
    | taken hpool hnew =>
      rename_i G new top pins pins'
      obtain ⟨htaken, -⟩ := HalPool.put_taken hzput
      obtain ⟨htaken', -⟩ := HalPool.put_taken hbput
      obtain ⟨-, hbot, htop, -⟩ := hz.pins.takes htaken.takes (by decide) hz.memory.2
      have hzname : (pins.cell new).oldname = 0 := oldname_of_cell hz.pinNames htaken.cell rfl new
      have hbname : ∀ p, (pins'.cell p).oldname = (old.pins.cell p).oldname :=
        fun p => (oldname_update htaken'.cell rfl p).trans (h.pinNames p)
      dsimp only
      rw [if_neg (not_not.2 hzname)]
      by_cases hold : (old.pins.cell new).oldname = 0
      · rw [if_neg (not_not.2 ((hbname new).trans hold))]
        have hnames : ∀ p, ((pins'.release new fun p => { p with
            dataPtrAddr := 0, owner := 0, type := .uninitialized, name := [] }).cell p).oldname =
            (old.pins.cell p).oldname := by
          refine fun p => Eq.trans ?_ (hbname p)
          refine oldname_release PinStruct.oldname ?_ new p
          exact fun _ => rfl
        refine Matches.ok ((h.lower (hz.memory.1.trans hbot) htop).withPins
          (hpool.release hnew fun p q hpq => ?_) hnames ?_ _ _)
        · rw [hpq]
          rfl
        · intro p hp
          rcases List.mem_cons.1 hp with rfl | hp
          · exact hold
          · exact h.freedPins p (free_subset htaken.takes p hp)
      · rw [if_pos (by rw [hbname]; exact hold)]
        exact .inr ⟨rfl, by decide, new, List.mem_cons_self, hold⟩
    | placed hpool =>
      obtain ⟨htaken, -⟩ := HalPool.put_placed hzput
      obtain ⟨htaken', -⟩ := HalPool.put_placed hbput
      obtain ⟨-, hbot, htop, -⟩ := hz.pins.takes htaken.takes (by decide) hz.memory.2
      exact Matches.ok ((h.lower (hz.memory.1.trans hbot) htop).withPins hpool
        (fun p => (oldname_update htaken'.cell rfl p).trans (h.pinNames p))
        (fun p hp => h.freedPins p (free_subset htaken.takes p hp)) _ _)

theorem halPinNewf_matches (h : old.Alike z b) (hz : z.Sound) (type : HalType) (addr compId : Int) (name : CString) :
    Matches old old.StalePin (z.halPinNewf type addr compId name) (b.halPinNewf type addr compId name) := by
  unfold halPinNewf
  split
  · exact Matches.ok h
  · exact halPinNew_matches h hz name type addr compId

/-- The parameters that had been handed out still are after `hal_param_new`. -/
theorem halParamNew_hands (hz : z.Sound) (name : CString) (type : HalType) (dir : HalParamDir) (addr compId : Int) :
    ∃ r z', z.halParamNew name type dir addr compId = .ok (r, z') ∧
      ∀ p ∈ z.params.list ++ z.params.free, p ∈ z'.params.list ++ z'.params.free := by
  obtain ⟨r, z', hrun, -⟩ := halParamNew_returns hz name type dir addr compId
  refine ⟨r, z', hrun, ?_⟩
  rw [halParamNew_eq hz.mutex] at hrun
  split at hrun
  · cases hrun
    exact fun _ hp => hp
  · split at hrun
    · cases hrun
      exact fun _ hp => hp
    · rename_i new params top hput
      split at hrun
      · cases hrun
      cases hrun
      obtain ⟨htaken, hlist⟩ := HalPool.put_taken hput
      intro p hp
      show p ∈ params.list ++ new :: params.free
      rw [hlist]
      exact takes_handed htaken.takes hp
    · rename_i new params top hput
      cases hrun
      obtain ⟨htaken, l₁, l₂, hsplit, hlist⟩ := HalPool.put_placed hput
      intro p hp
      show p ∈ params.list ++ params.free
      rw [hlist]
      exact takes_placed htaken.takes hsplit hp

theorem halParamNew_matches (h : old.Alike z b) (hz : z.Sound) (name : CString) (type : HalType) (dir : HalParamDir)
    (addr compId : Int) :
    Matches old old.StaleParam (z.halParamNew name type dir addr compId) (b.halParamNew name type dir addr compId) := by
  rw [halParamNew_eq hz.mutex, halParamNew_eq (h.mutex.trans hz.mutex), h.itemOwner]
  cases z.itemOwner name (type.isValue && dir != .other) addr compId with
  | error e => exact Matches.ok h
  | ok comp =>
    dsimp only
    obtain ⟨F, hpool⟩ := h.params
    have hput' : b.putParam name type dir addr comp = b.params.put 88
        (fun p => { p with dataPtr := 0, owner := 0, type := .uninitialized, name := [] })
        (fun p => { p with
          dataPtr := addr, owner := comp, type := type, dir := dir, name := snprintf (halNameLen + 1) name })
        ParamStruct.name z.shmemBot z.shmemTop := by
      rw [← h.shmemBot, ← h.shmemTop]
      rfl
    have hput :
      PutAlike ParamStruct.Same (z.putParam name type dir addr comp) (b.putParam name type dir addr comp) := by
      rw [hput']
      refine hpool.put (fun _ _ => rfl) fun p q hpq => ?_
      rw [hpq]
    generalize hzput : z.putParam name type dir addr comp = x at hput ⊢
    generalize hbput : b.putParam name type dir addr comp = y at hput ⊢
    cases hput with
    | full => exact Matches.ok h
    | taken hpool hnew =>
      rename_i G new top params params'
      obtain ⟨htaken, -⟩ := HalPool.put_taken hzput
      obtain ⟨htaken', -⟩ := HalPool.put_taken hbput
      obtain ⟨-, hbot, htop, -⟩ := hz.params.takes htaken.takes (by decide) hz.memory.2
      have hzname : (params.cell new).oldname = 0 := oldname_of_cell hz.paramNames htaken.cell rfl new
      have hbname : ∀ p, (params'.cell p).oldname = (old.params.cell p).oldname :=
        fun p => (oldname_update htaken'.cell rfl p).trans (h.paramNames p)
      dsimp only
      rw [if_neg (not_not.2 hzname)]
      by_cases hold : (old.params.cell new).oldname = 0
      · rw [if_neg (not_not.2 ((hbname new).trans hold))]
        have hnames : ∀ p, ((params'.release new fun p => { p with
            dataPtr := 0, owner := 0, type := .uninitialized, name := [] }).cell p).oldname =
            (old.params.cell p).oldname := by
          refine fun p => Eq.trans ?_ (hbname p)
          refine oldname_release ParamStruct.oldname ?_ new p
          exact fun _ => rfl
        refine Matches.ok ((h.lower (hz.memory.1.trans hbot) htop).withParams
          (hpool.release hnew fun p q hpq => ?_) hnames ?_)
        · rw [hpq]
          rfl
        · intro p hp
          rcases List.mem_cons.1 hp with rfl | hp
          · exact hold
          · exact h.freedParams p (free_subset htaken.takes p hp)
      · rw [if_pos (by rw [hbname]; exact hold)]
        exact .inr ⟨rfl, by decide, new, List.mem_cons_self, hold⟩
    | placed hpool =>
      obtain ⟨htaken, -⟩ := HalPool.put_placed hzput
      obtain ⟨htaken', -⟩ := HalPool.put_placed hbput
      obtain ⟨-, hbot, htop, -⟩ := hz.params.takes htaken.takes (by decide) hz.memory.2
      exact Matches.ok ((h.lower (hz.memory.1.trans hbot) htop).withParams hpool
        (fun p => (oldname_update htaken'.cell rfl p).trans (h.paramNames p))
        fun p hp => h.freedParams p (free_subset htaken.takes p hp))

theorem halParamFloatNewf_matches (h : old.Alike z b) (hz : z.Sound) (dir : HalParamDir) (addr compId size : Int)
    (name : CString) : Matches old old.StaleParam (z.halParamFloatNewf dir addr compId size name)
      (b.halParamFloatNewf dir addr compId size name) := by
  unfold halParamFloatNewf
  split
  · exact Matches.ok h
  · exact halParamNew_matches h hz name .float dir addr compId

/-! ### Functions -/

theorem finishFunct_matches (h : old.Alike z b) (hz : z.Sound) (new : Int) (name : CString) (compId : Int) :
    Matches old old.Stale (finishFunct new name compId z) (finishFunct new name compId b) := by
  refine (halPinNewf_matches h hz _ _ _ _).bind (halPinNewf_returns hz _ _ _ _)
    (fun r z b hz h => ?_) fun r z hz hpin => ?_
  · dsimp only
    split
    · exact Matches.ok h
    · refine (halParamNew_matches h hz _ _ _ _ _).bind (halParamNew_returns hz _ _ _ _ _) (fun r z b hz h => ?_)
        fun r z hz hparam => ?_
      · exact (halParamNew_matches h hz _ _ _ _ _).bind (halParamNew_returns hz _ _ _ _ _)
          (fun _ _ _ _ h => Matches.ok h)
          fun r z _ hparam => ⟨0, z, rfl, hparam.stale 0⟩
      -- the second parameter may be the structure that the first one left
      · obtain ⟨-, p, hp, hne⟩ := hparam
        obtain ⟨r', z', hrun, hkept⟩ := halParamNew_hands hz (tmaxIncreasedName name) .bit .ro (new + 60) compId
        refine ⟨0, z', ?_, .inr ⟨p, hkept p (List.mem_append_right _ hp), hne⟩⟩
        dsimp only
        rw [hrun]
        rfl
  · exact ⟨-einval, z, if_pos hpin.1, hpin.stale _⟩

/-- The functions have changed, and the entries are alike. -/
theorem Alike.withFuncts (h : old.Alike z b) {F : Int → Prop} {functs functs' : HalPool FunctStruct}
    (hpool : PoolAlike Eq F functs functs') {es : Int → List Int} (ptrs ptrs' : Int → Int)
    (hes : EntriesAlike functs.list z.threads.list z.threads.free es { z with functs := functs }
      { b with functs := functs' }) :
    old.Alike { z with functs := functs, ptrs := ptrs } { b with functs := functs', ptrs := ptrs' } :=
  { h with functs := ⟨F, hpool⟩, entries := ⟨es, hes⟩ }

theorem halExportFunct_matches (h : old.Alike z b) (hz : z.Sound) (name : CString)
    (funct arg usesFp reentrant compId : Int) :
    Matches old old.Stale (z.halExportFunct name funct arg usesFp reentrant compId)
      (b.halExportFunct name funct arg usesFp reentrant compId) := by
  rw [halExportFunct_eq hz.mutex, halExportFunct_eq (h.mutex.trans hz.mutex), h.functOwner]
  cases z.functOwner name compId with
  | error e => exact Matches.ok h
  | ok comp =>
    dsimp only
    obtain ⟨F, hpool⟩ := h.functs
    obtain ⟨es, hes⟩ := h.entries
    have hput : PutAlike Eq (z.putFunct name funct arg usesFp reentrant comp)
        (b.putFunct name funct arg usesFp reentrant comp) := by
      unfold putFunct
      rw [h.shmemBot, h.shmemTop]
      exact hpool.put (fun _ _ => rfl) fun p q hpq => by rw [hpq]
    generalize hzput : z.putFunct name funct arg usesFp reentrant comp = x at hput ⊢
    generalize hbput : b.putFunct name funct arg usesFp reentrant comp = y at hput ⊢
    cases hput with
    | full => exact Matches.ok h
    | taken hpool hnew =>
      rename_i G new top functs functs'
      obtain ⟨htaken, hlist⟩ := HalPool.put_taken hzput
      obtain ⟨htaken', hlist'⟩ := HalPool.put_taken hbput
      obtain ⟨hok, hbot, htop, -⟩ := hz.functs.takes htaken.takes (by decide) hz.memory.2
      have hfresh : new ∉ z.functs.list := fun hmem => (List.nodup_cons.1 hok.nodup).1 (List.mem_append_left _ hmem)
      have hlow := h.lower (hz.memory.1.trans hbot) htop
      -- releasing writes the cell once more, so nothing is left of what the export wrote
      have hcell : ∀ {functs₀ functs₁ : HalPool FunctStruct}, functs₁.cell = Function.update functs₀.cell new
            ⟨usesFp, comp, reentrant, 0, arg, funct, snprintf (halNameLen + 1) name⟩ →
          (functs₁.release new emptyFunct).cell = Function.update functs₀.cell new (emptyFunct (functs₁.cell new)) := by
        intro functs₀ functs₁ hupdate
        show Function.update functs₁.cell new _ = _
        rw [hupdate, Function.update_idem]
      have hleft := (EntriesOk.lower hes.left (hz.memory.1.trans hbot) htop).setFunct hfresh
        (emptyFunct (functs.cell new))
      have hright := (EntriesOk.lower hes.right (hz.memory.1.trans hbot)
        (htop.trans (le_of_eq h.shmemTop.symm))).setFunct
        hfresh (emptyFunct (functs'.cell new))
      rw [← hcell htaken.cell] at hleft
      rw [← hcell htaken'.cell] at hright
      have hlists : (functs.release new emptyFunct).list = z.functs.list := hlist
      rw [← hlists] at hleft hright
      exact Matches.ok (hlow.withFuncts (hpool.releaseEq hnew emptyFunct) _ _ ⟨hleft, hright, hes.data⟩)
    | placed hpool =>
      rename_i G new top functs functs'
      obtain ⟨htaken, l₁, l₂, hsplit, hlist⟩ := HalPool.put_placed hzput
      obtain ⟨htaken', -⟩ := HalPool.put_placed hbput
      obtain ⟨hok, hbot, htop, -⟩ := hz.functs.takes htaken.takes (by decide) hz.memory.2
      have hfresh : new ∉ z.functs.list := fun hmem => (List.nodup_cons.1 hok.nodup).1 (List.mem_append_left _ hmem)
      have hlow := h.lower (hz.memory.1.trans hbot) htop
      have hperm : functs.list.Perm (new :: z.functs.list) := by
        rw [hlist, hsplit]
        exact List.perm_middle
      have hnew := (hok.bound new List.mem_cons_self).1
      have hleft := (EntriesOk.lower hes.left (hz.memory.1.trans hbot) htop).addFunct hfresh hnew
        (x := ⟨usesFp, comp, reentrant, 0, arg, funct, snprintf (halNameLen + 1) name⟩) rfl hperm
      have hright := (EntriesOk.lower hes.right (hz.memory.1.trans hbot)
        (htop.trans (le_of_eq h.shmemTop.symm))).addFunct
        hfresh hnew (x := ⟨usesFp, comp, reentrant, 0, arg, funct, snprintf (halNameLen + 1) name⟩) rfl hperm
      rw [← htaken.cell] at hleft
      rw [← htaken'.cell] at hright
      have halike : old.Alike { z with functs := functs, shmemTop := top }
        { b with functs := functs', shmemTop := top } :=
        hlow.withFuncts hpool z.ptrs b.ptrs ⟨hleft, hright, hes.data⟩
      exact finishFunct_matches halike (hz.placeFunct hzput) new name compId

theorem halExportFunctf_matches (h : old.Alike z b) (hz : z.Sound) (size : Int) (name : CString)
    (funct arg usesFp reentrant compId : Int) :
    Matches old old.Stale (z.halExportFunctf size name funct arg usesFp reentrant compId)
      (b.halExportFunctf size name funct arg usesFp reentrant compId) := by
  unfold halExportFunctf
  split
  · exact Matches.ok h
  · exact halExportFunct_matches h hz name funct arg usesFp reentrant compId

/-! ### Threads -/

/-- What the structure of a thread says of its component before it has one does not matter. -/
theorem finishThread_compId (hm : b.mutex = false) (rt : ThreadAnswer) (new : Int) (name : CString) (c : Int) :
    finishThread rt new name { b with threads := b.threads.set new fun p => { p with compId := c } } =
      finishThread rt new name b := by
  have hset : ∀ r, (b.threads.set new fun p => { p with compId := c }).set new (fun p => { p with compId := r }) =
      b.threads.set new fun p => { p with compId := r } := by
    intro r
    unfold HalPool.set
    simp only [Function.update_self, Function.update_idem]
  unfold finishThread
  rw [halInit_eq hm, halInit_eq (b := { b with threads := b.threads.set new fun p => { p with compId := c } }) hm]
  have herror : ({ b with threads := b.threads.set new fun p => { p with compId := c } } : HalBlock).compError
      rt.moduleId (some (pseudoName name)) = b.compError rt.moduleId (some (pseudoName name)) := rfl
  have htake : ({ b with threads := b.threads.set new fun p => { p with compId := c } } : HalBlock).takeComp =
      b.takeComp := rfl
  rw [herror, htake]
  cases b.compError rt.moduleId (some (pseudoName name)) with
  | some e =>
    dsimp only [Except.bind]
    rw [hset]
  | none =>
    dsimp only
    cases b.takeComp with
    | none =>
      dsimp only [Except.bind]
      rw [hset]
    | some x =>
      dsimp only [Except.bind]
      rw [hset]

theorem Alike.setThread (h : old.Alike z b) (t : Int) (f : ThreadStruct → ThreadStruct) :
    old.Alike { z with threads := z.threads.set t f } { b with threads := b.threads.set t f } := by
  obtain ⟨F, hpool⟩ := h.threads
  exact { h with threads := ⟨F, hpool.setEq t f⟩ }

theorem finishThread_matches (h : old.Alike z b) (hz : z.Sound) (rt : ThreadAnswer) (new : Int) (name : CString) :
    Matches old old.Stale (finishThread rt new name z) (finishThread rt new name b) := by
  refine (halInit_matches (S := fun _ _ => False) h hz _ _).bind (halInit_returns hz _ _) (fun compId z b hz h => ?_)
    fun _ _ _ h => h.elim
  have h' := h.setThread new fun p => { p with compId := compId }
  have hz' := hz.setThread new fun p => { p with compId := compId }
  dsimp only
  split
  · exact Matches.ok h'
  refine (halParamNew_matches h' hz' _ _ _ _ _).bind (halParamNew_returns hz' _ _ _ _ _) (fun r z b hz h => ?_)
    fun r z _ hparam => ⟨-einval, z, if_pos hparam.1, hparam.stale _⟩
  dsimp only
  split
  · exact Matches.ok h
  refine (halPinNewf_matches h hz _ _ _ _).bind (halPinNewf_returns hz _ _ _ _) (fun r z b hz h => ?_)
    fun r z _ hpin => ⟨-einval, z, if_pos hpin.1, hpin.stale _⟩
  dsimp only
  split
  · exact Matches.ok h
  · exact (halReady_matches (S := fun _ _ => False) h hz _).bind (halReady_returns hz _) (fun _ _ _ _ h => Matches.ok h)
      fun _ _ _ h => h.elim

/-- A new thread, in two blocks that are alike. -/
theorem Alike.withThread (h : old.Alike z b) {new top base : Int} (hbase : 256 ≤ top) (htop : top ≤ z.shmemTop)
    {F : Int → Prop} {threads threads' : HalPool ThreadStruct} (hpool : PoolAlike Eq F threads threads')
    {es : Int → List Int} (hleft : EntriesOk top z.functs.cell z.functs.list threads.list threads.free z.entries
      (z.links.init (functList new)) es)
    (hright : EntriesOk top b.functs.cell z.functs.list threads.list threads.free b.entries
    (b.links.init (functList new)) es)
    (hdata : ∀ t ∈ threads.list, ∀ e ∈ es (functList t), b.entries e = z.entries e) :
    old.Alike (z.withThread new threads top base) (b.withThread new threads' top base) :=
  { h.lower hbase htop with
    shmemTop := rfl, period := rfl, threads := ⟨F, hpool⟩, entries := ⟨es, hleft, hright, hdata⟩ }

theorem halCreateThread_matches (h : old.Alike z b) (hz : z.Sound) (rt : ThreadAnswer)
    (name : CString) (period : UInt64)
    (usesFp priority : Int) : Matches old old.Stale (z.halCreateThread rt name period usesFp priority)
      (b.halCreateThread rt name period usesFp priority) := by
  have hbm := h.mutex.trans hz.mutex
  cases hcheck : z.threadError name period with
  | some e =>
    rw [halCreateThread_error hz.mutex rt usesFp priority (.inl hcheck),
      halCreateThread_error hbm rt usesFp priority (.inl ((h.threadError name period).trans hcheck))]
    exact Matches.ok h
  | none =>
    have hcheck' := (h.threadError name period).trans hcheck
    obtain ⟨F, hpool⟩ := h.threads
    have htake' : b.takeThread = b.threads.alloc 120 (fun p =>
        { p with usesFp := 0, period := 0, priority := 0, taskId := 0, name := [] }) z.shmemBot z.shmemTop := by
      rw [← h.shmemBot, ← h.shmemTop]
      rfl
    cases htake : z.takeThread with
    | none =>
      rw [halCreateThread_error hz.mutex rt usesFp priority (.inr ⟨hcheck, htake, rfl⟩),
        halCreateThread_error hbm rt usesFp priority (.inr ⟨hcheck', htake'.trans (hpool.alloc_none htake), rfl⟩)]
      exact Matches.ok h
    | some x =>
      obtain ⟨new, threads, top⟩ := x
      obtain ⟨threads', halloc', hlist', hfree', hcell', hin⟩ := hpool.alloc_some htake
      obtain ⟨htakes, hlist, hcell⟩ := HalPool.alloc_takes htake
      obtain ⟨cell, base, ⟨hkept, rfl, hmade⟩, hrun⟩ := halCreateThread_taken hz.mutex rt usesFp priority hcheck htake
      obtain ⟨cell', base', ⟨hkept', rfl, hmade'⟩, hrun'⟩ :=
        halCreateThread_taken hbm rt usesFp priority hcheck' (htake'.trans halloc')
      obtain ⟨hok, hbot, htop, -⟩ := hz.threads.takes htakes (by decide) hz.memory.2
      obtain ⟨es, hes⟩ := h.entries
      have hbase := hz.memory.1.trans hbot
      -- the ring of the new thread, in both blocks
      have hleft := takesThread hes.left htakes hok hz.memory.1 hbot htop
      have hentries : EntriesOk z.shmemTop b.functs.cell z.functs.list z.threads.list z.threads.free b.entries
          b.links es := by
        rw [← h.shmemTop]
        exact hes.right
      have hright := takesThread hentries htakes hok hz.memory.1 hbot htop
      have hnew : Function.update es (functList new) [] (functList new) = [] := Function.update_self _ _ _
      have hdata : ∀ t ∈ new :: z.threads.list, ∀ e ∈ Function.update es (functList new) [] (functList t),
          b.entries e = z.entries e := by
        intro t ht e he
        by_cases htn : t = new
        · rw [htn, hnew] at he
          cases he
        · rw [Function.update_of_ne (mt functList_inj.1 htn)] at he
          exact hes.data t ((List.mem_cons.1 ht).resolve_left htn) e he
      have hne : ∀ p ∈ z.threads.list ++ threads.free, p ≠ new := by
        rintro p hp rfl
        exact (List.nodup_cons.1 hok.nodup).1 hp
      have hsame : ∀ p, F p ∧ p ≠ new → cell p = cell' p := by
        rintro p ⟨hF, hpn⟩
        rw [hkept p hpn, hkept' p hpn]
        exact hpool.cell p hF
      rw [hrun, hrun', h.taskRuns, h.basePeriod, h.threadList, hfree']
      split
      · rename_i htask
        -- the two structures agree but for the component, which is written next
        have hzm : (z.withThread new ⟨new :: z.threads.list, threads.free, cell⟩ top
            (z.basePeriod period)).mutex = false := hz.mutex
        have hbm' : (b.withThread new ⟨new :: z.threads.list, threads.free, cell'⟩ top
            (z.basePeriod period)).mutex = false := hbm
        rw [← finishThread_compId hzm rt new name 0, ← finishThread_compId hbm' rt new name 0]
        have hpool' : PoolAlike Eq (fun p => (F p ∧ p ≠ new) ∨ p = new)
            ((⟨new :: z.threads.list, threads.free, cell⟩ : HalPool ThreadStruct).set new fun p =>
            { p with compId := 0 })
            ((⟨new :: z.threads.list, threads.free, cell'⟩ : HalPool ThreadStruct).set new fun p =>
            { p with compId := 0 }) := by
          refine ⟨rfl, rfl, fun p hp => ?_, fun p hp => ?_⟩
          · rcases List.mem_cons.1 hp with rfl | hp
            · exact .inr rfl
            · exact .inl ⟨hin p (by rw [hlist]; exact hp), hne p hp⟩
          · show Function.update cell new _ p = Function.update cell' new _ p
            by_cases hpn : p = new
            · rw [hpn, Function.update_self, Function.update_self]
              dsimp only
              rw [hmade htask, hmade' ((h.taskRuns rt period).trans htask), hcell, hcell', Function.update_self,
                Function.update_self]
              rfl
            · rw [Function.update_of_ne hpn, Function.update_of_ne hpn]
              exact hsame p (hp.resolve_right hpn)
        exact finishThread_matches (h.withThread hbase htop hpool' hleft hright hdata)
          ((hz.withThread hbot htop hok hleft _).setThread new fun p => { p with compId := 0 }) rt new name
      · have hlost : ∀ {links : Links Int} {c : Int → FunctStruct} {entries : Int → FunctEntry},
            EntriesOk top c z.functs.list (new :: z.threads.list) threads.free entries links
              (Function.update es (functList new) []) →
            EntriesOk top c z.functs.list z.threads.list threads.free entries links
            (Function.update es (functList new) []) := by
          intro links c entries hentries
          have hretired : EntriesOk top c z.functs.list ([] ++ z.threads.list) (new :: threads.free) entries links
              (Function.update es (functList new) []) := EntriesOk.retire hentries hnew
          exact hretired.dropSpare (List.sublist_cons_self _ _)
        refine Matches.ok (h.withThread hbase htop ⟨rfl, rfl, fun p hp => ?_, hsame⟩ (hlost hleft) (hlost hright)
          fun t ht => hdata t (List.mem_cons_of_mem _ ht))
        exact ⟨hin p (by rw [hlist]; exact hp), hne p hp⟩

/-! ### Function entries -/

theorem halAddFunctToThread_matches (h : old.Alike z b) (hz : z.Sound) (functName threadName : Option CString)
    (position : Int) : Matches old S (z.halAddFunctToThread functName threadName position)
      (b.halAddFunctToThread functName threadName position) := by
  rw [halAddFunctToThread_eq hz.mutex, halAddFunctToThread_eq (h.mutex.trans hz.mutex), h.addPlace]
  cases hplace : z.addPlace functName threadName position with
  | error e => exact Matches.ok h
  | ok place =>
    obtain ⟨funct, thread, entry⟩ := place
    obtain ⟨hf, ht, -, hpoint⟩ := addPlace_ok hplace
    obtain ⟨es, hes⟩ := h.entries
    have hmem : 256 ≤ b.shmemBot ∧ b.shmemBot ≤ b.shmemTop ∧ b.shmemTop ≤ halSize := by
      rw [h.shmemBot, h.shmemTop]
      exact hz.memory
    dsimp only
    cases hfree : freeEntry es z.shmemBot z.shmemTop with
    | none =>
      have hfree' : freeEntry es b.shmemBot b.shmemTop = none := by rw [h.shmemBot, h.shmemTop, hfree]
      rw [allocFunctEntryStruct_null (allocEntry_none hes.left hfree),
        allocFunctEntryStruct_null (allocEntry_none hes.right hfree')]
      rfl
    | some taken =>
      obtain ⟨new, top, es'⟩ := taken
      have hfree' : freeEntry es b.shmemBot b.shmemTop = some (new, top, es') := by rw [h.shmemBot, h.shmemTop, hfree]
      obtain ⟨⟨links, halloc, hleft⟩, ⟨hbot, htop⟩, hbound, hnode, hlists⟩ := allocEntry_some hes.left hz.memory hfree
      obtain ⟨⟨links', halloc', hright⟩, -, -, -, -⟩ := allocEntry_some hes.right hmem hfree'
      obtain ⟨as, bs, xs, hsplit, hp⟩ := exists_place (insertionPoint_mem hes.left (List.mem_append_left _ ht) hpoint)
      rw [← hlists thread ht] at hsplit
      have hcell := h.functCell hf
      have hlinked := hleft.hook ht hf hsplit hp hnode hbound
        (x := ⟨(z.functs.cell funct).arg, (z.functs.cell funct).funct, funct⟩) rfl
      have hlinked' := hright.hook ht hf hsplit hp hnode hbound
        (x := ⟨(b.functs.cell funct).arg, (b.functs.cell funct).funct, funct⟩) rfl
      -- but for the new one, the entries of the threads were there before
      have hold : ∀ t ∈ z.threads.list,
          ∀ e ∈ Function.update es' (functList thread) (as ++ new :: bs) (functList t), e ≠ new →
          e ∈ es (functList t) := by
        intro t htmem e he hne
        rw [← hlists t htmem]
        by_cases hthread : t = thread
        · rw [hthread, Function.update_self] at he
          rw [hthread, hsplit]
          rcases List.mem_append.1 he with he | he
          · exact List.mem_append_left _ he
          · exact List.mem_append_right _ ((List.mem_cons.1 he).resolve_left hne)
        · rwa [Function.update_of_ne (mt functList_inj.1 hthread)] at he
      have hdata : ∀ t ∈ z.threads.list, ∀ e ∈ Function.update es' (functList thread) (as ++ new :: bs) (functList t),
          Function.update b.entries new ⟨(b.functs.cell funct).arg, (b.functs.cell funct).funct, funct⟩ e =
            Function.update z.entries new ⟨(z.functs.cell funct).arg, (z.functs.cell funct).funct, funct⟩ e := by
        intro t htmem e he
        by_cases hne : e = new
        · rw [hne, Function.update_self, Function.update_self, hcell]
        · rw [Function.update_of_ne hne, Function.update_of_ne hne]
          exact hes.data t htmem e (hold t htmem e he hne)
      obtain ⟨F, hpool⟩ := h.functs
      rw [halloc, halloc']
      dsimp only [Except.bind]
      unfold linkEntry
      dsimp only
      rw [Function.update_idem, Function.update_idem]
      exact Matches.ok { h.lower (hz.memory.1.trans hbot) htop with
        shmemTop := rfl
        functs := ⟨F, hpool.setEq funct fun p => { p with users := p.users + 1 }⟩
        entries := ⟨_, hlinked, hlinked', hdata⟩ }

theorem halDelFunctFromThread_matches (h : old.Alike z b) (hz : z.Sound) (functName threadName : Option CString) :
    Matches old S (z.halDelFunctFromThread functName threadName) (b.halDelFunctFromThread functName threadName) := by
  rw [halDelFunctFromThread_eq hz.mutex, halDelFunctFromThread_eq (h.mutex.trans hz.mutex), h.delPlace]
  cases hplace : z.delPlace functName threadName with
  | error e => exact Matches.ok h
  | ok place =>
    obtain ⟨funct, thread⟩ := place
    obtain ⟨-, ht⟩ := delPlace_ok hplace
    obtain ⟨es, hes⟩ := h.entries
    obtain ⟨F, hpool⟩ := h.functs
    have hts := List.mem_append_left z.threads.free ht
    have hsplit : es (functList thread) = [] ++ es (functList thread) := rfl
    have hlen := hes.left.length_lt (mem_ringRoots hts)
    have hsame : ((es (functList thread)).find? fun e => (b.entries e).functPtr = funct) =
        (es (functList thread)).find? fun e => (z.entries e).functPtr = funct :=
      List.find?_congr fun e he => by rw [hes.data thread ht e he]
    dsimp only
    rw [next_root hes.left hts, next_root hes.right hts, findEntry_spec hes.left hts hsplit hlen,
      findEntry_spec hes.right hts hsplit hlen, hsame]
    cases hfind : (es (functList thread)).find? fun e => (z.entries e).functPtr = funct with
    | none => exact Matches.ok h
    | some e =>
      obtain ⟨as, bs, hsplit⟩ := List.append_of_mem (List.mem_of_find?_eq_some hfind)
      obtain ⟨es', hwalk, -⟩ := hes.unhook hpool ht hsplit
      exact Matches.ok (h.walked hwalk)

end HalBlock

end SoemMotion
