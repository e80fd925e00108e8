import SoemMotion.HalNames
import SoemMotion.HalLeftover

/-!
# The component list as a view of the block

The component list of `HalComponents` leaves out what the names of the components do not depend on: the functions, the
function entries, and what the structures hold besides their names and owners.  It is what the block shows: `hal_init`,
`hal_exit`, `hal_ready`, `hal_param_s32_new` and `hal_pin_newf` answer the same on a sound block and on what that block
shows, and they go on alike.
-/

namespace SoemMotion

open Lib HalBlock

/-- What the block holds of a component: all but the name it was created under. -/
def HalComp.stored (comp : HalComp) : HalComp := { comp with createdAs := [] }

/-- A list of parameters or pins, and how many structures are free. -/
def HalPool.items {α : Type} (name : α → CString) (owner : α → Int) (pool : HalPool α) : HalItems :=
  ⟨pool.list.map fun p => ⟨name (pool.cell p), owner (pool.cell p)⟩, pool.free.length⟩

namespace HalBlock

def compAt (b : HalBlock) (p : Int) : HalComp :=
  ⟨p, (b.comps.cell p).compId, decide ((b.comps.cell p).ready ≠ 0), (b.comps.cell p).name, []⟩

def threadAt (b : HalBlock) (p : Int) : HalThread := ⟨(b.threads.cell p).name, (b.threads.cell p).compId⟩

theorem map_threadAt_congr {b b' : HalBlock} {l : List Int} (h : ∀ p ∈ l, b'.threads.cell p = b.threads.cell p) :
    l.map b'.threadAt = l.map b.threadAt :=
  List.map_congr_left fun p hp => by
    unfold threadAt
    rw [h p hp]

/-- The threads other than one that has been written. -/
theorem map_threadAt_update {b b' : HalBlock} {l : List Int} {t : Int} {x : ThreadStruct}
    (hcell : b'.threads.cell = Function.update b.threads.cell t x) (hnot : t ∉ l) :
    l.map b'.threadAt = l.map b.threadAt :=
  map_threadAt_congr fun p hp => by
    have hne : p ≠ t := fun he => hnot (he ▸ hp)
    rw [hcell, Function.update_of_ne hne]

/-- What the component list says is so in the block. -/
structure Shows (b : HalBlock) (data : HalData) : Prop where
  mutex : data.mutex = b.mutex
  lock : data.lock = b.lock
  memory : data.shmemBot = b.shmemBot ∧ data.shmemTop = b.shmemTop
  comps : data.compList.map HalComp.stored = b.comps.list.map b.compAt
  compFree : data.compFree.map HalComp.off = b.comps.free
  ready : ∀ p ∈ b.comps.list, (b.comps.cell p).ready = 0 ∨ (b.comps.cell p).ready = 1
  params : data.params = b.params.items ParamStruct.name ParamStruct.owner
  pins : data.pins = b.pins.items PinStruct.name PinStruct.owner
  threads : data.threadList = b.threads.list.map b.threadAt
  threadFree : data.threadFree = b.threads.free.length

/-- A call of the block and one of the component list answer the same, and go on alike; the base period is left. -/
def SameAnswer (period : Int) (run : HalRun (Int × HalBlock)) (out : Option (Int × HalData)) : Prop :=
  ∃ r b data, run = .ok (r, b) ∧ out = some (r, data) ∧ b.Sound ∧ b.Shows data ∧ b.period = period

variable {b : HalBlock} {data : HalData}

theorem SameAnswer.same (hs : b.Sound) (h : b.Shows data) (r : Int) :
    SameAnswer b.period (.ok (r, b)) (some (r, data)) := ⟨r, b, data, rfl, rfl, hs, h, rfl⟩

/-- What follows two calls that answer the same. -/
theorem SameAnswer.bind {period : Int} {run : HalRun (Int × HalBlock)} {out : Option (Int × HalData)}
    {k : Int × HalBlock → HalRun (Int × HalBlock)} {j : Int × HalData → Option (Int × HalData)}
    (h : SameAnswer period run out)
    (hk : ∀ r b data, b.Sound → b.Shows data → b.period = period → SameAnswer period (k (r, b)) (j (r, data))) :
    SameAnswer period (run.bind k) (out.bind j) := by
  obtain ⟨r, b, data, rfl, rfl, hs, hshows, hperiod⟩ := h
  exact hk r b data hs hshows hperiod

/-- The mutex is free, so it is taken and given back. -/
theorem Shows.withMutex {α : Type} (hs : b.Sound) (h : b.Shows data) (f : HalData → Option (α × HalData)) :
    data.withMutex f = (f (data.setMutex true)).map fun r => (r.1, r.2.setMutex false) :=
  HalData.withMutex_free (h.mutex.trans hs.mutex)

theorem Shows.take (h : b.Shows data) : { b with mutex := true }.Shows (data.setMutex true) := { h with mutex := rfl }

theorem Shows.give (h : { b with mutex := true }.Shows (data.setMutex true)) (hs : b.Sound) :
    b.Shows ((data.setMutex true).setMutex false) := { h with mutex := hs.mutex.symm }

/-! ### Looking a component up -/

theorem Shows.find? (h : b.Shows data) {f : HalComp → Bool} (hf : ∀ comp : HalComp, f comp.stored = f comp) :
    (data.compList.find? f).map HalComp.stored = (b.comps.list.find? fun p => f (b.compAt p)).map b.compAt := by
  have hstored : f ∘ HalComp.stored = f := funext hf
  have hleft : (data.compList.map HalComp.stored).find? f = (data.compList.find? f).map HalComp.stored := by
    rw [List.find?_map, hstored]
  have hright : (b.comps.list.map b.compAt).find? f = (b.comps.list.find? (f ∘ b.compAt)).map b.compAt :=
    List.find?_map
  rw [← hleft, h.comps, hright]
  rfl

theorem Shows.findByName (h : b.Shows data) (name : CString) :
    (SoemMotion.halprFindCompByName name data).isSome = (b.halprFindCompByName name).isSome := by
  have hfind := congrArg Option.isSome (h.find? (f := fun comp => comp.name == name) fun _ => rfl)
  rwa [Option.isSome_map, Option.isSome_map] at hfind

/-- A component is found in the one if it is found in the other, and they are the same one. -/
theorem Shows.findById (h : b.Shows data) (compId : Int) :
    (SoemMotion.halprFindCompById compId data).map HalComp.stored = (b.halprFindCompById compId).map b.compAt :=
  h.find? fun _ => rfl

theorem Shows.findById_none (h : b.Shows data) (compId : Int) (hfind : b.halprFindCompById compId = none) :
    SoemMotion.halprFindCompById compId data = none := by
  have hsame := h.findById compId
  rw [hfind, Option.map_none, Option.map_eq_none_iff] at hsame
  exact hsame

theorem Shows.findById_some (h : b.Shows data) (compId : Int) {p : Int} (hfind : b.halprFindCompById compId = some p) :
    ∃ comp, SoemMotion.halprFindCompById compId data = some comp ∧ comp.stored = b.compAt p := by
  have hsame := h.findById compId
  rw [hfind, Option.map_some, Option.map_eq_some_iff] at hsame
  exact hsame

/-! ### Taking a structure -/

theorem shmallocDn_eq (size : Int) (data : HalData) : SoemMotion.shmallocDn size data =
    (HalPool.shmallocDn size data.shmemBot data.shmemTop).map fun p => (p, { data with shmemTop := p }) := by
  unfold SoemMotion.shmallocDn HalPool.shmallocDn
  dsimp only
  split <;> rfl

/-- There is no component structure left in the one if there is none in the other. -/
theorem Shows.takeComp_none (h : b.Shows data) (htake : b.takeComp = none) :
    SoemMotion.halprAllocCompStruct data = none := by
  have hfree := h.compFree
  unfold takeComp HalPool.alloc at htake
  unfold SoemMotion.halprAllocCompStruct
  split at htake
  · cases htake
  · rename_i hnil
    rw [hnil, List.map_eq_nil_iff] at hfree
    rw [Option.map_eq_none_iff] at htake
    rw [hfree]
    dsimp only
    rw [shmallocDn_eq, h.memory.1, h.memory.2, htake]
    rfl

/-- The component structures that are taken are the same one. -/
theorem Shows.takeComp_some (h : b.Shows data) {p top : Int} {comps : HalPool CompStruct}
    (htake : b.takeComp = some (p, comps, top)) : ∃ comp free, free.map HalComp.off = comps.free ∧ comp.off = p ∧
      comp.name = [] ∧
      SoemMotion.halprAllocCompStruct data = some (comp, { data with compFree := free, shmemTop := top }) := by
  have hfree := h.compFree
  unfold takeComp HalPool.alloc at htake
  unfold SoemMotion.halprAllocCompStruct
  split at htake
  · rename_i q rest hcons
    cases htake
    rw [hcons, List.map_eq_cons_iff] at hfree
    obtain ⟨comp, free, hlist, hoff, hrest⟩ := hfree
    rw [hlist]
    refine ⟨{ comp with compId := 0, name := [] }, free, hrest, hoff, rfl, ?_⟩
    rw [← h.memory.2]
  · rename_i hnil
    rw [hnil, List.map_eq_nil_iff] at hfree
    obtain ⟨q, hq, heq⟩ := Option.map_eq_some_iff.1 htake
    cases heq
    rw [hfree]
    dsimp only
    rw [shmallocDn_eq, h.memory.1, h.memory.2, hq]
    refine ⟨⟨p, 0, false, [], []⟩, [], hnil.symm, rfl, rfl, ?_⟩
    rw [← hfree]
    rfl

/-! ### Components -/

theorem halInit_threads {r moduleId : Int} {name : Option CString} {b' : HalBlock} (hm : b.mutex = false)
    (h : b.halInit moduleId name = .ok (r, b')) : b'.threads = b.threads := by
  rw [halInit_eq hm] at h
  split at h
  · cases h
    rfl
  · split at h
    · cases h
      rfl
    · cases h
      rfl

/-- `hal_init` from the mutex on. -/
theorem Shows.insertComp (hs : b.Sound) (h : b.Shows data) {moduleId : Int} (hid : 0 ≤ moduleId) {name : CString}
    (hname : name.length ≤ halNameLen) : SameAnswer b.period (b.halInit moduleId (some name))
      (data.withMutex fun data => some (data.insertComp moduleId (snprintf (halNameLen + 1) name))) := by
  have hfind : (SoemMotion.halprFindCompByName (snprintf (halNameLen + 1) name) (data.setMutex true)).isSome =
      (b.halprFindCompByName (snprintf (halNameLen + 1) name)).isSome := h.take.findByName _
  have hreturns := halInit_returns hs moduleId (some name)
  rw [h.withMutex hs, Option.map_some]
  rw [halInit_eq hs.mutex] at hreturns ⊢
  unfold compError at hreturns ⊢
  unfold HalData.insertComp
  dsimp only at hreturns ⊢
  rw [if_neg (Nat.not_lt.2 hname), if_neg (Int.not_lt.2 hid)] at hreturns ⊢
  rw [hfind]
  by_cases htaken : (b.halprFindCompByName (snprintf (halNameLen + 1) name)).isSome
  · rw [if_pos htaken, if_pos htaken]
    exact .same hs (h.take.give hs) _
  rw [if_neg htaken] at hreturns ⊢
  rw [if_neg htaken]
  cases htake : b.takeComp with
  | none =>
    rw [h.take.takeComp_none htake]
    exact .same hs (h.take.give hs) _
  | some r =>
    obtain ⟨p, comps, top⟩ := r
    rw [htake] at hreturns
    obtain ⟨comp, free, hfree, hoff, hempty, halloc⟩ := h.take.takeComp_some (p := p) htake
    obtain ⟨htakes, hlist, hcell⟩ := HalPool.alloc_takes htake
    obtain ⟨hpool, -⟩ := hs.comps.takes htakes (by decide) hs.memory.2
    have hnot : p ∉ b.comps.list := fun hp => (List.nodup_cons.1 hpool.nodup).1 (List.mem_append_left _ hp)
    rw [halloc]
    obtain ⟨r, b', hrun, hsound⟩ := hreturns
    cases hrun
    -- the new component is at the head of both lists, and the others are as they were
    have hnew : (putComp moduleId p comps).cell p = ⟨moduleId, .realtime, 0, []⟩ := by
      unfold putComp HalPool.set
      simp only [hcell, Function.update_self]
    have hold : ∀ q ∈ b.comps.list, (putComp moduleId p comps).cell q = b.comps.cell q := by
      intro q hq
      have hqp : q ≠ p := fun he => hnot (he ▸ hq)
      unfold putComp HalPool.set
      simp only [hcell, Function.update_of_ne hqp]
    refine ⟨_, _, _, rfl, rfl, hsound, { h with
      mutex := hs.mutex.symm, memory := ⟨h.memory.1, rfl⟩, comps := ?_, compFree := hfree, ready := ?_ }, rfl⟩
    · show HalComp.stored _ :: data.compList.map HalComp.stored = _ :: comps.list.map _
      rw [hlist, h.comps]
      refine congrArg₂ List.cons ?_ (List.map_congr_left fun q hq => ?_)
      · unfold HalComp.stored compAt
        rw [hnew, hoff, hempty]
        rfl
      · unfold compAt
        rw [hold q hq]
    · intro q hq
      rcases List.mem_cons.1 hq with rfl | hq
      · exact .inl (congrArg CompStruct.ready hnew)
      · rw [hlist] at hq
        show ((putComp moduleId p comps).cell q).ready = 0 ∨ ((putComp moduleId p comps).cell q).ready = 1
        rw [hold q hq]
        exact h.ready q hq

theorem erase_middle {l₁ l₂ : List Int} {p : Int} (h : (l₁ ++ p :: l₂).Nodup) :
    (l₁ ++ p :: l₂).erase p = l₁ ++ l₂ := by
  have hnot : p ∉ l₁ := fun hp => (List.nodup_append.1 h).2.2 p hp p List.mem_cons_self rfl
  rw [List.erase_append_right _ hnot, List.erase_cons_head]

/-- The lists without the component that is found. -/
theorem Shows.eraseComp (h : b.Shows data) (hnodup : b.comps.list.Nodup) {compId p : Int} {l₁ l₂ : List Int}
    (hfind : b.halprFindCompById compId = some p) (hlist : b.comps.list = l₁ ++ p :: l₂) :
    (data.compList.eraseP fun comp => comp.compId == compId).map HalComp.stored = (l₁ ++ l₂).map b.compAt := by
  obtain ⟨l₃, l₄, hsplit, herase⟩ := eraseP_found hfind
  have hsame : b.comps.list.eraseP (fun p => (b.comps.cell p).compId == compId) = l₁ ++ l₂ := by
    rw [herase, ← erase_middle (hsplit ▸ hnodup), ← hsplit, hlist, erase_middle (hlist ▸ hnodup)]
  have hmap : (data.compList.map HalComp.stored).eraseP (fun comp => comp.compId == compId) =
      (data.compList.eraseP fun comp => comp.compId == compId).map HalComp.stored := List.eraseP_map
  rw [← hmap, h.comps, List.eraseP_map]
  exact congrArg (List.map b.compAt) hsame

theorem items_kept {α : Type} {name : α → CString} {owner : α → Int} (pool : HalPool α) {pool' : HalPool α} {p : Int}
    (hlist : pool'.list = pool.list.filter fun q => owner (pool.cell q) ≠ p)
    (hfree : pool'.free = (pool.list.filter fun q => owner (pool.cell q) = p).reverse ++ pool.free)
    (hcell : ∀ q ∈ pool'.list, pool'.cell q = pool.cell q) : pool'.items name owner =
      ⟨(pool.items name owner).list.filter fun item => item.owner != p, (pool.items name owner).free +
        ((pool.items name owner).list.length -
          ((pool.items name owner).list.filter fun item => item.owner != p).length)⟩ := by
  have hkept : (pool.items name owner).list.filter (fun item => item.owner != p) =
      pool'.list.map fun q => ⟨name (pool.cell q), owner (pool.cell q)⟩ := by
    unfold HalPool.items
    rw [List.filter_map, hlist]
    refine congrArg _ (List.filter_congr fun q _ => ?_)
    rw [decide_not]
    rfl
  rw [hkept]
  unfold HalPool.items
  rw [HalItems.mk.injEq]
  refine ⟨List.map_congr_left fun q hq => by rw [hcell q hq], ?_⟩
  rw [hfree, List.length_append, List.length_reverse, List.length_map, List.length_map, hlist]
  have hsum := List.length_eq_length_filter_add (l := pool.list) fun q => decide (owner (pool.cell q) = p)
  simp only [ne_eq, decide_not] at hsum ⊢
  omega

theorem Shows.halExit (hs : b.Sound) (h : b.Shows data) (compId : Int) :
    SameAnswer b.period (b.halExit compId) (data.halExit compId) := by
  unfold HalData.halExit
  rw [h.withMutex hs]
  cases hfind : b.halprFindCompById compId with
  | none =>
    rw [halExit_none hs.mutex hfind, h.take.findById_none compId hfind]
    exact .same hs (h.take.give hs) _
  | some p =>
    obtain ⟨es, hes⟩ := hs.entries
    obtain ⟨b', es', l₁, l₂, hrun, hlist, hok, hout⟩ := halExit_frees hs hes hfind
    have hsound := hs.emptied hlist hes hok hout
    obtain ⟨comp, hcomp, hstored⟩ := h.take.findById_some compId (p := p) hfind
    have hoff : comp.off = p := congrArg HalComp.off hstored
    have hnodup := (List.nodup_append.1 hs.comps.nodup).1
    have hother : ∀ q ∈ l₁ ++ l₂, q ≠ p ∧ q ∈ b.comps.list := by
      intro q hq
      rw [← erase_middle (hlist ▸ hnodup), ← hlist] at hq
      exact ⟨((hnodup.mem_erase_iff).1 hq).1, List.mem_of_mem_erase hq⟩
    have hframe : b'.mutex = b.mutex ∧ b'.lock = b.lock ∧ b'.shmemBot = b.shmemBot ∧ b'.shmemTop = b.shmemTop ∧
        b'.pins = b.pins ∧ b'.threads = b.threads ∧ b'.period = b.period := by
      rw [hout.frame]
      exact ⟨rfl, rfl, rfl, rfl, rfl, rfl, rfl⟩
    obtain ⟨hmutex, hlock, hbot, htop, hpins, hthreads, hperiod⟩ := hframe
    rw [hcomp, hrun]
    refine ⟨_, _, _, rfl, rfl, hsound, ⟨?_, ?_, ?_, ?_, ?_, ?_, ?_, ?_, ?_, ?_⟩, hperiod⟩
    · exact (hmutex.trans hs.mutex).symm
    · exact h.lock.trans hlock.symm
    · exact ⟨h.memory.1.trans hbot.symm, h.memory.2.trans htop.symm⟩
    · refine (h.eraseComp hnodup hfind hlist).trans ?_
      rw [hout.comps.1]
      refine List.map_congr_left fun q hq => ?_
      unfold compAt
      rw [hout.compCell q (hother q hq).1]
      rfl
    · rw [hout.comps.2]
      exact congrArg₂ List.cons hoff h.compFree
    · intro q hq
      rw [hout.comps.1] at hq
      rw [hout.compCell q (hother q hq).1]
      exact h.ready q (hother q hq).2
    · rw [items_kept b.params hout.params.1 hout.params.2 hout.paramCell, ← h.params, ← hoff]
      rfl
    · rw [hpins]
      exact h.pins
    · rw [hthreads]
      exact h.threads.trans (map_threadAt_congr fun q _ => congrArg (fun threads => threads.cell q) hthreads.symm)
    · rw [hthreads]
      exact h.threadFree

theorem Shows.offs (h : b.Shows data) : data.compList.map HalComp.off = b.comps.list := by
  have hoffs := congrArg (List.map HalComp.off) h.comps
  rw [List.map_map, List.map_map] at hoffs
  exact hoffs.trans (List.map_id _)

/-- Writing into the component that is found is writing into the one at its offset. -/
theorem modify_found {l : List HalComp} {comp : HalComp} {f : HalComp → Bool} (g : HalComp → HalComp)
    (hnodup : (l.map HalComp.off).Nodup) (hfind : l.find? f = some comp) :
    l.modify (l.findIdx f) g = l.map fun c => if c.off = comp.off then g c else c := by
  induction l with
  | nil => cases hfind
  | cons c l ih =>
    rw [List.map_cons, List.nodup_cons] at hnodup
    rw [List.find?_cons] at hfind
    rw [List.findIdx_cons, List.map_cons]
    cases hc : f c with
    | true =>
      rw [hc] at hfind
      have hother : ∀ d ∈ l, d.off ≠ c.off := fun d hd he => hnodup.1 (he ▸ List.mem_map_of_mem hd)
      have hrest : l.map (fun d => if d.off = c.off then g d else d) = l :=
        (List.map_congr_left fun d hd => if_neg (hother d hd)).trans (List.map_id l)
      rw [← Option.some.inj hfind, if_pos rfl, hrest]
      rfl
    | false =>
      rw [hc] at hfind
      have hne : c.off ≠ comp.off := fun he => hnodup.1 (he ▸ List.mem_map_of_mem (List.mem_of_find?_eq_some hfind))
      rw [if_neg hne]
      exact congrArg (c :: ·) (ih hnodup.2 hfind)

/-- The component that is found is marked as ready in both. -/
theorem Shows.markReady (hs : b.Sound) (h : b.Shows data) {f : HalComp → Bool} {comp : HalComp}
    (hfind : data.compList.find? f = some comp) :
    (data.compList.modify (data.compList.findIdx f) fun comp => { comp with ready := true }).map HalComp.stored =
      b.comps.list.map
        { b with comps := b.comps.set comp.off fun c : CompStruct => { c with ready := 1 } }.compAt := by
  obtain ⟨g, hg⟩ : ∃ g : HalComp → HalComp,
    g = fun c => if c.off = comp.off then { c with ready := true } else c := ⟨_, rfl⟩
  have hmodified := modify_found (fun comp => { comp with ready := true })
    (h.offs ▸ (List.nodup_append.1 hs.comps.nodup).1) hfind
  rw [← hg] at hmodified
  have hcommutes : HalComp.stored ∘ g = g ∘ HalComp.stored := by
    funext c
    rw [hg]
    exact apply_ite HalComp.stored (c.off = comp.off) _ _
  rw [hmodified, List.map_map, hcommutes, ← List.map_map, h.comps, List.map_map]
  refine List.map_congr_left fun q _ => ?_
  rw [hg]
  show (if q = comp.off then { b.compAt q with ready := true } else b.compAt q) = _
  unfold compAt HalPool.set
  split
  · rename_i hq
    subst hq
    simp only [Function.update_self]
    rfl
  · rename_i hq
    simp only [Function.update_of_ne hq]

theorem Shows.halReady (hs : b.Sound) (h : b.Shows data) (compId : Int) :
    SameAnswer b.period (b.halReady compId) (data.halReady compId) := by
  have hreturns := halReady_returns hs compId
  unfold HalData.halReady
  rw [h.withMutex hs]
  rw [halReady_eq hs.mutex] at hreturns ⊢
  cases hfind : b.halprFindCompById compId with
  | none =>
    rw [h.take.findById_none compId hfind]
    exact .same hs (h.take.give hs) _
  | some p =>
    obtain ⟨comp, hcomp, hstored⟩ := h.take.findById_some compId (p := p) hfind
    have hready : comp.ready = decide ((b.comps.cell p).ready ≠ 0) := congrArg HalComp.ready hstored
    have hmem : p ∈ b.comps.list := List.mem_of_find?_eq_some hfind
    rw [hfind] at hreturns
    rw [hcomp]
    dsimp only at hreturns ⊢
    rcases h.ready p hmem with hzero | hone
    · rw [if_neg (by omega)] at hreturns ⊢
      rw [hzero] at hready
      rw [hready, if_neg (by decide)]
      obtain ⟨r, b', hrun, hsound⟩ := hreturns
      cases hrun
      have hoff : comp.off = p := congrArg HalComp.off hstored
      refine ⟨_, _, _, rfl, rfl, hsound, { h with
        mutex := hs.mutex.symm, comps := (h.markReady hs hcomp).trans (hoff ▸ rfl), ready := ?_ }, rfl⟩
      intro q hq
      show ((b.comps.set p fun c => { c with ready := 1 }).cell q).ready = 0 ∨ _
      by_cases hqp : q = p
      · have hself : (b.comps.set p fun c => { c with ready := 1 }).cell p = { b.comps.cell p with ready := 1 } :=
          Function.update_self _ _ _
        rw [hqp, hself]
        exact .inr rfl
      · have hcell : (b.comps.set p fun c => { c with ready := 1 }).cell q = b.comps.cell q :=
          Function.update_of_ne hqp _ _
        rw [hcell]
        exact h.ready q hq
    · rw [if_pos (by omega)]
      rw [hone] at hready
      rw [hready, if_pos (by decide)]
      exact .same hs (h.take.give hs) _

/-! ### Parameters and pins -/

section Items

variable {α : Type} {size : Int} {empty write : α → α} {name : α → CString} {owner : α → Int} {pool pool' : HalPool α}
  {x : CString} {o new top : Int}

theorem items_alloc_none (h : pool.alloc size empty data.shmemBot data.shmemTop = none) :
    (pool.items name owner).alloc size data = none := by
  unfold HalPool.alloc at h
  unfold HalPool.items HalItems.alloc
  split at h
  · cases h
  · rename_i hfree
    rw [hfree]
    rw [Option.map_eq_none_iff] at h
    dsimp only [List.length_nil]
    rw [shmallocDn_eq, h]
    rfl

theorem items_alloc_some (h : pool.alloc size empty data.shmemBot data.shmemTop = some (new, pool', top)) :
    (pool.items name owner).alloc size data =
      some (⟨(pool.items name owner).list, pool'.free.length⟩, { data with shmemTop := top }) := by
  unfold HalPool.alloc at h
  unfold HalPool.items HalItems.alloc
  split at h
  · rename_i p rest hfree
    cases h
    rw [hfree]
    rfl
  · rename_i hfree
    obtain ⟨p, hp, heq⟩ := Option.map_eq_some_iff.1 h
    cases heq
    have hempty : pool.free.length = 0 := congrArg List.length hfree
    dsimp only
    rw [hempty]
    dsimp only
    rw [shmallocDn_eq, hp, ← hempty]
    rfl

theorem insertByName_items (pool : HalPool α) (hname : name (pool.cell new) = x) (howner : owner (pool.cell new) = o)
    (l : List Int) :
    SoemMotion.insertByName ⟨x, o⟩ (l.map fun p => ⟨name (pool.cell p), owner (pool.cell p)⟩) =
      (pool.insertByName name new l).map (List.map fun p => ⟨name (pool.cell p), owner (pool.cell p)⟩) := by
  induction l with
  | nil =>
    unfold SoemMotion.insertByName HalPool.insertByName
    rw [Option.map_some, List.map_singleton, hname, howner]
    rfl
  | cons p l ih =>
    unfold HalPool.insertByName
    rw [List.map_cons]
    unfold SoemMotion.insertByName
    rw [hname]
    split
    · rw [Option.map_some, List.map_cons, List.map_cons, hname, howner]
    · split
      · rfl
      · rw [ih, Option.map_map, Option.map_map]
        rfl

/-- What becomes of a structure that is to be put on a list, seen by the names and owners on the list. -/
def PutSeen (size : Int) (name : α → CString) (owner : α → Int) (pool : HalPool α) (item : HalItem) (data : HalData) :
    Put α → Prop
  | .full => (pool.items name owner).alloc size data = none
  | .taken new pool' top =>
    (pool.items name owner).alloc size data =
        some (⟨(pool.items name owner).list, pool'.free.length⟩, { data with shmemTop := top }) ∧
      SoemMotion.insertByName item (pool.items name owner).list = none ∧
      ∀ f, (pool'.release new f).items name owner = ⟨(pool.items name owner).list, pool'.free.length + 1⟩
  | .placed _ pool' top =>
    (pool.items name owner).alloc size data =
        some (⟨(pool.items name owner).list, pool'.free.length⟩, { data with shmemTop := top }) ∧
      SoemMotion.insertByName item (pool.items name owner).list = some (pool'.items name owner).list

theorem items_put (data : HalData) (empty : α → α) (hpool : PoolOk size data.shmemTop pool.list pool.free)
    (hsize : 16 ≤ size) (hmem : data.shmemBot ≤ data.shmemTop ∧ data.shmemTop ≤ halSize)
    (hname : ∀ c, name (write c) = x) (howner : ∀ c, owner (write c) = o) :
    PutSeen size name owner pool ⟨x, o⟩ data (pool.put size empty write name data.shmemBot data.shmemTop) := by
  unfold HalPool.put
  cases halloc : pool.alloc size empty data.shmemBot data.shmemTop with
  | none => exact items_alloc_none halloc
  | some r =>
    obtain ⟨new, pool₁, top⟩ := r
    obtain ⟨htakes, hlist, hcell⟩ := HalPool.alloc_takes halloc
    obtain ⟨hpool₁, -⟩ := hpool.takes htakes hsize hmem
    have hne : ∀ p ∈ pool.list, p ≠ new :=
      fun p hp he => (List.nodup_cons.1 hpool₁.nodup).1 (List.mem_append_left _ (he ▸ hp))
    have hself : (pool₁.set new write).cell new = write (pool₁.cell new) := Function.update_self _ _ _
    have hold : ∀ p ∈ pool.list, (pool₁.set new write).cell p = pool.cell p := by
      intro p hp
      unfold HalPool.set
      simp only [hcell, Function.update_of_ne (hne p hp)]
    have hitems : (pool.items name owner).list = pool.list.map fun p =>
        ⟨name ((pool₁.set new write).cell p), owner ((pool₁.set new write).cell p)⟩ :=
      List.map_congr_left fun p hp => by rw [hold p hp]
    have hins := insertByName_items (pool₁.set new write) ((congrArg name hself).trans (hname _))
      ((congrArg owner hself).trans (howner _)) pool.list
    rw [← hitems] at hins
    have hall : (pool.items name owner).alloc size data =
        some (⟨(pool.items name owner).list, pool₁.free.length⟩, { data with shmemTop := top }) :=
      items_alloc_some halloc
    dsimp only
    rw [hlist]
    cases hplace : (pool₁.set new write).insertByName name new pool.list with
    | none =>
      rw [hplace] at hins
      refine ⟨hall, hins, fun f => ?_⟩
      unfold HalPool.items
      rw [HalItems.mk.injEq]
      refine ⟨(congrArg (List.map _) hlist).trans (List.map_congr_left fun p hp => ?_), rfl⟩
      have hcell' : ((pool₁.set new write).release new f).cell p = pool.cell p :=
        (Function.update_of_ne (hne p hp) _ _).trans (hold p hp)
      rw [hcell']
    | some list =>
      rw [hplace] at hins
      exact ⟨hall, hins⟩

end Items

/-- The answer of `hal_param_new` or `hal_pin_new` from what becomes of the structure. -/
def ItemAnswer {α : Type} (name : α → CString) (owner : α → Int) (store : HalItems → HalData → HalData) (data : HalData)
    (out : Option (Int × HalData)) : Put α → Prop
  | .full => out = some (-enomem, (data.setMutex true).setMutex false)
  | .taken new pool top => ∀ f, out = some (-einval,
      (store ((pool.release new f).items name owner) { data.setMutex true with shmemTop := top }).setMutex false)
  | .placed _ pool top => out = some (0,
      (store (pool.items name owner) { data.setMutex true with shmemTop := top }).setMutex false)

/-- `hal_param_new` and `hal_pin_new`, for an address inside the block: the checks of the block, and what becomes of the
structure. -/
theorem Shows.itemNew {α : Type} {size addr : Int} {name : α → CString} {owner : α → Int} {pool : HalPool α}
    (items : HalData → HalItems) (store : HalItems → HalData → HalData) (x : CString) (compId : Int)
    (hs : b.Sound) (h : b.Shows data) (haddr : shmchk addr = true)
    (hitems : items (data.setMutex true) = pool.items name owner)
    (hpool : PoolOk size b.shmemTop pool.list pool.free) (hsize : 16 ≤ size) :
    match b.itemOwner x true addr compId with
    | .error e => ∃ data', data.itemNew size items store x compId = some (e, data') ∧ b.Shows data'
    | .ok comp => ∀ empty write, (∀ c, name (write c) = snprintf (halNameLen + 1) x) → (∀ c, owner (write c) = comp) →
      ItemAnswer name owner store data (data.itemNew size items store x compId)
        (pool.put size empty write name b.shmemBot b.shmemTop) := by
  unfold itemOwner HalData.itemNew
  rw [if_neg (by decide : ¬ (!true) = true), h.withMutex hs, h.lock]
  by_cases hlong : halNameLen < x.length
  · rw [if_pos hlong, if_pos hlong]
    exact ⟨data, rfl, h⟩
  rw [if_neg hlong, if_neg hlong]
  by_cases hlock : b.lock &&& halLockLoad ≠ 0
  · rw [if_pos hlock, if_pos hlock]
    exact ⟨data, rfl, h⟩
  rw [if_neg hlock, if_neg hlock]
  cases hfind : b.halprFindCompById compId with
  | none =>
    rw [h.take.findById_none compId hfind]
    exact ⟨_, rfl, h.take.give hs⟩
  | some p =>
    obtain ⟨comp, hcomp, hstored⟩ := h.take.findById_some compId (p := p) hfind
    have hoff : comp.off = p := congrArg HalComp.off hstored
    have hready : comp.ready = decide ((b.comps.cell p).ready ≠ 0) := congrArg HalComp.ready hstored
    rw [hcomp]
    dsimp only
    rw [haddr, if_neg (by decide : ¬ (!true) = true), hready]
    by_cases hr : (b.comps.cell p).ready ≠ 0
    · rw [if_pos hr, if_pos (decide_eq_true hr)]
      exact ⟨_, rfl, h.take.give hs⟩
    rw [if_neg hr, if_neg fun hd => hr (of_decide_eq_true hd), hoff, hitems]
    intro empty write hname howner
    rw [snprintf_fits (Nat.le_of_not_lt hlong)] at hname
    have hmem := h.take.memory
    have hseen : PutSeen size name owner pool ⟨x, p⟩ (data.setMutex true)
        (pool.put size empty write name b.shmemBot b.shmemTop) := by
      have hbound : (data.setMutex true).shmemBot ≤ (data.setMutex true).shmemTop ∧
          (data.setMutex true).shmemTop ≤ halSize := by
        rw [hmem.1, hmem.2]
        exact hs.memory.2
      have hput := items_put (data.setMutex true) empty (hmem.2 ▸ hpool) hsize hbound hname howner
      rwa [hmem.1, hmem.2] at hput
    cases hput : pool.put size empty write name b.shmemBot b.shmemTop with
    | full =>
      rw [hput] at hseen
      have hnone : (pool.items name owner).alloc size (data.setMutex true) = none := hseen
      show Option.map _ _ = _
      rw [hnone]
      rfl
    | taken new pool' top =>
      rw [hput] at hseen
      obtain ⟨halloc, hins, hrelease⟩ := hseen
      intro f
      rw [halloc, hrelease f]
      dsimp only
      rw [hins]
      rfl
    | placed new pool' top =>
      rw [hput] at hseen
      obtain ⟨halloc, hins⟩ := hseen
      show Option.map _ _ = _
      rw [halloc]
      dsimp only
      rw [hins]
      rfl

theorem Shows.halParamS32New (hs : b.Sound) (h : b.Shows data) (name : CString) {addr : Int} (compId : Int)
    (haddr : shmchk addr = true) :
    SameAnswer b.period (b.halParamNew name .s32 .rw addr compId) (data.halParamS32New name compId) := by
  have hreturns := halParamNew_returns hs name .s32 .rw addr compId
  have hanswer := h.itemNew HalData.params (fun params data => { data with params := params }) name compId hs haddr
    h.params hs.params (by decide)
  have hok : (HalType.s32.isValue && HalParamDir.rw != .other) = true := rfl
  rw [halParamNew_eq hs.mutex, hok] at hreturns ⊢
  cases howner : b.itemOwner name true addr compId with
  | error e =>
    rw [howner] at hanswer
    obtain ⟨data', hrun, hshows⟩ := hanswer
    exact ⟨e, b, data', rfl, hrun, hs, hshows, rfl⟩
  | ok comp =>
    rw [howner] at hanswer hreturns
    have hrun := hanswer (fun p => { p with dataPtr := 0, owner := 0, type := .uninitialized, name := [] })
      (fun p => { p with
        dataPtr := addr, owner := comp, type := .s32, dir := .rw, name := snprintf (halNameLen + 1) name })
      (fun _ => rfl) fun _ => rfl
    dsimp only at hreturns ⊢
    cases hput : b.putParam name .s32 .rw addr comp with
    | full =>
      unfold putParam at hput
      rw [hput] at hrun
      exact ⟨_, _, _, rfl, hrun, hs, h.take.give hs, rfl⟩
    | taken new params top =>
      rw [hput] at hreturns
      unfold putParam at hput
      have hname := oldname_of_cell hs.paramNames (HalPool.put_taken hput).1.cell rfl new
      rw [hput] at hrun
      dsimp only at hreturns ⊢
      rw [if_neg (not_not.2 hname)] at hreturns ⊢
      obtain ⟨r, b', hb', hsound⟩ := hreturns
      cases hb'
      exact ⟨_, _, _, rfl, hrun _, hsound, { h with
        mutex := hs.mutex.symm, memory := ⟨h.memory.1, rfl⟩, params := rfl }, rfl⟩
    | placed new params top =>
      rw [hput] at hreturns
      unfold putParam at hput
      rw [hput] at hrun
      obtain ⟨r, b', hb', hsound⟩ := hreturns
      cases hb'
      exact ⟨_, _, _, rfl, hrun, hsound, { h with
        mutex := hs.mutex.symm, memory := ⟨h.memory.1, rfl⟩, params := rfl }, rfl⟩

theorem Shows.halPinNewf (hs : b.Sound) (h : b.Shows data) (name : CString) {addr : Int} (compId : Int)
    (haddr : shmchk addr = true) :
    SameAnswer b.period (b.halPinNewf .s32 addr compId name) (data.halPinNewf name compId) := by
  have hreturns := halPinNew_returns hs name .s32 addr compId
  have hanswer := h.itemNew HalData.pins (fun pins data => { data with pins := pins }) name compId hs haddr h.pins
    hs.pins (by decide)
  have hok : (HalType.s32.isValue || HalType.s32 == .port) = true := rfl
  unfold HalBlock.halPinNewf HalData.halPinNewf
  split
  · exact .same hs h _
  rw [halPinNew_eq hs.mutex, hok] at hreturns ⊢
  cases howner : b.itemOwner name true addr compId with
  | error e =>
    rw [howner] at hanswer
    obtain ⟨data', hrun, hshows⟩ := hanswer
    exact ⟨e, b, data', rfl, hrun, hs, hshows, rfl⟩
  | ok comp =>
    rw [howner] at hanswer hreturns
    have hrun := hanswer (fun p => { p with dataPtrAddr := 0, owner := 0, type := .uninitialized, name := [] })
      (fun p => { p with dataPtrAddr := addr, owner := comp, type := .s32, name := snprintf (halNameLen + 1) name })
      (fun _ => rfl) fun _ => rfl
    dsimp only at hreturns ⊢
    cases hput : b.putPin name .s32 addr comp with
    | full =>
      unfold putPin at hput
      rw [hput] at hrun
      exact ⟨_, _, _, rfl, hrun, hs, h.take.give hs, rfl⟩
    | taken new pins top =>
      rw [hput] at hreturns
      unfold putPin at hput
      have hname := oldname_of_cell hs.pinNames (HalPool.put_taken hput).1.cell rfl new
      rw [hput] at hrun
      dsimp only at hreturns ⊢
      rw [if_neg (not_not.2 hname)] at hreturns ⊢
      obtain ⟨r, b', hb', hsound⟩ := hreturns
      cases hb'
      exact ⟨_, _, _, rfl, hrun _, hsound, { h with
        mutex := hs.mutex.symm, memory := ⟨h.memory.1, rfl⟩, pins := rfl }, rfl⟩
    | placed new pins top =>
      rw [hput] at hreturns
      unfold putPin at hput
      rw [hput] at hrun
      obtain ⟨r, b', hb', hsound⟩ := hreturns
      cases hb'
      exact ⟨_, _, _, rfl, hrun, hsound, { h with
        mutex := hs.mutex.symm, memory := ⟨h.memory.1, rfl⟩, pins := rfl }, rfl⟩

end HalBlock

end SoemMotion
