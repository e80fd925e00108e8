import SoemMotion.HalOwnership

/-!
# Registrations that fail

A registration that fails should leave the lists, the free structures, the memory and the caller's pointer as they were
(`BlockCall.Atomic`).  Parameters do so always.  The other registrations do so unless they have gone too far: a pin has
moved its pointer when its name turns out to be taken, a function or a thread is on its list when its own pin or
parameter is refused, and an entry is written to before it is known that there was memory for it.
-/

namespace SoemMotion

open Lib HalBlock

/-! ### What decides a registration -/

namespace HalPool

variable {α : Type} {size bot top new top' : Int} {empty write : α → α} {name : α → CString} {pool pool' : HalPool α}
  {x : CString}

/-- The structure that would be taken. -/
def next (size bot top : Int) (pool : HalPool α) : Option Int :=
  match pool.free with
  | p :: _ => some p
  | [] => shmallocDn size bot top

/-- The top of the free memory once `new` has been taken. -/
def topAfter (new top : Int) (pool : HalPool α) : Int := if pool.free.isEmpty then new else top

/-- The walk along the ordered list meets the name `x`. -/
def nameTaken (name : α → CString) (x : CString) (pool : HalPool α) : List Int → Bool
  | [] => false
  | ptr :: rest =>
    if x < name (pool.cell ptr) then false
    else if name (pool.cell ptr) = x then true
    else nameTaken name x pool rest

theorem insertByName_eq_none {l : List Int} (hx : name (pool.cell new) = x) :
    pool.insertByName name new l = none ↔ pool.nameTaken name x l = true := by
  induction l with
  | nil => simp [insertByName, nameTaken]
  | cons ptr rest ih =>
    unfold insertByName nameTaken
    rw [hx]
    split
    · simp
    split
    · simp
    · rw [Option.map_eq_none_iff]
      exact ih

theorem nameTaken_congr {l : List Int} (hcell : ∀ p ∈ l, pool'.cell p = pool.cell p) :
    pool'.nameTaken name x l = pool.nameTaken name x l := by
  induction l with
  | nil => rfl
  | cons ptr rest ih =>
    unfold nameTaken
    rw [hcell ptr List.mem_cons_self, ih fun p hp => hcell p (List.mem_cons_of_mem _ hp)]

theorem alloc_eq_none : pool.alloc size empty bot top = none ↔ pool.next size bot top = none := by
  unfold alloc next
  cases pool.free with
  | nil => exact Option.map_eq_none_iff
  | cons p rest => simp

theorem alloc_next (h : pool.alloc size empty bot top = some (new, pool', top')) :
    pool.next size bot top = some new ∧ top' = pool.topAfter new top := by
  obtain ⟨⟨hsource⟩, -, -⟩ := alloc_takes h
  unfold next topAfter
  rcases hsource with ⟨hfree, htop⟩ | ⟨hfree, -, hdn, htop⟩
  · rw [hfree]
    exact ⟨rfl, htop⟩
  · rw [hfree]
    exact ⟨hdn, htop⟩

/-- Whether a structure finds its place is decided by the memory and the names on the list. -/
theorem put_cases (hname : ∀ c, name (write (empty c)) = x)
    (hnew : ∀ p, pool.next size bot top = some p → p ∉ pool.list) :
    pool.next size bot top = none ∧ pool.put size empty write name bot top = .full ∨
      ∃ new pool', pool.next size bot top = some new ∧
        (pool.nameTaken name x pool.list = true ∧
            pool.put size empty write name bot top = .taken new pool' (pool.topAfter new top) ∨
          pool.nameTaken name x pool.list = false ∧
            pool.put size empty write name bot top = .placed new pool' (pool.topAfter new top)) := by
  unfold put
  cases halloc : pool.alloc size empty bot top with
  | none => exact .inl ⟨alloc_eq_none.1 halloc, rfl⟩
  | some r =>
    obtain ⟨new, pool₁, top'⟩ := r
    obtain ⟨hnext, htop⟩ := alloc_next halloc
    obtain ⟨-, hlist, hcell⟩ := alloc_takes halloc
    have hfresh := hnew new hnext
    have hwritten : name ((pool₁.set new write).cell new) = x := by
      show name (Function.update pool₁.cell new (write (pool₁.cell new)) new) = x
      rw [Function.update_self, hcell, Function.update_self, hname]
    have hsame : (pool₁.set new write).nameTaken name x pool.list = pool.nameTaken name x pool.list := by
      refine nameTaken_congr fun p hp => ?_
      have hne : p ≠ new := by
        rintro rfl
        exact hfresh hp
      show Function.update pool₁.cell new _ p = _
      rw [Function.update_of_ne hne, hcell, Function.update_of_ne hne]
    right
    refine ⟨new, ?_⟩
    dsimp only
    rw [hlist, htop]
    cases hins : (pool₁.set new write).insertByName name new pool.list with
    | none =>
      have htaken := (insertByName_eq_none hwritten).1 hins
      exact ⟨_, hnext, .inl ⟨hsame ▸ htaken, rfl⟩⟩
    | some list =>
      refine ⟨_, hnext, .inr ⟨?_, rfl⟩⟩
      rw [← hsame, Bool.eq_false_iff, ne_eq, ← insertByName_eq_none hwritten, hins]
      exact Option.some_ne_none list

end HalPool

namespace HalBlock

/-- A pin of this name finds no structure, or its name taken. -/
def pinRefused (name : CString) (top : Int) (b : HalBlock) : Bool :=
  (b.pins.next 104 b.shmemBot top).isNone || b.pins.nameTaken PinStruct.name
  (snprintf (halNameLen + 1) name) b.pins.list

/-- `hal_pin_new` finds the name taken, and the pointer is not yet what it writes there. -/
def pinMoves (name : CString) (type : HalType) (addr compId : Int) (b : HalBlock) : Bool :=
  match b.itemOwner name (type.isValue || type == .port) addr compId, b.pins.next 104 b.shmemBot b.shmemTop with
  | .ok _, some new =>
    b.pins.nameTaken PinStruct.name (snprintf (halNameLen + 1) name) b.pins.list && b.ptrs addr != new + 32
  | _, _ => false

/-- `hal_export_funct` puts the function on the list, and its pin is refused. -/
def functStays (name : CString) (compId : Int) (b : HalBlock) : Bool :=
  match b.functOwner name compId, b.functs.next 112 b.shmemBot b.shmemTop with
  | .ok _, some new =>
    !b.functs.nameTaken FunctStruct.name (snprintf (halNameLen + 1) name) b.functs.list &&
      (decide (halNameLen < (timeName name).length) || b.pinRefused (timeName name) (b.functs.topAfter new b.shmemTop))
  | _, _ => false

/-- The parameter and the pin of a new thread find their structures and places. -/
def itemsFit (name : CString) (top : Int) (b : HalBlock) : Bool :=
  match b.params.next 88 b.shmemBot top with
  | none => false
  | some param =>
    b.lock &&& halLockLoad == 0 &&
      !b.params.nameTaken ParamStruct.name (snprintf (halNameLen + 1) (tmaxName name)) b.params.list &&
      !(decide (halNameLen < (timeName name).length) || b.pinRefused (timeName name) (b.params.topAfter param top))

/-- So do they after its component. -/
def threadItems (rt : ThreadAnswer) (name : CString) (top : Int) (b : HalBlock) : Bool :=
  (b.compError rt.moduleId (some (pseudoName name))).isNone &&
    match b.comps.next 104 b.shmemBot top with
    | none => false
    | some comp => b.itemsFit name (b.comps.topAfter comp top)

/-- `hal_create_thread` takes a structure, and what follows fails. -/
def threadStays (rt : ThreadAnswer) (name : CString) (period : UInt64) (b : HalBlock) : Bool :=
  (b.threadError name period).isNone &&
    match b.threads.next 120 b.shmemBot b.shmemTop with
    | none => false
    | some new => !(b.taskRuns rt period && b.threadItems rt name (b.threads.topAfter new b.shmemTop))

end HalBlock

/-! ### Calls without a trace -/

/-- The list holds the structures it held, with what was in them, and no free structure is lost. -/
structure PoolSame {α : Type} (pool pool' : HalPool α) : Prop where
  list : pool'.list = pool.list
  cell : ∀ p ∈ pool.list, pool'.cell p = pool.cell p
  free : ∀ p ∈ pool.free, p ∈ pool'.free

/-- The offset lies in a structure of the pool, or in what was lost to the alignment of one. -/
def HalPool.Holds {α : Type} (size : Int) (pool : HalPool α) (x : Int) : Prop :=
  ∃ p ∈ pool.list ++ pool.free, p ≤ x ∧ x < p + size + 15

/-- The lists are as they were, and every structure that has been free or has been carved is on a list. -/
structure HalBlock.Unharmed (b b' : HalBlock) : Prop where
  comps : PoolSame b.comps b'.comps
  pins : PoolSame b.pins b'.pins
  params : PoolSame b.params b'.params
  functs : PoolSame b.functs b'.functs
  threads : PoolSame b.threads b'.threads
  entries : ∀ e ∈ b.entriesOf functEntryFree, e ∈ b'.entriesOf functEntryFree
  carved : ∀ x, b'.shmemTop ≤ x → x < b.shmemTop →
    b'.comps.Holds 104 x ∨ b'.pins.Holds 104 x ∨ b'.params.Holds 88 x ∨ b'.functs.Holds 112 x ∨ b'.threads.Holds 120 x ∨
      ∃ r ∈ ringRoots b'.threads.list, ∃ e ∈ b'.entriesOf r, e ≤ x ∧ x < e + 40 + 15

/-- The pointer that a call is to fill in. -/
def BlockCall.dataPtrAddr : BlockCall → Option Int
  | .pinNew _ _ dataPtrAddr _ => some dataPtrAddr
  | _ => none

/-- The call comes back, and when it fails it leaves no trace. -/
def BlockCall.Atomic (b : HalBlock) (c : BlockCall) : Prop :=
  ∃ r b', c.run b = .ok (r, b') ∧
    (r < 0 → b.Unharmed b' ∧ ∀ addr ∈ c.dataPtrAddr, b'.ptrs addr = b.ptrs addr)

/-- The registrations. -/
def BlockCall.Registers : BlockCall → Prop
  | .pinNew _ _ _ _ => True
  | .paramNew _ _ _ _ _ => True
  | .exportFunct _ _ _ _ _ _ => True
  | .createThread _ _ _ _ _ => True
  | .addFunct _ _ _ => True
  | _ => False

/-- The call fails when it has gone too far. -/
def BlockCall.failsLate : BlockCall → HalBlock → Bool
  | .pinNew name type dataPtrAddr compId, b => b.pinMoves name type dataPtrAddr compId
  | .exportFunct name _ _ _ _ compId, b => b.functStays name compId
  | .createThread rt name period _ _, b => b.threadStays rt name period
  | .addFunct functName threadName position, b => (b.addPlace functName threadName position).isOk && b.noEntry
  | _, _ => false

namespace PoolSame

variable {α : Type} {size bot top new top' : Int} {pool pool' : HalPool α}

theorem refl (pool : HalPool α) : PoolSame pool pool := ⟨rfl, fun _ _ => rfl, fun _ hp => hp⟩

/-- A structure that is freed again is on the free list, and the memory it was carved from is in it. -/
theorem release (ht : HalPool.Takes size bot top pool new pool'.free top') (hlist : pool'.list = pool.list) {f : α → α}
    (hcell : ∀ p ≠ new, (pool'.release new f).cell p = pool.cell p) (hnew : new ∉ pool.list) (hsize : 16 ≤ size) :
    PoolSame pool (pool'.release new f) ∧ ∀ x, top' ≤ x → x < top → (pool'.release new f).Holds size x := by
  refine ⟨⟨hlist, fun p hp => hcell p ?_, fun p hp => ?_⟩, fun x hlow hhigh => ?_⟩
  · rintro rfl
    exact hnew hp
  · show p ∈ new :: pool'.free
    rcases ht.source with ⟨hfree, -⟩ | ⟨hfree, -⟩
    · rwa [← hfree]
    · rw [hfree] at hp
      cases hp
  · refine ⟨new, List.mem_append_right _ List.mem_cons_self, ?_⟩
    rcases ht.source with ⟨-, htop⟩ | ⟨-, -, hdn, htop⟩
    · omega
    · unfold HalPool.shmallocDn alignDown at hdn
      dsimp only at hdn
      rw [if_pos hsize] at hdn
      split at hdn
      · cases hdn
      · cases hdn
        omega

end PoolSame

variable {b b' : HalBlock}

theorem HalBlock.Unharmed.refl (b : HalBlock) : b.Unharmed b :=
  ⟨PoolSame.refl _, PoolSame.refl _, PoolSame.refl _, PoolSame.refl _, PoolSame.refl _, fun _ he => he,
    fun x hlow hhigh => absurd hlow (by omega)⟩

/-- A call that returns an error at once. -/
theorem BlockCall.Atomic.same {c : BlockCall} {r : Int} (hrun : c.run b = .ok (r, b)) : c.Atomic b :=
  ⟨r, b, hrun, fun _ => ⟨Unharmed.refl b, fun _ _ => rfl⟩⟩

/-- A call that succeeds. -/
theorem BlockCall.Atomic.success {c : BlockCall} {r : Int} (hrun : c.run b = .ok (r, b')) (hr : 0 ≤ r) : c.Atomic b :=
  ⟨r, b', hrun, fun h => absurd h (by omega)⟩

/-- A call that comes back and has left a trace. -/
theorem BlockCall.not_atomic {c : BlockCall} {r : Int} (hrun : c.run b = .ok (r, b')) (hr : r < 0)
    (h : ¬ (b.Unharmed b' ∧ ∀ addr ∈ c.dataPtrAddr, b'.ptrs addr = b.ptrs addr)) : ¬ c.Atomic b := by
  rintro ⟨r', b'', hrun', hatomic⟩
  rw [hrun] at hrun'
  cases hrun'
  exact h (hatomic hr)

/-! ### Pins and parameters -/

/-- A structure that would be taken is on no list. -/
theorem PoolOk.next_not_mem {α : Type} {size bot top : Int} {pool : HalPool α} (h : PoolOk size top pool.list pool.free)
    (hsize : 16 ≤ size) (p : Int) (hp : pool.next size bot top = some p) : p ∉ pool.list := by
  intro hmem
  unfold HalPool.next at hp
  split at hp
  · rename_i q rest hfree
    cases hp
    have hnodup := h.nodup
    rw [hfree] at hnodup
    exact (List.nodup_append.1 hnodup).2.2 p hmem p List.mem_cons_self rfl
  · have hbound := (shmallocDn_bound hp hsize).2
    have := (h.bound p (List.mem_append_left _ hmem)).1
    omega

namespace HalBlock

/-- The pin that `hal_pin_new` would put on its list. -/
theorem putPin_cases (h : PoolOk 104 b.shmemTop b.pins.list b.pins.free) (name : CString) (type : HalType)
    (addr comp : Int) :
    b.pins.next 104 b.shmemBot b.shmemTop = none ∧ b.putPin name type addr comp = .full ∨
      ∃ new pins, b.pins.next 104 b.shmemBot b.shmemTop = some new ∧
        (b.pins.nameTaken PinStruct.name (snprintf (halNameLen + 1) name) b.pins.list = true ∧
            b.putPin name type addr comp = .taken new pins (b.pins.topAfter new b.shmemTop) ∨
          b.pins.nameTaken PinStruct.name (snprintf (halNameLen + 1) name) b.pins.list = false ∧
            b.putPin name type addr comp = .placed new pins (b.pins.topAfter new b.shmemTop)) :=
  HalPool.put_cases (fun _ => rfl) (h.next_not_mem (by decide))

theorem putParam_cases (h : PoolOk 88 b.shmemTop b.params.list b.params.free) (name : CString) (type : HalType)
    (dir : HalParamDir) (addr comp : Int) :
    b.params.next 88 b.shmemBot b.shmemTop = none ∧ b.putParam name type dir addr comp = .full ∨
      ∃ new params, b.params.next 88 b.shmemBot b.shmemTop = some new ∧
        (b.params.nameTaken ParamStruct.name (snprintf (halNameLen + 1) name) b.params.list = true ∧
            b.putParam name type dir addr comp = .taken new params (b.params.topAfter new b.shmemTop) ∨
          b.params.nameTaken ParamStruct.name (snprintf (halNameLen + 1) name) b.params.list = false ∧
            b.putParam name type dir addr comp = .placed new params (b.params.topAfter new b.shmemTop)) :=
  HalPool.put_cases (fun _ => rfl) (h.next_not_mem (by decide))

theorem putFunct_cases (h : PoolOk 112 b.shmemTop b.functs.list b.functs.free) (name : CString)
    (funct arg usesFp reentrant comp : Int) :
    b.functs.next 112 b.shmemBot b.shmemTop = none ∧ b.putFunct name funct arg usesFp reentrant comp = .full ∨
      ∃ new functs, b.functs.next 112 b.shmemBot b.shmemTop = some new ∧
        (b.functs.nameTaken FunctStruct.name (snprintf (halNameLen + 1) name) b.functs.list = true ∧
            b.putFunct name funct arg usesFp reentrant comp = .taken new functs (b.functs.topAfter new b.shmemTop) ∨
          b.functs.nameTaken FunctStruct.name (snprintf (halNameLen + 1) name) b.functs.list = false ∧
            b.putFunct name funct arg usesFp reentrant comp = .placed new functs (b.functs.topAfter new b.shmemTop)) :=
  HalPool.put_cases (fun _ => rfl) (h.next_not_mem (by decide))

end HalBlock

/-- A pin has no trace but the pointer, which it moves before it looks for its place. -/
theorem pinNew_atomic_iff (h : b.Sound) (name : CString) (type : HalType) (addr compId : Int) :
    (BlockCall.pinNew name type addr compId).Atomic b ↔ b.pinMoves name type addr compId = false := by
  have hrun := halPinNew_eq h.mutex name type addr compId
  unfold pinMoves
  cases howner : b.itemOwner name (type.isValue || type == .port) addr compId with
  | error e =>
    rw [howner] at hrun
    exact ⟨fun _ => rfl, fun _ => BlockCall.Atomic.same hrun⟩
  | ok comp =>
    rw [howner] at hrun
    dsimp only at hrun
    rcases putPin_cases h.pins name type addr comp with ⟨hnext, hput⟩ | ⟨new, pins, hnext, hplace⟩
    · rw [hput] at hrun
      rw [hnext]
      exact ⟨fun _ => rfl, fun _ => BlockCall.Atomic.same hrun⟩
    rw [hnext]
    rcases hplace with ⟨htaken, hput⟩ | ⟨htaken, hput⟩
    · rw [hput] at hrun
      obtain ⟨hpool, hlist⟩ := HalPool.put_taken hput
      have hnew := h.pins.next_not_mem (by decide) new hnext
      have hnames := oldname_of_cell h.pinNames hpool.cell rfl
      dsimp only at hrun ⊢
      rw [if_neg (by simp [hnames])] at hrun
      obtain ⟨hsame, hholds⟩ := PoolSame.release hpool.takes hlist (hpool.release_cell _) hnew (by decide)
      -- the pointer of the caller is redirected before the name is found to be taken
      rw [htaken, Bool.true_and, bne_eq_false_iff_eq]
      constructor
      · rintro ⟨r, b', hrun', hatomic⟩
        rw [show (BlockCall.pinNew name type addr compId).run b = _ from hrun] at hrun'
        cases hrun'
        have hkept := (hatomic einval_neg).2 addr rfl
        exact ((Function.update_self addr (new + 32) b.ptrs).symm.trans hkept).symm
      · intro hptr
        refine ⟨_, _, hrun, fun _ => ⟨{ Unharmed.refl b with pins := hsame, carved := ?_ }, ?_⟩⟩
        · exact fun x hlow hhigh => .inr (.inl (hholds x hlow hhigh))
        · rintro a ha
          cases ha
          exact (Function.update_self addr (new + 32) b.ptrs).trans hptr.symm
    · rw [hput] at hrun
      rw [htaken]
      exact ⟨fun _ => rfl, fun _ => BlockCall.Atomic.success hrun (le_refl 0)⟩

/-- A parameter has none. -/
theorem paramNew_atomic (h : b.Sound) (name : CString) (type : HalType) (dir : HalParamDir) (addr compId : Int) :
    (BlockCall.paramNew name type dir addr compId).Atomic b := by
  have hrun := halParamNew_eq h.mutex name type dir addr compId
  cases howner : b.itemOwner name (type.isValue && dir != .other) addr compId with
  | error e =>
    rw [howner] at hrun
    exact BlockCall.Atomic.same hrun
  | ok comp =>
    rw [howner] at hrun
    dsimp only at hrun
    rcases putParam_cases h.params name type dir addr comp with ⟨-, hput⟩ | ⟨new, params, hnext, ⟨-, hput⟩ | ⟨-, hput⟩⟩
    · rw [hput] at hrun
      exact BlockCall.Atomic.same hrun
    · rw [hput] at hrun
      obtain ⟨hpool, hlist⟩ := HalPool.put_taken hput
      have hnew := h.params.next_not_mem (by decide) new hnext
      have hnames := oldname_of_cell h.paramNames hpool.cell rfl
      dsimp only at hrun
      rw [if_neg (by simp [hnames])] at hrun
      obtain ⟨hsame, hholds⟩ := PoolSame.release hpool.takes hlist (hpool.release_cell _) hnew (by decide)
      refine ⟨_, _, hrun, fun _ => ⟨{ Unharmed.refl b with params := hsame, carved := ?_ }, fun _ ha => (nomatch ha)⟩⟩
      exact fun x hlow hhigh => .inr (.inr (.inl (hholds x hlow hhigh)))
    · rw [hput] at hrun
      exact BlockCall.Atomic.success hrun (le_refl 0)

/-! ### Functions -/

/-- The pin of a function or a thread: it is there, unless its name is too long or it is refused. -/
theorem halPinNewf_spec (h : b.Sound) {type : HalType} (htype : type.isValue = true) {addr compId comp : Int}
    (hlock : b.lock &&& halLockLoad = 0) (hfind : b.halprFindCompById compId = some comp) (haddr : shmchk addr = true)
    (hready : (b.comps.cell comp).ready = 0) (name : CString) :
    ∃ r b', b.halPinNewf type addr compId name = .ok (r, b') ∧ b'.Sound ∧ b'.functs = b.functs ∧
    b'.threads = b.threads ∧
      r ≤ 0 ∧ (r = 0 ↔ (decide (halNameLen < name.length) || b.pinRefused name b.shmemTop) = false) := by
  unfold halPinNewf
  by_cases hlen : halNameLen < name.length
  · rw [if_pos hlen, decide_eq_true hlen, Bool.true_or]
    exact ⟨-enomem, b, rfl, h, rfl, rfl, by decide, by decide⟩
  rw [if_neg hlen, decide_eq_false hlen, Bool.false_or]
  obtain ⟨r, b', hrun, hsound⟩ := halPinNew_returns h name type addr compId
  have heq := halPinNew_eq h.mutex name type addr compId
  have howner : b.itemOwner name (type.isValue || type == .port) addr compId = .ok comp := by
    unfold itemOwner
    rw [htype, if_neg (by simp), if_neg hlen, if_neg (by simp [hlock]), hfind]
    dsimp only
    rw [haddr, if_neg (by simp), if_neg (by simp [hready])]
  rw [howner, hrun] at heq
  rw [hrun]
  dsimp only at heq
  unfold pinRefused
  rcases putPin_cases h.pins name type addr comp with ⟨hnext, hput⟩
    | ⟨new, pins, hnext, ⟨htaken, hput⟩ | ⟨htaken, hput⟩⟩
  · rw [hput] at heq
    cases heq
    exact ⟨_, _, rfl, hsound, rfl, rfl, by decide, by simp [hnext, enomem]⟩
  · rw [hput] at heq
    dsimp only at heq
    split at heq
    · cases heq
    · cases heq
      exact ⟨_, _, rfl, hsound, rfl, rfl, by decide, by simp [htaken, einval]⟩
  · rw [hput] at heq
    cases heq
    exact ⟨_, _, rfl, hsound, rfl, rfl, le_refl _, by simp [hnext, htaken]⟩

/-- A function is on its list when its pin is refused. -/
theorem exportFunct_atomic_iff (h : b.Sound) (name : CString) (funct arg usesFp reentrant compId : Int) :
    (BlockCall.exportFunct name funct arg usesFp reentrant compId).Atomic b ↔ b.functStays name compId = false := by
  have hrun := halExportFunct_eq h.mutex name funct arg usesFp reentrant compId
  unfold functStays
  cases howner : b.functOwner name compId with
  | error e =>
    rw [howner] at hrun
    exact ⟨fun _ => rfl, fun _ => BlockCall.Atomic.same hrun⟩
  | ok comp =>
    rw [howner] at hrun
    dsimp only at hrun
    rcases putFunct_cases h.functs name funct arg usesFp reentrant comp with ⟨hnext, hput⟩
      | ⟨new, functs, hnext, hplace⟩
    · rw [hput] at hrun
      rw [hnext]
      exact ⟨fun _ => rfl, fun _ => BlockCall.Atomic.same hrun⟩
    rw [hnext]
    have hnew := h.functs.next_not_mem (by decide) new hnext
    rcases hplace with ⟨htaken, hput⟩ | ⟨htaken, hput⟩
    · rw [hput] at hrun
      obtain ⟨hpool, hlist⟩ := HalPool.put_taken hput
      obtain ⟨hsame, hholds⟩ := PoolSame.release hpool.takes hlist (hpool.release_cell _) hnew (by decide)
      dsimp only
      rw [htaken]
      refine ⟨fun _ => rfl, fun _ => ⟨_, _, hrun, fun _ => ⟨?_, fun _ ha => (nomatch ha)⟩⟩⟩
      exact { Unharmed.refl b with
        functs := hsame, carved := fun x hlow hhigh => .inr (.inr (.inr (.inl (hholds x hlow hhigh)))) }
    · rw [hput] at hrun
      obtain ⟨hpool, l₁, l₂, hsplit, hlist⟩ := HalPool.put_placed hput
      have hsound := h.placeFunct hput
      obtain ⟨hlock, hfind, hready⟩ := functOwner_ok howner
      have hbound := (hsound.functs.bound new (by simp [hlist]))
      have haddr : shmchk (new + 48) = true := by
        have := hsound.memory
        unfold shmchk
        exact decide_eq_true (by omega)
      obtain ⟨r, b', hpin, hpinSound, hfuncts, -, hneg, hrefused⟩ :=
        halPinNewf_spec hsound (show HalType.s32.isValue = true from rfl) hlock hfind haddr hready (timeName name)
      dsimp only at hrun ⊢
      rw [htaken, Bool.not_false, Bool.true_and]
      unfold finishFunct at hrun
      rw [hpin] at hrun
      -- only the answer for the pin is looked at, the parameters after it may fail unseen
      by_cases hr : r = 0
      · refine ⟨fun _ => hrefused.1 hr, fun _ => ?_⟩
        have hrest : (b'.halParamNew (tmaxName name) .s32 .rw (new + 56) compId).bind (fun x =>
            (x.2.halParamNew (tmaxIncreasedName name) .bit .ro (new + 60) compId).bind fun y => .ok (0, y.2)) =
            b.halExportFunct name funct arg usesFp reentrant compId := by
          rw [hrun, hr]
          rfl
        obtain ⟨r₁, b₁, hrun₁, hsound₁⟩ := halParamNew_returns hpinSound (tmaxName name) .s32 .rw (new + 56) compId
        obtain ⟨r₂, b₂, hrun₂, -⟩ := halParamNew_returns hsound₁ (tmaxIncreasedName name) .bit .ro (new + 60) compId
        rw [hrun₁] at hrest
        have hrest' := hrest.symm
        dsimp only [Except.bind] at hrest'
        rw [hrun₂] at hrest'
        exact BlockCall.Atomic.success hrest' (le_refl 0)
      · refine ⟨fun hatomic => absurd hatomic ?_, fun hrefuse => absurd (hrefused.2 hrefuse) hr⟩
        have hrun' : (BlockCall.exportFunct name funct arg usesFp reentrant compId).run b = .ok (-einval, b') := by
          refine Eq.trans hrun ?_
          dsimp only [Except.bind]
          rw [if_pos hr]
        -- the call fails, and the function stays in the list
        refine BlockCall.not_atomic hrun' einval_neg fun hclean => ?_
        have hsame := hclean.1.functs.list
        rw [hfuncts] at hsame
        have hlen := congrArg List.length hsame
        simp [hlist, hsplit] at hlen

/-! ### Threads -/

/-- The parameter of a thread: it is there, unless there is no structure or the name is taken. -/
theorem halParamNew_spec (h : b.Sound) {type : HalType} {dir : HalParamDir}
    (htype : (type.isValue && dir != .other) = true)
    {addr compId comp : Int} (hfind : b.halprFindCompById compId = some comp) (haddr : shmchk addr = true)
    (hready : (b.comps.cell comp).ready = 0) {name : CString} (hlen : name.length ≤ halNameLen) :
    ∃ r b', b.halParamNew name type dir addr compId = .ok (r, b') ∧ b'.Sound ∧ b'.threads = b.threads ∧ r ≤ 0 ∧
      (r = 0 → b'.lock = b.lock ∧ b'.comps = b.comps ∧ b'.pins = b.pins ∧ b'.shmemBot = b.shmemBot ∧
        b.lock &&& halLockLoad = 0 ∧
        b.params.nameTaken ParamStruct.name (snprintf (halNameLen + 1) name) b.params.list = false ∧
        ∃ new, b.params.next 88 b.shmemBot b.shmemTop = some new ∧ b'.shmemTop = b.params.topAfter new b.shmemTop) ∧
      (r ≠ 0 → b.lock &&& halLockLoad = 0 → (b.params.next 88 b.shmemBot b.shmemTop).isSome →
        b.params.nameTaken ParamStruct.name (snprintf (halNameLen + 1) name) b.params.list = true) := by
  obtain ⟨r, b', hrun, hsound⟩ := halParamNew_returns h name type dir addr compId
  have heq := halParamNew_eq h.mutex name type dir addr compId
  have howner : b.itemOwner name (type.isValue && dir != .other) addr compId =
      if b.lock &&& halLockLoad ≠ 0 then .error (-eperm) else .ok comp := by
    unfold itemOwner
    rw [htype, if_neg (by simp), if_neg (by omega), hfind]
    split
    · rfl
    · dsimp only
      rw [haddr, if_neg (by simp), if_neg (by simp [hready])]
  rw [howner, hrun] at heq
  rw [hrun]
  by_cases hlock : b.lock &&& halLockLoad = 0
  swap
  · rw [if_pos hlock] at heq
    cases heq
    exact ⟨_, _, rfl, hsound, rfl, by decide, fun hr => absurd hr (by decide), fun _ hl => absurd hl hlock⟩
  rw [if_neg (not_not.2 hlock)] at heq
  dsimp only at heq
  -- the checks have passed, so the memory and the name decide
  rcases putParam_cases h.params name type dir addr comp with
    ⟨hnext, hput⟩ | ⟨new, params, hnext, ⟨htaken, hput⟩ | ⟨htaken, hput⟩⟩
  · rw [hput] at heq
    cases heq
    exact ⟨_, _, rfl, hsound, rfl,
      by decide, fun hr => absurd hr (by decide), fun _ _ hsome => by simp [hnext] at hsome⟩
  · rw [hput] at heq
    dsimp only at heq
    split at heq
    · cases heq
    · cases heq
      exact ⟨_, _, rfl, hsound, rfl, by decide, fun hr => absurd hr (by decide), fun _ _ _ => htaken⟩
  · rw [hput] at heq
    cases heq
    exact ⟨_, _, rfl, hsound, rfl, le_refl _, fun _ => ⟨rfl, rfl, rfl, rfl, hlock, htaken, new, hnext, rfl⟩,
      fun hr => absurd rfl hr⟩

theorem compError_none {moduleId : Int} {name : CString} (h : b.compError moduleId (some name) = none) :
    0 ≤ moduleId := by
  unfold compError at h
  dsimp only at h
  split at h
  · cases h
  split at h
  · cases h
  · omega

/-- The component that `hal_init` puts at the head of the list is found by its number, and not ready. -/
theorem putComp_found {moduleId comp : Int} {comps : HalPool CompStruct}
    (hcomps : b.comps = putComp moduleId comp comps) :
    b.halprFindCompById moduleId = some comp ∧ (b.comps.cell comp).ready = 0 := by
  have hcell : (b.comps.cell comp).compId = moduleId ∧ (b.comps.cell comp).ready = 0 := by
    rw [hcomps]
    unfold putComp HalPool.set
    dsimp only
    rw [Function.update_self]
    exact ⟨rfl, rfl⟩
  refine ⟨?_, hcell.2⟩
  unfold HalBlock.halprFindCompById
  rw [show b.comps.list = comp :: comps.list by rw [hcomps]; rfl]
  exact List.find?_cons_of_pos (beq_iff_eq.2 hcell.1)

/-- The parameter and the pin of a thread, once its component is there. -/
theorem threadItems_spec (h : b.Sound) {compId comp new : Int} (hfind : b.halprFindCompById compId = some comp)
    (hready : (b.comps.cell comp).ready = 0) (hid : 0 ≤ compId) (hnew : 0 < new ∧ new + 120 ≤ halSize)
    (name : CString) :
    ∃ r b', ((b.halParamNew (tmaxName name) .s32 .rw (new + 40) compId).bind fun (retval, b) =>
        if retval ≠ 0 then .ok (-einval, b)
        else (b.halPinNewf .s32 (new + 32) compId (timeName name)).bind fun (retval, b) =>
          if retval ≠ 0 then .ok (-einval, b)
          else (b.halReady compId).bind fun (_, b) => .ok (compId, b)) = .ok (r, b') ∧
      b'.threads.list = b.threads.list ∧ (0 ≤ r ↔ b.itemsFit name b.shmemTop = true) := by
  have haddr : ∀ k, 0 ≤ k → k < 120 → shmchk (new + k) = true := by
    intro k hk hk'
    unfold shmchk
    exact decide_eq_true (by omega)
  obtain ⟨r₁, b₁, hrun₁, hsound₁, hthreads₁, -, hdone, hnot⟩ := halParamNew_spec h
    (show (HalType.s32.isValue && HalParamDir.rw != .other) = true from rfl) hfind
    (haddr 40 (by decide) (by decide)) hready
    (snprintf_length (name ++ [46, 116, 109, 97, 120]))
  have hrun₁ : b.halParamNew (tmaxName name) .s32 .rw (new + 40) compId = .ok (r₁, b₁) := hrun₁
  rw [hrun₁]
  dsimp only [Except.bind]
  unfold itemsFit
  -- a refused parameter ends the call before the pin is tried
  by_cases hr₁ : r₁ = 0
  swap
  · rw [if_pos hr₁]
    refine ⟨_, _, rfl, by rw [hthreads₁], ⟨fun hneg => absurd hneg (by decide), fun hfit => ?_⟩⟩
    cases hnext : b.params.next 88 b.shmemBot b.shmemTop with
    | none => simp [hnext] at hfit
    | some param =>
      rw [hnext] at hfit
      simp only [Bool.and_eq_true, beq_iff_eq] at hfit
      have htaken := hnot hr₁ hfit.1.1 (by simp [hnext])
      simp [show tmaxName name = snprintf (halNameLen + 1) (name ++ [46, 116, 109, 97, 120]) from rfl, htaken] at hfit
  obtain ⟨hlock₁, hcomps₁, hpins₁, hbot₁, hlock, htaken, param, hnext, htop₁⟩ := hdone hr₁
  have hfind₁ : b₁.halprFindCompById compId = some comp := by
    unfold HalBlock.halprFindCompById at hfind ⊢
    rwa [hcomps₁]
  obtain ⟨r₂, b₂, hrun₂, hsound₂, -, hthreads₂, -, hrefused⟩ := halPinNewf_spec hsound₁
    (show HalType.s32.isValue = true from rfl) (hlock₁ ▸ hlock) hfind₁ (haddr 32 (by decide) (by decide))
    (by rw [hcomps₁]; exact hready) (timeName name)
  have hpin : b₁.pinRefused (timeName name) b₁.shmemTop =
      b.pinRefused (timeName name) (b.params.topAfter param b.shmemTop) := by
    unfold pinRefused
    rw [hpins₁, hbot₁, htop₁]
  rw [hpin] at hrefused
  have hfit : (b.lock &&& halLockLoad == 0 &&
      !b.params.nameTaken ParamStruct.name (snprintf (halNameLen + 1) (tmaxName name)) b.params.list) = true := by
    rw [show tmaxName name = snprintf (halNameLen + 1) (name ++ [46, 116, 109, 97, 120]) from rfl,
      htaken, beq_iff_eq.2 hlock]
    rfl
  rw [if_neg (not_not.2 hr₁), hrun₂, hnext]
  dsimp only [Except.bind]
  rw [hfit, Bool.true_and]
  by_cases hr₂ : r₂ = 0
  · obtain ⟨r₃, b₃, hrun₃, -⟩ := halReady_returns hsound₂ compId
    have hthreads₃ : b₃.threads = b₂.threads := by
      have heq := halReady_eq hsound₂.mutex compId
      rw [hrun₃] at heq
      split at heq
      · cases heq
        rfl
      split at heq
      · cases heq
        rfl
      · cases heq
        rfl
    rw [if_neg (not_not.2 hr₂), hrun₃]
    refine ⟨_, _, rfl, by rw [hthreads₃, hthreads₂, hthreads₁], ⟨fun _ => ?_, fun _ => hid⟩⟩
    rw [hrefused.1 hr₂]
    rfl
  · rw [if_pos hr₂]
    refine ⟨_, _, rfl, by rw [hthreads₂, hthreads₁], ⟨fun hneg => absurd hneg (by decide), fun hfits => ?_⟩⟩
    exact absurd (hrefused.2 (by simpa using hfits)) hr₂

/-- The end of `hal_create_thread` keeps the threads, and fails unless its component, parameter and pin are there. -/
theorem finishThread_spec (h : b.Sound) (rt : ThreadAnswer) {new : Int} (hnew : 0 < new ∧ new + 120 ≤ halSize)
    (name : CString) :
    ∃ r b', finishThread rt new name b = .ok (r, b') ∧ b'.threads.list = b.threads.list ∧
      (0 ≤ r ↔ b.threadItems rt name b.shmemTop = true) := by
  have hinit := halInit_eq h.mutex rt.moduleId (some (pseudoName name))
  have hreturns := halInit_returns h rt.moduleId (some (pseudoName name))
  unfold threadItems finishThread
  cases hcheck : b.compError rt.moduleId (some (pseudoName name)) with
  | some e =>
    have hneg := compError_neg hcheck
    rw [hcheck] at hinit
    rw [hinit]
    dsimp only [Except.bind]
    rw [if_pos hneg]
    exact ⟨_, _, rfl, rfl, by simp [einval]⟩
  | none =>
    have hpos := compError_none hcheck
    rw [hcheck] at hinit
    dsimp only at hinit
    cases htake : b.takeComp with
    | none =>
      rw [htake] at hinit
      rw [hinit, HalPool.alloc_eq_none.1 htake]
      dsimp only [Except.bind]
      rw [if_pos enomem_neg]
      exact ⟨_, _, rfl, rfl, by simp [einval]⟩
    | some x =>
      obtain ⟨comp, comps, top⟩ := x
      obtain ⟨hnext, htop⟩ := HalPool.alloc_next htake
      rw [htake] at hinit
      obtain ⟨r₁, b₁, hrun₁, hsound₁⟩ := hreturns
      rw [hinit] at hrun₁ ⊢
      cases hrun₁
      -- `b₂` is the block once the thread knows its component
      obtain ⟨b₂, hb₂⟩ : ∃ b₂ : HalBlock, b₂ = { b with
          comps := putComp rt.moduleId comp comps, shmemTop := top
          threads := b.threads.set new fun p => { p with compId := rt.moduleId } } := ⟨_, rfl⟩
      have hsound₂ : b₂.Sound := hb₂ ▸ hsound₁.setThread new fun p => { p with compId := rt.moduleId }
      obtain ⟨hfind, hready⟩ := putComp_found (b := b₂) (by rw [hb₂])
      obtain ⟨r, b', hrun, hthreads, hfits⟩ := threadItems_spec hsound₂ hfind hready hpos hnew name
      have hitems : b₂.itemsFit name b₂.shmemTop = b.itemsFit name (b.comps.topAfter comp b.shmemTop) := by
        rw [hb₂, ← htop]
        rfl
      refine ⟨r, b', ?_, ?_, ?_⟩
      · rw [← hrun, hb₂]
        exact if_neg (by omega)
      · rw [hthreads, hb₂]
        rfl
      · rw [hfits, hitems, hnext]
        rfl

/-- The structure of a thread whose task does not run is on no list any more. -/
theorem thread_lost (h : b.Sound) {new top base : Int} {threads : HalPool ThreadStruct} {cell : Int → ThreadStruct}
    (htake : b.takeThread = some (new, threads, top)) :
    ¬ b.Unharmed (b.withThread new ⟨b.threads.list, threads.free, cell⟩ top base) := by
  intro hclean
  obtain ⟨htakes, -, -⟩ := HalPool.alloc_takes htake
  obtain ⟨hpool, -, es, hnone, habove, hes⟩ := h.takeThread htake
  rcases htakes.source with ⟨hfree, -⟩ | ⟨hfree, hfree', hdn, htop⟩
  · have hkept := hclean.threads.free new (by simp [hfree])
    exact (List.nodup_cons.1 hpool.nodup).1 (List.mem_append_right _ hkept)
  · have hbound := (shmallocDn_bound hdn (by decide)).2
    have hbelow : new < b.shmemTop := by omega
    have hnot : ∀ {α : Type} {size : Int} {pool : HalPool α}, PoolOk size b.shmemTop pool.list pool.free →
        ¬ pool.Holds size new := by
      rintro α size pool hok ⟨p, hp, hle, -⟩
      have := (hok.bound p hp).1
      omega
    have hthreads : PoolOk 120 b.shmemTop b.threads.list [] :=
      ⟨(List.nodup_append.1 h.threads.nodup).1 |> fun hl => by simpa using hl,
        fun p hp => h.threads.bound p (List.mem_append_left _ (by simpa using hp))⟩
    have hlost : EntriesOk top b.functs.cell b.functs.list ([] ++ b.threads.list) (new :: threads.free) b.entries
        (b.links.init (functList new)) es := EntriesOk.retire hes hnone
    -- carved off the top, the structure is in no list and no entry lies there
    rcases hclean.carved new (le_of_eq htop) hbelow with hc | hc | hc | hc | hc | ⟨r, hr, e, he, hle, -⟩
    · exact hnot h.comps hc
    · exact hnot h.pins hc
    · exact hnot h.params hc
    · exact hnot h.functs hc
    · refine hnot ?_ hc
      show PoolOk 120 b.shmemTop b.threads.list threads.free
      rw [hfree']
      exact hthreads
    · have hlist : (b.withThread new ⟨b.threads.list, threads.free, cell⟩ top base).entriesOf r = es r :=
        EntriesIn.entriesOf_eq (b := b.withThread new ⟨b.threads.list, threads.free, cell⟩ top base) hlost
          (ringRoots_append _ hr)
      rw [hlist] at he
      have := habove r hr e he
      omega

/-- A thread takes a structure, and what follows fails. -/
theorem createThread_atomic_iff (h : b.Sound) (rt : ThreadAnswer) (name : CString) (period : UInt64)
    (usesFp priority : Int) :
    (BlockCall.createThread rt name period usesFp priority).Atomic b ↔ b.threadStays rt name period = false := by
  unfold threadStays
  cases hcheck : b.threadError name period with
  | some e =>
    have hrun := halCreateThread_error h.mutex rt usesFp priority (.inl hcheck)
    exact ⟨fun _ => rfl, fun _ => BlockCall.Atomic.same hrun⟩
  | none =>
    cases htake : b.takeThread with
    | none =>
      have hrun := halCreateThread_error h.mutex rt usesFp priority (.inr ⟨hcheck, htake, rfl⟩)
      rw [HalPool.alloc_eq_none.1 htake]
      exact ⟨fun _ => rfl, fun _ => BlockCall.Atomic.same hrun⟩
    | some x =>
      obtain ⟨new, threads, top⟩ := x
      obtain ⟨hnext, htop⟩ := HalPool.alloc_next htake
      obtain ⟨cell, base, -, hrun⟩ := halCreateThread_taken h.mutex rt usesFp priority hcheck htake
      obtain ⟨hpool, ⟨hbot, htop'⟩, es, -, -, hes⟩ := h.takeThread htake
      rw [hnext]
      dsimp only [Option.isNone_none]
      rw [← htop, Bool.true_and, Bool.not_eq_false']
      -- without a task the structure of the thread is lost
      cases htask : b.taskRuns rt period with
      | false =>
        rw [htask, if_neg Bool.false_ne_true] at hrun
        refine ⟨fun hatomic => absurd hatomic ?_, fun hfalse => absurd hfalse (by simp)⟩
        exact BlockCall.not_atomic hrun einval_neg fun hclean => thread_lost h htake hclean.1
      | true =>
        rw [htask, if_pos rfl] at hrun
        have hsound : (b.withThread new ⟨new :: b.threads.list, threads.free, cell⟩ top base).Sound :=
          h.withThread hbot htop' hpool hes base
        have hbound := hpool.bound new List.mem_cons_self
        have hpos : 0 < new := by
          have := h.memory
          omega
        obtain ⟨r, b', hfinish, hthreads, hitems⟩ := finishThread_spec hsound rt ⟨hpos, hbound.2⟩ name
        have hrun' : (BlockCall.createThread rt name period usesFp priority).run b = .ok (r, b') := hrun.trans hfinish
        have hsame : (b.withThread new ⟨new :: b.threads.list, threads.free, cell⟩ top base).threadItems rt name
            (b.withThread new ⟨new :: b.threads.list, threads.free, cell⟩ top base).shmemTop =
            b.threadItems rt name top := rfl
        rw [hsame] at hitems
        rw [Bool.true_and, ← hitems]
        refine ⟨fun hatomic => ?_, fun hr => BlockCall.Atomic.success hrun' hr⟩
        by_contra hr
        refine BlockCall.not_atomic hrun' (by omega) (fun hclean => ?_) hatomic
        have hlist : b'.threads.list = b.threads.list := hclean.1.threads.list
        rw [hthreads] at hlist
        have hlen : (new :: b.threads.list).length = b.threads.list.length := congrArg List.length hlist
        simp at hlen

/-- An entry is written to before it is known that there was memory for it. -/
theorem addFunct_atomic_iff (h : b.Sound) (functName threadName : Option CString) (position : Int) :
    (BlockCall.addFunct functName threadName position).Atomic b ↔
      ((b.addPlace functName threadName position).isOk && b.noEntry) = false := by
  have hrun := halAddFunctToThread_eq h.mutex functName threadName position
  cases hplace : b.addPlace functName threadName position with
  | error e =>
    rw [hplace] at hrun
    exact ⟨fun _ => rfl, fun _ => BlockCall.Atomic.same hrun⟩
  | ok place =>
    rw [hplace] at hrun
    show _ ↔ (true && b.noEntry) = false
    rw [Bool.true_and]
    cases hroom : b.noEntry with
    | true =>
      refine ⟨fun ⟨r, b', hcall, _⟩ => ?_, fun hfalse => absurd hfalse (by simp)⟩
      rw [BlockCall.run_starves h.mutex (c := .addFunct functName threadName position)
        (by show ((b.addPlace functName threadName position).isOk && b.noEntry) = true; rw [hplace, hroom]; rfl)] at hcall
      cases hcall
    | false =>
      refine ⟨fun _ => rfl, fun _ => ?_⟩
      obtain ⟨r, b', hcall, -⟩ := h.linkEntry hplace hroom
      rw [hcall] at hrun
      dsimp only at hrun
      cases halloc : b.allocFunctEntryStruct with
      | error e =>
        rw [halloc] at hrun
        cases hrun
      | ok x =>
        rw [halloc] at hrun
        cases hrun
        exact BlockCall.Atomic.success hcall (le_refl 0)

/-! ### Every registration -/

variable {c : BlockCall}

/-- In every block that a run reaches, a registration that fails leaves no trace exactly if it does not fail late. -/
theorem hal_registration_atomic_iff {b₀ : HalBlock} (h : b₀.Empty) (hrun : Reaches blockStep b₀ b) (hc : c.Registers) :
    c.Atomic b ↔ c.failsLate b = false := by
  have hsound := h.reaches hrun
  cases c
  case pinNew name type dataPtrAddr compId => exact pinNew_atomic_iff hsound name type dataPtrAddr compId
  case paramNew name type dir dataAddr compId =>
    exact ⟨fun _ => rfl, fun _ => paramNew_atomic hsound name type dir dataAddr compId⟩
  case exportFunct name funct arg usesFp reentrant compId =>
    exact exportFunct_atomic_iff hsound name funct arg usesFp reentrant compId
  case createThread rt name period usesFp priority =>
    exact createThread_atomic_iff hsound rt name period usesFp priority
  case addFunct functName threadName position => exact addFunct_atomic_iff hsound functName threadName position
  all_goals cases hc

/-- A component with a pin, and a thread. -/
def threadCalls : List BlockCall := pinCalls ++ [.createThread ⟨2, 3, 0⟩ [116] 1000000 1 0]

/-- A second thread of one name fails and leaves no trace, a second pin of one name does not. -/
theorem hal_registration_atomic_iff_threadCalls :
    ∃ rs b, runCalls BlockCall.call threadCalls zeroBlock.initialised = some (rs, b) ∧ rs = [1, 256, 0, 2] ∧
      (BlockCall.createThread ⟨3, 4, 0⟩ [116] 1000000 1 0).Atomic b ∧
      ¬ (BlockCall.pinNew [112] .bit 264 1).Atomic b := by
  have hsome : ((runCalls BlockCall.call threadCalls zeroBlock.initialised).map fun x =>
      (x.1, (BlockCall.createThread ⟨3, 4, 0⟩ [116] 1000000 1 0).failsLate x.2,
        (BlockCall.pinNew [112] .bit 264 1).failsLate x.2)) = some ([1, 256, 0, 2], false, true) := by
    decide +kernel
  obtain ⟨⟨rs, b⟩, hrun, heq⟩ := Option.map_eq_some_iff.1 hsome
  simp only [Prod.mk.injEq] at heq
  obtain ⟨hrs, hthread, hpin⟩ := heq
  have hin : ∀ c ∈ threadCalls, c.InRun := by
    intro c hc
    rcases List.mem_append.1 hc with hc | hc
    · exact pinCalls_inRun c hc
    · rw [List.mem_singleton.1 hc]
      exact trivial
  have hreach : Reaches blockStep zeroBlock.initialised b :=
    runCalls_reaches (fun b c r b' hc hcall => ⟨hin c hc, r, BlockCall.call_eq_some.1 hcall⟩) hrun
  have hthreadIff : (BlockCall.createThread ⟨3, 4, 0⟩ [116] 1000000 1 0).Atomic b ↔ _ :=
    hal_registration_atomic_iff zeroBlock_empty hreach trivial
  have hpinIff : (BlockCall.pinNew [112] .bit 264 1).Atomic b ↔ _ :=
    hal_registration_atomic_iff zeroBlock_empty hreach trivial
  refine ⟨rs, b, hrun, hrs, hthreadIff.2 hthread, fun hatomic => ?_⟩
  rw [hpin] at hpinIff
  cases hpinIff.1 hatomic

/-- A second pin of one name fails, and the caller's pointer points into the structure that has been freed. -/
theorem hal_pinNew_movesPointer :
    ∃ b, Reaches blockStep zeroBlock.initialised b ∧ ¬ (BlockCall.pinNew [112] .bit 264 1).Atomic b := by
  have hrun : ((runCalls BlockCall.call pinCalls zeroBlock.initialised).bind fun x =>
      (BlockCall.call (.pinNew [112] .bit 264 1) x.2).map fun y => (y.1, x.2.ptrs 264, y.2.ptrs 264)) =
      some (-22, 0, 1048272) := by
    decide +kernel
  obtain ⟨⟨rs, b⟩, hcalls, hrest⟩ := Option.bind_eq_some_iff.1 hrun
  obtain ⟨⟨r, b'⟩, hpin, heq⟩ := Option.map_eq_some_iff.1 hrest
  simp only [Prod.mk.injEq] at heq
  obtain ⟨hr, hbefore, hafter⟩ := heq
  refine ⟨b, runCalls_reaches ?_ hcalls, ?_⟩
  · intro b c r b' hc hcall
    exact ⟨pinCalls_inRun c hc, r, BlockCall.call_eq_some.1 hcall⟩
  · refine BlockCall.not_atomic (BlockCall.call_eq_some.1 hpin) (by omega) fun hclean => ?_
    have hsame := hclean.2 264 rfl
    omega

end SoemMotion
