import SoemMotion.HalPosition
import SoemMotion.HalOwnership
import SoemMotion.Lib.Cursor

/-!
# What a call does to the functions of a thread

The entries of a thread are its list of what to call.  A call of the library takes entries out of it or puts one in,
and leaves the others in their order and as they were; what is new holds the code and the argument of its function
(`HalBlock.Relinks`).  In every block that a run reaches each entry therefore holds what its function was exported with
(`HalBlock.Wired`).
-/

namespace SoemMotion

open Lib HalBlock

/-! ### Lists of entries that change -/

/-- The entry holds the code and the argument of the function it refers to. -/
def HalBlock.Holds (b : HalBlock) (e : Int) : Prop :=
  (b.entries e).arg = (b.functs.cell (b.entries e).functPtr).arg ∧
    (b.entries e).funct = (b.functs.cell (b.entries e).functPtr).funct

/-- The entries of the threads have been relinked: a thread that is new has none, and the entries of the others are
those they had, in the same order, or new ones. -/
structure HalBlock.Relinks (b b' : HalBlock) : Prop where
  codes : ∀ f ∈ b.functs.list, f ∈ b'.functs.list →
    (b'.functs.cell f).arg = (b.functs.cell f).arg ∧ (b'.functs.cell f).funct = (b.functs.cell f).funct
  fresh : ∀ t ∈ b'.threads.list, t ∉ b.threads.list → b'.entriesOf (functList t) = []
  order : ∀ t ∈ b'.threads.list, t ∈ b.threads.list → SameOrder (b.entriesOf (functList t)) (b'.entriesOf (functList t))
  entry : ∀ t ∈ b'.threads.list, ∀ e ∈ b'.entriesOf (functList t),
    (t ∈ b.threads.list ∧ e ∈ b.entriesOf (functList t) ∧ b'.entries e = b.entries e) ∨ b'.Holds e

/-- Neither functions nor threads nor their entries have changed. -/
structure HalBlock.Quiet (b b' : HalBlock) : Prop where
  functs : b'.functs = b.functs
  threads : b'.threads.list = b.threads.list
  entries : b'.entries = b.entries
  links : b'.links = b.links

namespace HalBlock

variable {b b' b'' : HalBlock}

theorem entriesOf_congr (hlinks : b'.links = b.links) (root : Int) : b'.entriesOf root = b.entriesOf root := by
  unfold entriesOf
  rw [hlinks]

theorem Quiet.refl (b : HalBlock) : b.Quiet b := ⟨rfl, rfl, rfl, rfl⟩

theorem Quiet.trans (h : b.Quiet b') (h' : b'.Quiet b'') : b.Quiet b'' :=
  ⟨h'.functs.trans h.functs, h'.threads.trans h.threads, h'.entries.trans h.entries, h'.links.trans h.links⟩

/-- The lists of the threads have lost entries, and nothing else. -/
theorem Relinks.of_fewer (kept : Int → Bool) (hsub : ∀ t ∈ b'.threads.list, t ∈ b.threads.list)
    (hcodes : ∀ f ∈ b.functs.list, f ∈ b'.functs.list →
      (b'.functs.cell f).arg = (b.functs.cell f).arg ∧ (b'.functs.cell f).funct = (b.functs.cell f).funct)
    (hlists : ∀ t ∈ b'.threads.list, b'.entriesOf (functList t) = (b.entriesOf (functList t)).filter kept)
    (hentry : ∀ t ∈ b'.threads.list, ∀ e ∈ b'.entriesOf (functList t), b'.entries e = b.entries e) : b.Relinks b' := by
  refine ⟨hcodes, fun t ht hnot => absurd (hsub t ht) hnot, fun t ht _ => ?_, fun t ht e he => ?_⟩
  · rw [hlists t ht]
    exact SameOrder.filter _ _
  · refine .inl ⟨hsub t ht, ?_, hentry t ht e he⟩
    rw [hlists t ht] at he
    exact (List.mem_filter.1 he).1

/-- The entries are those they were, for the threads that are left. -/
theorem Relinks.of_same (hsub : ∀ t ∈ b'.threads.list, t ∈ b.threads.list)
    (hcodes : ∀ f ∈ b.functs.list, f ∈ b'.functs.list →
      (b'.functs.cell f).arg = (b.functs.cell f).arg ∧ (b'.functs.cell f).funct = (b.functs.cell f).funct)
    (hlists : ∀ t ∈ b'.threads.list, b'.entriesOf (functList t) = b.entriesOf (functList t))
    (hentry : ∀ t ∈ b'.threads.list, ∀ e ∈ b'.entriesOf (functList t), b'.entries e = b.entries e) : b.Relinks b' :=
  Relinks.of_fewer (fun _ => true) hsub hcodes (fun t ht => by rw [hlists t ht, List.filter_true]) hentry

theorem Quiet.relinks (h : b.Quiet b') : b.Relinks b' :=
  Relinks.of_same (fun _ ht => h.threads ▸ ht) (fun f _ _ => by rw [h.functs]; exact ⟨rfl, rfl⟩)
    (fun t _ => entriesOf_congr h.links _) fun _ _ _ _ => by rw [h.entries]

/-- What follows leaves the entries alone. -/
theorem Relinks.quiet (h : b.Relinks b') (h' : b'.Quiet b'') : b.Relinks b'' := by
  have hlists : ∀ root, b''.entriesOf root = b'.entriesOf root := fun root => entriesOf_congr h'.links root
  refine ⟨?_, ?_, ?_, ?_⟩
  · rw [h'.functs]
    exact h.codes
  · intro t ht hnot
    rw [hlists]
    exact h.fresh t (h'.threads ▸ ht) hnot
  · intro t ht hold
    rw [hlists]
    exact h.order t (h'.threads ▸ ht) hold
  · intro t ht e he
    rw [hlists] at he
    unfold Holds
    rw [h'.entries, h'.functs]
    exact h.entry t (h'.threads ▸ ht) e he

/-- A call after which the entries have been relinked. -/
def Relinked (b : HalBlock) (run : HalRun (Int × HalBlock)) : Prop := ∀ r b', run = .ok (r, b') → b.Relinks b'

/-- A call that leaves functions, threads and entries alone. -/
def Quietly (b : HalBlock) (run : HalRun (Int × HalBlock)) : Prop := ∀ r b', run = .ok (r, b') → b.Quiet b'

theorem Relinked.ok {r : Int} (h : b.Relinks b') : b.Relinked (.ok (r, b')) := by
  intro r' b'' heq
  cases heq
  exact h

theorem Relinked.error (e : HalFault) : b.Relinked (.error e) := fun _ _ h => (nomatch h)

theorem Quietly.ok {r : Int} (h : b.Quiet b') : b.Quietly (.ok (r, b')) := by
  intro r' b'' heq
  cases heq
  exact h

theorem Quietly.error (e : HalFault) : b.Quietly (.error e) := fun _ _ h => (nomatch h)

theorem Quietly.relinked {run : HalRun (Int × HalBlock)} (h : b.Quietly run) : b.Relinked run :=
  fun r b' hrun => (h r b' hrun).relinks

/-- A call after which another one is made, from a sound block. -/
theorem Quietly.bind {run : HalRun (Int × HalBlock)} {k : Int × HalBlock → HalRun (Int × HalBlock)} (h : b.Quietly run)
    (hsound : Returns run) (hk : ∀ r (b' : HalBlock), b'.Sound → b'.Quietly (k (r, b'))) : b.Quietly (run.bind k) := by
  obtain ⟨r, b₁, rfl, hb₁⟩ := hsound
  intro r' b' hrun
  exact (h r b₁ rfl).trans (hk r b₁ hb₁ r' b' hrun)

/-! ### Components, pins and parameters -/

theorem halInit_quietly (h : b.Sound) (moduleId : Int) (name : Option CString) :
    b.Quietly (b.halInit moduleId name) := by
  rw [halInit_eq h.mutex]
  split
  · exact Quietly.ok (Quiet.refl b)
  split
  · exact Quietly.ok (Quiet.refl b)
  · exact Quietly.ok ⟨rfl, rfl, rfl, rfl⟩

theorem halReady_quietly (h : b.Sound) (compId : Int) : b.Quietly (b.halReady compId) := by
  rw [halReady_eq h.mutex]
  split
  · exact Quietly.ok (Quiet.refl b)
  split
  · exact Quietly.ok (Quiet.refl b)
  · exact Quietly.ok ⟨rfl, rfl, rfl, rfl⟩

theorem halPinNew_quietly (h : b.Sound) (name : CString) (type : HalType) (addr compId : Int) :
    b.Quietly (b.halPinNew name type addr compId) := by
  rw [halPinNew_eq h.mutex]
  split
  · exact Quietly.ok (Quiet.refl b)
  split
  · exact Quietly.ok (Quiet.refl b)
  · split
    · exact Quietly.error _
    · exact Quietly.ok ⟨rfl, rfl, rfl, rfl⟩
  · exact Quietly.ok ⟨rfl, rfl, rfl, rfl⟩

theorem halPinNewf_quietly (h : b.Sound) (type : HalType) (addr compId : Int) (name : CString) :
    b.Quietly (b.halPinNewf type addr compId name) := by
  unfold halPinNewf
  split
  · exact Quietly.ok (Quiet.refl b)
  · exact halPinNew_quietly h name type addr compId

theorem halParamNew_quietly (h : b.Sound) (name : CString) (type : HalType) (dir : HalParamDir) (addr compId : Int) :
    b.Quietly (b.halParamNew name type dir addr compId) := by
  rw [halParamNew_eq h.mutex]
  split
  · exact Quietly.ok (Quiet.refl b)
  split
  · exact Quietly.ok (Quiet.refl b)
  · split
    · exact Quietly.error _
    · exact Quietly.ok ⟨rfl, rfl, rfl, rfl⟩
  · exact Quietly.ok ⟨rfl, rfl, rfl, rfl⟩

/-! ### Functions -/

theorem finishFunct_quietly (h : b.Sound) (new : Int) (name : CString) (compId : Int) :
    b.Quietly (finishFunct new name compId b) := by
  refine (halPinNewf_quietly h _ _ _ _).bind (halPinNewf_returns h _ _ _ _) fun r b hb => ?_
  dsimp only
  split
  · exact Quietly.ok (Quiet.refl b)
  · refine (halParamNew_quietly hb _ _ _ _ _).bind (halParamNew_returns hb _ _ _ _ _) fun _ b hb => ?_
    refine (halParamNew_quietly hb _ _ _ _ _).bind (halParamNew_returns hb _ _ _ _ _) fun _ b hb => ?_
    exact Quietly.ok (Quiet.refl b)

/-- A function structure is written that is not on the list. -/
theorem Relinks.of_funct {functs : HalPool FunctStruct} {new top : Int} {ptrs : Int → Int} (hnew : new ∉ b.functs.list)
    (hcell : ∀ p ≠ new, functs.cell p = b.functs.cell p) :
    b.Relinks { b with functs := functs, shmemTop := top, ptrs := ptrs } := by
  refine Relinks.of_same (fun _ ht => ht) (fun f hf _ => ?_) (fun _ _ => rfl) fun _ _ _ _ => rfl
  have hne : f ≠ new := fun heq => hnew (heq ▸ hf)
  show (functs.cell f).arg = _ ∧ (functs.cell f).funct = _
  rw [hcell f hne]
  exact ⟨rfl, rfl⟩

theorem halExportFunct_relinked (h : b.Sound) (name : CString) (funct arg usesFp reentrant compId : Int) :
    b.Relinked (b.halExportFunct name funct arg usesFp reentrant compId) := by
  rw [halExportFunct_eq h.mutex]
  cases b.functOwner name compId with
  | error e => exact Relinked.ok (Quiet.refl b).relinks
  | ok comp =>
    dsimp only
    cases hput : b.putFunct name funct arg usesFp reentrant comp with
    | full => exact Relinked.ok (Quiet.refl b).relinks
    | taken new functs top =>
      obtain ⟨htaken, -⟩ := HalPool.put_taken hput
      have hnew := PoolOk.new_not_mem h.functs htaken.takes (by decide) h.memory.2
      exact Relinked.ok (Relinks.of_funct hnew (htaken.release_cell _))
    | placed new functs top =>
      obtain ⟨htaken, -⟩ := HalPool.put_placed hput
      have hnew := PoolOk.new_not_mem h.functs htaken.takes (by decide) h.memory.2
      have hcell : ∀ p ≠ new, functs.cell p = b.functs.cell p := by
        intro p hp
        rw [htaken.cell, Function.update_of_ne hp]
      intro r b' hrun
      have hplaced : b.Relinks { b with functs := functs, shmemTop := top } := Relinks.of_funct hnew hcell
      exact hplaced.quiet (finishFunct_quietly (h.placeFunct hput) new name compId r b' hrun)

/-! ### Threads -/

theorem finishThread_quietly (h : b.Sound) (rt : ThreadAnswer) (new : Int) (name : CString) :
    b.Quietly (finishThread rt new name b) := by
  refine (halInit_quietly h _ _).bind (halInit_returns h _ _) fun compId b hb => ?_
  dsimp only
  have hb' := hb.setThread new fun p => { p with compId := compId }
  have hsame : b.Quiet { b with threads := b.threads.set new fun p => { p with compId := compId } } :=
    ⟨rfl, rfl, rfl, rfl⟩
  split
  · exact Quietly.ok hsame
  · intro r b' hrun
    refine hsame.trans (Quietly.bind (halParamNew_quietly hb' _ _ _ _ _) (halParamNew_returns hb' _ _ _ _ _) ?_
      r b' hrun)
    intro _ b hb
    dsimp only
    split
    · exact Quietly.ok (Quiet.refl b)
    · refine (halPinNewf_quietly hb _ _ _ _).bind (halPinNewf_returns hb _ _ _ _) fun _ b hb => ?_
      dsimp only
      split
      · exact Quietly.ok (Quiet.refl b)
      · refine (halReady_quietly hb _).bind (halReady_returns hb _) fun _ b hb => ?_
        exact Quietly.ok (Quiet.refl b)

/-- The ring of a new thread is made, and no other one touched. -/
theorem Sound.withThread_relinks (h : b.Sound) {new top base : Int} {threads threads' : HalPool ThreadStruct}
    (htake : b.takeThread = some (new, threads, top))
    (hlist : ∀ t ∈ threads'.list, t = new ∨ t ∈ b.threads.list) : b.Relinks (b.withThread new threads' top base) := by
  obtain ⟨htakes, -, -⟩ := HalPool.alloc_takes htake
  obtain ⟨hpool, hbot, htop, -⟩ := h.threads.takes htakes (by decide) h.memory.2
  obtain ⟨es, hes⟩ := h.entries
  obtain ⟨d, hd⟩ : ∃ d : HalBlock, d = { b with shmemTop := top, links := b.links.init (functList new) } := ⟨_, rfl⟩
  have hok : d.EntriesIn b.functs.list (new :: b.threads.list) threads.free
      (Function.update es (functList new) []) := by
    rw [hd]
    exact takesThread hes htakes hpool h.memory.1 hbot htop
  have hnot : new ∉ b.threads.list := fun hmem => (List.nodup_cons.1 hpool.nodup).1 (List.mem_append_left _ hmem)
  have hlinks : (b.withThread new threads' top base).links = d.links := by rw [hd]; rfl
  have hnewList : (b.withThread new threads' top base).entriesOf (functList new) = [] := by
    rw [entriesOf_congr hlinks, hok.entriesOf_eq (mem_ringRoots (List.mem_append_left _ List.mem_cons_self)),
      Function.update_self]
  have hold : ∀ t ∈ b.threads.list,
      (b.withThread new threads' top base).entriesOf (functList t) = b.entriesOf (functList t) := by
    intro t ht
    have hne : t ≠ new := fun heq => hnot (heq ▸ ht)
    rw [entriesOf_congr hlinks, hok.entriesOf_eq (mem_ringRoots (List.mem_append_left _ (List.mem_cons_of_mem _ ht))),
      hes.entriesOf_eq (mem_ringRoots (List.mem_append_left _ ht)), Function.update_of_ne (mt functList_inj.1 hne)]
  refine ⟨fun f _ _ => ⟨rfl, rfl⟩, ?_, ?_, ?_⟩
  · intro t ht hfresh
    rcases hlist t ht with rfl | hmem
    · exact hnewList
    · exact absurd hmem hfresh
  · intro t _ hmem
    rw [hold t hmem]
    exact SameOrder.refl _
  · intro t ht e he
    rcases hlist t ht with rfl | hmem
    · rw [hnewList] at he
      cases he
    · rw [hold t hmem] at he
      exact .inl ⟨hmem, he, rfl⟩

theorem halCreateThread_relinked (h : b.Sound) (rt : ThreadAnswer) (name : CString) (period : UInt64)
    (usesFp priority : Int) : b.Relinked (b.halCreateThread rt name period usesFp priority) := by
  cases hcheck : b.threadError name period with
  | some e =>
    rw [halCreateThread_error h.mutex rt usesFp priority (.inl hcheck)]
    exact Relinked.ok (Quiet.refl b).relinks
  | none =>
    cases htake : b.takeThread with
    | none =>
      rw [halCreateThread_error h.mutex rt usesFp priority (.inr ⟨hcheck, htake, rfl⟩)]
      exact Relinked.ok (Quiet.refl b).relinks
    | some x =>
      obtain ⟨new, threads, top⟩ := x
      obtain ⟨cell, base, -, hrun⟩ := halCreateThread_taken h.mutex rt usesFp priority hcheck htake
      obtain ⟨hpool, ⟨hbot, htop⟩, es, -, -, hes⟩ := h.takeThread htake
      rw [hrun]
      split
      · intro r b' hfinish
        have hmade : b.Relinks (b.withThread new ⟨new :: b.threads.list, threads.free, cell⟩ top base) :=
          h.withThread_relinks htake fun t ht => List.mem_cons.1 ht
        exact hmade.quiet (finishThread_quietly (h.withThread hbot htop hpool hes base) rt new name r b' hfinish)
      · exact Relinked.ok (h.withThread_relinks htake fun t ht => .inr ht)

/-- A thread has been taken from the list and freed: the others have the entries they had. -/
theorem freeThread_relinks (h : b.rtapiMutexGive.Sound) {ts₁ ts₂ : List Int} {t : Int}
    (hlist : b.threads.list = ts₁ ++ t :: ts₂)
    (hrun : freeThreadStruct t { b with threads := { b.threads with list := ts₁ ++ ts₂ } } = .ok b') :
    b.Relinks b' ∧ b'.threads.list = ts₁ ++ ts₂ := by
  obtain ⟨es, hes⟩ := h.entries
  have hes' : EntriesOk b.shmemTop b.functs.cell b.functs.list (ts₁ ++ t :: ts₂) b.threads.free b.entries b.links es :=
    hlist ▸ hes
  obtain ⟨b₁, es', x, hfree, hok, hlists, hcell, hframe⟩ :=
    freeThreadStruct_spec (b := { b with threads := { b.threads with list := ts₁ ++ ts₂ } }) hes'
  cases hrun.symm.trans hfree
  have hthreads : b'.threads.list = ts₁ ++ ts₂ := by rw [hframe]
  have hsub : ∀ s ∈ b'.threads.list, s ∈ b.threads.list := by
    intro s hs
    rw [hthreads] at hs
    rw [hlist]
    exact (List.Sublist.append_left (List.sublist_cons_self t ts₂) ts₁).subset hs
  have hnew : ∀ s ∈ b'.threads.list, b'.entriesOf (functList s) = es (functList s) := by
    intro s hs
    rw [hthreads] at hs
    rw [hok.entriesOf_eq (mem_ringRoots (List.mem_append_left _ hs)), (hlists s hs).1]
  have hold : ∀ s ∈ b'.threads.list, b.entriesOf (functList s) = es (functList s) :=
    fun s hs => EntriesIn.entriesOf_eq (b := b) hes (mem_ringRoots (List.mem_append_left _ (hsub s hs)))
  refine ⟨Relinks.of_same hsub (fun f _ _ => ?_) (fun s hs => (hnew s hs).trans (hold s hs).symm) fun s hs e he => ?_,
    hthreads⟩
  · rw [hcell f]
    exact ⟨rfl, rfl⟩
  · rw [hnew s hs] at he
    exact (hlists s (hthreads ▸ hs)).2 e he

theorem halThreadDelete_relinked (h : b.Sound) (name : CString) : b.Relinked (b.halThreadDelete name) := by
  cases hdead : b.deletesComponent name with
  | true =>
    rw [halThreadDelete_deadlock h.mutex hdead]
    exact Relinked.error _
  | false =>
    rw [halThreadDelete_free h.mutex hdead]
    split
    · exact Relinked.ok (Quiet.refl b).relinks
    cases ht : b.halprFindThreadByName name with
    | none => exact Relinked.ok (Quiet.refl b).relinks
    | some t =>
      obtain ⟨ts₁, ts₂, hsplit, herase⟩ := eraseP_found ht
      obtain ⟨b₁, hfree, -, -, -⟩ := freeThread_spec (b := { b with mutex := true }) (h.give true) hsplit
      obtain ⟨hrelinks, -⟩ := freeThread_relinks (b := { b with mutex := true }) (h.give true) hsplit hfree
      dsimp only
      rw [herase, hfree]
      have hstart : b.Relinks b₁ :=
        ⟨hrelinks.codes, hrelinks.fresh, hrelinks.order, hrelinks.entry⟩
      exact Relinked.ok (hstart.quiet ⟨rfl, rfl, rfl, rfl⟩)

theorem freeThreads_list (h : b.rtapiMutexGive.Sound) {ts : List Int} (hlist : b.threads.list = ts)
    (hrun : freeThreads ts b = .ok b') : b'.threads.list = [] := by
  induction ts generalizing b with
  | nil =>
    cases hrun
    exact hlist
  | cons t ts ih =>
    obtain ⟨b₁, hfree, hsound, ⟨x, hthreads⟩, -⟩ :=
      freeThread_spec h (show b.threads.list = [] ++ t :: ts from hlist)
    unfold freeThreads at hrun
    rw [List.nil_append] at hfree
    rw [hfree] at hrun
    exact ih hsound (congrArg HalPool.list hthreads) hrun

theorem halAppExit_relinked (h : b.Sound) : b.Relinked b.halAppExit := by
  obtain ⟨b₁, hrun, -, hfreed⟩ := freeThreads_spec (b := { b with mutex := true }) (h.give true) rfl
  have hnone := freeThreads_list (b := { b with mutex := true }) (h.give true) rfl hrun
  have hexit : b.halAppExit = .ok (0, b₁.rtapiMutexGive) := by
    unfold halAppExit
    rw [rtapiMutexGet_free h.mutex]
    dsimp only
    rw [hrun]
    rfl
  have hempty : ∀ t, t ∉ b₁.rtapiMutexGive.threads.list := by
    intro t ht
    rw [show b₁.rtapiMutexGive.threads.list = [] from hnone] at ht
    cases ht
  rw [hexit]
  refine Relinked.ok ⟨fun f _ _ => ?_, fun t ht => absurd ht (hempty t), fun t ht => absurd ht (hempty t),
    fun t ht => absurd ht (hempty t)⟩
  show (b₁.functs.cell f).arg = _ ∧ (b₁.functs.cell f).funct = _
  rw [hfreed.cell f]
  exact ⟨rfl, rfl⟩

/-! ### Function entries -/

theorem halAddFunctToThread_relinked (h : b.Sound) (functName threadName : Option CString) (position : Int) :
    b.Relinked (b.halAddFunctToThread functName threadName position) := by
  cases hplace : b.addPlace functName threadName position with
  | error e =>
    rw [halAddFunctToThread_eq h.mutex, hplace]
    exact Relinked.ok (Quiet.refl b).relinks
  | ok place =>
    obtain ⟨funct, thread, entry⟩ := place
    cases hroom : b.noEntry with
    | true =>
      rw [halAddFunctToThread_eq h.mutex, hplace]
      dsimp only
      rw [allocFunctEntryStruct_null hroom]
      exact Relinked.error _
    | false =>
      obtain ⟨-, ht, -, hpoint⟩ := addPlace_ok hplace
      obtain ⟨es, hes⟩ := h.entries
      obtain ⟨as, bs, xs, hsplit, hp⟩ := exists_place (insertionPoint_mem hes (List.mem_append_left _ ht) hpoint)
      obtain ⟨new, top, links, es', hrun, -, hlinked, hthis, hother⟩ := h.links hes hplace hroom hsplit hp
      rw [hrun]
      refine Relinked.ok ?_
      obtain ⟨b', hb'⟩ : ∃ b' : HalBlock, b' = { b with
          shmemTop := top, links := links
          entries := Function.update b.entries new ⟨(b.functs.cell funct).arg, (b.functs.cell funct).funct, funct⟩
          functs := b.functs.set funct fun p => { p with users := p.users + 1 } } := ⟨_, rfl⟩
      have hok : b'.EntriesIn b.functs.list b.threads.list b.threads.free es' := by
        rw [hb']
        exact hlinked
      have hlists : ∀ t ∈ b.threads.list, b.entriesOf (functList t) = es (functList t) ∧
          b'.entriesOf (functList t) = es' (functList t) := fun t ht =>
        ⟨hes.entriesOf_eq (mem_ringRoots (List.mem_append_left _ ht)),
          hok.entriesOf_eq (mem_ringRoots (List.mem_append_left _ ht))⟩
      have hthreads : b'.threads.list = b.threads.list := by rw [hb']
      have hentries : b'.entries =
          Function.update b.entries new ⟨(b.functs.cell funct).arg, (b.functs.cell funct).funct, funct⟩ := by rw [hb']
      have hcode : ∀ f, (b'.functs.cell f).arg = (b.functs.cell f).arg ∧
          (b'.functs.cell f).funct = (b.functs.cell f).funct := by
        intro f
        rw [hb']
        show (Function.update b.functs.cell funct _ f).arg = _ ∧ (Function.update b.functs.cell funct _ f).funct = _
        by_cases hf : f = funct
        · rw [hf, Function.update_self]
          exact ⟨rfl, rfl⟩
        · rw [Function.update_of_ne hf]
          exact ⟨rfl, rfl⟩
      rw [← hb']
      refine ⟨fun f _ _ => hcode f, fun t ht hnot => absurd (hthreads ▸ ht) hnot, fun t _ hold => ?_,
        fun t ht e he => ?_⟩
      · rw [(hlists t hold).1, (hlists t hold).2]
        by_cases htt : t = thread
        · subst htt
          have hfresh := (hother t hold).2
          rw [hsplit] at hfresh
          rw [hthis, hsplit]
          exact SameOrder.insert hfresh
        · rw [(hother t hold).1 htt]
          exact SameOrder.refl _
      · rw [hthreads] at ht
        by_cases hnew : e = new
        · right
          unfold Holds
          rw [hentries, hnew, Function.update_self]
          exact ⟨(hcode funct).1.symm, (hcode funct).2.symm⟩
        · left
          refine ⟨ht, ?_, by rw [hentries, Function.update_of_ne hnew]⟩
          rw [(hlists t ht).2] at he
          rw [(hlists t ht).1]
          by_cases htt : t = thread
          · subst htt
            rw [hthis] at he
            rw [hsplit]
            rcases List.mem_append.1 he with he | he
            · exact List.mem_append_left _ he
            · exact List.mem_append_right _ ((List.mem_cons.1 he).resolve_left hnew)
          · rwa [(hother t ht).1 htt] at he

/-- Entries have left the threads for the free ring. -/
theorem Unhooked.relinks {fs spare gone : List Int} {es es' : Int → List Int}
    (hes : b.EntriesIn fs b.threads.list spare es) (hok : b'.EntriesIn fs b.threads.list spare es')
    (hout : Unhooked b.threads.list gone b es b' es') : b.Relinks b' := by
  have hthreads : b'.threads.list = b.threads.list := by rw [hout.frame]
  have hlists : ∀ t ∈ b'.threads.list, b'.entriesOf (functList t) = (b.entriesOf (functList t)).filter (· ∉ gone) := by
    intro t ht
    rw [hthreads] at ht
    rw [hes.entriesOf_eq (mem_ringRoots (List.mem_append_left _ ht)),
      hok.entriesOf_eq (mem_ringRoots (List.mem_append_left _ ht)), hout.lists t ht]
  refine Relinks.of_fewer _ (fun t ht => hthreads ▸ ht) (fun f _ _ => ?_) hlists fun t ht e he => ?_
  · rw [hout.cell f]
    exact ⟨rfl, rfl⟩
  · rw [hlists t ht, List.mem_filter] at he
    exact hout.entries e (by simpa using he.2)

theorem halDelFunctFromThread_relinked (h : b.Sound) (functName threadName : Option CString) :
    b.Relinked (b.halDelFunctFromThread functName threadName) := by
  rw [halDelFunctFromThread_eq h.mutex]
  cases hplace : b.delPlace functName threadName with
  | error e => exact Relinked.ok (Quiet.refl b).relinks
  | ok place =>
    obtain ⟨funct, thread⟩ := place
    obtain ⟨-, ht⟩ := delPlace_ok hplace
    obtain ⟨es, hes⟩ := h.entries
    have hts := List.mem_append_left b.threads.free ht
    have hsplit : es (functList thread) = [] ++ es (functList thread) := rfl
    dsimp only
    rw [next_root hes hts, findEntry_spec hes hts hsplit (hes.length_lt (mem_ringRoots hts))]
    cases hfind : (es (functList thread)).find? fun e => (b.entries e).functPtr = funct with
    | none => exact Relinked.ok (Quiet.refl b).relinks
    | some e =>
      obtain ⟨as, bs, hsplit⟩ := List.append_of_mem (List.mem_of_find?_eq_some hfind)
      obtain ⟨es', hok, hout, -⟩ := unhook_spec hes ht hsplit
      exact Relinked.ok (Unhooked.relinks hes hok hout)

theorem halExit_relinked (h : b.Sound) (compId : Int) : b.Relinked (b.halExit compId) := by
  cases hfind : b.halprFindCompById compId with
  | none =>
    rw [halExit_none h.mutex hfind]
    exact Relinked.ok (Quiet.refl b).relinks
  | some comp =>
    obtain ⟨es, hes⟩ := h.entries
    obtain ⟨b', es', l₁, l₂, hrun, -, hok, hout⟩ := halExit_frees h hes hfind
    have hthreads : b'.threads.list = b.threads.list := by
      rw [hout.frame]
      rfl
    have hnew : ∀ t ∈ b.threads.list, b'.entriesOf (functList t) = es' (functList t) :=
      fun t ht => hok.entriesOf_eq (mem_ringRoots (List.mem_append_left _ ht))
    have hlists : ∀ t ∈ b'.threads.list, b'.entriesOf (functList t) =
        (b.entriesOf (functList t)).filter fun e => (b.functs.cell (b.entries e).functPtr).owner ≠ comp := by
      intro t ht
      rw [hthreads] at ht
      rw [hnew t ht, hes.entriesOf_eq (mem_ringRoots (List.mem_append_left _ ht))]
      exact hout.lists t ht
    rw [hrun]
    refine Relinked.ok (Relinks.of_fewer _ (fun t ht => hthreads ▸ ht) (fun f _ hf => ?_) hlists fun t ht e he => ?_)
    · rw [hout.functCell f hf]
      exact ⟨rfl, rfl⟩
    · rw [hthreads] at ht
      rw [hnew t ht] at he
      exact hout.entry t ht e he

end HalBlock

/-! ### Runs -/

variable {b b' : HalBlock} {c : BlockCall} {r : Int}

/-- Every call of a run relinks the entries at most. -/
theorem BlockCall.run_relinked (h : b.Sound) (hc : c.InRun) : b.Relinked (c.run b) := by
  have hnone : b.Quietly (.ok (-einval, { b with mutex := false })) := Quietly.ok ⟨rfl, rfl, rfl, rfl⟩
  cases c with
  | init moduleId name => exact (halInit_quietly h moduleId name).relinked
  | exit compId => exact halExit_relinked h compId
  | setUnready compId =>
    have hquiet : b.Quietly (b.halSetUnready compId) :=
      findComp_cases h.mutex hnone fun _ => Quietly.ok ⟨rfl, rfl, rfl, rfl⟩
    exact hquiet.relinked
  | ready compId => exact (halReady_quietly h compId).relinked
  | unready compId =>
    have hquiet : b.Quietly (b.halUnready compId) := by
      refine findComp_cases h.mutex hnone fun comp => ?_
      split <;> exact Quietly.ok ⟨rfl, rfl, rfl, rfl⟩
    exact hquiet.relinked
  | pinNew name type dataPtrAddr compId => exact (halPinNew_quietly h name type dataPtrAddr compId).relinked
  | pinNewf type dataPtrAddr compId name => exact (halPinNewf_quietly h type dataPtrAddr compId name).relinked
  | paramNew name type dir dataAddr compId => exact (halParamNew_quietly h name type dir dataAddr compId).relinked
  | paramFloatNewf dir dataAddr compId size name =>
    show b.Relinked (b.halParamFloatNewf dir dataAddr compId size name)
    unfold halParamFloatNewf
    split
    · exact Relinked.ok (Quiet.refl b).relinks
    · exact (halParamNew_quietly h _ _ _ _ _).relinked
  | exportFunct name funct arg usesFp reentrant compId =>
    exact halExportFunct_relinked h name funct arg usesFp reentrant compId
  | exportFunctf size name funct arg usesFp reentrant compId =>
    show b.Relinked (b.halExportFunctf size name funct arg usesFp reentrant compId)
    unfold halExportFunctf
    split
    · exact Relinked.ok (Quiet.refl b).relinks
    · exact halExportFunct_relinked h _ _ _ _ _ _
  | createThread rt name period usesFp priority => exact halCreateThread_relinked h rt name period usesFp priority
  | threadDelete name => exact halThreadDelete_relinked h name
  | addFunct functName threadName position => exact halAddFunctToThread_relinked h functName threadName position
  | delFunct functName threadName => exact halDelFunctFromThread_relinked h functName threadName
  | appMain moduleId memId => exact absurd hc id
  | appExit => exact halAppExit_relinked h
  | setConstructor compId =>
    have hquiet : b.Quietly (b.halSetConstructor compId) :=
      findComp_cases h.mutex hnone fun _ => Quietly.ok ⟨rfl, rfl, rfl, rfl⟩
    exact hquiet.relinked
  | compName compId =>
    show b.Relinked ((b.halCompName compId).map fun answer => (0, answer.2))
    unfold halCompName
    rw [rtapiMutexGet_free h.mutex]
    exact Relinked.ok (Quiet.relinks ⟨rfl, rfl, rfl, rfl⟩)
  | setLock lockType => exact Relinked.ok (Quiet.relinks ⟨rfl, rfl, rfl, rfl⟩)
  | getLock => exact Relinked.ok (Quiet.refl b).relinks
  | startThreads =>
    show b.Relinked (.ok (b.halSetThreadsRunning 1))
    unfold halSetThreadsRunning
    split <;> exact Relinked.ok (Quiet.relinks ⟨rfl, rfl, rfl, rfl⟩)
  | stopThreads =>
    show b.Relinked (.ok (b.halSetThreadsRunning 0))
    unfold halSetThreadsRunning
    split <;> exact Relinked.ok (Quiet.relinks ⟨rfl, rfl, rfl, rfl⟩)
  | malloc size =>
    show b.Relinked (b.halMalloc size)
    unfold halMalloc shmallocUp
    rw [rtapiMutexGet_free h.mutex]
    dsimp only
    split <;> exact Relinked.ok (Quiet.relinks ⟨rfl, rfl, rfl, rfl⟩)

/-- Each entry of a thread refers to a function on the list, and holds its code and its argument. -/
structure HalBlock.Wired (b : HalBlock) : Prop where
  refers : ∀ t ∈ b.threads.list, ∀ e ∈ b.entriesOf (functList t), (b.entries e).functPtr ∈ b.functs.list
  holds : ∀ t ∈ b.threads.list, ∀ e ∈ b.entriesOf (functList t), b.Holds e

theorem HalBlock.Relinks.wired (h : b.Relinks b') (hsound : b'.Sound) (hwired : b.Wired) : b'.Wired := by
  refine ⟨hsound.counted.refers, fun t ht e he => ?_⟩
  rcases h.entry t ht e he with ⟨hold, hmem, hsame⟩ | hnew
  · have hlive := hsound.counted.refers t ht e he
    rw [hsame] at hlive
    obtain ⟨harg, hfunct⟩ := h.codes _ (hwired.refers t hold e hmem) hlive
    obtain ⟨harg', hfunct'⟩ := hwired.holds t hold e hmem
    unfold HalBlock.Holds
    rw [hsame, harg, hfunct]
    exact ⟨harg', hfunct'⟩
  · exact hnew

theorem HalBlock.Empty.wired (h : b.Empty) : b.Wired := by
  constructor
  all_goals
    intro t ht
    rw [h.threads.1] at ht
    cases ht

end SoemMotion
