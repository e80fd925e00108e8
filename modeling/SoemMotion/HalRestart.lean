import SoemMotion.HalLeftover
import SoemMotion.Lib.Machine

/-!
# Restarting over what an earlier run left

`init_hal_data` leaves the lists of pins as they were, needs a free mutex, and leaves the old names in the structures
it will hand out.  A run that starts over such a block and one that starts over zeros stay alike for as long as no
structure with an old name is freed, so they answer alike exactly if none ever is (`restart_iff`).
-/

namespace SoemMotion

open Lib HalBlock

namespace HalBlock

variable {old z b z' b' : HalBlock} {S : Int → HalBlock → Prop}

/-! ### Components that leave -/

theorem eraseP_congr {l : List Int} {p q : Int → Bool} (h : ∀ a ∈ l, p a = q a) : l.eraseP p = l.eraseP q := by
  induction l with
  | nil => rfl
  | cons a l ih =>
    rw [List.eraseP_cons, List.eraseP_cons, h a List.mem_cons_self, ih fun c hc => h c (List.mem_cons_of_mem _ hc)]

/-- A list of parameters is freed up to the first with an old name. -/
theorem freeParams_dangling {owned : List Int} (h : ∃ p ∈ owned, (b.params.cell p).oldname ≠ 0) :
    freeEach freeParamStruct owned b = .error .dangling := by
  induction owned generalizing b with
  | nil =>
    obtain ⟨p, hp, -⟩ := h
    cases hp
  | cons p owned ih =>
    unfold freeEach freeParamStruct
    by_cases hold : (b.params.cell p).oldname = 0
    · rw [if_neg (not_not.2 hold)]
      refine ih ?_
      obtain ⟨q, hq, hne⟩ := h
      have hqp : q ≠ p := by
        rintro rfl
        exact hne hold
      refine ⟨q, (List.mem_cons.1 hq).resolve_left hqp, ?_⟩
      show (Function.update b.params.cell p _ q).oldname ≠ 0
      rwa [Function.update_of_ne hqp]
    · rw [if_pos hold]
      rfl

/-- Parameters without old names are freed alike. -/
theorem freeParams_alike {F : Int → Prop} {owned : List Int} (h : PoolAlike ParamStruct.Same F z.params b.params)
    (hz : ∀ p, (z.params.cell p).oldname = 0) (hb : ∀ p ∈ owned, (b.params.cell p).oldname = 0)
    (hF : ∀ p ∈ owned, F p) :
    ∃ params params', freeEach freeParamStruct owned z = .ok { z with params := params } ∧
      freeEach freeParamStruct owned b = .ok { b with params := params' } ∧
      PoolAlike ParamStruct.Same F params params' ∧
      params.free = owned.reverse ++ z.params.free ∧ ∀ p, (params'.cell p).oldname = (b.params.cell p).oldname := by
  -- over the parameters to be freed, which both blocks free in the same order
  induction owned generalizing z b with
  | nil => exact ⟨z.params, b.params, rfl, rfl, h, rfl, fun _ => rfl⟩
  | cons p owned ih =>
    obtain ⟨f, hf⟩ : ∃ f : ParamStruct → ParamStruct,
      f = fun p => { p with dataPtr := 0, owner := 0, type := .uninitialized, name := [] } := ⟨_, rfl⟩
    have hname : ∀ a, (f a).oldname = a.oldname := fun a => by rw [hf]
    have hsame : ∀ a c, ParamStruct.Same a c → ParamStruct.Same (f a) (f c) := by
      intro a c hac
      rw [hf, hac]
      rfl
    have hfirst : ∀ {d : HalBlock}, (d.params.cell p).oldname = 0 →
        freeParamStruct p d = .ok { d with params := d.params.release p f } := by
      intro d hd
      unfold freeParamStruct
      rw [if_neg (not_not.2 hd), hf]
    have hb' : ∀ q, ((b.params.release p f).cell q).oldname = (b.params.cell q).oldname :=
      oldname_release ParamStruct.oldname hname p
    obtain ⟨params, params', hrun, hrun', hpool, hfree, hnames⟩ := ih
      (z := { z with params := z.params.release p f }) (b := { b with params := b.params.release p f })
      (h.release (hF p List.mem_cons_self) hsame)
      (fun q => (oldname_release ParamStruct.oldname hname p q).trans (hz q))
      (fun q hq => (hb' q).trans (hb q (List.mem_cons_of_mem _ hq))) fun q hq => hF q (List.mem_cons_of_mem _ hq)
    refine ⟨params, params', ?_, ?_, hpool, ?_, fun q => (hnames q).trans (hb' q)⟩
    · unfold freeEach
      rw [hfirst (hz p)]
      exact hrun
    · unfold freeEach
      rw [hfirst (hb p List.mem_cons_self)]
      exact hrun'
    · rw [hfree, List.reverse_cons, List.append_assoc]
      rfl

/-- `free_comp_struct` in two blocks that are alike: it does the same, unless the second frees a parameter with an old
name. -/
theorem freeCompStruct_alike (h : old.Alike z b) (hnodup : z.functs.list.Nodup)
    (hnames : ∀ p, (z.params.cell p).oldname = 0)
    {G : Int → Prop} (hcomps : PoolAlike Eq G z.comps b.comps) {comp : Int} (hcomp : G comp) :
    ∃ z', freeCompStruct comp z = .ok z' ∧
      ((∃ b', freeCompStruct comp b = .ok b' ∧ old.Alike z' b') ∨
        freeCompStruct comp b = .error .dangling ∧ ∃ p ∈ z'.params.free, (old.params.cell p).oldname ≠ 0) := by
  obtain ⟨F, hfuncts⟩ := h.functs
  obtain ⟨H, hparams⟩ := h.params
  obtain ⟨es, hes⟩ := h.entries
  -- the same functions and parameters belong to the component in both
  have hfs : ∀ P : Int → Bool, (b.functs.list.filter fun p => P (b.functs.cell p).owner) =
      z.functs.list.filter fun p => P (z.functs.cell p).owner := by
    intro P
    rw [hfuncts.list]
    exact List.filter_congr fun p hp => by rw [h.functCell hp]
  have hps : ∀ P : Int → Bool, (b.params.list.filter fun p => P (b.params.cell p).owner) =
      z.params.list.filter fun p => P (z.params.cell p).owner := by
    intro P
    rw [hparams.list]
    exact List.filter_congr fun p hp => by rw [hparams.onList hp]
  obtain ⟨owned, howned⟩ : ∃ owned, owned = z.functs.list.filter fun p => (z.functs.cell p).owner = comp := ⟨_, rfl⟩
  obtain ⟨kept, hkept⟩ : ∃ kept, kept = z.functs.list.filter fun p => (z.functs.cell p).owner ≠ comp := ⟨_, rfl⟩
  obtain ⟨dead, hdead⟩ : ∃ dead, dead = z.params.list.filter fun p => (z.params.cell p).owner = comp := ⟨_, rfl⟩
  obtain ⟨params, halive⟩ : ∃ params, params = z.params.list.filter fun p => (z.params.cell p).owner ≠ comp := ⟨_, rfl⟩
  have hmem : ∀ f ∈ owned, f ∈ z.functs.list := fun f hf => (List.mem_filter.1 (howned ▸ hf)).1
  have hmemKept : ∀ f ∈ kept, f ∈ z.functs.list := fun f hf => (List.mem_filter.1 (hkept ▸ hf)).1
  have hmemDead : ∀ p ∈ dead, H p :=
    fun p hp => hparams.inside p (List.mem_append_left _ (List.mem_filter.1 (hdead ▸ hp)).1)
  have hrest : z.functs.list.filter (· ∉ owned) = kept := by
    rw [hkept, howned]
    refine List.filter_congr fun f hf => ?_
    simp [List.mem_filter, hf]
  -- the functions
  have hentries : EntriesAlike z.functs.list z.threads.list z.threads.free es
      { z with functs := { z.functs with list := kept } } { b with functs := { b.functs with list := kept } } := hes
  have hinside : ∀ f ∈ owned, f ∈ z.functs.list ∧ F f :=
    fun f hf => ⟨hmem f hf, hfuncts.inside f (List.mem_append_left _ (hmem f hf))⟩
  obtain ⟨z₂, b₂, es', hz₂, hb₂, hwalk⟩ := hentries.freeFuncts
    (hfuncts.withList fun f hf => hfuncts.inside f (List.mem_append_left _ (hmemKept f hf))) ⟨rfl, h.threadList⟩ hinside
    (howned ▸ hnodup.sublist List.filter_sublist)
  rw [hrest] at hwalk
  have hleft := hwalk.left
  have hright := hwalk.right
  unfold OnlyEntries at hleft hright
  have hlist : z₂.functs.list = kept := by rw [hleft]
  have hfreed : old.Alike z₂ b₂ := by
    refine h.moved ?_ ?_ hwalk.functs (by rw [hlist]; exact hwalk.entries)
    · rw [hleft]
    · rw [hright]
  have hz₂params : z₂.params = z.params := by rw [hleft]
  have hb₂params : b₂.params = b.params := by rw [hright]
  have hz₂comps : z₂.comps = z.comps := by rw [hleft]
  have hb₂comps : b₂.comps = b.comps := by rw [hright]
  have hzrun := freeCompStruct_eq (by rw [← howned, ← hkept]; exact hz₂) hz₂params
  rw [← hdead, ← halive] at hzrun
  have h₁ := hfs fun owner => decide (owner = comp)
  have h₂ := hfs fun owner => decide (owner ≠ comp)
  have h₃ := hps fun owner => decide (owner = comp)
  have h₄ := hps fun owner => decide (owner ≠ comp)
  have hbrun := freeCompStruct_eq (by rw [h₁, h₂, ← howned, ← hkept]; exact hb₂) hb₂params
  rw [h₃, h₄, ← hdead, ← halive] at hbrun
  have hpool : PoolAlike ParamStruct.Same H { z.params with list := params } { b.params with list := params } :=
    hparams.withList fun p hp => hparams.inside p (List.mem_append_left _ (List.mem_filter.1 (halive ▸ hp)).1)
  by_cases hclean : ∀ p ∈ dead, (old.params.cell p).oldname = 0
  · obtain ⟨params₃, params₃', hz₃, hb₃, hpool₃, hfree₃, hnames₃⟩ := freeParams_alike
      (z := { z₂ with params := { z.params with list := params } })
      (b := { b₂ with params := { b.params with list := params } })
      hpool hnames (fun p hp => (h.paramNames p).trans (hclean p hp)) hmemDead
    rw [hz₃] at hzrun
    rw [hb₃] at hbrun
    refine ⟨_, hzrun, .inl ⟨_, hbrun, ?_⟩⟩
    have halike := hfreed.withParams hpool₃ (fun p => (hnames₃ p).trans (h.paramNames p)) fun p hp => by
      rw [hfree₃] at hp
      rcases List.mem_append.1 hp with hp | hp
      · exact hclean p (List.mem_reverse.1 hp)
      · exact h.freedParams p hp
    refine halike.withComps (F := G) ?_
    show PoolAlike Eq G (z₂.comps.release comp _) (b₂.comps.release comp _)
    rw [hz₂comps, hb₂comps]
    exact hcomps.releaseEq hcomp _
  · obtain ⟨cell, hz₃, -, -⟩ :=
      freeParams_spec (b := { z₂ with params := { z.params with list := params } }) dead hnames
    rw [hz₃] at hzrun
    refine ⟨_, hzrun, .inr ⟨?_, ?_⟩⟩
    · rw [hbrun, freeParams_dangling]
      · rfl
      · push Not at hclean
        obtain ⟨p, hp, hne⟩ := hclean
        exact ⟨p, hp, by rw [← h.paramNames] at hne; exact hne⟩
    · push Not at hclean
      obtain ⟨p, hp, hne⟩ := hclean
      exact ⟨p, List.mem_append_left _ (List.mem_reverse.2 hp), hne⟩

theorem halExit_matches (h : old.Alike z b) (hz : z.Sound) (compId : Int) :
    Matches old old.Stale (z.halExit compId) (b.halExit compId) := by
  cases hfind : z.halprFindCompById compId with
  | none =>
    rw [halExit_none hz.mutex hfind, halExit_none (h.mutex.trans hz.mutex) ((h.findComp compId).trans hfind)]
    exact Matches.ok h
  | some comp =>
    have hfind' : ∀ mutex, ({ z with mutex := mutex } : HalBlock).halprFindCompById compId = some comp := fun _ => hfind
    have hfind'' : ∀ mutex, ({ b with mutex := mutex } : HalBlock).halprFindCompById compId = some comp :=
      fun _ => (h.findComp compId).trans hfind
    obtain ⟨G, hcomps⟩ := h.comps
    obtain ⟨list, hlist⟩ : ∃ list, list = z.comps.list.eraseP fun p => (z.comps.cell p).compId == compId := ⟨_, rfl⟩
    have hlist' : (b.comps.list.eraseP fun p => (b.comps.cell p).compId == compId) = list := by
      rw [hlist, hcomps.list]
      exact eraseP_congr fun p hp => by rw [h.compCell hp]
    have hpool : PoolAlike Eq G { z.comps with list := list } { b.comps with list := list } :=
      hcomps.withList fun p hp => hcomps.inside p (List.mem_append_left _ (List.mem_of_mem_eraseP (hlist ▸ hp)))
    have hzrun : z.halExit compId =
        (freeCompStruct comp { z with mutex := true, comps := { z.comps with list := list } }).bind
        fun b => .ok (0, b.rtapiMutexGive) := by
      unfold halExit
      rw [rtapiMutexGet_free hz.mutex, hfind']
      dsimp only
      rw [← hlist]
    have hbrun : b.halExit compId =
        (freeCompStruct comp { b with mutex := true, comps := { b.comps with list := list } }).bind
        fun b => .ok (0, b.rtapiMutexGive) := by
      unfold halExit
      rw [rtapiMutexGet_free (h.mutex.trans hz.mutex), hfind'']
      dsimp only
      rw [hlist']
    -- the component is out of its list before what it owns is freed
    obtain ⟨z', hz', hout⟩ := freeCompStruct_alike ((h.withMutex true).withComps hpool)
      (List.nodup_append.1 hz.functs.nodup).1
      hz.paramNames hpool (hcomps.inside comp (List.mem_append_left _ (findComp_mem hfind)))
    rw [hzrun, hbrun, hz']
    rcases hout with ⟨b', hb', halike⟩ | ⟨hb', hstale⟩
    · rw [hb']
      exact Matches.ok (halike.withMutex false)
    · rw [hb']
      obtain ⟨p, hp, hne⟩ := hstale
      exact .inr ⟨rfl, .inr ⟨p, List.mem_append_right _ hp, hne⟩⟩

/-! ### Threads that are deleted -/

/-- A thread is taken from the list and freed in two blocks that are alike. -/
theorem freeThread_alike (h : old.Alike z b) {ts₁ ts₂ : List Int} {t : Int} (hlist : z.threads.list = ts₁ ++ t :: ts₂) :
    ∃ z' b', freeThreadStruct t { z with threads := { z.threads with list := ts₁ ++ ts₂ } } = .ok z' ∧
      freeThreadStruct t { b with threads := { b.threads with list := ts₁ ++ ts₂ } } = .ok b' ∧ old.Alike z' b' ∧
      z'.threads.list = ts₁ ++ ts₂ := by
  obtain ⟨F, hfuncts⟩ := h.functs
  obtain ⟨G, hthreads⟩ := h.threads
  obtain ⟨es, hes⟩ := h.entries
  rw [hlist] at hes
  have ht : t ∈ ts₁ ++ t :: ts₂ := by simp
  have hG : ∀ s ∈ ts₁ ++ t :: ts₂, G s := fun s hs => hthreads.inside s (List.mem_append_left _ (hlist ▸ hs))
  obtain ⟨f, hf⟩ : ∃ f : ThreadStruct → ThreadStruct,
    f = fun p => { p with usesFp := 0, period := 0, priority := 0, taskId := 0 } := ⟨_, rfl⟩
  have hsub : ∀ s ∈ ts₁ ++ ts₂, s ∈ ts₁ ++ t :: ts₂ :=
    fun s hs => (List.Sublist.append_left (List.sublist_cons_self t ts₂) ts₁).subset hs
  have hpool : PoolAlike Eq G (({ z.threads with list := ts₁ ++ ts₂ } : HalPool ThreadStruct).set t f)
      (({ b.threads with list := ts₁ ++ ts₂ } : HalPool ThreadStruct).set t f) :=
    (hthreads.withList fun s hs => hG s (hsub s hs)).setEq t f
  have hcleared : EntriesAlike z.functs.list (ts₁ ++ t :: ts₂) z.threads.free es
      { z with threadsRunning := 0, threads := ({ z.threads with list := ts₁ ++ ts₂ } : HalPool ThreadStruct).set t f }
      { b with threadsRunning := 0, threads := ({ b.threads with list := ts₁ ++ ts₂ } : HalPool ThreadStruct).set t f } := hes
  -- both runs walk the same entries
  obtain ⟨z₂, b₂, es', hz₂, hb₂, hwalk, hnone⟩ :=
    hcleared.clearEntries hfuncts ht (hes.left.length_lt (mem_ringRoots (List.mem_append_left _ ht)))
  have hleft := hwalk.left
  have hright := hwalk.right
  unfold OnlyEntries at hleft hright
  have hentries : EntriesAlike z.functs.list (ts₁ ++ ts₂) (t :: z.threads.free) es' z₂ b₂ :=
    ⟨EntriesOk.retire hwalk.entries.left hnone, EntriesOk.retire hwalk.entries.right hnone,
      fun s hs => hwalk.entries.data s (hsub s hs)⟩
  have hfuncts₂ := hwalk.functs
  obtain ⟨g, hg⟩ : ∃ g : ThreadStruct → ThreadStruct, g = fun p => { p with name := [] } := ⟨_, rfl⟩
  refine ⟨{ z₂ with threads := z₂.threads.release t g }, { b₂ with threads := b₂.threads.release t g }, ?_, ?_, ?_, ?_⟩
  · unfold freeThreadStruct
    dsimp only
    rw [← hf, hz₂, hg]
    rfl
  · unfold freeThreadStruct
    dsimp only
    rw [← hf, hb₂, hg]
    rfl
  · rw [hleft, hright] at hfuncts₂ hentries ⊢
    exact { h with
      threadsRunning := rfl, functs := ⟨F, hfuncts₂⟩, threads := ⟨G, hpool.releaseEq (hG t ht) g⟩,
      entries := ⟨es', hentries⟩ }
  · rw [hleft]
    rfl

theorem deletesComponent_alike (h : old.Alike z b) (name : CString) :
    b.deletesComponent name = z.deletesComponent name := by
  unfold deletesComponent
  rw [h.lock, h.findThread]
  cases hfind : z.halprFindThreadByName name with
  | none => rfl
  | some t => rw [Option.any_some, Option.any_some, h.threadCell (halprFindThreadByName_mem hfind)]

theorem halThreadDelete_matches (h : old.Alike z b) (hz : z.Sound) (name : CString) :
    Matches old S (z.halThreadDelete name) (b.halThreadDelete name) := by
  have hbm := h.mutex.trans hz.mutex
  have hsame := deletesComponent_alike h name
  cases hdelete : z.deletesComponent name with
  | true =>
    rw [halThreadDelete_deadlock hz.mutex hdelete, halThreadDelete_deadlock hbm (hsame.trans hdelete)]
    rfl
  | false =>
    rw [halThreadDelete_free hz.mutex hdelete, halThreadDelete_free hbm (hsame.trans hdelete), h.findThread]
    by_cases hlock : z.lock &&& halLockConfig ≠ 0
    · rw [if_pos hlock, if_pos (by rw [h.lock]; exact hlock)]
      exact Matches.ok h
    rw [if_neg hlock, if_neg (by rw [h.lock]; exact hlock)]
    cases ht : z.halprFindThreadByName name with
    | none => exact Matches.ok h
    | some t =>
      obtain ⟨ts₁, ts₂, hsplit, herase⟩ := eraseP_found ht
      have herase' : (b.threads.list.eraseP fun p => (b.threads.cell p).name == name) = ts₁ ++ ts₂ := by
        rw [← herase, h.threadList]
        exact eraseP_congr fun p hp => by rw [h.threadCell hp]
      obtain ⟨z', b', hz', hb', halike, -⟩ := freeThread_alike (h.withMutex true) hsplit
      dsimp only
      rw [herase, herase', hz', hb']
      exact Matches.ok (halike.withMutex false)

theorem freeThreads_alike (h : old.Alike z b) {ts : List Int} (hlist : z.threads.list = ts) :
    ∃ z' b', freeThreads ts z = .ok z' ∧ freeThreads ts b = .ok b' ∧ old.Alike z' b' := by
  induction ts generalizing z b with
  | nil => exact ⟨z, b, rfl, rfl, h⟩
  | cons t ts ih =>
    obtain ⟨z₁, b₁, hz₁, hb₁, halike, hlist₁⟩ := freeThread_alike h (show z.threads.list = [] ++ t :: ts from hlist)
    obtain ⟨z', b', hz', hb', halike'⟩ := ih halike hlist₁
    rw [List.nil_append] at hz₁ hb₁
    refine ⟨z', b', ?_, ?_, halike'⟩
    · unfold freeThreads
      rw [hz₁]
      exact hz'
    · unfold freeThreads
      rw [hb₁]
      exact hb'

theorem halAppExit_matches (h : old.Alike z b) (hz : z.Sound) : Matches old S z.halAppExit b.halAppExit := by
  obtain ⟨z', b', hz', hb', halike⟩ := freeThreads_alike (h.withMutex true) rfl
  unfold halAppExit
  rw [rtapiMutexGet_free hz.mutex, rtapiMutexGet_free (h.mutex.trans hz.mutex)]
  dsimp only
  rw [h.threadList, hz', hb']
  exact Matches.ok (halike.withMutex false)

theorem halSetThreadsRunning_alike (h : old.Alike z b) (running : Int) :
    (b.halSetThreadsRunning running).1 = (z.halSetThreadsRunning running).1 ∧
      old.Alike (z.halSetThreadsRunning running).2 (b.halSetThreadsRunning running).2 := by
  unfold halSetThreadsRunning
  by_cases hlock : z.lock &&& 8 ≠ 0
  · rw [if_pos hlock, if_pos (by rwa [h.lock])]
    exact ⟨rfl, h⟩
  · rw [if_neg hlock, if_neg (by rwa [h.lock])]
    exact ⟨rfl, { h with threadsRunning := rfl }⟩

theorem halMalloc_matches (h : old.Alike z b) (hz : z.Sound) (size : Int) :
    Matches old S (z.halMalloc size) (b.halMalloc size) := by
  unfold halMalloc shmallocUp
  rw [rtapiMutexGet_free hz.mutex, rtapiMutexGet_free (h.mutex.trans hz.mutex)]
  dsimp only
  by_cases hfull : z.shmemTop - alignUp size z.shmemBot < size
  · rw [if_pos hfull, if_pos (by rwa [h.shmemBot, h.shmemTop])]
    exact Matches.ok (h.withMutex false)
  · rw [if_neg hfull, if_neg (by rwa [h.shmemBot, h.shmemTop])]
    dsimp only
    rw [h.shmemBot]
    exact Matches.ok { h with mutex := rfl, shmemBot := rfl }

end HalBlock

/-! ### Runs that are alike -/

variable {old z b z' b' : HalBlock} {c : BlockCall} {r : Int}

/-- A call of a block is the same call of one that is alike, unless the second frees a structure with an old name. -/
theorem BlockCall.run_matches (h : old.Alike z b) (hz : z.Sound) (hc : c.InRun) :
    HalBlock.Matches old old.Stale (c.run z) (c.run b) := by
  cases c with
  | init moduleId name => exact halInit_matches h hz moduleId name
  | exit compId => exact halExit_matches h hz compId
  | setUnready compId => exact halSetUnready_matches h hz compId
  | ready compId => exact halReady_matches h hz compId
  | unready compId => exact halUnready_matches h hz compId
  | pinNew name type dataPtrAddr compId =>
    exact (halPinNew_matches h hz name type dataPtrAddr compId).mono fun r _ hpin => hpin.stale r
  | pinNewf type dataPtrAddr compId name =>
    exact (halPinNewf_matches h hz type dataPtrAddr compId name).mono fun r _ hpin => hpin.stale r
  | paramNew name type dir dataAddr compId =>
    exact (halParamNew_matches h hz name type dir dataAddr compId).mono fun r _ hparam => hparam.stale r
  | paramFloatNewf dir dataAddr compId size name =>
    exact (halParamFloatNewf_matches h hz dir dataAddr compId size name).mono fun r _ hparam => hparam.stale r
  | exportFunct name funct arg usesFp reentrant compId =>
    exact halExportFunct_matches h hz name funct arg usesFp reentrant compId
  | exportFunctf size name funct arg usesFp reentrant compId =>
    exact halExportFunctf_matches h hz size name funct arg usesFp reentrant compId
  | createThread rt name period usesFp priority => exact halCreateThread_matches h hz rt name period usesFp priority
  | threadDelete name => exact halThreadDelete_matches h hz name
  | addFunct functName threadName position => exact halAddFunctToThread_matches h hz functName threadName position
  | delFunct functName threadName => exact halDelFunctFromThread_matches h hz functName threadName
  | appMain moduleId memId => exact absurd hc id
  | appExit => exact halAppExit_matches h hz
  | setConstructor compId => exact halSetConstructor_matches h hz compId
  | compName compId => exact halCompName_matches h hz compId
  | setLock lockType => exact Matches.ok { h with lock := rfl }
  | getLock => exact Matches.ok h
  | startThreads =>
    obtain ⟨hr, halike⟩ := halSetThreadsRunning_alike h 1
    exact .inl ⟨_, congrArg (fun r => Except.ok (r, (b.halSetThreadsRunning 1).2)) hr, halike⟩
  | stopThreads =>
    obtain ⟨hr, halike⟩ := halSetThreadsRunning_alike h 0
    exact .inl ⟨_, congrArg (fun r => Except.ok (r, (b.halSetThreadsRunning 0).2)) hr, halike⟩
  | malloc size => exact halMalloc_matches h hz size

/-- A call of a sound block follows no pointer that was never stored. -/
theorem BlockCall.run_not_dangling (h : b.Sound) (hc : c.InRun) : c.run b ≠ .error .dangling := by
  rcases BlockCall.run_cases h hc with ⟨r, b', hreturns, -⟩ | hdead | hnull
  · rw [hreturns]
    exact fun h => by cases h
  · rw [hdead]
    exact fun h => by cases h
  · rw [hnull]
    exact fun h => by cases h

/-! ### Parameters that can be freed -/

/-- Every parameter belongs to a component on the list. -/
def HalBlock.ParamsOwned (b : HalBlock) : Prop := ∀ p ∈ b.params.list, (b.params.cell p).owner ∈ b.comps.list

/-- What is left of the parameters of other components when one is removed. -/
theorem HalBlock.Emptied.paramsOwned {comp : Int} {l₁ l₂ : List Int} {es es' : Int → List Int}
    (hout : Emptied comp (b.withoutComp (l₁ ++ l₂)) es b' es') (hcomps : b.comps.list = l₁ ++ comp :: l₂)
    (howned : b.ParamsOwned) : b'.ParamsOwned := by
  intro p hp
  rw [hout.paramCell p hp]
  rw [hout.params.1, List.mem_filter] at hp
  obtain ⟨hmem, hne⟩ := hp
  have hold := howned p hmem
  rw [hcomps] at hold
  rw [hout.comps.1]
  rcases List.mem_append.1 hold with hold | hold
  · exact List.mem_append_left _ hold
  · exact List.mem_append_right _ ((List.mem_cons.1 hold).resolve_left (of_decide_eq_true hne))

theorem BlockCall.run_paramsOwned (h : b.Sound) (howned : b.ParamsOwned) (hc : c.InRun) (hrun : c.run b = .ok (r, b')) :
    b'.ParamsOwned := by
  by_cases hexit : ∃ compId, c = .exit compId
  · obtain ⟨compId, rfl⟩ := hexit
    cases hfind : b.halprFindCompById compId with
    | none =>
      rw [show (BlockCall.exit compId).run b = b.halExit compId from rfl, halExit_none h.mutex hfind] at hrun
      cases hrun
      exact howned
    | some comp =>
      obtain ⟨es, hes⟩ := h.entries
      obtain ⟨b'', es', l₁, l₂, hspec, hcomps, -, hout⟩ := halExit_frees h hes hfind
      rw [show (BlockCall.exit compId).run b = b.halExit compId from rfl, hspec] at hrun
      cases hrun
      exact hout.paramsOwned hcomps howned
  · have hgrows := BlockCall.run_grown h hc (fun compId heq => hexit ⟨compId, heq⟩) r b' hrun
    exact hgrows.params.owned hgrows.comps howned

/-- Every parameter is freed by some run: the components with the number of its owner leave, one after the other. -/
theorem params_freed (h : b.Sound) (howned : b.ParamsOwned) {p : Int} (hp : p ∈ b.params.list) :
    ∃ b', Reaches blockStep b b' ∧ p ∈ b'.params.free := by
  obtain ⟨n, hn⟩ : ∃ n, b.comps.list.length = n := ⟨_, rfl⟩
  induction n using Nat.strong_induction_on generalizing b with
  | _ n ih =>
    obtain ⟨compId, hid⟩ : ∃ compId, (b.comps.cell (b.params.cell p).owner).compId = compId := ⟨_, rfl⟩
    have hsome : (b.halprFindCompById compId).isSome = true :=
      List.find?_isSome.2 ⟨_, howned p hp, beq_iff_eq.2 hid⟩
    obtain ⟨comp, hfind⟩ := Option.isSome_iff_exists.1 hsome
    obtain ⟨es, hes⟩ := h.entries
    obtain ⟨b', es', l₁, l₂, hrun, hcomps, hok, hout⟩ := halExit_frees h hes hfind
    have hstep : Reaches blockStep b b' := (Reaches.refl b).tail (e := .exit compId) ⟨trivial, 0, hrun⟩
    by_cases howner : (b.params.cell p).owner = comp
    · refine ⟨b', hstep, ?_⟩
      rw [hout.params.2]
      exact List.mem_append_left _ (List.mem_reverse.2 (List.mem_filter.2 ⟨hp, decide_eq_true howner⟩))
    · have hmem : p ∈ b'.params.list := by
        rw [hout.params.1]
        exact List.mem_filter.2 ⟨hp, decide_eq_true howner⟩
      have hlen : b'.comps.list.length < n := by
        rw [← hn, hout.comps.1, hcomps]
        show (l₁ ++ l₂).length < _
        simp
      obtain ⟨b'', hreach, hfree⟩ := ih _ hlen (h.emptied hcomps hes hok hout) (hout.paramsOwned hcomps howned) hmem rfl
      exact ⟨b'', hstep.trans hreach, hfree⟩

/-! ### Restarts -/

/-- Nothing is on a list of the registry. -/
structure HalBlock.ListsEmpty (b : HalBlock) : Prop where
  comps : b.comps.list = [] ∧ b.comps.free = []
  pins : b.pins.list = [] ∧ b.pins.free = []
  params : b.params.list = [] ∧ b.params.free = []
  functs : b.functs.list = [] ∧ b.functs.free = []
  threads : b.threads.list = [] ∧ b.threads.free = []
  entries : b.links.next functEntryFree = functEntryFree ∧ b.links.prev functEntryFree = functEntryFree

/-- A new process starts over what is left of a block: `init_hal_data` comes back with every list empty, and every list
of calls from then on ends as it does over zeros, and follows no pointer that was never stored. -/
def HalBlock.RestartsEmpty (b : HalBlock) : Prop :=
  ∃ b₁, { b with period := 0 }.initHalData = .ok (0, b₁) ∧ b₁.ListsEmpty ∧
    ∀ cs : List BlockCall, (∀ c ∈ cs, c.InRun) →
      outcomes BlockCall.run cs b₁ = outcomes BlockCall.run cs zeroBlock.initialised ∧
        (outcomes BlockCall.run cs b₁).2 ≠ some .dangling

/-- The mutex is free, no pin is on a list, and there is no old name where a run over zeros frees a pin or a
parameter. -/
structure HalBlock.Clean (b : HalBlock) : Prop where
  mutex : b.mutex = false
  pins : b.pins.list = [] ∧ b.pins.free = []
  pinNames : ∀ z, Reaches blockStep zeroBlock.initialised z → ∀ p ∈ z.pins.free, (b.pins.cell p).oldname = 0
  paramNames : ∀ z, Reaches blockStep zeroBlock.initialised z → ∀ p ∈ z.params.free, (b.params.cell p).oldname = 0

/-- A block whose lists are empty and one of zeros are alike. -/
theorem initialised_alike (hm : b.mutex = false) (hpins : b.pins.list = [] ∧ b.pins.free = []) :
    b.Alike zeroBlock.initialised { b with period := 0 }.initialised := by
  have hnil : ∀ {α : Type} {same : α → α → Prop} (pool pool' : HalPool α),
      PoolAlike same (fun _ => False) { pool with list := [], free := [] } { pool' with list := [], free := [] } :=
    fun pool pool' => ⟨rfl, rfl, fun _ hp => (by cases hp), fun _ hp => hp.elim⟩
  have hentries : ∀ d : HalBlock,
      EntriesOk halSize d.functs.cell [] [] [] d.entries (d.links.init functEntryFree) fun _ => [] :=
    fun d => EntriesOk.empty (Ring.init _ _)
  have hpool : PoolAlike PinStruct.Same (fun _ => False) zeroBlock.pins b.pins :=
    ⟨hpins.1, hpins.2, fun _ hp => (by cases hp), fun _ hp => hp.elim⟩
  exact {
    mutex := hm, lock := rfl, threadsRunning := rfl, shmemBot := rfl, shmemTop := rfl, period := rfl
    comps := ⟨_, hnil _ _⟩, pins := ⟨_, hpool⟩, params := ⟨_, hnil _ _⟩, functs := ⟨_, hnil _ _⟩,
    threads := ⟨_, hnil _ _⟩
    pinNames := fun _ => rfl, paramNames := fun _ => rfl
    freedPins := fun _ hp => by cases hp
    freedParams := fun _ hp => by cases hp
    entries := ⟨fun _ => [], hentries zeroBlock, hentries b, fun _ ht => by cases ht⟩ }

/-- What a run over zeros reaches, one over a block that is alike reaches too, if it never follows an old name. -/
theorem HalBlock.Alike.reaches {b₁ : HalBlock} (h : old.Alike zeroBlock.initialised b₁)
    (hnever : Never BlockCall.run BlockCall.InRun .dangling b₁) (hz : Reaches blockStep zeroBlock.initialised z) :
    ∃ b, old.Alike z b := by
  have hinv : z.Sound ∧ ∃ b, old.Alike z b ∧ Never BlockCall.run BlockCall.InRun .dangling b := by
    refine hz.invariant (I := fun z => z.Sound ∧ ∃ b, old.Alike z b ∧ Never BlockCall.run BlockCall.InRun .dangling b)
      (fun z c z' hz hstep => ?_) ⟨zeroBlock_empty.sound, b₁, h, hnever⟩
    obtain ⟨hsound, b, halike, hnever⟩ := hz
    obtain ⟨hc, r, hrun⟩ := hstep
    have hmatch := BlockCall.run_matches halike hsound hc
    rw [hrun] at hmatch
    rcases hmatch with ⟨b', hrun', halike'⟩ | ⟨hdangling, -⟩
    · exact ⟨BlockCall.run_sound hsound hc hrun, b', halike', hnever.next hc hrun'⟩
    · exact absurd hdangling (hnever.ne_error hc)
  obtain ⟨-, b, halike, -⟩ := hinv
  exact ⟨b, halike⟩

/-- Over a clean block a run ends as it does over zeros. -/
theorem HalBlock.Clean.outcomes {b₁ : HalBlock} (hclean : b.Clean) (h : b.Alike zeroBlock.initialised b₁)
    {cs : List BlockCall} (hcs : ∀ c ∈ cs, c.InRun) :
    outcomes BlockCall.run cs zeroBlock.initialised = outcomes BlockCall.run cs b₁ := by
  refine outcomes_simulate (R := fun z d =>
    (Reaches blockStep zeroBlock.initialised z ∧ z.Sound ∧ z.ParamsOwned) ∧ b.Alike z d)
    ?_ ⟨⟨Reaches.refl _, zeroBlock_empty.sound, fun _ hp => (by cases hp)⟩, h⟩
  rintro c hmem z d ⟨⟨hreach, hsound, howned⟩, halike⟩
  have hc := hcs c hmem
  have hmatch := BlockCall.run_matches halike hsound hc
  cases hrun : c.run z with
  | error x =>
    rw [hrun] at hmatch
    exact .inl ⟨x, rfl, hmatch⟩
  | ok y =>
    obtain ⟨r, z'⟩ := y
    rw [hrun] at hmatch
    have hreach' : Reaches blockStep zeroBlock.initialised z' := hreach.tail ⟨hc, r, hrun⟩
    have hsound' := BlockCall.run_sound hsound hc hrun
    have howned' := BlockCall.run_paramsOwned hsound howned hc hrun
    rcases hmatch with ⟨d', hrun', halike'⟩ | ⟨-, ⟨p, hp, hne⟩ | ⟨p, hp, hne⟩⟩
    · exact .inr ⟨r, z', d', rfl, hrun', ⟨hreach', hsound', howned'⟩, halike'⟩
    · exact absurd (hclean.pinNames z' hreach' p hp) hne
    · rcases List.mem_append.1 hp with hp | hp
      · obtain ⟨z'', hlater, hfree⟩ := params_freed hsound' howned' hp
        exact absurd (hclean.paramNames z'' (hreach'.trans hlater) p hfree) hne
      · exact absurd (hclean.paramNames z' hreach' p hp) hne

/-- A restart begins with an empty registry and runs as over zeros exactly if the block is clean. -/
theorem restart_iff (b : HalBlock) : b.RestartsEmpty ↔ b.Clean := by
  constructor
  · rintro ⟨b₁, hinit, hempty, hruns⟩
    have hm : b.mutex = false := by
      by_contra hne
      have hheld : { b with period := 0 }.initHalData = .error .deadlock := if_pos (Bool.eq_true_of_not_eq_false hne)
      rw [hheld] at hinit
      cases hinit
    rw [initHalData_eq (b := { b with period := 0 }) hm] at hinit
    cases hinit
    have hpins : b.pins.list = [] ∧ b.pins.free = [] := hempty.pins
    have halike := initialised_alike hm hpins
    have hnever : Never BlockCall.run BlockCall.InRun .dangling { b with period := 0 }.initialised :=
      fun cs hcs => (hruns cs hcs).2
    refine ⟨hm, hpins, fun z hz p hp => ?_, fun z hz p hp => ?_⟩
    · obtain ⟨d, hd⟩ := halike.reaches hnever hz
      exact hd.freedPins p hp
    · obtain ⟨d, hd⟩ := halike.reaches hnever hz
      exact hd.freedParams p hp
  · intro hclean
    refine ⟨_, initHalData_eq (b := { b with period := 0 }) hclean.mutex, ?_, fun cs hcs => ?_⟩
    · have hnext : ∀ l : Links Int, (l.init functEntryFree).next functEntryFree = functEntryFree ∧
          (l.init functEntryFree).prev functEntryFree = functEntryFree := by simp [Links.init]
      exact ⟨⟨rfl, rfl⟩, hclean.pins, ⟨rfl, rfl⟩, ⟨rfl, rfl⟩, ⟨rfl, rfl⟩, hnext _⟩
    · have hsame := hclean.outcomes (initialised_alike hclean.mutex hclean.pins) hcs
      refine ⟨hsame.symm, fun hdangling => ?_⟩
      rw [← hsame] at hdangling
      refine outcomes_failure (I := HalBlock.Sound)
        (Q := (· ≠ HalFault.dangling)) ?_ ?_ zeroBlock_empty.sound .dangling hdangling rfl
      · rintro c hmem d x hd hrun rfl
        exact BlockCall.run_not_dangling hd (hcs c hmem) hrun
      · intro c hmem d r d' hd hrun
        exact BlockCall.run_sound hd (hcs c hmem) hrun

/-- An earlier run has registered a pin: it is still on the list after the restart. -/
theorem restart_keepsPin :
    ∃ rs b, runCalls BlockCall.call pinCalls zeroBlock.initialised = some (rs, b) ∧ ¬ b.RestartsEmpty := by
  have hrun : (runCalls BlockCall.call pinCalls zeroBlock.initialised).map
      (fun x => x.2.pins.list) = some [1048352] := by
    decide +kernel
  obtain ⟨⟨rs, b⟩, hcalls, hpins⟩ := Option.map_eq_some_iff.1 hrun
  refine ⟨rs, b, hcalls, ?_⟩
  rintro ⟨b₁, hinit, hempty, -⟩
  have hkept : b₁.pins = b.pins := by
    have hfree : ({ b with period := 0 } : HalBlock).mutex = false := by
      by_contra hne
      have hheld : { b with period := 0 }.initHalData = .error .deadlock := if_pos (Bool.eq_true_of_not_eq_false hne)
      rw [hheld] at hinit
      cases hinit
    rw [initHalData_eq hfree] at hinit
    cases hinit
    rfl
  have hnone := hempty.pins.1
  rw [hkept, hpins] at hnone
  cases hnone

end SoemMotion
