import Mathlib.Data.List.Find
import SoemMotion.HalAtomic
import SoemMotion.HalPosition

/-!
# Blocks that are alike

Two blocks are alike (`HalBlock.Alike`) if their lists are the same and what is on them reads the same but for the old
names of pins and parameters.  The walks along the function entries are the same in both, and free the same entries.
-/

namespace SoemMotion

open Lib HalBlock

/-! ### Pools -/

/-- Two pools with the same lists, whose structures agree at the offsets `F`, and all structures on the lists are
there. -/
structure PoolAlike {α : Type} (same : α → α → Prop) (F : Int → Prop) (pool pool' : HalPool α) : Prop where
  list : pool'.list = pool.list
  free : pool'.free = pool.free
  inside : ∀ p ∈ pool.list ++ pool.free, F p
  cell : ∀ p, F p → same (pool.cell p) (pool'.cell p)

namespace PoolAlike

variable {α : Type} {same : α → α → Prop} {F : Int → Prop} {pool pool' : HalPool α} {new : Int}

theorem onList (h : PoolAlike same F pool pool') {p : Int} (hp : p ∈ pool.list) : same (pool.cell p) (pool'.cell p) :=
  h.cell p (h.inside p (List.mem_append_left _ hp))

theorem set (h : PoolAlike same F pool pool') (p : Int) {f f' : α → α} (hf : ∀ a b, same a b → same (f a) (f' b)) :
    PoolAlike same F (pool.set p f) (pool'.set p f') := by
  refine ⟨h.list, h.free, h.inside, fun q hq => ?_⟩
  show same (Function.update pool.cell p _ q) (Function.update pool'.cell p _ q)
  by_cases hqp : q = p
  · subst hqp
    rw [Function.update_self, Function.update_self]
    exact hf _ _ (h.cell q hq)
  · rw [Function.update_of_ne hqp, Function.update_of_ne hqp]
    exact h.cell q hq

theorem setEq (h : PoolAlike Eq F pool pool') (p : Int) (f : α → α) : PoolAlike Eq F (pool.set p f) (pool'.set p f) :=
  h.set p fun _ _ hab => congrArg f hab

theorem withList (h : PoolAlike same F pool pool') {list : List Int} (hlist : ∀ p ∈ list, F p) :
    PoolAlike same F { pool with list := list } { pool' with list := list } := by
  refine ⟨rfl, h.free, fun p hp => ?_, h.cell⟩
  rcases List.mem_append.1 hp with hp | hp
  · exact hlist p hp
  · exact h.inside p (List.mem_append_right _ hp)

theorem release (h : PoolAlike same F pool pool') {p : Int} (hp : F p) {f : α → α}
    (hf : ∀ a b, same a b → same (f a) (f b)) : PoolAlike same F (pool.release p f) (pool'.release p f) := by
  have hset := h.set p hf
  refine ⟨hset.list, congrArg (p :: ·) hset.free, fun q hq => ?_, hset.cell⟩
  rcases List.mem_append.1 hq with hq | hq
  · exact hset.inside q (List.mem_append_left _ hq)
  · rcases List.mem_cons.1 hq with rfl | hq
    · exact hp
    · exact hset.inside q (List.mem_append_right _ hq)

theorem releaseEq (h : PoolAlike Eq F pool pool') {p : Int} (hp : F p) (f : α → α) :
    PoolAlike Eq F (pool.release p f) (pool'.release p f) := h.release hp fun _ _ hab => congrArg f hab

/-- A structure written over in both pools is agreed on from then on. -/
theorem update (h : PoolAlike same F pool pool') {x x' : α} (hx : same x x') {list free : List Int}
    (hin : ∀ p ∈ list ++ free, F p ∨ p = new) :
    PoolAlike same (fun p => F p ∨ p = new) ⟨list, free, Function.update pool.cell new x⟩
      ⟨list, free, Function.update pool'.cell new x'⟩ := by
  refine ⟨rfl, rfl, hin, fun p hp => ?_⟩
  dsimp only
  by_cases hpn : p = new
  · rw [hpn, Function.update_self, Function.update_self]
    exact hx
  · rw [Function.update_of_ne hpn, Function.update_of_ne hpn]
    exact h.cell p (hp.resolve_right hpn)

theorem alloc_none {size bot top : Int} {empty : α → α} (h : PoolAlike same F pool pool')
    (halloc : pool.alloc size empty bot top = none) : pool'.alloc size empty bot top = none := by
  rw [HalPool.alloc_eq_none] at halloc ⊢
  unfold HalPool.next at halloc ⊢
  rw [h.free]
  exact halloc

theorem alloc_some {size bot top top' : Int} {empty : α → α} {taken : HalPool α} (h : PoolAlike same F pool pool')
    (halloc : pool.alloc size empty bot top = some (new, taken, top')) :
    ∃ taken', pool'.alloc size empty bot top = some (new, taken', top') ∧ taken'.list = taken.list ∧
      taken'.free = taken.free ∧ taken'.cell = Function.update pool'.cell new (empty (pool'.cell new)) ∧
      ∀ p ∈ taken.list ++ taken.free, F p := by
  unfold HalPool.alloc at halloc ⊢
  rw [h.free]
  cases hfree : pool.free with
  | nil =>
    rw [hfree] at halloc
    obtain ⟨p, hp, heq⟩ := Option.map_eq_some_iff.1 halloc
    cases heq
    exact ⟨pool'.set new empty, by rw [hp]; rfl, h.list, h.free, rfl, h.inside⟩
  | cons p rest =>
    rw [hfree] at halloc
    cases halloc
    refine ⟨_, rfl, h.list, rfl, rfl, fun q hq => h.inside q ?_⟩
    rw [hfree]
    exact (List.Sublist.append_left (List.sublist_cons_self _ _) _).subset hq

theorem insertByName (h : PoolAlike same F pool pool') {name : α → CString} (hname : ∀ a b, same a b → name a = name b)
    (hnew : F new) {l : List Int} (hl : ∀ p ∈ l, F p) : pool'.insertByName name new l =
    pool.insertByName name new l := by
  have hcell : ∀ p, F p → name (pool'.cell p) = name (pool.cell p) := fun p hp => (hname _ _ (h.cell p hp)).symm
  induction l with
  | nil => rfl
  | cons p l ih =>
    unfold HalPool.insertByName
    rw [hcell new hnew, hcell p (hl p List.mem_cons_self), ih fun q hq => hl q (List.mem_cons_of_mem _ hq)]

theorem find (h : PoolAlike same F pool pool') {key : α → Bool} (hkey : ∀ a b, same a b → key a = key b) :
    (pool'.list.find? fun p => key (pool'.cell p)) = pool.list.find? fun p => key (pool.cell p) := by
  rw [h.list]
  exact List.find?_congr fun p hp => (hkey _ _ (h.onList hp)).symm

end PoolAlike

/-- The same became of a structure in two pools that are alike. -/
inductive PutAlike {α : Type} (same : α → α → Prop) : Put α → Put α → Prop
  | full : PutAlike same .full .full
  | taken {F : Int → Prop} {new top : Int} {pool pool' : HalPool α} (h : PoolAlike same F pool pool') (hnew : F new) :
    PutAlike same (.taken new pool top) (.taken new pool' top)
  | placed {F : Int → Prop} {new top : Int} {pool pool' : HalPool α} (h : PoolAlike same F pool pool') :
    PutAlike same (.placed new pool top) (.placed new pool' top)

theorem PoolAlike.put {α : Type} {same : α → α → Prop} {F : Int → Prop} {pool pool' : HalPool α} {size bot top : Int}
    {empty write : α → α} {name : α → CString} (h : PoolAlike same F pool pool')
    (hfresh : ∀ a b, same (write (empty a)) (write (empty b))) (hname : ∀ a b, same a b → name a = name b) :
    PutAlike same (pool.put size empty write name bot top) (pool'.put size empty write name bot top) := by
  unfold HalPool.put
  cases halloc : pool.alloc size empty bot top with
  | none =>
    rw [h.alloc_none halloc]
    exact PutAlike.full
  | some x =>
    obtain ⟨new, taken, top'⟩ := x
    obtain ⟨taken', halloc', hlist', hfree', hcell', hin⟩ := h.alloc_some halloc
    obtain ⟨-, -, hcell⟩ := HalPool.alloc_takes halloc
    rw [halloc']
    have hset : taken.set new write =
        ⟨taken.list, taken.free, Function.update pool.cell new (write (empty (pool.cell new)))⟩ := by
      simp [HalPool.set, hcell]
    have hset' : taken'.set new write =
        ⟨taken.list, taken.free, Function.update pool'.cell new (write (empty (pool'.cell new)))⟩ := by
      simp [HalPool.set, hcell', hlist', hfree']
    have hall : ∀ p ∈ taken.list ++ taken.free, F p ∨ p = new := fun p hp => .inl (hin p hp)
    have hwritten := h.update (hfresh (pool.cell new) (pool'.cell new)) hall
    rw [← hset, ← hset'] at hwritten
    have hlist : ∀ p ∈ taken.list, F p ∨ p = new := fun p hp => hall p (List.mem_append_left _ hp)
    dsimp only
    rw [hlist', hwritten.insertByName hname (.inr rfl) hlist]
    cases hins : (taken.set new write).insertByName name new taken.list with
    | none => exact PutAlike.taken hwritten (.inr rfl)
    | some list =>
      obtain ⟨l₁, l₂, hsplit, rfl⟩ := HalPool.insertByName_some hins
      refine PutAlike.placed (hwritten.withList fun p hp => ?_)
      rcases List.mem_append.1 hp with hp | hp
      · exact hlist p (by rw [hsplit]; exact List.mem_append_left _ hp)
      · rcases List.mem_cons.1 hp with rfl | hp
        · exact .inr rfl
        · exact hlist p (by rw [hsplit]; exact List.mem_append_right _ hp)

/-! ### Function entries -/

/-- Two blocks with the same rings, whose threads have entries with the same contents. -/
def EntriesAlike (fs ts spare : List Int) (es : Int → List Int) (z b : HalBlock) : Prop :=
  z.EntriesIn fs ts spare es ∧ b.EntriesIn fs ts spare es ∧ ∀ t ∈ ts, ∀ e ∈ es (functList t), b.entries e = z.entries e

namespace EntriesAlike

variable {fs ts spare : List Int} {es : Int → List Int} {z b : HalBlock}

theorem left (h : EntriesAlike fs ts spare es z b) : z.EntriesIn fs ts spare es := h.1

theorem right (h : EntriesAlike fs ts spare es z b) : b.EntriesIn fs ts spare es := h.2.1

theorem data (h : EntriesAlike fs ts spare es z b) : ∀ t ∈ ts, ∀ e ∈ es (functList t), b.entries e = z.entries e :=
    h.2.2

end EntriesAlike

/-- Only entries, their links and what is off the lists of the functions have changed. -/
def HalBlock.OnlyEntries (b b' : HalBlock) : Prop :=
  b' = { b with
    functs := ⟨b.functs.list, b'.functs.free, b'.functs.cell⟩
    entries := b'.entries, links := b'.links, ptrs := b'.ptrs }

theorem HalBlock.OnlyEntries.trans {b b' b'' : HalBlock} (h : b.OnlyEntries b') (h' : b'.OnlyEntries b'') :
    b.OnlyEntries b'' := by
  unfold OnlyEntries at h h' ⊢
  rw [h', h]

/-- The same entries have been taken out of two blocks that are alike. -/
structure Walked (fs ts spare : List Int) (F : Int → Prop) (z b z' b' : HalBlock) (es : Int → List Int) : Prop where
  entries : EntriesAlike fs ts spare es z' b'
  functs : PoolAlike Eq F z'.functs b'.functs
  left : z.OnlyEntries z'
  right : b.OnlyEntries b'

theorem Walked.trans {fs fs' ts spare : List Int} {F : Int → Prop} {z b z' b' z'' b'' : HalBlock}
    {es es' : Int → List Int}
    (h : Walked fs ts spare F z b z' b' es) (h' : Walked fs' ts spare F z' b' z'' b'' es') :
    Walked fs' ts spare F z b z'' b'' es' :=
  ⟨h'.entries, h'.functs, h.left.trans h'.left, h.right.trans h'.right⟩

section Walks

variable {z b : HalBlock} {fs ts spare as bs : List Int} {es : Int → List Int} {F : Int → Prop} {t e f : Int}

theorem EntriesAlike.walked (h : EntriesAlike fs ts spare es z b) (hf : PoolAlike Eq F z.functs b.functs) :
    Walked fs ts spare F z b z b es := ⟨h, hf, rfl, rfl⟩

/-- One entry is taken out of its ring and freed. -/
theorem EntriesAlike.unhook (h : EntriesAlike fs ts spare es z b)
    (hfuncts : PoolAlike Eq F z.functs b.functs) (ht : t ∈ ts)
    (hes : es (functList t) = as ++ e :: bs) :
    ∃ es', Walked fs ts spare F z b ({ z with links := z.links.remove e }.freeFunctEntryStruct e)
        ({ b with links := b.links.remove e }.freeFunctEntryStruct e) es' ∧
      es' (functList t) = as ++ bs := by
  have hts : t ∈ ts ++ spare := List.mem_append_left _ ht
  have hmem : e ∈ es (functList t) := by simp [hes]
  have hdata := h.data t ht e hmem
  obtain ⟨es', hes'⟩ : ∃ es', es' = Function.update (Function.update es (functList t) (as ++ bs)) functEntryFree
      (e :: es functEntryFree) := ⟨_, rfl⟩
  have hnodup : e ∉ as ++ bs := by
    have := (List.nodup_cons.1 (h.left.rings.ring _ (mem_ringRoots hts)).nodup).2
    rw [hes] at this
    exact (List.nodup_cons.1 (List.nodup_middle.1 this)).1
  have hthis : es' (functList t) = as ++ bs := by
    rw [hes', Function.update_of_ne (h.left.free_ne hts), Function.update_self]
  have hother : ∀ s ∈ ts, s ≠ t → es' (functList s) = es (functList s) := by
    intro s hs hst
    rw [hes', Function.update_of_ne (h.left.free_ne (List.mem_append_left _ hs)),
      Function.update_of_ne (mt functList_inj.1 hst)]
  -- `e` is in no list of a thread any more, the other entries are as they were
  have hold : ∀ s ∈ ts, ∀ a ∈ es' (functList s), a ≠ e ∧ a ∈ es (functList s) := by
    intro s hs a ha
    by_cases hst : s = t
    · rw [hst, hthis] at ha
      refine ⟨by rintro rfl; exact hnodup ha, ?_⟩
      rw [hst, hes]
      exact ((List.Sublist.refl as).append (List.sublist_cons_self e bs)).subset ha
    · rw [hother s hs hst] at ha
      exact ⟨by rintro rfl; exact h.left.not_mem_other (List.mem_append_left _ hs) hts hst hmem ha, ha⟩
  have hleft := h.left.unhook ht hes
  have hright := h.right.unhook ht hes
  rw [unhook_eq h.left ht hmem, unhook_eq h.right ht hmem]
  rw [← hes'] at hleft hright
  refine ⟨es', ⟨⟨hleft, hright, ?_⟩, ?_, rfl, rfl⟩, hthis⟩
  · intro s hs a ha
    obtain ⟨hne, hmem'⟩ := hold s hs a ha
    show Function.update b.entries e _ a = Function.update z.entries e _ a
    rw [Function.update_of_ne hne, Function.update_of_ne hne]
    exact h.data s hs a hmem'
  · rw [hdata]
    exact hfuncts.setEq (z.entries e).functPtr fun p => { p with users := p.users - 1 }

/-- The walk of `free_funct_struct` in two blocks that are alike. -/
theorem EntriesAlike.removeEntries (h : EntriesAlike fs ts spare es z b) (hfuncts : PoolAlike Eq F z.functs b.functs)
    (ht : t ∈ ts) (hes : es (functList t) = as ++ bs) {n : Nat} (hn : bs.length < n) :
    ∃ z' b' es', removeEntries f (functList t) n ((bs ++ [functList t]).head (by simp)) z = .ok z' ∧
      removeEntries f (functList t) n ((bs ++ [functList t]).head (by simp)) b = .ok b' ∧
      Walked fs ts spare F z b z' b' es' := by
  have hts : t ∈ ts ++ spare := List.mem_append_left _ ht
  induction bs generalizing z b es as n with
  | nil =>
    obtain ⟨m, rfl⟩ := Nat.exists_eq_succ_of_ne_zero (by omega : n ≠ 0)
    exact ⟨z, b, es, if_pos rfl, if_pos rfl, h.walked hfuncts⟩
  | cons e bs ih =>
    obtain ⟨m, rfl⟩ := Nat.exists_eq_succ_of_ne_zero (by simp at hn; omega : n ≠ 0)
    have hmem : e ∈ es (functList t) := by simp [hes]
    have hlen : bs.length < m := by simp at hn; omega
    rw [show ((e :: bs) ++ [functList t]).head (by simp) = e from rfl]
    unfold HalBlock.removeEntries
    rw [if_neg (entry_ne_root h.left hts hmem), if_neg (entry_ne_root h.left hts hmem), next_entry h.left hts hes,
      next_entry h.right hts hes, h.data t ht e hmem]
    by_cases hf : (z.entries e).functPtr = f
    · rw [if_pos hf, if_pos hf]
      obtain ⟨es₁, hwalk, hes₁⟩ := h.unhook hfuncts ht hes
      obtain ⟨z', b', es', hz, hb, hwalk'⟩ := ih hwalk.entries hwalk.functs hes₁ hlen
      exact ⟨z', b', es', hz, hb, hwalk.trans hwalk'⟩
    · rw [if_neg hf, if_neg hf]
      have hsplit : es (functList t) = (as ++ [e]) ++ bs := by
        rw [List.append_assoc]
        exact hes
      exact ih h hfuncts hsplit hlen

/-- The walk of `free_thread_struct` in two blocks that are alike. -/
theorem EntriesAlike.clearEntries (h : EntriesAlike fs ts spare es z b) (hfuncts : PoolAlike Eq F z.functs b.functs)
    (ht : t ∈ ts) {n : Nat} (hn : (es (functList t)).length < n) :
    ∃ z' b' es', clearEntries (functList t) n (z.links.next (functList t)) z = .ok z' ∧
      clearEntries (functList t) n (b.links.next (functList t)) b = .ok b' ∧
      Walked fs ts spare F z b z' b' es' ∧ es' (functList t) = [] := by
  have hts : t ∈ ts ++ spare := List.mem_append_left _ ht
  obtain ⟨bs, hbs⟩ : ∃ bs, es (functList t) = [] ++ bs := ⟨_, rfl⟩
  rw [next_root h.left hts, next_root h.right hts]
  simp only [hbs, List.nil_append] at hn ⊢
  induction bs generalizing z b es n with
  | nil =>
    obtain ⟨m, rfl⟩ := Nat.exists_eq_succ_of_ne_zero (by simp at hn; omega : n ≠ 0)
    exact ⟨z, b, es, if_pos rfl, if_pos rfl, h.walked hfuncts, hbs⟩
  | cons e bs ih =>
    obtain ⟨m, rfl⟩ := Nat.exists_eq_succ_of_ne_zero (by simp at hn; omega : n ≠ 0)
    have hmem : e ∈ es (functList t) := by simp [hbs]
    have hlen : bs.length < m := by simp at hn; omega
    rw [show ((e :: bs) ++ [functList t]).head (by simp) = e from rfl]
    unfold HalBlock.clearEntries
    rw [if_neg (entry_ne_root h.left hts hmem), if_neg (entry_ne_root h.left hts hmem), next_entry h.left hts hbs,
      next_entry h.right hts hbs]
    obtain ⟨es₁, hwalk, hes₁⟩ := h.unhook hfuncts ht hbs
    obtain ⟨z', b', es', hz, hb, hwalk', hnone⟩ := ih hwalk.entries hwalk.functs hes₁ hlen
    exact ⟨z', b', es', hz, hb, hwalk.trans hwalk', hnone⟩

/-- The loop of `free_funct_struct` in two blocks that are alike. -/
theorem EntriesAlike.removeFromThreads {rest : List Int} (h : EntriesAlike fs ts spare es z b)
    (hfuncts : PoolAlike Eq F z.functs b.functs) (hrest : ∀ t ∈ rest, t ∈ ts) :
    ∃ z' b' es', removeFromThreads f rest z = .ok z' ∧ removeFromThreads f rest b = .ok b' ∧
      Walked fs ts spare F z b z' b' es' := by
  induction rest generalizing z b es with
  | nil => exact ⟨z, b, es, rfl, rfl, h.walked hfuncts⟩
  | cons t rest ih =>
    have ht := hrest t List.mem_cons_self
    have hts : t ∈ ts ++ spare := List.mem_append_left _ ht
    obtain ⟨z₁, b₁, es₁, hz₁, hb₁, hwalk⟩ := h.removeEntries (f := f) hfuncts ht (List.nil_append _).symm
      (h.left.length_lt (mem_ringRoots hts))
    obtain ⟨z', b', es', hz, hb, hwalk'⟩ :=
      ih hwalk.entries hwalk.functs fun s hs => hrest s (List.mem_cons_of_mem _ hs)
    refine ⟨z', b', es', ?_, ?_, hwalk.trans hwalk'⟩
    · unfold HalBlock.removeFromThreads
      rw [next_root h.left hts, hz₁]
      exact hz
    · unfold HalBlock.removeFromThreads
      rw [next_root h.right hts, hb₁]
      exact hb

/-- `free_funct_struct` in two blocks that are alike. -/
theorem EntriesAlike.freeFunct (h : EntriesAlike fs ts spare es z b) (hfuncts : PoolAlike Eq F z.functs b.functs)
    (hthreads : z.threads.list = ts ∧ b.threads.list = ts) (hf : f ∈ fs) (hF : F f) :
    ∃ z' b' es', freeFunctStruct f z = .ok z' ∧ freeFunctStruct f b = .ok b' ∧
      Walked (fs.filter (· ≠ f)) ts spare F z b z' b' es' := by
  obtain ⟨hzt, hbt⟩ := hthreads
  obtain ⟨z₁, b₁, es', hz₁, hb₁, hwalk⟩ : ∃ z₁ b₁ es',
      (if 0 < (z.functs.cell f).users then HalBlock.removeFromThreads f z.threads.list z else .ok z) = .ok z₁ ∧
      (if 0 < (b.functs.cell f).users then HalBlock.removeFromThreads f b.threads.list b else .ok b) = .ok b₁ ∧
      Walked fs ts spare F z b z₁ b₁ es' := by
    rw [← hfuncts.cell f hF, hzt, hbt]
    split
    · exact h.removeFromThreads hfuncts fun t ht => ht
    · exact ⟨z, b, es, rfl, rfl, h.walked hfuncts⟩
  obtain ⟨z', hz'⟩ : ∃ z' : HalBlock, z' = { z₁ with
      functs := z₁.functs.release f emptyFunct, ptrs := Function.update z₁.ptrs (f + 48) 0 } := ⟨_, rfl⟩
  have hrun : freeFunctStruct f z = .ok z' := by
    unfold freeFunctStruct
    rw [hz₁, hz']
    rfl
  -- no entry refers to the function any more
  have hnone : ∀ t ∈ ts, ∀ e ∈ es' (functList t), (z₁.entries e).functPtr ≠ f := by
    have hleft := h.left
    rw [← hzt] at hleft
    obtain ⟨z'', es'', hrun'', hok, -⟩ := freeFunctStruct_spec hleft hf
    rw [hrun] at hrun''
    cases hrun''
    intro t ht e he
    have hroot : functList t ∈ ringRoots (ts ++ spare) := mem_ringRoots (List.mem_append_left _ ht)
    have hin : z'.links = z₁.links := by rw [hz']
    have hsame : es'' (functList t) = es' (functList t) := by
      rw [hzt] at hok
      rw [← EntriesIn.entriesOf_eq hok hroot, ← EntriesIn.entriesOf_eq hwalk.entries.left hroot]
      unfold entriesOf
      rw [hin]
    have hrefers := hok.refers t (hzt ▸ ht) e (hsame ▸ he)
    rw [hz'] at hrefers
    have : (z₁.entries e).functPtr ∈ fs ∧ (z₁.entries e).functPtr ≠ f := by simpa using hrefers
    exact this.2
  have hnone' : ∀ t ∈ ts, ∀ e ∈ es' (functList t), (b₁.entries e).functPtr ≠ f := by
    intro t ht e he
    rw [hwalk.entries.data t ht e he]
    exact hnone t ht e he
  refine ⟨z', { b₁ with functs := b₁.functs.release f emptyFunct, ptrs := Function.update b₁.ptrs (f + 48) 0 }, es',
    hrun, ?_, ⟨?_, ?_, ?_⟩, ?_, ?_, ?_⟩
  · unfold freeFunctStruct
    rw [hb₁]
    rfl
  · rw [hz']
    exact EntriesOk.dropFunct hwalk.entries.left hnone (emptyFunct (z₁.functs.cell f))
  · exact EntriesOk.dropFunct hwalk.entries.right hnone' (emptyFunct (b₁.functs.cell f))
  · rw [hz']
    exact hwalk.entries.data
  · rw [hz']
    exact hwalk.functs.releaseEq hF emptyFunct
  · have hleft := hwalk.left
    unfold OnlyEntries at hleft ⊢
    rw [hz', hleft]
    rfl
  · have hright := hwalk.right
    unfold OnlyEntries at hright ⊢
    rw [hright]
    rfl

/-- Every function of a list is freed. -/
theorem EntriesAlike.freeFuncts {owned : List Int} (h : EntriesAlike fs ts spare es z b)
    (hfuncts : PoolAlike Eq F z.functs b.functs) (hthreads : z.threads.list = ts ∧ b.threads.list = ts)
    (hsub : ∀ f ∈ owned, f ∈ fs ∧ F f) (hnodup : owned.Nodup) :
    ∃ z' b' es', freeEach freeFunctStruct owned z = .ok z' ∧ freeEach freeFunctStruct owned b = .ok b' ∧
      Walked (fs.filter (· ∉ owned)) ts spare F z b z' b' es' := by
  -- over the functions to be freed, each of which takes its entries along
  induction owned generalizing z b fs es with
  | nil =>
    refine ⟨z, b, es, rfl, rfl, ?_⟩
    have hall : fs.filter (· ∉ ([] : List Int)) = fs := by simp
    rw [hall]
    exact h.walked hfuncts
  | cons f owned ih =>
    obtain ⟨hf, hnodup⟩ := List.nodup_cons.1 hnodup
    obtain ⟨hmem, hF⟩ := hsub f List.mem_cons_self
    obtain ⟨z₁, b₁, es₁, hz₁, hb₁, hwalk⟩ := h.freeFunct hfuncts hthreads hmem hF
    have hthreads₁ : z₁.threads.list = ts ∧ b₁.threads.list = ts := by
      rw [hwalk.left, hwalk.right]
      exact hthreads
    have hrest : ∀ g ∈ owned, g ∈ fs.filter (· ≠ f) ∧ F g := by
      intro g hg
      have hgf : g ≠ f := by
        rintro rfl
        exact hf hg
      obtain ⟨hgmem, hgF⟩ := hsub g (List.mem_cons_of_mem _ hg)
      exact ⟨by simpa using ⟨hgmem, hgf⟩, hgF⟩
    obtain ⟨z', b', es', hz, hb, hwalk'⟩ := ih hwalk.entries hwalk.functs hthreads₁ hrest hnodup
    have hfs : (fs.filter (· ≠ f)).filter (· ∉ owned) = fs.filter (· ∉ f :: owned) := by
      rw [List.filter_filter]
      refine List.filter_congr fun g _ => ?_
      simp [Bool.and_comm]
    rw [hfs] at hwalk'
    refine ⟨z', b', es', ?_, ?_, hwalk.trans hwalk'⟩
    · unfold freeEach
      rw [hz₁]
      exact hz
    · unfold freeEach
      rw [hb₁]
      exact hb

end Walks

/-! ### Blocks that are alike -/

/-- The same pin but for the old name. -/
def PinStruct.Same (p q : PinStruct) : Prop := q = { p with oldname := q.oldname }

/-- The same parameter but for the old name. -/
def ParamStruct.Same (p q : ParamStruct) : Prop := q = { p with oldname := q.oldname }

namespace HalBlock

/-- Two blocks with the same lists and the same structures on them, but for the old names: the second has those of
`old`, and no pin or parameter that was freed has one. -/
structure Alike (old z b : HalBlock) : Prop where
  mutex : b.mutex = z.mutex
  lock : b.lock = z.lock
  threadsRunning : b.threadsRunning = z.threadsRunning
  shmemBot : b.shmemBot = z.shmemBot
  shmemTop : b.shmemTop = z.shmemTop
  period : b.period = z.period
  comps : ∃ F, PoolAlike Eq F z.comps b.comps
  pins : ∃ F, PoolAlike PinStruct.Same F z.pins b.pins
  params : ∃ F, PoolAlike ParamStruct.Same F z.params b.params
  functs : ∃ F, PoolAlike Eq F z.functs b.functs
  threads : ∃ F, PoolAlike Eq F z.threads b.threads
  pinNames : ∀ p, (b.pins.cell p).oldname = (old.pins.cell p).oldname
  paramNames : ∀ p, (b.params.cell p).oldname = (old.params.cell p).oldname
  freedPins : ∀ p ∈ z.pins.free, (old.pins.cell p).oldname = 0
  freedParams : ∀ p ∈ z.params.free, (old.params.cell p).oldname = 0
  entries : ∃ es, EntriesAlike z.functs.list z.threads.list z.threads.free es z b

/-- A call has failed and freed a pin that lies over an old name of `old`. -/
def StalePin (old : HalBlock) (r : Int) (z : HalBlock) : Prop := r ≠ 0 ∧ ∃ p ∈ z.pins.free,
    (old.pins.cell p).oldname ≠ 0

/-- A call has failed and freed a parameter that lies over an old name of `old`. -/
def StaleParam (old : HalBlock) (r : Int) (z : HalBlock) : Prop :=
  r ≠ 0 ∧ ∃ p ∈ z.params.free, (old.params.cell p).oldname ≠ 0

/-- A pin has been freed, or a parameter been handed out, that lies over an old name of `old`. -/
def Stale (old : HalBlock) (_ : Int) (z : HalBlock) : Prop :=
  (∃ p ∈ z.pins.free, (old.pins.cell p).oldname ≠ 0) ∨ ∃ p ∈ z.params.list ++ z.params.free,
  (old.params.cell p).oldname ≠ 0

/-- A call of a block and the same call of one that is alike: they end in the same way, unless the second one follows
an old name that was left in the memory, and `S` says of the first one what it has freed. -/
def Matches (old : HalBlock) (S : Int → HalBlock → Prop) : HalRun (Int × HalBlock) → HalRun (Int × HalBlock) → Prop
  | .error e, run => run = .error e
  | .ok (r, z), run => (∃ b, run = .ok (r, b) ∧ old.Alike z b) ∨ run = .error .dangling ∧ S r z

variable {old z b z' z'' : HalBlock} {S S' : Int → HalBlock → Prop}

theorem StalePin.stale {r : Int} (h : old.StalePin r z) (r' : Int) : old.Stale r' z := .inl h.2

theorem StaleParam.stale {r : Int} (h : old.StaleParam r z) (r' : Int) : old.Stale r' z := by
  obtain ⟨-, p, hp, hne⟩ := h
  exact .inr ⟨p, List.mem_append_right _ hp, hne⟩

theorem Matches.ok {r : Int} (h : old.Alike z b) : Matches old S (.ok (r, z)) (.ok (r, b)) := .inl ⟨b, rfl, h⟩

theorem Matches.mono {run run' : HalRun (Int × HalBlock)} (h : Matches old S run run') (hS : ∀ r z, S r z → S' r z) :
    Matches old S' run run' := by
  cases run with
  | error e => exact h
  | ok x => exact h.imp id fun ⟨hrun, hstale⟩ => ⟨hrun, hS _ _ hstale⟩

/-- Two calls that match, each followed by the same call. -/
theorem Matches.bind {run run' : HalRun (Int × HalBlock)} {k : Int × HalBlock → HalRun (Int × HalBlock)}
    (h : Matches old S run run') (hz : Returns run)
    (hk : ∀ r (z b : HalBlock), z.Sound → old.Alike z b → Matches old S' (k (r, z)) (k (r, b)))
    (hrest : ∀ r (z : HalBlock), z.Sound → S r z → ∃ r' z', k (r, z) = .ok (r', z') ∧ S' r' z') :
    Matches old S' (run.bind k) (run'.bind k) := by
  obtain ⟨r, z', rfl, hsound⟩ := hz
  rcases h with ⟨b', rfl, halike⟩ | ⟨rfl, hstale⟩
  · exact hk r z' b' hsound halike
  · obtain ⟨r', z'', hrun, hstale'⟩ := hrest r z' hsound hstale
    show Matches old S' (k (r, z')) (.error .dangling)
    rw [hrun]
    exact .inr ⟨rfl, hstale'⟩

namespace Alike

theorem withMutex (h : old.Alike z b) (mutex : Bool) : old.Alike { z with mutex := mutex } { b with mutex := mutex } :=
  { h with mutex := rfl }

theorem lower (h : old.Alike z b) {top : Int} (hbase : 256 ≤ top) (htop : top ≤ z.shmemTop) :
    old.Alike { z with shmemTop := top } { b with shmemTop := top } := by
  obtain ⟨es, hes⟩ := h.entries
  have htop' : top ≤ b.shmemTop := by
    rw [h.shmemTop]
    exact htop
  exact { h with
    shmemTop := rfl
    entries := ⟨es, EntriesOk.lower hes.left hbase htop, EntriesOk.lower hes.right hbase htop', hes.data⟩ }

theorem withComps (h : old.Alike z b) {F : Int → Prop} {comps comps' : HalPool CompStruct}
    (hpool : PoolAlike Eq F comps comps') : old.Alike { z with comps := comps } { b with comps := comps' } :=
  { h with comps := ⟨F, hpool⟩ }

theorem setComp (h : old.Alike z b) (p : Int) (f : CompStruct → CompStruct) :
    old.Alike { z with comps := z.comps.set p f } { b with comps := b.comps.set p f } := by
  obtain ⟨F, hpool⟩ := h.comps
  exact h.withComps (hpool.setEq p f)

theorem withPins (h : old.Alike z b) {F : Int → Prop} {pins pins' : HalPool PinStruct}
    (hpool : PoolAlike PinStruct.Same F pins pins') (hnames : ∀ p, (pins'.cell p).oldname = (old.pins.cell p).oldname)
    (hfreed : ∀ p ∈ pins.free, (old.pins.cell p).oldname = 0) (ptrs ptrs' : Int → Int) :
    old.Alike { z with pins := pins, ptrs := ptrs } { b with pins := pins', ptrs := ptrs' } :=
  { h with pins := ⟨F, hpool⟩, pinNames := hnames, freedPins := hfreed }

theorem withParams (h : old.Alike z b) {F : Int → Prop} {params params' : HalPool ParamStruct}
    (hpool : PoolAlike ParamStruct.Same F params params')
    (hnames : ∀ p, (params'.cell p).oldname = (old.params.cell p).oldname)
    (hfreed : ∀ p ∈ params.free, (old.params.cell p).oldname = 0) :
    old.Alike { z with params := params } { b with params := params' } :=
  { h with params := ⟨F, hpool⟩, paramNames := hnames, freedParams := hfreed }

theorem findComp (h : old.Alike z b) (compId : Int) : b.halprFindCompById compId = z.halprFindCompById compId := by
  obtain ⟨F, hpool⟩ := h.comps
  have hkey : ∀ a b : CompStruct, a = b → (a.compId == compId) = (b.compId == compId) := fun a b hab => by rw [hab]
  exact hpool.find hkey

theorem compCell (h : old.Alike z b) {c : Int} (hc : c ∈ z.comps.list) : b.comps.cell c = z.comps.cell c := by
  obtain ⟨F, hpool⟩ := h.comps
  exact (hpool.onList hc).symm

theorem compError (h : old.Alike z b) (moduleId : Int) (name : Option CString) :
    b.compError moduleId name = z.compError moduleId name := by
  obtain ⟨F, hpool⟩ := h.comps
  have hfind : ∀ name, b.halprFindCompByName name = z.halprFindCompByName name := by
    intro name
    have hkey : ∀ a b : CompStruct, a = b → (a.name == name) = (b.name == name) := fun a b hab => by rw [hab]
    exact hpool.find hkey
  unfold HalBlock.compError
  simp only [hfind]

theorem itemOwner (h : old.Alike z b) (name : CString) (typeOk : Bool) (addr compId : Int) :
    b.itemOwner name typeOk addr compId = z.itemOwner name typeOk addr compId := by
  unfold HalBlock.itemOwner
  rw [h.lock, h.findComp]
  cases hfind : z.halprFindCompById compId with
  | none => rfl
  | some comp =>
    dsimp only
    rw [h.compCell (findComp_mem hfind)]

theorem functOwner (h : old.Alike z b) (name : CString) (compId : Int) : b.functOwner name compId =
    z.functOwner name compId := by
  unfold HalBlock.functOwner
  rw [h.lock, h.findComp]
  cases hfind : z.halprFindCompById compId with
  | none => rfl
  | some comp =>
    dsimp only
    rw [h.compCell (findComp_mem hfind)]

theorem functCell (h : old.Alike z b) {f : Int} (hf : f ∈ z.functs.list) : b.functs.cell f = z.functs.cell f := by
  obtain ⟨F, hpool⟩ := h.functs
  exact (hpool.onList hf).symm

theorem threadCell (h : old.Alike z b) {t : Int} (ht : t ∈ z.threads.list) : b.threads.cell t = z.threads.cell t := by
  obtain ⟨F, hpool⟩ := h.threads
  exact (hpool.onList ht).symm

theorem threadList (h : old.Alike z b) : b.threads.list = z.threads.list := by
  obtain ⟨F, hpool⟩ := h.threads
  exact hpool.list

theorem findFunct (h : old.Alike z b) (name : CString) : b.halprFindFunctByName name = z.halprFindFunctByName name := by
  obtain ⟨F, hpool⟩ := h.functs
  have hkey : ∀ a b : FunctStruct, a = b → (a.name == name) = (b.name == name) := fun a b hab => by rw [hab]
  exact hpool.find hkey

theorem findThread (h : old.Alike z b) (name : CString) : b.halprFindThreadByName name =
    z.halprFindThreadByName name := by
  obtain ⟨F, hpool⟩ := h.threads
  have hkey : ∀ a b : ThreadStruct, a = b → (a.name == name) = (b.name == name) := fun a b hab => by rw [hab]
  exact hpool.find hkey

theorem threadError (h : old.Alike z b) (name : CString) (period : UInt64) :
    b.threadError name period = z.threadError name period := by
  unfold HalBlock.threadError
  rw [h.lock, h.findThread]

theorem taskRuns (h : old.Alike z b) (rt : ThreadAnswer) (period : UInt64) : b.taskRuns rt period =
    z.taskRuns rt period := by
  unfold HalBlock.taskRuns clockFits
  rw [h.threadList, h.period]
  dsimp only
  split <;> rfl

theorem basePeriod (h : old.Alike z b) (period : UInt64) : b.basePeriod period = z.basePeriod period := by
  rw [basePeriod_eq, basePeriod_eq, h.threadList, h.period]

theorem insertionPoint (h : old.Alike z b) {t : Int} (ht : t ∈ z.threads.list) {position : Int} (hne : position ≠ 0) :
    b.insertionPoint (functList t) position = z.insertionPoint (functList t) position := by
  obtain ⟨es, hes⟩ := h.entries
  have hroot := mem_ringRoots (List.mem_append_left z.threads.free ht)
  rw [insertionPoint_eq (hes.left.rings.ring _ hroot) hne, insertionPoint_eq (hes.right.rings.ring _ hroot) hne]

theorem addPlace (h : old.Alike z b) (functName threadName : Option CString) (position : Int) :
    b.addPlace functName threadName position = z.addPlace functName threadName position := by
  unfold HalBlock.addPlace
  rw [h.lock]
  split
  · rfl
  split
  · rfl
  rename_i hne
  cases functName with
  | none => rfl
  | some functName =>
    cases threadName with
    | none => rfl
    | some threadName =>
      dsimp only
      rw [h.findFunct, h.findThread]
      cases hfunct : z.halprFindFunctByName functName with
      | none => rfl
      | some funct =>
        cases hthread : z.halprFindThreadByName threadName with
        | none =>
          dsimp only
          rw [h.functCell (halprFindFunctByName_mem hfunct)]
        | some thread =>
          have ht := halprFindThreadByName_mem hthread
          dsimp only
          rw [h.functCell (halprFindFunctByName_mem hfunct), h.threadCell ht, h.insertionPoint ht hne]

theorem delPlace (h : old.Alike z b) (functName threadName : Option CString) :
    b.delPlace functName threadName = z.delPlace functName threadName := by
  unfold HalBlock.delPlace
  rw [h.lock]
  split
  · rfl
  cases functName with
  | none => rfl
  | some functName =>
    cases threadName with
    | none => rfl
    | some threadName =>
      dsimp only
      rw [h.findFunct, h.findThread]
      cases hfunct : z.halprFindFunctByName functName with
      | none => rfl
      | some funct =>
        dsimp only
        rw [h.functCell (halprFindFunctByName_mem hfunct)]

/-- Functions and entries have changed in two blocks that are alike. -/
theorem moved (h : old.Alike z b) {z' b' : HalBlock} {F : Int → Prop} {es : Int → List Int}
    (hleft : z' = { z with functs := z'.functs, entries := z'.entries, links := z'.links, ptrs := z'.ptrs })
    (hright : b' = { b with functs := b'.functs, entries := b'.entries, links := b'.links, ptrs := b'.ptrs })
    (hfuncts : PoolAlike Eq F z'.functs b'.functs)
    (hentries : EntriesAlike z'.functs.list z.threads.list z.threads.free es z' b') : old.Alike z' b' := by
  rw [hleft, hright] at hfuncts hentries ⊢
  exact { h with functs := ⟨F, hfuncts⟩, entries := ⟨es, hentries⟩ }

theorem walked (h : old.Alike z b) {z' b' : HalBlock} {F : Int → Prop} {es : Int → List Int}
    (hwalk : Walked z.functs.list z.threads.list z.threads.free F z b z' b' es) : old.Alike z' b' := by
  have hlist : z'.functs.list = z.functs.list := by rw [hwalk.left]
  refine h.moved ?_ ?_ hwalk.functs (hlist ▸ hwalk.entries)
  · rw [hwalk.left]
  · rw [hwalk.right]

end Alike

end HalBlock

end SoemMotion
