import SoemMotion.HalSteps
import Mathlib.Algebra.BigOperators.Group.List.Basic
import Mathlib.Order.Interval.Finset.Basic
import Mathlib.Data.Int.Interval

/-!
# The function entries of the threads

Every thread has a ring of function entries, and the free entries form one more; the entries of the threads refer to
live functions, and a function counts the entries that refer to it (`EntriesOk`).  An entry that is freed leaves the
ring of its thread for the free ring; the walks of `free_funct_struct`, `free_thread_struct` and
`hal_del_funct_from_thread` are such steps.
-/

namespace SoemMotion

open Lib

/-! ### Counting entries -/

/-- How many entries of the threads `ts` refer to the function `f`. -/
def uses (entries : Int → FunctEntry) (es : Int → List Int) (ts : List Int) (f : Int) : Nat :=
  (ts.flatMap fun t => es (functList t)).countP fun e => (entries e).functPtr = f

section Uses

variable {entries entries' : Int → FunctEntry} {es es' : Int → List Int} {ts ts₁ ts₂ : List Int} {t f : Int}

theorem uses_append : uses entries es (ts₁ ++ ts₂) f = uses entries es ts₁ f + uses entries es ts₂ f := by
  unfold uses
  rw [List.flatMap_append, List.countP_append]

theorem uses_cons : uses entries es (t :: ts) f =
    ((es (functList t)).countP fun e => (entries e).functPtr = f) + uses entries es ts f := by
  unfold uses
  rw [List.flatMap_cons, List.countP_append]

theorem uses_congr (hes : ∀ t ∈ ts, es' (functList t) = es (functList t))
    (hentries : ∀ t ∈ ts, ∀ e ∈ es (functList t), entries' e = entries e) :
    uses entries' es' ts f = uses entries es ts f := by
  induction ts with
  | nil => rfl
  | cons t ts ih =>
    rw [uses_cons, uses_cons, hes t List.mem_cons_self, ih (fun s hs => hes s (List.mem_cons_of_mem _ hs))
      fun s hs => hentries s (List.mem_cons_of_mem _ hs)]
    congr 1
    refine List.countP_congr fun e he => ?_
    rw [hentries t List.mem_cons_self e he]

/-- With fewer entries there are fewer uses. -/
theorem uses_le (hes : ∀ t ∈ ts, (es' (functList t)).Sublist (es (functList t)))
    (hentries : ∀ t ∈ ts, ∀ e ∈ es' (functList t), entries' e = entries e) :
    uses entries' es' ts f ≤ uses entries es ts f := by
  induction ts with
  | nil => exact le_refl _
  | cons t ts ih =>
    have hrest := ih (fun s hs => hes s (List.mem_cons_of_mem _ hs)) fun s hs => hentries s (List.mem_cons_of_mem _ hs)
    have hcount := (hes t List.mem_cons_self).countP_le (p := fun e => decide ((entries e).functPtr = f))
    have hsame : ((es' (functList t)).countP fun e => (entries' e).functPtr = f) =
        (es' (functList t)).countP fun e => (entries e).functPtr = f := by
      refine List.countP_congr fun e he => ?_
      rw [hentries t List.mem_cons_self e he]
    rw [uses_cons, uses_cons, hsame]
    omega

/-- The entries of other functions do not count. -/
theorem uses_filter {dead : List Int} (hf : f ∉ dead)
    (hes : ∀ t ∈ ts, es' (functList t) = (es (functList t)).filter fun e => (entries e).functPtr ∉ dead)
    (hentries : ∀ t ∈ ts, ∀ e ∈ es' (functList t), entries' e = entries e) :
    uses entries' es' ts f = uses entries es ts f := by
  induction ts with
  | nil => rfl
  | cons t ts ih =>
    have hcount : ((es' (functList t)).countP fun e => (entries' e).functPtr = f) =
        (es (functList t)).countP fun e => (entries e).functPtr = f := by
      have hsame : ((es' (functList t)).countP fun e => (entries' e).functPtr = f) =
          (es' (functList t)).countP fun e => (entries e).functPtr = f := by
        refine List.countP_congr fun e he => ?_
        rw [hentries t List.mem_cons_self e he]
      rw [hsame, hes t List.mem_cons_self, List.countP_filter]
      refine List.countP_congr fun e _ => ?_
      by_cases hef : (entries e).functPtr = f
      · simp [hef, hf]
      · simp [hef]
    rw [uses_cons, uses_cons, hcount, ih (fun s hs => hes s (List.mem_cons_of_mem _ hs))
      fun s hs => hentries s (List.mem_cons_of_mem _ hs)]

/-- Only the entries of one thread have changed. -/
theorem uses_change (ht : t ∈ ts) (hnodup : ts.Nodup) (hes : ∀ s ∈ ts, s ≠ t → es' (functList s) = es (functList s))
    (hentries : ∀ s ∈ ts, s ≠ t → ∀ e ∈ es (functList s), entries' e = entries e) :
    uses entries' es' ts f + ((es (functList t)).countP fun e => (entries e).functPtr = f) =
      uses entries es ts f + ((es' (functList t)).countP fun e => (entries' e).functPtr = f) := by
  obtain ⟨ts₁, ts₂, rfl⟩ := List.append_of_mem ht
  have hnot : t ∉ ts₁ ++ ts₂ := (List.nodup_cons.1 (List.nodup_middle.1 hnodup)).1
  have hother : ∀ s ∈ ts₁ ++ ts₂, s ∈ ts₁ ++ t :: ts₂ ∧ s ≠ t := by
    intro s hs
    refine ⟨?_, fun h => hnot (h ▸ hs)⟩
    rcases List.mem_append.1 hs with hs | hs
    · exact List.mem_append_left _ hs
    · exact List.mem_append_right _ (List.mem_cons_of_mem _ hs)
  have hsame : ∀ l, (∀ s ∈ l, s ∈ ts₁ ++ ts₂) → uses entries' es' l f = uses entries es l f := fun l hl =>
    uses_congr (fun s hs => hes s (hother s (hl s hs)).1 (hother s (hl s hs)).2)
      fun s hs => hentries s (hother s (hl s hs)).1 (hother s (hl s hs)).2
  rw [uses_append, uses_append, uses_cons, uses_cons, hsame ts₁ fun s hs => List.mem_append_left _ hs,
    hsame ts₂ fun s hs => List.mem_append_right _ hs]
  omega

end Uses

/-! ### Rings and counts -/

/-- The roots of the rings: one for the free entries, one for each thread. -/
def ringRoots (ts : List Int) : List Int := functEntryFree :: ts.map functList

/-- The entries of the threads `ts` refer to the functions `fs`, which count them; the threads `spare` have none. -/
structure EntriesOk (top : Int) (cell : Int → FunctStruct) (fs ts spare : List Int) (entries : Int → FunctEntry)
    (links : Links Int) (es : Int → List Int) : Prop where
  base : 256 ≤ top
  functs : ∀ f ∈ fs, top ≤ f
  threads : ∀ t ∈ ts ++ spare, top ≤ t ∧ t + 120 ≤ halSize
  nodup : (ts ++ spare).Nodup
  rings : Rings links (ringRoots (ts ++ spare)) es
  nodes : ∀ r ∈ ringRoots (ts ++ spare), ∀ e ∈ es r, top ≤ e ∧ e < halSize
  idle : ∀ t ∈ spare, es (functList t) = []
  users : ∀ f ∈ fs, (cell f).users = uses entries es ts f
  refers : ∀ t ∈ ts, ∀ e ∈ es (functList t), (entries e).functPtr ∈ fs

theorem functList_inj {s t : Int} : functList s = functList t ↔ s = t := by
  unfold functList
  omega

theorem mem_ringRoots {ts : List Int} {t : Int} (h : t ∈ ts) : functList t ∈ ringRoots ts :=
  List.mem_cons_of_mem _ (List.mem_map_of_mem h)

theorem ringRoots_append {ts : List Int} (spare : List Int) {r : Int} (h : r ∈ ringRoots ts) :
    r ∈ ringRoots (ts ++ spare) := by
  rcases List.mem_cons.1 h with rfl | h
  · exact List.mem_cons_self
  · obtain ⟨t, ht, rfl⟩ := List.mem_map.1 h
    exact mem_ringRoots (List.mem_append_left _ ht)

namespace EntriesOk

variable {top : Int} {cell : Int → FunctStruct} {fs ts spare : List Int}
  {entries : Int → FunctEntry} {links : Links Int}
  {es : Int → List Int}

theorem free_ne (h : EntriesOk top cell fs ts spare entries links es) {t : Int} (ht : t ∈ ts ++ spare) :
    functList t ≠ functEntryFree := by
  have := (h.threads t ht).1
  have := h.base
  unfold functList functEntryFree
  omega

/-- The ring of a thread is short enough for every walk. -/
theorem length_lt (h : EntriesOk top cell fs ts spare entries links es) {r : Int} (hr : r ∈ ringRoots (ts ++ spare)) :
    (es r).length < halSize.toNat := by
  have hnodup : (es r).Nodup := (List.nodup_cons.1 (h.rings.ring r hr).nodup).2
  have hsub : (es r).toFinset ⊆ Finset.Ico 256 halSize := by
    intro e he
    have := h.nodes r hr e (List.mem_toFinset.1 he)
    have := h.base
    rw [Finset.mem_Ico]
    omega
  have hcard := Finset.card_le_card hsub
  rw [List.toFinset_card_of_nodup hnodup, Int.card_Ico] at hcard
  have : (halSize - 256).toNat < halSize.toNat := by decide
  omega

theorem not_mem_other (h : EntriesOk top cell fs ts spare entries links es) {s t e : Int} (hs : s ∈ ts ++ spare)
    (ht : t ∈ ts ++ spare) (hst : s ≠ t) (he : e ∈ es (functList t)) : e ∉ es (functList s) := by
  intro hmem
  have := h.rings.eq_of_mem (mem_ringRoots hs) (mem_ringRoots ht) (List.mem_cons_of_mem _ hmem)
    (List.mem_cons_of_mem _ he)
  exact hst (functList_inj.1 this)

/-- An entry of a thread is taken out of its ring and freed. -/
theorem unhook (h : EntriesOk top cell fs ts spare entries links es) {t e : Int} {as bs : List Int} (ht : t ∈ ts)
    (hes : es (functList t) = as ++ e :: bs) :
    EntriesOk top (Function.update cell (entries e).functPtr
        { cell (entries e).functPtr with users := (cell (entries e).functPtr).users - 1 })
      fs ts spare (Function.update entries e ⟨0, 0, 0⟩) ((links.remove e).addAfter e functEntryFree)
      (Function.update (Function.update es (functList t) (as ++ bs)) functEntryFree (e :: es functEntryFree)) := by
  have hts : t ∈ ts ++ spare := List.mem_append_left _ ht
  have hne := h.free_ne hts
  have hmem : e ∈ es (functList t) := by simp [hes]
  have hroot := mem_ringRoots hts
  have hfree : functEntryFree ∈ ringRoots (ts ++ spare) := List.mem_cons_self
  have hother : ∀ s ∈ ts ++ spare, s ≠ t → Function.update (Function.update es (functList t) (as ++ bs))
      functEntryFree (e :: es functEntryFree) (functList s) = es (functList s) := by
    intro s hs hst
    rw [Function.update_of_ne (h.free_ne hs), Function.update_of_ne (mt functList_inj.1 hst)]
  have hthis : Function.update (Function.update es (functList t) (as ++ bs)) functEntryFree (e :: es functEntryFree)
      (functList t) = as ++ bs := by
    rw [Function.update_of_ne hne, Function.update_self]
  have hnodup : e ∉ as ++ bs := by
    have := (List.nodup_cons.1 (h.rings.ring _ hroot).nodup).2
    rw [hes] at this
    exact (List.nodup_cons.1 (List.nodup_middle.1 this)).1
  have hkept : ∀ a, a ≠ e → Function.update entries e ⟨0, 0, 0⟩ a = entries a :=
    fun a ha => Function.update_of_ne ha _ _
  -- the fields that speak of the entries; the others are about what the removal does not touch
  refine { h with rings := ?_, nodes := ?_, idle := ?_, users := ?_, refers := ?_ }
  · have hout := h.rings.remove hroot hes
    have hnode := h.rings.not_node_remove hroot hes
    have hlist : Function.update es (functList t) (as ++ bs) functEntryFree = [] ++ es functEntryFree :=
      Function.update_of_ne hne.symm _ _
    have hplace : functEntryFree :: [] = [] ++ [functEntryFree] := rfl
    exact hout.addAfter hfree hlist hplace hnode
  · intro r hr a ha
    by_cases hrf : r = functEntryFree
    · rw [hrf, Function.update_self] at ha
      rcases List.mem_cons.1 ha with rfl | ha
      · exact h.nodes _ hroot _ hmem
      · exact h.nodes _ hfree _ ha
    rw [Function.update_of_ne hrf] at ha
    by_cases hrt : r = functList t
    · rw [hrt, Function.update_self] at ha
      refine h.nodes _ hroot _ ?_
      rw [hes]
      rcases List.mem_append.1 ha with ha | ha
      · exact List.mem_append_left _ ha
      · exact List.mem_append_right _ (List.mem_cons_of_mem _ ha)
    · rw [Function.update_of_ne hrt] at ha
      exact h.nodes r hr a ha
  · intro s hs
    have hst : s ≠ t := by
      rintro rfl
      exact (List.nodup_append.1 h.nodup).2.2 s ht s hs rfl
    rw [hother s (List.mem_append_right _ hs) hst]
    exact h.idle s hs
  -- one use fewer for the function of the entry, as many as before for every other one
  · intro f hf
    have hdata : ∀ s ∈ ts, s ≠ t → ∀ a ∈ es (functList s), Function.update entries e ⟨0, 0, 0⟩ a = entries a := by
      intro s hs hst a ha
      refine hkept a ?_
      rintro rfl
      exact h.not_mem_other (List.mem_append_left _ hs) hts hst hmem ha
    have hchange := uses_change (f := f) ht (List.nodup_append.1 h.nodup).1
      (fun s hs hst => hother s (List.mem_append_left _ hs) hst) hdata
    have hcount : ((as ++ bs).countP fun a => (Function.update entries e ⟨0, 0, 0⟩ a).functPtr = f) =
        (as ++ bs).countP fun a => (entries a).functPtr = f := by
      refine List.countP_congr fun a ha => ?_
      rw [hkept a]
      rintro rfl
      exact hnodup ha
    rw [hthis, hes, hcount, List.countP_append, List.countP_append, List.countP_cons] at hchange
    have husers := h.users f hf
    by_cases hfe : f = (entries e).functPtr
    · subst hfe
      rw [Function.update_self]
      simp only [decide_true, if_true] at hchange
      show (cell (entries e).functPtr).users - 1 = _
      omega
    · rw [Function.update_of_ne hfe, husers]
      rw [if_neg (by simpa using fun h => hfe h.symm)] at hchange
      congr 1
      omega
  · intro s hs a ha
    by_cases hst : s = t
    · rw [hst, hthis] at ha
      rw [hkept a (by rintro rfl; exact hnodup ha)]
      refine h.refers t ht a ?_
      rw [hes]
      rcases List.mem_append.1 ha with ha | ha
      · exact List.mem_append_left _ ha
      · exact List.mem_append_right _ (List.mem_cons_of_mem _ ha)
    · rw [hother s (List.mem_append_left _ hs) hst] at ha
      rw [hkept a]
      · exact h.refers s hs a ha
      · rintro rfl
        exact h.not_mem_other (List.mem_append_left _ hs) hts hst hmem ha

/-- The free memory has shrunk. -/
theorem lower (h : EntriesOk top cell fs ts spare entries links es)
    {top' : Int} (hbase : 256 ≤ top') (htop : top' ≤ top) :
    EntriesOk top' cell fs ts spare entries links es := by
  refine { h with base := hbase, functs := ?_, threads := ?_, nodes := ?_ }
  · intro f hf
    exact htop.trans (h.functs f hf)
  · intro t ht
    exact ⟨htop.trans (h.threads t ht).1, (h.threads t ht).2⟩
  · intro r hr e he
    exact ⟨htop.trans (h.nodes r hr e he).1, (h.nodes r hr e he).2⟩

/-- What is written into a structure off the list does not matter. -/
theorem setFunct (h : EntriesOk top cell fs ts spare entries links es) {f : Int} (hf : f ∉ fs) (x : FunctStruct) :
    EntriesOk top (Function.update cell f x) fs ts spare entries links es := by
  refine { h with users := ?_ }
  intro g hg
  rw [Function.update_of_ne]
  · exact h.users g hg
  · rintro rfl
    exact hf hg

/-- A new function, which no entry refers to. -/
theorem addFunct (h : EntriesOk top cell fs ts spare entries links es) {f : Int} (hf : f ∉ fs) (htop : top ≤ f)
    {x : FunctStruct} (hx : x.users = 0) {fs' : List Int} (hfs : fs'.Perm (f :: fs)) :
    EntriesOk top (Function.update cell f x) fs' ts spare entries links es := by
  have hmem : ∀ g ∈ fs', g = f ∨ g ∈ fs ∧ g ≠ f := by
    intro g hg
    rcases List.mem_cons.1 (hfs.mem_iff.1 hg) with rfl | hg
    · exact .inl rfl
    · exact .inr ⟨hg, by rintro rfl; exact hf hg⟩
  refine { h with functs := ?_, users := ?_, refers := ?_ }
  · intro g hg
    rcases hmem g hg with rfl | ⟨hg, -⟩
    · exact htop
    · exact h.functs g hg
  · intro g hg
    rcases hmem g hg with rfl | ⟨hg, hne⟩
    · rw [Function.update_self, hx]
      have hnone : uses entries es ts g = 0 := by
        unfold uses
        rw [List.countP_eq_zero]
        intro e he
        obtain ⟨t, ht, he⟩ := List.mem_flatMap.1 he
        have := h.refers t ht e he
        simp only [decide_eq_true_eq]
        intro heq
        exact hf (heq ▸ this)
      rw [hnone]
      rfl
    · rw [Function.update_of_ne hne]
      exact h.users g hg
  · intro t ht e he
    exact hfs.mem_iff.2 (List.mem_cons_of_mem _ (h.refers t ht e he))

/-- Some of the spare threads are forgotten. -/
theorem dropSpare (h : EntriesOk top cell fs ts spare entries links es) {spare' : List Int}
    (hsub : spare'.Sublist spare) :
    EntriesOk top cell fs ts spare' entries links es := by
  have hall : (ts ++ spare').Sublist (ts ++ spare) := List.Sublist.append_left hsub ts
  have hroots : ∀ r ∈ ringRoots (ts ++ spare'), r ∈ ringRoots (ts ++ spare) :=
    fun r hr => ((hall.map functList).cons_cons functEntryFree).subset hr
  exact { h with
    threads := fun t ht => h.threads t (hall.subset ht)
    nodup := h.nodup.sublist hall
    rings := h.rings.subset hroots
    nodes := fun r hr => h.nodes r (hroots r hr)
    idle := fun t ht => h.idle t (hsub.subset ht) }

/-- A thread without entries goes to the spare ones. -/
theorem retire {ts₁ ts₂ : List Int} {t : Int} (h : EntriesOk top cell fs (ts₁ ++ t :: ts₂) spare entries links es)
    (hnone : es (functList t) = []) : EntriesOk top cell fs (ts₁ ++ ts₂) (t :: spare) entries links es := by
  have hperm : ((ts₁ ++ ts₂) ++ t :: spare).Perm ((ts₁ ++ t :: ts₂) ++ spare) := by
    rw [List.append_assoc, List.append_assoc]
    refine List.Perm.append_left ts₁ ?_
    exact List.perm_middle
  have hsub : ∀ s ∈ ts₁ ++ ts₂, s ∈ ts₁ ++ t :: ts₂ := by
    intro s hs
    rcases List.mem_append.1 hs with hs | hs
    · exact List.mem_append_left _ hs
    · exact List.mem_append_right _ (List.mem_cons_of_mem _ hs)
  have hroots : ∀ r ∈ ringRoots ((ts₁ ++ ts₂) ++ t :: spare), r ∈ ringRoots ((ts₁ ++ t :: ts₂) ++ spare) := by
    intro r hr
    unfold ringRoots at hr ⊢
    exact ((hperm.map functList).cons functEntryFree).mem_iff.1 hr
  refine { h with threads := ?_, nodup := ?_, rings := ?_, nodes := ?_, idle := ?_, users := ?_, refers := ?_ }
  · intro s hs
    exact h.threads s (hperm.mem_iff.1 hs)
  · exact hperm.nodup_iff.2 h.nodup
  · exact h.rings.subset hroots
  · exact fun r hr => h.nodes r (hroots r hr)
  · intro s hs
    rcases List.mem_cons.1 hs with rfl | hs
    · exact hnone
    · exact h.idle s hs
  · intro f hf
    rw [h.users f hf, uses_append, uses_cons, hnone, uses_append]
    simp
  · exact fun s hs => h.refers s (hsub s hs)

/-- A new thread, whose ring is empty. -/
theorem newThread (h : EntriesOk top cell fs ts spare entries links es) {t : Int} (htop : top ≤ t ∧ t + 120 ≤ halSize)
    (ht : t ∉ ts ++ spare) (hnode : ¬ Node (ringRoots (ts ++ spare)) es (functList t)) :
    EntriesOk top cell fs (t :: ts) spare entries (links.init (functList t)) (Function.update es (functList t) []) := by
  have hother : ∀ s ∈ ts ++ spare, Function.update es (functList t) [] (functList s) = es (functList s) := by
    intro s hs
    refine Function.update_of_ne (mt functList_inj.1 ?_) _ _
    rintro rfl
    exact ht hs
  have hrings := h.rings.init hnode
  have hroots : ∀ r ∈ ringRoots (t :: ts ++ spare), r ∈ functList t :: ringRoots (ts ++ spare) :=
    fun r hr => (List.Perm.swap _ _ _).mem_iff.1 hr
  refine { h with
    threads := ?_, nodup := List.nodup_cons.2 ⟨ht, h.nodup⟩, rings := ?_, nodes := ?_, idle := ?_,
    users := ?_, refers := ?_ }
  · intro s hs
    rcases List.mem_cons.1 hs with rfl | hs
    · exact htop
    · exact h.threads s hs
  · exact hrings.subset hroots
  · intro r hr e he
    by_cases hrt : r = functList t
    · rw [hrt, Function.update_self] at he
      cases he
    · rw [Function.update_of_ne hrt] at he
      exact h.nodes r ((List.mem_cons.1 (hroots r hr)).resolve_left hrt) e he
  · intro s hs
    rw [hother s (List.mem_append_right _ hs)]
    exact h.idle s hs
  · intro f hf
    have hsame : uses entries (Function.update es (functList t) []) ts f = uses entries es ts f :=
      uses_congr (fun s hs => hother s (List.mem_append_left spare hs)) fun _ _ _ _ => rfl
    rw [uses_cons, Function.update_self, hsame, h.users f hf]
    simp
  · intro s hs e he
    rcases List.mem_cons.1 hs with rfl | hs
    · rw [Function.update_self] at he
      cases he
    · rw [hother s (List.mem_append_left _ hs)] at he
      exact h.refers s hs e he

/-- A new entry that refers to `f` is linked into the ring of a thread. -/
theorem hook (h : EntriesOk top cell fs ts spare entries links es) {t e p f : Int} {as bs xs : List Int} (ht : t ∈ ts)
    (hf : f ∈ fs) (hes : es (functList t) = as ++ bs) (hp : functList t :: as = xs ++ [p])
    (hnode : ¬ Node (ringRoots (ts ++ spare)) es e) (he : top ≤ e ∧ e < halSize) {x : FunctEntry}
    (hx : x.functPtr = f) :
    EntriesOk top (Function.update cell f { cell f with users := (cell f).users + 1 }) fs ts spare
      (Function.update entries e x) (links.addAfter e p) (Function.update es (functList t) (as ++ e :: bs)) := by
  have hts : t ∈ ts ++ spare := List.mem_append_left _ ht
  have hother : ∀ s, s ≠ t → Function.update es (functList t) (as ++ e :: bs) (functList s) = es (functList s) :=
    fun s hs => Function.update_of_ne (mt functList_inj.1 hs) _ _
  have hkept : ∀ r ∈ ringRoots (ts ++ spare), ∀ a ∈ es r, Function.update entries e x a = entries a := by
    intro r hr a ha
    refine Function.update_of_ne ?_ _ _
    rintro rfl
    exact hnode ⟨r, hr, List.mem_cons_of_mem _ ha⟩
  -- the fields that speak of the entries, as for `unhook`
  refine { h with rings := h.rings.addAfter (mem_ringRoots hts) hes hp hnode, nodes := ?_, idle := ?_, users := ?_, refers := ?_ }
  · intro r hr a ha
    by_cases hrt : r = functList t
    · rw [hrt, Function.update_self] at ha
      rcases List.mem_append.1 ha with ha | ha
      · exact h.nodes _ (mem_ringRoots hts) a (by rw [hes]; exact List.mem_append_left _ ha)
      · rcases List.mem_cons.1 ha with rfl | ha
        · exact he
        · exact h.nodes _ (mem_ringRoots hts) a (by rw [hes]; exact List.mem_append_right _ ha)
    · rw [Function.update_of_ne hrt] at ha
      exact h.nodes r hr a ha
  · intro s hs
    rw [hother s]
    · exact h.idle s hs
    · rintro rfl
      exact (List.nodup_append.1 h.nodup).2.2 s ht s hs rfl
  -- one use more for the function of the new entry
  · intro g hg
    have hchange := uses_change (f := g) ht (List.nodup_append.1 h.nodup).1 (fun s _ hst => hother s hst)
      fun s hs _ a ha => hkept _ (mem_ringRoots (List.mem_append_left spare hs)) a ha
    have hcount : ∀ l : List Int, (∀ a ∈ l, a ∈ es (functList t)) →
        (l.countP fun a => (Function.update entries e x a).functPtr = g) =
        l.countP fun a => (entries a).functPtr = g := by
      intro l hl
      refine List.countP_congr fun a ha => ?_
      rw [hkept _ (mem_ringRoots hts) a (hl a ha)]
    rw [Function.update_self, hes, List.countP_append, List.countP_append, List.countP_cons,
      hcount as fun a ha => by rw [hes]; exact List.mem_append_left _ ha,
      hcount bs fun a ha => by rw [hes]; exact List.mem_append_right _ ha, Function.update_self, hx] at hchange
    have husers := h.users g hg
    by_cases hgf : g = f
    · subst hgf
      rw [Function.update_self]
      simp only [decide_true, if_true] at hchange
      show (cell g).users + 1 = _
      omega
    · rw [Function.update_of_ne hgf, husers]
      rw [if_neg (by simpa using fun h => hgf h.symm)] at hchange
      congr 1
      omega
  · intro s hs a ha
    by_cases hst : s = t
    · rw [hst, Function.update_self] at ha
      rcases List.mem_append.1 ha with ha' | ha'
      · rw [hkept _ (mem_ringRoots hts) a (by rw [hes]; exact List.mem_append_left _ ha')]
        exact h.refers t ht a (by rw [hes]; exact List.mem_append_left _ ha')
      · rcases List.mem_cons.1 ha' with rfl | ha'
        · rw [Function.update_self, hx]
          exact hf
        · rw [hkept _ (mem_ringRoots hts) a (by rw [hes]; exact List.mem_append_right _ ha')]
          exact h.refers t ht a (by rw [hes]; exact List.mem_append_right _ ha')
    · rw [hother s hst] at ha
      rw [hkept _ (mem_ringRoots (List.mem_append_left _ hs)) a ha]
      exact h.refers s hs a ha

/-- The first free entry is taken from the free ring. -/
theorem takeEntry (h : EntriesOk top cell fs ts spare entries links es) {e : Int} {bs : List Int}
    (hes : es functEntryFree = e :: bs) :
    EntriesOk top cell fs ts spare entries (links.remove e) (Function.update es functEntryFree bs) ∧
      ¬ Node (ringRoots (ts ++ spare)) (Function.update es functEntryFree bs) e := by
  have hfree : functEntryFree ∈ ringRoots (ts ++ spare) := List.mem_cons_self
  have hsplit : es functEntryFree = [] ++ e :: bs := hes
  have hother : ∀ t ∈ ts ++ spare, Function.update es functEntryFree bs (functList t) = es (functList t) :=
    fun t ht => Function.update_of_ne (h.free_ne ht) _ _
  refine ⟨{ h with rings := h.rings.remove hfree hsplit, nodes := ?_, idle := ?_, users := ?_, refers := ?_ },
    h.rings.not_node_remove hfree hsplit⟩
  · intro r hr a ha
    by_cases hrf : r = functEntryFree
    · rw [hrf, Function.update_self] at ha
      exact h.nodes _ hfree a (by rw [hes]; exact List.mem_cons_of_mem _ ha)
    · rw [Function.update_of_ne hrf] at ha
      exact h.nodes r hr a ha
  · intro t ht
    rw [hother t (List.mem_append_right _ ht)]
    exact h.idle t ht
  · intro f hf
    rw [uses_congr (fun t ht => hother t (List.mem_append_left _ ht)) fun _ _ _ _ => rfl]
    exact h.users f hf
  · intro t ht a ha
    rw [hother t (List.mem_append_left _ ht)] at ha
    exact h.refers t ht a ha

/-- What lies below the free memory's top is no node. -/
theorem not_node (h : EntriesOk top cell fs ts spare entries links es) {a : Int} (hbase : 256 ≤ a) (htop : a < top) :
    ¬ Node (ringRoots (ts ++ spare)) es a := by
  rintro ⟨r, hr, ha⟩
  rcases List.mem_cons.1 ha with rfl | ha
  · rcases List.mem_cons.1 hr with rfl | hr
    · unfold functEntryFree at hbase
      omega
    · obtain ⟨t, ht, rfl⟩ := List.mem_map.1 hr
      have := (h.threads t ht).1
      unfold functList at htop
      omega
  · have := (h.nodes r hr a ha).1
    omega

/-- What is no node may be linked to itself. -/
theorem initNode (h : EntriesOk top cell fs ts spare entries links es) {e : Int}
    (hnode : ¬ Node (ringRoots (ts ++ spare)) es e) : EntriesOk top cell fs ts spare entries (links.init e) es := by
  refine { h with rings := ⟨fun r hr => ?_, h.rings.disjoint⟩ }
  have hother : ∀ a ∈ r :: es r, a ≠ e := by
    rintro a ha rfl
    exact hnode ⟨r, hr, ha⟩
  exact (h.rings.ring r hr).congr (fun a ha => Function.update_of_ne (hother a ha) _ _)
    fun a ha => Function.update_of_ne (hother a ha) _ _

end EntriesOk

/-! ### Taking entries out -/

/-- The entries `gone` have left the threads `ts` for the free ring, and nothing else has changed but the counts of the
functions. -/
structure Unhooked (ts gone : List Int) (b : HalBlock) (es : Int → List Int) (b' : HalBlock) (es' : Int → List Int) :
    Prop where
  frame : b' = { b with
    functs := ⟨b.functs.list, b.functs.free, b'.functs.cell⟩, entries := b'.entries, links := b'.links }
  cell : ∀ p, b'.functs.cell p = { b.functs.cell p with users := (b'.functs.cell p).users }
  entries : ∀ e ∉ gone, b'.entries e = b.entries e
  lists : ∀ t ∈ ts, es' (functList t) = (es (functList t)).filter (· ∉ gone)

namespace Unhooked

variable {ts gone gone' : List Int} {b b' b'' : HalBlock} {es es' es'' : Int → List Int}

theorem refl (ts : List Int) (b : HalBlock) (es : Int → List Int) : Unhooked ts [] b es b es :=
  ⟨rfl, fun _ => rfl, fun _ _ => rfl, fun t _ => by simp⟩

theorem trans (h : Unhooked ts gone b es b' es') (h' : Unhooked ts gone' b' es' b'' es'') :
    Unhooked ts (gone ++ gone') b es b'' es'' := by
  constructor
  · rw [h'.frame, h.frame]
  · intro p
    rw [h'.cell p, h.cell p]
  · intro e he
    rw [List.mem_append, not_or] at he
    rw [h'.entries e he.2, h.entries e he.1]
  · intro t ht
    rw [h'.lists t ht, h.lists t ht, List.filter_filter]
    refine List.filter_congr fun e _ => ?_
    simp [not_or, Bool.and_comm]

end Unhooked

namespace HalBlock

section Walks

variable {b : HalBlock} {fs ts spare as bs : List Int} {es : Int → List Int} {t e f : Int}

/-- The entries of the block are sound: `EntriesOk` of what is in it. -/
def EntriesIn (fs ts spare : List Int) (es : Int → List Int) (b : HalBlock) : Prop :=
  EntriesOk b.shmemTop b.functs.cell fs ts spare b.entries b.links es

/-- What an entry of a thread writes when it is taken out of its ring and freed. -/
theorem unhook_eq (h : b.EntriesIn fs ts spare es) (ht : t ∈ ts) (he : e ∈ es (functList t)) :
    { b with links := b.links.remove e }.freeFunctEntryStruct e = { b with
      functs := b.functs.set (b.entries e).functPtr fun p => { p with users := p.users - 1 }
      entries := Function.update b.entries e ⟨0, 0, 0⟩, links := (b.links.remove e).addAfter e functEntryFree } := by
  have hpos : 0 < (b.entries e).functPtr := by
    have := h.functs _ (h.refers t ht e he)
    have := h.base
    omega
  unfold freeFunctEntryStruct
  dsimp only
  rw [if_pos hpos]
  rfl

/-- One entry is taken out of its ring and freed. -/
theorem unhook_spec (h : b.EntriesIn fs ts spare es) (ht : t ∈ ts) (hes : es (functList t) = as ++ e :: bs) :
    ∃ es', ({ b with links := b.links.remove e }.freeFunctEntryStruct e).EntriesIn fs ts spare es' ∧
      Unhooked ts [e] b es ({ b with links := b.links.remove e }.freeFunctEntryStruct e) es' ∧
      es' (functList t) = as ++ bs := by
  have hts : t ∈ ts ++ spare := List.mem_append_left _ ht
  have hmem : e ∈ es (functList t) := by simp [hes]
  have hnodup : e ∉ as ++ bs := by
    have := (List.nodup_cons.1 (h.rings.ring _ (mem_ringRoots hts)).nodup).2
    rw [hes] at this
    exact (List.nodup_cons.1 (List.nodup_middle.1 this)).1
  have hlist : ∀ l : List Int, e ∉ l → l = l.filter (· ∉ [e]) := by
    intro l hl
    refine (List.filter_eq_self.2 fun a ha => ?_).symm
    simp only [List.mem_singleton, decide_eq_true_eq]
    rintro rfl
    exact hl ha
  have hthis : Function.update (Function.update es (functList t) (as ++ bs)) functEntryFree (e :: es functEntryFree)
      (functList t) = as ++ bs := by
    rw [Function.update_of_ne (h.free_ne hts), Function.update_self]
  rw [unhook_eq h ht hmem]
  refine ⟨_, h.unhook ht hes, ⟨rfl, ?_, ?_, ?_⟩, hthis⟩
  · intro p
    dsimp only [HalPool.set]
    by_cases hp : p = (b.entries e).functPtr
    · rw [hp, Function.update_self]
    · rw [Function.update_of_ne hp]
  · intro a ha
    exact Function.update_of_ne (by simpa using ha) _ _
  · intro s hs
    by_cases hst : s = t
    · rw [hst, hthis, hes, List.filter_append, List.filter_cons_of_neg (by simp), ← List.filter_append]
      exact hlist _ hnodup
    · rw [Function.update_of_ne (h.free_ne (List.mem_append_left _ hs)), Function.update_of_ne (mt functList_inj.1 hst)]
      exact hlist _ (h.not_mem_other (List.mem_append_left _ hs) hts hst hmem)

/-- The next node of a ring. -/
theorem next_entry (h : b.EntriesIn fs ts spare es) (ht : t ∈ ts ++ spare) (hes : es (functList t) = as ++ e :: bs) :
    b.links.next e = (bs ++ [functList t]).head (by simp) := by
  have hring : Ring b.links (functList t) (as ++ e :: bs) := hes ▸ h.rings.ring _ (mem_ringRoots ht)
  have hsplit : Ring b.links (functList t) ((as ++ [e]) ++ bs) := by
    rw [List.append_assoc]
    exact hring
  have hplace : functList t :: (as ++ [e]) = (functList t :: as) ++ [e] := rfl
  exact hsplit.next_eq hplace (List.cons_head_tail _).symm

/-- The first node of a ring. -/
theorem next_root (h : b.EntriesIn fs ts spare es) (ht : t ∈ ts ++ spare) :
    b.links.next (functList t) = (es (functList t) ++ [functList t]).head (by simp) := by
  have hring : Ring b.links (functList t) ([] ++ es (functList t)) := h.rings.ring _ (mem_ringRoots ht)
  have hplace : [functList t] = [] ++ [functList t] := rfl
  exact hring.next_eq hplace (List.cons_head_tail _).symm

theorem entry_ne_root (h : b.EntriesIn fs ts spare es) (ht : t ∈ ts ++ spare) (he : e ∈ es (functList t)) :
    e ≠ functList t := by
  rintro rfl
  exact (List.nodup_cons.1 (h.rings.ring _ (mem_ringRoots ht)).nodup).1 he

/-- The walk of `free_funct_struct` takes out the entries that refer to the function. -/
theorem removeEntries_spec (ht : t ∈ ts) {n : Nat} (h : b.EntriesIn fs ts spare es) (hes : es (functList t) = as ++ bs)
    (hn : bs.length < n) :
    ∃ b' es', removeEntries f (functList t) n ((bs ++ [functList t]).head (by simp)) b = .ok b' ∧
      b'.EntriesIn fs ts spare es' ∧ Unhooked ts (bs.filter fun e => (b.entries e).functPtr = f) b es b' es' := by
  have hts : t ∈ ts ++ spare := List.mem_append_left _ ht
  -- over the rest of the ring from the entry on; `as` has been walked already
  induction bs generalizing b es as n with
  | nil =>
    obtain ⟨m, rfl⟩ := Nat.exists_eq_succ_of_ne_zero (by omega : n ≠ 0)
    refine ⟨b, es, ?_, h, Unhooked.refl ts b es⟩
    unfold removeEntries
    exact if_pos rfl
  | cons e bs ih =>
    obtain ⟨m, rfl⟩ := Nat.exists_eq_succ_of_ne_zero (by simp at hn; omega : n ≠ 0)
    have hmem : e ∈ es (functList t) := by simp [hes]
    have hnodup : e ∉ bs := by
      have := (List.nodup_cons.1 (h.rings.ring _ (mem_ringRoots hts)).nodup).2
      rw [hes] at this
      exact (List.nodup_cons.1 (List.nodup_append.1 this).2.1).1
    have hlen : bs.length < m := by simp at hn; omega
    rw [show ((e :: bs) ++ [functList t]).head (by simp) = e from rfl]
    unfold removeEntries
    rw [if_neg (entry_ne_root h hts hmem), next_entry h hts hes]
    by_cases hf : (b.entries e).functPtr = f
    · rw [if_pos hf]
      obtain ⟨es₁, hok, hunhook, hes₁⟩ := unhook_spec h ht hes
      obtain ⟨b', es', hrun, hok', hunhook'⟩ := ih hok hes₁ hlen
      refine ⟨b', es', hrun, hok', ?_⟩
      have hrest : (bs.filter fun a =>
          (({ b with links := b.links.remove e }.freeFunctEntryStruct e).entries a).functPtr = f) =
          bs.filter fun a => (b.entries a).functPtr = f := by
        refine List.filter_congr fun a ha => ?_
        rw [hunhook.entries a]
        rw [List.mem_singleton]
        rintro rfl
        exact hnodup ha
      rw [hrest] at hunhook'
      rw [List.filter_cons_of_pos (by simpa using hf)]
      exact hunhook.trans hunhook'
    · rw [if_neg hf, List.filter_cons_of_neg (by simpa using hf)]
      have hsplit : es (functList t) = (as ++ [e]) ++ bs := by
        rw [List.append_assoc]
        exact hes
      exact ih h hsplit hlen

/-- The walk of `free_thread_struct` takes out all entries. -/
theorem clearEntries_spec (ht : t ∈ ts) {n : Nat} (h : b.EntriesIn fs ts spare es)
    (hn : (es (functList t)).length < n) :
    ∃ b' es', clearEntries (functList t) n (b.links.next (functList t)) b = .ok b' ∧
      b'.EntriesIn fs ts spare es' ∧ Unhooked ts (es (functList t)) b es b' es' := by
  have hts : t ∈ ts ++ spare := List.mem_append_left _ ht
  obtain ⟨bs, hbs⟩ : ∃ bs, es (functList t) = [] ++ bs := ⟨_, rfl⟩
  rw [next_root h hts]
  simp only [hbs, List.nil_append] at hn ⊢
  induction bs generalizing b es n with
  | nil =>
    obtain ⟨m, rfl⟩ := Nat.exists_eq_succ_of_ne_zero (by simp at hn; omega : n ≠ 0)
    refine ⟨b, es, ?_, h, Unhooked.refl ts b es⟩
    unfold clearEntries
    exact if_pos rfl
  | cons e bs ih =>
    obtain ⟨m, rfl⟩ := Nat.exists_eq_succ_of_ne_zero (by simp at hn; omega : n ≠ 0)
    have hmem : e ∈ es (functList t) := by simp [hbs]
    have hlen : bs.length < m := by simp at hn; omega
    rw [show ((e :: bs) ++ [functList t]).head (by simp) = e from rfl]
    unfold clearEntries
    rw [if_neg (entry_ne_root h hts hmem), next_entry h hts hbs]
    obtain ⟨es₁, hok, hunhook, hes₁⟩ := unhook_spec h ht hbs
    obtain ⟨b', es', hrun, hok', hunhook'⟩ := ih hok hes₁ hlen
    exact ⟨b', es', hrun, hok', hunhook.trans hunhook'⟩

/-- The loop of `free_funct_struct`: no entry of the threads refers to the function any more. -/
theorem removeFromThreads_spec {rest : List Int} (h : b.EntriesIn fs ts spare es) (hrest : ∀ t ∈ rest, t ∈ ts) :
    ∃ b' es' gone, removeFromThreads f rest b = .ok b' ∧ b'.EntriesIn fs ts spare es' ∧ Unhooked ts gone b es b' es' ∧
      (∀ e ∈ gone, (b.entries e).functPtr = f) ∧
      ∀ t ∈ rest, ∀ e ∈ es (functList t), (b.entries e).functPtr = f → e ∈ gone := by
  induction rest generalizing b es with
  | nil => exact ⟨b, es, [], rfl, h, Unhooked.refl ts b es, by simp, by simp⟩
  | cons t rest ih =>
    have ht := hrest t List.mem_cons_self
    have hts : t ∈ ts ++ spare := List.mem_append_left _ ht
    have hfuel : (es (functList t)).length < halSize.toNat := h.length_lt (mem_ringRoots hts)
    obtain ⟨b₁, es₁, hrun₁, hok₁, hout₁⟩ := removeEntries_spec (f := f) ht h (List.nil_append _).symm hfuel
    obtain ⟨b', es', gone, hrun, hok, hout, hgone, hall⟩ := ih hok₁ fun s hs => hrest s (List.mem_cons_of_mem _ hs)
    refine ⟨b', es', _, ?_, hok, hout₁.trans hout, ?_, ?_⟩
    · unfold removeFromThreads
      rw [next_root h hts, hrun₁]
      exact hrun
    · intro e he
      by_cases hmem : e ∈ (es (functList t)).filter fun e => (b.entries e).functPtr = f
      · simpa using (List.mem_filter.1 hmem).2
      · rw [← hout₁.entries e hmem]
        exact hgone e ((List.mem_append.1 he).resolve_left hmem)
    · intro s hs e he hf
      rw [List.mem_append]
      by_cases hmem : e ∈ (es (functList t)).filter fun e => (b.entries e).functPtr = f
      · exact .inl hmem
      right
      rcases List.mem_cons.1 hs with rfl | hs
      · exact absurd (List.mem_filter.2 ⟨he, by simpa using hf⟩) hmem
      · refine hall s hs e ?_ (by rw [hout₁.entries e hmem]; exact hf)
        rw [hout₁.lists s (hrest s (List.mem_cons_of_mem _ hs)), List.mem_filter]
        exact ⟨he, decide_eq_true hmem⟩

end Walks

end HalBlock

/-! ### Freeing functions -/

/-- A function that no entry refers to is given up. -/
theorem EntriesOk.dropFunct {top : Int} {cell : Int → FunctStruct} {fs ts spare : List Int} {entries : Int → FunctEntry}
    {links : Links Int} {es : Int → List Int} (h : EntriesOk top cell fs ts spare entries links es) {f : Int}
    (hnone : ∀ t ∈ ts, ∀ e ∈ es (functList t), (entries e).functPtr ≠ f) (x : FunctStruct) :
    EntriesOk top (Function.update cell f x) (fs.filter (· ≠ f)) ts spare entries links es := by
  have hmem : ∀ g ∈ fs.filter (· ≠ f), g ∈ fs ∧ g ≠ f := fun g hg => by simpa using hg
  refine { h with functs := ?_, users := ?_, refers := ?_ }
  · intro g hg
    exact h.functs g (hmem g hg).1
  · intro g hg
    rw [Function.update_of_ne (hmem g hg).2]
    exact h.users g (hmem g hg).1
  · intro t ht e he
    have := hnone t ht e he
    simpa using ⟨h.refers t ht e he, this⟩

/-- The functions `dead` have been freed, the entries that refer to them are gone, and nothing else has changed. -/
structure Dropped (ts dead : List Int) (b : HalBlock) (es : Int → List Int) (b' : HalBlock) (es' : Int → List Int) :
    Prop where
  frame : b' = { b with
    functs := ⟨b.functs.list, dead.reverse ++ b.functs.free, b'.functs.cell⟩
    entries := b'.entries, links := b'.links, ptrs := b'.ptrs }
  cell : ∀ p ∉ dead, b'.functs.cell p = { b.functs.cell p with users := (b'.functs.cell p).users }
  entries : ∀ t ∈ ts, ∀ e ∈ es (functList t), (b.entries e).functPtr ∉ dead → b'.entries e = b.entries e
  lists : ∀ t ∈ ts, es' (functList t) = (es (functList t)).filter fun e => (b.entries e).functPtr ∉ dead

theorem Dropped.refl (ts : List Int) (b : HalBlock) (es : Int → List Int) : Dropped ts [] b es b es :=
  ⟨rfl, fun _ _ => rfl, fun _ _ _ _ _ => rfl, fun t _ => by simp⟩

theorem Dropped.trans {ts dead dead' : List Int} {b b' b'' : HalBlock} {es es' es'' : Int → List Int}
    (h : Dropped ts dead b es b' es') (h' : Dropped ts dead' b' es' b'' es'') :
    Dropped ts (dead ++ dead') b es b'' es'' := by
  have hkept : ∀ t ∈ ts, ∀ e ∈ es (functList t), (b.entries e).functPtr ∉ dead →
      e ∈ es' (functList t) ∧ b'.entries e = b.entries e := by
    intro t ht e he hdead
    rw [h.lists t ht, List.mem_filter]
    exact ⟨⟨he, by simpa using hdead⟩, h.entries t ht e he hdead⟩
  constructor
  · rw [h'.frame, h.frame]
    simp
  · intro p hp
    rw [List.mem_append, not_or] at hp
    rw [h'.cell p hp.2, h.cell p hp.1]
  · intro t ht e he hdead
    rw [List.mem_append, not_or] at hdead
    obtain ⟨hmem, hsame⟩ := hkept t ht e he hdead.1
    rw [h'.entries t ht e hmem (by rw [hsame]; exact hdead.2), hsame]
  · intro t ht
    rw [h'.lists t ht, h.lists t ht, List.filter_filter]
    refine List.filter_congr fun e he => ?_
    by_cases hdead : (b.entries e).functPtr ∈ dead
    · simp [hdead]
    · rw [(hkept t ht e he hdead).2]
      simp [hdead]

namespace HalBlock

section Functs

variable {b : HalBlock} {fs spare : List Int} {es : Int → List Int} {f : Int}

/-- `free_funct_struct` returns, and the function is gone with the entries that refer to it. -/
theorem freeFunctStruct_spec (h : b.EntriesIn fs b.threads.list spare es) (hf : f ∈ fs) :
    ∃ b' es', freeFunctStruct f b = .ok b' ∧ b'.EntriesIn (fs.filter (· ≠ f)) b.threads.list spare es' ∧
      Dropped b.threads.list [f] b es b' es' := by
  obtain ⟨b₁, es₁, gone, hrun, hok, hout, hgone, hall⟩ : ∃ b₁ es₁ gone,
      (if 0 < (b.functs.cell f).users then removeFromThreads f b.threads.list b else .ok b) = .ok b₁ ∧
      b₁.EntriesIn fs b.threads.list spare es₁ ∧ Unhooked b.threads.list gone b es b₁ es₁ ∧
      (∀ e ∈ gone, (b.entries e).functPtr = f) ∧
      ∀ t ∈ b.threads.list, ∀ e ∈ es (functList t), (b.entries e).functPtr = f → e ∈ gone := by
    -- a function without users has no entries to unhook
    by_cases husers : 0 < (b.functs.cell f).users
    · rw [if_pos husers]
      exact removeFromThreads_spec h fun t ht => ht
    · rw [if_neg husers]
      refine ⟨b, es, [], rfl, h, Unhooked.refl _ b es, by simp, ?_⟩
      intro t ht e he hfe
      have hcount : uses b.entries es b.threads.list f = 0 := by
        have := h.users f hf
        omega
      unfold uses at hcount
      rw [List.countP_eq_zero] at hcount
      exact absurd hfe (by simpa using hcount e (List.mem_flatMap.2 ⟨t, ht, he⟩))
  have hlists : ∀ t ∈ b.threads.list,
      es₁ (functList t) = (es (functList t)).filter fun e => (b.entries e).functPtr ∉ [f] := by
    intro t ht
    rw [hout.lists t ht]
    refine List.filter_congr fun e he => ?_
    have : e ∈ gone ↔ (b.entries e).functPtr = f := ⟨hgone e, hall t ht e he⟩
    simp [this]
  have hkept : ∀ t ∈ b.threads.list, ∀ e ∈ es (functList t), (b.entries e).functPtr ∉ [f] →
      b₁.entries e = b.entries e := by
    intro t ht e he hne
    refine hout.entries e fun hmem => hne ?_
    simpa using hgone e hmem
  have hnone : ∀ t ∈ b.threads.list, ∀ e ∈ es₁ (functList t), (b₁.entries e).functPtr ≠ f := by
    intro t ht e he
    rw [hlists t ht, List.mem_filter] at he
    have hne : (b.entries e).functPtr ∉ [f] := by simpa using he.2
    rw [hkept t ht e he.1 hne]
    simpa using hne
  refine ⟨{ b₁ with functs := b₁.functs.release f emptyFunct, ptrs := Function.update b₁.ptrs (f + 48) 0 }, es₁, ?_,
    EntriesOk.dropFunct hok hnone (emptyFunct (b₁.functs.cell f)), ?_⟩
  · unfold freeFunctStruct
    rw [hrun]
    rfl
  · constructor
    · rw [hout.frame]
      rfl
    · intro p hp
      have hpf : p ≠ f := by simpa using hp
      dsimp only [HalPool.release, HalPool.set]
      rw [Function.update_of_ne hpf]
      exact hout.cell p
    · exact hkept
    · exact hlists

/-- Every function of a list is freed. -/
theorem freeFuncts_spec {owned : List Int} (h : b.EntriesIn fs b.threads.list spare es) (hsub : ∀ f ∈ owned, f ∈ fs)
    (hnodup : owned.Nodup) :
    ∃ b' es', freeEach freeFunctStruct owned b = .ok b' ∧
      b'.EntriesIn (fs.filter (· ∉ owned)) b.threads.list spare es' ∧ Dropped b.threads.list owned b es b' es' := by
  induction owned generalizing b fs es with
  | nil => exact ⟨b, es, rfl, by simpa using h, Dropped.refl _ b es⟩
  | cons f owned ih =>
    obtain ⟨hf, hnodup⟩ := List.nodup_cons.1 hnodup
    obtain ⟨b₁, es₁, hrun₁, hok₁, hout₁⟩ := freeFunctStruct_spec h (hsub f List.mem_cons_self)
    have hthreads : b₁.threads = b.threads := by rw [hout₁.frame]
    have hrest : ∀ g ∈ owned, g ∈ fs.filter (· ≠ f) := by
      intro g hg
      have hgf : g ≠ f := by
        rintro rfl
        exact hf hg
      simpa using ⟨hsub g (List.mem_cons_of_mem _ hg), hgf⟩
    obtain ⟨b', es', hrun, hok, hout⟩ := ih (hthreads ▸ hok₁) hrest hnodup
    rw [hthreads] at hok hout
    refine ⟨b', es', ?_, ?_, hout₁.trans hout⟩
    · unfold freeEach
      rw [hrun₁]
      exact hrun
    · have hfs : (fs.filter (· ≠ f)).filter (· ∉ owned) = fs.filter (· ∉ f :: owned) := by
        rw [List.filter_filter]
        refine List.filter_congr fun g _ => ?_
        simp [Bool.and_comm]
      exact hfs ▸ hok

end Functs

/-! ### Freeing threads -/

section Threads

variable {b : HalBlock} {fs ts₁ ts₂ spare : List Int} {es : Int → List Int} {t : Int}

/-- `free_thread_struct` of a thread that has been taken from the list. -/
theorem freeThreadStruct_spec (h : b.EntriesIn fs (ts₁ ++ t :: ts₂) spare es) :
    ∃ b' es' x, freeThreadStruct t b = .ok b' ∧ b'.EntriesIn fs (ts₁ ++ ts₂) (t :: spare) es' ∧
      (∀ s ∈ ts₁ ++ ts₂, es' (functList s) = es (functList s) ∧ ∀ e ∈ es (functList s), b'.entries e = b.entries e) ∧
      (∀ p, b'.functs.cell p = { b.functs.cell p with users := (b'.functs.cell p).users }) ∧
      b' = { b with
        threadsRunning := 0
        threads := ⟨b.threads.list, t :: b.threads.free, Function.update b.threads.cell t x⟩
        functs := ⟨b.functs.list, b.functs.free, b'.functs.cell⟩, entries := b'.entries, links := b'.links } := by
  have ht : t ∈ ts₁ ++ t :: ts₂ := by simp
  have hts : t ∈ (ts₁ ++ t :: ts₂) ++ spare := List.mem_append_left _ ht
  obtain ⟨b₁, hb₁⟩ : ∃ b₁ : HalBlock, b₁ = { b with
      threadsRunning := 0
      threads := b.threads.set t fun p => { p with usesFp := 0, period := 0, priority := 0, taskId := 0 } } := ⟨_, rfl⟩
  have hok₁ : b₁.EntriesIn fs (ts₁ ++ t :: ts₂) spare es := by
    rw [hb₁]
    exact h
  -- the thread still is in its list while its entries are taken out
  obtain ⟨b₂, es', hrun, hok, hout⟩ := clearEntries_spec ht hok₁ (hok₁.length_lt (mem_ringRoots hts))
  have hnone : es' (functList t) = [] := by
    rw [hout.lists t ht, List.filter_eq_nil_iff]
    intro e he
    simpa using he
  have hretired : b₂.EntriesIn fs (ts₁ ++ ts₂) (t :: spare) es' := EntriesOk.retire hok hnone
  refine ⟨{ b₂ with threads := b₂.threads.release t fun p => { p with name := [] } }, es',
    { b₂.threads.cell t with name := [] }, ?_, hretired, ?_, ?_, ?_⟩
  · unfold freeThreadStruct
    dsimp only
    rw [hb₁] at hrun
    rw [hrun]
    rfl
  · intro s hs
    have hst : s ≠ t := by
      rintro rfl
      exact (List.nodup_cons.1 (List.nodup_middle.1 (List.nodup_append.1 h.nodup).1)).1 hs
    have hmem : s ∈ ts₁ ++ t :: ts₂ := by
      rcases List.mem_append.1 hs with hs | hs
      · exact List.mem_append_left _ hs
      · exact List.mem_append_right _ (List.mem_cons_of_mem _ hs)
    have hother : ∀ e ∈ es (functList s), e ∉ es (functList t) :=
      fun e he => h.not_mem_other hts (List.mem_append_left _ hmem) (Ne.symm hst) he
    constructor
    · rw [hout.lists s hmem, List.filter_eq_self]
      exact fun e he => decide_eq_true (hother e he)
    · intro e he
      show b₂.entries e = b.entries e
      rw [hout.entries e (hother e he), hb₁]
  · intro p
    show b₂.functs.cell p = { b.functs.cell p with users := (b₂.functs.cell p).users }
    have := hout.cell p
    rwa [hb₁] at this
  · have hcell : (b₂.threads.release t fun p => { p with name := [] }).cell =
        Function.update b.threads.cell t { b₂.threads.cell t with name := [] } := by
      have hthreads : b₂.threads = b₁.threads := by rw [hout.frame]
      unfold HalPool.release HalPool.set
      rw [hthreads, hb₁]
      exact Function.update_idem _ _ _
    rw [← hcell, hout.frame, hb₁]
    rfl

end Threads

end HalBlock

end SoemMotion
