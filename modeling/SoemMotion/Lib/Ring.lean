import Mathlib.Data.List.Nodup
import Mathlib.Logic.Function.Basic

/-!
# Circular doubly linked lists

A node of a list is an address; `Links` holds the address of the next and of the previous node of each.  `Ring l root
es` says that the nodes `es`, in this order, form a circular list with `root`.  `Rings l roots es` says so for several
roots whose lists have no node in common.  A node is linked in after another one, or taken out, and every other list
stays as it is.
-/

namespace SoemMotion.Lib

variable {α : Type*}

/-- The next and the previous node of each node. -/
structure Links (α : Type*) where
  next : α → α
  prev : α → α

section Operations

variable [DecidableEq α]

/-- A node on its own. -/
def Links.init (l : Links α) (e : α) : Links α :=
  { next := Function.update l.next e e, prev := Function.update l.prev e e }

/-- Link `e` in after `p`. -/
def Links.addAfter (l : Links α) (e p : α) : Links α :=
  { next := Function.update (Function.update l.next e (l.next p)) p e
    prev := Function.update (Function.update l.prev e p) (l.next p) e }

/-- Take `e` out, and leave it on its own. -/
def Links.remove (l : Links α) (e : α) : Links α :=
  { next := Function.update (Function.update l.next (l.prev e) (l.next e)) e e
    prev := Function.update (Function.update l.prev (l.next e) (l.prev e)) e e }

end Operations

/-- The nodes `es` form a circular list with `root`. -/
structure Ring (l : Links α) (root : α) (es : List α) : Prop where
  next : (root :: es).map l.next = es ++ [root]
  prev : (es ++ [root]).map l.prev = root :: es
  nodup : (root :: es).Nodup

section Ring

variable {l : Links α} {root e p n : α} {es as bs : List α}

/-- Only what links the nodes of a list matters to it. -/
theorem Ring.congr {l' : Links α} (h : Ring l root es) (hnext : ∀ a ∈ root :: es, l'.next a = l.next a)
    (hprev : ∀ a ∈ root :: es, l'.prev a = l.prev a) : Ring l' root es := by
  refine ⟨(List.map_congr_left hnext).trans h.next, (List.map_congr_left fun a ha => hprev a ?_).trans h.prev, h.nodup⟩
  rcases List.mem_append.1 ha with ha | ha
  · exact List.mem_cons_of_mem _ ha
  · rw [List.mem_singleton.1 ha]
    exact List.mem_cons_self

theorem exists_concat (a : α) (l : List α) : ∃ xs x, a :: l = xs ++ [x] :=
  ⟨_, _, (List.dropLast_append_getLast (List.cons_ne_nil a l)).symm⟩

/-- The two ends of a place in a list, and what links the nodes before and after it. -/
theorem Ring.place (h : Ring l root (as ++ bs)) {xs ys : List α} (hp : root :: as = xs ++ [p])
    (hn : bs ++ [root] = n :: ys) :
    (xs.map l.next = as ∧ l.next p = n ∧ bs.map l.next = ys) ∧
    (as.map l.prev = xs ∧ l.prev n = p ∧ ys.map l.prev = bs) := by
  have hlen : xs.length = as.length := by
    have := congrArg List.length hp
    simpa using this.symm
  constructor
  · have hnext := h.next
    rw [← List.cons_append, hp, List.append_assoc, List.append_assoc, hn, List.map_append] at hnext
    obtain ⟨hxs, hrest⟩ := List.append_inj hnext (by rw [List.length_map, hlen])
    simp only [List.singleton_append, List.map_cons, List.cons.injEq] at hrest
    exact ⟨hxs, hrest⟩
  · have hprev := h.prev
    rw [List.append_assoc, hn, ← List.cons_append, hp, List.append_assoc, List.map_append] at hprev
    obtain ⟨has, hrest⟩ := List.append_inj hprev (by rw [List.length_map, hlen])
    simp only [List.singleton_append, List.map_cons, List.cons.injEq] at hrest
    exact ⟨has, hrest⟩

/-- The node after a place. -/
theorem Ring.next_eq (h : Ring l root (as ++ bs)) {xs ys : List α} (hp : root :: as = xs ++ [p])
    (hn : bs ++ [root] = n :: ys) : l.next p = n := (h.place hp hn).1.2.1

/-- The nodes on the two sides of a place. -/
theorem Ring.sides (h : (root :: (as ++ bs)).Nodup) {xs ys : List α} (hp : root :: as = xs ++ [p])
    (hn : bs ++ [root] = n :: ys) :
    (p ∉ xs ∧ p ∉ bs) ∧ (n ∉ as ∧ n ∉ ys) ∧ (p ∈ root :: as ∧ n ∈ root :: bs) := by
  have hleft : (xs ++ [p] ++ bs).Nodup := by
    rw [← hp, List.cons_append]
    exact h
  have hright : (as ++ (n :: ys)).Nodup := by
    rw [← hn, ← List.append_assoc]
    exact (List.perm_append_singleton root (as ++ bs)).nodup_iff.2 h
  have hmem : p ∈ root :: as ∧ n ∈ bs ++ [root] := by
    rw [hp, hn]
    exact ⟨by simp, by simp⟩
  simp only [List.append_assoc, List.singleton_append] at hleft
  refine ⟨?_, ?_, hmem.1, by simpa [or_comm] using hmem.2⟩
  · have h₁ := List.nodup_middle.1 hleft
    have := (List.nodup_cons.1 h₁).1
    simpa [not_or] using this
  · have h₁ := List.nodup_middle.1 hright
    have := (List.nodup_cons.1 h₁).1
    simpa [not_or] using this

/-- A node of a list is the last one before some place. -/
theorem exists_place (h : p ∈ root :: es) : ∃ as bs xs, es = as ++ bs ∧ root :: as = xs ++ [p] := by
  obtain ⟨xs, bs, hsplit⟩ := List.append_of_mem h
  cases xs with
  | nil =>
    rw [List.nil_append, List.cons.injEq] at hsplit
    exact ⟨[], bs, [], hsplit.2, by rw [hsplit.1]; rfl⟩
  | cons x xs =>
    rw [List.cons_append, List.cons.injEq] at hsplit
    refine ⟨xs ++ [p], bs, x :: xs, ?_, ?_⟩
    · rw [hsplit.2]
      simp
    · rw [hsplit.1]
      rfl

/-- A list read backwards. -/
theorem Ring.reverse (h : Ring l root es) : Ring ⟨l.prev, l.next⟩ root es.reverse := by
  refine ⟨?_, ?_, ?_⟩
  · have hprev := congrArg List.reverse h.prev
    rw [← List.map_reverse, List.reverse_append, List.reverse_singleton, List.reverse_cons] at hprev
    exact hprev
  · have hnext := congrArg List.reverse h.next
    rw [← List.map_reverse, List.reverse_append, List.reverse_singleton, List.reverse_cons] at hnext
    exact hnext
  · exact (List.Perm.cons root (List.reverse_perm es)).nodup_iff.2 h.nodup

variable [DecidableEq α]

/-- The nodes that are met from `e` on before `root`, at most `n` of them. -/
def follow (next : α → α) (root : α) : Nat → α → List α
  | 0, _ => []
  | n + 1, e => if e = root then [] else e :: follow next root n (next e)

/-- The nodes of a list, read off its links. -/
theorem Ring.follow_eq {m : Nat} (h : Ring l root es) (hm : es.length < m) :
    follow l.next root m (l.next root) = es := by
  have key : ∀ (bs as : List α) (m : Nat), es = as ++ bs → bs.length < m →
      follow l.next root m ((bs ++ [root]).head (by simp)) = bs := by
    intro bs
    induction bs with
    | nil =>
      intro as m _ hm
      obtain ⟨k, rfl⟩ := Nat.exists_eq_succ_of_ne_zero (by simp at hm; omega : m ≠ 0)
      exact if_pos rfl
    | cons b bs ih =>
      intro as m hsplit hm
      obtain ⟨k, rfl⟩ := Nat.exists_eq_succ_of_ne_zero (by simp at hm; omega : m ≠ 0)
      have hb : b ≠ root := by
        rintro rfl
        exact (List.nodup_cons.1 h.nodup).1 (by simp [hsplit])
      have hplace : root :: (as ++ [b]) = (root :: as) ++ [b] := rfl
      have hsplit' : es = (as ++ [b]) ++ bs := by rw [hsplit, List.append_assoc]; rfl
      have hnext : l.next b = (bs ++ [root]).head (by simp) :=
        (hsplit' ▸ h).next_eq hplace (List.cons_head_tail _).symm
      rw [show ((b :: bs) ++ [root]).head (by simp) = b from rfl]
      unfold follow
      rw [if_neg hb, hnext, ih (as ++ [b]) k hsplit' (by simp at hm; omega)]
  have hplace : [root] = [] ++ [root] := rfl
  have hnext : l.next root = (es ++ [root]).head (by simp) :=
    (show Ring l root ([] ++ es) from h).next_eq hplace (List.cons_head_tail _).symm
  rw [hnext]
  exact key es [] m rfl hm

theorem map_update {f : α → α} {x y : α} {xs : List α} (h : x ∉ xs) : xs.map (Function.update f x y) = xs.map f := by
  refine List.map_congr_left fun a ha => Function.update_of_ne ?_ _ _
  rintro rfl
  exact h ha

theorem Ring.init (l : Links α) (e : α) : Ring (l.init e) e [] :=
  ⟨by simp [Links.init], by simp [Links.init], List.nodup_singleton e⟩

/-- A node linked in at a place. -/
theorem Ring.addAfter (h : Ring l root (as ++ bs)) {xs : List α} (hp : root :: as = xs ++ [p])
    (he : e ∉ root :: (as ++ bs)) : Ring (l.addAfter e p) root (as ++ e :: bs) := by
  obtain ⟨n, ys, hn⟩ : ∃ n ys, bs ++ [root] = n :: ys := by
    cases bs with
    | nil => exact ⟨_, _, rfl⟩
    | cons b bs => exact ⟨_, _, rfl⟩
  obtain ⟨⟨hxs, hnp, hbs⟩, has, hpn, hys⟩ := h.place hp hn
  obtain ⟨⟨hpxs, hpbs⟩, ⟨hnas, hnys⟩, hpmem, hnmem⟩ := Ring.sides h.nodup hp hn
  have hsub : ∀ a, a ∈ root :: as ∨ a ∈ root :: bs → a ≠ e := by
    rintro a ha rfl
    refine he ?_
    rcases ha with ha | ha
    · rcases List.mem_cons.1 ha with rfl | ha
      · exact List.mem_cons_self
      · exact List.mem_cons_of_mem _ (List.mem_append_left _ ha)
    · rcases List.mem_cons.1 ha with rfl | ha
      · exact List.mem_cons_self
      · exact List.mem_cons_of_mem _ (List.mem_append_right _ ha)
  have hep : p ≠ e := hsub p (.inl hpmem)
  have hen : n ≠ e := hsub n (.inr hnmem)
  have hexs : e ∉ xs := fun hmem => hsub e (.inl (by rw [hp]; exact List.mem_append_left _ hmem)) rfl
  have hebs : e ∉ bs := fun hmem => hsub e (.inr (List.mem_cons_of_mem _ hmem)) rfl
  have heas : e ∉ as := fun hmem => hsub e (.inl (List.mem_cons_of_mem _ hmem)) rfl
  have heys : e ∉ ys := by
    intro hmem
    have : e ∈ bs ++ [root] := by
      rw [hn]
      exact List.mem_cons_of_mem _ hmem
    exact hsub e (.inr (by simpa [or_comm] using this)) rfl
  -- the links forward, the links backward, and no node twice
  refine ⟨?_, ?_, ?_⟩
  · show (root :: (as ++ e :: bs)).map (Function.update (Function.update l.next e (l.next p)) p e) =
        as ++ e :: bs ++ [root]
    rw [← List.cons_append, hp, List.map_append, List.map_append, map_update hpxs, map_update hexs, hxs, hnp]
    simp only [List.map_cons, List.map_nil, Function.update_self, Function.update_of_ne hep.symm]
    rw [map_update hpbs, map_update hebs, hbs, ← hn]
    simp
  · show (as ++ e :: bs ++ [root]).map (Function.update (Function.update l.prev e p) (l.next p) e) =
        root :: (as ++ e :: bs)
    rw [hnp, List.append_assoc, List.cons_append, hn, List.map_append, map_update hnas, map_update heas, has]
    simp only [List.map_cons, Function.update_self, Function.update_of_ne hen.symm]
    rw [map_update hnys, map_update heys, hys, ← List.cons_append, hp]
    simp
  · have := List.nodup_cons.2 ⟨he, h.nodup⟩
    refine (List.Perm.nodup_iff ?_).1 this
    exact (List.Perm.swap root e _).trans (List.Perm.cons root List.perm_middle.symm)

/-- A node taken out. -/
theorem Ring.remove (h : Ring l root (as ++ e :: bs)) : Ring (l.remove e) root (as ++ bs) := by
  obtain ⟨xs, p, hp⟩ := exists_concat root as
  obtain ⟨n, ys, hn⟩ : ∃ n ys, bs ++ [root] = n :: ys := by
    cases bs with
    | nil => exact ⟨_, _, rfl⟩
    | cons b bs => exact ⟨_, _, rfl⟩
  have hfirst : e :: bs ++ [root] = e :: (bs ++ [root]) := rfl
  have hbefore := h.place hp hfirst
  have hafter := @Ring.place α l root e n (as ++ [e]) bs (by rw [List.append_assoc]; exact h) (root :: as) ys rfl hn
  have hnodup : (root :: (as ++ bs)).Nodup := by
    have := h.nodup.sublist (List.Sublist.cons_cons root (List.Sublist.append_left (List.sublist_cons_self e bs) as))
    exact this
  obtain ⟨⟨hpxs, hpbs⟩, ⟨hnas, hnys⟩, hpmem, hnmem⟩ := Ring.sides hnodup hp hn
  have he : e ∉ root :: (as ++ bs) := by
    have hperm : (root :: (as ++ e :: bs)).Perm (e :: root :: (as ++ bs)) :=
      (List.Perm.cons root List.perm_middle).trans (List.Perm.swap e root _)
    exact (List.nodup_cons.1 (hperm.nodup_iff.1 h.nodup)).1
  simp only [List.mem_cons, List.mem_append, not_or] at he
  obtain ⟨heroot, heas, hebs⟩ := he
  -- neither neighbour is `e`, so each update is of a link of its own
  have hexs : e ∉ xs := by
    intro hmem
    have : e ∈ root :: as := by
      rw [hp]
      exact List.mem_append_left _ hmem
    simp [heroot, heas] at this
  have heys : e ∉ ys := by
    intro hmem
    have : e ∈ bs ++ [root] := by
      rw [hn]
      exact List.mem_cons_of_mem _ hmem
    simp [heroot, hebs] at this
  have hpe : p ≠ e := by
    rintro rfl
    simp [heroot, heas] at hpmem
  have hne : n ≠ e := by
    rintro rfl
    simp [heroot, hebs] at hnmem
  have hprev : l.prev e = p := hbefore.2.2.1
  have hnext : l.next e = n := hafter.1.2.1
  refine ⟨?_, ?_, hnodup⟩
  · show (root :: (as ++ bs)).map (Function.update (Function.update l.next (l.prev e) (l.next e)) e e) =
        as ++ bs ++ [root]
    rw [hprev, hnext, map_update (by simp [heroot, heas, hebs]), ← List.cons_append, hp, List.map_append,
      List.map_append, map_update hpxs, map_update hpbs, hbefore.1.1, hafter.1.2.2]
    simp [← hn]
  · show (as ++ bs ++ [root]).map (Function.update (Function.update l.prev (l.next e) (l.prev e)) e e) =
        root :: (as ++ bs)
    rw [hprev, hnext, map_update (by simp [heroot, heas, hebs]), List.append_assoc, hn,
      List.map_append, map_update hnas,
      hbefore.2.1, List.map_cons, Function.update_self, map_update hnys, hafter.2.2.2, ← List.cons_append, hp]
    simp

/-- A node that is neither linked in nor next to it keeps its links. -/
theorem Links.addAfter_of_ne (l : Links α) {a : α} (he : a ≠ e) (hp : a ≠ p) (hn : a ≠ l.next p) :
    (l.addAfter e p).next a = l.next a ∧ (l.addAfter e p).prev a = l.prev a := by
  simp [Links.addAfter, he, hp, hn]

theorem Links.remove_of_ne (l : Links α) {a : α} (he : a ≠ e) (hp : a ≠ l.prev e) (hn : a ≠ l.next e) :
    (l.remove e).next a = l.next a ∧ (l.remove e).prev a = l.prev a := by
  simp [Links.remove, he, hp, hn]

end Ring

/-! ### Several rings -/

/-- Each root has its list, and no two of them share a node. -/
structure Rings (l : Links α) (roots : List α) (es : α → List α) : Prop where
  ring : ∀ r ∈ roots, Ring l r (es r)
  disjoint : ∀ r ∈ roots, ∀ s ∈ roots, r ≠ s → List.Disjoint (r :: es r) (s :: es s)

section Rings

variable {l : Links α} {roots : List α} {es : α → List α} {r e p : α} {as bs : List α}

/-- A node of the lists. -/
def Node (roots : List α) (es : α → List α) (a : α) : Prop := ∃ r ∈ roots, a ∈ r :: es r

theorem Rings.eq_of_mem (h : Rings l roots es) {s a : α} (hr : r ∈ roots) (hs : s ∈ roots) (ha : a ∈ r :: es r)
    (ha' : a ∈ s :: es s) : r = s := by
  by_contra hne
  exact h.disjoint r hr s hs hne ha ha'

/-- Some of the lists. -/
theorem Rings.subset (h : Rings l roots es) {roots' : List α} (hsub : ∀ r ∈ roots', r ∈ roots) : Rings l roots' es :=
  ⟨fun r hr => h.ring r (hsub r hr), fun r hr s hs => h.disjoint r (hsub r hr) s (hsub s hs)⟩

/-- The lists, named otherwise. -/
theorem Rings.congr (h : Rings l roots es) {es' : α → List α} (hsame : ∀ r ∈ roots, es' r = es r) :
    Rings l roots es' := by
  constructor
  · intro r hr
    rw [hsame r hr]
    exact h.ring r hr
  · intro r hr s hs hrs
    rw [hsame r hr, hsame s hs]
    exact h.disjoint r hr s hs hrs

theorem Ring.next_mem (h : Ring l r as) {a : α} (ha : a ∈ r :: as) : l.next a ∈ r :: as := by
  have hmem : l.next a ∈ (r :: as).map l.next := List.mem_map_of_mem ha
  rw [h.next] at hmem
  simpa [or_comm] using hmem

theorem Ring.prev_mem (h : Ring l r as) {a : α} (ha : a ∈ r :: as) : l.prev a ∈ r :: as := by
  have hmem : l.prev a ∈ (as ++ [r]).map l.prev := List.mem_map_of_mem (by simpa [or_comm] using ha)
  rw [h.prev] at hmem
  exact hmem

variable [DecidableEq α]

/-- The lists with one of them replaced. -/
theorem Rings.update (h : Rings l roots es) {l' : Links α} (hr : r ∈ roots) (hring : Ring l' r as)
    (hsame : ∀ s ∈ roots, s ≠ r → ∀ a ∈ s :: es s, l'.next a = l.next a ∧ l'.prev a = l.prev a)
    (hnew : ∀ a ∈ as, a ∈ es r ∨ ¬ Node roots es a) : Rings l' roots (Function.update es r as) := by
  have hother : ∀ s ∈ roots, s ≠ r → List.Disjoint (r :: as) (s :: es s) := by
    intro s hs hne a ha ha'
    rcases List.mem_cons.1 ha with rfl | ha
    · exact h.disjoint a hr s hs hne.symm List.mem_cons_self ha'
    · rcases hnew a ha with hmem | hnode
      · exact h.disjoint r hr s hs hne.symm (List.mem_cons_of_mem _ hmem) ha'
      · exact hnode ⟨s, hs, ha'⟩
  constructor
  · intro s hs
    by_cases hsr : s = r
    · rw [hsr, Function.update_self]
      exact hring
    · rw [Function.update_of_ne hsr]
      exact (h.ring s hs).congr (fun a ha => (hsame s hs hsr a ha).1) fun a ha => (hsame s hs hsr a ha).2
  · intro s hs t ht hst
    by_cases hsr : s = r
    · have htr : t ≠ r := fun htr => hst (hsr.trans htr.symm)
      rw [hsr, Function.update_self, Function.update_of_ne htr]
      exact hother t ht htr
    · by_cases htr : t = r
      · rw [htr, Function.update_self, Function.update_of_ne hsr]
        exact List.disjoint_symm (hother s hs hsr)
      · rw [Function.update_of_ne hsr, Function.update_of_ne htr]
        exact h.disjoint s hs t ht hst

/-- A new node linked into one of the lists. -/
theorem Rings.addAfter (h : Rings l roots es) (hr : r ∈ roots) (hes : es r = as ++ bs) {xs : List α}
    (hp : r :: as = xs ++ [p]) (he : ¬ Node roots es e) :
    Rings (l.addAfter e p) roots (Function.update es r (as ++ e :: bs)) := by
  have hring := h.ring r hr
  rw [hes] at hring
  have hpmem : p ∈ r :: es r := by
    have : p ∈ r :: as := by simp [hp]
    rw [hes, ← List.cons_append]
    exact List.mem_append_left _ this
  refine h.update hr (hring.addAfter hp fun hmem => he ⟨r, hr, hes ▸ hmem⟩) ?_ ?_
  · intro s hs hsr a ha
    refine l.addAfter_of_ne ?_ ?_ ?_
    · rintro rfl
      exact he ⟨s, hs, ha⟩
    · rintro rfl
      exact hsr (h.eq_of_mem hs hr ha hpmem)
    · rintro rfl
      exact hsr (h.eq_of_mem hs hr ha ((h.ring r hr).next_mem hpmem))
  · intro a ha
    rw [hes]
    rcases List.mem_append.1 ha with ha | ha
    · exact .inl (List.mem_append_left _ ha)
    · rcases List.mem_cons.1 ha with rfl | ha
      · exact .inr he
      · exact .inl (List.mem_append_right _ ha)

/-- A node taken out of one of the lists. -/
theorem Rings.remove (h : Rings l roots es) (hr : r ∈ roots) (hes : es r = as ++ e :: bs) :
    Rings (l.remove e) roots (Function.update es r (as ++ bs)) := by
  have hring := h.ring r hr
  have hmem : e ∈ r :: es r := by simp [hes]
  refine h.update hr (hes ▸ hring : Ring l r (as ++ e :: bs)).remove ?_ ?_
  · intro s hs hsr a ha
    refine l.remove_of_ne ?_ ?_ ?_
    · rintro rfl
      exact hsr (h.eq_of_mem hs hr ha hmem)
    · rintro rfl
      exact hsr (h.eq_of_mem hs hr ha (hring.prev_mem hmem))
    · rintro rfl
      exact hsr (h.eq_of_mem hs hr ha (hring.next_mem hmem))
  · intro a ha
    rw [hes]
    left
    rcases List.mem_append.1 ha with ha | ha
    · exact List.mem_append_left _ ha
    · exact List.mem_append_right _ (List.mem_cons_of_mem _ ha)

/-- A node that has been taken out is in none of the lists. -/
theorem Rings.not_node_remove (h : Rings l roots es) (hr : r ∈ roots) (hes : es r = as ++ e :: bs) :
    ¬ Node roots (Function.update es r (as ++ bs)) e := by
  have hmem : e ∈ r :: es r := by simp [hes]
  rintro ⟨s, hs, he⟩
  by_cases hsr : s = r
  · rw [hsr, Function.update_self] at he
    have hnodup := (h.ring r hr).nodup
    rw [hes, ← List.cons_append] at hnodup
    have := (List.nodup_cons.1 (List.nodup_middle.1 hnodup)).1
    exact this (by simpa using he)
  · rw [Function.update_of_ne hsr] at he
    exact hsr (h.eq_of_mem hs hr he hmem)

/-- A new list with no node but its root. -/
theorem Rings.init (h : Rings l roots es) (hr : ¬ Node roots es r) :
    Rings (l.init r) (r :: roots) (Function.update es r []) := by
  have hroot : ∀ s ∈ roots, s ≠ r := by
    rintro s hs rfl
    exact hr ⟨s, hs, List.mem_cons_self⟩
  have hother : ∀ s ∈ roots, Function.update es r [] s = es s := fun s hs => Function.update_of_ne (hroot s hs) _ _
  have hdisjoint : ∀ s ∈ roots, List.Disjoint [r] (s :: es s) := by
    intro s hs a ha ha'
    rw [List.mem_singleton.1 ha] at ha'
    exact hr ⟨s, hs, ha'⟩
  constructor
  · intro s hs
    rcases List.mem_cons.1 hs with rfl | hs'
    · rw [Function.update_self]
      exact Ring.init l s
    · rw [hother s hs']
      have hne : ∀ a ∈ s :: es s, a ≠ r := by
        rintro a ha rfl
        exact hr ⟨s, hs', ha⟩
      refine (h.ring s hs').congr (fun a ha => ?_) fun a ha => ?_
      · exact Function.update_of_ne (hne a ha) _ _
      · exact Function.update_of_ne (hne a ha) _ _
  · intro s hs t ht hst
    rcases List.mem_cons.1 hs with rfl | hs'
    · rcases List.mem_cons.1 ht with rfl | ht'
      · exact absurd rfl hst
      · rw [Function.update_self, hother t ht']
        exact hdisjoint t ht'
    · rcases List.mem_cons.1 ht with rfl | ht'
      · rw [Function.update_self, hother s hs']
        exact List.disjoint_symm (hdisjoint s hs')
      · rw [hother s hs', hother t ht']
        exact h.disjoint s hs' t ht' hst

end Rings

end SoemMotion.Lib
