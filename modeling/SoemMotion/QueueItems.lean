import SoemMotion.PlannerFrame

/-!
# The queue as a list

The ring of `tcq.c` stands for the list of its queued segments: every operation on a well-formed ring is the operation
of the same meaning on that list.
-/

namespace SoemMotion

variable {α : Type}

/-- The queued segments, the oldest first. -/
def Tcq.items (q : Tcq α) : List α := (List.range q.len.toNat).map fun n : Nat => q.queue (q.index n)

@[simp] theorem items_length (q : Tcq α) : q.items.length = q.len.toNat := by simp [Tcq.items]

theorem items_getElem? (q : Tcq α) (n : Nat) : q.items[n]? = tcqItem q n := by
  unfold tcqItem
  by_cases h : n < q.len.toNat
  · rw [if_neg (by omega)]
    simp [Tcq.items, h]
  · rw [if_pos (by omega)]
    exact List.getElem?_eq_none (by rw [items_length]; omega)

theorem items_ext {q : Tcq α} {l : List α} (h : ∀ n : Nat, tcqItem q n = l[n]?) : q.items = l :=
  List.ext_getElem? fun n => (items_getElem? q n).trans (h n)

theorem items_init (q : Tcq α) : (tcqInit q).items = [] := rfl

theorem items_nil_iff {q : Tcq α} (hw : q.WF) : q.items = [] ↔ q.len = 0 := by
  have := hw.len_nonneg
  rw [← List.length_eq_zero_iff, items_length]
  omega

theorem tcqItem_zero {q : Tcq α} {a : α} {l : List α} (h : q.items = a :: l) : tcqItem q 0 = some a := by
  have h0 := items_getElem? q 0
  rw [h] at h0
  exact h0.symm

theorem tcqItem_one {q : Tcq α} {a : α} {l : List α} (h : q.items = a :: l) : tcqItem q 1 = l.head? := by
  have h1 := items_getElem? q 1
  rw [h, List.getElem?_cons_succ] at h1
  rw [List.head?_eq_getElem?]
  exact h1.symm

theorem tcqLast_items {q : Tcq α} (hw : q.WF) : tcqLast q = q.items.getLast? := by
  have hn := hw.len_nonneg
  rw [tcqLast_eq_item hw, List.getLast?_eq_getElem?, items_getElem?, items_length]
  by_cases h : q.len = 0
  · unfold tcqItem
    rw [if_pos (by omega), if_pos (by omega)]
  · congr 1
    omega

theorem tcqPut_items {q q' : Tcq α} {tc : α} (hw : q.WF) (h : tcqPut q tc = some q') : q'.items = q.items ++ [tc] := by
  have hn := hw.len_nonneg
  refine items_ext fun n => ?_
  rw [tcqPut_item hw h, List.getElem?_append, items_length]
  by_cases hlast : (n : Int) = q.len
  · rw [if_pos hlast, if_neg (by omega), show n - q.len.toNat = 0 by omega]
    rfl
  · rw [if_neg hlast, ← items_getElem?]
    split
    · rfl
    · rw [List.getElem?_eq_none (by rw [items_length]; omega), List.getElem?_eq_none (by simp; omega)]

theorem tcqPop_items {q q' : Tcq α} (h : tcqPop q = some q') : q'.items = q.items.tail := by
  refine items_ext fun n => ?_
  rw [tcqPop_item h (by omega), List.getElem?_tail, items_getElem?]
  rfl

theorem setItem_items {q : Tcq α} (hw : q.WF) {n : Nat} (hn : (n : Int) < q.len) (tc : α) :
    (q.setItem n tc).items = q.items.set n tc := by
  refine items_ext fun m => ?_
  rw [setItem_item hw ⟨by omega, hn⟩, List.getElem?_set, items_getElem?, items_length]
  by_cases h : n = m
  · subst h
    rw [if_pos rfl, if_pos rfl, if_pos (by omega)]
  · rw [if_neg (by omega), if_neg h]

theorem Tcq.Cells.items {R : α → α → Prop} {p q : Tcq α} (h : p.Cells R q) : List.Forall₂ R p.items q.items := by
  unfold Tcq.items
  rw [h.len, List.forall₂_map_left_iff, List.forall₂_map_right_iff, List.forall₂_same]
  intro n _
  rw [h.index]
  exact h.cell _

end SoemMotion
