import Mathlib.Data.List.Nodup
import Mathlib.Logic.Function.Basic

/-!
# Linked lists that share nodes

`Chain next p l` says that the nodes from the pointer `p` on are `l`, where `next` holds the pointer to the node after
each and the last one points to nothing.  `Fifo next front rear l` says so for a list that is kept by its two ends:
nodes come in at the rear and go out at the front.  `Parts lists` says that every node is in exactly one of several
lists, once; a node is handed from one list to another.
-/

namespace SoemMotion.Lib

variable {α κ : Type*} {next : α → Option α} {p front rear : Option α} {a b : α} {l : List α}

/-- The nodes from a pointer on, in their order. -/
inductive Chain (next : α → Option α) : Option α → List α → Prop
  | nil : Chain next none []
  | cons {a : α} {l : List α} (h : Chain next (next a) l) : Chain next (some a) (a :: l)

namespace Chain

@[simp] theorem nil_iff : Chain next p [] ↔ p = none := by
  constructor
  · intro h
    cases h
    rfl
  · rintro rfl
    exact .nil

@[simp] theorem cons_iff : Chain next p (a :: l) ↔ p = some a ∧ Chain next (next a) l := by
  constructor
  · intro h
    cases h with
    | cons h => exact ⟨rfl, h⟩
  · rintro ⟨rfl, h⟩
    exact .cons h

/-- The list of a pointer to a node starts with this node. -/
theorem head (h : Chain next (some a) l) : ∃ l', l = a :: l' ∧ Chain next (next a) l' := by
  cases h with
  | cons h => exact ⟨_, rfl, h⟩

theorem head? (h : Chain next p l) : p = l.head? := by
  cases h <;> rfl

variable [DecidableEq α]

/-- What a node of another list points to does not matter. -/
theorem update {x : Option α} (h : Chain next p l) (ha : a ∉ l) : Chain (Function.update next a x) p l := by
  induction h with
  | nil => exact .nil
  | cons _ ih =>
    rw [List.mem_cons, not_or] at ha
    refine .cons ?_
    rw [Function.update_of_ne (Ne.symm ha.1)]
    exact ih ha.2

/-- A node is pushed on the front. -/
theorem push (h : Chain next p l) (ha : a ∉ l) : Chain (Function.update next a p) (some a) (a :: l) := by
  refine .cons ?_
  rw [Function.update_self]
  exact h.update ha

/-- A node that points to nothing is linked in after the last one. -/
theorem concat (h : Chain next p (l ++ [b])) (hnodup : (l ++ [b]).Nodup) (ha : a ∉ l ++ [b])
    (hlast : next a = none) : Chain (Function.update next b (some a)) p (l ++ [b] ++ [a]) := by
  induction l generalizing p with
  | nil =>
    obtain ⟨rfl, -⟩ := cons_iff.1 h
    have hne : a ≠ b := by simpa using ha
    simp [hne, hlast]
  | cons c l ih =>
    obtain ⟨rfl, hl⟩ := cons_iff.1 h
    simp only [List.cons_append, List.nodup_cons, List.mem_cons, not_or] at hnodup ha
    have hne : c ≠ b := by
      intro heq
      exact hnodup.1 (by simp [heq])
    refine .cons ?_
    rw [Function.update_of_ne hne]
    exact ih hl hnodup.2 ha.2

end Chain

/-! ### Lists kept by their two ends -/

/-- The nodes from `front` to `rear`. -/
structure Fifo (next : α → Option α) (front rear : Option α) (l : List α) : Prop where
  chain : Chain next front l
  rear : rear = l.getLast?

namespace Fifo

theorem nil : Fifo next none none [] := ⟨.nil, rfl⟩

/-- There is a last node exactly if there is a first one. -/
theorem rear_none_iff (h : Fifo next front rear l) : rear = none ↔ front = none := by
  rw [h.rear, h.chain.head?]
  simp

theorem front_none_iff (h : Fifo next front rear l) : front = none ↔ l = [] := by
  rw [h.chain.head?]
  simp

theorem rear_mem (h : Fifo next front (some b) l) : b ∈ l :=
  List.mem_of_getLast? h.rear.symm

/-- The first node goes out; the last one is gone with it if there is no other. -/
theorem pop (h : Fifo next (some a) rear l) :
    ∃ l', l = a :: l' ∧ Fifo next (next a) (if next a = none then none else rear) l' := by
  obtain ⟨l', rfl, hl'⟩ := h.chain.head
  refine ⟨l', rfl, hl', ?_⟩
  cases l' with
  | nil =>
    rw [Chain.nil_iff] at hl'
    simp [hl']
  | cons b l'' =>
    rw [Chain.cons_iff] at hl'
    simp [hl'.1, h.rear]

/-- A node comes in where there is none. -/
theorem single (h : Fifo next front none l) (hlast : next a = none) : l = [] ∧ Fifo next (some a) (some a) [a] := by
  have hl : l = [] := by
    rw [← List.getLast?_eq_none_iff]
    exact h.rear.symm
  refine ⟨hl, ?_, rfl⟩
  simp [hlast]

variable [DecidableEq α]

theorem update {x : Option α} (h : Fifo next front rear l) (ha : a ∉ l) :
    Fifo (Function.update next a x) front rear l :=
  ⟨h.chain.update ha, h.rear⟩

/-- A node comes in after the last one. -/
theorem concat (h : Fifo next front (some b) l) (hnodup : l.Nodup) (ha : a ∉ l) (hlast : next a = none) :
    Fifo (Function.update next b (some a)) front (some a) (l ++ [a]) := by
  obtain ⟨l', rfl⟩ := List.getLast?_eq_some_iff.1 h.rear.symm
  refine ⟨h.chain.concat hnodup ha hlast, ?_⟩
  simp

end Fifo

/-! ### Nodes in exactly one list -/

/-- Every node is in exactly one of the lists, and once. -/
structure Parts (lists : κ → List α) : Prop where
  nodup : ∀ k, (lists k).Nodup
  once : ∀ a, ∃! k, a ∈ lists k

namespace Parts

variable {lists : κ → List α} {j k : κ} {l l' : List α}

/-- One of the lists has all nodes. -/
theorem of_all (hnodup : (lists k).Nodup) (hall : ∀ a, a ∈ lists k) (hempty : ∀ i, i ≠ k → lists i = []) :
    Parts lists := by
  constructor
  · intro i
    by_cases hi : i = k
    · rw [hi]
      exact hnodup
    · rw [hempty i hi]
      exact List.nodup_nil
  · intro a
    refine ⟨k, hall a, fun i hi => ?_⟩
    by_contra hik
    simp [hempty i hik] at hi

/-- A node of one list is in no other. -/
theorem not_mem (h : Parts lists) (ha : a ∈ lists j) (hne : k ≠ j) : a ∉ lists k := by
  intro hk
  exact hne ((h.once a).unique hk ha)

/-- A node is handed from the list `j` to the list `k`. -/
theorem move [DecidableEq κ] (h : Parts lists) (hne : k ≠ j) (hout : (lists j).Perm (a :: l))
    (hin : l'.Perm (a :: lists k)) : Parts (Function.update (Function.update lists j l) k l') := by
  have ha : a ∈ lists j := hout.mem_iff.2 List.mem_cons_self
  obtain ⟨hal, hl⟩ := List.nodup_cons.1 (hout.nodup_iff.1 (h.nodup j))
  have hk : Function.update (Function.update lists j l) k l' k = l' := Function.update_self ..
  have hj : Function.update (Function.update lists j l) k l' j = l := by
    rw [Function.update_of_ne (Ne.symm hne), Function.update_self]
  have hother : ∀ i, i ≠ j → i ≠ k → Function.update (Function.update lists j l) k l' i = lists i := by
    intro i hij hik
    rw [Function.update_of_ne hik, Function.update_of_ne hij]
  generalize Function.update (Function.update lists j l) k l' = lists' at hk hj hother
  -- every element but the moved one stays where it is
  have hsame : ∀ b, b ≠ a → ∀ i, b ∈ lists' i ↔ b ∈ lists i := by
    intro b hb i
    by_cases hij : i = j
    · rw [hij, hj, hout.mem_iff, List.mem_cons]
      exact (or_iff_right hb).symm
    · by_cases hik : i = k
      · rw [hik, hk, hin.mem_iff, List.mem_cons]
        exact or_iff_right hb
      · rw [hother i hij hik]
  constructor
  · intro i
    by_cases hij : i = j
    · rw [hij, hj]
      exact hl
    · by_cases hik : i = k
      · rw [hik, hk, hin.nodup_iff]
        exact List.nodup_cons.2 ⟨h.not_mem ha hne, h.nodup k⟩
      · rw [hother i hij hik]
        exact h.nodup i
  · intro b
    by_cases hb : b = a
    · subst hb
      refine ⟨k, ?_, ?_⟩
      · show b ∈ lists' k
        rw [hk]
        exact hin.mem_iff.2 List.mem_cons_self
      · intro i hi
        by_contra hik
        by_cases hij : i = j
        · rw [hij, hj] at hi
          exact hal hi
        · rw [hother i hij hik] at hi
          exact h.not_mem ha hij hi
    · obtain ⟨i, hi, hunique⟩ := h.once b
      exact ⟨i, (hsame b hb i).2 hi, fun i' hi' => hunique i' ((hsame b hb i').1 hi')⟩

/-- Empty lists do not count. -/
theorem reindex {κ' : Type*} {f : κ' → κ} (hf : Function.Injective f) (hempty : ∀ k, (∀ i, f i ≠ k) → lists k = []) :
    Parts (fun i => lists (f i)) ↔ Parts lists := by
  constructor
  · intro h
    constructor
    · intro k
      by_cases hk : ∃ i, f i = k
      · obtain ⟨i, rfl⟩ := hk
        exact h.nodup i
      · rw [hempty k (not_exists.1 hk)]
        exact List.nodup_nil
    · intro a
      obtain ⟨i, hi, hunique⟩ := h.once a
      refine ⟨f i, hi, fun k hk => ?_⟩
      by_cases hrange : ∃ i', f i' = k
      · obtain ⟨i', rfl⟩ := hrange
        rw [hunique i' hk]
      · simp [hempty k (not_exists.1 hrange)] at hk
  · intro h
    constructor
    · exact fun i => h.nodup (f i)
    · intro a
      obtain ⟨k, hk, hunique⟩ := h.once a
      by_cases hrange : ∃ i, f i = k
      · obtain ⟨i, rfl⟩ := hrange
        exact ⟨i, hk, fun i' hi' => hf (hunique (f i') hi')⟩
      · simp [hempty k (not_exists.1 hrange)] at hk

end Parts

end SoemMotion.Lib
