import Mathlib.Data.Int.ModEq

/-!
# The segment queue

`tcq.c`: a ring of `size` cells.  The cells from `start` hold the `len` queued segments, the `rlen` cells before
them the history a reverse run steps back into.
-/

namespace SoemMotion

structure Tcq (α : Type) where
  queue : Nat → α
  size : Nat
  len : Int
  rlen : Int
  start : Nat
  «end» : Nat
  rend : Nat
  allFull : Bool

variable {α : Type}

/-- `TCQ_REVERSE_MARGIN`. -/
def tcqReverseMargin : Int := 200

/-- `TC_QUEUE_MARGIN`. -/
def tcQueueMargin : Int := tcqReverseMargin + 20

def tcqInit (tcq : Tcq α) : Tcq α :=
  { tcq with len := 0, start := 0, «end» := 0, rend := 0, rlen := 0, allFull := false }

/-- A queue of `size` cells over the storage `tcSpace`; refused for a size below one. -/
def tcqCreate (size : Nat) (tcSpace : Nat → α) : Option (Tcq α) :=
  if size < 1 then none
  else some (tcqInit { queue := tcSpace, size := size, len := 0, rlen := 0, start := 0, «end» := 0, rend := 0,
                       allFull := false })

def tcqPut (tcq : Tcq α) (tc : α) : Option (Tcq α) :=
  if tcq.allFull then none
  else
    let end' := (tcq.end + 1) % tcq.size
    some { tcq with
      queue := fun i => if i = tcq.end then tc else tcq.queue i
      len := tcq.len + 1
      «end» := end'
      allFull := end' == tcq.start }

def tcqPopBack (tcq : Tcq α) : Option (Tcq α) :=
  if tcq.len < 1 then none
  else some { tcq with «end» := (tcq.end + tcq.size - 1) % tcq.size, len := tcq.len - 1 }

def tcqPop (tcq : Tcq α) : Option (Tcq α) :=
  if tcq.len < 1 && !tcq.allFull then none
  else
    let popped := { tcq with start := (tcq.start + 1) % tcq.size, allFull := false, len := tcq.len - 1 }
    -- up to the margin, a popped segment stays within reach of a step back
    if tcq.rlen < tcqReverseMargin then some { popped with rlen := tcq.rlen + 1 }
    else some { popped with rend := (tcq.rend + 1) % tcq.size }

def tcqBackStep (tcq : Tcq α) : Option (Tcq α) :=
  if tcq.start = tcq.rend then none
  else some { tcq with
    start := (tcq.start + tcq.size - 1) % tcq.size, len := tcq.len + 1, rlen := tcq.rlen - 1 }

def tcqLen (tcq : Tcq α) : Int := tcq.len

/-- The cell of the `n`-th queued segment. -/
def Tcq.index (tcq : Tcq α) (n : Int) : Nat := (tcq.start + n.toNat) % tcq.size

def tcqItem (tcq : Tcq α) (n : Int) : Option α :=
  if n < 0 ∨ tcq.len ≤ n then none else some (tcq.queue (tcq.index n))

/-- The queue after its `n`-th segment has been written through the pointer `tcqItem` gave. -/
def Tcq.setItem (tcq : Tcq α) (n : Int) (tc : α) : Tcq α :=
  { tcq with queue := fun i => if i = tcq.index n then tc else tcq.queue i }

def tcqFull (tcq : Tcq α) : Bool :=
  if (tcq.size : Int) ≤ tcQueueMargin then tcq.allFull
  else decide ((tcq.size : Int) - tcQueueMargin ≤ tcq.len)

/-- The cell of the newest segment. -/
def Tcq.lastIndex (tcq : Tcq α) : Nat := (tcq.end + tcq.size - 1) % tcq.size

def tcqLast (tcq : Tcq α) : Option α :=
  if tcq.len = 0 then none else some (tcq.queue tcq.lastIndex)

/-- The queue after its newest segment has been written through the pointer `tcqLast` gave. -/
def Tcq.setLast (tcq : Tcq α) (tc : α) : Tcq α :=
  { tcq with queue := fun i => if i = tcq.lastIndex then tc else tcq.queue i }

/-! ### Well-formed queues -/

/-- The shape every queue has that was created by `tcqCreate` and changed by `tcqPut` and `tcqPop` only. -/
structure Tcq.WF (tcq : Tcq α) : Prop where
  start_lt : tcq.start < tcq.size
  len_nonneg : 0 ≤ tcq.len
  len_le : tcq.len ≤ tcq.size
  end_eq : tcq.end = (tcq.start + tcq.len.toNat) % tcq.size
  full_iff : tcq.allFull = true ↔ tcq.len = tcq.size

theorem tcqInit_wf {tcq : Tcq α} (h : 0 < tcq.size) : (tcqInit tcq).WF where
  start_lt := h
  len_nonneg := le_rfl
  len_le := by show (0 : Int) ≤ tcq.size; omega
  end_eq := by simp [tcqInit]
  full_iff := by simp [tcqInit]; omega

theorem tcqCreate_wf {size : Nat} {tcSpace : Nat → α} {tcq : Tcq α} (h : tcqCreate size tcSpace = some tcq) :
    tcq.WF ∧ tcq.size = size ∧ tcq.len = 0 := by
  unfold tcqCreate at h
  split at h
  · cases h
  · cases h
    exact ⟨tcqInit_wf (by show 0 < size; omega), rfl, rfl⟩

private theorem mod_succ_eq {s n i : Nat} (hi : i < n) (hs : s < n) :
    ((s + i) % n + 1) % n = s ↔ i + 1 = n := by
  rcases Nat.lt_or_ge (s + i) n with h | h
  · rw [Nat.mod_eq_of_lt h]
    rcases Nat.lt_or_ge (s + i + 1) n with h' | h'
    · rw [Nat.mod_eq_of_lt h']; omega
    · have : s + i + 1 = n := by omega
      rw [this, Nat.mod_self]; omega
  · have e : (s + i) % n = s + i - n := by
      rw [Nat.mod_eq_sub_mod h, Nat.mod_eq_of_lt (by omega)]
    rw [e, Nat.mod_eq_of_lt (by omega)]; omega

/-- Cells of a queue that is not longer than its ring are distinct. -/
theorem Tcq.index_inj {tcq : Tcq α} {n m : Int} (hn : 0 ≤ n ∧ n < tcq.size) (hm : 0 ≤ m ∧ m < tcq.size)
    (h : tcq.index n = tcq.index m) : n = m := by
  have h' : n.toNat ≡ m.toNat [MOD tcq.size] := Nat.ModEq.add_left_cancel' tcq.start h
  have := h'.eq_of_lt_of_lt (by omega) (by omega)
  omega

theorem Tcq.WF.end_eq_index {tcq : Tcq α} (hw : tcq.WF) : tcq.end = tcq.index tcq.len := hw.end_eq

theorem Tcq.WF.lastIndex_eq {tcq : Tcq α} (hw : tcq.WF) (h : 0 < tcq.len) :
    tcq.lastIndex = tcq.index (tcq.len - 1) := by
  have hs := hw.start_lt
  have e : tcq.len.toNat = (tcq.len - 1).toNat + 1 := by omega
  unfold Tcq.lastIndex Tcq.index
  rw [hw.end_eq, e, ← Nat.add_assoc, Nat.add_sub_assoc (by omega), Nat.mod_add_mod,
    show tcq.start + (tcq.len - 1).toNat + 1 + (tcq.size - 1) = tcq.start + (tcq.len - 1).toNat + tcq.size by omega,
    Nat.add_mod_right]

theorem Tcq.WF.len_lt {tcq : Tcq α} (hw : tcq.WF) (h : ¬ tcq.allFull = true) : tcq.len < tcq.size := by
  have hne : ¬ tcq.len = tcq.size := fun e => h (hw.full_iff.2 e)
  have := hw.len_le
  omega

/-- `tcqPut` keeps the shape of the queue and makes it one longer. -/
theorem tcqPut_wf {tcq tcq' : Tcq α} {tc : α} (hw : tcq.WF) (h : tcqPut tcq tc = some tcq') :
    tcq'.WF ∧ tcq'.size = tcq.size ∧ tcq'.len = tcq.len + 1 ∧ tcq'.start = tcq.start := by
  unfold tcqPut at h
  split at h
  · cases h
  · rename_i hfull
    cases h
    have hlt := hw.len_lt hfull
    have hn := hw.len_nonneg
    have hend := hw.end_eq
    have hs := hw.start_lt
    refine ⟨⟨hs, by show 0 ≤ tcq.len + 1; omega, by show tcq.len + 1 ≤ (tcq.size : Int); omega, ?_, ?_⟩,
      rfl, rfl, rfl⟩
    · show (tcq.end + 1) % tcq.size = (tcq.start + (tcq.len + 1).toNat) % tcq.size
      rw [hend, Int.toNat_add hn (by decide), ← Nat.add_assoc, Nat.mod_add_mod]; rfl
    · show (((tcq.end + 1) % tcq.size == tcq.start) = true) ↔ tcq.len + 1 = (tcq.size : Int)
      rw [beq_iff_eq, hend, mod_succ_eq (by omega) hs]
      omega

/-- What `tcqItem` reads after a successful `tcqPut`. -/
theorem tcqPut_item {tcq tcq' : Tcq α} {tc : α} (hw : tcq.WF) (h : tcqPut tcq tc = some tcq') (n : Int) :
    tcqItem tcq' n = if n = tcq.len then some tc else tcqItem tcq n := by
  have hn := hw.len_nonneg
  have hlen := hw.len_le
  unfold tcqPut at h
  split at h
  · cases h
  · rename_i hnf
    cases h
    have hlt := hw.len_lt hnf
    show (if n < 0 ∨ tcq.len + 1 ≤ n then none
      else some (if tcq.index n = tcq.end then tc else tcq.queue (tcq.index n))) = _
    unfold tcqItem
    by_cases heq : n = tcq.len
    · subst heq
      rw [if_neg (by omega), if_pos rfl, hw.end_eq_index, if_pos rfl]
    · by_cases hout : n < 0 ∨ tcq.len ≤ n
      · rw [if_pos (by omega), if_neg heq, if_pos hout]
      · rw [if_neg (by omega), if_neg heq, if_neg hout, if_neg]
        rw [hw.end_eq_index]
        exact fun hc => heq (Tcq.index_inj (by omega) (by omega) hc)

theorem tcqItem_of_lt {tcq : Tcq α} {n : Int} (hn : 0 ≤ n) (h : n < tcq.len) :
    tcqItem tcq n = some (tcq.queue (tcq.index n)) := by
  unfold tcqItem
  rw [if_neg (by omega)]

theorem lt_of_tcqItem {tcq : Tcq α} {n : Int} {tc : α} (h : tcqItem tcq n = some tc) :
    (0 ≤ n ∧ n < tcq.len) ∧ tcq.queue (tcq.index n) = tc := by
  unfold tcqItem at h
  split at h
  · cases h
  · exact ⟨by omega, Option.some.inj h⟩

/-- The newest segment is the item at `len - 1`. -/
theorem tcqLast_eq_item {tcq : Tcq α} (hw : tcq.WF) : tcqLast tcq = tcqItem tcq (tcq.len - 1) := by
  have hn := hw.len_nonneg
  unfold tcqLast tcqItem
  by_cases h0 : tcq.len = 0
  · rw [if_pos h0, if_pos (by omega)]
  · rw [if_neg h0, if_neg (by omega), hw.lastIndex_eq (by omega)]

theorem tcqPop_wf {tcq tcq' : Tcq α} (hw : tcq.WF) (h : tcqPop tcq = some tcq') :
    tcq'.WF ∧ tcq'.size = tcq.size ∧ tcq'.len = tcq.len - 1 := by
  have hn := hw.len_nonneg
  have hlen := hw.len_le
  have hs := hw.start_lt
  have hlow : 1 ≤ tcq.len := by
    unfold tcqPop at h
    split at h
    · cases h
    · rename_i hc
      by_contra hlt
      have h0 : tcq.len = 0 := by omega
      have hf : tcq.allFull = true := by
        simp only [Bool.and_eq_true, decide_eq_true_eq, Bool.not_eq_true', not_and] at hc
        simpa using hc (by omega)
      have := hw.full_iff.1 hf
      omega
  have key : ∀ q : Tcq α, q.start = (tcq.start + 1) % tcq.size → q.size = tcq.size → q.len = tcq.len - 1 →
      q.end = tcq.end → q.allFull = false → q.WF := by
    intro q h1 h2 h3 h4 h5
    refine ⟨?_, by omega, by omega, ?_, ?_⟩
    · rw [h1, h2]; exact Nat.mod_lt _ (by omega)
    · rw [h4, h1, h2, h3, hw.end_eq, Nat.mod_add_mod]
      congr 1
      omega
    · rw [h5, h2, h3]
      constructor
      · intro hc; cases hc
      · intro hc; omega
  unfold tcqPop at h
  split at h
  · cases h
  · split at h <;> cases h
    · exact ⟨key _ rfl rfl rfl rfl rfl, rfl, rfl⟩
    · exact ⟨key _ rfl rfl rfl rfl rfl, rfl, rfl⟩

/-- The segments that are left move up by one. -/
theorem tcqPop_item {tcq tcq' : Tcq α} (h : tcqPop tcq = some tcq') {n : Int} (hn : 0 ≤ n) :
    tcqItem tcq' n = tcqItem tcq (n + 1) := by
  obtain ⟨hqueue, hsize, hstart, hlen⟩ : tcq'.queue = tcq.queue ∧ tcq'.size = tcq.size ∧
      tcq'.start = (tcq.start + 1) % tcq.size ∧ tcq'.len = tcq.len - 1 := by
    unfold tcqPop at h
    split at h
    · cases h
    · split at h <;> cases h <;> exact ⟨rfl, rfl, rfl, rfl⟩
  have hindex : tcq'.index n = tcq.index (n + 1) := by
    have e : tcq.start + 1 + n.toNat = tcq.start + (n + 1).toNat := by omega
    unfold Tcq.index
    rw [hstart, hsize, Nat.mod_add_mod, e]
  unfold tcqItem
  rw [hqueue, hlen, hindex]
  by_cases hlt : tcq.len - 1 ≤ n
  · rw [if_pos (.inr hlt), if_pos (.inr (by omega))]
  · rw [if_neg (by omega), if_neg (by omega)]

theorem setItem_wf {tcq : Tcq α} (hw : tcq.WF) (n : Int) (tc : α) : (tcq.setItem n tc).WF :=
  ⟨hw.start_lt, hw.len_nonneg, hw.len_le, hw.end_eq, hw.full_iff⟩

theorem setLast_wf {tcq : Tcq α} (hw : tcq.WF) (tc : α) : (tcq.setLast tc).WF :=
  ⟨hw.start_lt, hw.len_nonneg, hw.len_le, hw.end_eq, hw.full_iff⟩

theorem setItem_self {tcq : Tcq α} {n : Int} (hn : 0 ≤ n) (h : n < tcq.len) (tc : α) :
    tcqItem (tcq.setItem n tc) n = some tc := by
  rw [tcqItem_of_lt hn (show n < (tcq.setItem n tc).len from h)]
  show some (if tcq.index n = tcq.index n then tc else _) = _
  rw [if_pos rfl]

theorem setItem_of_index_ne {tcq : Tcq α} {n m : Int} (h : tcq.index m ≠ tcq.index n) (tc : α) :
    tcqItem (tcq.setItem n tc) m = tcqItem tcq m := by
  show (if m < 0 ∨ tcq.len ≤ m then none
    else some (if tcq.index m = tcq.index n then tc else tcq.queue (tcq.index m))) = _
  rw [if_neg h]
  rfl

/-- Writing one item leaves the others. -/
theorem setItem_item {tcq : Tcq α} (hw : tcq.WF) {n m : Int} (hn : 0 ≤ n ∧ n < tcq.len) (tc : α) :
    tcqItem (tcq.setItem n tc) m = if m = n then some tc else tcqItem tcq m := by
  have hlen := hw.len_le
  show (if m < 0 ∨ tcq.len ≤ m then none
    else some (if tcq.index m = tcq.index n then tc else tcq.queue (tcq.index m))) = _
  unfold tcqItem
  by_cases heq : m = n
  · subst heq
    rw [if_neg (by omega), if_pos rfl, if_pos rfl]
  · by_cases hout : m < 0 ∨ tcq.len ≤ m
    · rw [if_pos hout, if_neg heq, if_pos hout]
    · rw [if_neg hout, if_neg heq, if_neg hout, if_neg]
      exact fun hc => heq (Tcq.index_inj (by omega) (by omega) hc)

theorem setLast_eq_setItem {tcq : Tcq α} (hw : tcq.WF) (h : 0 < tcq.len) (tc : α) :
    tcq.setLast tc = tcq.setItem (tcq.len - 1) tc := by
  unfold Tcq.setLast Tcq.setItem
  rw [hw.lastIndex_eq h]

end SoemMotion
