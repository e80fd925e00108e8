import SoemMotion.Lib.Machine
import SoemMotion.QueueItems

/-!
# The queue as a deque

The functions of `tcq.c` answer as a list of at most `size` segments does (`TcqCall.onList`), as long as `allFull` says
whether the list is full.  Only `tcqPopBack` breaks that: it takes a segment from a full queue and leaves the flag set.
The flag is then stale (`TcqCall.stale`) until `tcqInit` or the next `tcqPop` clears it, and the answers that rest on
it are wrong (`tcq_deque_iff`).
-/

namespace SoemMotion

variable {α : Type}

/-! ### Calls -/

inductive TcqCall (α : Type)
  | init
  | put (tc : α)
  | pop
  | popBack
  | item (n : Int)
  | last
  | len

/-- A status, true for success; a pointer to a segment; a number. -/
inductive TcqAnswer (α : Type)
  | status (done : Bool)
  | found (tc : Option α)
  | count (n : Int)
deriving DecidableEq

def TcqCall.apply : TcqCall α → Tcq α → TcqAnswer α × Tcq α
  | .init, q => (.status true, tcqInit q)
  | .put tc, q => (.status (tcqPut q tc).isSome, (tcqPut q tc).getD q)
  | .pop, q => (.status (tcqPop q).isSome, (tcqPop q).getD q)
  | .popBack, q => (.status (tcqPopBack q).isSome, (tcqPopBack q).getD q)
  | .item n, q => (.found (tcqItem q n), q)
  | .last, q => (.found (tcqLast q), q)
  | .len, q => (.count (tcqLen q), q)

/-- What a call means for a list of at most `size` segments. -/
def TcqCall.onList (size : Nat) : TcqCall α → List α → TcqAnswer α × List α
  | .init, _ => (.status true, [])
  | .put tc, l => if l.length = size then (.status false, l) else (.status true, l ++ [tc])
  | .pop, l => (.status (!l.isEmpty), l.tail)
  | .popBack, l => (.status (!l.isEmpty), l.dropLast)
  | .item n, l => (.found (if n < 0 then none else l[n.toNat]?), l)
  | .last, l => (.found l.getLast?, l)
  | .len, l => (.count l.length, l)

/-- The full flag is stale after the call: the last segment has been taken from the back of a full queue, and the flag
has not been cleared since. -/
def TcqCall.stale (size : Nat) : TcqCall α → List α → Bool → Bool
  | .init, _, _ => false
  | .pop, l, stale => stale && l.isEmpty
  | .popBack, l, stale => stale || l.length == size
  | _, _, stale => stale

/-- The answer to the call rests on the full flag. -/
def TcqCall.readsFlag : TcqCall α → List α → Bool
  | .put _, _ => true
  | .pop, l => l.isEmpty
  | _, _ => false

/-- No call rests on a stale flag. -/
def Fits (size : Nat) : List (TcqCall α) → List α → Bool → Prop
  | [], _, _ => True
  | c :: cs, l, stale => ¬ (stale = true ∧ c.readsFlag l = true) ∧
      Fits size cs (c.onList size l).2 (c.stale size l stale)

/-! ### The queue and its list -/

/-- The queue with a flag that says whether it is full. -/
def Tcq.refresh (q : Tcq α) : Tcq α := { q with allFull := decide (q.len = q.size) }

/-- The queue holds the list, its flag stale or not. -/
structure Tcq.Holds (size : Nat) (q : Tcq α) (l : List α) (stale : Bool) : Prop where
  size_eq : q.size = size
  wf : q.refresh.WF
  items : q.items = l
  flag : q.allFull = (decide (q.len = q.size) || stale)
  stale_lt : stale = true → q.len < q.size

section Holds

variable {size : Nat} {q : Tcq α} {l : List α} {stale : Bool}

theorem Tcq.Holds.len_eq (h : q.Holds size l stale) : q.len = l.length := by
  have hn : 0 ≤ q.len := h.wf.len_nonneg
  rw [← h.items, items_length]
  omega

theorem Tcq.Holds.fresh (h : q.Holds size l false) : q.WF := by
  have heq : q.refresh = q := by
    unfold Tcq.refresh
    have hflag := h.flag
    rw [Bool.or_false] at hflag
    rw [← hflag]
  rw [← heq]
  exact h.wf

theorem Tcq.WF.holds (h : q.WF) (hsize : q.size = size) (hitems : q.items = l) : q.Holds size l false := by
  have hflag : q.allFull = decide (q.len = q.size) := by
    rw [Bool.eq_iff_iff, decide_eq_true_iff]
    exact h.full_iff
  refine ⟨hsize, ?_, hitems, ?_, fun hno => absurd hno Bool.false_ne_true⟩
  · exact ⟨h.start_lt, h.len_nonneg, h.len_le, h.end_eq, decide_eq_true_iff⟩
  · rw [hflag, Bool.or_false]

theorem tcqCreate_holds {tcSpace : Nat → α} (h : tcqCreate size tcSpace = some q) : q.Holds size [] false := by
  obtain ⟨hw, hsize, hlen⟩ := tcqCreate_wf h
  exact hw.holds hsize ((items_nil_iff hw).2 hlen)

theorem tcqInit_holds (h : q.Holds size l stale) : (tcqInit q).Holds size [] false :=
  (tcqInit_wf (Nat.zero_lt_of_lt h.wf.start_lt)).holds h.size_eq (items_init q)

theorem tcqPut_holds (h : q.Holds size l false) (tc : α) :
    ((TcqCall.put tc).apply q).1 = ((TcqCall.put tc).onList size l).1 ∧
      ((TcqCall.put tc).apply q).2.Holds size ((TcqCall.put tc).onList size l).2 false := by
  have hw := h.fresh
  have hlen := h.len_eq
  have hsize := h.size_eq
  unfold TcqCall.apply TcqCall.onList
  dsimp only
  by_cases hfull : q.allFull = true
  · have hnone : tcqPut q tc = none := if_pos hfull
    have hend := hw.full_iff.1 hfull
    rw [hnone, if_pos (by omega)]
    exact ⟨rfl, h⟩
  · obtain ⟨q', hput⟩ : ∃ q', tcqPut q tc = some q' := ⟨_, if_neg hfull⟩
    obtain ⟨hw', hsize', -, -⟩ := tcqPut_wf hw hput
    have hlt := hw.len_lt hfull
    rw [hput, if_neg (by omega)]
    exact ⟨rfl, hw'.holds (hsize'.trans hsize) ((tcqPut_items hw hput).trans (congrArg (· ++ [tc]) h.items))⟩

/-- A segment that is taken from the front clears the flag, stale or not. -/
theorem tcqPop_holds (h : q.Holds size l stale) (hl : l ≠ []) :
    (tcqPop q).isSome = true ∧ ((tcqPop q).getD q).Holds size l.tail false := by
  have hlen := h.len_eq
  have hpos : 0 < l.length := List.length_pos_iff.2 hl
  have hcan : ∀ b : Bool, ¬ (decide (q.len < 1) && !b) = true := by
    intro b
    rw [decide_eq_false (by omega), Bool.false_and]
    exact Bool.false_ne_true
  obtain ⟨q', hpop⟩ : ∃ q', tcqPop q = some q' := by
    unfold tcqPop
    rw [if_neg (hcan q.allFull)]
    split <;> exact ⟨_, rfl⟩
  have hpop' : tcqPop q.refresh = some q' := by
    rw [← hpop]
    unfold tcqPop Tcq.refresh
    rw [if_neg (hcan _), if_neg (hcan _)]
  obtain ⟨hw', hsize', -⟩ := tcqPop_wf h.wf hpop'
  rw [hpop]
  exact ⟨rfl, hw'.holds (hsize'.trans h.size_eq) ((tcqPop_items hpop).trans (congrArg List.tail h.items))⟩

theorem tcqPop_empty (h : q.Holds size [] stale) : (tcqPop q).isSome = stale := by
  have hlen : q.len = 0 := h.len_eq
  have hsize : 0 < q.size := Nat.zero_lt_of_lt h.wf.start_lt
  have hflag : q.allFull = stale := by
    rw [h.flag, decide_eq_false (by omega), Bool.false_or]
  unfold tcqPop
  rw [hflag, decide_eq_true (by omega : q.len < 1), Bool.true_and]
  cases stale with
  | false => rfl
  | true =>
    rw [if_neg (by decide)]
    split <;> rfl

/-- The flag becomes stale if the queue was full. -/
theorem tcqPopBack_holds (h : q.Holds size l stale) :
    ((TcqCall.popBack).apply q).1 = ((TcqCall.popBack).onList size l).1 ∧
      ((TcqCall.popBack).apply q).2.Holds size ((TcqCall.popBack).onList size l).2
      ((TcqCall.popBack).stale size l stale) := by
  have hlen := h.len_eq
  have hsize := h.size_eq
  have hle : q.len ≤ q.size := h.wf.len_le
  have hstart := h.wf.start_lt
  unfold TcqCall.apply TcqCall.onList TcqCall.stale
  dsimp only
  cases l with
  | nil =>
    have hnone : tcqPopBack q = none := if_pos (by rw [hlen, List.length_nil]; decide)
    have hsame : (stale || ([] : List α).length == size) = stale := by
      have hne : (0 == size) = false := by
        rw [beq_eq_false_iff_ne]
        have : q.refresh.size = size := hsize
        omega
      show (stale || 0 == size) = stale
      rw [hne, Bool.or_false]
    rw [hnone, hsame]
    exact ⟨rfl, h⟩
  | cons a l =>
    have hpos : 1 ≤ q.len := by
      rw [hlen, List.length_cons]
      omega
    have hsome : tcqPopBack q = some { q with «end» := (q.end + q.size - 1) % q.size, len := q.len - 1 } :=
      if_neg (by omega)
    rw [hsome, Option.getD_some]
    refine ⟨rfl, hsize, ⟨hstart, ?_, ?_, ?_, ?_⟩, ?_, ?_, ?_⟩
    · show 0 ≤ q.len - 1
      omega
    · show q.len - 1 ≤ (q.size : Int)
      omega
    · exact h.wf.lastIndex_eq (show 0 < q.len by omega)
    · exact decide_eq_true_iff
    · rw [← h.items]
      unfold Tcq.items
      have hnat : (q.len - 1).toNat = q.len.toNat - 1 := by omega
      show (List.range (q.len - 1).toNat).map _ = _
      rw [hnat, List.dropLast_eq_take, List.length_map, List.length_range, ← List.map_take, List.take_range,
        Nat.min_eq_left (Nat.sub_le _ _)]
      rfl
    · show q.allFull = (decide (q.len - 1 = (q.size : Int)) || (stale || (a :: l).length == size))
      rw [decide_eq_false (by omega), Bool.false_or, h.flag, Bool.or_comm]
      congr 1
      rw [Bool.eq_iff_iff, decide_eq_true_iff, beq_iff_eq]
      omega
    · intro _
      show q.len - 1 < (q.size : Int)
      omega

/-- A call that does not rest on a stale flag is answered as the list answers it. -/
theorem TcqCall.apply_holds (c : TcqCall α) (h : q.Holds size l stale)
    (hfits : ¬ (stale = true ∧ c.readsFlag l = true)) :
    (c.apply q).1 = (c.onList size l).1 ∧ (c.apply q).2.Holds size (c.onList size l).2 (c.stale size l stale) := by
  have hlen := h.len_eq
  cases c with
  | init => exact ⟨rfl, tcqInit_holds h⟩
  | put tc =>
    have hfresh : stale = false := Bool.eq_false_iff.2 fun hstale => hfits ⟨hstale, rfl⟩
    subst hfresh
    exact tcqPut_holds h tc
  | pop =>
    cases l with
    | nil =>
      have hfresh : stale = false := Bool.eq_false_iff.2 fun hstale => hfits ⟨hstale, rfl⟩
      subst hfresh
      have hnone : tcqPop q = none := Option.isNone_iff_eq_none.1 (Option.isSome_eq_false_iff.1 (tcqPop_empty h))
      unfold TcqCall.apply
      dsimp only
      rw [hnone]
      exact ⟨rfl, h⟩
    | cons a l =>
      obtain ⟨hsome, hnext⟩ := tcqPop_holds h (List.cons_ne_nil a l)
      unfold TcqCall.apply TcqCall.stale
      dsimp only
      rw [hsome, List.isEmpty_cons, Bool.and_false]
      exact ⟨rfl, hnext⟩
  | popBack => exact tcqPopBack_holds h
  | item n =>
    refine ⟨?_, h⟩
    show TcqAnswer.found (tcqItem q n) = .found (if n < 0 then none else l[n.toNat]?)
    congr 1
    by_cases hn : n < 0
    · rw [if_pos hn]
      exact if_pos (Or.inl hn)
    · rw [if_neg hn, ← h.items, items_getElem?]
      congr 1
      omega
  | last =>
    refine ⟨?_, h⟩
    show TcqAnswer.found (tcqLast q.refresh) = .found l.getLast?
    rw [tcqLast_items h.wf, ← h.items]
    rfl
  | len => exact ⟨congrArg TcqAnswer.count hlen, h⟩

/-- An answer that rests on a stale flag is wrong. -/
theorem TcqCall.apply_stale (c : TcqCall α) (h : q.Holds size l true) (hreads : c.readsFlag l = true) :
    (c.apply q).1 ≠ (c.onList size l).1 := by
  have hlen := h.len_eq
  have hlt := h.stale_lt rfl
  have hsize := h.size_eq
  cases c with
  | put tc =>
    have hfull : q.allFull = true := by rw [h.flag, Bool.or_true]
    have hnone : tcqPut q tc = none := if_pos hfull
    unfold TcqCall.apply TcqCall.onList
    dsimp only
    rw [hnone, if_neg (by omega)]
    intro hno
    cases hno
  | pop =>
    have hnil : l = [] := List.isEmpty_iff.1 hreads
    subst hnil
    unfold TcqCall.apply TcqCall.onList
    dsimp only
    rw [tcqPop_empty h]
    intro hno
    cases hno
  | init | popBack | item | last | len => cases hreads

end Holds

/-! ### Runs -/

/-- From a queue and the list it holds, the calls are answered alike if and only if none rests on a stale flag. -/
theorem answers_iff {size : Nat} (calls : List (TcqCall α)) {q : Tcq α} {l : List α} {stale : Bool}
    (h : q.Holds size l stale) :
    (Lib.answers TcqCall.apply calls q).1 = (Lib.answers (TcqCall.onList size) calls l).1 ↔
    Fits size calls l stale := by
  induction calls generalizing q l stale with
  | nil => exact ⟨fun _ => trivial, fun _ => rfl⟩
  | cons c calls ih =>
    show (c.apply q).1 :: _ = (c.onList size l).1 :: _ ↔ _ ∧ _
    rw [List.cons_eq_cons]
    by_cases hbad : stale = true ∧ c.readsFlag l = true
    · obtain ⟨rfl, hreads⟩ := hbad
      exact ⟨fun heq => absurd heq.1 (c.apply_stale h hreads), fun hfits => absurd ⟨rfl, hreads⟩ hfits.1⟩
    · obtain ⟨hanswer, hnext⟩ := c.apply_holds h hbad
      rw [ih hnext]
      exact ⟨fun heq => ⟨hbad, heq.2⟩, fun hfits => ⟨hanswer, hfits.2⟩⟩

/-- A queue of any size answers every list of calls as the list of its segments does, if and only if no `tcqPut`, and
no `tcqPop` of an empty queue, comes after the last segment of a full queue has been taken from the back and before the
flag is cleared. -/
theorem tcq_deque_iff {size : Nat} {tcSpace : Nat → α} {q : Tcq α} (h : tcqCreate size tcSpace = some q)
    (calls : List (TcqCall α)) :
    (Lib.answers TcqCall.apply calls q).1 = (Lib.answers (TcqCall.onList size) calls []).1 ↔ Fits size calls [] false :=
  answers_iff calls (tcqCreate_holds h)

theorem tcq_deque_iff_three :
    (Lib.answers TcqCall.apply [.put 7, .put 8, .put 9, .put 1, .popBack, .last, .pop, .put 3]
      (tcqInit ⟨fun _ => 0, 3, 0, 0, 0, 0, 0, false⟩)).1 =
      (Lib.answers (TcqCall.onList 3) [.put 7, .put 8, .put 9, .put 1, .popBack, .last, .pop, .put 3] []).1 ↔
    Fits 3 [.put 7, .put 8, .put 9, .put 1, .popBack, .last, .pop, .put 3] [] false :=
  @tcq_deque_iff Nat 3 (fun _ => 0) _ rfl _

/-- A queue of one segment takes no other once its only one has been taken from the back. -/
theorem tcq_not_deque : ∃ q, tcqCreate 1 (fun _ => 0) = some q ∧
    (Lib.answers TcqCall.apply [.put 7, .popBack, .put 8] q).1 ≠
      (Lib.answers (TcqCall.onList 1) [.put 7, .popBack, .put 8] []).1 :=
  ⟨_, rfl, by decide⟩

end SoemMotion
