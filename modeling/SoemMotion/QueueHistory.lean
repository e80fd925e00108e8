import SoemMotion.Tcq
import Mathlib.Data.List.Infix

/-!
# Stepping back through the queue

The cells before `start` keep the segments that `tcqPop` has taken, and `tcqBackStep` takes them back, as far as
`rend`.  `tcqPut` looks at `allFull` only: it writes over the history that may still be stepped into, and, as
`tcqBackStep` leaves the flag alone, over the first segment of a queue that it has filled.  As long as every `tcqPut`
finds a cell that is neither queued nor history (`TcqMove.Spares`), the history is intact.
-/

namespace SoemMotion

variable {α : Type}

/-! ### Runs -/

inductive TcqMove (α : Type)
  | put (tc : α)
  | pop
  | backStep

/-- A call, with the segments that have been popped and not been stepped back over, the last one first. -/
def TcqMove.apply : Tcq α × List α → TcqMove α → Tcq α × List α
  | (q, past), .put tc => ((tcqPut q tc).getD q, past)
  | (q, past), .pop => (tcqPop q).elim (q, past) fun q' => (q', q.queue q.start :: past)
  | (q, past), .backStep => (tcqBackStep q).elim (q, past) fun q' => (q', past.tail)

/-- The state after some calls. -/
def tcqMoves (moves : List (TcqMove α)) (s : Tcq α × List α) : Tcq α × List α := moves.foldl TcqMove.apply s

/-- How often `tcqBackStep` succeeds in a row. -/
def Tcq.available (q : Tcq α) : Nat := (q.start + q.size - q.rend) % q.size

/-- The cell of the segment popped `i + 1` pops ago. -/
def Tcq.pastCell (q : Tcq α) (i : Nat) : Nat := (q.start + q.size - 1 - i) % q.size

/-- A step back makes the last segment that was popped the head; no more steps back are possible than segments have
been popped, and than cells hold no queued segment. -/
structure Tcq.Recalls (q : Tcq α) (past : List α) : Prop where
  head : ∀ q', tcqBackStep q = some q' → ∃ tc, past.head? = some tc ∧ tcqItem q' 0 = some tc
  popped : q.available ≤ past.length
  stored : (q.available : Int) ≤ q.size - q.len

/-- A `tcqPut` is refused, or finds a cell that is neither queued nor history. -/
def TcqMove.Spares (q : Tcq α) : TcqMove α → Prop
  | .put _ => q.allFull = false → (q.available : Int) + q.len < q.size
  | _ => True

/-- Every `tcqPut` of a run does. -/
def RunSpares : List (TcqMove α) → Tcq α × List α → Prop
  | [], _ => True
  | c :: moves, s => c.Spares s.1 ∧ RunSpares moves (c.apply s)

/-! ### The history -/

/-- The queue and its history share the ring, and the history is what has been popped. -/
structure Tcq.Keeps (q : Tcq α) (past : List α) : Prop where
  start_lt : q.start < q.size
  rend_lt : q.rend < q.size
  len_nonneg : 0 ≤ q.len
  end_eq : q.end = (q.start + q.len.toNat) % q.size
  full : q.allFull = true → q.len = q.size
  room : (q.available : Int) + q.len ≤ q.size
  known : ∀ i < q.available, past[i]? = some (q.queue (q.pastCell i))

section Keeps

variable {q q' : Tcq α} {past : List α}

theorem tcqCreate_keeps {size : Nat} {tcSpace : Nat → α} (h : tcqCreate size tcSpace = some q) : q.Keeps [] := by
  unfold tcqCreate at h
  split at h
  · cases h
  · rename_i hsize
    cases h
    have hpos : 0 < size := by omega
    have hnone : (tcqInit ⟨tcSpace, size, 0, 0, 0, 0, 0, false⟩ : Tcq α).available = 0 := by
      show (0 + size - 0) % size = 0
      rw [Nat.zero_add, Nat.sub_zero, Nat.mod_self]
    refine ⟨hpos, hpos, le_rfl, ?_, fun hno => absurd hno Bool.false_ne_true, ?_, ?_⟩
    · show 0 = (0 + (0 : Int).toNat) % size
      simp
    · rw [hnone]
      show ((0 : Nat) : Int) + 0 ≤ size
      omega
    · rw [hnone]
      exact fun i hi => absurd hi (Nat.not_lt_zero i)

theorem Tcq.available_lt (hs : q.start < q.size) : q.available < q.size := Nat.mod_lt _ (by omega)

/-- The steps back, without the turn of the ring. -/
theorem Tcq.available_eq (hs : q.start < q.size) (hr : q.rend < q.size) :
    q.available = if q.rend ≤ q.start then q.start - q.rend else q.start + q.size - q.rend := by
  unfold Tcq.available
  split
  · have : q.start + q.size - q.rend = (q.start - q.rend) + q.size := by omega
    rw [this, Nat.add_mod_right, Nat.mod_eq_of_lt (by omega)]
  · exact Nat.mod_eq_of_lt (by omega)

/-- The next cell of a ring, without the modulus. -/
theorem succ_mod_eq {n a : Nat} (ha : a < n) : (a + 1) % n = if a + 1 = n then 0 else a + 1 := by
  split
  · rename_i h
    rw [h, Nat.mod_self]
  · exact Nat.mod_eq_of_lt (by omega)

theorem Tcq.pastCell_eq (hs : q.start < q.size) {i : Nat} (hi : i < q.size) :
    q.pastCell i = if i < q.start then q.start - 1 - i else q.start + q.size - 1 - i := by
  unfold Tcq.pastCell
  split
  · have : q.start + q.size - 1 - i = (q.start - 1 - i) + q.size := by omega
    rw [this, Nat.add_mod_right, Nat.mod_eq_of_lt (by omega)]
  · exact Nat.mod_eq_of_lt (by omega)

theorem Tcq.Keeps.recalls (h : q.Keeps past) : q.Recalls past := by
  have hs := h.start_lt
  have hr := h.rend_lt
  have hroom := h.room
  have hlt := Tcq.available_lt hs
  refine ⟨fun q' hback => ?_, ?_, by omega⟩
  · unfold tcqBackStep at hback
    split at hback
    · cases hback
    · rename_i hne
      cases hback
      have hpos : 0 < q.available := by
        rw [Tcq.available_eq hs hr]
        split <;> omega
      refine ⟨_, ?_, tcqItem_of_lt le_rfl ?_⟩
      · rw [List.head?_eq_getElem?, h.known 0 hpos]
        refine congrArg (fun i => some (q.queue i)) ?_
        show (q.start + q.size - 1 - 0) % q.size = ((q.start + q.size - 1) % q.size + 0) % q.size
        rw [Nat.sub_zero, Nat.add_zero, Nat.mod_mod]
      · show 0 < q.len + 1
        have := h.len_nonneg
        omega
  · by_contra hmore
    have hnone : past[past.length]? = none := List.getElem?_eq_none le_rfl
    rw [h.known past.length (by omega)] at hnone
    cases hnone

/-- The cell that `tcqPut` writes holds no history. -/
theorem Tcq.Keeps.put (h : q.Keeps past) {tc : α} (hspare : (TcqMove.put tc).Spares q) :
    ((tcqPut q tc).getD q).Keeps past := by
  have hs := h.start_lt
  have hlen := h.len_nonneg
  unfold tcqPut
  split
  · exact h
  · rename_i hfull
    have hroom : (q.available : Int) + q.len < q.size := hspare (Bool.eq_false_iff.2 hfull)
    have hend : q.end < q.size := by
      rw [h.end_eq]
      exact Nat.mod_lt _ (by omega)
    have hmod := h.end_eq
    have hnext := succ_mod_eq hend
    rw [Option.getD_some]
    refine ⟨hs, h.rend_lt, ?_, ?_, ?_, ?_, ?_⟩
    · show 0 ≤ q.len + 1
      omega
    · show (q.end + 1) % q.size = (q.start + (q.len + 1).toNat) % q.size
      rw [h.end_eq, Int.toNat_add hlen (by decide), ← Nat.add_assoc, Nat.mod_add_mod]
      rfl
    · intro hflag
      have hmeet : (q.end + 1) % q.size = q.start := beq_iff_eq.1 hflag
      show q.len + 1 = (q.size : Int)
      rw [hmod, Nat.mod_add_mod] at hmeet
      have hcong : q.start + (q.len.toNat + 1) ≡ q.start + 0 [MOD q.size] := by
        show (q.start + (q.len.toNat + 1)) % q.size = (q.start + 0) % q.size
        rw [← Nat.add_assoc, hmeet, Nat.add_zero, Nat.mod_eq_of_lt hs]
      have hdvd : q.size ∣ q.len.toNat + 1 := (Nat.modEq_zero_iff_dvd).1 (Nat.ModEq.add_left_cancel' q.start hcong)
      have hle := Nat.le_of_dvd (Nat.succ_pos _) hdvd
      omega
    · show ((q.available : Nat) : Int) + (q.len + 1) ≤ q.size
      omega
    · intro i hi
      have hi' : i < q.available := hi
      have hlt := Tcq.available_lt hs
      rw [h.known i hi']
      show _ = some (if q.pastCell i = q.end then tc else q.queue (q.pastCell i))
      -- the cell that is written is none of the spent ones
      have hne : q.pastCell i ≠ q.end := by
        intro heq
        have hcong : q.start + (q.size - 1 - i) ≡ q.start + q.len.toNat [MOD q.size] := by
          show (q.start + (q.size - 1 - i)) % q.size = (q.start + q.len.toNat) % q.size
          rw [← h.end_eq, ← heq]
          unfold Tcq.pastCell
          congr 1
          omega
        have := (Nat.ModEq.add_left_cancel' q.start hcong).eq_of_lt_of_lt (by omega) (by omega)
        omega
      rw [if_neg hne]

/-- A segment that is popped joins the history. -/
theorem Tcq.Keeps.pop (h : q.Keeps past) (hpop : tcqPop q = some q') : q'.Keeps (q.queue q.start :: past) := by
  have hs := h.start_lt
  have hr := h.rend_lt
  have hroom := h.room
  have hlen := h.len_nonneg
  have havail := Tcq.available_eq hs hr
  have hlow : 1 ≤ q.len := by
    unfold tcqPop at hpop
    split at hpop
    · cases hpop
    · rename_i hc
      by_contra hlt
      have hflag : q.allFull = true := by
        rw [Bool.and_eq_true, decide_eq_true_eq, Bool.not_eq_true', not_and, Bool.not_eq_false] at hc
        exact hc (by omega)
      have := h.full hflag
      omega
  have hstart := succ_mod_eq hs
  have hrend := succ_mod_eq hr
  -- either the history grows by one, or its last segment is given up
  have key : ∀ p : Tcq α, p.queue = q.queue → p.size = q.size → p.start = (q.start + 1) % q.size → p.len = q.len - 1 →
      p.end = q.end → p.allFull = false → (p.rend = q.rend ∨ p.rend = (q.rend + 1) % q.size) →
      p.Keeps (q.queue q.start :: past) := by
    intro p hqueue hsize hpstart hplen hpend hflag hprend
    have hps : p.start < p.size := by
      rw [hpstart, hsize]
      exact Nat.mod_lt _ (by omega)
    have hpr : p.rend < p.size := by
      rcases hprend with hprend | hprend
      · rw [hprend, hsize]
        exact hr
      · rw [hprend, hsize]
        exact Nat.mod_lt _ (by omega)
    have hpavail := Tcq.available_eq hps hpr
    have hmost : p.available ≤ q.available + 1 := by
      rw [hpavail, havail, hpstart, hsize, hstart]
      rcases hprend with hprend | hprend
      · rw [hprend]
        split_ifs <;> omega
      · rw [hprend, hrend]
        split_ifs <;> omega
    refine ⟨hps, hpr, by omega, ?_, fun hno => absurd (hflag.symm.trans hno) Bool.false_ne_true, by omega, ?_⟩
    · rw [hpend, h.end_eq, hpstart, hsize, hplen, Nat.mod_add_mod]
      congr 1
      omega
    · intro i hi
      have hlt := Tcq.available_lt hps
      have hcell := Tcq.pastCell_eq hps (Nat.lt_trans hi hlt)
      rw [hqueue]
      cases i with
      | zero =>
        have hsame : p.pastCell 0 = q.start := by
          rw [hcell, hpstart, hsize, hstart]
          split_ifs <;> omega
        rw [hsame]
        rfl
      | succ i =>
        have hsame : p.pastCell (i + 1) = q.pastCell i := by
          rw [hcell, Tcq.pastCell_eq hs (by omega), hpstart, hsize, hstart]
          split_ifs <;> omega
        rw [hsame, List.getElem?_cons_succ]
        exact h.known i (by omega)
  unfold tcqPop at hpop
  split at hpop
  · cases hpop
  · split at hpop <;> cases hpop
    · exact key _ rfl rfl rfl rfl rfl rfl (.inl rfl)
    · exact key _ rfl rfl rfl rfl rfl rfl (.inr rfl)

/-- A segment that is stepped back over leaves the history. -/
theorem Tcq.Keeps.backStep (h : q.Keeps past) (hback : tcqBackStep q = some q') : q'.Keeps past.tail := by
  have hs := h.start_lt
  have hr := h.rend_lt
  have hroom := h.room
  have hlen := h.len_nonneg
  have havail := Tcq.available_eq hs hr
  unfold tcqBackStep at hback
  split at hback
  · cases hback
  · rename_i hne
    cases hback
    obtain ⟨p, hp⟩ : ∃ p : Tcq α, p = { q with
      start := (q.start + q.size - 1) % q.size, len := q.len + 1, rlen := q.rlen - 1 } := ⟨_, rfl⟩
    have hstart : p.start = if 0 < q.start then q.start - 1 else q.size - 1 := by
      rw [hp]
      show (q.start + q.size - 1) % q.size = _
      split
      · have : q.start + q.size - 1 = (q.start - 1) + q.size := by omega
        rw [this, Nat.add_mod_right, Nat.mod_eq_of_lt (by omega)]
      · have hzero : q.start = 0 := by omega
        rw [hzero, Nat.zero_add, Nat.mod_eq_of_lt (by omega)]
    have hsize : p.size = q.size := by rw [hp]
    have hrend : p.rend = q.rend := by rw [hp]
    have hps : p.start < p.size := by
      rw [hstart, hsize]
      split <;> omega
    -- the step takes one of the spent cells back into the queue
    have hless : p.available + 1 = q.available := by
      rw [Tcq.available_eq hps (by omega), havail, hstart, hsize, hrend]
      split_ifs <;> omega
    rw [← hp]
    refine ⟨hps, by omega, ?_, ?_, fun hflag => ?_, ?_, fun i hi => ?_⟩
    · rw [hp]
      show 0 ≤ q.len + 1
      omega
    · rw [hp]
      show q.end = ((q.start + q.size - 1) % q.size + (q.len + 1).toNat) % q.size
      have hsum : q.start + q.size - 1 + (q.len + 1).toNat = (q.start + q.len.toNat) + q.size := by omega
      rw [Nat.mod_add_mod, hsum, Nat.add_mod_right]
      exact h.end_eq
    · have hfull : q.allFull = true := by rw [hp] at hflag; exact hflag
      have := h.full hfull
      omega
    · have hplen : p.len = q.len + 1 := by rw [hp]
      omega
    · have hlt := Tcq.available_lt hs
      have hsame : p.pastCell i = q.pastCell (i + 1) := by
        rw [Tcq.pastCell_eq hps (by omega), Tcq.pastCell_eq hs (by omega), hstart, hsize]
        split_ifs <;> omega
      have hqueue : p.queue = q.queue := by rw [hp]
      rw [hsame, hqueue, List.getElem?_tail]
      exact h.known (i + 1) (by omega)

theorem TcqMove.apply_keeps (c : TcqMove α) (h : q.Keeps past) (hspare : c.Spares q) :
    (c.apply (q, past)).1.Keeps (c.apply (q, past)).2 := by
  cases c with
  | put tc => exact h.put hspare
  | pop =>
    unfold TcqMove.apply
    dsimp only
    cases hpop : tcqPop q with
    | none => exact h
    | some q' => exact h.pop hpop
  | backStep =>
    unfold TcqMove.apply
    dsimp only
    cases hback : tcqBackStep q with
    | none => exact h
    | some q' => exact h.backStep hback

/-- A `tcqPut` that finds no such cell leaves fewer cells than steps back. -/
theorem TcqMove.apply_not_stored (c : TcqMove α) (hspare : ¬ c.Spares q) :
    ¬ (c.apply (q, past)).1.Recalls (c.apply (q, past)).2 := by
  cases c with
  | put tc =>
    intro hrecalls
    refine hspare fun hflag => ?_
    have hput : (tcqPut q tc).getD q = { q with
        queue := fun i => if i = q.end then tc else q.queue i, len := q.len + 1
        «end» := (q.end + 1) % q.size, allFull := (q.end + 1) % q.size == q.start } := by
      unfold tcqPut
      rw [if_neg (by rw [hflag]; exact Bool.false_ne_true)]
      rfl
    have hstored := hrecalls.stored
    show (q.available : Int) + q.len < q.size
    change (((tcqPut q tc).getD q).available : Int) ≤
    ((tcqPut q tc).getD q).size - ((tcqPut q tc).getD q).len at hstored
    rw [hput] at hstored
    have hcount : (q.available : Int) ≤ q.size - (q.len + 1) := hstored
    omega
  | pop => exact absurd trivial hspare
  | backStep => exact absurd trivial hspare

end Keeps

/-- In a queue that keeps its history, it stays intact in every state of a run exactly if every `tcqPut` of the run
spares it. -/
theorem moves_recall_iff (moves : List (TcqMove α)) {s : Tcq α × List α} (h : s.1.Keeps s.2) :
    (∀ pre, pre <+: moves → (tcqMoves pre s).1.Recalls (tcqMoves pre s).2) ↔ RunSpares moves s := by
  induction moves generalizing s with
  | nil =>
    refine ⟨fun _ => trivial, fun _ pre hpre => ?_⟩
    rw [List.prefix_nil.1 hpre]
    exact h.recalls
  | cons c moves ih =>
    constructor
    · intro hall
      have hspare : c.Spares s.1 := by
        by_contra hno
        exact c.apply_not_stored hno (hall [c] ((List.prefix_cons_inj c).2 List.nil_prefix))
      refine ⟨hspare, (ih (c.apply_keeps h hspare)).1 fun pre hpre => ?_⟩
      exact hall (c :: pre) ((List.prefix_cons_inj c).2 hpre)
    · rintro ⟨hspare, hrest⟩ pre hpre
      rcases List.prefix_cons_iff.1 hpre with rfl | ⟨rest, rfl, hpre'⟩
      · exact h.recalls
      · exact (ih (c.apply_keeps h hspare)).2 hrest rest hpre'

/-- From an empty queue of any size, the history is intact in every state of a run exactly if every `tcqPut` that is
not refused finds a cell that is neither queued nor history. -/
theorem queueHistory_iff {size : Nat} {tcSpace : Nat → α} {q : Tcq α} (h : tcqCreate size tcSpace = some q)
    (moves : List (TcqMove α)) :
    (∀ pre, pre <+: moves → (tcqMoves pre (q, [])).1.Recalls (tcqMoves pre (q, [])).2) ↔ RunSpares moves (q, []) :=
  moves_recall_iff moves (tcqCreate_keeps h)

theorem queueHistory_iff_three :
    (∀ pre, pre <+: [TcqMove.put 7, .put 8, .pop, .put 9, .backStep] →
      (tcqMoves pre (tcqInit ⟨fun _ => 0, 3, 0, 0, 0, 0, 0, false⟩, [])).1.Recalls
        (tcqMoves pre (tcqInit ⟨fun _ => 0, 3, 0, 0, 0, 0, 0, false⟩, [])).2) ↔
    RunSpares [TcqMove.put 7, .put 8, .pop, .put 9, .backStep] (tcqInit ⟨fun _ => 0, 3, 0, 0, 0, 0, 0, false⟩, []) :=
  @queueHistory_iff Nat 3 (fun _ => 0) _ rfl _

/-- In a queue of two segments the third one takes the cell of the first, and the step back finds it there. -/
theorem queueHistory_lost : ∃ q, tcqCreate 2 (fun _ => 0) = some q ∧
    ¬ (tcqMoves [.put 7, .put 8, .pop, .put 9] (q, [])).1.Recalls
    (tcqMoves [.put 7, .put 8, .pop, .put 9] (q, [])).2 := by
  refine ⟨_, rfl, fun hrecalls => ?_⟩
  obtain ⟨tc, hpast, hhead⟩ := hrecalls.head _ rfl
  have hseven : (7 : Nat) = tc := Option.some.inj hpast
  have hnine : (9 : Nat) = tc := Option.some.inj hhead
  omega

end SoemMotion
