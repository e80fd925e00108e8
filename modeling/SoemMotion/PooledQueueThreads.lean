import SoemMotion.PooledQueueRuns

/-!
# Threads that share the queues on a pool

Each call of a thread is a section under the lock of the pool and a section under the lock of a queue, and the sections
of other threads come between them (`QueueThreads.run`).  A node that is in no list is in the hand of exactly one
thread, so none is lost and none is used twice (`queueThreads_fifo`); what comes out of a queue is what has been linked
in, in this order; and no thread waits for ever (`queueThreads_returns`).
-/

namespace SoemMotion

open Lib

variable {ι τ α : Type}

/-- Where a thread is between two sections: in no call; in `enqueue`, with the node it has filled; in `dequeue`, with
the node it has taken out. -/
inductive Control (ι α : Type)
  | idle
  | linking (q : ι) (node : NodeAddr) (data : α)
  | freeing (node : NodeAddr)

def Control.node : Control ι α → Option NodeAddr
  | .idle => none
  | .linking _ node _ => some node
  | .freeing node => some node

structure QueueThreads (ι τ α : Type) where
  memory : QueueMemory ι α
  control : τ → Control ι α

/-- The sections of `enqueue`, and those of `dequeue`. -/
inductive QueueSection (ι α : Type)
  | alloc (q : ι) (data : α)
  | link
  | unlink (q : ι)
  | free

/-- What goes into a queue in a section, or comes out of it. -/
inductive Passage (ι α : Type)
  | none
  | entered (q : ι) (data : α)
  | left (q : ι) (data : α)

/-- The pool and the queues have been initialised, and no thread is in a call. -/
def QueueThreads.start (m : QueueMemory ι α) : QueueThreads ι τ α :=
  { memory := m.start, control := fun _ => .idle }

/-- The nodes in hand are those of the threads, and what a thread links in is filled. -/
structure QueueThreads.Sound (s : QueueThreads ι τ α) (spare : List NodeAddr) (nodes : ι → List NodeAddr) : Prop where
  holds : s.memory.Holds spare nodes fun t => (s.control t).node
  filled : ∀ t q node data, s.control t = .linking q node data →
    s.memory.pool.next node = none ∧ s.memory.data node = data

variable {s s' : QueueThreads ι τ α} {spare : List NodeAddr} {nodes : ι → List NodeAddr} {t : τ} {q : ι}
  {m : QueueMemory ι α}

namespace QueueThreads

theorem start_sound (m : QueueMemory ι α) :
    (start m : QueueThreads ι τ α).Sound (List.finRange poolSize).reverse fun _ => [] := by
  constructor
  · exact QueueMemory.atRest_iff.1 m.start_atRest
  · intro t q node data hc
    cases hc

variable [DecidableEq τ]

def goOn (s : QueueThreads ι τ α) (t : τ) (memory : QueueMemory ι α) (control : Control ι α) :
    QueueThreads ι τ α :=
  { memory := memory, control := Function.update s.control t control }

@[simp] theorem goOn_memory (s : QueueThreads ι τ α) (t : τ) (m : QueueMemory ι α) (c : Control ι α) :
    (s.goOn t m c).memory = m := rfl

/-- A thread goes on, with a filled node in hand if it links one in, and the other threads have what they had. -/
theorem Sound.goOn {spare' : List NodeAddr} {nodes' : ι → List NodeAddr} (h : s.Sound spare nodes) (c : Control ι α)
    (hholds : m.Holds spare' nodes' (Function.update (fun t' => (s.control t').node) t c.node))
    (hsame : ∀ t' b, t' ≠ t → (s.control t').node = some b →
      m.pool.next b = s.memory.pool.next b ∧ m.data b = s.memory.data b)
    (hfilled : ∀ q node data, c = .linking q node data → m.pool.next node = none ∧ m.data node = data) :
    (s.goOn t m c).Sound spare' nodes' := by
  have hnodes : (fun t' => ((s.goOn t m c).control t').node) =
      Function.update (fun t' => (s.control t').node) t c.node := by
    funext t'
    exact Function.apply_update (fun _ => Control.node) s.control t c t'
  constructor
  · rw [hnodes]
    exact hholds
  · intro t' q node data hc
    by_cases ht : t' = t
    · subst ht
      have hself : (s.goOn t' m c).control t' = c := Function.update_self ..
      exact hfilled q node data (hself.symm.trans hc)
    · have hother : (s.goOn t m c).control t' = s.control t' := Function.update_of_ne ht ..
      rw [hother] at hc
      obtain ⟨hnext, hdata⟩ := h.filled t' q node data hc
      obtain ⟨hnext', hdata'⟩ := hsame t' node ht (by rw [hc]; rfl)
      exact ⟨hnext'.trans hnext, hdata'.trans hdata⟩

end QueueThreads

section Runs

variable [DecidableEq ι] [DecidableEq τ]

/-- A section of the thread `t`; a thread that is elsewhere, or waits for a lock, makes no step. -/
def QueueThreads.run : τ × QueueSection ι α → QueueThreads ι τ α → Option (Passage ι α × QueueThreads ι τ α)
  | (t, .alloc q data), s =>
    match s.control t with
    | .idle => (s.memory.alloc data).map fun (node, m) =>
      (.none, s.goOn t m (node.elim .idle fun node => .linking q node data))
    | _ => none
  | (t, .link), s =>
    match s.control t with
    | .linking q node data => (s.memory.link q node).map fun m => (.entered q data, s.goOn t m .idle)
    | _ => none
  | (t, .unlink q), s =>
    match s.control t with
    | .idle => (s.memory.unlink q).map fun (taken, m) =>
      match taken with
      | none => (.none, s.goOn t m .idle)
      | some (node, data) => (.left q data, s.goOn t m (.freeing node))
    | _ => none
  | (t, .free), s =>
    match s.control t with
    | .freeing node => (s.memory.free node).map fun m => (.none, s.goOn t m .idle)
    | _ => none

def Passage.into (q : ι) : Passage ι α → List α
  | .entered q' data => if q' = q then [data] else []
  | _ => []

def Passage.outOf (q : ι) : Passage ι α → List α
  | .left q' data => if q' = q then [data] else []
  | _ => []

/-- The section that the thread comes to next. -/
def QueueSection.fits : QueueSection ι α → Control ι α → Prop
  | .alloc _ _, .idle => True
  | .link, .linking _ _ _ => True
  | .unlink _, .idle => True
  | .free, .freeing _ => True
  | _, _ => False

/-- What is in each queue and has left it is what was in it and has entered it. -/
def Conserves (s : QueueThreads ι τ α) (nodes : ι → List NodeAddr) (r : Passage ι α) (s' : QueueThreads ι τ α)
    (nodes' : ι → List NodeAddr) : Prop :=
  ∀ q, (nodes q).map s.memory.data ++ r.into q = r.outOf q ++ (nodes' q).map s'.memory.data

variable {r : Passage ι α} {e : τ × QueueSection ι α}

namespace QueueThreads

theorem Sound.run_alloc (h : s.Sound spare nodes) (hc : s.control t = .idle) (q : ι) (data : α) :
    ∃ s' spare', run (t, .alloc q data) s = some (.none, s') ∧ s'.Sound spare' nodes ∧
      ∀ q, (nodes q).map s'.memory.data = (nodes q).map s.memory.data := by
  have hhand : (s.control t).node = none := by
    rw [hc]
    rfl
  -- an empty pool gives nothing, any other its head to the hand of the thread
  cases spare with
  | nil =>
    refine ⟨s.goOn t s.memory .idle, [], ?_, h.goOn .idle ?_ (fun _ _ _ _ => ⟨rfl, rfl⟩) ?_, fun _ => rfl⟩
    · simp [run, hc, h.holds.alloc_none]
    · rw [Function.update_eq_self_iff.2 hhand.symm]
      exact h.holds
    · intro _ _ _ heq
      cases heq
  | cons a spare =>
    obtain ⟨m, halloc, hholds, hnext, hdata, hsame⟩ := h.holds.alloc_some (t := t) hhand data
    have hfree : a ∈ shares (a :: spare) nodes (fun t' => (s.control t').node) .pool := List.mem_cons_self
    have hself : m.data a = data := by simp [hdata]
    have hother : ∀ b, b ≠ a → m.data b = s.memory.data b := by
      intro b hb
      simp [hdata, hb]
    refine ⟨s.goOn t m (.linking q a data), spare, ?_, h.goOn _ hholds ?_ ?_, ?_⟩
    · simp [run, hc, halloc]
    · intro t' b _ hb
      have hba : b ≠ a := by
        rintro rfl
        exact h.holds.parts.not_mem (k := .hand t') hfree (by simp) (by simp [shares, hb])
      exact ⟨hsame b hba, hother b hba⟩
    · intro q' node data' heq
      cases heq
      exact ⟨hnext, hself⟩
    · intro q'
      refine List.map_congr_left fun b hb => hother b ?_
      rintro rfl
      exact h.holds.parts.not_mem (j := .pool) (k := .queue q') hfree (by simp) hb

theorem Sound.run_link {node : NodeAddr} {data : α} (h : s.Sound spare nodes) (hc : s.control t = .linking q node data) :
    ∃ s', run (t, .link) s = some (.entered q data, s') ∧
      s'.Sound spare (Function.update nodes q (nodes q ++ [node])) ∧ s'.memory.data = s.memory.data := by
  obtain ⟨hnext, -⟩ := h.filled t q node data hc
  obtain ⟨m, hlink, hholds, hdata, hsame⟩ := h.holds.link_node (t := t) (by rw [hc]; rfl) hnext q
  refine ⟨s.goOn t m .idle, ?_, h.goOn .idle hholds ?_ ?_, hdata⟩
  · simp [run, hc, hlink]
  · intro t' b _ hb
    exact ⟨hsame t' b hb, congrFun hdata b⟩
  · intro _ _ _ heq
    cases heq

theorem Sound.run_unlink (h : s.Sound spare nodes) (hc : s.control t = .idle) (q : ι) :
    ∃ r s' nodes', run (t, .unlink q) s = some (r, s') ∧ s'.Sound spare nodes' ∧ Conserves s nodes r s' nodes' := by
  have hhand : (s.control t).node = none := by
    rw [hc]
    rfl
  cases hq : nodes q with
  | nil =>
    refine ⟨.none, s.goOn t s.memory .idle, nodes, ?_, h.goOn .idle ?_ (fun _ _ _ _ => ⟨rfl, rfl⟩) ?_, ?_⟩
    · simp [run, hc, h.holds.unlink_none hq]
    · rw [Function.update_eq_self_iff.2 hhand.symm]
      exact h.holds
    · intro _ _ _ heq
      cases heq
    · intro q'
      simp [Passage.into, Passage.outOf]
  | cons a l =>
    obtain ⟨m, hunlink, hholds, hpool⟩ := h.holds.unlink_some (t := t) hq hhand
    have hdata : m.data = s.memory.data := by
      unfold QueueMemory.data
      rw [hpool]
    refine ⟨.left q (s.memory.data a), s.goOn t m (.freeing a), _, ?_, h.goOn _ hholds ?_ ?_, ?_⟩
    · simp [run, hc, hunlink]
    · intro t' b _ _
      exact ⟨by rw [hpool], congrFun hdata b⟩
    · intro _ _ _ heq
      cases heq
    · intro q'
      by_cases hq' : q' = q
      · subst hq'
        simp [Passage.into, Passage.outOf, hdata, hq]
      · simp [Passage.into, Passage.outOf, hdata, hq', Ne.symm hq']

theorem Sound.run_free {node : NodeAddr} (h : s.Sound spare nodes) (hc : s.control t = .freeing node) :
    ∃ s', run (t, .free) s = some (.none, s') ∧ s'.Sound (node :: spare) nodes ∧
      s'.memory.data = s.memory.data := by
  obtain ⟨m, hfree, hholds, hdata, hsame⟩ := h.holds.free_node (t := t) (a := node) (by rw [hc]; rfl)
  refine ⟨s.goOn t m .idle, ?_, h.goOn .idle hholds ?_ ?_, hdata⟩
  · simp [run, hc, hfree]
  · intro t' b hne hb
    exact ⟨hsame t' b hne hb, congrFun hdata b⟩
  · intro _ _ _ heq
    cases heq

/-- The section that a thread comes to next returns, and no data are lost. -/
theorem Sound.run_fits (h : s.Sound spare nodes) (hfits : e.2.fits (s.control e.1)) :
    ∃ r s' spare' nodes', run e s = some (r, s') ∧ s'.Sound spare' nodes' ∧ Conserves s nodes r s' nodes' := by
  obtain ⟨t, e⟩ := e
  -- a section fits a thread that has come to it
  cases e with
  | alloc q data =>
    cases hc : s.control t with
    | idle =>
      obtain ⟨s', spare', hrun, hsound, hdata⟩ := h.run_alloc hc q data
      refine ⟨_, s', spare', nodes, hrun, hsound, fun q' => ?_⟩
      simp [Passage.into, Passage.outOf, hdata]
    | linking q' node data' => simp [QueueSection.fits, hc] at hfits
    | freeing node => simp [QueueSection.fits, hc] at hfits
  | link =>
    cases hc : s.control t with
    | idle => simp [QueueSection.fits, hc] at hfits
    | linking q node data =>
      obtain ⟨s', hrun, hsound, hdata⟩ := h.run_link hc
      refine ⟨_, s', spare, _, hrun, hsound, fun q' => ?_⟩
      by_cases hq : q' = q
      · subst hq
        simp [Passage.into, Passage.outOf, hdata, (h.filled t q' node data hc).2]
      · simp [Passage.into, Passage.outOf, hdata, hq, Ne.symm hq]
    | freeing node => simp [QueueSection.fits, hc] at hfits
  | unlink q =>
    cases hc : s.control t with
    | idle =>
      obtain ⟨r, s', nodes', hrun, hsound, hconserves⟩ := h.run_unlink hc q
      exact ⟨r, s', spare, nodes', hrun, hsound, hconserves⟩
    | linking q' node data => simp [QueueSection.fits, hc] at hfits
    | freeing node => simp [QueueSection.fits, hc] at hfits
  | free =>
    cases hc : s.control t with
    | idle => simp [QueueSection.fits, hc] at hfits
    | linking q node data => simp [QueueSection.fits, hc] at hfits
    | freeing node =>
      obtain ⟨s', hrun, hsound, hdata⟩ := h.run_free hc
      refine ⟨_, s', _, nodes, hrun, hsound, fun q' => ?_⟩
      simp [Passage.into, Passage.outOf, hdata]

/-- A thread makes no other section than the next one. -/
theorem fits_of_run (hrun : run e s = some (r, s')) : e.2.fits (s.control e.1) := by
  obtain ⟨t, e⟩ := e
  cases e <;> cases hc : s.control t <;> simp [run, hc, QueueSection.fits] at hrun ⊢

/-- A run keeps what a section keeps. -/
theorem Sound.runCalls {es : List (τ × QueueSection ι α)} {rs : List (Passage ι α)} (h : s.Sound spare nodes)
    (hrun : Lib.runCalls run es s = some (rs, s')) : ∃ spare' nodes', s'.Sound spare' nodes' ∧ ∀ q,
      (nodes q).map s.memory.data ++ rs.flatMap (Passage.into q) =
        rs.flatMap (Passage.outOf q) ++ (nodes' q).map s'.memory.data := by
  induction es generalizing s spare nodes rs with
  | nil =>
    cases hrun
    exact ⟨spare, nodes, h, fun q => by simp⟩
  | cons e es ih =>
    obtain ⟨r, u, rs', hcall, hrest, rfl⟩ := runCalls_cons hrun
    obtain ⟨r', u', spare₁, nodes₁, hcall', hsound, hconserves⟩ := h.run_fits (fits_of_run hcall)
    cases hcall.symm.trans hcall'
    obtain ⟨spare₂, nodes₂, hlast, hhistory⟩ := ih hsound hrest
    refine ⟨spare₂, nodes₂, hlast, fun q => ?_⟩
    rw [List.flatMap_cons, List.flatMap_cons, ← List.append_assoc, hconserves q, List.append_assoc, hhistory q,
      List.append_assoc]

end QueueThreads

/-- In every run of the threads each node is in the free list, in one queue or in the hand of one thread, once; and
what has come out of a queue, and what its nodes hold after that, is what has been linked into it, in this order. -/
theorem queueThreads_fifo (m : QueueMemory ι α) {es : List (τ × QueueSection ι α)} {rs : List (Passage ι α)}
    (hrun : runCalls QueueThreads.run es (QueueThreads.start m) = some (rs, s)) : ∃ spare nodes,
      s.memory.Holds spare nodes (fun t => (s.control t).node) ∧
      ∀ q, rs.flatMap (Passage.into q) = rs.flatMap (Passage.outOf q) ++ (nodes q).map s.memory.data := by
  obtain ⟨spare, nodes, hsound, hhistory⟩ := (QueueThreads.start_sound m).runCalls hrun
  exact ⟨spare, nodes, hsound.holds, fun q => hhistory q⟩

/-- In every run of the threads each of them can make its next section: none waits for ever. -/
theorem queueThreads_returns (m : QueueMemory ι α) {es : List (τ × QueueSection ι α)} {rs : List (Passage ι α)}
    (hrun : runCalls QueueThreads.run es (QueueThreads.start m) = some (rs, s)) (e : τ × QueueSection ι α) :
    (QueueThreads.run e s).isSome = true ↔ e.2.fits (s.control e.1) := by
  obtain ⟨spare, nodes, hsound, -⟩ := (QueueThreads.start_sound m).runCalls hrun
  constructor
  · intro h
    obtain ⟨⟨r, u⟩, hcall⟩ := Option.isSome_iff_exists.1 h
    exact QueueThreads.fits_of_run hcall
  · intro hfits
    obtain ⟨r, u, -, -, hcall, -⟩ := hsound.run_fits hfits
    rw [hcall]
    rfl

/-- Where all threads have returned, the free list and the queues hold all nodes. -/
theorem queueThreads_atRest (m : QueueMemory ι α) {es : List (τ × QueueSection ι α)} {rs : List (Passage ι α)}
    (hrun : runCalls QueueThreads.run es (QueueThreads.start m) = some (rs, s)) (hidle : ∀ t, s.control t = .idle) :
    ∃ spare nodes, s.memory.AtRest spare nodes := by
  obtain ⟨spare, nodes, hholds, -⟩ := queueThreads_fifo m hrun
  have hhands : (fun t => (s.control t).node) = fun _ => none := by
    funext t
    rw [hidle t]
    rfl
  rw [hhands] at hholds
  exact ⟨spare, nodes, QueueMemory.atRest_iff.2 hholds⟩

end Runs

end SoemMotion
