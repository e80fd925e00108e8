import SoemMotion.Lib.Machine
import SoemMotion.PooledQueue

/-!
# Runs of the queues on a pool

Between two calls no node is in hand: the free list and the lists of the queues hold all nodes (`AtRest`).  The calls
answer as lists of data with a common capacity do (`Fifos`), so that what a queue delivers is what it has accepted, in
the same order (`pooledQueues_fifo`).
-/

namespace SoemMotion

open Lib

variable {ι α : Type} {m : QueueMemory ι α} {spare : List NodeAddr} {nodes : ι → List NodeAddr} {q : ι} {a : NodeAddr}

/-- The free nodes and the nodes of the queues are all nodes, each once, and nobody has a lock. -/
structure QueueMemory.AtRest (m : QueueMemory ι α) (spare : List NodeAddr) (nodes : ι → List NodeAddr) : Prop where
  free : Chain m.pool.next m.pool.freeList spare
  queue : ∀ q, Fifo m.pool.next (m.queue q).front (m.queue q).rear (nodes q)
  parts : Parts fun k : Option ι => k.elim spare nodes
  poolLock : m.pool.lock = false
  queueLock : ∀ q, (m.queue q).lock = false

/-- Nobody has a node in hand. -/
theorem QueueMemory.atRest_iff {τ : Type} : m.AtRest spare nodes ↔ m.Holds spare nodes fun _ : τ => none := by
  have hparts : (Parts fun k : Option ι => k.elim spare nodes) ↔ Parts (shares spare nodes fun _ : τ => none) := by
    have hf : Function.Injective fun k : Option ι => k.elim (Owner.pool : Owner ι τ) .queue := by
      intro k k' h
      cases k <;> cases k' <;> simp_all
    rw [← Parts.reindex hf]
    · have hlists : (fun k : Option ι => k.elim spare nodes) = fun k : Option ι =>
          shares spare nodes (fun _ : τ => none) (k.elim (Owner.pool : Owner ι τ) .queue) := by
        funext k
        cases k <;> rfl
      rw [hlists]
    · intro k hk
      cases k with
      | pool => exact absurd rfl (hk none)
      | queue q => exact absurd rfl (hk (some q))
      | hand t => rfl
  constructor
  · rintro ⟨hfree, hqueue, h, hpool, hlock⟩
    exact ⟨hfree, hqueue, hparts.1 h, hpool, hlock⟩
  · rintro ⟨hfree, hqueue, h, hpool, hlock⟩
    exact ⟨hfree, hqueue, hparts.2 h, hpool, hlock⟩

theorem hands_empty (a : NodeAddr) :
    Function.update (Function.update (fun _ : Unit => none) () (some a)) () none = fun _ : Unit => none := by
  funext t
  rfl

/-- `queue_isEmpty` says whether the queue has no node. -/
theorem QueueMemory.AtRest.isEmpty_iff (h : m.AtRest spare nodes) (q : ι) :
    queueIsEmpty (m.queue q) = true ↔ nodes q = [] := by
  unfold queueIsEmpty
  rw [Option.isNone_iff_eq_none]
  exact (h.queue q).front_none_iff

/-! ### The start -/

/-- The pool and the queues on it have been initialised, whatever was in the memory. -/
def QueueMemory.start (m : QueueMemory ι α) : QueueMemory ι α :=
  { pool := poolInit m.pool, queue := fun q => queueInit (m.queue q) }

/-- Each node is pushed on the free list. -/
theorem poolInit_loop (is : List NodeAddr) (hnodup : is.Nodup) {pool : NodePool α} {l : List NodeAddr}
    (h : Chain pool.next pool.freeList l) (hdisjoint : ∀ i ∈ is, i ∉ l) :
    ∃ pool', is.foldl (fun pool i => { pool.setNext i pool.freeList with freeList := some i }) pool = pool' ∧
      Chain pool'.next pool'.freeList (is.reverse ++ l) ∧ pool'.lock = pool.lock := by
  induction is generalizing pool l with
  | nil => exact ⟨_, rfl, h, rfl⟩
  | cons i is ih =>
    obtain ⟨hi, his⟩ := List.nodup_cons.1 hnodup
    have hpush : Chain (pool.setNext i pool.freeList).next (some i) (i :: l) := by
      rw [NodePool.setNext_next]
      exact h.push (hdisjoint i List.mem_cons_self)
    obtain ⟨pool', hpool', hchain, hlock⟩ :=
      @ih his { pool.setNext i pool.freeList with freeList := some i } _ hpush (by
        intro j hj hmem
        rcases List.mem_cons.1 hmem with rfl | hmem
        · exact hi hj
        · exact hdisjoint j (List.mem_cons_of_mem _ hj) hmem)
    refine ⟨pool', hpool', ?_, hlock⟩
    simpa using hchain

theorem poolInit_chain (pool : NodePool α) :
    Chain (poolInit pool).next (poolInit pool).freeList (List.finRange poolSize).reverse ∧
      (poolInit pool).lock = false := by
  obtain ⟨pool', hpool', hchain, hlock⟩ := @poolInit_loop α (List.finRange poolSize) (List.nodup_finRange poolSize)
    { pool with freeList := none, lock := false } [] .nil fun _ _ => List.not_mem_nil
  rw [List.append_nil] at hchain
  unfold poolInit
  rw [hpool']
  exact ⟨hchain, hlock⟩

/-- After the start all nodes are free. -/
theorem QueueMemory.start_atRest (m : QueueMemory ι α) :
    m.start.AtRest (List.finRange poolSize).reverse fun _ => [] := by
  obtain ⟨hchain, hlock⟩ := poolInit_chain m.pool
  have hpool : m.start.pool = poolInit m.pool := by rw [QueueMemory.start]
  rw [← hpool] at hchain hlock
  refine ⟨hchain, fun q => Fifo.nil, ?_, hlock, fun q => rfl⟩
  have hnodup : (List.finRange poolSize).reverse.Nodup := List.nodup_reverse.2 (List.nodup_finRange poolSize)
  have hall : ∀ a, a ∈ (List.finRange poolSize).reverse := fun a => List.mem_reverse.2 (List.mem_finRange a)
  generalize (List.finRange poolSize).reverse = all at hnodup hall
  refine Parts.of_all (k := none) hnodup hall fun k hk => ?_
  cases k with
  | none => exact absurd rfl hk
  | some q => rfl

/-! ### Queues as lists -/

/-- Queues as lists of data, and how many more data they can take together. -/
structure Fifos (ι α : Type) where
  contents : ι → List α
  room : Nat

/-- The nodes of each queue hold its data, and there are as many free nodes as there is room. -/
def QueueMemory.Represents (m : QueueMemory ι α) (f : Fifos ι α) : Prop :=
  ∃ spare nodes, m.AtRest spare nodes ∧ (∀ q, f.contents q = (nodes q).map m.data) ∧ f.room = spare.length

/-- At the start the lists are empty, and take as many data as there are nodes. -/
theorem QueueMemory.start_represents (m : QueueMemory ι α) :
    m.start.Represents { contents := fun _ => [], room := poolSize } := by
  refine ⟨_, _, m.start_atRest, fun q => rfl, ?_⟩
  rw [List.length_reverse, List.length_finRange]

/-! ### One call -/

variable [DecidableEq ι]

/-- Without a free node `enqueue` changes nothing. -/
theorem QueueMemory.AtRest.enqueue_none (h : m.AtRest [] nodes) (q : ι) (data : α) :
    m.enqueue q data = some (false, m) := by
  unfold QueueMemory.enqueue
  rw [((QueueMemory.atRest_iff (τ := Unit)).1 h).alloc_none data]
  rfl

/-- The first free node becomes the last one of the queue. -/
theorem QueueMemory.AtRest.enqueue_some (h : m.AtRest (a :: spare) nodes) (q : ι) (data : α) :
    ∃ m', m.enqueue q data = some (true, m') ∧
      m'.AtRest spare (Function.update nodes q (nodes q ++ [a])) ∧ m'.data = Function.update m.data a data := by
  obtain ⟨m₁, halloc, hholds, hlast, hdata, -⟩ := (QueueMemory.atRest_iff.1 h).alloc_some (t := ()) rfl data
  obtain ⟨m₂, hlink, hholds', hdata', -⟩ := hholds.link_node (t := ()) (by simp) hlast q
  rw [hands_empty] at hholds'
  refine ⟨m₂, ?_, QueueMemory.atRest_iff.2 hholds', hdata'.trans hdata⟩
  unfold QueueMemory.enqueue
  simp [halloc, hlink]

/-- Nothing comes out of an empty queue. -/
theorem QueueMemory.AtRest.dequeue_none (h : m.AtRest spare nodes) (hempty : nodes q = []) :
    m.dequeue q = some (none, m) := by
  unfold QueueMemory.dequeue
  rw [((QueueMemory.atRest_iff (τ := Unit)).1 h).unlink_none hempty]
  rfl

/-- The first node of the queue becomes the first free one, and its data come out. -/
theorem QueueMemory.AtRest.dequeue_some {l : List NodeAddr} (h : m.AtRest spare nodes) (hq : nodes q = a :: l) :
    ∃ m', m.dequeue q = some (some (m.data a), m') ∧ m'.AtRest (a :: spare) (Function.update nodes q l) ∧
      m'.data = m.data := by
  obtain ⟨m₁, hunlink, hholds, hpool⟩ := (QueueMemory.atRest_iff.1 h).unlink_some (t := ()) hq rfl
  obtain ⟨m₂, hfree, hholds', hdata, -⟩ := hholds.free_node (t := ()) (a := a) (by simp)
  rw [hands_empty] at hholds'
  refine ⟨m₂, ?_, QueueMemory.atRest_iff.2 hholds', ?_⟩
  · unfold QueueMemory.dequeue
    simp [hunlink, hfree]
  · rw [hdata]
    unfold QueueMemory.data
    rw [hpool]

/-! ### Calls -/

inductive QueueCall (ι α : Type)
  | enqueue (q : ι) (data : α)
  | dequeue (q : ι)

/-- What `enqueue` returns; what `dequeue` sets `*data` to, if it returns 1. -/
inductive QueueAnswer (α : Type)
  | enqueued (done : Bool)
  | dequeued (data : Option α)

def QueueCall.call : QueueCall ι α → QueueMemory ι α → Option (QueueAnswer α × QueueMemory ι α)
  | .enqueue q data, m => (m.enqueue q data).map fun (done, m) => (.enqueued done, m)
  | .dequeue q, m => (m.dequeue q).map fun (data, m) => (.dequeued data, m)

/-- What a call means for lists of data. -/
def QueueCall.onFifos : QueueCall ι α → Fifos ι α → QueueAnswer α × Fifos ι α
  | .enqueue q data, f =>
    if f.room = 0 then (.enqueued false, f)
    else (.enqueued true,
      { contents := Function.update f.contents q (f.contents q ++ [data]), room := f.room - 1 })
  | .dequeue q, f =>
    match f.contents q with
    | [] => (.dequeued none, f)
    | data :: rest => (.dequeued (some data), { contents := Function.update f.contents q rest, room := f.room + 1 })

/-- Each call returns, answers as on the lists, and goes on as on them. -/
theorem QueueCall.call_onFifos (c : QueueCall ι α) {f : Fifos ι α} (h : m.Represents f) :
    ∃ m', c.call m = some ((c.onFifos f).1, m') ∧ m'.Represents (c.onFifos f).2 := by
  obtain ⟨spare, nodes, hrest, hcontents, hroom⟩ := h
  cases c with
  | enqueue q data =>
    cases spare with
    | nil =>
      refine ⟨m, ?_, ?_⟩
      · simp [QueueCall.call, QueueCall.onFifos, hrest.enqueue_none, hroom]
      · simp only [QueueCall.onFifos, hroom, List.length_nil, if_true]
        exact ⟨[], nodes, hrest, hcontents, hroom⟩
    | cons a spare =>
      obtain ⟨m', hcall, hrest', hdata⟩ := hrest.enqueue_some q data
      have hne : f.room ≠ 0 := by simp [hroom]
      -- the data of the other nodes are not written
      have hmap : ∀ q', (nodes q').map m'.data = (nodes q').map m.data := by
        intro q'
        have ha : a ∉ nodes q' :=
          hrest.parts.not_mem (j := none) (k := some q') (a := a) List.mem_cons_self (Option.some_ne_none q')
        refine List.map_congr_left fun b hb => ?_
        rw [hdata, Function.update_of_ne]
        rintro rfl
        exact ha hb
      refine ⟨m', ?_, spare, _, hrest', ?_, ?_⟩
      · simp [QueueCall.call, QueueCall.onFifos, hcall, hne]
      · intro q'
        simp only [QueueCall.onFifos, hne, if_false]
        by_cases hq : q' = q
        · subst hq
          rw [Function.update_self, Function.update_self, List.map_append, hmap, hcontents]
          simp [hdata]
        · simp [hq, hmap, hcontents]
      · simp [QueueCall.onFifos, hroom]
  | dequeue q =>
    cases hq : nodes q with
    | nil =>
      have hempty : f.contents q = [] := by simp [hcontents, hq]
      refine ⟨m, ?_, ?_⟩
      · simp [QueueCall.call, QueueCall.onFifos, hrest.dequeue_none hq, hempty]
      · simp only [QueueCall.onFifos, hempty]
        exact ⟨spare, nodes, hrest, hcontents, hroom⟩
    | cons a l =>
      obtain ⟨m', hcall, hrest', hdata⟩ := hrest.dequeue_some hq
      have hfirst : f.contents q = m.data a :: l.map m.data := by simp [hcontents, hq]
      refine ⟨m', ?_, a :: spare, _, hrest', ?_, ?_⟩
      · simp [QueueCall.call, QueueCall.onFifos, hcall, hfirst]
      · intro q'
        simp only [QueueCall.onFifos, hfirst]
        by_cases hq' : q' = q
        · subst hq'
          simp [hdata]
        · simp [hq', hdata, hcontents]
      · simp [QueueCall.onFifos, hfirst, hroom]

/-! ### Runs -/

/-- What the queue `q` takes in with a call. -/
def QueueCall.accepted (q : ι) : QueueCall ι α × QueueAnswer α → List α
  | (.enqueue q' data, .enqueued true) => if q' = q then [data] else []
  | _ => []

/-- What the queue `q` gives out with a call. -/
def QueueCall.delivered (q : ι) : QueueCall ι α × QueueAnswer α → List α
  | (.dequeue q', .dequeued data) => if q' = q then data.toList else []
  | _ => []

/-- What a list gives out comes off its front, and what it takes in goes to its end. -/
theorem QueueCall.onFifos_contents (c : QueueCall ι α) (f : Fifos ι α) (q : ι) :
    f.contents q ++ accepted q (c, (c.onFifos f).1) = delivered q (c, (c.onFifos f).1) ++ (c.onFifos f).2.contents q := by
  cases c with
  | enqueue q' data =>
    by_cases hroom : f.room = 0
    · simp [onFifos, hroom, accepted, delivered]
    · by_cases hq : q' = q
      · subst hq
        simp [onFifos, hroom, accepted, delivered]
      · simp [onFifos, hroom, accepted, delivered, hq, Ne.symm hq]
  | dequeue q' =>
    cases hcontents : f.contents q' with
    | nil => simp [onFifos, hcontents, accepted, delivered]
    | cons data rest =>
      by_cases hq : q' = q
      · subst hq
        simp [onFifos, hcontents, accepted, delivered]
      · simp [onFifos, hcontents, accepted, delivered, hq, Ne.symm hq]

/-- What a list has given out, and what is left of it, is what it held and what it has taken in. -/
theorem fifos_history (calls : List (QueueCall ι α)) (f : Fifos ι α) (q : ι) :
    f.contents q ++ (calls.zip (answers QueueCall.onFifos calls f).1).flatMap (QueueCall.accepted q) =
      (calls.zip (answers QueueCall.onFifos calls f).1).flatMap (QueueCall.delivered q) ++
        (answers QueueCall.onFifos calls f).2.contents q := by
  induction calls generalizing f with
  | nil => simp [answers]
  | cons c calls ih =>
    simp only [answers, List.zip_cons_cons, List.flatMap_cons]
    rw [← List.append_assoc, QueueCall.onFifos_contents, List.append_assoc, ih, List.append_assoc]

/-- Whatever is called on the queues of a pool, all calls return; what a queue has delivered, and what its nodes hold
after that, is what it has accepted, in this order; the free list and the lists of the queues hold each node of the
pool once; `enqueue` fails exactly if no node is free, and then changes nothing; and the last node is missing exactly
where the first one is. -/
theorem pooledQueues_fifo (m : QueueMemory ι α) (calls : List (QueueCall ι α)) :
    ∃ rs s spare nodes, runCalls QueueCall.call calls m.start = some (rs, s) ∧ s.AtRest spare nodes ∧
      (∀ q, (calls.zip rs).flatMap (QueueCall.accepted q) =
        (calls.zip rs).flatMap (QueueCall.delivered q) ++ (nodes q).map s.data) ∧
      (∀ q, ∃ t, s.dequeue q = some (((nodes q).map s.data).head?, t)) ∧
      (∀ q data, ∃ done t, s.enqueue q data = some (done, t) ∧ (done = false ↔ spare = []) ∧
        (done = false → t = s)) ∧
      ∀ q, (s.queue q).rear = none ↔ (s.queue q).front = none := by
  obtain ⟨s, hrun, spare, nodes, hrest, hcontents, -⟩ :=
    runCalls_answers (fun c _ _ h => QueueCall.call_onFifos c h) calls m.start_represents
  refine ⟨_, s, spare, nodes, hrun, hrest, fun q => ?_, fun q => ?_, fun q data => ?_, fun q => ?_⟩
  · have h := fifos_history calls { contents := fun _ => [], room := poolSize } q
    rwa [hcontents, List.nil_append] at h
  · cases hq : nodes q with
    | nil => exact ⟨s, hrest.dequeue_none hq⟩
    | cons a l =>
      obtain ⟨t, hcall, -⟩ := hrest.dequeue_some hq
      exact ⟨t, hcall⟩
  · cases spare with
    | nil => exact ⟨false, s, hrest.enqueue_none q data, by simp, fun _ => rfl⟩
    | cons a spare =>
      obtain ⟨t, hcall, -⟩ := hrest.enqueue_some q data
      exact ⟨true, t, hcall, by simp, fun h => Bool.noConfusion h⟩
  · exact (hrest.queue q).rear_none_iff

end SoemMotion
