import SoemMotion.Lib.Chain

/-!
# Queues on a node pool

The functions of `rt_queue.c`.  A pool holds `POOL_SIZE` nodes and the list of the free ones; a queue holds the first
and the last of its nodes, and takes its nodes from the pool.  There is one pool, and any number of queues `ι` on it,
so the `pool` of a queue is not kept.  `LOCK` waits for ever where nobody will unlock: a function that gets there does
not return (`none`).

`enqueue` and `dequeue` each consist of two sections under a lock: one on the pool, and one on the queue.  Between them
the node is in no list, in the hand of the caller (`Owner.hand`).  A section hands one node on, and leaves all other
lists as they were.
-/

namespace SoemMotion

open Lib

variable {ι τ α : Type}

/-- `POOL_SIZE`. -/
def poolSize : Nat := 1024

/-- The address of a node of the pool; a pointer to a node is an `Option NodeAddr`. -/
abbrev NodeAddr := Fin poolSize

structure Node (α : Type) where
  data : α
  next : Option NodeAddr

/-- A lock is `true` while it is held. -/
structure NodePool (α : Type) where
  nodes : NodeAddr → Node α
  freeList : Option NodeAddr
  lock : Bool

structure Queue where
  front : Option NodeAddr
  rear : Option NodeAddr
  lock : Bool

namespace NodePool

/-- `LOCK(pool->lock)`. -/
def acquire (pool : NodePool α) : Option (NodePool α) :=
  if pool.lock then none else some { pool with lock := true }

/-- `UNLOCK(pool->lock)`. -/
def release (pool : NodePool α) : NodePool α := { pool with lock := false }

def setNode (pool : NodePool α) (node : NodeAddr) (contents : Node α) : NodePool α :=
  { pool with nodes := Function.update pool.nodes node contents }

/-- `node->next = next`. -/
def setNext (pool : NodePool α) (node : NodeAddr) (next : Option NodeAddr) : NodePool α :=
  pool.setNode node { pool.nodes node with next := next }

def next (pool : NodePool α) (node : NodeAddr) : Option NodeAddr := (pool.nodes node).next

end NodePool

/-- `LOCK(q->lock)`. -/
def Queue.acquire (q : Queue) : Option Queue := if q.lock then none else some { q with lock := true }

/-- `UNLOCK(q->lock)`. -/
def Queue.release (q : Queue) : Queue := { q with lock := false }

/-! ### The functions -/

def poolInit (pool : NodePool α) : NodePool α :=
  (List.finRange poolSize).foldl (fun pool i => { pool.setNext i pool.freeList with freeList := some i })
    { pool with freeList := none, lock := false }

/-- `pool_alloc`: the first free node, or NULL. -/
def poolAlloc (pool : NodePool α) : Option (Option NodeAddr × NodePool α) := do
  let pool ← pool.acquire
  match pool.freeList with
  | some node => return (some node, { pool with freeList := pool.next node }.release)
  | none => return (none, pool.release)

def poolFree (pool : NodePool α) (node : NodeAddr) : Option (NodePool α) := do
  let pool ← pool.acquire
  return { pool.setNext node pool.freeList with freeList := some node }.release

def queueInit (_ : Queue) : Queue := { front := none, rear := none, lock := false }

def queueIsEmpty (q : Queue) : Bool := q.front.isNone

/-- What `enqueue` does under the lock of the queue: link the node in. -/
def linkNode (q : Queue) (pool : NodePool α) (node : NodeAddr) : Option (Queue × NodePool α) := do
  let q ← q.acquire
  match q.rear with
  | some rear => return ({ q with rear := some node }.release, pool.setNext rear (some node))
  | none => return ({ q with front := some node, rear := some node }.release, pool)

/-- What `dequeue` does under the lock of the queue: take the first node out, if there is one. -/
def unlinkNode (q : Queue) (pool : NodePool α) : Option (Option NodeAddr × Queue) := do
  let q ← q.acquire
  match q.front with
  | none => return (none, q.release)
  | some node =>
    let q := { q with front := pool.next node }
    return (some node, (if q.front.isNone then { q with rear := none } else q).release)

/-! What each section comes to where the lock is free. -/

section Unlocked

variable {pool : NodePool α} {queue : Queue} {a b : NodeAddr}

theorem poolAlloc_none (hlock : pool.lock = false) (hfree : pool.freeList = none) :
    poolAlloc pool = some (none, pool) := by
  obtain ⟨nodes, freeList, lock⟩ := pool
  subst hlock hfree
  rfl

theorem poolAlloc_some (hlock : pool.lock = false) (hfree : pool.freeList = some a) :
    poolAlloc pool = some (some a, { pool with freeList := pool.next a }) := by
  obtain ⟨nodes, freeList, lock⟩ := pool
  subst hlock hfree
  rfl

theorem poolFree_eq (hlock : pool.lock = false) :
    poolFree pool a = some { pool.setNext a pool.freeList with freeList := some a } := by
  obtain ⟨nodes, freeList, lock⟩ := pool
  subst hlock
  rfl

theorem linkNode_none (hlock : queue.lock = false) (hrear : queue.rear = none) :
    linkNode queue pool a = some ({ queue with front := some a, rear := some a }, pool) := by
  obtain ⟨front, rear, lock⟩ := queue
  subst hlock hrear
  rfl

theorem linkNode_some (hlock : queue.lock = false) (hrear : queue.rear = some b) :
    linkNode queue pool a = some ({ queue with rear := some a }, pool.setNext b (some a)) := by
  obtain ⟨front, rear, lock⟩ := queue
  subst hlock hrear
  rfl

theorem unlinkNode_none (hlock : queue.lock = false) (hfront : queue.front = none) :
    unlinkNode queue pool = some (none, queue) := by
  obtain ⟨front, rear, lock⟩ := queue
  subst hlock hfront
  rfl

theorem unlinkNode_some (hlock : queue.lock = false) (hfront : queue.front = some a) :
    unlinkNode queue pool = some (some a,
      { queue with front := pool.next a, rear := if pool.next a = none then none else queue.rear }) := by
  obtain ⟨front, rear, lock⟩ := queue
  subst hlock hfront
  unfold unlinkNode Queue.acquire Queue.release
  cases hnext : pool.next a <;> simp [hnext]

end Unlocked

/-- The pool and the queues on it. -/
structure QueueMemory (ι α : Type) where
  pool : NodePool α
  queue : ι → Queue

namespace QueueMemory

variable [DecidableEq ι]

def setQueue (m : QueueMemory ι α) (q : ι) (queue : Queue) : QueueMemory ι α :=
  { m with queue := Function.update m.queue q queue }

/-- `enqueue` until the queue is locked: a free node is filled, and the caller has it. -/
def alloc (m : QueueMemory ι α) (data : α) : Option (Option NodeAddr × QueueMemory ι α) := do
  let (node, pool) ← poolAlloc m.pool
  match node with
  | none => return (none, { m with pool := pool })
  | some node => return (some node, { m with pool := pool.setNode node { data := data, next := none } })

/-- The rest of `enqueue`. -/
def link (m : QueueMemory ι α) (q : ι) (node : NodeAddr) : Option (QueueMemory ι α) := do
  let (queue, pool) ← linkNode (m.queue q) m.pool node
  return { m with pool := pool }.setQueue q queue

/-- `enqueue`; it returns 1 (`true`) if there is a free node. -/
def enqueue (m : QueueMemory ι α) (q : ι) (data : α) : Option (Bool × QueueMemory ι α) := do
  let (node, m) ← m.alloc data
  match node with
  | none => return (false, m)
  | some node => return (true, ← m.link q node)

/-- `dequeue` until the queue is unlocked: the caller has the first node, and what `*data` is set to. -/
def unlink (m : QueueMemory ι α) (q : ι) : Option (Option (NodeAddr × α) × QueueMemory ι α) := do
  let (node, queue) ← unlinkNode (m.queue q) m.pool
  return (node.map fun node => (node, (m.pool.nodes node).data), m.setQueue q queue)

/-- The rest of `dequeue`. -/
def free (m : QueueMemory ι α) (node : NodeAddr) : Option (QueueMemory ι α) := do
  return { m with pool := ← poolFree m.pool node }

/-- `dequeue`; it returns 1 and the data (`some`), or 0 if the queue is empty. -/
def dequeue (m : QueueMemory ι α) (q : ι) : Option (Option α × QueueMemory ι α) := do
  let (taken, m) ← m.unlink q
  match taken with
  | none => return (none, m)
  | some (node, data) => return (some data, ← m.free node)

end QueueMemory

/-! ### Where the nodes are -/

/-- A list of nodes: the free list, the list of a queue, or the node that a caller has. -/
inductive Owner (ι τ : Type)
  | pool
  | queue (q : ι)
  | hand (t : τ)
deriving DecidableEq

def shares (spare : List NodeAddr) (nodes : ι → List NodeAddr) (hands : τ → Option NodeAddr) :
    Owner ι τ → List NodeAddr
  | .pool => spare
  | .queue q => nodes q
  | .hand t => (hands t).toList

def QueueMemory.data (m : QueueMemory ι α) (node : NodeAddr) : α := (m.pool.nodes node).data

/-- The free nodes, the nodes of each queue and the nodes in hand are all nodes, each once, and nobody has a lock. -/
structure QueueMemory.Holds (m : QueueMemory ι α) (spare : List NodeAddr) (nodes : ι → List NodeAddr)
    (hands : τ → Option NodeAddr) : Prop where
  free : Chain m.pool.next m.pool.freeList spare
  queue : ∀ q, Fifo m.pool.next (m.queue q).front (m.queue q).rear (nodes q)
  parts : Parts (shares spare nodes hands)
  poolLock : m.pool.lock = false
  queueLock : ∀ q, (m.queue q).lock = false

section Sections

variable {m : QueueMemory ι α} {spare : List NodeAddr} {nodes : ι → List NodeAddr} {hands : τ → Option NodeAddr}
  {q : ι} {t : τ} {a : NodeAddr} {pool : NodePool α}

theorem shares_pool [DecidableEq ι] [DecidableEq τ] (spare' : List NodeAddr) :
    shares spare' nodes hands = Function.update (shares spare nodes hands) .pool spare' := by
  funext k
  cases k <;> simp [shares]

theorem shares_queue [DecidableEq ι] [DecidableEq τ] (q : ι) (l : List NodeAddr) :
    shares spare (Function.update nodes q l) hands = Function.update (shares spare nodes hands) (.queue q) l := by
  funext k
  cases k with
  | pool => simp [shares]
  | queue q' => by_cases hq : q' = q <;> simp [shares, hq]
  | hand t => simp [shares]

theorem shares_hand [DecidableEq ι] [DecidableEq τ] (t : τ) (x : Option NodeAddr) :
    shares spare nodes (Function.update hands t x) = Function.update (shares spare nodes hands) (.hand t) x.toList := by
  funext k
  cases k with
  | pool => simp [shares]
  | queue q => simp [shares]
  | hand t' => by_cases ht : t' = t <;> simp [shares, ht]

theorem NodePool.setNode_next (contents : Node α) :
    (pool.setNode a contents).next = Function.update pool.next a contents.next := by
  funext b
  by_cases hb : b = a
  · subst hb
    simp [NodePool.setNode, NodePool.next]
  · simp [NodePool.setNode, NodePool.next, hb]

theorem NodePool.setNext_next (x : Option NodeAddr) : (pool.setNext a x).next = Function.update pool.next a x :=
  NodePool.setNode_next _

theorem NodePool.setNext_data (x : Option NodeAddr) (b : NodeAddr) :
    ((pool.setNext a x).nodes b).data = (pool.nodes b).data := by
  by_cases hb : b = a
  · subst hb
    simp [NodePool.setNext, NodePool.setNode]
  · simp [NodePool.setNext, NodePool.setNode, hb]

namespace QueueMemory.Holds

/-- A node in hand is in no list. -/
theorem not_mem_of_hand (h : m.Holds spare nodes hands) (ht : hands t = some a) :
    a ∉ spare ∧ (∀ q, a ∉ nodes q) ∧ ∀ t', t' ≠ t → hands t' ≠ some a := by
  have ha : a ∈ shares spare nodes hands (.hand t) := by simp [shares, ht]
  refine ⟨fun hmem => ?_, fun q hmem => ?_, fun t' hne hmem => ?_⟩
  · exact h.parts.not_mem (j := .hand t) (k := .pool) ha (by simp) hmem
  · exact h.parts.not_mem (j := .hand t) (k := .queue q) ha (by simp) hmem
  · exact h.parts.not_mem (j := .hand t) (k := .hand t') ha (by simpa using hne) (by simp [shares, hmem])

/-- No list changes where a node in hand is written. -/
theorem setNode (h : m.Holds spare nodes hands) (ht : hands t = some a) (contents : Node α) :
    ({ m with pool := m.pool.setNode a contents } : QueueMemory ι α).Holds spare nodes hands := by
  obtain ⟨hfree, hnodes, -⟩ := h.not_mem_of_hand ht
  refine ⟨?_, fun q => ?_, h.parts, h.poolLock, h.queueLock⟩
  · rw [NodePool.setNode_next]
    exact h.free.update hfree
  · rw [NodePool.setNode_next]
    exact (h.queue q).update (hnodes q)

/-- Without a free node `pool_alloc` fails. -/
theorem alloc_none (h : m.Holds [] nodes hands) (data : α) : m.alloc data = some (none, m) := by
  unfold QueueMemory.alloc
  rw [poolAlloc_none h.poolLock (Chain.nil_iff.1 h.free)]
  rfl

variable [DecidableEq ι]

/-- Nothing is taken out of an empty queue. -/
theorem unlink_none (h : m.Holds spare nodes hands) (hempty : nodes q = []) : m.unlink q = some (none, m) := by
  unfold QueueMemory.unlink
  rw [unlinkNode_none (h.queueLock q) ((h.queue q).front_none_iff.2 hempty)]
  simp [QueueMemory.setQueue]

/-- A queue gets a new list, and all other lists are as they were. -/
theorem setQueue {hands' : τ → Option NodeAddr} {queue : Queue} {l : List NodeAddr} (h : m.Holds spare nodes hands)
    (hpool : pool.lock = false) (hfree : Chain pool.next pool.freeList spare) (hlock : queue.lock = false)
    (hqueue : Fifo pool.next queue.front queue.rear l)
    (hothers : ∀ q', q' ≠ q → Fifo pool.next (m.queue q').front (m.queue q').rear (nodes q'))
    (hparts : Parts (shares spare (Function.update nodes q l) hands')) :
    (({ m with pool := pool } : QueueMemory ι α).setQueue q queue).Holds spare (Function.update nodes q l) hands' := by
  refine ⟨hfree, fun q' => ?_, hparts, hpool, fun q' => ?_⟩
  · by_cases hq : q' = q
    · subst hq
      simpa [QueueMemory.setQueue] using hqueue
    · simpa [QueueMemory.setQueue, hq] using hothers q' hq
  · by_cases hq : q' = q
    · subst hq
      simpa [QueueMemory.setQueue] using hlock
    · simpa [QueueMemory.setQueue, hq] using h.queueLock q'

variable [DecidableEq τ]

/-- The first free node is in hand, with the data. -/
theorem alloc_some (h : m.Holds (a :: spare) nodes hands) (ht : hands t = none) (data : α) :
    ∃ m', m.alloc data = some (some a, m') ∧ m'.Holds spare nodes (Function.update hands t (some a)) ∧
      m'.pool.next a = none ∧ m'.data = Function.update m.data a data ∧
      ∀ b, b ≠ a → m'.pool.next b = m.pool.next b := by
  obtain ⟨hlist, hchain⟩ := Chain.cons_iff.1 h.free
  have hparts : Parts (shares spare nodes (Function.update hands t (some a))) := by
    rw [shares_hand, shares_pool spare]
    refine h.parts.move (j := .pool) (k := .hand t) (by simp) (List.Perm.refl _) ?_
    simp [shares, ht]
  have htaken : ({ m with pool := { m.pool with freeList := m.pool.next a } } : QueueMemory ι α).Holds spare nodes
      (Function.update hands t (some a)) := ⟨hchain, h.queue, hparts, h.poolLock, h.queueLock⟩
  have hfilled := htaken.setNode (a := a) (t := t) (by simp) { data := data, next := none }
  refine ⟨_, ?_, hfilled, ?_, ?_, ?_⟩
  · unfold QueueMemory.alloc
    rw [poolAlloc_some h.poolLock hlist]
    rfl
  · rw [NodePool.setNode_next]
    simp
  · funext b
    by_cases hb : b = a
    · subst hb
      simp [QueueMemory.data, NodePool.setNode]
    · simp [QueueMemory.data, NodePool.setNode, hb]
  · intro b hb
    rw [NodePool.setNode_next, Function.update_of_ne hb]
    rfl

/-- The node in hand is the last one of the queue. -/
theorem link_node (h : m.Holds spare nodes hands) (ht : hands t = some a) (hlast : m.pool.next a = none) (q : ι) :
    ∃ m', m.link q a = some m' ∧
      m'.Holds spare (Function.update nodes q (nodes q ++ [a])) (Function.update hands t none) ∧ m'.data = m.data ∧
      ∀ t' b, hands t' = some b → m'.pool.next b = m.pool.next b := by
  obtain ⟨hspare, hnodes, -⟩ := h.not_mem_of_hand ht
  have hparts : Parts (shares spare (Function.update nodes q (nodes q ++ [a])) (Function.update hands t none)) := by
    rw [shares_queue, shares_hand]
    refine h.parts.move (j := .hand t) (k := .queue q) (by simp) ?_ (List.perm_append_singleton a (nodes q))
    simp [shares, ht]
  have hfifo := h.queue q
  unfold QueueMemory.link
  cases hrear : (m.queue q).rear with
  | none =>
    rw [hrear] at hfifo
    obtain ⟨hempty, hsingle⟩ := hfifo.single hlast
    rw [linkNode_none (h.queueLock q) hrear]
    refine ⟨_, rfl, h.setQueue h.poolLock h.free (h.queueLock q) ?_ (fun q' _ => h.queue q') hparts, rfl,
      fun _ _ _ => rfl⟩
    rw [hempty]
    exact hsingle
  | some b =>
    rw [hrear] at hfifo
    -- the last node of the queue is in no other list
    have hb : b ∈ shares spare nodes hands (.queue q) := hfifo.rear_mem
    have hnext : (m.pool.setNext b (some a)).next = Function.update m.pool.next b (some a) := NodePool.setNext_next _
    have hnodup : (nodes q).Nodup := h.parts.nodup (.queue q)
    rw [linkNode_some (h.queueLock q) hrear]
    refine ⟨_, rfl, h.setQueue h.poolLock ?_ (h.queueLock q) ?_ (fun q' hq => ?_) hparts, ?_, ?_⟩
    · rw [hnext]
      exact h.free.update (h.parts.not_mem (j := .queue q) (k := .pool) hb (by simp))
    · rw [hnext]
      exact hfifo.concat hnodup (hnodes q) hlast
    · rw [hnext]
      exact (h.queue q').update (h.parts.not_mem (j := .queue q) (k := .queue q') hb (by simpa using hq))
    · funext c
      exact NodePool.setNext_data _ c
    · intro t' c hc
      have hne : c ≠ b := by
        intro heq
        rw [heq] at hc
        exact h.parts.not_mem (j := .queue q) (k := .hand t') hb (by simp) (by simp [shares, hc])
      show (m.pool.setNext b (some a)).next c = _
      rw [hnext, Function.update_of_ne hne]

/-- The first node of the queue is in hand. -/
theorem unlink_some {l : List NodeAddr} (h : m.Holds spare nodes hands) (hq : nodes q = a :: l) (ht : hands t = none) :
    ∃ m', m.unlink q = some (some (a, m.data a), m') ∧
      m'.Holds spare (Function.update nodes q l) (Function.update hands t (some a)) ∧ m'.pool = m.pool := by
  have hfront : (m.queue q).front = some a := by
    rw [(h.queue q).chain.head?, hq]
    rfl
  have hparts : Parts (shares spare (Function.update nodes q l) (Function.update hands t (some a))) := by
    rw [shares_hand, shares_queue]
    refine h.parts.move (a := a) (j := .queue q) (k := .hand t) (by simp) ?_ ?_
    · simp [shares, hq]
    · simp [shares, ht]
  have hfifo := h.queue q
  rw [hfront, hq] at hfifo
  obtain ⟨l', hl, hpop⟩ := hfifo.pop
  obtain rfl : l = l' := (List.cons.inj hl).2
  unfold QueueMemory.unlink
  rw [unlinkNode_some (h.queueLock q) hfront]
  exact ⟨_, rfl, h.setQueue h.poolLock h.free (h.queueLock q) hpop (fun q' _ => h.queue q') hparts, rfl⟩

/-- The node in hand is the first free one. -/
theorem free_node (h : m.Holds spare nodes hands) (ht : hands t = some a) :
    ∃ m', m.free a = some m' ∧ m'.Holds (a :: spare) nodes (Function.update hands t none) ∧ m'.data = m.data ∧
      ∀ t' b, t' ≠ t → hands t' = some b → m'.pool.next b = m.pool.next b := by
  obtain ⟨hspare, hnodes, hhands⟩ := h.not_mem_of_hand ht
  have hparts : Parts (shares (a :: spare) nodes (Function.update hands t none)) := by
    rw [shares_pool (a :: spare), shares_hand]
    refine h.parts.move (j := .hand t) (k := .pool) (by simp) ?_ (List.Perm.refl _)
    simp [shares, ht]
  have hnext : (m.pool.setNext a m.pool.freeList).next = Function.update m.pool.next a m.pool.freeList :=
    NodePool.setNext_next _
  unfold QueueMemory.free
  rw [poolFree_eq h.poolLock]
  refine ⟨_, rfl, ⟨?_, fun q => ?_, hparts, h.poolLock, h.queueLock⟩, ?_, ?_⟩
  · show Chain (m.pool.setNext a m.pool.freeList).next (some a) (a :: spare)
    rw [hnext]
    exact h.free.push hspare
  · show Fifo (m.pool.setNext a m.pool.freeList).next _ _ _
    rw [hnext]
    exact (h.queue q).update (hnodes q)
  · funext b
    exact NodePool.setNext_data _ b
  · intro t' b hne hb
    have hba : b ≠ a := by
      intro heq
      rw [heq] at hb
      exact hhands t' hne hb
    show (m.pool.setNext a m.pool.freeList).next b = _
    rw [hnext, Function.update_of_ne hba]

end QueueMemory.Holds

end Sections

end SoemMotion
