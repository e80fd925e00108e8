import Mathlib.Logic.Function.Basic
import Mathlib.Tactic.Common
import SoemMotion.HalComponents

/-!
# The table of real-time tasks

`task_new`, `get_task` and `task_delete` of `uspace_rtapi_app.cpp` share `task_array` without a lock: a call claims an
entry by a compare-and-swap, fills its task in private and stores it; a look-up loads the entry first and reads the task
it leads to afterwards.  This module has the accesses, and what holds between any two of them as long as no task is
deleted while its id is looked up.
-/

namespace SoemMotion

open Lib

/-- `MAX_TASKS`. -/
def maxTasks : Nat := 64

/-- `TASK_MAGIC`. -/
def taskMagic : Int := 21979

def enospc : Int := 28

/-- The arguments of `task_new`; pointers are addresses. -/
structure TaskRequest where
  taskcode : Nat
  arg : Nat
  prio : Int
  owner : Int
  stacksize : Nat
  usesFp : Int
  deriving DecidableEq

/-- What `task_new` writes of an `rtapi_task`. -/
structure TaskData where
  magic : Int
  id : Nat
  owner : Int
  usesFp : Int
  arg : Nat
  stacksize : Nat
  taskcode : Nat
  prio : Int
  deriving DecidableEq

/-- A task as its constructor leaves it. -/
def TaskData.zero : TaskData := ⟨0, 0, 0, 0, 0, 0, 0, 0⟩

/-- The assignments of `task_new`, up to that of `magic`. -/
def TaskRequest.fill (req : TaskRequest) (n : Nat) (task : TaskData) : TaskData :=
  { task with
    id := n
    owner := req.owner
    usesFp := req.usesFp
    arg := req.arg
    stacksize := if req.stacksize < 1024 * 1024 then 1024 * 1024 else req.stacksize
    taskcode := req.taskcode
    prio := req.prio }

/-- The task that `task_new` makes of a request in entry `n`. -/
def TaskRequest.task (req : TaskRequest) (n : Nat) : TaskData := { req.fill n .zero with magic := taskMagic }

/-- An entry of `task_array`: null, `TASK_MAGIC_INIT`, or the address of a task. -/
inductive TaskSlot
  | null
  | init
  | task (addr : Nat)
  deriving DecidableEq

/-- What the program looks a task up for: `get_task` itself, or `task_delete`. -/
inductive Lookup
  | get
  | delete
  deriving DecidableEq

/-- Where a call of `task_new`, `get_task` or `task_delete` stands, between its accesses to what is shared. -/
inductive TableCall
  | idle
  /-- `allocate_task_id` is about to try entry `n`. -/
  | search (req : TaskRequest) (n : Nat)
  | create (req : TaskRequest) (n : Nat)
  | fill (req : TaskRequest) (n addr : Nat)
  | mark (req : TaskRequest) (n addr : Nat)
  | publish (req : TaskRequest) (n addr : Nat)
  /-- `get_task` is about to load entry `n`. -/
  | find (use : Lookup) (n : Nat)
  /-- It has loaded the address and is about to read the magic number there. -/
  | check (use : Lookup) (n addr : Nat)
  /-- `task_delete` has found the task and waits for its thread to end. -/
  | join (n addr : Nat)
  | unmark (n addr : Nat)
  | clear (n addr : Nat)
  | free (n addr : Nat)
  deriving DecidableEq

variable {τ : Type}

/-- `task_array`, the memory of the tasks, and the calls of each thread. -/
structure TaskTable (τ : Type) where
  slots : Nat → TaskSlot
  heap : Nat → Option TaskData
  calls : τ → TableCall

namespace TaskTable

def setCall [DecidableEq τ] (s : TaskTable τ) (p : τ) (c : TableCall) : TaskTable τ :=
  { s with calls := Function.update s.calls p c }

def setSlot (s : TaskTable τ) (n : Nat) (slot : TaskSlot) : TaskTable τ :=
  { s with slots := Function.update s.slots n slot }

def setHeap (s : TaskTable τ) (addr : Nat) (task : Option TaskData) : TaskTable τ :=
  { s with heap := Function.update s.heap addr task }

/-- The table before any call. -/
def boot : TaskTable τ := ⟨fun _ => .null, fun _ => none, fun _ => .idle⟩

end TaskTable

/-- A thread calls `task_new`, or looks a task up, or goes on with its call, which may return. -/
inductive TableEvent (τ : Type)
  | new (p : τ) (req : TaskRequest)
  | lookup (p : τ) (use : Lookup) (id : Int)
  | next (p : τ)
  /-- `get_task` returns an address, or `NULL`. -/
  | found (p : τ) (task : Option Nat)
  | return (p : τ) (answer : Int)

/-- What a call returns that finds no task. -/
def Lookup.missing (use : Lookup) (p : τ) : TableEvent τ :=
  match use with
  | get => .found p none
  | delete => .return p (-einval)

/-- One access of a call to what is shared; `lowest` and `highest` are `prio_lowest()` and `rtapi_prio_highest()`. -/
inductive TableStep [DecidableEq τ] (lowest highest : Int) : TaskTable τ → TableEvent τ → TaskTable τ → Prop
  | new {s : TaskTable τ} {p : τ} (req : TaskRequest) (hidle : s.calls p = .idle)
      (hprio : ¬ (highest < req.prio ∨ req.prio < lowest)) :
      TableStep lowest highest s (.new p req) (s.setCall p (.search req 0))
  | refused {s : TaskTable τ} {p : τ} (req : TaskRequest) (hidle : s.calls p = .idle)
      (hprio : highest < req.prio ∨ req.prio < lowest) : TableStep lowest highest s (.return p (-einval)) s
  | claim {s : TaskTable τ} {p : τ} {req : TaskRequest} {n : Nat} (hcall : s.calls p = .search req n)
      (hn : n < maxTasks) (hnull : s.slots n = .null) :
      TableStep lowest highest s (.next p) ((s.setSlot n .init).setCall p (.create req n))
  | taken {s : TaskTable τ} {p : τ} {req : TaskRequest} {n : Nat} (hcall : s.calls p = .search req n)
      (hn : n < maxTasks) (htaken : s.slots n ≠ .null) :
      TableStep lowest highest s (.next p) (s.setCall p (.search req (n + 1)))
  | full {s : TaskTable τ} {p : τ} {req : TaskRequest} {n : Nat} (hcall : s.calls p = .search req n)
      (hn : ¬ n < maxTasks) : TableStep lowest highest s (.return p (-enospc)) (s.setCall p .idle)
  | create {s : TaskTable τ} {p : τ} {req : TaskRequest} {n : Nat} (addr : Nat) (hcall : s.calls p = .create req n)
      (hfree : s.heap addr = none) :
      TableStep lowest highest s (.next p) ((s.setHeap addr (some .zero)).setCall p (.fill req n addr))
  | fill {s : TaskTable τ} {p : τ} {req : TaskRequest} {n addr : Nat} {task : TaskData}
      (hcall : s.calls p = .fill req n addr) (hheap : s.heap addr = some task) :
      TableStep lowest highest s (.next p)
        ((s.setHeap addr (some (req.fill n task))).setCall p (.mark req n addr))
  | mark {s : TaskTable τ} {p : τ} {req : TaskRequest} {n addr : Nat} {task : TaskData}
      (hcall : s.calls p = .mark req n addr) (hheap : s.heap addr = some task) :
      TableStep lowest highest s (.next p)
        ((s.setHeap addr (some { task with magic := taskMagic })).setCall p (.publish req n addr))
  | publish {s : TaskTable τ} {p : τ} {req : TaskRequest} {n addr : Nat} (hcall : s.calls p = .publish req n addr) :
      TableStep lowest highest s (.return p n) ((s.setSlot n (.task addr)).setCall p .idle)
  | lookup {s : TaskTable τ} {p : τ} (use : Lookup) (id : Int) (hidle : s.calls p = .idle)
      (hid : ¬ (id < 0 ∨ maxTasks ≤ id)) :
      TableStep lowest highest s (.lookup p use id) (s.setCall p (.find use id.toNat))
  | outside {s : TaskTable τ} {p : τ} (use : Lookup) (id : Int) (hidle : s.calls p = .idle)
      (hid : id < 0 ∨ maxTasks ≤ id) : TableStep lowest highest s (use.missing p) s
  | find {s : TaskTable τ} {p : τ} {use : Lookup} {n addr : Nat} (hcall : s.calls p = .find use n)
      (hslot : s.slots n = .task addr) : TableStep lowest highest s (.next p) (s.setCall p (.check use n addr))
  | missing {s : TaskTable τ} {p : τ} {use : Lookup} {n : Nat} (hcall : s.calls p = .find use n)
      (hslot : ∀ addr, s.slots n ≠ .task addr) : TableStep lowest highest s (use.missing p) (s.setCall p .idle)
  -- memory of a task that has been deleted may hold anything, so both answers are open there
  | unlabelled {s : TaskTable τ} {p : τ} {use : Lookup} {n addr : Nat} (hcall : s.calls p = .check use n addr)
      (hmagic : ∀ task, s.heap addr = some task → task.magic ≠ taskMagic) :
      TableStep lowest highest s (use.missing p) (s.setCall p .idle)
  | get {s : TaskTable τ} {p : τ} {n addr : Nat} (hcall : s.calls p = .check .get n addr)
      (hmagic : ∀ task, s.heap addr = some task → task.magic = taskMagic) :
      TableStep lowest highest s (.found p (some addr)) (s.setCall p .idle)
  | delete {s : TaskTable τ} {p : τ} {n addr : Nat} (hcall : s.calls p = .check .delete n addr)
      (hmagic : ∀ task, s.heap addr = some task → task.magic = taskMagic) :
      TableStep lowest highest s (.next p) (s.setCall p (.join n addr))
  | join {s : TaskTable τ} {p : τ} {n addr : Nat} (hcall : s.calls p = .join n addr) :
      TableStep lowest highest s (.next p) (s.setCall p (.unmark n addr))
  | unmark {s : TaskTable τ} {p : τ} {n addr : Nat} {task : TaskData} (hcall : s.calls p = .unmark n addr)
      (hheap : s.heap addr = some task) :
      TableStep lowest highest s (.next p)
        ((s.setHeap addr (some { task with magic := 0 })).setCall p (.clear n addr))
  | clear {s : TaskTable τ} {p : τ} {n addr : Nat} (hcall : s.calls p = .clear n addr) :
      TableStep lowest highest s (.next p) ((s.setSlot n .null).setCall p (.free n addr))
  | free {s : TaskTable τ} {p : τ} {n addr : Nat} (hcall : s.calls p = .free n addr) :
      TableStep lowest highest s (.return p 0) ((s.setHeap addr none).setCall p .idle)

namespace TableCall

/-- The entry whose task a call looks up or takes away. -/
def uses : TableCall → Option Nat
  | find _ n | check _ n _ | join n _ | unmark n _ | clear n _ => some n
  | idle | search _ _ | create _ _ | fill _ _ _ | mark _ _ _ | publish _ _ _ | free _ _ => none

/-- The entry whose task a call is to take away. -/
def deletes : TableCall → Option Nat
  | find .delete n | check .delete n _ | join n _ | unmark n _ | clear n _ => some n
  | find .get _ | check .get _ _ => none
  | idle | search _ _ | create _ _ | fill _ _ _ | mark _ _ _ | publish _ _ _ | free _ _ => none

end TableCall

/-- No task is looked up that is being deleted, and none is deleted that is being looked up. -/
def Undisturbed (s : TaskTable τ) : TableEvent τ → TaskTable τ → Prop
  | .lookup _ use id, _ => ∀ q, (s.calls q).deletes ≠ some id.toNat ∧
      (use = .delete → (s.calls q).uses ≠ some id.toNat)
  | _, _ => True

/-! ### What holds between the accesses -/

namespace TableCall

/-- The entry that a call has claimed, or whose task it takes away. -/
def entry : TableCall → Option Nat
  | idle | search _ _ | find _ _ | check _ _ _ | free _ _ => none
  | create _ n | fill _ n _ | mark _ n _ | publish _ n _ | join n _ | unmark n _ | clear n _ => some n

/-- The task that a call works on. -/
def addr : TableCall → Option Nat
  | idle | search _ _ | create _ _ | find _ _ | check _ _ _ => none
  | fill _ _ a | mark _ _ a | publish _ _ a | join _ a | unmark _ a | clear _ a | free _ a => some a

/-- That task, as long as no other call can find it. -/
def own : TableCall → Option Nat
  | idle | search _ _ | create _ _ | find _ _ | check _ _ _ | join _ _ | unmark _ _ | clear _ _ => none
  | fill _ _ a | mark _ _ a | publish _ _ a | free _ a => some a

/-- The entry that a call relies on. -/
def slot : TableCall → Option Nat
  | check _ n _ => some n
  | c => c.entry

/-- The task that a call relies on. -/
def memory : TableCall → Option Nat
  | check _ _ a => some a
  | c => c.addr

variable {c : TableCall} {n a : Nat}

theorem addr_of_own (h : c.own = some a) : c.addr = some a := by
  cases c <;> first | exact h | cases h

theorem slot_of_entry (h : c.entry = some n) : c.slot = some n := by
  cases c <;> first | exact h | cases h

theorem memory_of_addr (h : c.addr = some a) : c.memory = some a := by
  cases c <;> first | exact h | cases h

/-- A call relies on an entry that it has claimed, or on one in which it has seen a task. -/
theorem entry_or_check_of_slot (h : c.slot = some n) : c.entry = some n ∨ ∃ use a, c = .check use n a := by
  unfold slot at h
  split at h
  · rename_i use m a
    cases h
    exact .inr ⟨use, a, rfl⟩
  · exact .inl h

theorem addr_or_check_of_memory (h : c.memory = some a) : c.addr = some a ∨ ∃ use n, c = .check use n a := by
  unfold memory at h
  split at h
  · rename_i use n b
    cases h
    exact .inr ⟨use, n, rfl⟩
  · exact .inl h

end TableCall

/-- The priority is one that `task_new` accepts. -/
def TaskRequest.Valid (lowest highest : Int) (req : TaskRequest) : Prop := lowest ≤ req.prio ∧ req.prio ≤ highest

namespace TaskTable

variable {lowest highest : Int} {s s' : TaskTable τ} {p q : τ} {n a : Nat} {req : TaskRequest} {c : TableCall}

/-- No entry leads to the task. -/
def Hidden (s : TaskTable τ) (a : Nat) : Prop := ∀ n, s.slots n ≠ .task a

/-- What a call has made sure of. -/
def Sound (lowest highest : Int) (s : TaskTable τ) : TableCall → Prop
  | .idle | .find _ _ => True
  | .search req _ => req.Valid lowest highest
  | .create req n => req.Valid lowest highest ∧ n < maxTasks ∧ s.slots n = .init
  | .fill req n a =>
    req.Valid lowest highest ∧ n < maxTasks ∧ s.slots n = .init ∧ s.heap a = some .zero ∧ s.Hidden a
  | .mark req n a =>
    req.Valid lowest highest ∧ n < maxTasks ∧ s.slots n = .init ∧ s.heap a = some (req.fill n .zero) ∧ s.Hidden a
  | .publish req n a =>
    req.Valid lowest highest ∧ n < maxTasks ∧ s.slots n = .init ∧ s.heap a = some (req.task n) ∧ s.Hidden a
  | .check _ n a | .join n a | .unmark n a =>
    s.slots n = .task a ∧ ∃ req : TaskRequest, s.heap a = some (req.task n)
  | .clear n a => s.slots n = .task a ∧ ∃ req : TaskRequest, s.heap a = some { req.task n with magic := 0 }
  | .free _ a => (∃ task, s.heap a = some task) ∧ s.Hidden a

/-- What holds between any two accesses: the calls work on different entries and different tasks, a task that is to be
taken away is looked up by no other call, and an entry leads to a complete task, or to one that is being taken away. -/
structure Ok (lowest highest : Int) (s : TaskTable τ) : Prop where
  sound : ∀ p, s.Sound lowest highest (s.calls p)
  entries : ∀ p q n, (s.calls p).entry = some n → (s.calls q).entry = some n → p = q
  addrs : ∀ p q a, (s.calls p).addr = some a → (s.calls q).addr = some a → p = q
  deletions : ∀ p q n, (s.calls p).uses = some n → (s.calls q).deletes = some n → p = q
  stored : ∀ n a, s.slots n = .task a → n < maxTasks ∧ ∃ req : TaskRequest, req.Valid lowest highest ∧
    (s.heap a = some (req.task n) ∨ s.heap a = some { req.task n with magic := 0 } ∧ ∃ p, s.calls p = .clear n a)

/-- What a call has made sure of only depends on what it relies on. -/
theorem Sound.frame (h : s.Sound lowest highest c) (hslot : ∀ n, c.slot = some n → s'.slots n = s.slots n)
    (hheap : ∀ a, c.memory = some a → s'.heap a = s.heap a)
    (hhidden : ∀ a n, c.own = some a → s'.slots n = .task a → s.slots n = .task a) : s'.Sound lowest highest c := by
  have hkeep : ∀ a, c.own = some a → s.Hidden a → s'.Hidden a := fun a ha hs n hn => hs n (hhidden a n ha hn)
  cases c with
  | idle => trivial
  | find use n => trivial
  | search req n => exact h
  | create req n =>
    obtain ⟨hvalid, hn, hinit⟩ := h
    exact ⟨hvalid, hn, (hslot n rfl).trans hinit⟩
  | fill req n a =>
    obtain ⟨hvalid, hn, hinit, hdata, hhid⟩ := h
    exact ⟨hvalid, hn, (hslot n rfl).trans hinit, (hheap a rfl).trans hdata, hkeep a rfl hhid⟩
  | mark req n a =>
    obtain ⟨hvalid, hn, hinit, hdata, hhid⟩ := h
    exact ⟨hvalid, hn, (hslot n rfl).trans hinit, (hheap a rfl).trans hdata, hkeep a rfl hhid⟩
  | publish req n a =>
    obtain ⟨hvalid, hn, hinit, hdata, hhid⟩ := h
    exact ⟨hvalid, hn, (hslot n rfl).trans hinit, (hheap a rfl).trans hdata, hkeep a rfl hhid⟩
  | check use n a =>
    obtain ⟨htask, req, hdata⟩ := h
    exact ⟨(hslot n rfl).trans htask, req, (hheap a rfl).trans hdata⟩
  | join n a =>
    obtain ⟨htask, req, hdata⟩ := h
    exact ⟨(hslot n rfl).trans htask, req, (hheap a rfl).trans hdata⟩
  | unmark n a =>
    obtain ⟨htask, req, hdata⟩ := h
    exact ⟨(hslot n rfl).trans htask, req, (hheap a rfl).trans hdata⟩
  | clear n a =>
    obtain ⟨htask, req, hdata⟩ := h
    exact ⟨(hslot n rfl).trans htask, req, (hheap a rfl).trans hdata⟩
  | free n a =>
    obtain ⟨⟨task, hdata⟩, hhid⟩ := h
    exact ⟨⟨task, (hheap a rfl).trans hdata⟩, hkeep a rfl hhid⟩

/-- The memory that a call relies on is allocated. -/
theorem Sound.allocated (h : s.Sound lowest highest c) (ha : c.memory = some a) : ∃ task, s.heap a = some task := by
  cases c <;> cases ha
  case fill => exact ⟨_, h.2.2.2.1⟩
  case mark => exact ⟨_, h.2.2.2.1⟩
  case publish => exact ⟨_, h.2.2.2.1⟩
  case check => exact ⟨_, h.2.choose_spec⟩
  case join => exact ⟨_, h.2.choose_spec⟩
  case unmark => exact ⟨_, h.2.choose_spec⟩
  case clear => exact ⟨_, h.2.choose_spec⟩
  case free => exact h.1

theorem Sound.hidden (h : s.Sound lowest highest c) (ha : c.own = some a) : s.Hidden a := by
  cases c <;> cases ha
  case fill => exact h.2.2.2.2
  case mark => exact h.2.2.2.2
  case publish => exact h.2.2.2.2
  case free => exact h.2

/-- A call whose task an entry leads to takes away the task of that entry. -/
theorem Sound.reached (h : s.Sound lowest highest c) (ha : c.addr = some a) (hslot : s.slots n = .task a)
    (hid : ∀ task, s.heap a = some task → task.id = n) : c = .join n a ∨ c = .unmark n a ∨ c = .clear n a := by
  cases c <;> cases ha
  case fill => exact absurd hslot (h.2.2.2.2 n)
  case mark => exact absurd hslot (h.2.2.2.2 n)
  case publish => exact absurd hslot (h.2.2.2.2 n)
  case free => exact absurd hslot (h.2 n)
  case join m =>
    obtain ⟨-, req, hdata⟩ := h
    obtain rfl : m = n := hid _ hdata
    exact .inl rfl
  case unmark m =>
    obtain ⟨-, req, hdata⟩ := h
    obtain rfl : m = n := hid _ hdata
    exact .inr (.inl rfl)
  case clear m =>
    obtain ⟨-, req, hdata⟩ := h
    obtain rfl : m = n := hid _ hdata
    exact .inr (.inr rfl)

/-- The task that an entry leads to names the entry. -/
theorem Ok.id (h : s.Ok lowest highest) (hslot : s.slots n = .task a) {task : TaskData} (hdata : s.heap a = some task) :
    task.id = n := by
  obtain ⟨-, req, -, hfull | ⟨hcleared, -⟩⟩ := h.stored n a hslot
  · rw [hfull] at hdata
    cases hdata
    rfl
  · rw [hcleared] at hdata
    cases hdata
    rfl

theorem setSlot_slots (s : TaskTable τ) (n m : Nat) (slot : TaskSlot) :
    (s.setSlot n slot).slots m = if m = n then slot else s.slots m := by
  unfold setSlot
  exact Function.update_apply _ _ _ _

theorem setHeap_heap (s : TaskTable τ) (a b : Nat) (task : Option TaskData) :
    (s.setHeap a task).heap b = if b = a then task else s.heap b := by
  unfold setHeap
  exact Function.update_apply _ _ _ _

/-- A call in `c` would meet none of those of the other threads. -/
structure Apart (s : TaskTable τ) (p : τ) (c : TableCall) : Prop where
  entry : ∀ q n, q ≠ p → c.entry = some n → (s.calls q).entry ≠ some n
  addr : ∀ q a, q ≠ p → c.addr = some a → (s.calls q).addr ≠ some a
  uses : ∀ q n, q ≠ p → c.uses = some n → (s.calls q).deletes ≠ some n
  deletes : ∀ q n, q ≠ p → c.deletes = some n → (s.calls q).uses ≠ some n

/-- A call that keeps what it works on, or gives it up, meets no other one. -/
theorem Ok.apart (h : s.Ok lowest highest) (hentry : c.entry = none ∨ c.entry = (s.calls p).entry)
    (haddr : c.addr = none ∨ c.addr = (s.calls p).addr) (huses : c.uses = none ∨ c.uses = (s.calls p).uses)
    (hdeletes : c.deletes = none ∨ c.deletes = (s.calls p).deletes) : s.Apart p c where
  entry q n hq hc hqn := by
    rcases hentry with he | he
    · cases he.symm.trans hc
    · exact hq (h.entries q p n hqn (he ▸ hc))
  addr q a hq hc hqa := by
    rcases haddr with he | he
    · cases he.symm.trans hc
    · exact hq (h.addrs q p a hqa (he ▸ hc))
  uses q n hq hc hqn := by
    rcases huses with he | he
    · cases he.symm.trans hc
    · exact hq (h.deletions p q n (he ▸ hc) hqn).symm
  deletes q n hq hc hqn := by
    rcases hdeletes with he | he
    · cases he.symm.trans hc
    · exact hq (h.deletions q p n hqn (he ▸ hc))

theorem Ok.apart_idle (h : s.Ok lowest highest) (p : τ) : s.Apart p .idle :=
  h.apart (.inl rfl) (.inl rfl) (.inl rfl) (.inl rfl)

/-- The entries and the memory stay, and the call does not come to the end of a deletion. -/
theorem Ok.stored_same (h : s.Ok lowest highest) (hcall : ∀ n a, s.calls p ≠ .clear n a) {n a : Nat}
    (hslot : s.slots n = .task a) : n < maxTasks ∧ ∃ req : TaskRequest, req.Valid lowest highest ∧
      (s.heap a = some (req.task n) ∨ s.heap a = some { req.task n with magic := 0 } ∧
        (c = .clear n a ∨ ∃ q, q ≠ p ∧ s.calls q = .clear n a)) := by
  obtain ⟨hn, req, hvalid, hfull | ⟨hcleared, q, hq⟩⟩ := h.stored n a hslot
  · exact ⟨hn, req, hvalid, .inl hfull⟩
  · exact ⟨hn, req, hvalid, .inr ⟨hcleared, .inr ⟨q, fun hqp => hcall n a (hqp ▸ hq), hq⟩⟩⟩

/-- The entry that a call relies on is not free. -/
theorem Sound.taken (h : s.Sound lowest highest c) (hn : c.slot = some n) : s.slots n ≠ .null := by
  intro hnull
  cases c <;> cases hn
  case check => cases hnull.symm.trans h.1
  case create => cases hnull.symm.trans h.2.2
  case fill => cases hnull.symm.trans h.2.2.1
  case mark => cases hnull.symm.trans h.2.2.1
  case publish => cases hnull.symm.trans h.2.2.1
  case join => cases hnull.symm.trans h.1
  case unmark => cases hnull.symm.trans h.1
  case clear => cases hnull.symm.trans h.1

/-- A call that has claimed an entry which leads to a task takes that task away. -/
theorem Sound.deleting (h : s.Sound lowest highest c) (hn : c.entry = some n) (hslot : s.slots n = .task a) :
    c = .join n a ∨ c = .unmark n a ∨ c = .clear n a := by
  cases c <;> cases hn
  case create => cases hslot.symm.trans h.2.2
  case fill => cases hslot.symm.trans h.2.2.1
  case mark => cases hslot.symm.trans h.2.2.1
  case publish => cases hslot.symm.trans h.2.2.1
  case join b =>
    cases hslot.symm.trans h.1
    exact .inl rfl
  case unmark b =>
    cases hslot.symm.trans h.1
    exact .inr (.inl rfl)
  case clear b =>
    cases hslot.symm.trans h.1
    exact .inr (.inr rfl)

/-- No entry leads to memory that is not allocated. -/
theorem Ok.hidden_of_free (h : s.Ok lowest highest) (hfree : s.heap a = none) : s.Hidden a := by
  intro m hm
  obtain ⟨-, req, -, hfull | ⟨hcleared, -⟩⟩ := h.stored m a hm
  · rw [hfree] at hfull
    cases hfull
  · rw [hfree] at hcleared
    cases hcleared

variable [DecidableEq τ]

theorem setCall_calls (s : TaskTable τ) (p q : τ) (c : TableCall) :
    (s.setCall p c).calls q = if q = p then c else s.calls q := by
  unfold setCall
  exact Function.update_apply _ _ _ _

/-- Two calls that share nothing still share nothing where the changed one shares nothing with the others. -/
theorem unshared_setCall (s : TaskTable τ) {f g : TableCall → Option Nat}
    (h : ∀ q r n, f (s.calls q) = some n → g (s.calls r) = some n → q = r)
    (hfg : ∀ q n, q ≠ p → f c = some n → g (s.calls q) ≠ some n)
    (hgf : ∀ q n, q ≠ p → g c = some n → f (s.calls q) ≠ some n) (q r : τ) (n : Nat)
    (hq : f ((s.setCall p c).calls q) = some n) (hr : g ((s.setCall p c).calls r) = some n) : q = r := by
  rw [setCall_calls] at hq hr
  split at hq <;> split at hr
  · rename_i hqp hrp
    rw [hqp, hrp]
  · rename_i hrp
    exact absurd hr (hfg r n hrp hq)
  · rename_i hqp _
    exact absurd hq (hgf q n hqp hr)
  · exact h q r n hq hr

/-- A call goes on, if it meets no other one and disturbs none. -/
theorem Ok.goOn (h : s.Ok lowest highest) (hcalls : s'.calls = s.calls) (hself : s'.Sound lowest highest c)
    (hothers : ∀ q, q ≠ p → s'.Sound lowest highest (s.calls q)) (hapart : s.Apart p c)
    (hstored : ∀ n a, s'.slots n = .task a → n < maxTasks ∧ ∃ req : TaskRequest, req.Valid lowest highest ∧
      (s'.heap a = some (req.task n) ∨ s'.heap a = some { req.task n with magic := 0 } ∧
        (c = .clear n a ∨ ∃ q, q ≠ p ∧ s.calls q = .clear n a))) :
    (s'.setCall p c).Ok lowest highest := by
  rw [← hcalls] at hothers
  have hother : ∀ q, q ≠ p → (s'.setCall p c).calls q = s'.calls q := fun q hq => by rw [setCall_calls, if_neg hq]
  have hown : (s'.setCall p c).calls p = c := by rw [setCall_calls, if_pos rfl]
  obtain ⟨hentry, haddr, huses, hdeletes⟩ := hapart
  rw [← hcalls] at hentry haddr huses hdeletes
  refine ⟨fun q => ?_, unshared_setCall s' ?_ hentry hentry, unshared_setCall s' ?_ haddr haddr,
    unshared_setCall s' ?_ huses hdeletes, fun n a hslot => ?_⟩
  · by_cases hq : q = p
    · rw [hq, hown]
      exact hself.frame (fun _ _ => rfl) (fun _ _ => rfl) fun _ _ _ h => h
    · rw [hother q hq]
      exact (hothers q hq).frame (fun _ _ => rfl) (fun _ _ => rfl) fun _ _ _ h => h
  · rw [hcalls]
    exact h.entries
  · rw [hcalls]
    exact h.addrs
  · rw [hcalls]
    exact h.deletions
  · obtain ⟨hn, req, hvalid, hdata⟩ := hstored n a hslot
    refine ⟨hn, req, hvalid, ?_⟩
    rcases hdata with hfull | ⟨hcleared, rfl | ⟨q, hq, hclear⟩⟩
    · exact .inl hfull
    · exact .inr ⟨hcleared, p, hown⟩
    · exact .inr ⟨hcleared, q, (hother q hq).trans (hcalls ▸ hclear)⟩

theorem setCall_setCall (s : TaskTable τ) (p : τ) (c c' : TableCall) :
    (s.setCall p c).setCall p c' = s.setCall p c' := by
  unfold setCall
  rw [Function.update_idem]

/-- A step of a call in its own: only where it stands changes. -/
theorem Ok.turn (h : s.Ok lowest highest) (hself : s.Sound lowest highest c)
    (hcall : ∀ n a, s.calls p ≠ .clear n a) (hapart : s.Apart p c) : (s.setCall p c).Ok lowest highest :=
  h.goOn rfl hself (fun q _ => h.sound q) hapart fun _ _ hslot => h.stored_same hcall hslot

omit [DecidableEq τ] in
/-- The task of a call that no entry leads to is relied on by no other call. -/
theorem Ok.memory_ne (h : s.Ok lowest highest) (hown : (s.calls p).own = some a) (hq : q ≠ p) :
    (s.calls q).memory ≠ some a := by
  intro ha
  rcases TableCall.addr_or_check_of_memory ha with haddr | ⟨use, n, hcall⟩
  · exact hq (h.addrs q p a haddr (TableCall.addr_of_own hown))
  · have hself := h.sound q
    rw [hcall] at hself
    exact (h.sound p).hidden hown n hself.1

/-- A call writes the task that is its own. -/
theorem Ok.write (h : s.Ok lowest highest) (hown : (s.calls p).own = some a) (task : Option TaskData)
    (hself : (s.setHeap a task).Sound lowest highest c) (hapart : s.Apart p c) :
    ((s.setHeap a task).setCall p c).Ok lowest highest := by
  have hnotClear : ∀ n b, s.calls p ≠ .clear n b := by
    intro n b hb
    rw [hb] at hown
    cases hown
  refine h.goOn rfl hself (fun q hq => (h.sound q).frame (fun _ _ => rfl) ?_ fun _ _ _ h => h) hapart ?_
  · intro b hb
    rw [setHeap_heap, if_neg]
    rintro rfl
    exact h.memory_ne hown hq hb
  · intro n b hslot
    rw [setHeap_heap, if_neg]
    · exact h.stored_same hnotClear hslot
    · rintro rfl
      exact (h.sound p).hidden hown n hslot

/-! ### Every access -/

theorem Ok.claim (h : s.Ok lowest highest) (hcall : s.calls p = .search req n) (hn : n < maxTasks)
    (hnull : s.slots n = .null) : ((s.setSlot n .init).setCall p (.create req n)).Ok lowest highest := by
  have hvalid : req.Valid lowest highest := by
    have := h.sound p
    rwa [hcall] at this
  have hnotask : ∀ m a, (s.setSlot n .init).slots m = .task a → s.slots m = .task a := by
    intro m a hm
    rw [setSlot_slots] at hm
    split at hm
    · cases hm
    · exact hm
  have hapart : s.Apart p (.create req n) := by
    refine ⟨fun q m _ hm hq => ?_, (h.apart_idle p).addr, (h.apart_idle p).uses, (h.apart_idle p).deletes⟩
    cases hm
    exact (h.sound q).taken (TableCall.slot_of_entry hq) hnull
  refine h.goOn rfl ⟨hvalid, hn, ?_⟩ (fun q _ => ?_) hapart fun m a hm => ?_
  · rw [setSlot_slots, if_pos rfl]
  · refine (h.sound q).frame (fun m hm => ?_) (fun _ _ => rfl) fun a m _ hm => hnotask m a hm
    rw [setSlot_slots, if_neg]
    rintro rfl
    exact (h.sound q).taken hm hnull
  · exact h.stored_same (fun _ _ => by rw [hcall]; simp) (hnotask m a hm)

theorem Ok.create (h : s.Ok lowest highest) (hcall : s.calls p = .create req n) (hfree : s.heap a = none) :
    ((s.setHeap a (some .zero)).setCall p (.fill req n a)).Ok lowest highest := by
  have hself := h.sound p
  rw [hcall] at hself
  obtain ⟨hvalid, hn, hinit⟩ := hself
  have hhidden := h.hidden_of_free hfree
  have hnew : ∀ q b, (s.calls q).memory = some b → b ≠ a := by
    rintro q b hb rfl
    obtain ⟨task, htask⟩ := (h.sound q).allocated hb
    cases hfree.symm.trans htask
  have hsame : s.Apart p (.create req n) := h.apart (.inr (by rw [hcall])) (.inl rfl) (.inl rfl) (.inl rfl)
  have hapart : s.Apart p (.fill req n a) := by
    refine ⟨hsame.entry, fun q b _ hb hq => ?_, hsame.uses, hsame.deletes⟩
    cases hb
    exact hnew q a (TableCall.memory_of_addr hq) rfl
  refine h.goOn rfl ⟨hvalid, hn, hinit, ?_, hhidden⟩ (fun q _ => ?_) hapart fun m b hm => ?_
  · rw [setHeap_heap, if_pos rfl]
  · refine (h.sound q).frame (fun _ _ => rfl) (fun b hb => ?_) fun _ _ _ hm => hm
    rw [setHeap_heap, if_neg (hnew q b hb)]
  · have hba : b ≠ a := by
      rintro rfl
      exact hhidden m hm
    rw [setHeap_heap, if_neg hba]
    exact h.stored_same (fun _ _ => by rw [hcall]; simp) hm

theorem Ok.publish (h : s.Ok lowest highest) (hcall : s.calls p = .publish req n a) :
    ((s.setSlot n (.task a)).setCall p .idle).Ok lowest highest := by
  have hself := h.sound p
  rw [hcall] at hself
  obtain ⟨hvalid, hn, hinit, hdata, -⟩ := hself
  refine h.goOn rfl trivial (fun q hq => ?_) (h.apart_idle p) fun m b hm => ?_
  · refine (h.sound q).frame (fun m hm => ?_) (fun _ _ => rfl) fun b m hb hm => ?_
    · rw [setSlot_slots, if_neg]
      rintro rfl
      -- nobody can have seen a task in an entry that is still claimed
      rcases TableCall.entry_or_check_of_slot hm with hentry | ⟨use, b, hq'⟩
      · exact hq (h.entries q p m hentry (by rw [hcall]; rfl))
      · have hcheck := h.sound q
        rw [hq'] at hcheck
        cases hinit.symm.trans hcheck.1
    · rw [setSlot_slots] at hm
      split at hm
      · cases hm
        exact absurd (h.addrs q p a (TableCall.addr_of_own hb) (by rw [hcall]; rfl)) hq
      · exact hm
  · rw [setSlot_slots] at hm
    split at hm
    · rename_i hmn
      cases hm
      exact ⟨hmn ▸ hn, req, hvalid, .inl (hmn ▸ hdata)⟩
    · exact h.stored_same (fun _ _ => by rw [hcall]; simp) hm

theorem Ok.lookup (h : s.Ok lowest highest) {use : Lookup} {n : Nat} (hidle : s.calls p = .idle)
    (hfree : ∀ q, (s.calls q).deletes ≠ some n ∧ (use = .delete → (s.calls q).uses ≠ some n)) :
    (s.setCall p (.find use n)).Ok lowest highest := by
  have hsame := h.apart_idle p
  refine h.turn trivial (fun _ _ => by rw [hidle]; simp)
    ⟨hsame.entry, hsame.addr, fun q m _ hm => ?_, fun q m _ hm => ?_⟩
  · cases hm
    exact (hfree q).1
  · cases use <;> cases hm
    exact (hfree q).2 rfl

/-- A task that nobody is about to take away is seen complete. -/
theorem Ok.find (h : s.Ok lowest highest) {use : Lookup} (hcall : s.calls p = .find use n)
    (hslot : s.slots n = .task a) : (s.setCall p (.check use n a)).Ok lowest highest := by
  have hdata : ∃ req : TaskRequest, s.heap a = some (req.task n) := by
    obtain ⟨-, req, -, hfull | ⟨-, q, hq⟩⟩ := h.stored n a hslot
    · exact ⟨req, hfull⟩
    · have hpq := h.deletions p q n (by rw [hcall]; rfl) (by rw [hq]; rfl)
      rw [hpq, hq] at hcall
      cases hcall
  refine h.turn ⟨hslot, hdata⟩ (fun _ _ => by rw [hcall]; simp)
    (h.apart (.inl rfl) (.inl rfl) (.inr (by rw [hcall]; rfl)) (.inr ?_))
  rw [hcall]
  cases use <;> rfl

theorem Ok.delete (h : s.Ok lowest highest) (hcall : s.calls p = .check .delete n a) :
    (s.setCall p (.join n a)).Ok lowest highest := by
  have hself := h.sound p
  rw [hcall] at hself
  obtain ⟨hslot, req, hdata⟩ := hself
  have hnone : ∀ q, q ≠ p → ¬ (s.calls q = .join n a ∨ s.calls q = .unmark n a ∨ s.calls q = .clear n a) := by
    intro q hq hcalls
    refine hq (h.deletions p q n (by rw [hcall]; rfl) ?_).symm
    rcases hcalls with hc | hc | hc <;> rw [hc] <;> rfl
  have hsame : s.Apart p (.check .delete n a) :=
    h.apart (.inl rfl) (.inl rfl) (.inr (by rw [hcall])) (.inr (by rw [hcall]))
  refine h.turn ⟨hslot, req, hdata⟩ (fun _ _ => by rw [hcall]; simp)
    ⟨fun q m hq hm hqm => ?_, fun q b hq hb hqb => ?_, hsame.uses, hsame.deletes⟩
  · cases hm
    exact hnone q hq ((h.sound q).deleting hqm hslot)
  · cases hb
    exact hnone q hq ((h.sound q).reached hqb hslot fun _ => h.id hslot)

theorem Ok.unmark (h : s.Ok lowest highest) (hcall : s.calls p = .unmark n a) {task : TaskData}
    (hdata : s.heap a = some task) :
    ((s.setHeap a (some { task with magic := 0 })).setCall p (.clear n a)).Ok lowest highest := by
  have hself := h.sound p
  rw [hcall] at hself
  obtain ⟨hslot, req, htask⟩ := hself
  cases hdata.symm.trans htask
  have hapart : s.Apart p (.clear n a) := h.apart (.inr (by rw [hcall]; rfl)) (.inr (by rw [hcall]; rfl))
    (.inr (by rw [hcall]; rfl)) (.inr (by rw [hcall]; rfl))
  refine h.goOn rfl ⟨hslot, req, ?_⟩ (fun q hq => ?_) hapart fun m b hm => ?_
  · rw [setHeap_heap, if_pos rfl]
  · refine (h.sound q).frame (fun _ _ => rfl) (fun b hb => ?_) fun _ _ _ hm => hm
    rw [setHeap_heap, if_neg]
    rintro rfl
    rcases TableCall.addr_or_check_of_memory hb with haddr | ⟨use, m, hq'⟩
    · exact hq (h.addrs q p b haddr (by rw [hcall]; rfl))
    · have hcheck := h.sound q
      rw [hq'] at hcheck
      obtain rfl : n = m := h.id hcheck.1 hdata
      exact hq (h.deletions q p n (by rw [hq']; rfl) (by rw [hcall]; rfl))
  · by_cases hb : b = a
    · subst hb
      obtain rfl : n = m := h.id hm hdata
      obtain ⟨hn, req', hvalid, hfull | ⟨hcleared, -⟩⟩ := h.stored n b hm
      · rw [hdata] at hfull
        have htask : req.task n = req'.task n := Option.some.inj hfull
        refine ⟨hn, req', hvalid, .inr ⟨?_, .inl rfl⟩⟩
        rw [setHeap_heap, if_pos rfl, htask]
      · rw [hdata] at hcleared
        cases congrArg TaskData.magic (Option.some.inj hcleared)
    · rw [setHeap_heap, if_neg hb]
      exact h.stored_same (fun _ _ => by rw [hcall]; simp) hm

theorem Ok.clear (h : s.Ok lowest highest) (hcall : s.calls p = .clear n a) :
    ((s.setSlot n .null).setCall p (.free n a)).Ok lowest highest := by
  have hself := h.sound p
  rw [hcall] at hself
  obtain ⟨hslot, req, hdata⟩ := hself
  have hstays : ∀ m b, (s.setSlot n .null).slots m = .task b → m ≠ n ∧ s.slots m = .task b := by
    intro m b hm
    rw [setSlot_slots] at hm
    split at hm
    · cases hm
    · rename_i hmn
      exact ⟨hmn, hm⟩
  have hapart : s.Apart p (.free n a) := h.apart (.inl rfl) (.inr (by rw [hcall]; rfl)) (.inl rfl) (.inl rfl)
  refine h.goOn rfl ⟨⟨_, hdata⟩, fun m hm => ?_⟩ (fun q hq => ?_) hapart fun m b hm => ?_
  · obtain ⟨hmn, hm⟩ := hstays m a hm
    exact hmn (h.id hm hdata).symm
  · refine (h.sound q).frame (fun m hm => ?_) (fun _ _ => rfl) fun b m _ hm => (hstays m b hm).2
    rw [setSlot_slots, if_neg]
    rintro rfl
    rcases TableCall.entry_or_check_of_slot hm with hentry | ⟨use, b, hq'⟩
    · exact hq (h.entries q p m hentry (by rw [hcall]; rfl))
    · exact hq (h.deletions q p m (by rw [hq']; rfl) (by rw [hcall]; rfl))
  · obtain ⟨hmn, hm⟩ := hstays m b hm
    obtain ⟨hm', req', hvalid, hfull | ⟨hcleared, q, hq⟩⟩ := h.stored m b hm
    · exact ⟨hm', req', hvalid, .inl hfull⟩
    · refine ⟨hm', req', hvalid, .inr ⟨hcleared, .inr ⟨q, ?_, hq⟩⟩⟩
      rintro rfl
      rw [hcall] at hq
      cases hq
      exact hmn rfl

/-- Every access keeps the table sound, as long as no task is deleted that another call looks up. -/
theorem Ok.step {e : TableEvent τ} (h : s.Ok lowest highest)
    (hstep : Restrict (TableStep lowest highest) Undisturbed s e s') : s'.Ok lowest highest := by
  obtain ⟨hstep, hundisturbed⟩ := hstep
  cases hstep with
  | @new p req hidle hprio =>
    rw [not_or, Int.not_lt, Int.not_lt] at hprio
    exact h.turn ⟨hprio.2, hprio.1⟩ (fun _ _ => by rw [hidle]; simp)
      (h.apart (.inl rfl) (.inl rfl) (.inl rfl) (.inl rfl))
  | refused req hidle hprio => exact h
  | claim hcall hn hnull => exact h.claim hcall hn hnull
  | @taken p req n hcall hn htaken =>
    have hself := h.sound p
    rw [hcall] at hself
    exact h.turn hself (fun _ _ => by rw [hcall]; simp) (h.apart (.inl rfl) (.inl rfl) (.inl rfl) (.inl rfl))
  | full hcall hn => exact h.turn trivial (fun _ _ => by rw [hcall]; simp) (h.apart_idle _)
  | create addr hcall hfree => exact h.create hcall hfree
  | @fill p req n addr task hcall hheap =>
    have hself := h.sound p
    rw [hcall] at hself
    obtain ⟨hvalid, hn, hinit, hdata, hhidden⟩ := hself
    cases hheap.symm.trans hdata
    refine h.write (by rw [hcall]; rfl) _ ⟨hvalid, hn, hinit, ?_, hhidden⟩
      (h.apart (.inr (by rw [hcall]; rfl)) (.inr (by rw [hcall]; rfl)) (.inl rfl) (.inl rfl))
    rw [setHeap_heap, if_pos rfl]
  | @mark p req n addr task hcall hheap =>
    have hself := h.sound p
    rw [hcall] at hself
    obtain ⟨hvalid, hn, hinit, hdata, hhidden⟩ := hself
    cases hheap.symm.trans hdata
    refine h.write (by rw [hcall]; rfl) _ ⟨hvalid, hn, hinit, ?_, hhidden⟩
      (h.apart (.inr (by rw [hcall]; rfl)) (.inr (by rw [hcall]; rfl)) (.inl rfl) (.inl rfl))
    rw [setHeap_heap, if_pos rfl]
    rfl
  | publish hcall => exact h.publish hcall
  | lookup use id hidle hid => exact h.lookup hidle hundisturbed
  | outside use id hidle hid => exact h
  | find hcall hslot => exact h.find hcall hslot
  | missing hcall hslot => exact h.turn trivial (fun _ _ => by rw [hcall]; simp) (h.apart_idle _)
  | unlabelled hcall hmagic => exact h.turn trivial (fun _ _ => by rw [hcall]; simp) (h.apart_idle _)
  | get hcall hmagic => exact h.turn trivial (fun _ _ => by rw [hcall]; simp) (h.apart_idle _)
  | delete hcall hmagic => exact h.delete hcall
  | @join p n addr hcall =>
    have hself := h.sound p
    rw [hcall] at hself
    exact h.turn hself (fun _ _ => by rw [hcall]; simp) (h.apart (.inr (by rw [hcall]; rfl))
      (.inr (by rw [hcall]; rfl)) (.inr (by rw [hcall]; rfl)) (.inr (by rw [hcall]; rfl)))
  | unmark hcall hheap => exact h.unmark hcall hheap
  | clear hcall => exact h.clear hcall
  | free hcall => exact h.write (by rw [hcall]; rfl) none trivial (h.apart_idle _)

omit [DecidableEq τ] in
theorem boot_ok (lowest highest : Int) : (boot : TaskTable τ).Ok lowest highest :=
  ⟨fun _ => trivial, fun _ _ _ h => (by cases h), fun _ _ _ h => (by cases h), fun _ _ _ h => (by cases h),
    fun _ _ h => (by cases h)⟩

theorem reaches_ok (h : Reaches (Restrict (TableStep lowest highest) Undisturbed) boot s) :
    s.Ok lowest highest :=
  h.invariant (fun _ _ _ hs hstep => hs.step hstep) (boot_ok lowest highest)

end TaskTable

end SoemMotion
