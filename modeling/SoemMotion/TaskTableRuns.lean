import SoemMotion.TaskTable

/-!
# The table of real-time tasks as a map

In every interleaving of the accesses the table is a map from ids to complete tasks that `task_new` extends at an id not
in use, `task_delete` shrinks and `get_task` reads, each at one moment, as long as no task is deleted while its id is
looked up (`taskTable_refines`); otherwise `get_task` can return the task of another id (`get_task_stale`).  A call of
`task_new` that finds no entry has found each of them taken (`task_new_full`).
-/

namespace SoemMotion

open Lib

variable {τ : Type}

/-! ### The map of tasks -/

/-- What a call does to the tasks, as the rest of the program sees it. -/
inductive TaskMapEvent
  | none
  | new (n : Nat) (req : TaskRequest)
  | delete (n : Nat)

/-- `task_new` adds a task at an id not in use, `task_delete` takes one away. -/
inductive TaskMapStep (tasks : Nat → Option TaskData) : TaskMapEvent → (Nat → Option TaskData) → Prop
  | none : TaskMapStep tasks .none tasks
  | new {n : Nat} {req : TaskRequest} (hn : n < maxTasks) (hfree : tasks n = Option.none) :
      TaskMapStep tasks (.new n req) (Function.update tasks n (some (req.task n)))
  | delete {n : Nat} (hn : tasks n ≠ Option.none) : TaskMapStep tasks (.delete n) (Function.update tasks n Option.none)

namespace TaskTable

/-- The complete tasks that the entries lead to, by their ids. -/
def tasks (s : TaskTable τ) (n : Nat) : Option TaskData :=
  if n < maxTasks then
    match s.slots n with
    | .task addr => (s.heap addr).filter fun task => task.magic = taskMagic
    | _ => none
  else none

/-- `task_new` takes effect when it stores its task and returns, `task_delete` when it takes the mark away. -/
def effect (s : TaskTable τ) : TableEvent τ → TaskMapEvent
  | .return p _ =>
    match s.calls p with
    | .publish req n _ => .new n req
    | _ => .none
  | .next p =>
    match s.calls p with
    | .unmark n _ => .delete n
    | _ => .none
  | _ => .none

variable {lowest highest : Int} {s s' : TaskTable τ} {p : τ} {n a : Nat} {req : TaskRequest}

theorem tasks_eq_some {task : TaskData} : s.tasks n = some task ↔
    n < maxTasks ∧ ∃ a, s.slots n = .task a ∧ s.heap a = some task ∧ task.magic = taskMagic := by
  unfold tasks
  constructor
  · intro h
    split at h
    · rename_i hn
      split at h
      · rename_i a hslot
        obtain ⟨hdata, hmagic⟩ := Option.filter_eq_some_iff.1 h
        exact ⟨hn, a, hslot, hdata, of_decide_eq_true hmagic⟩
      · cases h
    · cases h
  · rintro ⟨hn, a, hslot, hdata, hmagic⟩
    rw [if_pos hn, hslot]
    exact Option.filter_eq_some_iff.2 ⟨hdata, decide_eq_true hmagic⟩

/-- The tasks stay as they are where the entry and its task do. -/
theorem tasks_congr (hslot : s'.slots n = s.slots n) (hheap : ∀ a, s.slots n = .task a → s'.heap a = s.heap a) :
    s'.tasks n = s.tasks n := by
  refine Option.ext fun task => ?_
  rw [tasks_eq_some, tasks_eq_some, hslot]
  constructor
  · rintro ⟨hn, a, ha, hdata, hmagic⟩
    exact ⟨hn, a, ha, (hheap a ha) ▸ hdata, hmagic⟩
  · rintro ⟨hn, a, ha, hdata, hmagic⟩
    exact ⟨hn, a, ha, (hheap a ha).trans hdata, hmagic⟩

/-- An entry without a complete task shows none. -/
theorem tasks_eq_none (h : ∀ a task, s.slots n = .task a → s.heap a = some task → task.magic ≠ taskMagic) :
    s.tasks n = none := by
  rw [Option.eq_none_iff_forall_ne_some]
  intro task htask
  obtain ⟨-, a, ha, hdata, hmagic⟩ := tasks_eq_some.1 htask
  exact h a task ha hdata hmagic

theorem effect_next (h : ∀ n a, s.calls p ≠ .unmark n a) : s.effect (.next p) = .none := by
  unfold effect
  dsimp only
  split
  · rename_i hcall
    exact absurd hcall (h _ _)
  · rfl

theorem effect_return (h : ∀ req n a, s.calls p ≠ .publish req n a) (answer : Int) :
    s.effect (.return p answer) = .none := by
  unfold effect
  dsimp only
  split
  · rename_i hcall
    exact absurd hcall (h _ _ _)
  · rfl

theorem effect_missing (h : ∀ req n a, s.calls p ≠ .publish req n a) (use : Lookup) :
    s.effect (use.missing p) = .none := by
  cases use with
  | get => rfl
  | delete => exact effect_return h _

theorem effect_publish (h : s.calls p = .publish req n a) (answer : Int) :
    s.effect (.return p answer) = .new n req := by
  unfold effect
  dsimp only
  rw [h]

theorem effect_unmark (h : s.calls p = .unmark n a) : s.effect (.next p) = .delete n := by
  unfold effect
  dsimp only
  rw [h]

variable [DecidableEq τ]

/-! ### What the tasks are -/

/-- A write to a task that no entry leads to is not seen. -/
theorem tasks_setHeap (hhidden : s.Hidden a) (task : Option TaskData) (p : τ) (c : TableCall) :
    ((s.setHeap a task).setCall p c).tasks = s.tasks := by
  funext n
  refine tasks_congr rfl fun b hb => ?_
  show (s.setHeap a task).heap b = s.heap b
  rw [setHeap_heap, if_neg]
  rintro rfl
  exact hhidden n hb

/-- An entry that leads to no task, before and after. -/
theorem tasks_setSlot_empty {slot : TaskSlot} (hold : ∀ a task, s.slots n = .task a → s.heap a = some task →
    task.magic ≠ taskMagic) (hnew : ∀ a, slot ≠ .task a) (p : τ) (c : TableCall) :
    ((s.setSlot n slot).setCall p c).tasks = s.tasks := by
  funext m
  by_cases hm : m = n
  · subst hm
    rw [tasks_eq_none hold]
    refine tasks_eq_none fun a task ha _ => absurd ?_ (hnew a)
    have hslot : ((s.setSlot m slot).setCall p c).slots m = slot := (setSlot_slots s m m slot).trans (if_pos rfl)
    exact hslot.symm.trans ha
  · exact tasks_congr ((setSlot_slots s n m slot).trans (if_neg hm)) fun _ _ => rfl

theorem Ok.tasks_publish (h : s.Ok lowest highest) (hcall : s.calls p = .publish req n a) :
    TaskMapStep s.tasks (.new n req) ((s.setSlot n (.task a)).setCall p .idle).tasks := by
  have hself := h.sound p
  rw [hcall] at hself
  obtain ⟨-, hn, hinit, hdata, -⟩ := hself
  have hfree : s.tasks n = none := tasks_eq_none fun b _ hb _ => by rw [hinit] at hb; cases hb
  have htasks : ((s.setSlot n (.task a)).setCall p .idle).tasks = Function.update s.tasks n (some (req.task n)) := by
    funext m
    rw [Function.update_apply]
    split
    · rename_i hm
      subst hm
      refine tasks_eq_some.2 ⟨hn, a, ?_, hdata, rfl⟩
      exact (setSlot_slots s m m _).trans (if_pos rfl)
    · rename_i hm
      exact tasks_congr ((setSlot_slots s n m _).trans (if_neg hm)) fun _ _ => rfl
  rw [htasks]
  exact .new hn hfree

theorem Ok.tasks_unmark (h : s.Ok lowest highest) (hcall : s.calls p = .unmark n a) {task : TaskData}
    (hdata : s.heap a = some task) :
    TaskMapStep s.tasks (.delete n) ((s.setHeap a (some { task with magic := 0 })).setCall p (.clear n a)).tasks := by
  have hself := h.sound p
  rw [hcall] at hself
  obtain ⟨hslot, req, htask⟩ := hself
  rw [hdata] at htask
  cases htask
  have hn := (h.stored n a hslot).1
  have hshown : s.tasks n = some (req.task n) := tasks_eq_some.2 ⟨hn, a, hslot, hdata, rfl⟩
  have htasks : ((s.setHeap a (some { req.task n with magic := 0 })).setCall p (.clear n a)).tasks =
      Function.update s.tasks n none := by
    funext m
    rw [Function.update_apply]
    split
    · rename_i hm
      subst hm
      refine tasks_eq_none fun b task' hb hdata' => ?_
      obtain rfl : a = b := by cases hslot.symm.trans hb; rfl
      have hwritten := (setHeap_heap s a a (some { req.task m with magic := 0 })).trans (if_pos rfl)
      cases hwritten.symm.trans hdata'
      show (0 : Int) ≠ taskMagic
      decide
    · rename_i hm
      refine tasks_congr rfl fun b hb => ?_
      show (s.setHeap a _).heap b = s.heap b
      rw [setHeap_heap, if_neg]
      rintro rfl
      exact hm (h.id hb hdata).symm
  rw [htasks]
  exact .delete (by rw [hshown]; simp)

/-- Each access is seen as a step of the map, or not at all. -/
theorem Ok.refines {e : TableEvent τ} (h : s.Ok lowest highest) (hstep : TableStep lowest highest s e s') :
    TaskMapStep s.tasks (s.effect e) s'.tasks := by
  cases hstep with
  | new req hidle hprio => exact .none
  | refused req hidle hprio =>
    rw [effect_return fun _ _ _ => by rw [hidle]; simp]
    exact .none
  | claim hcall hn hnull =>
    rw [effect_next fun _ _ => by rw [hcall]; simp,
      tasks_setSlot_empty (fun a _ ha _ => by rw [hnull] at ha; cases ha) fun _ => by simp]
    exact .none
  | taken hcall hn htaken =>
    rw [effect_next fun _ _ => by rw [hcall]; simp]
    exact .none
  | full hcall hn =>
    rw [effect_return fun _ _ _ => by rw [hcall]; simp]
    exact .none
  | create addr hcall hfree =>
    rw [effect_next fun _ _ => by rw [hcall]; simp, tasks_setHeap (h.hidden_of_free hfree)]
    exact .none
  | @fill p req n addr task hcall hheap =>
    have hhidden := (h.sound p).hidden (a := addr) (by rw [hcall]; rfl)
    rw [effect_next fun _ _ => by rw [hcall]; simp, tasks_setHeap hhidden]
    exact .none
  | @mark p req n addr task hcall hheap =>
    have hhidden := (h.sound p).hidden (a := addr) (by rw [hcall]; rfl)
    rw [effect_next fun _ _ => by rw [hcall]; simp, tasks_setHeap hhidden]
    exact .none
  | publish hcall =>
    rw [effect_publish hcall]
    exact h.tasks_publish hcall
  | lookup use id hidle hid => exact .none
  | outside use id hidle hid =>
    rw [effect_missing fun _ _ _ => by rw [hidle]; simp]
    exact .none
  | find hcall hslot =>
    rw [effect_next fun _ _ => by rw [hcall]; simp]
    exact .none
  | missing hcall hslot =>
    rw [effect_missing fun _ _ _ => by rw [hcall]; simp]
    exact .none
  | unlabelled hcall hmagic =>
    rw [effect_missing fun _ _ _ => by rw [hcall]; simp]
    exact .none
  | get hcall hmagic => exact .none
  | delete hcall hmagic =>
    rw [effect_next fun _ _ => by rw [hcall]; simp]
    exact .none
  | join hcall =>
    rw [effect_next fun _ _ => by rw [hcall]; simp]
    exact .none
  | unmark hcall hheap =>
    rw [effect_unmark hcall]
    exact h.tasks_unmark hcall hheap
  | @clear p n addr hcall =>
    have hself := h.sound p
    rw [hcall] at hself
    obtain ⟨hslot, req, hdata⟩ := hself
    rw [effect_next fun _ _ => by rw [hcall]; simp, tasks_setSlot_empty ?_ fun _ => by simp]
    · exact .none
    · intro a task ha htask
      cases hslot.symm.trans ha
      cases hdata.symm.trans htask
      show (0 : Int) ≠ taskMagic
      decide
  | @free p n addr hcall =>
    have hhidden := (h.sound p).hidden (a := addr) (by rw [hcall]; rfl)
    rw [effect_return fun _ _ _ => by rw [hcall]; simp, tasks_setHeap hhidden]
    exact .none

omit [DecidableEq τ] in
theorem boot_tasks : (boot : TaskTable τ).tasks = fun _ => none := by
  funext n
  exact tasks_eq_none fun a task ha _ => by cases ha

omit [DecidableEq τ] in
/-- What `get_task` finds is the task of an accepted request under its own id. -/
theorem Ok.complete (h : s.Ok lowest highest) {task : TaskData} (htask : s.tasks n = some task) :
    ∃ req : TaskRequest, req.Valid lowest highest ∧ task = req.task n := by
  obtain ⟨-, a, ha, hdata, hmagic⟩ := tasks_eq_some.1 htask
  obtain ⟨-, req, hvalid, hfull | ⟨hcleared, -⟩⟩ := h.stored n a ha
  · exact ⟨req, hvalid, Option.some.inj (hdata.symm.trans hfull)⟩
  · cases hdata.symm.trans hcleared
    cases hmagic

end TaskTable

section Answers

variable {lowest highest : Int} {s s' : TaskTable τ} [DecidableEq τ] {p : τ} {e : TableEvent τ}

/-- `task_new` returns the id of the entry that it has filled. -/
theorem TableStep.answer_of_new (h : TableStep lowest highest s e s') {answer : Int} {n : Nat} {req : TaskRequest}
    (he : e = .return p answer) (heffect : s.effect e = .new n req) : answer = n := by
  have hnot : ∀ {p' : τ} {answer' : Int}, (∀ req n a, s.calls p' ≠ .publish req n a) →
      s.effect (.return p' answer') ≠ .new n req := by
    intro p' answer' hcall
    rw [TaskTable.effect_return hcall]
    simp
  have hmissing : ∀ {p' : τ} {use : Lookup}, (∀ req n a, s.calls p' ≠ .publish req n a) →
      s.effect (use.missing p') ≠ .new n req := by
    intro p' use hcall
    rw [TaskTable.effect_missing hcall]
    simp
  cases h with
  | publish hcall =>
    rw [TaskTable.effect_publish hcall] at heffect
    cases heffect
    exact (TableEvent.return.inj he).2.symm
  | refused req hidle hprio => exact absurd heffect (hnot fun _ _ _ => by rw [hidle]; simp)
  | full hcall hn => exact absurd heffect (hnot fun _ _ _ => by rw [hcall]; simp)
  | free hcall => exact absurd heffect (hnot fun _ _ _ => by rw [hcall]; simp)
  | outside use id hidle hid => exact absurd heffect (hmissing fun _ _ _ => by rw [hidle]; simp)
  | missing hcall hslot => exact absurd heffect (hmissing fun _ _ _ => by rw [hcall]; simp)
  | unlabelled hcall hmagic => exact absurd heffect (hmissing fun _ _ _ => by rw [hcall]; simp)
  | _ => cases he

/-- `get_task` returns a task that is in the map at its last access, under the id that it was asked for. -/
theorem TaskTable.Ok.get (h : s.Ok lowest highest) {a : Nat}
    (hstep : TableStep lowest highest s (.found p (some a)) s') :
    ∃ n task, s.calls p = .check .get n a ∧ s.heap a = some task ∧ s.tasks n = some task := by
  generalize he : TableEvent.found p (some a) = e at hstep
  cases hstep with
  | @get q n b hcall hmagic =>
    obtain ⟨rfl, hb⟩ := TableEvent.found.inj he
    cases hb
    have hself := h.sound p
    rw [hcall] at hself
    obtain ⟨hslot, req, hdata⟩ := hself
    exact ⟨n, _, hcall, hdata, TaskTable.tasks_eq_some.2 ⟨(h.stored n a hslot).1, a, hslot, hdata, rfl⟩⟩
  | outside use id hidle hid => cases use <;> cases he
  | @missing q use n hcall hslot => cases use <;> cases he
  | @unlabelled q use n b hcall hmagic => cases use <;> cases he
  | _ => cases he

/-- A look-up that finds no task was asked for an id outside the table, or for one that is not in the map at its last
access. -/
theorem TaskTable.Ok.missing (h : s.Ok lowest highest) {use : Lookup} (hstep : TableStep lowest highest s e s')
    (he : e = use.missing p) : s.calls p = .idle ∨ ∃ n, s.calls p = .find use n ∧ s.tasks n = none := by
  have hsame : ∀ {q : τ} {use' : Lookup}, use'.missing q = use.missing p → use' = use ∧ q = p := by
    intro q use' heq
    cases use <;> cases use' <;> cases heq <;> exact ⟨rfl, rfl⟩
  cases hstep with
  | outside use' id hidle hid => exact .inl ((hsame he).2 ▸ hidle)
  | @missing q use' n hcall hslot =>
    obtain ⟨rfl, rfl⟩ := hsame he
    exact .inr ⟨n, hcall, TaskTable.tasks_eq_none fun a _ ha _ => absurd ha (hslot a)⟩
  | @unlabelled q use' n a hcall hmagic =>
    have hself := h.sound q
    rw [hcall] at hself
    obtain ⟨-, req, hdata⟩ := hself
    exact absurd rfl (hmagic _ hdata)
  | refused req hidle hprio =>
    cases use with
    | get => cases he
    | delete => exact .inl ((TableEvent.return.inj he).1 ▸ hidle)
  | full hcall hn =>
    cases use with
    | get => cases he
    | delete => exact absurd (TableEvent.return.inj he).2 (by decide)
  | @publish q req n a hcall =>
    cases use with
    | get => cases he
    | delete =>
      have hanswer := (TableEvent.return.inj he).2
      unfold einval at hanswer
      omega
  | free hcall =>
    cases use with
    | get => cases he
    | delete => exact absurd (TableEvent.return.inj he).2 (by decide)
  | get hcall hmagic => cases use <;> cases he
  | _ => cases use <;> cases he

end Answers

/-- The call keeps searching. -/
def Searching (p : τ) (req : TaskRequest) (s : TaskTable τ) (_ : TableEvent τ) (_ : TaskTable τ) : Prop :=
  ∃ n, s.calls p = .search req n

section Search

variable {lowest highest : Int} {s s' : TaskTable τ} [DecidableEq τ] {p : τ} {req : TaskRequest} {n n' : Nat}

/-- A search goes on to the next entry only past one that is taken. -/
theorem TableStep.search {e : TableEvent τ} (hstep : TableStep lowest highest s e s') {req' : TaskRequest}
    (hs : s.calls p = .search req n) (hs' : s'.calls p = .search req' n') :
    req' = req ∧ (n' = n ∨ n' = n + 1 ∧ s.slots n ≠ .null) := by
  have hother : ∀ {u : TaskTable τ} {q : τ} {c : TableCall}, u.calls = s.calls →
      (u.setCall q c).calls p = .search req' n' → (∀ req n, c ≠ .search req n) ∨ q ≠ p →
        req' = req ∧ (n' = n ∨ n' = n + 1 ∧ s.slots n ≠ .null) := by
    intro u q c hcalls hc hne
    rw [TaskTable.setCall_calls, hcalls, hs] at hc
    split at hc
    · rename_i hpq
      rcases hne with hne | hne
      · exact absurd hc (hne _ _)
      · exact absurd hpq.symm hne
    · cases hc
      exact ⟨rfl, .inl rfl⟩
  cases hstep with
  | @new q req₁ hidle hprio =>
    refine hother rfl hs' (.inr ?_)
    rintro rfl
    rw [hs] at hidle
    cases hidle
  | refused req₁ hidle hprio =>
    rw [hs] at hs'
    cases hs'
    exact ⟨rfl, .inl rfl⟩
  | outside use id hidle hid =>
    rw [hs] at hs'
    cases hs'
    exact ⟨rfl, .inl rfl⟩
  | @taken q req₁ n₁ hcall hn htaken =>
    by_cases hq : q = p
    · subst hq
      rw [TaskTable.setCall_calls, if_pos rfl] at hs'
      rw [hs] at hcall
      cases hcall
      cases hs'
      exact ⟨rfl, .inr ⟨rfl, htaken⟩⟩
    · exact hother rfl hs' (.inr hq)
  | claim hcall hn hnull => exact hother rfl hs' (.inl fun _ _ => by simp)
  | full hcall hn => exact hother rfl hs' (.inl fun _ _ => by simp)
  | create addr hcall hfree => exact hother rfl hs' (.inl fun _ _ => by simp)
  | fill hcall hheap => exact hother rfl hs' (.inl fun _ _ => by simp)
  | mark hcall hheap => exact hother rfl hs' (.inl fun _ _ => by simp)
  | publish hcall => exact hother rfl hs' (.inl fun _ _ => by simp)
  | lookup use id hidle hid => exact hother rfl hs' (.inl fun _ _ => by simp)
  | find hcall hslot => exact hother rfl hs' (.inl fun _ _ => by simp)
  | missing hcall hslot => exact hother rfl hs' (.inl fun _ _ => by simp)
  | unlabelled hcall hmagic => exact hother rfl hs' (.inl fun _ _ => by simp)
  | get hcall hmagic => exact hother rfl hs' (.inl fun _ _ => by simp)
  | delete hcall hmagic => exact hother rfl hs' (.inl fun _ _ => by simp)
  | join hcall => exact hother rfl hs' (.inl fun _ _ => by simp)
  | unmark hcall hheap => exact hother rfl hs' (.inl fun _ _ => by simp)
  | clear hcall => exact hother rfl hs' (.inl fun _ _ => by simp)
  | free hcall => exact hother rfl hs' (.inl fun _ _ => by simp)

omit [DecidableEq τ] in
theorem Lookup.missing_ne_enospc (use : Lookup) (q : τ) : use.missing q ≠ .return p (-enospc) := by
  cases use with
  | get => exact fun h => by cases h
  | delete => exact fun h => absurd (TableEvent.return.inj h).2 (by decide)

/-- Only a call that has tried every entry returns `-ENOSPC`. -/
theorem TableStep.of_enospc (h : TableStep lowest highest s (.return p (-enospc)) s') :
    ∃ req n, s.calls p = .search req n ∧ maxTasks ≤ n := by
  generalize he : TableEvent.return p (-enospc) = e at h
  cases h with
  | refused req hidle hprio => exact absurd (TableEvent.return.inj he).2 (by decide)
  | full hcall hn =>
    obtain ⟨rfl, -⟩ := TableEvent.return.inj he
    exact ⟨_, _, hcall, Nat.le_of_not_lt hn⟩
  | publish hcall =>
    have hanswer := (TableEvent.return.inj he).2
    unfold enospc at hanswer
    omega
  | outside use id hidle hid => exact absurd he.symm (Lookup.missing_ne_enospc _ _)
  | missing hcall hslot => exact absurd he.symm (Lookup.missing_ne_enospc _ _)
  | unlabelled hcall hmagic => exact absurd he.symm (Lookup.missing_ne_enospc _ _)
  | free hcall => exact absurd (TableEvent.return.inj he).2 (by decide)
  | _ => cases he

/-- A search that has come to entry `n` has found every entry before it taken. -/
theorem search_taken (hstart : s.calls p = .search req 0)
    (hrun : Reaches (Restrict (TableStep lowest highest) (Searching p req)) s s') (hs' : s'.calls p = .search req n) :
    ∀ m < n, ∃ u, Reaches (Restrict (TableStep lowest highest) (Searching p req)) s u ∧
      Reaches (Restrict (TableStep lowest highest) (Searching p req)) u s' ∧ u.slots m ≠ .null := by
  have hall := hrun.invariant (I := fun v => Reaches (Restrict (TableStep lowest highest) (Searching p req)) s v ∧
    ∀ n, v.calls p = .search req n → ∀ m < n, ∃ u, Reaches (Restrict (TableStep lowest highest) (Searching p req)) s u ∧
      Reaches (Restrict (TableStep lowest highest) (Searching p req)) u v ∧ u.slots m ≠ .null) ?_ ⟨Reaches.refl s, ?_⟩
  · exact hall.2 n hs'
  · rintro v e w ⟨hreach, ih⟩ hstep
    refine ⟨hreach.tail hstep, fun k hk m hm => ?_⟩
    obtain ⟨j, hj⟩ := hstep.2
    obtain ⟨-, rfl | ⟨rfl, htaken⟩⟩ := hstep.1.search hj hk
    · obtain ⟨u, hu, huv, hbusy⟩ := ih k hj m hm
      exact ⟨u, hu, huv.tail hstep, hbusy⟩
    · rcases Nat.lt_succ_iff_lt_or_eq.1 hm with hlt | rfl
      · obtain ⟨u, hu, huv, hbusy⟩ := ih j hj m hlt
        exact ⟨u, hu, huv.tail hstep, hbusy⟩
      · exact ⟨v, hreach, (Reaches.refl v).tail hstep, htaken⟩
  · intro n hn m hm
    rw [hstart] at hn
    cases hn
    exact absurd hm (Nat.not_lt_zero m)

end Search

/-! ### Main results -/

section

variable {lowest highest : Int} {s s' : TaskTable τ} [DecidableEq τ]

namespace TaskTable

/-- The table with one more task. -/
def added (s : TaskTable τ) (req : TaskRequest) (n addr : Nat) : TaskTable τ :=
  (s.setSlot n (.task addr)).setHeap addr (some (req.task n))

/-- The table without a task. -/
def removed (s : TaskTable τ) (n addr : Nat) : TaskTable τ := (s.setSlot n .null).setHeap addr none

end TaskTable

/-- A request for the thread of the drives. -/
def driveRequest : TaskRequest := ⟨4096, 8192, 99, 1, 16384, 1⟩

theorem search_alone {p : τ} {req : TaskRequest} {n : Nat} (hvalid : req.Valid lowest highest)
    (hidle : s.calls p = .idle) (hn : n ≤ maxTasks) (htaken : ∀ m < n, s.slots m ≠ .null) :
    Reaches (Restrict (TableStep lowest highest) Undisturbed) s (s.setCall p (.search req n)) := by
  induction n with
  | zero =>
    refine (Reaches.refl s).tail ⟨.new req hidle ?_, trivial⟩
    rw [not_or, Int.not_lt, Int.not_lt]
    exact ⟨hvalid.2, hvalid.1⟩
  | succ n ih =>
    have hstep : TableStep lowest highest (s.setCall p (.search req n)) (.next p)
        ((s.setCall p (.search req n)).setCall p (.search req (n + 1))) :=
      .taken (by rw [TaskTable.setCall_calls, if_pos rfl]) hn (htaken n (Nat.lt_succ_self n))
    rw [TaskTable.setCall_setCall] at hstep
    exact (ih (Nat.le_of_succ_le hn) fun m hm => htaken m (Nat.lt_succ_of_lt hm)).tail ⟨hstep, trivial⟩

/-- A call of `task_new` that no other one disturbs gets the first free entry. -/
theorem task_new_alone {p : τ} {req : TaskRequest} {n a : Nat} (hvalid : req.Valid lowest highest)
    (hidle : s.calls p = .idle) (hn : n < maxTasks) (htaken : ∀ m < n, s.slots m ≠ .null) (hnull : s.slots n = .null)
    (hfree : s.heap a = none) : Reaches (Restrict (TableStep lowest highest) Undisturbed) s (s.added req n a) := by
  have hcall : ∀ (t : TaskTable τ) c, (t.setCall p c).calls p = c := fun t c => by
    rw [TaskTable.setCall_calls, if_pos rfl]
  have hheap : ∀ (t : TaskTable τ) c task, ((t.setHeap a task).setCall p c).heap a = task := fun t c task => by
    show (t.setHeap a task).heap a = task
    rw [TaskTable.setHeap_heap, if_pos rfl]
  have r₁ := search_alone hvalid hidle (Nat.le_of_lt hn) htaken
  have r₂ := r₁.tail ⟨.claim (hcall _ _) hn hnull, trivial⟩
  have r₃ := r₂.tail ⟨.create a (hcall _ _) hfree, trivial⟩
  have r₄ := r₃.tail ⟨.fill (hcall _ _) (hheap _ _ _), trivial⟩
  have r₅ := r₄.tail ⟨.mark (hcall _ _) (hheap _ _ _), trivial⟩
  have r₆ := r₅.tail ⟨.publish (hcall _ _), trivial⟩
  refine (congrArg (Reaches _ s) ?_).mp r₆
  unfold TaskTable.added TaskTable.setCall TaskTable.setSlot TaskTable.setHeap
  simp only [Function.update_idem, TaskTable.mk.injEq, true_and]
  exact ⟨rfl, hidle ▸ Function.update_eq_self p s.calls⟩

/-- A call of `task_delete` that no other one disturbs frees the entry and the memory. -/
theorem task_delete_alone {p : τ} {n a : Nat} {task : TaskData} (hidle : s.calls p = .idle) (hn : n < maxTasks)
    (hslot : s.slots n = .task a) (hdata : s.heap a = some task) (hmagic : task.magic = taskMagic) :
    Reaches (TableStep lowest highest) s (s.removed n a) := by
  have hcall : ∀ (t : TaskTable τ) c, (t.setCall p c).calls p = c := fun t c => by
    rw [TaskTable.setCall_calls, if_pos rfl]
  have hfirst : TableStep lowest highest s (.lookup p .delete n) (s.setCall p (.find .delete n)) :=
    .lookup .delete n hidle (by omega)
  have r₁ := (Reaches.refl s).tail hfirst
  have r₂ := r₁.tail (.find (hcall _ _) hslot)
  have r₃ := r₂.tail (.delete (hcall _ _) fun t ht => by cases hdata.symm.trans ht; exact hmagic)
  have r₄ := r₃.tail (.join (hcall _ _))
  have r₅ := r₄.tail (.unmark (hcall _ _) hdata)
  have r₆ := r₅.tail (.clear (hcall _ _))
  have r₇ := r₆.tail (.free (hcall _ _))
  refine (congrArg (Reaches _ s) ?_).mp r₇
  unfold TaskTable.removed TaskTable.setCall TaskTable.setSlot TaskTable.setHeap
  simp only [Function.update_idem, TaskTable.mk.injEq, true_and]
  exact hidle ▸ Function.update_eq_self p s.calls

/-- As long as no task is deleted that another call looks up, the calls of `task_new`, `task_delete` and `get_task`
behave, in every interleaving of their accesses, like steps of a map from ids to complete tasks that come one after the
other: `task_new` returns the id at which it has added its task, and a look-up answers what the map says at its last
access. -/
theorem taskTable_refines (h : Reaches (Restrict (TableStep lowest highest) Undisturbed) .boot s) :
    Reaches TaskMapStep (fun _ => none) s.tasks ∧
      (∀ n task, s.tasks n = some task → ∃ req : TaskRequest, req.Valid lowest highest ∧ task = req.task n) ∧
      ∀ e s', Restrict (TableStep lowest highest) Undisturbed s e s' →
        TaskMapStep s.tasks (s.effect e) s'.tasks ∧
          (∀ p answer n req, e = .return p answer → s.effect e = .new n req → answer = n) ∧
          (∀ p a, e = .found p (some a) →
            ∃ n task, s.calls p = .check .get n a ∧ s.heap a = some task ∧ s.tasks n = some task) ∧
          ∀ p use, e = use.missing p → s.calls p = .idle ∨ ∃ n, s.calls p = .find use n ∧ s.tasks n = none := by
  have hok := TaskTable.reaches_ok h
  have hmap : s.Ok lowest highest ∧ Reaches TaskMapStep (fun _ => none) s.tasks := by
    refine h.invariant (I := fun s => s.Ok lowest highest ∧ Reaches TaskMapStep (fun _ => none) s.tasks)
      (fun s e s' hs hstep => ?_) ⟨TaskTable.boot_ok lowest highest, ?_⟩
    · exact ⟨hs.1.step hstep, hs.2.tail (hs.1.refines hstep.1)⟩
    · rw [TaskTable.boot_tasks]
      exact Reaches.refl _
  exact ⟨hmap.2, fun n task => hok.complete, fun e s' hstep => ⟨hok.refines hstep.1,
    fun p answer n req he heffect => hstep.1.answer_of_new he heffect, fun p a he => hok.get (he ▸ hstep.1),
    fun p use he => hok.missing hstep.1 he⟩⟩

/-- A thread adds the task of the drives, another one looks it up, and the first one deletes it. -/
theorem taskTable_refines_driveRequest : ∃ s₁ s₂ s₃ s₄ s₅ : TaskTable Bool,
    TaskMapStep s₁.tasks (.new 0 driveRequest) s₂.tasks ∧
      (∃ task, s₃.calls true = .check .get 0 0 ∧ s₃.heap 0 = some task ∧ s₃.tasks 0 = some task) ∧
      TaskMapStep s₄.tasks (.delete 0) s₅.tasks := by
  have r₀ : Reaches (Restrict (TableStep 1 99) Undisturbed) (.boot : TaskTable Bool) .boot := Reaches.refl _
  have r₁ := r₀.tail ⟨.new (p := false) driveRequest rfl (by decide), trivial⟩
  have r₂ := r₁.tail ⟨.claim (p := false) (n := 0) rfl (by decide) rfl, trivial⟩
  have r₃ := r₂.tail ⟨.create (p := false) (n := 0) 0 rfl rfl, trivial⟩
  have r₄ := r₃.tail ⟨.fill (p := false) rfl rfl, trivial⟩
  have r₅ := r₄.tail ⟨.mark (p := false) rfl rfl, trivial⟩
  have r₆ := r₅.tail ⟨.publish (p := false) rfl, trivial⟩
  have r₇ := r₆.tail ⟨.lookup (p := true) .get 0 rfl (by decide), fun q => ⟨by cases q <;> exact nofun, nofun⟩⟩
  have r₈ := r₇.tail ⟨.find (p := true) (n := 0) rfl rfl, trivial⟩
  have r₉ := r₈.tail ⟨.get (p := true) rfl fun _ htask => by cases htask; rfl, trivial⟩
  have r₁₀ := r₉.tail ⟨.lookup (p := false) .delete 0 rfl (by decide),
    fun q => ⟨by cases q <;> exact nofun, fun _ => by cases q <;> exact nofun⟩⟩
  have r₁₁ := r₁₀.tail ⟨.find (p := false) (n := 0) rfl rfl, trivial⟩
  have r₁₂ := r₁₁.tail ⟨.delete (p := false) rfl fun _ htask => by cases htask; rfl, trivial⟩
  have r₁₃ := r₁₂.tail ⟨.join (p := false) rfl, trivial⟩
  obtain ⟨s₁, hrun₁, hcall₁⟩ : ∃ s, Reaches (Restrict (TableStep 1 99) Undisturbed) .boot s ∧
      s.calls false = .publish driveRequest 0 0 := ⟨_, r₅, rfl⟩
  obtain ⟨s₃, hrun₃, hcall₃, hmagic₃⟩ : ∃ s, Reaches (Restrict (TableStep 1 99) Undisturbed) .boot s ∧
      s.calls true = .check .get 0 0 ∧ ∀ task, s.heap 0 = some task → task.magic = taskMagic :=
    ⟨_, r₈, rfl, fun _ htask => by cases htask; rfl⟩
  obtain ⟨s₄, hrun₄, hcall₄, hdata₄⟩ : ∃ s, Reaches (Restrict (TableStep 1 99) Undisturbed) .boot s ∧
      s.calls false = .unmark 0 0 ∧ s.heap 0 = some (driveRequest.task 0) := ⟨_, r₁₃, rfl, rfl⟩
  obtain ⟨hnew, -⟩ := (taskTable_refines hrun₁).2.2 _ _ ⟨.publish hcall₁, trivial⟩
  obtain ⟨-, -, hget, -⟩ := (taskTable_refines hrun₃).2.2 _ _ ⟨.get hcall₃ hmagic₃, trivial⟩
  obtain ⟨hdelete, -⟩ := (taskTable_refines hrun₄).2.2 _ _ ⟨.unmark hcall₄ hdata₄, trivial⟩
  rw [TaskTable.effect_publish hcall₁] at hnew
  rw [TaskTable.effect_unmark hcall₄] at hdelete
  obtain ⟨n, task, hcall, hdata, htask⟩ := hget true 0 rfl
  obtain rfl : n = 0 := by cases hcall₃.symm.trans hcall; rfl
  exact ⟨s₁, _, s₃, s₄, _, hnew, ⟨task, hcall, hdata, htask⟩, hdelete⟩

/-- Where a task is deleted while its id is looked up, `get_task` can return the task of another id: the memory has been
used again before the magic number is read. -/
theorem get_task_stale : ∃ s t : TaskTable Bool, Reaches (TableStep 1 99) .boot s ∧
    TableStep 1 99 s (.found true (some 0)) t ∧ s.calls true = .check .get 0 0 ∧
      s.heap 0 = some (driveRequest.task 1) := by
  have hvalid : driveRequest.Valid 1 99 := ⟨by decide, by decide⟩
  have r₁ := (task_new_alone (s := (.boot : TaskTable Bool)) (p := false) (n := 0) (a := 0) hvalid rfl (by decide)
    (fun _ hm => absurd hm (Nat.not_lt_zero _)) rfl rfl).of_restrict
  have r₂ := r₁.tail (.lookup (p := true) .get 0 rfl (by decide))
  have r₃ := r₂.tail (.find (p := true) (n := 0) rfl rfl)
  have r₄ := r₃.trans (task_delete_alone (p := false) (n := 0) rfl (by decide) rfl rfl rfl)
  have r₅ := r₄.trans (task_new_alone (p := false) (n := 0) (a := 1) hvalid rfl (by decide)
    (fun _ hm => absurd hm (Nat.not_lt_zero _)) rfl rfl).of_restrict
  have r₆ := r₅.trans (task_new_alone (p := false) (n := 1) (a := 0) hvalid rfl (by decide)
    (fun m hm => by obtain rfl : m = 0 := by omega
                    exact nofun) rfl rfl).of_restrict
  exact ⟨_, _, r₆, .get rfl fun _ htask => by cases htask; rfl, rfl, rfl⟩

/-- A call of `task_new` that finds no entry has found each of them taken, at one moment or another of its search. -/
theorem task_new_full {p : τ} {req : TaskRequest} (hstart : s.calls p = .search req 0)
    (hrun : Reaches (Restrict (TableStep lowest highest) (Searching p req)) s s') {t : TaskTable τ}
    (hfull : TableStep lowest highest s' (.return p (-enospc)) t) :
    ∀ m < maxTasks, ∃ u, Reaches (Restrict (TableStep lowest highest) (Searching p req)) s u ∧
      Reaches (Restrict (TableStep lowest highest) (Searching p req)) u s' ∧ u.slots m ≠ .null := by
  obtain ⟨req', n, hn, hmax⟩ := hfull.of_enospc
  have hreq : ∃ n, s'.calls p = .search req n := by
    refine hrun.invariant (I := fun v => ∀ req' n, v.calls p = .search req' n → req' = req) ?_ ?_ req' n hn ▸ ⟨n, hn⟩
    · rintro v e w - hstep req' n hw
      obtain ⟨j, hj⟩ := hstep.2
      exact (hstep.1.search hj hw).1
    · intro req' n hs
      rw [hstart] at hs
      cases hs
      rfl
  obtain ⟨k, hk⟩ := hreq
  rw [hn] at hk
  cases hk
  intro m hm
  exact search_taken hstart hrun hn m (Nat.lt_of_lt_of_le hm hmax)

/-- A thread on its own searches a table that is full, and has come to entry `n`. -/
def fullTable (n : Nat) : TaskTable Unit := ⟨fun _ => .init, fun _ => none, fun _ => .search driveRequest n⟩

theorem fullTable_run {n : Nat} (hn : n ≤ maxTasks) :
    Reaches (Restrict (TableStep 1 99) (Searching () driveRequest)) (fullTable 0) (fullTable n) := by
  induction n with
  | zero => exact Reaches.refl _
  | succ n ih =>
    have hstep : TableStep 1 99 (fullTable n) (.next ()) ((fullTable n).setCall () (.search driveRequest (n + 1))) :=
      .taken rfl hn (by unfold fullTable; simp)
    exact (ih (Nat.le_of_succ_le hn)).tail ⟨hstep, n, rfl⟩

/-- Its last entry has been taken. -/
theorem task_new_full_table : ∃ u : TaskTable Unit, u.slots 63 ≠ .null := by
  have hrun := fullTable_run (Nat.le_refl maxTasks)
  obtain ⟨u, -, -, hu⟩ := task_new_full rfl hrun (.full rfl (by decide)) 63 (by decide)
  exact ⟨u, hu⟩

end

end SoemMotion
