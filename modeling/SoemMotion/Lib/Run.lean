import Mathlib.Logic.Relation

/-!
# Runs of labelled transition systems

A system is a step relation `step : σ → ε → σ → Prop` between states, labelled with events.  `Reaches step s t` says
that some run leads from `s` to `t`; `Restrict step P` keeps the steps that satisfy `P`, so that a statement about
`Reaches (Restrict step P)` is one about the runs all of whose steps do.  For a system given by calls that may not
return, `AllCalls call P es s` says that each call of the list `es`, made from `s` on, satisfies `P` if it returns.
-/

namespace SoemMotion.Lib

variable {σ ε : Type*}

/-- Some run of `step` leads from the first state to the second. -/
def Reaches (step : σ → ε → σ → Prop) : σ → σ → Prop := Relation.ReflTransGen fun s t => ∃ e, step s e t

/-- The steps that satisfy `P`. -/
def Restrict (step : σ → ε → σ → Prop) (P : σ → ε → σ → Prop) (s : σ) (e : ε) (t : σ) : Prop :=
  step s e t ∧ P s e t

variable {step step' : σ → ε → σ → Prop} {P : σ → ε → σ → Prop} {s t u : σ}

theorem Reaches.refl (s : σ) : Reaches step s s := Relation.ReflTransGen.refl

theorem Reaches.tail {e : ε} (h : Reaches step s t) (he : step t e u) : Reaches step s u :=
  Relation.ReflTransGen.tail h ⟨e, he⟩

theorem Reaches.trans (h : Reaches step s t) (h' : Reaches step t u) : Reaches step s u :=
  Relation.ReflTransGen.trans h h'

/-- What every step keeps, every run keeps. -/
theorem Reaches.invariant {I : σ → Prop} (hstep : ∀ s e t, I s → step s e t → I t) (h : Reaches step s t)
    (hs : I s) : I t := by
  induction h with
  | refl => exact hs
  | tail _ he ih =>
    obtain ⟨e, he⟩ := he
    exact hstep _ e _ ih he

/-- A run of steps that are steps of a larger system is one of its runs. -/
theorem Reaches.mono (hmono : ∀ s e t, step s e t → step' s e t) (h : Reaches step s t) : Reaches step' s t := by
  refine h.invariant (I := fun u => Reaches step' s u) ?_ (Reaches.refl s)
  intro s e t hs he
  exact hs.tail (hmono s e t he)

theorem Reaches.of_restrict (h : Reaches (Restrict step P) s t) : Reaches step s t :=
  h.mono fun _ _ _ he => he.1

/-- Strengthening a restriction to steps from states with an invariant of the unrestricted system. -/
theorem Reaches.restrict_invariant {I J : σ → Prop} (hI : ∀ s e t, I s → step s e t → I t)
    (hJ : ∀ s e t, I s → J s → Restrict step P s e t → J t) (h : Reaches (Restrict step P) s t) (hs : I s) (hj : J s) :
    J t := by
  have key : I t ∧ J t := by
    refine h.invariant (I := fun u => I u ∧ J u) ?_ ⟨hs, hj⟩
    intro s e t hst he
    exact ⟨hI s e t hst.1 he.1, hJ s e t hst.1 hst.2 he⟩
  exact key.2

/-! ### Calls -/

section Calls

variable {ρ : Type*} {call : ε → σ → Option (ρ × σ)} {Q R : σ → ε → ρ → σ → Prop} {es : List ε}

/-- Each call of the list that is reached and returns satisfies `Q`. -/
def AllCalls (call : ε → σ → Option (ρ × σ)) (Q : σ → ε → ρ → σ → Prop) : List ε → σ → Prop
  | [], _ => True
  | e :: es, s => ∀ r t, call e s = some (r, t) → Q s e r t ∧ AllCalls call Q es t

/-- The answers to a list of calls, and the state after them, if all of them return. -/
def runCalls (call : ε → σ → Option (ρ × σ)) : List ε → σ → Option (List ρ × σ)
  | [], s => some ([], s)
  | e :: es, s => (call e s).bind fun (r, t) => (runCalls call es t).map fun (rs, u) => (r :: rs, u)

/-- The first call returns, and those after it return from its state. -/
theorem runCalls_cons {e : ε} {s t : σ} {rs : List ρ} (h : runCalls call (e :: es) s = some (rs, t)) :
    ∃ r u rs', call e s = some (r, u) ∧ runCalls call es u = some (rs', t) ∧ rs = r :: rs' := by
  obtain ⟨⟨r, u⟩, hcall, hrest⟩ := Option.bind_eq_some_iff.1 h
  obtain ⟨⟨rs', t'⟩, hrun, heq⟩ := Option.map_eq_some_iff.1 hrest
  cases heq
  exact ⟨r, u, rs', hcall, hrun, rfl⟩

/-- Calls that return are a run. -/
theorem runCalls_reaches (hstep : ∀ s e r t, e ∈ es → call e s = some (r, t) → step s e t) {rs : List ρ}
    (h : runCalls call es s = some (rs, t)) : Reaches step s t := by
  induction es generalizing s rs with
  | nil =>
    cases h
    exact Reaches.refl _
  | cons e es ih =>
    obtain ⟨r, u, rs', hcall, hrun, -⟩ := runCalls_cons h
    have hfirst : Reaches step s u := (Reaches.refl s).tail (hstep s e r u List.mem_cons_self hcall)
    exact hfirst.trans (ih (fun s e r t he => hstep s e r t (List.mem_cons_of_mem _ he)) hrun)

/-- Two properties that agree on the calls of the list from the states of an invariant, and keep it, agree on whole
runs. -/
theorem AllCalls.iff_of_mem {I : σ → Prop}
    (hiff : ∀ s e r t, e ∈ es → I s → call e s = some (r, t) → (Q s e r t ↔ R s e r t))
    (hI : ∀ s e r t, e ∈ es → I s → call e s = some (r, t) → Q s e r t → I t) {s : σ} (hs : I s) :
    AllCalls call Q es s ↔ AllCalls call R es s := by
  induction es generalizing s with
  | nil => exact Iff.rfl
  | cons e es ih =>
    have hrest := @ih (fun s e r t he => hiff s e r t (List.mem_cons_of_mem _ he))
      fun s e r t he => hI s e r t (List.mem_cons_of_mem _ he)
    constructor
    · intro h r t hcall
      obtain ⟨hq, hafter⟩ := h r t hcall
      exact ⟨(hiff s e r t List.mem_cons_self hs hcall).1 hq,
        (hrest (hI s e r t List.mem_cons_self hs hcall hq)).1 hafter⟩
    · intro h r t hcall
      obtain ⟨hr, hafter⟩ := h r t hcall
      have hq := (hiff s e r t List.mem_cons_self hs hcall).2 hr
      exact ⟨hq, (hrest (hI s e r t List.mem_cons_self hs hcall hq)).2 hafter⟩

/-- Two properties that agree on all calls from the states of an invariant, and keep it, agree on whole runs. -/
theorem AllCalls.iff {I : σ → Prop} (hiff : ∀ s e r t, I s → call e s = some (r, t) → (Q s e r t ↔ R s e r t))
    (hI : ∀ s e r t, I s → call e s = some (r, t) → Q s e r t → I t) {s : σ} (hs : I s) :
    AllCalls call Q es s ↔ AllCalls call R es s :=
  AllCalls.iff_of_mem (fun s e r t _ => hiff s e r t) (fun s e r t _ => hI s e r t) hs

/-- The last call of a list, when those before it have returned. -/
theorem AllCalls.last {s t u : σ} {e : ε} {rs : List ρ} {r : ρ} (h : AllCalls call Q (es ++ [e]) s)
    (hrun : runCalls call es s = some (rs, t)) (hcall : call e t = some (r, u)) : Q t e r u := by
  induction es generalizing s rs with
  | nil =>
    cases hrun
    exact (h r u hcall).1
  | cons e' es ih =>
    obtain ⟨r', s', rs', hcall', hrun', -⟩ := runCalls_cons hrun
    exact ih (h r' s' hcall').2 hrun'

end Calls

end SoemMotion.Lib
