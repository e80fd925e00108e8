import Mathlib.Data.List.Basic
import SoemMotion.Lib.Run

/-!
# Machines that answer calls

A machine is a function `call : ε → σ → ρ × σ` that takes a call in a state to an answer and the next state.  A
relation that two machines keep while they give the same answers makes them give the same answers to every list of
calls.  Where calls may fail, `outcomes` are the answers up to the first failure, and the failure.
-/

namespace SoemMotion.Lib

variable {σ τ ε ρ : Type*} {call : ε → σ → ρ × σ} {call' : ε → τ → ρ × τ}

/-- The answers to a list of calls, and the state after them. -/
def answers (call : ε → σ → ρ × σ) : List ε → σ → List ρ × σ
  | [], s => ([], s)
  | e :: es, s => ((call e s).1 :: (answers call es (call e s).2).1, (answers call es (call e s).2).2)

theorem answers_append (call : ε → σ → ρ × σ) (es fs : List ε) (s : σ) : answers call (es ++ fs) s =
    ((answers call es s).1 ++ (answers call fs (answers call es s).2).1,
    (answers call fs (answers call es s).2).2) := by
  induction es generalizing s with
  | nil => rfl
  | cons e es ih =>
    show ((call e s).1 :: (answers call (es ++ fs) (call e s).2).1, (answers call (es ++ fs) (call e s).2).2) = _
    rw [ih]
    rfl

theorem answers_concat (call : ε → σ → ρ × σ) (es : List ε) (e : ε) (s : σ) : answers call (es ++ [e]) s =
    ((answers call es s).1 ++ [(call e (answers call es s).2).1], (call e (answers call es s).2).2) :=
  answers_append call es [e] s

/-- Machines that answer alike in related states, and stay related, answer every list of calls alike. -/
theorem answers_simulate {R : σ → τ → Prop}
    (hstep : ∀ e s t, R s t → (call e s).1 = (call' e t).1 ∧ R (call e s).2 (call' e t).2)
    (es : List ε) {s : σ} {t : τ} (h : R s t) :
    (answers call es s).1 = (answers call' es t).1 ∧ R (answers call es s).2 (answers call' es t).2 := by
  induction es generalizing s t with
  | nil => exact ⟨rfl, h⟩
  | cons e es ih =>
    obtain ⟨hanswer, hnext⟩ := hstep e s t h
    obtain ⟨hanswers, hlast⟩ := ih hnext
    refine ⟨?_, hlast⟩
    show (call e s).1 :: _ = (call' e t).1 :: _
    rw [hanswer, hanswers]

/-- If every call returns in related states, with the answer of the other machine, every list of calls does. -/
theorem runCalls_answers {run : ε → σ → Option (ρ × σ)} {R : σ → τ → Prop}
    (hstep : ∀ e s t, R s t → ∃ s', run e s = some ((call' e t).1, s') ∧ R s' (call' e t).2)
    (es : List ε) {s : σ} {t : τ} (h : R s t) :
    ∃ s', runCalls run es s = some ((answers call' es t).1, s') ∧ R s' (answers call' es t).2 := by
  induction es generalizing s t with
  | nil => exact ⟨s, rfl, h⟩
  | cons e es ih =>
    obtain ⟨s₁, hcall, hnext⟩ := hstep e s t h
    obtain ⟨s₂, hrun, hlast⟩ := ih hnext
    refine ⟨s₂, ?_, hlast⟩
    unfold runCalls
    rw [hcall]
    simp [hrun, answers]

/-! ### Calls that may fail -/

section Outcomes

variable {α : Type*} {run : ε → σ → Except α (ρ × σ)} {run' : ε → τ → Except α (ρ × τ)} {es : List ε} {e : ε}
  {s : σ} {t : τ} {r : ρ} {x : α}

/-- The answers to a list of calls up to the first that fails, and how it fails. -/
def outcomes (run : ε → σ → Except α (ρ × σ)) : List ε → σ → List ρ × Option α
  | [], _ => ([], none)
  | e :: es, s =>
    match run e s with
    | .error x => ([], some x)
    | .ok (r, t) => (r :: (outcomes run es t).1, (outcomes run es t).2)

theorem outcomes_error (h : run e s = .error x) : outcomes run (e :: es) s = ([], some x) := by
  unfold outcomes
  rw [h]

theorem outcomes_ok {s' : σ} (h : run e s = .ok (r, s')) :
    outcomes run (e :: es) s = (r :: (outcomes run es s').1, (outcomes run es s').2) := by
  conv_lhs => unfold outcomes
  rw [h]

/-- If calls keep an invariant where they come back, they fail only as they do in the states of the invariant. -/
theorem outcomes_failure {I : σ → Prop} {Q : α → Prop} (hfail : ∀ e ∈ es, ∀ s x, I s → run e s = .error x → Q x)
    (hstep : ∀ e ∈ es, ∀ s r t, I s → run e s = .ok (r, t) → I t) (h : I s) : ∀ x ∈ (outcomes run es s).2, Q x := by
  induction es generalizing s with
  | nil =>
    intro x hx
    cases hx
  | cons e es ih =>
    cases hrun : run e s with
    | error y =>
      intro x hx
      rw [outcomes_error hrun] at hx
      cases hx
      exact hfail e List.mem_cons_self s _ h hrun
    | ok y =>
      obtain ⟨r, t⟩ := y
      rw [outcomes_ok hrun]
      exact ih (fun e he => hfail e (List.mem_cons_of_mem _ he)) (fun e he => hstep e (List.mem_cons_of_mem _ he))
        (hstep e List.mem_cons_self s r t h hrun)

/-- Machines that end alike in related states, and stay related while they come back, end every list of calls alike. -/
theorem outcomes_simulate {R : σ → τ → Prop}
    (hstep : ∀ e ∈ es, ∀ s t, R s t → (∃ x, run e s = .error x ∧ run' e t = .error x) ∨
      ∃ r s' t', run e s = .ok (r, s') ∧ run' e t = .ok (r, t') ∧ R s' t') (h : R s t) :
    outcomes run es s = outcomes run' es t := by
  induction es generalizing s t with
  | nil => rfl
  | cons e es ih =>
    rcases hstep e List.mem_cons_self s t h with ⟨x, hx, hx'⟩ | ⟨r, s', t', hr, hr', hnext⟩
    · rw [outcomes_error hx, outcomes_error hx']
    · rw [outcomes_ok hr, outcomes_ok hr', ih (fun e he => hstep e (List.mem_cons_of_mem _ he)) hnext]

/-- No list of calls that all satisfy `P` ends in the failure `x`. -/
def Never (run : ε → σ → Except α (ρ × σ)) (P : ε → Prop) (x : α) (s : σ) : Prop :=
  ∀ es, (∀ e ∈ es, P e) → (outcomes run es s).2 ≠ some x

theorem Never.ne_error {P : ε → Prop} (h : Never run P x s) (he : P e) : run e s ≠ .error x := by
  intro hrun
  refine h [e] (by simpa using he) ?_
  rw [outcomes_error hrun]

theorem Never.next {P : ε → Prop} {s' : σ} (h : Never run P x s) (he : P e) (hrun : run e s = .ok (r, s')) :
    Never run P x s' := by
  intro es hes hx
  refine h (e :: es) (List.forall_mem_cons.2 ⟨he, hes⟩) ?_
  rw [outcomes_ok hrun]
  exact hx

end Outcomes

end SoemMotion.Lib
