import Mathlib.Logic.Function.Iterate

/-!
# While loops with fuel

`whileFuel c body n s` runs `while (c) body` from `s` for at most `n` tests of the condition, and is `none` when that is
not enough.  The result does not depend on the fuel, and a loop exits exactly when some iterate of its body falsifies
its condition.
-/

namespace SoemMotion.Lib

variable {σ : Type*} {c : σ → Bool} {body : σ → σ}

def whileFuel (c : σ → Bool) (body : σ → σ) : Nat → σ → Option σ
  | 0, _ => none
  | n + 1, s => if c s then whileFuel c body n (body s) else some s

/-- The loop from `s` exits after finitely many iterations. -/
def Exits (c : σ → Bool) (body : σ → σ) (s : σ) : Prop := ∃ n t, whileFuel c body n s = some t

theorem whileFuel_of_false {s : σ} (h : c s = false) (n : Nat) : whileFuel c body (n + 1) s = some s := by
  simp [whileFuel, h]

theorem whileFuel_of_true {s : σ} (h : c s = true) (n : Nat) :
    whileFuel c body (n + 1) s = whileFuel c body n (body s) := by
  simp [whileFuel, h]

/-- A loop that exits at once keeps its state. -/
theorem eq_of_whileFuel_false {n : Nat} {s t : σ} (h : c s = false) (ht : whileFuel c body n s = some t) : t = s := by
  cases n with
  | zero => cases ht
  | succ n =>
    rw [whileFuel_of_false h] at ht
    exact (Option.some.inj ht).symm

/-- A loop whose body falsifies the condition at once runs it exactly once. -/
theorem eq_of_whileFuel_once {n : Nat} {s t : σ} (h : c s = true) (h' : c (body s) = false)
    (ht : whileFuel c body n s = some t) : t = body s := by
  cases n with
  | zero => cases ht
  | succ n =>
    rw [whileFuel_of_true h] at ht
    exact eq_of_whileFuel_false h' ht

/-- What the body keeps while the condition holds, the loop keeps. -/
theorem whileFuel_invariant {I : σ → Prop} (hbody : ∀ s, c s = true → I s → I (body s)) {n : Nat} {s t : σ}
    (hs : I s) (ht : whileFuel c body n s = some t) : I t := by
  induction n generalizing s with
  | zero => cases ht
  | succ n ih =>
    cases hc : c s with
    | false =>
      rw [whileFuel_of_false hc] at ht
      cases ht
      exact hs
    | true =>
      rw [whileFuel_of_true hc] at ht
      exact ih (hbody s hc hs) ht

theorem exits_of_false {s : σ} (h : c s = false) : Exits c body s := ⟨1, s, whileFuel_of_false h 0⟩

theorem Exits.step {s : σ} (h : Exits c body (body s)) : Exits c body s := by
  cases hc : c s with
  | false => exact exits_of_false hc
  | true =>
    obtain ⟨n, t, ht⟩ := h
    exact ⟨n + 1, t, by rw [whileFuel_of_true hc, ht]⟩

/-- A loop whose body keeps an invariant that implies the condition never exits. -/
theorem not_exits_of_invariant {I : σ → Prop} (hc : ∀ s, I s → c s = true) (hbody : ∀ s, I s → I (body s)) {s : σ}
    (hs : I s) : ¬ Exits c body s := by
  rintro ⟨n, t, ht⟩
  induction n generalizing s with
  | zero => cases ht
  | succ n ih =>
    rw [whileFuel_of_true (hc s hs)] at ht
    exact ih (hbody s hs) ht

end SoemMotion.Lib
