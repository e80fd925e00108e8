import SoemMotion.JogFidelity

/-!
# Jogs and closed limit switches

`joint_jog_ok` looks at the sign of the configured velocity.  That is the direction of a continuous jog, but an
incremental jog goes where its frame says, and an absolute jog to its target; and the continuous jog goes to a limit the
axis may have passed already.  So an accepted jog stays away from a closed switch exactly if its target happens to lie
on the right side of the axis.
-/

namespace SoemMotion

/-! ### Truncated targets -/

/-- A position that is not above `n` once it is truncated. -/
def NotAbove (x : ℝ) (n : Int) : Prop := x < n + 1 ∧ (n < 0 → x ≤ n)

/-- A position that is not below `n` once it is truncated. -/
def NotBelow (x : ℝ) (n : Int) : Prop := (n : ℝ) - 1 < x ∧ (0 < n → (n : ℝ) ≤ x)

theorem truncReal_le_iff (x : ℝ) (n : Int) : truncReal x ≤ n ↔ NotAbove x n := by
  unfold truncReal NotAbove
  by_cases hx : 0 ≤ x
  · rw [if_pos hx, ← Int.lt_add_one_iff, Int.floor_lt]
    push_cast
    constructor
    · intro h
      refine ⟨h, fun hn => ?_⟩
      have hn' : (n : ℝ) + 1 ≤ 0 := by exact_mod_cast hn
      linarith
    · exact fun h => h.1
  · rw [if_neg hx, Int.ceil_le]
    constructor
    · intro h
      exact ⟨by linarith, fun _ => h⟩
    · rintro ⟨-, h⟩
      rcases lt_or_ge n 0 with hn | hn
      · exact h hn
      · have hn' : (0 : ℝ) ≤ (n : ℝ) := by exact_mod_cast hn
        linarith

theorem le_truncReal_iff (x : ℝ) (n : Int) : n ≤ truncReal x ↔ NotBelow x n := by
  unfold truncReal NotBelow
  by_cases hx : 0 ≤ x
  · rw [if_pos hx, Int.le_floor]
    constructor
    · intro h
      exact ⟨by linarith, fun _ => h⟩
    · rintro ⟨-, h⟩
      rcases lt_or_ge 0 n with hn | hn
      · exact h hn
      · have hn' : (n : ℝ) ≤ 0 := by exact_mod_cast hn
        linarith
  · rw [if_neg hx, ← Int.sub_one_lt_iff, Int.lt_ceil]
    push_cast
    constructor
    · intro h
      refine ⟨h, fun hn => ?_⟩
      have hn' : (0 : ℝ) + 1 ≤ n := by exact_mod_cast hn
      linarith
    · exact fun h => h.1

/-! ### Targets -/

/-- Where an incremental jog goes, before truncation. -/
noncomputable def jogIncrGoal (axis : Axis ℝ) (cmd : Command ℝ) : ℝ :=
  if cmd.dir ≠ 0 then axis.freeTp.posCmd + cmd.offset else axis.freeTp.posCmd - cmd.offset

theorem jogIncrTarget_eq (axis : Axis ℝ) (cmd : Command ℝ) :
    jogIncrTarget axis cmd = truncReal (jogIncrGoal axis cmd) := by
  unfold jogIncrTarget jogIncrGoal
  split <;> rfl

end SoemMotion
