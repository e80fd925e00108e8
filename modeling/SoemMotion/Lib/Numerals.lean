import Mathlib.Data.Nat.Cast.Defs

/-!
# Numerals

The small numerals of formulas over a type with `NatCast` alone.
-/

namespace SoemMotion.Lib

instance atLeastTwo : Nat.AtLeastTwo 2 := ⟨by decide⟩

instance atLeastTwoThree : Nat.AtLeastTwo 3 := ⟨by decide⟩

instance atLeastTwoFour : Nat.AtLeastTwo 4 := ⟨by decide⟩

instance atLeastTwoSix : Nat.AtLeastTwo 6 := ⟨by decide⟩

end SoemMotion.Lib
