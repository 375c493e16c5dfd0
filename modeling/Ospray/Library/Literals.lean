import Mathlib.Algebra.Ring.Int.Defs
import Mathlib.Algebra.Ring.Nat

/-!
# Small literals

A literal of `Fin n` rests on a proof that `n` is not zero, and a literal of a ring on a proof that it is at least two.
Here these proofs have names, so that the definitions that have such literals share them.

What holds of the three literals of an axis holds of every axis.
-/

namespace Library.Literals

instance two_ne_zero : NeZero 2 := ⟨Nat.succ_ne_zero 1⟩

instance three_ne_zero : NeZero 3 := ⟨Nat.succ_ne_zero 2⟩

instance four_ne_zero : NeZero 4 := ⟨Nat.succ_ne_zero 3⟩

instance six_ne_zero : NeZero 6 := ⟨Nat.succ_ne_zero 5⟩

instance eight_ne_zero : NeZero 8 := ⟨Nat.succ_ne_zero 7⟩

instance two_atLeastTwo : Nat.AtLeastTwo 2 := ⟨Nat.le_refl 2⟩

instance three_atLeastTwo : Nat.AtLeastTwo 3 := ⟨Nat.le_add_right 2 1⟩

instance four_atLeastTwo : Nat.AtLeastTwo 4 := ⟨Nat.le_add_right 2 2⟩

instance six_atLeastTwo : Nat.AtLeastTwo 6 := ⟨Nat.le_add_right 2 4⟩

@[elab_as_elim]
theorem three_cases {motive : Fin 3 → Prop} (zero : motive 0) (one : motive 1) (two : motive 2) (axis : Fin 3) :
    motive axis := by
  obtain ⟨value, below⟩ := axis
  obtain rfl | rfl | rfl : value = 0 ∨ value = 1 ∨ value = 2 := by omega
  · exact zero
  · exact one
  · exact two

end Library.Literals
