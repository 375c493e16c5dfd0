import Mathlib.Algebra.Order.Field.Basic
import Mathlib.Algebra.Order.Floor.Semiring
import Ospray.Library.Literals

/-!
# Inversion of a table of cumulative values

A table of cumulative values is read as a step function from indices to places. A place selects
the index at whose step the table passes it. The step there is positive, the fraction of the step
left of the place is less than one, so that index and fraction together determine the index.
-/

namespace Library.InverseSampling

universe u
variable {K : Type u} [Field K] [LinearOrder K] [IsStrictOrderedRing K]

/-- The cumulative value before an index. -/
def before (table : Nat → K) : Nat → K
  | 0 => 0
  | index + 1 => table index

/-- The table passes the place at the index. -/
structure Selects (table : Nat → K) (size : Nat) (place : K) (index : Nat) : Prop where
  inside : index < size
  reached : before table index ≤ place
  below : place < table index

variable {table : Nat → K} {size index : Nat} {place : K}

/-- The part of the step at the index that is left of the place. -/
def fraction (table : Nat → K) (index : Nat) (place : K) : K :=
  (place - before table index) / (table index - before table index)

theorem Selects.step_pos (selects : Selects table size place index) : 0 < table index - before table index :=
  sub_pos.mpr (selects.reached.trans_lt selects.below)

theorem Selects.fraction_nonneg (selects : Selects table size place index) : 0 ≤ fraction table index place :=
  div_nonneg (sub_nonneg.mpr selects.reached) selects.step_pos.le

theorem Selects.fraction_lt_one (selects : Selects table size place index) : fraction table index place < 1 := by
  rw [fraction, div_lt_one selects.step_pos]
  exact sub_lt_sub_right selects.below _

theorem Selects.floor_eq [FloorSemiring K] (selects : Selects table size place index) :
    ⌊(index : K) + fraction table index place⌋₊ = index := by
  rw [Nat.floor_eq_iff (add_nonneg index.cast_nonneg selects.fraction_nonneg)]
  exact ⟨le_add_of_nonneg_right selects.fraction_nonneg, add_lt_add_right selects.fraction_lt_one _⟩

end Library.InverseSampling
