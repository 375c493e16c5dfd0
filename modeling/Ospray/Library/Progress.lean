import Mathlib.Algebra.Order.Field.Basic
import Mathlib.Algebra.Order.Floor.Semiring
import Mathlib.Tactic.Linarith
import Ospray.Library.Literals

/-!
# Progress towards an end

A place on a line that advances by at least a fixed length reaches any end. The number of such
lengths left to the end is the measure.
-/

namespace Library.Progress

universe u
variable {K : Type u} [Field K] [LinearOrder K] [IsStrictOrderedRing K] [FloorSemiring K]

/-- How many times the length fits between the place and the end, rounded up. -/
def left (length stop place : K) : Nat := ⌈(stop - place) / length⌉₊

variable {length stop place next : K}

theorem left_mono (positive : 0 < length) (ahead : place ≤ next) : left length stop next ≤ left length stop place :=
  Nat.ceil_mono (div_le_div_of_nonneg_right (sub_le_sub_left ahead stop) positive.le)

theorem left_lt (positive : 0 < length) (before : place < stop) (ahead : place + length ≤ next) :
    left length stop next < left length stop place := by
  have shorter : (stop - next) / length + 1 ≤ (stop - place) / length := by
    rw [← sub_nonneg, ← div_self positive.ne', ← add_div, ← sub_div]
    exact div_nonneg (by linarith) positive.le
  rw [left, left, Nat.lt_ceil]
  obtain past | still := le_total ((stop - next) / length) 0
  · rw [Nat.ceil_eq_zero.mpr past, Nat.cast_zero]
    exact div_pos (sub_pos.mpr before) positive
  · exact (Nat.ceil_lt_add_one still).trans_le shorter

end Library.Progress
