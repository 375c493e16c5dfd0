import Mathlib.Tactic.IntervalCases
import Ospray.Library.SplitBits

/-!
# The order of the pixels of a tile

Jobs take the pixels of a tile in z-order: an index holds the column of its pixel in its even
bits and the row in its odd bits. Indices are numbers of 32 bits, of which each half has 16.
-/

namespace Ospray

open Library.SplitBits

/-- `unpartitionZOrder`. -/
def unpartitionZOrder (n : Nat) : Nat :=
  let n := n &&& 0x55555555
  let n := (n ^^^ (n >>> 1)) &&& 0x33333333
  let n := (n ^^^ (n >>> 2)) &&& 0x0F0F0F0F
  let n := (n ^^^ (n >>> 4)) &&& 0x00FF00FF
  (n ^^^ (n >>> 8)) &&& 0x0000FFFF

/-- `z_order.xs`, filled by `deinterleaveZOrder`. -/
def zOrderXs (i : Nat) : Nat := unpartitionZOrder i

/-- `z_order.ys`. -/
def zOrderYs (i : Nat) : Nat := unpartitionZOrder (i >>> 1)

theorem mask_testBit (place : Nat) (inside : place < 32) :
    Nat.testBit 0x55555555 place = decide (place % 2 < 1) ∧ Nat.testBit 0x33333333 place = decide (place % 4 < 2) ∧
      Nat.testBit 0x0F0F0F0F place = decide (place % 8 < 4) ∧ Nat.testBit 0x00FF00FF place = decide (place % 16 < 8) ∧
      Nat.testBit 0x0000FFFF place = decide (place < 16) := by
  revert place
  decide

theorem unpartitionZOrder_testBit (n : Nat) {place : Nat} (low : place < 16) :
    (unpartitionZOrder n).testBit place = n.testBit (2 * place) := by
  have first := fun place inside => (mask_testBit place inside).1
  have second := fun place inside => (mask_testBit place inside).2.1
  have third := fun place inside => (mask_testBit place inside).2.2.1
  have fourth := fun place inside => (mask_testBit place inside).2.2.2.1
  have fifth := fun place inside => (mask_testBit place inside).2.2.2.2
  rw [unpartitionZOrder]
  interval_cases place <;>
    simp only [Nat.testBit_and, Nat.testBit_xor, Nat.testBit_shiftRight, Nat.reduceAdd, Nat.reduceMul, Nat.reduceLT,
      first, second, third, fourth, fifth, Nat.reduceMod, decide_true, decide_false, Bool.and_true, Bool.and_false,
      Bool.xor_false, Bool.false_xor]

theorem unpartitionZOrder_lt (n : Nat) : unpartitionZOrder n < 2 ^ 16 := by
  rw [unpartitionZOrder]
  exact Nat.and_lt_two_pow _ (by decide)

theorem zOrder_splits {i : Nat} (inside : i < 2 ^ 32) : Splits i (zOrderXs i) (zOrderYs i) := by
  refine ⟨fun place => ?_, fun place => ?_⟩
  · obtain low | high := lt_or_ge place 16
    · exact unpartitionZOrder_testBit i low
    · rw [zOrderXs, Nat.testBit_lt_two_pow ((unpartitionZOrder_lt i).trans_le (Nat.pow_le_pow_right Nat.two_pos high)),
        Nat.testBit_lt_two_pow (inside.trans_le (Nat.pow_le_pow_right Nat.two_pos (by omega)))]
  · obtain low | high := lt_or_ge place 16
    · rw [zOrderYs, unpartitionZOrder_testBit _ low, Nat.testBit_shiftRight, Nat.add_comm]
    · rw [zOrderYs, Nat.testBit_lt_two_pow ((unpartitionZOrder_lt _).trans_le (Nat.pow_le_pow_right Nat.two_pos high)),
        Nat.testBit_lt_two_pow (inside.trans_le (Nat.pow_le_pow_right Nat.two_pos (by omega)))]

end Ospray
