import Mathlib.Data.Fin.VecNotation
import Ospray.Library.Loops

/-!
# Row-major addresses

The cells of a three-dimensional array stand in memory with the first index changing
quickest. Cells of the array have different addresses, and all of these lie below the
number of cells.
-/

namespace Library.RowMajor

/-- An index in three dimensions. -/
abbrev Index := Fin 3 → Nat

/-- The address of a cell. -/
def rowMajor (size index : Index) : Nat := index 0 + size 0 * (index 1 + size 1 * index 2)

/-- The number of cells. -/
def volume (size : Index) : Nat := size 0 * (size 1 * size 2)

/-- The cells of an array. -/
def Inside (size index : Index) : Prop := ∀ axis, index axis < size axis

instance (size index : Index) : Decidable (Inside size index) :=
  inferInstanceAs (Decidable (∀ _ : Fin 3, _ < _))

variable {size index first second : Index}

theorem digit_lt {low high count range : Nat} (lowInside : low < count) (highInside : high < range) :
    low + count * high < count * range := by
  have next : count * (high + 1) ≤ count * range := Nat.mul_le_mul_left count highInside
  rw [Nat.mul_succ] at next
  omega

theorem rowMajor_lt (inside : Inside size index) : rowMajor size index < volume size :=
  digit_lt (inside 0) (digit_lt (inside 1) (inside 2))

theorem digit_injective {low high low' high' count : Nat} (lowInside : low < count)
    (lowInside' : low' < count) (same : low + count * high = low' + count * high') :
    low = low' ∧ high = high' := by
  rw [Nat.add_comm, Nat.mul_comm, Nat.add_comm low', Nat.mul_comm count high'] at same
  exact (Library.Loops.stride_injective lowInside lowInside' same).symm

theorem rowMajor_injective (inside : Inside size first) (inside' : Inside size second)
    (same : rowMajor size first = rowMajor size second) : first = second := by
  obtain ⟨zero, rest⟩ := digit_injective (inside 0) (inside' 0) same
  obtain ⟨one, two⟩ := digit_injective (inside 1) (inside' 1) rest
  funext axis
  induction axis using Library.Literals.three_cases with
  | zero => exact zero
  | one => exact one
  | two => exact two

/-- The cell at an address. -/
def cellAt (size : Index) (address : Nat) : Index :=
  ![address % size 0, address / size 0 % size 1, address / (size 0 * size 1)]

theorem rowMajor_cellAt (size : Index) (address : Nat) : rowMajor size (cellAt size address) = address := by
  have low := Nat.mod_add_div address (size 0)
  have high := Nat.mod_add_div (address / size 0) (size 1)
  rw [Nat.div_div_eq_div_mul] at high
  change address % size 0 + size 0 * (address / size 0 % size 1 + size 1 * (address / (size 0 * size 1)))
    = address
  rw [high, low]

theorem cellAt_inside {address : Nat} (below : address < volume size) : Inside size (cellAt size address) := by
  have zero : 0 < size 0 := Nat.pos_of_ne_zero fun none_ => by simp [volume, none_] at below
  have one : 0 < size 1 := Nat.pos_of_ne_zero fun none_ => by simp [volume, none_] at below
  intro axis
  induction axis using Library.Literals.three_cases with
  | zero => exact Nat.mod_lt _ zero
  | one => exact Nat.mod_lt _ one
  | two =>
    change address / (size 0 * size 1) < size 2
    rw [Nat.div_lt_iff_lt_mul (Nat.mul_pos zero one), Nat.mul_comm, Nat.mul_assoc]
    exact below

theorem cellAt_rowMajor (inside : Inside size index) : cellAt size (rowMajor size index) = index :=
  rowMajor_injective (cellAt_inside (rowMajor_lt inside)) inside (rowMajor_cellAt size _)

end Library.RowMajor
