import Mathlib.Data.Fin.VecNotation
import Mathlib.Tactic.Common
import Mathlib.Tactic.Ring
import Ospray.Library.Literals

/-!
# Repeated arrays

`Array3DRepeater` makes an array look larger by repeating it, every other time in reverse, so that equal values meet at
the seams. It folds an index at its own size, where the mirrored repetition folds it at the size of what is repeated. So
no index that it has is ever folded, and what is repeated gets indices beyond its own size.

The components of an index and of a size are those of `vec3i`. No operation overflows for indices inside a size.
-/

namespace Ospray.Arrays

variable {T : Type}

/-- `vec3i` -/
abbrev Vec3i := Fin 3 → Int

/-- The interface of all arrays. -/
structure Array3D (T : Type) where
  size : Vec3i
  get (index : Vec3i) : T

/-- The valid indices of a size. -/
abbrev Inside (size index : Vec3i) : Prop := ∀ axis, 0 ≤ index axis ∧ index axis < size axis

/-- `ActualArray3D`, with the values it points to. An index outside goes to the nearest cell. -/
def ActualArray3D (dims : Vec3i) (value : Nat → T) : Array3D T where
  size := dims
  get index :=
    let nearest (axis : Fin 3) := max 0 (min (index axis) (dims axis - 1))
    value (nearest 0 + dims 0 * (nearest 1 + dims 1 * nearest 2)).toNat

/-- What `Array3DRepeater::get` does with one component. -/
def foldAxis (repeatedSize index : Int) : Int :=
  let folded := index.tmod repeatedSize
  if (index.tdiv repeatedSize).tmod 2 ≠ 0 then repeatedSize - 1 - folded else folded

/-- The index at which `Array3DRepeater::get` asks the actual array. -/
def folded (repeatedSize index : Vec3i) : Vec3i := fun axis => foldAxis (repeatedSize axis) (index axis)

/-- `Array3DRepeater` -/
def Array3DRepeater (actual : Array3D T) (repeatedSize : Vec3i) : Array3D T where
  size := repeatedSize
  get index := actual.get (folded repeatedSize index)

/-! ## Mirrored repetition -/

/-- Even repetitions in order, odd ones reversed. -/
def mirror (size index : Int) : Int :=
  if index / size % 2 = 0 then index % size else size - 1 - index % size

variable {size index : Int}

theorem mirror_of_lt (least : 0 ≤ index) (less : index < size) : mirror size index = index := by
  rw [mirror, Int.ediv_eq_zero_of_lt least less, if_pos (by decide), Int.emod_eq_of_lt least less]

theorem foldAxis_eq (positive : 0 < size) (least : 0 ≤ index) : foldAxis size index = mirror size index := by
  have quotient : 0 ≤ index / size := Int.ediv_nonneg least (Int.le_of_lt positive)
  rw [foldAxis, mirror, Int.tmod_eq_emod_of_nonneg least, Int.tdiv_eq_ediv_of_nonneg least,
    Int.tmod_eq_emod_of_nonneg quotient, ite_not]

/-! ## The repeater -/

/-- The component-wise mirrored repetition. -/
def mirrored (size index : Vec3i) : Vec3i := fun axis => mirror (size axis) (index axis)

variable {size index : Vec3i}

theorem folded_of_inside {repeatedSize : Vec3i} (inside : Inside repeatedSize index) : folded repeatedSize index = index := by
  funext axis
  obtain ⟨least, less⟩ := inside axis
  rw [folded, foldAxis_eq (Int.lt_of_le_of_lt least less) least, mirror_of_lt least less]

/-- The repeater asks for the mirrored index, which is inside, exactly at the indices that the repeated array has
itself. -/
theorem repeater_mirrors_iff (actual : Array3D T) (repeatedSize index : Vec3i) (inside : Inside repeatedSize index) :
    ((Array3DRepeater actual repeatedSize).get index = actual.get (mirrored actual.size index) ∧
        Inside actual.size (folded repeatedSize index)) ↔
      Inside actual.size index := by
  have asked : (Array3DRepeater actual repeatedSize).get index = actual.get (folded repeatedSize index) := rfl
  rw [asked, folded_of_inside inside]
  constructor
  · exact fun both => both.2
  · intro own
    have same : mirrored actual.size index = index := by
      funext axis
      exact mirror_of_lt (own axis).1 (own axis).2
    exact ⟨by rw [same], own⟩

/-- Two cells that are repeated once. -/
def twoCells : Array3D Nat := ActualArray3D ![2, 1, 1] fun index => if index = 0 then 10 else 20

/-- The cells themselves. -/
theorem repeater_mirrors_iff_second :
    (Array3DRepeater twoCells ![4, 1, 1]).get ![1, 0, 0] = twoCells.get (mirrored twoCells.size ![1, 0, 0]) ∧
      Inside twoCells.size (folded ![4, 1, 1] ![1, 0, 0]) :=
  (repeater_mirrors_iff twoCells ![4, 1, 1] ![1, 0, 0] (by decide)).mpr (by decide)

/-- The last of four indices is the first cell, mirrored, and the repeater returns the second one. -/
theorem repeater_border : ¬∀ (actual : Array3D Nat) (_ : ∀ axis, 1 ≤ actual.size axis) (repeatedSize index : Vec3i),
    Inside repeatedSize index →
      (Array3DRepeater actual repeatedSize).get index = actual.get (mirrored actual.size index) := by
  intro mirrors
  have equal := mirrors twoCells (by decide) ![4, 1, 1] ![3, 0, 0] (by decide)
  exact absurd equal (by decide)

end Ospray.Arrays
