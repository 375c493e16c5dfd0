import Mathlib.Data.Fin.VecNotation
import Mathlib.Data.List.Perm.Basic
import Mathlib.Data.List.Range
import Ospray.Library.Replicas
import Ospray.Library.RowMajor

/-!
# Structured volumes

What the layouts of structured volumes share: machine integers, dimensions, regions of
voxels, the rows a region is copied by, and the meaning of a sequence of `setRegion`
calls. The memory of a volume is given by cells of the size of a voxel, numbered from the
start of the allocation; what lies before and behind it belongs to others.
-/

namespace Ospray.Structured

open Library.RowMajor Library.Replicas

/-- The value of an `int` computation. -/
def toInt32 (value : Int) : Int := value.bmod (2 ^ 32)

/-- The value of an `int64` computation. -/
def toInt64 (value : Int) : Int := value.bmod (2 ^ 64)

/-- The value of a `uint32` computation. -/
def toUInt32 (value : Int) : Nat := (value % 2 ^ 32).toNat

/-- The value of a `uint64` or `size_t` computation. -/
def toUInt64 (value : Int) : Nat := (value % 2 ^ 64).toNat

theorem toInt32_eq {value : Int} (low : -2 ^ 31 ≤ value) (high : value < 2 ^ 31) :
    toInt32 value = value := by
  rw [toInt32, Int.bmod_def]
  omega

theorem toInt32_sum {value : Int} (low : -2 ^ 31 ≤ value) (high : value < 2 ^ 32) :
    toInt32 value = value ∨ toInt32 value < 0 ∧ 2 ^ 31 ≤ value := by
  rw [toInt32, Int.bmod_def]
  omega

theorem toInt64_eq {value : Int} (low : -2 ^ 63 ≤ value) (high : value < 2 ^ 63) :
    toInt64 value = value := by
  rw [toInt64, Int.bmod_def]
  omega

theorem toUInt32_natCast {value : Nat} (high : value < 2 ^ 32) : toUInt32 value = value := by
  rw [toUInt32]
  omega

theorem toUInt64_natCast {value : Nat} (high : value < 2 ^ 64) : toUInt64 value = value := by
  rw [toUInt64]
  omega

/-- `vec3i` -/
abbrev Vec3i := Fin 3 → Int

/-- The types of voxels. -/
inductive VoxelType where
  | uint8 | int16 | uint16 | float | double
  deriving DecidableEq, Repr

/-- The size of a voxel in bytes. -/
def VoxelType.bytes : VoxelType → Nat
  | .uint8 => 1
  | .int16 => 2
  | .uint16 => 2
  | .float => 4
  | .double => 8

theorem bytes_pos (voxelType : VoxelType) : 0 < voxelType.bytes := by
  cases voxelType <;> decide

/-- The dimensions a volume is created with. -/
structure Dimensions where
  size : Index
  positive : ∀ axis, 0 < size axis
  range : ∀ axis, size axis < 2 ^ 31

/-- The cells of a memory, numbered from the start of the volume's data. -/
abbrev Memory (V : Type) := Int → V

variable {V F : Type}

/-- The arguments of `setRegion`. -/
structure Region (V : Type) where
  source : Nat → V
  regionCoords : Vec3i
  regionSize : Index
  coordsRange : ∀ axis, -2 ^ 31 ≤ regionCoords axis ∧ regionCoords axis < 2 ^ 31
  sizeRange : ∀ axis, regionSize axis < 2 ^ 31

namespace Region

/-- A region covers a position of the volume. -/
def Covers (region : Region V) (voxel : Index) : Prop :=
  ∀ axis, region.regionCoords axis ≤ voxel axis ∧
    (voxel axis : Int) < region.regionCoords axis + region.regionSize axis

instance (region : Region V) (voxel : Index) : Decidable (region.Covers voxel) :=
  inferInstanceAs (Decidable (∀ _ : Fin 3, _ ∧ _))

/-- What a region holds for a position of the volume: the voxels of the source are in row-major
order. -/
def value (region : Region V) (voxel : Index) : Option V :=
  if region.Covers voxel then
    some (region.source (rowMajor region.regionSize fun axis =>
      (voxel axis - region.regionCoords axis).toNat))
  else none

/-- The index of the first voxel of a row in the source. -/
def runOfs (region : Region V) (region_y region_z : Nat) : Nat :=
  toUInt64 (region.regionSize 0 * (region_y + region.regionSize 1 * region_z))

end Region

/-- The loop over the voxels of a row in the tasks of `setRegion`; only voxels inside the volume
are written. -/
def setRegionTask (dimensions : Dimensions) (write : Index → V → Memory V → Memory V)
    (region : Region V) (taskIndex : Int) (memory : Memory V) : Memory V :=
  let region_y := toUInt32 (taskIndex.tmod (region.regionSize 1))
  let region_z := toUInt32 (taskIndex.tdiv (region.regionSize 1))
  (List.range (region.regionSize 0)).foldl (fun memory (x : Nat) =>
    let coord : Vec3i := ![toInt32 (region.regionCoords 0 + x),
      toInt32 (region.regionCoords 1 + region_y), toInt32 (region.regionCoords 2 + region_z)]
    if ∃ axis, coord axis < 0 ∨ coord axis ≥ dimensions.size axis then memory
    else write (fun axis => (coord axis).toNat)
      (region.source (region.runOfs region_y region_z + x)) memory) memory

/-! ## What the rows write -/

/-- The coordinates of a voxel of a row. -/
def coordOf (region : Region V) (y z x : Nat) : Vec3i :=
  ![toInt32 (region.regionCoords 0 + x), toInt32 (region.regionCoords 1 + y),
    toInt32 (region.regionCoords 2 + z)]

/-- What the loop of a row writes at one step: a voxel of the volume and its value. -/
def rowWrite (dimensions : Dimensions) (region : Region V) (y z x : Nat) : Option (Index × V) :=
  if ∃ axis, coordOf region y z x axis < 0 ∨ coordOf region y z x axis ≥ dimensions.size axis then
    none
  else some (fun axis => (coordOf region y z x axis).toNat, region.source (region.runOfs y z + x))

/-- The writes of one row. -/
def rowWrites (dimensions : Dimensions) (region : Region V) (task : Nat) : List (Index × V) :=
  (List.range (region.regionSize 0)).filterMap
    (rowWrite dimensions region (task % region.regionSize 1) (task / region.regionSize 1))

variable {dimensions : Dimensions} {region : Region V}

/-- A task does the writes of its row. -/
theorem setRegionTask_eq {write : Index → V → Memory V → Memory V} {place : Index → List Int}
    (writes : ∀ voxel value memory, Inside dimensions.size voxel →
      write voxel value memory = writeCells (place voxel) value memory)
    {task : Nat} (small : task < 2 ^ 31) (memory : Memory V) :
    setRegionTask dimensions write region task memory =
      writeAll place (rowWrites dimensions region task) memory := by
  have y : toUInt32 ((task : Int).tmod (region.regionSize 1)) = task % region.regionSize 1 := by
    rw [← Int.ofNat_tmod]
    exact toUInt32_natCast (by have := Nat.mod_le task (region.regionSize 1); omega)
  have z : toUInt32 ((task : Int).tdiv (region.regionSize 1)) = task / region.regionSize 1 := by
    rw [← Int.ofNat_tdiv]
    exact toUInt32_natCast (by have := Nat.div_le_self task (region.regionSize 1); omega)
  rw [setRegionTask, y, z, rowWrites, writeAll, List.foldl_filterMap]
  congr 1
  funext memory x
  let coord := coordOf region (task % region.regionSize 1) (task / region.regionSize 1) x
  change (if ∃ axis, coord axis < 0 ∨ coord axis ≥ dimensions.size axis then memory else
    write (fun axis => (coord axis).toNat) _ memory) = _
  by_cases outside : ∃ axis, coord axis < 0 ∨ coord axis ≥ dimensions.size axis
  · rw [if_pos outside, rowWrite, if_pos outside]
  · rw [if_neg outside, rowWrite, if_neg outside]
    refine writes _ _ _ fun axis => ?_
    have bounds := not_or.mp (not_exists.mp outside axis)
    omega

/-- In the range of coordinates, a step of a row writes exactly the voxel at its position, if that
is in the volume. -/
theorem rowWrite_eq_some {y z x : Nat} (ySmall : y < 2 ^ 31) (zSmall : z < 2 ^ 31)
    (xSmall : x < 2 ^ 31) (voxel : Index) (value : V) :
    rowWrite dimensions region y z x = some (voxel, value) ↔
      Inside dimensions.size voxel ∧
        (voxel 0 : Int) = region.regionCoords 0 + x ∧ (voxel 1 : Int) = region.regionCoords 1 + y ∧
        (voxel 2 : Int) = region.regionCoords 2 + z ∧
        value = region.source (region.runOfs y z + x) := by
  have zero := region.coordsRange 0
  have one := region.coordsRange 1
  have two := region.coordsRange 2
  have sizeZero := dimensions.range 0
  have sizeOne := dimensions.range 1
  have sizeTwo := dimensions.range 2
  have coordZero : coordOf region y z x 0 = toInt32 (region.regionCoords 0 + x) := rfl
  have coordOne : coordOf region y z x 1 = toInt32 (region.regionCoords 1 + y) := rfl
  have coordTwo : coordOf region y z x 2 = toInt32 (region.regionCoords 2 + z) := rfl
  have exactZero := @toInt32_sum (region.regionCoords 0 + x) (by omega) (by omega)
  have exactOne := @toInt32_sum (region.regionCoords 1 + y) (by omega) (by omega)
  have exactTwo := @toInt32_sum (region.regionCoords 2 + z) (by omega) (by omega)
  constructor
  · intro written
    rw [rowWrite] at written
    split at written
    · cases written
    · rename_i inside
      obtain ⟨same, rfl⟩ := Prod.ext_iff.mp (Option.some.inj written)
      have voxelOf : ∀ axis, voxel axis = (coordOf region y z x axis).toNat :=
        fun axis => (congrFun same axis).symm
      have bounds := fun axis => not_or.mp (not_exists.mp inside axis)
      have boundsZero := bounds 0
      have boundsOne := bounds 1
      have boundsTwo := bounds 2
      have voxelZero := voxelOf 0
      have voxelOne := voxelOf 1
      have voxelTwo := voxelOf 2
      refine ⟨fun axis => ?_, by omega, by omega, by omega, rfl⟩
      have own := voxelOf axis
      have bound := bounds axis
      omega
  · rintro ⟨inside, zeroSame, oneSame, twoSame, rfl⟩
    have insideZero := inside 0
    have insideOne := inside 1
    have insideTwo := inside 2
    have voxelOf : ∀ axis, coordOf region y z x axis = voxel axis := by
      intro axis
      induction axis using Library.Literals.three_cases with
      | zero => omega
      | one => omega
      | two => omega
    rw [rowWrite, if_neg]
    · refine congrArg some (Prod.ext (funext fun axis => ?_) rfl)
      change (coordOf region y z x axis).toNat = voxel axis
      rw [voxelOf, Int.toNat_natCast]
    · rintro ⟨axis, outside⟩
      have bound := inside axis
      rw [voxelOf] at outside
      omega

/-- The values of a region by their position in it. -/
theorem value_eq_some (voxel : Index) (value : V) :
    region.value voxel = some value ↔ ∃ x y z, x < region.regionSize 0 ∧ y < region.regionSize 1 ∧
      z < region.regionSize 2 ∧ (voxel 0 : Int) = region.regionCoords 0 + x ∧
      (voxel 1 : Int) = region.regionCoords 1 + y ∧ (voxel 2 : Int) = region.regionCoords 2 + z ∧
      value = region.source (rowMajor region.regionSize ![x, y, z]) := by
  have position : ∀ {x y z : Nat}, (voxel 0 : Int) = region.regionCoords 0 + x →
      (voxel 1 : Int) = region.regionCoords 1 + y → (voxel 2 : Int) = region.regionCoords 2 + z →
      (fun axis => (voxel axis - region.regionCoords axis).toNat) = ![x, y, z] := by
    intro x y z zeroSame oneSame twoSame
    funext axis
    induction axis using Library.Literals.three_cases with
    | zero => exact (by omega : (voxel 0 - region.regionCoords 0).toNat = x)
    | one => exact (by omega : (voxel 1 - region.regionCoords 1).toNat = y)
    | two => exact (by omega : (voxel 2 - region.regionCoords 2).toNat = z)
  rw [Region.value]
  constructor
  · intro held
    split at held
    case isFalse => cases held
    case isTrue covers =>
      have zero := covers 0
      have one := covers 1
      have two := covers 2
      obtain ⟨x, xSame⟩ := Int.eq_ofNat_of_zero_le (Int.sub_nonneg.mpr zero.1)
      obtain ⟨y, ySame⟩ := Int.eq_ofNat_of_zero_le (Int.sub_nonneg.mpr one.1)
      obtain ⟨z, zSame⟩ := Int.eq_ofNat_of_zero_le (Int.sub_nonneg.mpr two.1)
      have zeroSame : (voxel 0 : Int) = region.regionCoords 0 + x := by omega
      have oneSame : (voxel 1 : Int) = region.regionCoords 1 + y := by omega
      have twoSame : (voxel 2 : Int) = region.regionCoords 2 + z := by omega
      refine ⟨x, y, z, by omega, by omega, by omega, zeroSame, oneSame, twoSame, ?_⟩
      rw [← Option.some.inj held, position zeroSame oneSame twoSame]
  · rintro ⟨x, y, z, xInside, yInside, zInside, zeroSame, oneSame, twoSame, rfl⟩
    have covers : region.Covers voxel := by
      intro axis
      induction axis using Library.Literals.three_cases with
      | zero => omega
      | one => omega
      | two => omega
    rw [if_pos covers, position zeroSame oneSame twoSame]

theorem runOfs_eq (rows : region.regionSize 1 * region.regionSize 2 < 2 ^ 31) {y z : Nat}
    (yInside : y < region.regionSize 1) (zInside : z < region.regionSize 2) (x : Nat) :
    region.runOfs y z + x = rowMajor region.regionSize ![x, y, z] := by
  have line := digit_lt yInside zInside
  have small : region.regionSize 0 * (y + region.regionSize 1 * z) ≤ (2 ^ 31) * (2 ^ 31) :=
    Nat.mul_le_mul (region.sizeRange 0).le (line.trans rows).le
  have exact_ : region.runOfs y z = region.regionSize 0 * (y + region.regionSize 1 * z) := by
    rw [Region.runOfs]
    exact_mod_cast @toUInt64_natCast (region.regionSize 0 * (y + region.regionSize 1 * z))
      (by omega)
  rw [exact_, Nat.add_comm]
  rfl

/-- The tasks of a region, whose numbers are exact, write exactly the values of the region in the
volume. -/
theorem mem_rowWrites (rows : region.regionSize 1 * region.regionSize 2 < 2 ^ 31) {order : List Nat}
    (all : order.Perm (List.range (region.regionSize 1 * region.regionSize 2))) (voxel : Index)
    (value : V) :
    (voxel, value) ∈ order.flatMap (rowWrites dimensions region) ↔
      Inside dimensions.size voxel ∧ region.value voxel = some value := by
  have sizeZero := region.sizeRange 0
  have sizeOne := region.sizeRange 1
  have sizeTwo := region.sizeRange 2
  rw [value_eq_some]
  constructor
  · intro member
    obtain ⟨task, listed, member⟩ := List.mem_flatMap.mp member
    obtain ⟨x, xListed, written⟩ := List.mem_filterMap.mp member
    have xInside := List.mem_range.mp xListed
    have inRange := List.mem_range.mp (all.mem_iff.mp listed)
    have yPositive : 0 < region.regionSize 1 := Nat.pos_of_ne_zero fun zero => by
      rw [zero, Nat.zero_mul] at inRange
      omega
    have yInside := Nat.mod_lt task yPositive
    have zInside : task / region.regionSize 1 < region.regionSize 2 :=
      Nat.div_lt_of_lt_mul inRange
    generalize task % region.regionSize 1 = y at written yInside
    generalize task / region.regionSize 1 = z at written zInside
    obtain ⟨inside, zeroSame, oneSame, twoSame, same⟩ :=
      (rowWrite_eq_some (by omega) (by omega) (by omega) voxel value).mp written
    rw [runOfs_eq rows yInside zInside] at same
    exact ⟨inside, x, y, z, xInside, yInside, zInside, zeroSame, oneSame, twoSame, same⟩
  · rintro ⟨inside, x, y, z, xInside, yInside, zInside, zeroSame, oneSame, twoSame, same⟩
    have remainder : (y + region.regionSize 1 * z) % region.regionSize 1 = y := by
      rw [Nat.add_mul_mod_self_left, Nat.mod_eq_of_lt yInside]
    have quotient : (y + region.regionSize 1 * z) / region.regionSize 1 = z := by
      rw [Nat.add_mul_div_left _ _ (Nat.zero_lt_of_lt yInside), Nat.div_eq_of_lt yInside,
        Nat.zero_add]
    refine List.mem_flatMap.mpr ⟨y + region.regionSize 1 * z, ?_, List.mem_filterMap.mpr
      ⟨x, List.mem_range.mpr xInside, ?_⟩⟩
    · exact all.mem_iff.mpr (List.mem_range.mpr (digit_lt yInside zInside))
    · rw [remainder, quotient, rowWrite_eq_some (by omega) (by omega) (by omega),
        runOfs_eq rows yInside zInside]
      exact ⟨inside, zeroSame, oneSame, twoSame, same⟩

section Rows

variable {write : Index → V → Memory V → Memory V} {place : Index → List Int}
  (writes : ∀ voxel value memory, Inside dimensions.size voxel →
    write voxel value memory = writeCells (place voxel) value memory)
  (rows : region.regionSize 1 * region.regionSize 2 < 2 ^ 31) {order : List Nat}
  (all : order.Perm (List.range (region.regionSize 1 * region.regionSize 2)))

include writes rows all

/-- The tasks of a call, in any order, do the writes of their rows. -/
theorem tasks_eq (memory : Memory V) :
    order.foldl (fun memory (task : Nat) =>
      setRegionTask dimensions write region (toInt32 task) memory) memory =
      writeAll place (order.flatMap (rowWrites dimensions region)) memory := by
  have small : ∀ task ∈ order, task < 2 ^ 31 := fun task listed =>
    (List.mem_range.mp (all.mem_iff.mp listed)).trans rows
  clear all
  induction order generalizing memory with
  | nil => rfl
  | cons task rest inductionHypothesis =>
    have own := small task List.mem_cons_self
    have exact_ : toInt32 (task : Int) = task := toInt32_eq (by omega) (by omega)
    rw [List.foldl_cons, exact_, setRegionTask_eq writes own,
      inductionHypothesis _ fun later member => small later (List.mem_cons_of_mem _ member),
      List.flatMap_cons, writeAll, writeAll, writeAll, List.foldl_append]

theorem tasks_perform
    (apart : ∀ voxel other address, Inside dimensions.size voxel → Inside dimensions.size other →
      address ∈ place voxel → address ∈ place other → voxel = other) :
    Performs place (Inside dimensions.size) region.value fun memory =>
      order.foldl (fun memory (task : Nat) =>
        setRegionTask dimensions write region (toInt32 task) memory) memory := by
  rw [funext (tasks_eq writes rows all)]
  exact performs_writeAll (mem_rowWrites rows all) apart

theorem tasks_other (memory : Memory V) {address : Int}
    (other : ∀ voxel, Inside dimensions.size voxel → address ∉ place voxel) :
    order.foldl (fun memory (task : Nat) =>
      setRegionTask dimensions write region (toInt32 task) memory) memory address =
      memory address := by
  rw [tasks_eq writes rows all]
  refine writeAll_other ?_
  rintro ⟨voxel, value⟩ listed
  exact other voxel ((mem_rowWrites rows all voxel value).mp listed).1

end Rows

/-! ## Voxel stores -/

/-- A layout: its calls, the region each call copies, and what it does to the memory. -/
structure VoxelStore (V F : Type) where
  Call : Type
  region : Call → Region V
  setRegion : Call → Memory V → Memory V
  getVoxel : Memory V → Index → F
  cells : Nat

namespace VoxelStore

/-- A sequence of calls. -/
def run (store : VoxelStore V F) (calls : List store.Call) (memory : Memory V) : Memory V :=
  calls.foldl (fun memory call => store.setRegion call memory) memory

/-- A layout stores voxels: after any admissible calls every voxel of the volume has the value
last written to it, or what it had; a call changes no voxel that its region does not cover, and
nothing outside the memory of the volume. -/
structure Stores (store : VoxelStore V F) (toFloat : V → F) (dimensions : Index)
    (admissible : Region V → Prop) : Prop where
  last : ∀ calls memory, (∀ call ∈ calls, admissible (store.region call)) →
    ∀ voxel, Inside dimensions voxel →
      store.getVoxel (store.run calls memory) voxel =
        ((lastWritten (calls.map fun call => (store.region call).value) voxel).map toFloat).getD
          (store.getVoxel memory voxel)
  others : ∀ call memory, admissible (store.region call) → ∀ voxel, Inside dimensions voxel →
    ¬ (store.region call).Covers voxel →
      store.getVoxel (store.setRegion call memory) voxel = store.getVoxel memory voxel
  contained : ∀ call memory, admissible (store.region call) → ∀ address : Int,
    ¬ (0 ≤ address ∧ address < store.cells) → store.setRegion call memory address = memory address

/-- A layout with replicas stores voxels if its calls perform their regions and a voxel is read
from one of its cells. -/
theorem stores_of_performs (store : VoxelStore V F) {toFloat : V → F} {dimensions : Index}
    {admissible : Region V → Prop} (place : Index → List Int)
    (performs : ∀ call, admissible (store.region call) →
      Performs place (Inside dimensions) (store.region call).value (store.setRegion call))
    (reads : ∀ voxel, Inside dimensions voxel → ∃ address ∈ place voxel,
      ∀ memory, store.getVoxel memory voxel = toFloat (memory address))
    (contained : ∀ call memory, admissible (store.region call) → ∀ address : Int,
      ¬ (0 ≤ address ∧ address < store.cells) →
        store.setRegion call memory address = memory address) :
    store.Stores toFloat dimensions admissible where
  last calls memory allowed voxel inside := by
    obtain ⟨address, own, read⟩ := reads voxel inside
    have performed := performs_run (fun call => (store.region call).value) store.setRegion
      (fun call member => performs call (allowed call member)) memory voxel inside address own
    rw [read, read, run]
    refine (congrArg toFloat performed).trans ?_
    cases lastWritten (calls.map fun call => (store.region call).value) voxel <;> rfl
  others call memory allowed voxel inside outside := by
    obtain ⟨address, own, read⟩ := reads voxel inside
    rw [read, read, performs call allowed memory voxel inside address own, Region.value,
      if_neg outside]
    rfl
  contained := contained

end VoxelStore

end Ospray.Structured
