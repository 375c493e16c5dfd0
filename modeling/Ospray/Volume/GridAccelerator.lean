import Mathlib.Algebra.Order.Floor.Defs
import Mathlib.Data.Finset.Card
import Ospray.Library.Loops
import Ospray.Volume.BlockBrickedVolume

/-!
# The grid accelerator

The voxels of a structured volume are covered by cells of 16 voxels along each axis, the
cells by bricks of 16 cells. A task stores the value ranges of the cells of one brick; the
bricks, and the cells of a brick, are numbered in row-major order. The number of cells
that memory is allocated for is computed as an `int`.
-/

namespace Ospray.Structured

open Library.RowMajor Library.Loops

namespace GridAccelerator

variable (dimensions : Dimensions)

/-! ## The grid -/

/-- `GridAccelerator::gridDimensions` -/
def gridDimensions : Vec3i := blockCount 16 dimensions

/-- `GridAccelerator::brickCount` -/
def brickCount : Vec3i := fun axis => (toInt32 (gridDimensions dimensions axis + 16 - 1)).tdiv 16

/-- The `cellCount` of `GridAccelerator_createInstance`: the product is an `int`. -/
def cellCount : Nat :=
  let brickCount := brickCount dimensions
  toUInt64 (toInt32 (brickCount 0 * brickCount 1 * brickCount 2 * 16 ^ 3))

/-- The number of tasks that `StructuredVolume::buildAccelerator` runs; none where the product is
negative. -/
def nTasks : Nat :=
  let brickCount := brickCount dimensions
  (toInt32 (brickCount 0 * brickCount 1 * brickCount 2)).toNat

/-- The `brickIndex` of a task. -/
def brickIndex (taskIndex : Nat) : Vec3i :=
  let brickCount := brickCount dimensions
  ![(taskIndex : Int).tmod (brickCount 0),
    ((taskIndex : Int).tdiv (brickCount 0)).tmod (brickCount 1),
    (taskIndex : Int).tdiv (toInt32 (brickCount 0 * brickCount 1))]

/-- The position of a cell in its brick. -/
def cellInBrick (i : Nat) : Index :=
  let z := i >>> (2 * 4)
  let offset := i &&& (16 * 16 - 1)
  let y := offset >>> 4
  let x := offset % 16
  ![x, y, z]

/-- The `cellIndex` of the cells a task encodes. -/
def cellIndex (taskIndex i : Nat) : Vec3i :=
  fun axis => toInt32 (brickIndex dimensions taskIndex axis * 16 + cellInBrick i axis)

/-- The `cellAddress` a task stores the range of a cell at. -/
def cellAddress (taskIndex i : Nat) : Nat :=
  let brickAddress := blockAddress (brickCount dimensions) (brickIndex dimensions taskIndex)
  toUInt32 (brickAddress <<< (3 * 4) : Nat) ||| i

/-- `GridAccelerator_getCellAddress` -/
def getCellAddress (index : Vec3i) : Nat :=
  let brickIndex : Vec3i := fun axis => index axis >>> (4 : Nat)
  let brickAddress := blockAddress (brickCount dimensions) brickIndex
  -- `bitwise_AND(index, BRICK_WIDTH - 1)`
  let cellOffset : Index := fun axis => (index axis % 16).toNat
  toUInt32 (brickAddress <<< (3 * 4) : Nat) ||| cellOffset 2 <<< (2 * 4) ||| cellOffset 1 <<< 4 |||
    cellOffset 0

/-- The addresses that the tasks of `buildAccelerator` write, and the cells they write them for. -/
def writes : List (Nat × Vec3i) :=
  (chunkLanes (nTasks dimensions) (16 ^ 3)).map fun step =>
    (cellAddress dimensions step.1 step.2, cellIndex dimensions step.1 step.2)

/-! ## Without overflow -/

/-- The number of cells along each axis. -/
def cells : Index := blocks 16 dimensions

/-- The number of bricks along each axis. -/
def bricks : Index := fun axis => (cells dimensions axis + 15) / 16

/-- The number of cells, with the padding of the bricks. -/
def paddedCells : Nat := volume (bricks dimensions) * 16 ^ 3

/-- The cells of the volume. -/
def InGrid (cell : Index) : Prop := Inside (cells dimensions) cell

theorem bricks_pos (axis : Fin 3) : 0 < bricks dimensions axis := by
  have positive := dimensions.positive axis
  unfold bricks cells blocks
  omega

theorem bricks_le (axis : Fin 3) : bricks dimensions axis ≤ volume (bricks dimensions) := by
  have zero := bricks_pos dimensions 0
  have one := bricks_pos dimensions 1
  have two := bricks_pos dimensions 2
  have rest : 0 < bricks dimensions 1 * bricks dimensions 2 := Nat.mul_pos one two
  unfold volume
  induction axis using Library.Literals.three_cases with
  | zero => exact Nat.le_mul_of_pos_right _ rest
  | one => exact (Nat.le_mul_of_pos_right _ two).trans (Nat.le_mul_of_pos_left _ zero)
  | two => exact (Nat.le_mul_of_pos_left _ one).trans (Nat.le_mul_of_pos_left _ zero)

variable {dimensions}

theorem padded_eq {value : Nat} (small : value + 15 < 2 ^ 31) :
    (toInt32 (value + 16 - 1)).tdiv 16 = ((value + 15) / 16 : Nat) := by
  rw [toInt32_eq (by omega) (by omega), show (value + 16 - 1 : Int) = ((value + 15 : Nat) : Int) by omega]
  rfl

theorem cellInBrick_eq (i : Nat) : cellInBrick i = cellAt (fun _ => 16) i := by
  have offset : i &&& (16 * 16 - 1) = i % 256 := Nat.and_two_pow_sub_one_eq_mod i 8
  funext axis
  induction axis using Library.Literals.three_cases with
  | zero =>
    change (i &&& (16 * 16 - 1)) % 16 = i % 16
    rw [offset]
    omega
  | one =>
    change (i &&& (16 * 16 - 1)) >>> 4 = i / 16 % 16
    rw [offset, Nat.shiftRight_eq_div_pow]
    omega
  | two => exact Nat.shiftRight_eq_div_pow i 8

section Exact

variable (small : paddedCells dimensions < 2 ^ 31)

include small

theorem volume_lt : volume (bricks dimensions) < 2 ^ 19 := by
  unfold paddedCells at small
  omega

theorem size_small (axis : Fin 3) : dimensions.size axis + 31 < 2 ^ 31 := by
  have bound := (bricks_le dimensions axis).trans_lt (volume_lt small)
  unfold bricks cells blocks at bound
  omega

theorem gridDimensions_eq (axis : Fin 3) :
    gridDimensions dimensions axis = cells dimensions axis := by
  have padded := size_small small axis
  exact padded_eq (by omega)

theorem brickCount_eq (axis : Fin 3) : brickCount dimensions axis = bricks dimensions axis := by
  have padded := size_small small axis
  have fewer : cells dimensions axis ≤ dimensions.size axis + 15 := Nat.div_le_self _ _
  rw [brickCount, gridDimensions_eq small]
  exact padded_eq (by omega)

theorem product_eq : brickCount dimensions 0 * brickCount dimensions 1 * brickCount dimensions 2 =
    (volume (bricks dimensions) : Nat) := by
  rw [brickCount_eq small, brickCount_eq small, brickCount_eq small, volume, ← Nat.mul_assoc,
    Int.natCast_mul, Int.natCast_mul]

theorem nTasks_eq : nTasks dimensions = volume (bricks dimensions) := by
  have bound := volume_lt small
  simp only [nTasks, product_eq small]
  rw [toInt32_eq (by omega) (by omega), Int.toNat_natCast]

theorem cellCount_eq : cellCount dimensions = paddedCells dimensions := by
  have bound := volume_lt small
  simp only [cellCount, product_eq small]
  rw [toInt32_eq (by omega) (by omega), paddedCells]
  exact_mod_cast @toUInt64_natCast (volume (bricks dimensions) * 16 ^ 3) (by omega)

/-- A task encodes the brick at its number. -/
theorem brickIndex_eq (taskIndex : Nat) :
    brickIndex dimensions taskIndex = fun axis => (cellAt (bricks dimensions) taskIndex axis : Int) := by
  have layer : toInt32 (brickCount dimensions 0 * brickCount dimensions 1) =
      (bricks dimensions 0 * bricks dimensions 1 : Nat) := by
    have fewer : bricks dimensions 0 * bricks dimensions 1 ≤ volume (bricks dimensions) := by
      rw [volume, ← Nat.mul_assoc]
      exact Nat.le_mul_of_pos_right _ (bricks_pos dimensions 2)
    have bound := volume_lt small
    rw [brickCount_eq small, brickCount_eq small, ← Int.natCast_mul, toInt32_eq (by omega) (by omega)]
  funext axis
  induction axis using Library.Literals.three_cases with
  | zero =>
    change (taskIndex : Int).tmod (brickCount dimensions 0) = _
    rw [brickCount_eq small]
    rfl
  | one =>
    change ((taskIndex : Int).tdiv (brickCount dimensions 0)).tmod (brickCount dimensions 1) = _
    rw [brickCount_eq small, brickCount_eq small]
    rfl
  | two =>
    change (taskIndex : Int).tdiv (toInt32 (brickCount dimensions 0 * brickCount dimensions 1)) = _
    rw [layer]
    rfl

theorem brickAddress_eq {brick : Index} (inside : Inside (bricks dimensions) brick) :
    blockAddress (brickCount dimensions) (fun axis => brick axis) = rowMajor (bricks dimensions) brick := by
  have bound := (rowMajor_lt inside).trans (volume_lt small)
  rw [blockAddress, brickCount_eq small, brickCount_eq small]
  exact_mod_cast toUInt32_natCast (bound.trans (by decide))

theorem cellAddress_eq {taskIndex i : Nat} (task : taskIndex < volume (bricks dimensions))
    (cell : i < 16 ^ 3) : cellAddress dimensions taskIndex i = taskIndex * 16 ^ 3 + i := by
  have bound := task.trans (volume_lt small)
  have shifted : taskIndex <<< (3 * 4) = taskIndex * 16 ^ 3 := Nat.shiftLeft_eq taskIndex 12
  rw [cellAddress, brickIndex_eq small, brickAddress_eq small (cellAt_inside task), rowMajor_cellAt, shifted,
    toUInt32_natCast (by omega), ← shifted, Nat.lor_comm, or_shiftLeft cell]
  omega

theorem cellIndex_eq {taskIndex : Nat} (task : taskIndex < volume (bricks dimensions)) (i : Nat)
    (cell : i < 16 ^ 3) (axis : Fin 3) : cellIndex dimensions taskIndex i axis =
      (cellAt (bricks dimensions) taskIndex axis * 16 + cellAt (fun _ => 16) i axis : Nat) := by
  have brick := cellAt_inside task axis
  have few := (bricks_le dimensions axis).trans_lt (volume_lt small)
  have inBrick : cellAt (fun _ => 16) i axis < 16 := cellAt_inside cell axis
  rw [cellIndex, brickIndex_eq small, cellInBrick_eq]
  dsimp only
  rw [toInt32_eq (by omega) (by omega)]
  push_cast
  rfl

theorem writes_addresses : (writes dimensions).map Prod.fst = List.range (cellCount dimensions) := by
  rw [cellCount_eq small, paddedCells, ← chunkLanes_index, writes, nTasks_eq small, List.map_map]
  apply List.map_congr_left
  intro step member
  obtain ⟨task, cell⟩ := (mem_chunkLanes _ _ _).mp member
  exact cellAddress_eq small task cell

omit small in
theorem brick_inside {cell : Index} (inside : InGrid dimensions cell) :
    Inside (bricks dimensions) fun axis => cell axis / 16 := by
  intro axis
  have bound := inside axis
  simp only [bricks]
  omega

/-- The address at which a cell is looked up. -/
theorem getCellAddress_eq {cell : Index} (inside : InGrid dimensions cell) :
    getCellAddress dimensions (fun axis => cell axis) =
      rowMajor (bricks dimensions) (fun axis => cell axis / 16) * 16 ^ 3 +
        rowMajor (fun _ => 16) fun axis => cell axis % 16 := by
  have brick := brick_inside inside
  have bound := (rowMajor_lt brick).trans (volume_lt small)
  have shift : (fun axis => (cell axis : Int) >>> (4 : Nat)) = fun axis => ((cell axis / 16 : Nat) : Int) := by
    funext axis
    rw [Int.shiftRight_eq_div_pow]
    rfl
  have mask : ∀ axis, ((cell axis : Int) % 16).toNat = cell axis % 16 := fun axis => by omega
  have x : cell 0 % 16 < 2 ^ 4 := Nat.mod_lt _ (by decide)
  have y : cell 0 % 16 + 2 ^ 4 * (cell 1 % 16) < 2 ^ 8 := by omega
  have z : cell 0 % 16 + 2 ^ 4 * (cell 1 % 16) + 2 ^ 8 * (cell 2 % 16) < 2 ^ (3 * 4) := by omega
  simp only [getCellAddress, shift, mask]
  rw [brickAddress_eq small brick, toUInt32_natCast (by rw [Nat.shiftLeft_eq]; omega), Nat.lor_comm,
    Nat.lor_comm _ ((cell 1 % 16) <<< 4), ← Nat.lor_assoc, or_shiftLeft x,
    Nat.lor_comm _ ((cell 2 % 16) <<< (2 * 4)), ← Nat.lor_assoc, or_shiftLeft y, or_shiftLeft z]
  simp only [rowMajor]
  omega

/-- The address of a cell is written for that cell. -/
theorem getCellAddress_mem {cell : Index} (inside : InGrid dimensions cell) :
    (getCellAddress dimensions (fun axis => cell axis), fun axis => (cell axis : Int)) ∈
      writes dimensions := by
  have brick := brick_inside inside
  have inBrick : Inside (fun _ => 16) fun axis => cell axis % 16 := fun axis => Nat.mod_lt _ (by decide)
  have task := rowMajor_lt brick
  have offset : rowMajor (fun _ => 16) (fun axis => cell axis % 16) < 16 ^ 3 := rowMajor_lt inBrick
  refine List.mem_map.mpr ⟨(rowMajor (bricks dimensions) fun axis => cell axis / 16,
    rowMajor (fun _ => 16) fun axis => cell axis % 16), ?_, ?_⟩
  · rw [mem_chunkLanes, nTasks_eq small]
    exact ⟨task, offset⟩
  · refine Prod.ext ?_ (funext fun axis => ?_)
    · rw [getCellAddress_eq small inside]
      exact cellAddress_eq small task offset
    · change cellIndex dimensions _ _ axis = cell axis
      rw [cellIndex_eq small task _ offset, cellAt_rowMajor brick, cellAt_rowMajor inBrick]
      have whole := Nat.div_add_mod' (cell axis) 16
      exact_mod_cast whole

end Exact

/-! ## With overflow -/

/-- The brick that a task must encode to encode a cell of it. -/
def brickOf (dimensions : Dimensions) (taskIndex : Nat) : Index :=
  fun axis => (brickIndex dimensions taskIndex axis % 2 ^ 28).toNat

theorem brickOf_eq {brick : Index} {taskIndex i : Nat} (cell : i < 16 ^ 3)
    (few : ∀ axis, brick axis < 2 ^ 27)
    (encoded : cellIndex dimensions taskIndex i = fun axis => ((16 * brick axis : Nat) : Int)) :
    brickOf dimensions taskIndex = brick := by
  funext axis
  have bound := few axis
  have inBrick : cellAt (fun _ => 16) i axis < 16 := cellAt_inside cell axis
  have same := congrFun encoded axis
  rw [cellIndex, cellInBrick_eq] at same
  unfold brickOf
  generalize brickIndex dimensions taskIndex axis = index at same ⊢
  generalize cellAt (fun _ => 16) i axis = offset at same inBrick
  rw [toInt32, Int.bmod_def] at same
  omega

theorem bricks_lt (axis : Fin 3) : bricks dimensions axis < 2 ^ 24 := by
  have range := dimensions.range axis
  unfold bricks cells blocks
  omega

/-- The address of every cell is written for that cell. -/
def Found (dimensions : Dimensions) (done : List (Nat × Vec3i)) : Prop :=
  ∀ cell, InGrid dimensions cell →
    (getCellAddress dimensions (fun axis => cell axis), fun axis => (cell axis : Int)) ∈ done

/-- Where every cell is found there are enough tasks for the bricks. -/
theorem Found.bricks_le_nTasks (found : Found dimensions (writes dimensions)) :
    volume (bricks dimensions) ≤ nTasks dimensions := by
  have covered : Finset.range (volume (bricks dimensions)) ⊆
      (Finset.range (nTasks dimensions)).image fun task =>
        rowMajor (bricks dimensions) (brickOf dimensions task) := by
    intro address below
    have inside := cellAt_inside (Finset.mem_range.mp below)
    generalize stands : cellAt (bricks dimensions) address = brick at inside
    -- the first cell of the brick is encoded by some task
    have first : InGrid dimensions fun axis => 16 * brick axis := by
      intro axis
      have bound := inside axis
      unfold bricks at bound
      change 16 * brick axis < cells dimensions axis
      omega
    obtain ⟨⟨task, i⟩, step, written⟩ := List.mem_map.mp (found _ first)
    obtain ⟨isTask, isCell⟩ := (mem_chunkLanes _ _ _).mp step
    have own := brickOf_eq isCell (fun axis => (inside axis).trans ((bricks_lt axis).trans (by decide)))
      (congrArg Prod.snd written)
    refine Finset.mem_image.mpr ⟨task, Finset.mem_range.mpr isTask, ?_⟩
    rw [own, ← stands, rowMajor_cellAt]
  have count := (Finset.card_le_card covered).trans Finset.card_image_le
  rwa [Finset.card_range, Finset.card_range] at count

/-- The number of writes is less than any size that a negative product is converted to. -/
theorem cellCount_of_writes (all : (writes dimensions).length = cellCount dimensions) :
    nTasks dimensions * 16 ^ 3 = cellCount dimensions ∧ cellCount dimensions < 2 ^ 31 := by
  have length : (writes dimensions).length = nTasks dimensions * 16 ^ 3 := by
    have indices := congrArg List.length (chunkLanes_index (nTasks dimensions) (16 ^ 3))
    rw [List.length_map, List.length_range] at indices
    rw [writes, List.length_map]
    exact indices
  refine ⟨length.symm.trans all, ?_⟩
  rw [length] at all
  have tasks : nTasks dimensions < 2 ^ 31 := by
    simp only [nTasks, toInt32, Int.bmod_def]
    omega
  have range : cellCount dimensions < 2 ^ 31 ∨ 2 ^ 64 - 2 ^ 31 ≤ cellCount dimensions := by
    simp only [cellCount, toInt32, toUInt64, Int.bmod_def]
    omega
  omega

/-! ## Building and looking up -/

/-- In whatever order the ranges are stored, every element is written exactly once and none
outside the allocation, and every cell is looked up where its range was stored. -/
def Builds (dimensions : Dimensions) : Prop :=
  ∀ done : List (Nat × Vec3i), done.Perm (writes dimensions) →
    (done.map Prod.fst).Perm (List.range (cellCount dimensions)) ∧ Found dimensions done

theorem Builds.small (builds : Builds dimensions) : paddedCells dimensions < 2 ^ 31 := by
  obtain ⟨once, found⟩ := builds (writes dimensions) (List.Perm.refl _)
  have bricks := found.bricks_le_nTasks
  have all := once.length_eq
  rw [List.length_map, List.length_range] at all
  obtain ⟨elements, int⟩ := cellCount_of_writes all
  unfold paddedCells
  omega

/-- The addresses of the build and of the lookup are inverse if and only if the number of
padded cells is an `int`. -/
theorem builds_iff (dimensions : Dimensions) : Builds dimensions ↔ paddedCells dimensions < 2 ^ 31 := by
  constructor
  · exact Builds.small
  · intro small done order
    refine ⟨?_, fun cell inside => order.mem_iff.mpr (getCellAddress_mem small inside)⟩
    rw [← writes_addresses small]
    exact order.map _

/-- A volume of one row of `2 ^ 28` voxels. -/
def longRow : Dimensions where
  size := ![2 ^ 28, 1, 1]
  positive := by decide
  range := by decide

/-- No memory is allocated for its ranges, but they are stored. -/
theorem longRow_outside : ¬ Builds longRow ∧ cellCount longRow = 0 ∧ 0 < nTasks longRow := by
  refine ⟨fun builds => absurd builds.small ?_, by decide +kernel, by decide +kernel⟩
  decide +kernel

end GridAccelerator

end Ospray.Structured
