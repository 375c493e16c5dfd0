import Mathlib.Data.Nat.Bitwise
import Ospray.Volume.StructuredVolume

/-!
# The block bricked volume

Voxels stand in blocks of 64 voxels along each axis, a block consists of bricks of four
voxels along each axis, and blocks, the bricks of a block and the voxels of a brick are
each in row-major order. The last block along an axis is padded.
-/

namespace Ospray.Structured

open Library.RowMajor Library.Replicas

/-! ## Blocks -/

/-- The `blockCount` of a bricked volume; the addition may overflow. -/
def blockCount (width : Nat) (dimensions : Dimensions) (axis : Fin 3) : Int :=
  (toInt32 (dimensions.size axis + width - 1)).tdiv width

/-- The number of blocks before a block. -/
def blockAddress (blockCount blockIndex : Vec3i) : Nat :=
  toUInt32 (blockIndex 0 + blockCount 0 * (blockIndex 1 + blockCount 1 * blockIndex 2))

/-- The number of bytes allocated for blocks; the number of blocks is computed as an `int`. -/
def blockBytes (blockCount : Vec3i) (voxelSize : Nat) : Nat :=
  let blockCount := toUInt64 (toInt32 (blockCount 0 * blockCount 1 * blockCount 2))
  let blockSize := toUInt64 (64 ^ 3 * voxelSize : Nat)
  toUInt64 (blockSize * blockCount : Nat)

/-- The number of blocks along each axis. -/
def blocks (width : Nat) (dimensions : Dimensions) : Index :=
  fun axis => (dimensions.size axis + (width - 1)) / width

/-- The blocks of a volume can be counted. -/
structure Fits (width : Nat) (dimensions : Dimensions) : Prop where
  padded : ∀ axis, dimensions.size axis + (width - 1) < 2 ^ 31
  count : volume (blocks width dimensions) < 2 ^ 31

variable {width : Nat} {dimensions : Dimensions}

theorem Fits.blockCount_eq (fits : Fits width dimensions) (positive : 0 < width) (axis : Fin 3) :
    blockCount width dimensions axis = blocks width dimensions axis := by
  have padded := fits.padded axis
  have sum : (dimensions.size axis + width - 1 : Int) =
      ((dimensions.size axis + (width - 1) : Nat) : Int) := by
    omega
  rw [blockCount, sum, toInt32_eq (by omega) (by omega), ← Int.ofNat_tdiv]
  rfl

theorem Fits.blockAddress_eq (fits : Fits width dimensions) (positive : 0 < width)
    {blockIndex : Index} (inside : Inside (blocks width dimensions) blockIndex) :
    blockAddress (blockCount width dimensions) (fun axis => blockIndex axis) =
      rowMajor (blocks width dimensions) blockIndex := by
  have small := (rowMajor_lt inside).trans fits.count
  rw [blockAddress, fits.blockCount_eq positive, fits.blockCount_eq positive]
  exact_mod_cast toUInt32_natCast (small.trans (by decide))

/-- The computed size of the allocation is exact. -/
theorem Fits.blockBytes_eq (fits : Fits width dimensions) (positive : 0 < width)
    (voxelType : VoxelType) :
    blockBytes (blockCount width dimensions) voxelType.bytes =
      64 ^ 3 * volume (blocks width dimensions) * voxelType.bytes := by
  have small := fits.count
  have bytes : voxelType.bytes ≤ 8 := by cases voxelType <;> decide
  have product : blockCount width dimensions 0 * blockCount width dimensions 1 *
      blockCount width dimensions 2 = (volume (blocks width dimensions) : Nat) := by
    rw [fits.blockCount_eq positive, fits.blockCount_eq positive, fits.blockCount_eq positive,
      volume, ← Nat.mul_assoc, Int.natCast_mul, Int.natCast_mul]
  have bound : 64 ^ 3 * voxelType.bytes * volume (blocks width dimensions) ≤
      64 ^ 3 * 8 * 2 ^ 31 :=
    Nat.mul_le_mul (Nat.mul_le_mul_left _ bytes) small.le
  have count := @toUInt64_natCast (volume (blocks width dimensions)) (by omega)
  have size := @toUInt64_natCast (64 ^ 3 * voxelType.bytes) (by omega)
  rw [blockBytes, product, toInt32_eq (by omega) (by omega)]
  simp only [count, size]
  rw [toUInt64_natCast (by omega), Nat.mul_right_comm]

theorem div_inside (positive : 0 < width) {voxel : Index} (inside : Inside dimensions.size voxel) :
    Inside (blocks width dimensions) fun axis => voxel axis / width := by
  intro axis
  have bound := inside axis
  have floor := Nat.div_mul_le_self (voxel axis) width
  change voxel axis / width + 1 ≤ _
  refine (Nat.le_div_iff_mul_le positive).mpr ?_
  rw [Nat.succ_mul]
  omega

/-- The offset of a voxel in its block, as a sum over the axes. -/
def blockOffset (local_ : Index) : Nat :=
  rowMajor (fun _ => 4) (fun axis => local_ axis % 4) +
    4 ^ 3 * rowMajor (fun _ => 16) fun axis => local_ axis / 4

/-- The voxels of a block. -/
def InBlock (local_ : Index) : Prop := Inside (fun _ => 64) local_

theorem blockOffset_lt {local_ : Index} (inside : InBlock local_) : blockOffset local_ < 64 ^ 3 := by
  have low : rowMajor (fun _ => 4) (fun axis => local_ axis % 4) < 4 ^ 3 :=
    rowMajor_lt fun axis => Nat.mod_lt _ (by decide)
  have high : rowMajor (fun _ => 16) (fun axis => local_ axis / 4) < 16 ^ 3 :=
    rowMajor_lt fun axis => Nat.div_lt_of_lt_mul (inside axis)
  exact digit_lt low high

theorem blockOffset_injective {first second : Index} (inside : InBlock first)
    (inside' : InBlock second) (same : blockOffset first = blockOffset second) : first = second := by
  have low : ∀ local_ : Index, rowMajor (fun _ => 4) (fun axis => local_ axis % 4) < 4 ^ 3 :=
    fun local_ => rowMajor_lt fun axis => Nat.mod_lt _ (by decide)
  obtain ⟨voxels, bricks⟩ := digit_injective (low first) (low second) same
  have remainders := rowMajor_injective (fun axis => Nat.mod_lt _ (by decide))
    (fun axis => Nat.mod_lt _ (by decide)) voxels
  have quotients := rowMajor_injective (fun axis => Nat.div_lt_of_lt_mul (inside axis))
    (fun axis => Nat.div_lt_of_lt_mul (inside' axis)) bricks
  funext axis
  have remainder := congrFun remainders axis
  have quotient := congrFun quotients axis
  omega

/-- The cell of a voxel of a block. -/
def blockCell (size blockIndex local_ : Index) : Nat :=
  64 ^ 3 * rowMajor size blockIndex + blockOffset local_

theorem blockCell_lt {size blockIndex local_ : Index} (block : Inside size blockIndex)
    (inside : InBlock local_) : blockCell size blockIndex local_ < 64 ^ 3 * volume size := by
  rw [blockCell, Nat.add_comm]
  exact digit_lt (blockOffset_lt inside) (rowMajor_lt block)

theorem blockCell_injective {size blockIndex blockIndex' local_ local' : Index}
    (block : Inside size blockIndex) (block' : Inside size blockIndex') (inside : InBlock local_)
    (inside' : InBlock local') (same : blockCell size blockIndex local_ = blockCell size blockIndex' local') :
    blockIndex = blockIndex' ∧ local_ = local' := by
  rw [blockCell, blockCell, Nat.add_comm, Nat.add_comm (64 ^ 3 * _)] at same
  obtain ⟨offsets, addresses⟩ :=
    digit_injective (blockOffset_lt inside) (blockOffset_lt inside') same
  exact ⟨rowMajor_injective block block' addresses, blockOffset_injective inside inside' offsets⟩

theorem or_shiftLeft {low bits : Nat} (small : low < 2 ^ bits) (high : Nat) :
    low ||| high <<< bits = low + 2 ^ bits * high := by
  rw [Nat.lor_comm, ← Nat.shiftLeft_add_eq_or_of_lt small, Nat.shiftLeft_eq, Nat.add_comm,
    Nat.mul_comm]

/-! ## The volume -/

/-- A call of `setRegion` with the order in which its rows are run. -/
structure RowsCall (V : Type) (nTasks : Region V → Nat) where
  region : Region V
  order : List Nat
  all : order.Perm (List.range (nTasks region))

/-- `Address` of `BlockBrickedVolume.ispc` and `GhostBlockBrickedVolume.ispc` -/
structure Address where
  block : Nat
  voxel : Nat
  deriving DecidableEq

/-- The cell of an address, counted from `blockMem`. -/
def Address.cell (address : Address) : Nat := 64 ^ 3 * address.block + address.voxel

/-- `BlockBrickedVolume` -/
structure BlockBrickedVolume where
  dimensions : Dimensions
  voxelType : VoxelType

namespace BlockBrickedVolume

variable {V F : Type} (self : BlockBrickedVolume)

/-- `BlockBrickedVolume::blockCount` -/
def blockCount : Vec3i := Structured.blockCount 64 self.dimensions

/-- The cells `BlockBrickedVolume_allocateMemory` allocates. -/
def cells : Nat := blockBytes self.blockCount self.voxelType.bytes / self.voxelType.bytes

/-- `BlockBrickedVolume_getVoxelAddress` -/
def getVoxelAddress (index : Index) : Address :=
  let blockIndex : Vec3i := fun axis => (index axis >>> 6 : Nat)
  let brickOffset : Index := fun axis => (index axis >>> 2) &&& 15
  let brickAddress := brickOffset 0 + brickOffset 1 <<< 4 + brickOffset 2 <<< 8
  let voxelOffset : Index := fun axis => index axis &&& 3
  { block := blockAddress self.blockCount blockIndex
    voxel := brickAddress <<< 6 ||| voxelOffset 2 <<< 4 ||| voxelOffset 1 <<< 2 ||| voxelOffset 0 }

/-- `BlockBrickedVolume_getVoxel`; a voxel is converted to `float`. -/
def getVoxel (toFloat : V → F) (memory : Memory V) (index : Index) : F :=
  toFloat (memory (self.getVoxelAddress index).cell)

/-- `BlockBrickedVolume_setRegion` of `BlockBrickedVolume.ispc` -/
def setRegionTask (region : Region V) : Int → Memory V → Memory V :=
  Structured.setRegionTask self.dimensions (fun coord value memory =>
    Function.update memory (self.getVoxelAddress coord).cell value) region

/-- The number of rows, a `size_t` made from an `int`. -/
def nTasks (region : Region V) : Nat :=
  toUInt64 (toInt32 (region.regionSize 1 * region.regionSize 2))

/-- `BlockBrickedVolume::setRegion` -/
def setRegion (call : RowsCall V nTasks) (memory : Memory V) : Memory V :=
  call.order.foldl (fun memory (task : Nat) => self.setRegionTask call.region (toInt32 task) memory)
    memory

/-- The layout as a voxel store. -/
def store (toFloat : V → F) : VoxelStore V F where
  Call := RowsCall V nTasks
  region := RowsCall.region
  setRegion := self.setRegion
  getVoxel := self.getVoxel toFloat
  cells := self.cells

variable {self}

theorem voxelBits_eq (local_ : Index) :
    ((local_ 0 / 4 + (local_ 1 / 4) <<< 4 + (local_ 2 / 4) <<< 8) <<< 6 ||| (local_ 2 % 4) <<< 4 |||
      (local_ 1 % 4) <<< 2 ||| local_ 0 % 4) = blockOffset local_ := by
  have x : local_ 0 % 4 < 2 ^ 2 := Nat.mod_lt _ (by decide)
  have y : local_ 0 % 4 + 2 ^ 2 * (local_ 1 % 4) < 2 ^ 4 := by omega
  have z : local_ 0 % 4 + 2 ^ 2 * (local_ 1 % 4) + 2 ^ 4 * (local_ 2 % 4) < 2 ^ 6 := by omega
  rw [Nat.lor_comm, Nat.lor_comm _ ((local_ 1 % 4) <<< 2), ← Nat.lor_assoc, or_shiftLeft x,
    Nat.lor_comm _ ((local_ 2 % 4) <<< 4), ← Nat.lor_assoc, or_shiftLeft y, or_shiftLeft z,
    Nat.shiftLeft_eq, Nat.shiftLeft_eq, blockOffset, rowMajor, rowMajor]
  omega

/-- The address of a voxel, by its block and its position in the block. -/
theorem getVoxelAddress_cell (fits : Fits 64 self.dimensions) {voxel : Index}
    (inside : Inside self.dimensions.size voxel) :
    (self.getVoxelAddress voxel).cell =
      blockCell (blocks 64 self.dimensions) (fun axis => voxel axis / 64) fun axis => voxel axis % 64 := by
  have block := div_inside (show 0 < 64 by decide) inside
  have shift : ∀ axis, voxel axis >>> 6 = voxel axis / 64 := fun axis =>
    Nat.shiftRight_eq_div_pow _ 6
  have brick : ∀ axis, (voxel axis >>> 2) &&& 15 = voxel axis % 64 / 4 := by
    intro axis
    rw [Nat.shiftRight_eq_div_pow, show 15 = 2 ^ 4 - 1 from rfl, Nat.and_two_pow_sub_one_eq_mod]
    omega
  have rest : ∀ axis, voxel axis &&& 3 = voxel axis % 64 % 4 := by
    intro axis
    rw [show 3 = 2 ^ 2 - 1 from rfl, Nat.and_two_pow_sub_one_eq_mod]
    omega
  rw [Address.cell, blockCell, ← voxelBits_eq]
  simp only [getVoxelAddress, shift, brick, rest]
  rw [blockCount, fits.blockAddress_eq (by decide) block]

theorem cell_lt (fits : Fits 64 self.dimensions) {voxel : Index}
    (inside : Inside self.dimensions.size voxel) :
    (self.getVoxelAddress voxel).cell < self.cells := by
  rw [cells, blockCount, fits.blockBytes_eq (by decide), Nat.mul_div_cancel _ (bytes_pos _),
    getVoxelAddress_cell fits inside]
  exact blockCell_lt (div_inside (by decide) inside) fun axis => Nat.mod_lt _ (by decide)

theorem cell_injective (fits : Fits 64 self.dimensions) {voxel other : Index}
    (inside : Inside self.dimensions.size voxel) (otherInside : Inside self.dimensions.size other)
    (same : (self.getVoxelAddress voxel).cell = (self.getVoxelAddress other).cell) :
    voxel = other := by
  rw [getVoxelAddress_cell fits inside, getVoxelAddress_cell fits otherInside] at same
  obtain ⟨block, local_⟩ := blockCell_injective (div_inside (by decide) inside)
    (div_inside (by decide) otherInside) (fun axis => Nat.mod_lt _ (by decide))
    (fun axis => Nat.mod_lt _ (by decide)) same
  funext axis
  have quotient : voxel axis / 64 = other axis / 64 := congrFun block axis
  have remainder : voxel axis % 64 = other axis % 64 := congrFun local_ axis
  omega

theorem nTasks_eq {region : Region V} (rows : region.regionSize 1 * region.regionSize 2 < 2 ^ 31) :
    nTasks region = region.regionSize 1 * region.regionSize 2 := by
  have exact_ : toInt32 (region.regionSize 1 * region.regionSize 2) =
      (region.regionSize 1 * region.regionSize 2 : Nat) := by
    rw [← Int.natCast_mul, toInt32_eq (by omega) (by omega)]
  rw [nTasks, exact_, toUInt64_natCast (by omega)]

/-- The layout stores voxels, for regions whose rows can be counted. -/
theorem stores (fits : Fits 64 self.dimensions) (toFloat : V → F) :
    (self.store toFloat).Stores toFloat self.dimensions.size fun region =>
      region.regionSize 1 * region.regionSize 2 < 2 ^ 31 := by
  let place : Index → List Int := fun voxel => [((self.getVoxelAddress voxel).cell : Int)]
  have writes : ∀ voxel (value : V) memory, Inside self.dimensions.size voxel →
      Function.update memory ((self.getVoxelAddress voxel).cell : Int) value =
        writeCells (place voxel) value memory := fun _ _ _ _ => rfl
  refine VoxelStore.stores_of_performs _ place ?_ ?_ ?_
  · intro call rows
    refine tasks_perform writes rows (nTasks_eq rows ▸ call.all) ?_
    intro voxel other address inside otherInside own shared
    have first := List.mem_singleton.mp own
    have second := List.mem_singleton.mp shared
    exact cell_injective fits inside otherInside (Int.ofNat.inj (first.symm.trans second))
  · intro voxel inside
    exact ⟨_, List.mem_singleton_self _, fun memory => rfl⟩
  · intro call memory rows address outside
    refine tasks_other writes rows (nTasks_eq rows ▸ call.all) memory ?_
    intro voxel inside member
    have own := List.mem_singleton.mp member
    have bound := cell_lt fits inside
    change ¬ (0 ≤ address ∧ address < self.cells) at outside
    omega

end BlockBrickedVolume

end Ospray.Structured
