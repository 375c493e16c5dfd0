import Mathlib.Data.Rat.Floor
import Ospray.Volume.BlockBrickedVolume

/-!
# The ghost block bricked volume

Blocks have 64 voxels along each axis but start only 63 voxels apart: the last voxels of
a block are copies of the first ones of the next. A voxel on the lower face of a block is
therefore written to up to eight blocks, and the eight voxels around a sample position
are found in one block, at byte offsets that differ by a step along each axis.
-/

namespace Ospray.Structured

open Library.RowMajor Library.Replicas

/-- The `shift_per_` macros -/
def VoxelType.shift : VoxelType → Nat
  | .uint8 => 0
  | .int16 => 1
  | .uint16 => 1
  | .float => 2
  | .double => 3

/-- The `scale_per_` macros -/
def VoxelType.scale : VoxelType → Nat
  | .uint8 => 1
  | .int16 => 2
  | .uint16 => 2
  | .float => 4
  | .double => 8

/-- Offsets are scaled by the size of a voxel, -/
theorem scale_eq_bytes (voxelType : VoxelType) : voxelType.scale = voxelType.bytes := by
  cases voxelType <;> rfl

/-- which is a power of two. -/
theorem scale_eq_shift (voxelType : VoxelType) : voxelType.scale = 2 ^ voxelType.shift := by
  cases voxelType <;> rfl

/-- `Address8` -/
structure Address8 where
  block : Nat
  voxelOfs : Nat
  voxelOfs_dx : Nat
  voxelOfs_dy : Nat
  voxelOfs_dz : Nat

/-- The offset of a voxel in its block in `GBBV_getIndices` and `GBBV_getGhostIndices`. -/
def voxelIndices (voxelIdxInBlock : Index) : Nat :=
  let brickIdxInBlock : Index := fun axis => voxelIdxInBlock axis >>> 2
  let voxelIdxInBrick : Index := fun axis => voxelIdxInBlock axis &&& 3
  voxelIdxInBrick 0 <<< 0 ||| voxelIdxInBrick 1 <<< 2 ||| voxelIdxInBrick 2 <<< 4 |||
    brickIdxInBlock 0 <<< 6 ||| brickIdxInBlock 1 <<< 10 ||| brickIdxInBlock 2 <<< 14

/-- The byte offset of a voxel in its block. -/
def voxelByteOfs (voxelType : VoxelType) (voxelIdxInBlock : Index) : Nat :=
  let brickIdxInBlock : Index := fun axis => voxelIdxInBlock axis >>> 2
  let voxelIdxInBrick : Index := fun axis => voxelIdxInBlock axis &&& 3
  voxelIdxInBrick 0 <<< (0 + voxelType.shift) ||| voxelIdxInBrick 1 <<< (2 + voxelType.shift) |||
    voxelIdxInBrick 2 <<< (4 + voxelType.shift) ||| brickIdxInBlock 0 <<< (6 + voxelType.shift) |||
    brickIdxInBlock 1 <<< (10 + voxelType.shift) ||| brickIdxInBlock 2 <<< (14 + voxelType.shift)

/-- The byte offset of one step along an axis: in a brick, or to the next brick. -/
def voxelStep (voxelType : VoxelType) (voxelIdxInBlock : Nat) (scaleLo scaleHi : Nat) : Nat :=
  if voxelIdxInBlock &&& 3 = 3 then scaleHi * voxelType.scale - 3 * scaleLo * voxelType.scale
  else scaleLo * voxelType.scale

/-- `brickTranslation` -/
def brickTranslation (voxelType : VoxelType) (block : Nat) (voxelIdxInBlock : Index) : Address8 where
  block := block
  voxelOfs := voxelByteOfs voxelType voxelIdxInBlock
  voxelOfs_dx := voxelStep voxelType (voxelIdxInBlock 0) (2 ^ 0) (2 ^ 6)
  voxelOfs_dy := voxelStep voxelType (voxelIdxInBlock 1) (2 ^ 2) (2 ^ 10)
  voxelOfs_dz := voxelStep voxelType (voxelIdxInBlock 2) (2 ^ 4) (2 ^ 14)

/-- `GhostBlockBrickedVolume` -/
structure GhostBlockBrickedVolume where
  dimensions : Dimensions
  voxelType : VoxelType

/-- The directions in which `GBBV_setRegionTask` looks for ghosts. -/
def deltas : List Index :=
  (List.range 2).flatMap fun iz => (List.range 2).flatMap fun iy => (List.range 2).map fun ix =>
    ![ix, iy, iz]

namespace GhostBlockBrickedVolume

variable {V F : Type} (self : GhostBlockBrickedVolume)

/-- `GhostBlockBrickedVolume::blockCount` -/
def blockCount : Vec3i := Structured.blockCount 63 self.dimensions

/-- The bytes `GBBV_allocateMemory` allocates. -/
def allocated : Nat := blockBytes self.blockCount self.voxelType.bytes

/-- The cells `GBBV_allocateMemory` allocates. -/
def cells : Nat := self.allocated / self.voxelType.bytes

/-- `GBBV_getIndices`, with an exact `intDiv` -/
def getIndices (voxelIdxInVolume : Index) : Address :=
  let blockIndex : Index := fun axis => voxelIdxInVolume axis / 63
  let voxelIdxInBlock : Index := fun axis => voxelIdxInVolume axis - blockIndex axis * 63
  { block := blockAddress self.blockCount fun axis => blockIndex axis
    voxel := voxelIndices voxelIdxInBlock }

/-- `GBBV_getGhostIndices`, with an exact `intDiv` -/
def getGhostIndices (voxelIdxInVolume delta : Index) : Option Address :=
  if delta 0 = 0 ∧ delta 1 = 0 ∧ delta 2 = 0 then none
  else
    let blockIndex : Index := fun axis => voxelIdxInVolume axis / 63
    let voxelIdxInBlock : Index := fun axis => voxelIdxInVolume axis - blockIndex axis * 63
    let moved : Fin 3 → Bool := fun axis => voxelIdxInBlock axis = 0 ∧ delta axis = 1
    let ghostIdxInBlock : Index := fun axis => if moved axis then 63 else voxelIdxInBlock axis
    let ghostBlock : Vec3i := fun axis =>
      if moved axis then blockIndex axis - 1 else blockIndex axis
    if (∃ axis, moved axis) ∧ ∀ axis, 0 ≤ ghostBlock axis then
      some { block := blockAddress self.blockCount ghostBlock, voxel := voxelIndices ghostIdxInBlock }
    else none

/-- `GBBV_getVoxel`; a voxel is converted to `float`. -/
def getVoxel (toFloat : V → F) (memory : Memory V) (index : Index) : F :=
  toFloat (memory (self.getIndices index).cell)

/-- What `GBBV_setRegionTask` writes for a voxel: the voxel itself, then its ghosts. -/
def writeVoxel (coord : Index) (value : V) (memory : Memory V) : Memory V :=
  deltas.foldl (fun memory delta => match self.getGhostIndices coord delta with
    | some address => Function.update memory address.cell value
    | none => memory) (Function.update memory (self.getIndices coord).cell value)

/-- `GBBV_setRegionTask` -/
def setRegionTask (region : Region V) : Int → Memory V → Memory V :=
  Structured.setRegionTask self.dimensions self.writeVoxel region

/-- The number of rows, an `int`; no row is run when it is negative. -/
def nTasks (region : Region V) : Nat :=
  (toInt32 (region.regionSize 1 * region.regionSize 2)).toNat

/-- `GhostBlockBrickedVolume::setRegion` -/
def setRegion (call : RowsCall V nTasks) (memory : Memory V) : Memory V :=
  call.order.foldl (fun memory (task : Nat) => self.setRegionTask call.region (toInt32 task) memory)
    memory

/-- The layout as a voxel store. -/
def store (toFloat : V → F) : VoxelStore V F where
  Call := RowsCall V nTasks
  region := RowsCall.region
  setRegion := self.setRegion
  getVoxel := self.getVoxel toFloat
  cells := self.cells

/-- `GBBV_getAddress`; the block is found from the position as a `float`. -/
def getAddress (voxelIdxInVolume_f : Fin 3 → ℚ) (voxelIdxInVolume : Index) : Address8 :=
  let blockIndex : Index := fun axis => ⌊voxelIdxInVolume_f axis / 63⌋₊
  let voxelIdxInBlock : Index := fun axis => voxelIdxInVolume axis - blockIndex axis * 63
  brickTranslation self.voxelType (blockAddress self.blockCount fun axis => blockIndex axis)
    voxelIdxInBlock

/-- The byte address, from `blockMem`, at which `GBBV_sample` reads a corner of the cell around
clamped local coordinates. A corner tells along which axes it is the upper one. -/
def sampleAddress (clampedLocalCoordinates : Fin 3 → ℚ) (corner : Fin 3 → Bool) : Nat :=
  let voxelIndex_0 : Index := fun axis => ⌊clampedLocalCoordinates axis⌋₊
  let address8 := self.getAddress clampedLocalCoordinates voxelIndex_0
  let block_lo := address8.block &&& 255
  let block_hi := address8.block ^^^ block_lo
  let blockPtrHi := block_hi * 64 ^ 3 * self.voxelType.bytes
  let ofs := toUInt32 (address8.voxelOfs + block_lo * (64 ^ 3 * self.voxelType.scale) : Nat)
  let ofs := if corner 0 then toUInt32 (ofs + address8.voxelOfs_dx : Nat) else ofs
  let ofs := if corner 1 then toUInt32 (ofs + address8.voxelOfs_dy : Nat) else ofs
  let ofs := if corner 2 then toUInt32 (ofs + address8.voxelOfs_dz : Nat) else ofs
  blockPtrHi + ofs

/-- `accessArrayWithOffset`: the voxel at a byte address, which stands there if it is aligned. -/
def accessArray (memory : Memory V) (address : Nat) : Option V :=
  if self.voxelType.bytes ∣ address then some (memory (address / self.voxelType.bytes : Nat))
  else none

end GhostBlockBrickedVolume

end Ospray.Structured
