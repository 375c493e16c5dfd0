import Ospray.Volume.GhostVoxels
import Ospray.Volume.SharedStructuredVolume

/-!
# One voxel store in three layouts

For every volume whose blocks can be counted as an `int`, each layout stores voxels: the
bricked ones for regions at any position, the shared one for regions inside the volume.
A region that sticks out of a shared volume is written to the voxels that follow in
memory.
-/

namespace Ospray.Structured

open Library.RowMajor

variable {dimensions : Dimensions}

theorem Fits.wider (fits : Fits 63 dimensions) (padded : ∀ axis, dimensions.size axis + 63 < 2 ^ 31) :
    Fits 64 dimensions where
  padded := padded
  count := by
    have fewer : ∀ axis, blocks 64 dimensions axis ≤ blocks 63 dimensions axis := by
      intro axis
      change (dimensions.size axis + 63) / 64 ≤ (dimensions.size axis + 62) / 63
      omega
    exact (Nat.mul_le_mul (fewer 0) (Nat.mul_le_mul (fewer 1) (fewer 2))).trans_lt fits.count

/-- The voxels of a volume whose blocks can be counted can be addressed with 60 bits. -/
theorem Fits.voxels (fits : Fits 63 dimensions) : volume dimensions.size ≤ 2 ^ 60 := by
  have padded : ∀ axis, dimensions.size axis ≤ 2 ^ 6 * blocks 63 dimensions axis := by
    intro axis
    change dimensions.size axis ≤ 2 ^ 6 * ((dimensions.size axis + 62) / 63)
    omega
  calc volume dimensions.size
      ≤ 2 ^ 6 * blocks 63 dimensions 0 * (2 ^ 6 * blocks 63 dimensions 1 *
          (2 ^ 6 * blocks 63 dimensions 2)) :=
        Nat.mul_le_mul (padded 0) (Nat.mul_le_mul (padded 1) (padded 2))
    _ = 2 ^ 18 * volume (blocks 63 dimensions) := by rw [volume]; ring
    _ ≤ 2 ^ 18 * 2 ^ 31 := Nat.mul_le_mul_left _ fits.count.le
    _ ≤ 2 ^ 60 := by decide

/-- **The layouts are one voxel store.** In every sequence of calls whose rows can be counted as an
`int`, and which for the shared layout write inside the volume only, each layout reads from every
voxel the value last written to it. -/
theorem layouts_store {V F : Type} (voxelType : VoxelType) (toFloat : V → F)
    (padded : ∀ axis, dimensions.size axis + 63 < 2 ^ 31)
    (count : volume (blocks 63 dimensions) < 2 ^ 31) :
    ((BlockBrickedVolume.mk dimensions voxelType).store toFloat).Stores toFloat dimensions.size
        (fun region => region.regionSize 1 * region.regionSize 2 < 2 ^ 31) ∧
      ((GhostBlockBrickedVolume.mk dimensions voxelType).store toFloat).Stores toFloat
        dimensions.size (fun region => region.regionSize 1 * region.regionSize 2 < 2 ^ 31) ∧
      ((SharedStructuredVolume.mk dimensions voxelType).store toFloat).Stores toFloat
        dimensions.size (SharedStructuredVolume.InVolume dimensions.size) := by
  have fits : Fits 63 dimensions := ⟨fun axis => by have bound := padded axis; omega, count⟩
  exact ⟨BlockBrickedVolume.stores (fits.wider padded) toFloat,
    GhostBlockBrickedVolume.stores fits toFloat, SharedStructuredVolume.stores fits.voxels toFloat⟩

/-- A volume of four voxels. -/
def fourVoxels : Dimensions where
  size := ![2, 2, 1]
  positive := by decide
  range := by decide

theorem layouts_store_fourVoxels :
    ((BlockBrickedVolume.mk fourVoxels .uint16).store (fun value : Nat => value)).Stores
        (fun value => value) fourVoxels.size
        (fun region => region.regionSize 1 * region.regionSize 2 < 2 ^ 31) ∧
      ((GhostBlockBrickedVolume.mk fourVoxels .uint16).store (fun value : Nat => value)).Stores
        (fun value => value) fourVoxels.size
        (fun region => region.regionSize 1 * region.regionSize 2 < 2 ^ 31) ∧
      ((SharedStructuredVolume.mk fourVoxels .uint16).store (fun value : Nat => value)).Stores
        (fun value => value) fourVoxels.size
        (SharedStructuredVolume.InVolume fourVoxels.size) :=
  layouts_store .uint16 (fun value => value) (by decide) (by decide)

/-- A region of two voxels of which the second lies outside a volume of four voxels. -/
def overhang : Region Nat where
  source := fun _ => 7
  regionCoords := ![1, 0, 0]
  regionSize := ![2, 1, 1]
  coordsRange := by decide
  sizeRange := by decide

/-- The voxel outside is written to the voxel that follows in memory. -/
theorem overhang_wraps :
    let self : SharedStructuredVolume := ⟨fourVoxels, .uint16⟩
    Inside fourVoxels.size ![0, 1, 0] ∧ ¬ overhang.Covers ![0, 1, 0] ∧
      self.getVoxel (fun value => value) (fun _ => 0) ![0, 1, 0] = 0 ∧
      self.getVoxel (fun value => value) (self.setRegion overhang fun _ => 0) ![0, 1, 0] = 7 := by
  decide +kernel

end Ospray.Structured
