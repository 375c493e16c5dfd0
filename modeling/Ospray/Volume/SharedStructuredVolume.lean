import Mathlib.Data.List.Basic
import Mathlib.Tactic.Ring
import Ospray.Volume.StructuredVolume

/-!
# The shared structured volume

The voxels stand in row-major order in one buffer, often the application's. How the
buffer is addressed depends on its size: with 32 bits, with 32 bits in each slice, or
with 64 bits. Unlike the bricked volumes, `setRegion` does not compare the positions it
writes to with the dimensions.
-/

namespace Ospray.Structured

open Library.RowMajor Library.Replicas

/-- `SharedStructuredVolume` -/
structure SharedStructuredVolume where
  dimensions : Dimensions
  voxelType : VoxelType

namespace SharedStructuredVolume

variable {V F : Type} (self : SharedStructuredVolume)

/-- `bytesPerLine` of the constructor -/
def bytesPerLine : Nat := toUInt64 (self.voxelType.bytes * self.dimensions.size 0 : Nat)

/-- `bytesPerSlice` of the constructor -/
def bytesPerSlice : Nat := toUInt64 (self.bytesPerLine * self.dimensions.size 1 : Nat)

/-- `bytesPerVolume` of the constructor -/
def bytesPerVolume : Nat := toUInt64 (self.bytesPerSlice * self.dimensions.size 2 : Nat)

/-- The cells of the buffer `createEquivalentISPC` allocates. -/
def cells : Nat :=
  let voxelCount := toUInt64
    (self.dimensions.size 0 * (self.dimensions.size 1 * self.dimensions.size 2) : Nat)
  toUInt64 (voxelCount * self.voxelType.bytes : Nat) / self.voxelType.bytes

/-- The cell `SSV_getVoxel_32` reads. -/
def cell_32 (index : Index) : Nat :=
  toUInt32 (index 0 + self.dimensions.size 0 * (index 1 + self.dimensions.size 1 * index 2) : Nat)

/-- The cell `SSV_getVoxel_64_32` reads. -/
def cell_64_32 (index : Index) : Nat :=
  let ofs := toUInt32 (index 0 + self.dimensions.size 0 * index 1 : Nat)
  let byteOffset := toUInt64 (index 2 * self.bytesPerSlice : Nat)
  byteOffset / self.voxelType.bytes + ofs

/-- The cell `SSV_getVoxel_64` reads. -/
def cell_64 (index : Index) : Nat :=
  let index64 := toUInt64
    (index 0 + self.dimensions.size 0 * (index 1 + self.dimensions.size 1 * index 2) : Nat)
  let hi28 := toUInt32 (index64 >>> 28 : Nat)
  let lo28 := index64 &&& (1 <<< 28 - 1)
  hi28 <<< 28 + lo28

/-- The `getVoxel` the constructor chooses; a voxel is converted to `float`. -/
def getVoxel (toFloat : V → F) (memory : Memory V) (index : Index) : F :=
  if self.bytesPerVolume ≤ 1 <<< 30 then toFloat (memory (self.cell_32 index))
  else if self.bytesPerSlice ≤ 1 <<< 30 then toFloat (memory (self.cell_64_32 index))
  else toFloat (memory (self.cell_64 index))

/-- `SharedStructuredVolume_setRegion` -/
def setRegion (region : Region V) (memory : Memory V) : Memory V :=
  let index := region.regionCoords
  let count := region.regionSize
  (List.range (count 2)).foldl (fun memory (iz : Nat) =>
    let iiz := toInt32 (iz + index 2)
    (List.range (count 1)).foldl (fun memory (iy : Nat) =>
      (List.range (count 0)).foldl (fun memory (ix : Nat) =>
        let iix := toInt32 (ix + index 0)
        let iiy := toInt32 (iy + index 1)
        let ofs_in := toInt64 (ix + count 0 * (iy + count 1 * iz))
        let ofs_out := toInt64
          (iix + self.dimensions.size 0 * (iiy + self.dimensions.size 1 * iiz))
        Function.update memory ofs_out (region.source ofs_in.toNat)) memory) memory) memory

/-- The layout as a voxel store. -/
def store (toFloat : V → F) : VoxelStore V F where
  Call := Region V
  region := id
  setRegion := self.setRegion
  getVoxel := self.getVoxel toFloat
  cells := self.cells

/-! ## Regions inside the volume -/

/-- A region has no voxel or lies inside the volume. -/
def InVolume (dimensions : Index) (region : Region V) : Prop :=
  (∃ axis, region.regionSize axis = 0) ∨ ∀ axis, 0 ≤ region.regionCoords axis ∧
    region.regionCoords axis + region.regionSize axis ≤ dimensions axis

instance (dimensions : Index) (region : Region V) : Decidable (InVolume dimensions region) :=
  inferInstanceAs (Decidable (_ ∨ ∀ _ : Fin 3, _ ∧ _))

/-- The voxel of the volume at a position of a region. -/
def voxelAt (region : Region V) (z y x : Nat) : Index :=
  ![(region.regionCoords 0 + x).toNat, (region.regionCoords 1 + y).toNat,
    (region.regionCoords 2 + z).toNat]

/-- What the three loops write. -/
def regionWrites (region : Region V) : List (Index × V) :=
  (List.range (region.regionSize 2)).flatMap fun z =>
    (List.range (region.regionSize 1)).flatMap fun y =>
      (List.range (region.regionSize 0)).map fun x =>
        (voxelAt region z y x, region.source (rowMajor region.regionSize ![x, y, z]))

variable {self} {region : Region V}

/-- The positions of a region inside the volume. -/
theorem voxelAt_spec {dimensions : Dimensions} (inVolume : InVolume dimensions.size region)
    {z y x : Nat} (zInside : z < region.regionSize 2) (yInside : y < region.regionSize 1)
    (xInside : x < region.regionSize 0) :
    Inside dimensions.size (voxelAt region z y x) ∧
      (voxelAt region z y x 0 : Int) = region.regionCoords 0 + x ∧
      (voxelAt region z y x 1 : Int) = region.regionCoords 1 + y ∧
      (voxelAt region z y x 2 : Int) = region.regionCoords 2 + z ∧
      toInt32 (x + region.regionCoords 0) = voxelAt region z y x 0 ∧
      toInt32 (y + region.regionCoords 1) = voxelAt region z y x 1 ∧
      toInt32 (z + region.regionCoords 2) = voxelAt region z y x 2 ∧
      volume region.regionSize ≤ volume dimensions.size := by
  have bounds : ∀ axis, 0 ≤ region.regionCoords axis ∧
      region.regionCoords axis + region.regionSize axis ≤ dimensions.size axis := by
    refine inVolume.resolve_left ?_
    rintro ⟨axis, empty⟩
    induction axis using Library.Literals.three_cases with
    | zero => omega
    | one => omega
    | two => omega
  have zero := bounds 0
  have one := bounds 1
  have two := bounds 2
  have zeroRange := dimensions.range 0
  have oneRange := dimensions.range 1
  have twoRange := dimensions.range 2
  have voxelZero : voxelAt region z y x 0 = (region.regionCoords 0 + x).toNat := rfl
  have voxelOne : voxelAt region z y x 1 = (region.regionCoords 1 + y).toNat := rfl
  have voxelTwo : voxelAt region z y x 2 = (region.regionCoords 2 + z).toNat := rfl
  rw [toInt32_eq (by omega) (by omega), toInt32_eq (by omega) (by omega),
    toInt32_eq (by omega) (by omega)]
  refine ⟨fun axis => ?_, by omega, by omega, by omega, by omega, by omega, by omega, ?_⟩
  · induction axis using Library.Literals.three_cases with
    | zero => omega
    | one => omega
    | two => omega
  · exact Nat.mul_le_mul (by omega) (Nat.mul_le_mul (by omega) (by omega))

/-- A region inside the volume is written voxel by voxel. -/
theorem setRegion_eq (small : volume self.dimensions.size ≤ 2 ^ 60)
    (inVolume : InVolume self.dimensions.size region) (memory : Memory V) :
    self.setRegion region memory =
      writeAll (fun voxel => [(rowMajor self.dimensions.size voxel : Int)]) (regionWrites region)
        memory := by
  rw [setRegion, regionWrites, writeAll, List.foldl_flatMap]
  refine List.foldl_ext _ _ _ fun memory z zListed => ?_
  rw [List.foldl_flatMap]
  refine List.foldl_ext _ _ _ fun memory y yListed => ?_
  rw [List.foldl_map]
  refine List.foldl_ext _ _ _ fun memory x xListed => ?_
  obtain ⟨inside, -, -, -, zero, one, two, fewer⟩ := voxelAt_spec inVolume (List.mem_range.mp zListed)
    (List.mem_range.mp yListed) (List.mem_range.mp xListed)
  have target := rowMajor_lt inside
  have source : rowMajor region.regionSize ![x, y, z] < volume region.regionSize := by
    refine rowMajor_lt fun axis => ?_
    induction axis using Library.Literals.three_cases with
    | zero => exact List.mem_range.mp xListed
    | one => exact List.mem_range.mp yListed
    | two => exact List.mem_range.mp zListed
  have ofs_out : toInt64 (toInt32 (x + region.regionCoords 0) + self.dimensions.size 0 *
      (toInt32 (y + region.regionCoords 1) + self.dimensions.size 1 *
        toInt32 (z + region.regionCoords 2))) =
      rowMajor self.dimensions.size (voxelAt region z y x) := by
    rw [zero, one, two]
    exact_mod_cast @toInt64_eq (rowMajor self.dimensions.size (voxelAt region z y x))
      (by omega) (by omega)
  have ofs_in : toInt64 (x + region.regionSize 0 * (y + region.regionSize 1 * z)) =
      rowMajor region.regionSize ![x, y, z] := by
    exact_mod_cast @toInt64_eq (rowMajor region.regionSize ![x, y, z]) (by omega) (by omega)
  simp only [ofs_out, ofs_in]
  rfl

theorem mem_regionWrites {dimensions : Dimensions} (inVolume : InVolume dimensions.size region)
    (voxel : Index) (value : V) :
    (voxel, value) ∈ regionWrites region ↔
      Inside dimensions.size voxel ∧ region.value voxel = some value := by
  rw [value_eq_some, regionWrites]
  simp only [List.mem_flatMap, List.mem_map, List.mem_range]
  constructor
  · rintro ⟨z, zInside, y, yInside, x, xInside, same⟩
    obtain ⟨rfl, rfl⟩ := Prod.ext_iff.mp same
    obtain ⟨inside, zero, one, two, -⟩ := voxelAt_spec inVolume zInside yInside xInside
    exact ⟨inside, x, y, z, xInside, yInside, zInside, zero, one, two, rfl⟩
  · rintro ⟨inside, x, y, z, xInside, yInside, zInside, zeroSame, oneSame, twoSame, rfl⟩
    refine ⟨z, zInside, y, yInside, x, xInside, Prod.ext (funext fun axis => ?_) rfl⟩
    induction axis using Library.Literals.three_cases with
    | zero => exact (by omega : (region.regionCoords 0 + x).toNat = voxel 0)
    | one => exact (by omega : (region.regionCoords 1 + y).toNat = voxel 1)
    | two => exact (by omega : (region.regionCoords 2 + z).toNat = voxel 2)

/-! ## Addresses -/

/-- A slice can be addressed with 32 bits, or the volume with the 60 bits that are left of 64. -/
def Addressable : Prop :=
  self.voxelType.bytes * (self.dimensions.size 0 * self.dimensions.size 1) ≤ 1 <<< 30 ∨
    volume self.dimensions.size ≤ 2 ^ 60

theorem Addressable.bytes_lt (addressable : self.Addressable) :
    self.voxelType.bytes * volume self.dimensions.size < 2 ^ 64 := by
  have bytes : self.voxelType.bytes ≤ 8 := by cases self.voxelType <;> decide
  obtain slices | few := addressable
  · have range := self.dimensions.range 2
    calc self.voxelType.bytes * volume self.dimensions.size
      _ = self.voxelType.bytes * (self.dimensions.size 0 * self.dimensions.size 1) *
            self.dimensions.size 2 := by rw [volume]; ring
      _ ≤ 1 <<< 30 * 2 ^ 31 := Nat.mul_le_mul slices range.le
      _ < 2 ^ 64 := by decide
  · exact (Nat.mul_le_mul bytes few).trans_lt (by decide)

/-- The sizes of lines, slices and the volume are exact. -/
theorem bytes_eq (small : self.voxelType.bytes * volume self.dimensions.size < 2 ^ 64) :
    self.bytesPerLine = self.voxelType.bytes * self.dimensions.size 0 ∧
      self.bytesPerSlice = self.voxelType.bytes * (self.dimensions.size 0 * self.dimensions.size 1) ∧
      self.bytesPerVolume = self.voxelType.bytes * volume self.dimensions.size ∧
      self.cells = volume self.dimensions.size := by
  have slices : self.dimensions.size 0 * self.dimensions.size 1 ≤ volume self.dimensions.size := by
    rw [volume, ← Nat.mul_assoc]
    exact Nat.le_mul_of_pos_right _ (self.dimensions.positive 2)
  have lines : self.dimensions.size 0 ≤ self.dimensions.size 0 * self.dimensions.size 1 :=
    Nat.le_mul_of_pos_right _ (self.dimensions.positive 1)
  have scaled : ∀ {count : Nat}, count ≤ volume self.dimensions.size →
      self.voxelType.bytes * count < 2 ^ 64 := fun fewer =>
    (Nat.mul_le_mul_left _ fewer).trans_lt small
  have line : self.bytesPerLine = self.voxelType.bytes * self.dimensions.size 0 :=
    toUInt64_natCast (scaled (lines.trans slices))
  have slice : self.bytesPerSlice =
      self.voxelType.bytes * (self.dimensions.size 0 * self.dimensions.size 1) := by
    rw [bytesPerSlice, line, Nat.mul_assoc, toUInt64_natCast (scaled slices)]
  have whole : self.bytesPerVolume = self.voxelType.bytes * volume self.dimensions.size := by
    rw [bytesPerVolume, slice, Nat.mul_assoc, Nat.mul_assoc, toUInt64_natCast]
    · rfl
    · exact scaled le_rfl
  refine ⟨line, slice, whole, ?_⟩
  have count : toUInt64 (volume self.dimensions.size : Nat) = volume self.dimensions.size :=
    toUInt64_natCast ((Nat.le_mul_of_pos_left _ (bytes_pos self.voxelType)).trans_lt small)
  rw [cells]
  change toUInt64 (toUInt64 (volume self.dimensions.size : Nat) * self.voxelType.bytes : Nat) / _ = _
  rw [count, Nat.mul_comm, toUInt64_natCast (scaled le_rfl),
    Nat.mul_div_cancel_left _ (bytes_pos self.voxelType)]

/-- Each way of addressing reads a voxel from its place in row-major order. -/
theorem getVoxel_eq (addressable : self.Addressable) (toFloat : V → F) {voxel : Index}
    (inside : Inside self.dimensions.size voxel) (memory : Memory V) :
    self.getVoxel toFloat memory voxel =
      toFloat (memory (rowMajor self.dimensions.size voxel : Nat)) := by
  obtain ⟨-, slice, whole, -⟩ := bytes_eq addressable.bytes_lt
  have positive := bytes_pos self.voxelType
  have own := rowMajor_lt inside
  have line := digit_lt (inside 0) (inside 1)
  rw [getVoxel, whole, slice]
  split
  case isTrue few =>
    -- the bytes, so all the more the voxels, can be counted in 32 bits
    have fewer : volume self.dimensions.size ≤ 1 <<< 30 :=
      (Nat.le_mul_of_pos_left _ positive).trans few
    have exact_ : self.cell_32 voxel = rowMajor self.dimensions.size voxel :=
      toUInt32_natCast (own.trans_le (fewer.trans (by decide)))
    rw [exact_]
  case isFalse =>
    split
    case isTrue few =>
      have fewer : self.dimensions.size 0 * self.dimensions.size 1 ≤ 1 <<< 30 :=
        (Nat.le_mul_of_pos_left _ positive).trans few
      have ofs : toUInt32 (voxel 0 + self.dimensions.size 0 * voxel 1 : Nat) =
          voxel 0 + self.dimensions.size 0 * voxel 1 :=
        toUInt32_natCast (line.trans_le (fewer.trans (by decide)))
      have slices := (inside 2).trans (self.dimensions.range 2)
      have bound : voxel 2 * (self.voxelType.bytes *
          (self.dimensions.size 0 * self.dimensions.size 1)) ≤ 2 ^ 31 * 1 <<< 30 :=
        Nat.mul_le_mul slices.le few
      have exact_ : self.cell_64_32 voxel = rowMajor self.dimensions.size voxel := by
        rw [cell_64_32]
        simp only [ofs, slice]
        rw [toUInt64_natCast (bound.trans_lt (by decide)), Nat.mul_left_comm, Nat.mul_div_cancel_left _ positive,
          rowMajor]
        ring
      rw [exact_]
    case isFalse many =>
      have small := addressable.resolve_left many
      have exact_ : self.cell_64 voxel = rowMajor self.dimensions.size voxel := by
        have index64 : toUInt64 (voxel 0 + self.dimensions.size 0 *
            (voxel 1 + self.dimensions.size 1 * voxel 2) : Nat) =
              rowMajor self.dimensions.size voxel :=
          toUInt64_natCast ((own.trans_le small).trans (by decide))
        have low : (1 <<< 28 - 1 : Nat) = 2 ^ 28 - 1 := by decide
        rw [cell_64]
        simp only [index64]
        rw [Nat.shiftRight_eq_div_pow, toUInt32_natCast (by omega), Nat.shiftLeft_eq, low,
          Nat.and_two_pow_sub_one_eq_mod, Nat.mul_comm, Nat.div_add_mod]
      rw [exact_]

/-- The layout stores voxels, for regions inside the volume. -/
theorem stores (small : volume self.dimensions.size ≤ 2 ^ 60) (toFloat : V → F) :
    (self.store toFloat).Stores toFloat self.dimensions.size (InVolume self.dimensions.size) := by
  have addressable : self.Addressable := .inr small
  let place : Index → List Int := fun voxel => [(rowMajor self.dimensions.size voxel : Int)]
  have writes : ∀ region : Region V, InVolume self.dimensions.size region →
      self.setRegion region = writeAll place (regionWrites region) := fun region inVolume =>
    funext (setRegion_eq small inVolume)
  refine VoxelStore.stores_of_performs _ place ?_ ?_ ?_
  · intro region inVolume
    change Performs place _ _ (self.setRegion region)
    rw [writes region inVolume]
    refine performs_writeAll (mem_regionWrites inVolume) ?_
    intro voxel other address inside otherInside own shared
    have first := List.mem_singleton.mp own
    have second := List.mem_singleton.mp shared
    exact rowMajor_injective inside otherInside (Int.ofNat.inj (first.symm.trans second))
  · intro voxel inside
    exact ⟨_, List.mem_singleton_self _, fun memory => getVoxel_eq addressable toFloat inside memory⟩
  · intro region memory inVolume address outside
    change self.setRegion region memory address = memory address
    rw [writes region inVolume]
    refine writeAll_other ?_
    rintro ⟨voxel, value⟩ listed own
    have inside := ((mem_regionWrites inVolume voxel value).mp listed).1
    have same := List.mem_singleton.mp own
    have bound := rowMajor_lt inside
    change ¬ (0 ≤ address ∧ address < self.cells) at outside
    rw [(bytes_eq addressable.bytes_lt).2.2.2] at outside
    change address = rowMajor self.dimensions.size voxel at same
    omega

end SharedStructuredVolume

end Ospray.Structured
