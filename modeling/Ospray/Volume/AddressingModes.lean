import Ospray.Volume.SharedStructuredVolume

/-!
# The ways of addressing a shared volume

The constructor chooses by the bytes of the volume and of a slice. With 32 bits, or with
32 bits in each slice, samples are read at byte offsets of their own: that of the lower
corner, and one for each of the eight voxels around. With 64 bits they are read voxel by
voxel. The bytes are counted with 64 bits, and the last way of addressing has 60 bits for
the index of a voxel, so that larger volumes are read at wrong places.
-/

namespace Ospray.Structured.SharedStructuredVolume

open Library.RowMajor

/-- The functions the constructor can choose. -/
inductive Addressing where
  | addressing_32 | addressing_64_32 | addressing_64
  deriving DecidableEq, Repr

/-- The voxel at a corner of the box above a voxel. -/
def neighbor (index : Index) (corner : Fin 3 → Bool) : Index := fun axis =>
  if corner axis then index axis + 1 else index axis

section

variable (self : SharedStructuredVolume)

/-- The choice of the constructor. -/
def addressing : Addressing :=
  if self.bytesPerVolume ≤ 1 <<< 30 then .addressing_32
  else if self.bytesPerSlice ≤ 1 <<< 30 then .addressing_64_32
  else .addressing_64

def voxelOfs_dx : Nat := toUInt32 (self.voxelType.bytes : Nat)
def voxelOfs_dy : Nat := toUInt32 (self.bytesPerLine : Nat)
def voxelOfs_dz : Nat := toUInt32 (self.bytesPerSlice : Nat)

/-- `voxelOfs` of `SSV_sample_32` -/
def voxelOfs_32 (voxelIndex_0 : Index) : Nat :=
  toUInt32 (voxelIndex_0 0 * self.voxelOfs_dx + voxelIndex_0 1 * self.voxelOfs_dy +
    voxelIndex_0 2 * self.voxelOfs_dz : Nat)

/-- `voxelOfs` of `SSV_sample_64_32` -/
def voxelOfs_64_32 (voxelIndex_0 : Index) : Nat :=
  toUInt32 (voxelIndex_0 0 * self.voxelOfs_dx + voxelIndex_0 1 * self.voxelOfs_dy : Nat)

/-- `ofs000` to `ofs111` -/
def ofs (corner : Fin 3 → Bool) : Nat :=
  toUInt64 ((if corner 2 then self.bytesPerSlice else 0) + (if corner 1 then self.bytesPerLine else 0) +
    (if corner 0 then self.voxelType.bytes else 0) : Nat)

/-- The byte of `voxelData` at which a sample above `voxelIndex_0` reads its voxel at a corner. -/
def sampleByte (voxelIndex_0 : Index) (corner : Fin 3 → Bool) : Nat :=
  match self.addressing with
  | .addressing_32 => toUInt64 (self.ofs corner + self.voxelOfs_32 voxelIndex_0 : Nat)
  | .addressing_64_32 =>
    let voxelData := toUInt64 (voxelIndex_0 2 * self.bytesPerSlice : Nat)
    toUInt64 (voxelData + self.ofs corner + self.voxelOfs_64_32 voxelIndex_0 : Nat)
  | .addressing_64 => self.voxelType.bytes * self.cell_64 (neighbor voxelIndex_0 corner)

/-- What `getVoxel` computes with an `int`, each before it is cut to 32 bits. -/
def intOffsets (index : Index) : List Nat :=
  let dimensions := self.dimensions.size
  match self.addressing with
  | .addressing_32 => [dimensions 1 * index 2, index 1 + dimensions 1 * index 2,
      dimensions 0 * (index 1 + dimensions 1 * index 2),
      index 0 + dimensions 0 * (index 1 + dimensions 1 * index 2)]
  | .addressing_64_32 => [dimensions 0 * index 1, index 0 + dimensions 0 * index 1]
  | .addressing_64 => []

/-- What `getVoxel` and the samples compute with a `uint32`, each before it is cut to 32 bits. -/
def uintOffsets (index : Index) : List Nat :=
  match self.addressing with
  | .addressing_32 => [self.voxelType.bytes, self.bytesPerLine, self.bytesPerSlice,
      index 0 * self.voxelOfs_dx, index 1 * self.voxelOfs_dy, index 2 * self.voxelOfs_dz,
      index 0 * self.voxelOfs_dx + index 1 * self.voxelOfs_dy,
      index 0 * self.voxelOfs_dx + index 1 * self.voxelOfs_dy + index 2 * self.voxelOfs_dz]
  | .addressing_64_32 => [self.voxelType.bytes, self.bytesPerLine, index 0 * self.voxelOfs_dx,
      index 1 * self.voxelOfs_dy, index 0 * self.voxelOfs_dx + index 1 * self.voxelOfs_dy]
  | .addressing_64 =>
    let index64 := toUInt64
      (index 0 + self.dimensions.size 0 * (index 1 + self.dimensions.size 1 * index 2) : Nat)
    [index64 >>> 28, index64 &&& (1 <<< 28 - 1)]

end

/-- All voxels are read from their places in row-major order, by `getVoxel` and by samples, and no offset
of 32 bits wraps around. -/
structure ReadsRowMajor (shared : SharedStructuredVolume) : Prop where
  getVoxel : ∀ {V F : Type} (toFloat : V → F) (memory : Memory V) (index : Index),
    Inside shared.dimensions.size index →
    shared.getVoxel toFloat memory index = toFloat (memory (rowMajor shared.dimensions.size index : Nat))
  sample : ∀ voxelIndex_0 : Index, (∀ axis, voxelIndex_0 axis + 2 ≤ shared.dimensions.size axis) →
    ∀ corner, shared.sampleByte voxelIndex_0 corner =
      shared.voxelType.bytes * rowMajor shared.dimensions.size (neighbor voxelIndex_0 corner)
  intOffsets : ∀ index, Inside shared.dimensions.size index → ∀ offset ∈ shared.intOffsets index, offset < 2 ^ 31
  uintOffsets : ∀ index, Inside shared.dimensions.size index → ∀ offset ∈ shared.uintOffsets index, offset < 2 ^ 32

variable {self : SharedStructuredVolume}

/-! ## Offsets of a box -/

theorem neighbor_inside {voxelIndex_0 : Index} (below : ∀ axis, voxelIndex_0 axis + 2 ≤ self.dimensions.size axis)
    (corner : Fin 3 → Bool) : Inside self.dimensions.size (neighbor voxelIndex_0 corner) := by
  intro axis
  have inside := below axis
  rw [neighbor]
  split_ifs <;> omega

theorem bytes_rowMajor (bytes : Nat) (size index : Index) :
    bytes * rowMajor size index =
      index 0 * bytes + index 1 * (bytes * size 0) + index 2 * (bytes * (size 0 * size 1)) := by
  rw [rowMajor]
  ring

theorem bytes_neighbor (bytes : Nat) (size index : Index) (corner : Fin 3 → Bool) :
    bytes * rowMajor size (neighbor index corner) = bytes * rowMajor size index +
      ((if corner 2 then bytes * (size 0 * size 1) else 0) + (if corner 1 then bytes * size 0 else 0) +
        (if corner 0 then bytes else 0)) := by
  simp only [bytes_rowMajor, neighbor]
  split_ifs <;> ring

section Exact

variable (addressable : self.Addressable)

include addressable

theorem ofs_eq {voxelIndex_0 : Index} (below : ∀ axis, voxelIndex_0 axis + 2 ≤ self.dimensions.size axis)
    (corner : Fin 3 → Bool) :
    self.voxelType.bytes * rowMajor self.dimensions.size voxelIndex_0 + self.ofs corner =
      self.voxelType.bytes * rowMajor self.dimensions.size (neighbor voxelIndex_0 corner) ∧
      self.voxelType.bytes * rowMajor self.dimensions.size (neighbor voxelIndex_0 corner) < 2 ^ 64 := by
  obtain ⟨line, slice, -⟩ := bytes_eq addressable.bytes_lt
  have last := (Nat.mul_le_mul_left self.voxelType.bytes (rowMajor_lt (neighbor_inside below corner)).le).trans_lt
    addressable.bytes_lt
  refine ⟨?_, last⟩
  rw [bytes_neighbor] at last ⊢
  rw [ofs, line, slice, toUInt64_natCast (by omega)]

/-- The offsets along the axes are exact, where slices have few bytes. -/
theorem voxelOfs_eq (few : self.bytesPerSlice ≤ 1 <<< 30) :
    self.voxelOfs_dx = self.voxelType.bytes ∧
      self.voxelOfs_dy = self.voxelType.bytes * self.dimensions.size 0 ∧
      self.voxelOfs_dz = self.voxelType.bytes * (self.dimensions.size 0 * self.dimensions.size 1) ∧
      self.voxelType.bytes ≤ 1 <<< 30 ∧ self.bytesPerLine ≤ 1 <<< 30 := by
  obtain ⟨line, slice, -⟩ := bytes_eq addressable.bytes_lt
  have lines : self.bytesPerLine ≤ self.bytesPerSlice := by
    rw [line, slice, ← Nat.mul_assoc]
    exact Nat.le_mul_of_pos_right _ (self.dimensions.positive 1)
  have voxels : self.voxelType.bytes ≤ self.bytesPerLine := by
    rw [line]
    exact Nat.le_mul_of_pos_right _ (self.dimensions.positive 0)
  have fits : (1 <<< 30 : Nat) < 2 ^ 32 := by decide
  refine ⟨toUInt32_natCast (by omega), ?_, ?_, by omega, by omega⟩
  · rw [voxelOfs_dy, toUInt32_natCast (by omega), line]
  · rw [voxelOfs_dz, toUInt32_natCast (by omega), slice]

theorem bytesPerSlice_le : self.bytesPerSlice ≤ self.bytesPerVolume := by
  obtain ⟨-, slice, whole, -⟩ := bytes_eq addressable.bytes_lt
  rw [slice, whole, volume, ← @Nat.mul_assoc (self.dimensions.size 0)]
  exact Nat.mul_le_mul_left _ (Nat.le_mul_of_pos_right _ (self.dimensions.positive 2))

/-- The bytes before a voxel inside are fewer than all, and those in its slice fewer than a slice has. -/
theorem bytes_before {index : Index} (inside : Inside self.dimensions.size index) :
    self.voxelType.bytes * rowMajor self.dimensions.size index < self.bytesPerVolume ∧
      index 0 * self.voxelType.bytes + index 1 * (self.voxelType.bytes * self.dimensions.size 0) <
        self.bytesPerSlice := by
  obtain ⟨-, slice, whole, -⟩ := bytes_eq addressable.bytes_lt
  have positive := bytes_pos self.voxelType
  rw [slice, whole]
  refine ⟨Nat.mul_lt_mul_of_pos_left (rowMajor_lt inside) positive, ?_⟩
  calc index 0 * self.voxelType.bytes + index 1 * (self.voxelType.bytes * self.dimensions.size 0)
    _ = self.voxelType.bytes * (index 0 + self.dimensions.size 0 * index 1) := by ring
    _ < _ := Nat.mul_lt_mul_of_pos_left (digit_lt (inside 0) (inside 1)) positive

/-! ## Samples -/

/-- Each sample reads the eight voxels around. -/
theorem sampleByte_eq {voxelIndex_0 : Index}
    (below : ∀ axis, voxelIndex_0 axis + 2 ≤ self.dimensions.size axis) (corner : Fin 3 → Bool) :
    self.sampleByte voxelIndex_0 corner =
      self.voxelType.bytes * rowMajor self.dimensions.size (neighbor voxelIndex_0 corner) := by
  obtain ⟨box, last⟩ := ofs_eq addressable below corner
  obtain ⟨-, slice, -⟩ := bytes_eq addressable.bytes_lt
  have inside : Inside self.dimensions.size voxelIndex_0 := fun axis => by
    have beyond := below axis
    omega
  obtain ⟨before, beforeInSlice⟩ := bytes_before addressable inside
  have sum := bytes_rowMajor self.voxelType.bytes self.dimensions.size voxelIndex_0
  have fits : (1 <<< 30 : Nat) < 2 ^ 32 := by decide
  rw [sampleByte, addressing]
  split_ifs with small few
  · obtain ⟨dx, dy, dz, -⟩ := voxelOfs_eq addressable ((bytesPerSlice_le addressable).trans small)
    have lower : self.voxelOfs_32 voxelIndex_0 =
        self.voxelType.bytes * rowMajor self.dimensions.size voxelIndex_0 := by
      rw [voxelOfs_32, dx, dy, dz, ← sum, toUInt32_natCast (by omega)]
    change toUInt64 (self.ofs corner + self.voxelOfs_32 voxelIndex_0 : Nat) = _
    rw [lower, Nat.add_comm, box, toUInt64_natCast last]
  · obtain ⟨dx, dy, -⟩ := voxelOfs_eq addressable few
    have inSlice : self.voxelOfs_64_32 voxelIndex_0 = voxelIndex_0 0 * self.voxelType.bytes +
        voxelIndex_0 1 * (self.voxelType.bytes * self.dimensions.size 0) := by
      rw [voxelOfs_64_32, dx, dy, toUInt32_natCast (by omega)]
    have start : toUInt64 (voxelIndex_0 2 * self.bytesPerSlice : Nat) =
        voxelIndex_0 2 * (self.voxelType.bytes * (self.dimensions.size 0 * self.dimensions.size 1)) := by
      rw [slice, toUInt64_natCast (by omega)]
    change toUInt64 (toUInt64 (voxelIndex_0 2 * self.bytesPerSlice : Nat) + self.ofs corner +
      self.voxelOfs_64_32 voxelIndex_0 : Nat) = _
    rw [start, inSlice]
    have total : voxelIndex_0 2 * (self.voxelType.bytes * (self.dimensions.size 0 * self.dimensions.size 1)) +
        self.ofs corner + (voxelIndex_0 0 * self.voxelType.bytes +
          voxelIndex_0 1 * (self.voxelType.bytes * self.dimensions.size 0)) =
        self.voxelType.bytes * rowMajor self.dimensions.size (neighbor voxelIndex_0 corner) := by
      rw [← box, sum]
      ring
    rw [total, toUInt64_natCast last]
  · have read := @getVoxel_eq _ _ _ addressable id _ (neighbor_inside below corner) (id : Memory Int)
    rw [SharedStructuredVolume.getVoxel, if_neg small, if_neg few] at read
    have cell : self.cell_64 (neighbor voxelIndex_0 corner) =
        rowMajor self.dimensions.size (neighbor voxelIndex_0 corner) := Int.ofNat.inj read
    change self.voxelType.bytes * self.cell_64 (neighbor voxelIndex_0 corner) = _
    rw [cell]

/-! ## Offsets of 32 bits -/

/-- No `int` offset wraps around. -/
theorem intOffsets_lt {index : Index} (inside : Inside self.dimensions.size index) :
    ∀ offset ∈ self.intOffsets index, offset < 2 ^ 31 := by
  obtain ⟨-, slice, whole, -⟩ := bytes_eq addressable.bytes_lt
  have positive := bytes_pos self.voxelType
  have own := rowMajor_lt inside
  have line := digit_lt (inside 0) (inside 1)
  have fits : (1 <<< 30 : Nat) < 2 ^ 31 := by decide
  intro offset listed
  rw [intOffsets, addressing] at listed
  split_ifs at listed with small few
  · have fewer : volume self.dimensions.size ≤ 1 <<< 30 :=
      (Nat.le_mul_of_pos_left _ positive).trans (whole.symm.trans_le small)
    rw [rowMajor] at own
    have rows : index 1 + self.dimensions.size 1 * index 2 ≤
        self.dimensions.size 0 * (index 1 + self.dimensions.size 1 * index 2) :=
      Nat.le_mul_of_pos_left _ (self.dimensions.positive 0)
    simp only [List.mem_cons, List.not_mem_nil, or_false] at listed
    obtain rfl | rfl | rfl | rfl := listed <;> omega
  · have fewer : self.dimensions.size 0 * self.dimensions.size 1 ≤ 1 <<< 30 :=
      (Nat.le_mul_of_pos_left _ positive).trans (slice.symm.trans_le few)
    simp only [List.mem_cons, List.not_mem_nil, or_false] at listed
    obtain rfl | rfl := listed <;> omega
  · exact absurd listed List.not_mem_nil

/-- No `uint32` offset wraps around. -/
theorem uintOffsets_lt {index : Index} (inside : Inside self.dimensions.size index) :
    ∀ offset ∈ self.uintOffsets index, offset < 2 ^ 32 := by
  obtain ⟨-, slice, -⟩ := bytes_eq addressable.bytes_lt
  obtain ⟨before, beforeInSlice⟩ := bytes_before addressable inside
  have sum := bytes_rowMajor self.voxelType.bytes self.dimensions.size index
  have fits : (1 <<< 30 : Nat) < 2 ^ 32 := by decide
  intro offset listed
  rw [uintOffsets, addressing] at listed
  split_ifs at listed with small few
  · have slices := (bytesPerSlice_le addressable).trans small
    obtain ⟨dx, dy, dz, voxels, lines⟩ := voxelOfs_eq addressable slices
    simp only [dx, dy, dz, List.mem_cons, List.not_mem_nil, or_false] at listed
    obtain rfl | rfl | rfl | rfl | rfl | rfl | rfl | rfl := listed <;> omega
  · obtain ⟨dx, dy, -, voxels, lines⟩ := voxelOfs_eq addressable few
    simp only [dx, dy, List.mem_cons, List.not_mem_nil, or_false] at listed
    obtain rfl | rfl | rfl | rfl | rfl := listed <;> omega
  · rw [slice] at few
    have own := rowMajor_lt inside
    have most := addressable.resolve_left few
    have index64 : toUInt64 (index 0 + self.dimensions.size 0 *
        (index 1 + self.dimensions.size 1 * index 2) : Nat) = rowMajor self.dimensions.size index :=
      toUInt64_natCast ((own.trans_le most).trans (by decide))
    simp only [index64, List.mem_cons, List.not_mem_nil, or_false] at listed
    obtain rfl | rfl := listed
    · rw [Nat.shiftRight_eq_div_pow]
      omega
    · exact Nat.and_le_right.trans_lt (by decide)

end Exact

/-! ## Volumes that are too large -/

theorem toUInt32_lt (value : Int) : toUInt32 value < 2 ^ 32 := by
  rw [toUInt32]
  omega

theorem rowMajor_last {size : Index} (positive : ∀ axis, 0 < size axis) (slice : Nat) :
    rowMajor size ![size 0 - 1, size 1 - 1, slice] + 1 = size 0 * (size 1 * (slice + 1)) := by
  obtain ⟨width, zero⟩ := Nat.exists_eq_add_one.mpr (positive 0)
  obtain ⟨height, one⟩ := Nat.exists_eq_add_one.mpr (positive 1)
  change size 0 - 1 + size 0 * (size 1 - 1 + size 1 * slice) + 1 = _
  rw [zero, one, Nat.add_sub_cancel, Nat.add_sub_cancel]
  ring

/-- The cells of 32 bits, -/
theorem cell_32_lt (index : Index) : self.cell_32 index < 2 ^ 32 := toUInt32_lt _

/-- those in the first slice of 64 and 32 bits, -/
theorem cell_64_32_lt {index : Index} (first : index 2 = 0) : self.cell_64_32 index < 2 ^ 32 := by
  have start : toUInt64 ((index 2 * self.bytesPerSlice : Nat) : Int) / self.voxelType.bytes = 0 := by
    rw [first, Nat.zero_mul]
    exact Nat.zero_div _
  change toUInt64 ((index 2 * self.bytesPerSlice : Nat) : Int) / self.voxelType.bytes + _ < _
  rw [start, zero_add]
  exact toUInt32_lt _

/-- and those of 64 bits are bounded. -/
theorem cell_64_lt (index : Index) : self.cell_64 index < 2 ^ 60 := by
  rw [cell_64]
  generalize toUInt64 (index 0 + self.dimensions.size 0 * (index 1 + self.dimensions.size 1 * index 2) : Nat) = index64
  have high := Nat.le_pred_of_lt (toUInt32_lt (index64 >>> 28 : Nat))
  have low := @Nat.and_le_right index64 (1 <<< 28 - 1)
  simp only [Nat.shiftLeft_eq] at low ⊢
  exact lt_of_le_of_lt (Nat.add_le_add (Nat.mul_le_mul_right _ high) low) (by decide)

theorem slice_wrapped
    (slices : ¬ self.voxelType.bytes * (self.dimensions.size 0 * self.dimensions.size 1) ≤ 1 <<< 30)
    (few : self.bytesPerSlice ≤ 1 <<< 30) :
    2 ^ 64 ≤ self.voxelType.bytes * (self.dimensions.size 0 * self.dimensions.size 1) := by
  by_contra fits
  refine absurd few (not_le.mpr ((not_le.mp slices).trans_eq ?_))
  have line : self.bytesPerLine = self.voxelType.bytes * self.dimensions.size 0 := by
    refine toUInt64_natCast (lt_of_le_of_lt ?_ (not_le.mp fits))
    rw [← Nat.mul_assoc]
    exact Nat.le_mul_of_pos_right _ (self.dimensions.positive 1)
  rw [bytesPerSlice, line, Nat.mul_assoc, toUInt64_natCast (not_le.mp fits)]

/-- No way of addressing reads the last voxels of a larger volume. -/
theorem addressable_of_reads (reads : ∀ index, Inside self.dimensions.size index →
    self.getVoxel id (id : Memory Int) index = (rowMajor self.dimensions.size index : Nat)) :
    self.Addressable := by
  by_contra large
  obtain ⟨slices, voxels⟩ := not_or.mp large
  have positive := self.dimensions.positive
  have read : ∀ slice, slice < self.dimensions.size 2 →
      self.getVoxel id (id : Memory Int) ![self.dimensions.size 0 - 1, self.dimensions.size 1 - 1, slice] =
        (rowMajor self.dimensions.size
          ![self.dimensions.size 0 - 1, self.dimensions.size 1 - 1, slice] : Nat) := by
    intro slice inside
    apply reads _
    intro axis
    have some_ := positive axis
    induction axis using Library.Literals.three_cases with
    | zero => exact Nat.sub_lt some_ one_pos
    | one => exact Nat.sub_lt some_ one_pos
    | two => exact inside
  have volumeRead := read (self.dimensions.size 2 - 1) (Nat.sub_lt (positive 2) one_pos)
  have volumeLast := rowMajor_last positive (self.dimensions.size 2 - 1)
  rw [Nat.sub_add_cancel (positive 2)] at volumeLast
  change _ = volume self.dimensions.size at volumeLast
  by_cases small : self.bytesPerVolume ≤ 1 <<< 30
  · rw [SharedStructuredVolume.getVoxel, if_pos small] at volumeRead
    have cell := Int.ofNat.inj volumeRead
    have bound := @cell_32_lt self
      ![self.dimensions.size 0 - 1, self.dimensions.size 1 - 1, self.dimensions.size 2 - 1]
    omega
  · by_cases few : self.bytesPerSlice ≤ 1 <<< 30
    · -- the bytes of a slice have wrapped around, and the last voxel of the first slice is not read
      have sliceRead := read 0 (positive 2)
      have sliceLast := rowMajor_last positive 0
      rw [zero_add, mul_one] at sliceLast
      rw [SharedStructuredVolume.getVoxel, if_neg small, if_pos few] at sliceRead
      have cell := Int.ofNat.inj sliceRead
      have first := @cell_64_32_lt self ![self.dimensions.size 0 - 1, self.dimensions.size 1 - 1, 0] rfl
      have bytes : self.voxelType.bytes ≤ 8 := by cases self.voxelType <;> decide
      have most := (slice_wrapped slices few).trans (Nat.mul_le_mul_right _ bytes)
      omega
    · rw [SharedStructuredVolume.getVoxel, if_neg small, if_neg few] at volumeRead
      have cell := Int.ofNat.inj volumeRead
      have bound := @cell_64_lt self
        ![self.dimensions.size 0 - 1, self.dimensions.size 1 - 1, self.dimensions.size 2 - 1]
      omega

/-! ## All volumes -/

/-- **The ways of addressing agree.** All voxels and all samples are read in row-major order, without an
offset of 32 bits that wraps around, if and only if a slice has at most `2 ^ 30` bytes or the volume at most
`2 ^ 60` voxels. -/
theorem readsRowMajor_iff (self : SharedStructuredVolume) : self.ReadsRowMajor ↔ self.Addressable := by
  constructor
  · intro reads
    exact addressable_of_reads (reads.getVoxel id id)
  · intro addressable
    exact {
      getVoxel := fun toFloat memory _ inside => getVoxel_eq addressable toFloat inside memory
      sample := fun _ below corner => sampleByte_eq addressable below corner
      intOffsets := fun _ inside => intOffsets_lt addressable inside
      uintOffsets := fun _ inside => uintOffsets_lt addressable inside }

/-- A volume of `2 ^ 64` voxels of a byte. -/
def wrappedVolume : SharedStructuredVolume :=
  ⟨⟨![2 ^ 22, 2 ^ 21, 2 ^ 21], by decide, by decide⟩, .uint8⟩

/-- No memory is allocated for it, 32 bits are chosen, and the voxel at (0, 1024, 0) is read where the first
one is. -/
theorem wrappedVolume_misread :
    wrappedVolume.cells = 0 ∧ wrappedVolume.addressing = .addressing_32 ∧
      Inside wrappedVolume.dimensions.size ![0, 1024, 0] ∧
      rowMajor wrappedVolume.dimensions.size ![0, 1024, 0] = 2 ^ 32 ∧
      ∀ memory : Memory Int, wrappedVolume.getVoxel id memory ![0, 1024, 0] = memory 0 := by
  have few : wrappedVolume.bytesPerVolume ≤ 1 <<< 30 := by decide +kernel
  have cell : wrappedVolume.cell_32 ![0, 1024, 0] = 0 := by decide +kernel
  refine ⟨by decide +kernel, by decide +kernel, by decide +kernel, by decide +kernel, fun memory => ?_⟩
  rw [getVoxel, if_pos few, cell]
  rfl

end Ospray.Structured.SharedStructuredVolume
