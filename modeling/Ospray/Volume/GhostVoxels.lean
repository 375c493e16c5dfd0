import Mathlib.Algebra.Order.Floor.Semifield
import Mathlib.Tactic.Ring
import Ospray.Volume.GhostBlockBrickedVolume

/-!
# Where the ghosts of a voxel stand

A voxel of a block stands for the voxel of the volume 63 times the block further on, also
when it is the last one along some axes and so a copy. The cells that `setRegion` writes
for a voxel of the volume are exactly those that stand for it. The corners of a sample
are such cells of one block, whence they hold the voxels around the sample.
-/

namespace Ospray.Structured

open Library.RowMajor Library.Replicas

/-- The bit fields are the offset in the block. -/
theorem voxelIndices_eq {local_ : Index} (inside : InBlock local_) :
    voxelIndices local_ = blockOffset local_ := by
  have zero : local_ 0 < 64 := inside 0
  have one : local_ 1 < 64 := inside 1
  have brick : ∀ axis, local_ axis >>> 2 = local_ axis / 4 := fun axis =>
    Nat.shiftRight_eq_div_pow _ 2
  have voxel : ∀ axis, local_ axis &&& 3 = local_ axis % 4 := by
    intro axis
    rw [show 3 = 2 ^ 2 - 1 from rfl, Nat.and_two_pow_sub_one_eq_mod]
  have two : local_ 0 % 4 < 2 ^ 2 := by omega
  have four : local_ 0 % 4 + 2 ^ 2 * (local_ 1 % 4) < 2 ^ 4 := by omega
  have six : local_ 0 % 4 + 2 ^ 2 * (local_ 1 % 4) + 2 ^ 4 * (local_ 2 % 4) < 2 ^ 6 := by omega
  have ten : local_ 0 % 4 + 2 ^ 2 * (local_ 1 % 4) + 2 ^ 4 * (local_ 2 % 4) +
      2 ^ 6 * (local_ 0 / 4) < 2 ^ 10 := by omega
  have fourteen : local_ 0 % 4 + 2 ^ 2 * (local_ 1 % 4) + 2 ^ 4 * (local_ 2 % 4) +
      2 ^ 6 * (local_ 0 / 4) + 2 ^ 10 * (local_ 1 / 4) < 2 ^ 14 := by omega
  simp only [voxelIndices, brick, voxel]
  rw [Nat.shiftLeft_zero, or_shiftLeft two, or_shiftLeft four, or_shiftLeft six, or_shiftLeft ten,
    or_shiftLeft fourteen, blockOffset, rowMajor, rowMajor]
  omega

theorem voxelByteOfs_eq (voxelType : VoxelType) {local_ : Index} (inside : InBlock local_) :
    voxelByteOfs voxelType local_ = voxelType.scale * blockOffset local_ := by
  rw [← voxelIndices_eq inside, scale_eq_shift, Nat.mul_comm, ← Nat.shiftLeft_eq]
  simp only [voxelByteOfs, voxelIndices, Nat.shiftLeft_add, Nat.shiftLeft_or_distrib]

/-- A step along an axis is the difference of two offsets. -/
theorem voxelStep_eq (voxelType : VoxelType) (index : Nat) {scaleLo scaleHi : Nat}
    (larger : 3 * scaleLo ≤ scaleHi) :
    voxelType.scale * (scaleLo * (index % 4) + scaleHi * (index / 4)) +
        voxelStep voxelType index scaleLo scaleHi =
      voxelType.scale * (scaleLo * ((index + 1) % 4) + scaleHi * ((index + 1) / 4)) := by
  have last : index &&& 3 = index % 4 := by
    rw [show 3 = 2 ^ 2 - 1 from rfl, Nat.and_two_pow_sub_one_eq_mod]
  obtain ⟨gap, rfl⟩ := Nat.exists_eq_add_of_le larger
  rw [voxelStep, last, Nat.add_mul _ _ voxelType.scale, Nat.add_sub_cancel_left]
  split
  case isTrue end_ =>
    have low : (index + 1) % 4 = 0 := by omega
    have high : (index + 1) / 4 = index / 4 + 1 := by omega
    rw [low, high, end_]
    ring
  case isFalse inner =>
    have low : (index + 1) % 4 = index % 4 + 1 := by omega
    have high : (index + 1) / 4 = index / 4 := by omega
    rw [low, high]
    ring

/-- The upper corner along some axes. -/
def cornerOf (local_ : Index) (corner : Fin 3 → Bool) : Index :=
  fun axis => local_ axis + (corner axis).toNat

/-- The steps along the axes lead to the corner. -/
theorem offset_corner (voxelType : VoxelType) (block : Nat) (local_ : Index)
    (corner : Fin 3 → Bool) :
    let address8 := brickTranslation voxelType block local_
    voxelType.scale * blockOffset local_ + (if corner 0 then address8.voxelOfs_dx else 0) +
        (if corner 1 then address8.voxelOfs_dy else 0) +
        (if corner 2 then address8.voxelOfs_dz else 0) =
      voxelType.scale * blockOffset (cornerOf local_ corner) := by
  have axes : ∀ local_ : Index, voxelType.scale * blockOffset local_ =
      voxelType.scale * (2 ^ 0 * (local_ 0 % 4) + 2 ^ 6 * (local_ 0 / 4)) +
        voxelType.scale * (2 ^ 2 * (local_ 1 % 4) + 2 ^ 10 * (local_ 1 / 4)) +
        voxelType.scale * (2 ^ 4 * (local_ 2 % 4) + 2 ^ 14 * (local_ 2 / 4)) := by
    intro local_
    rw [blockOffset, rowMajor, rowMajor]
    ring
  have step : ∀ (upper : Bool) (index scaleLo scaleHi : Nat), 3 * scaleLo ≤ scaleHi →
      voxelType.scale * (scaleLo * (index % 4) + scaleHi * (index / 4)) +
          (if upper then voxelStep voxelType index scaleLo scaleHi else 0) =
        voxelType.scale * (scaleLo * ((index + upper.toNat) % 4) +
          scaleHi * ((index + upper.toNat) / 4)) := by
    intro upper index scaleLo scaleHi larger
    cases upper with
    | false => rfl
    | true => exact voxelStep_eq voxelType index larger
  have x := step (corner 0) (local_ 0) (2 ^ 0) (2 ^ 6) (by decide)
  have y := step (corner 1) (local_ 1) (2 ^ 2) (2 ^ 10) (by decide)
  have z := step (corner 2) (local_ 2) (2 ^ 4) (2 ^ 14) (by decide)
  rw [axes, axes]
  simp only [brickTranslation, cornerOf]
  omega

theorem xor_low (block : Nat) : block ^^^ (block &&& 255) = 2 ^ 8 * (block / 2 ^ 8) := by
  refine Nat.eq_of_testBit_eq fun bit => ?_
  rw [Nat.testBit_xor, Nat.testBit_and, show 255 = 2 ^ 8 - 1 from rfl, Nat.testBit_two_pow_sub_one,
    Nat.testBit_two_pow_mul, Nat.testBit_div_two_pow]
  by_cases low : bit < 8
  · have above : ¬ 8 ≤ bit := not_le.mpr low
    simp [low]
  · have above : 8 ≤ bit := not_lt.mp low
    simp [low, above]

theorem addStep_eq (upper : Bool) {ofs step : Nat}
    (small : ofs + (if upper then step else 0) < 2 ^ 32) :
    (if upper then toUInt32 (ofs + step : Nat) else ofs) = ofs + if upper then step else 0 := by
  cases upper with
  | false => rfl
  | true => exact toUInt32_natCast small

namespace GhostBlockBrickedVolume

variable {self : GhostBlockBrickedVolume}

/-- The address of a corner of a sample is that of a cell of its block. -/
theorem sampleAddress_eq {position : Fin 3 → ℚ} {base : Index}
    (floor : ∀ axis, ⌊position axis⌋₊ = base axis) (corner : Fin 3 → Bool) :
    self.sampleAddress position corner = self.voxelType.bytes *
      (64 ^ 3 * blockAddress self.blockCount (fun axis => (base axis / 63 : Nat)) +
        blockOffset (cornerOf (fun axis => base axis % 63) corner)) := by
  have quotient : ∀ axis, ⌊position axis / 63⌋₊ = base axis / 63 := by
    intro axis
    rw [Nat.floor_div_ofNat, floor]
  have remainder : ∀ axis, base axis - base axis / 63 * 63 = base axis % 63 := by
    intro axis
    omega
  simp only [sampleAddress, getAddress, floor, quotient, remainder]
  generalize blockAddress self.blockCount _ = block
  generalize hlocal : (fun axis => base axis % 63) = local_
  have inner : ∀ axis, local_ axis < 63 := fun axis => by
    rw [← hlocal]
    exact Nat.mod_lt _ (by decide)
  have inBlock : InBlock local_ := fun axis => (inner axis).trans (show 63 < 64 by decide)
  have cornerInBlock : InBlock (cornerOf local_ corner) := fun axis => by
    have bound := inner axis
    have one := Bool.toNat_le (corner axis)
    change local_ axis + (corner axis).toNat < 64
    omega
  have total := offset_corner self.voxelType block local_ corner
  have scale : self.voxelType.scale ≤ 8 := by cases self.voxelType <;> decide
  have offset : self.voxelType.scale * blockOffset (cornerOf local_ corner) ≤ 8 * 64 ^ 3 :=
    Nat.mul_le_mul scale (blockOffset_lt cornerInBlock).le
  have low : block &&& 255 = block % 2 ^ 8 := by
    rw [show 255 = 2 ^ 8 - 1 from rfl, Nat.and_two_pow_sub_one_eq_mod]
  have lowBytes : block % 2 ^ 8 * (64 ^ 3 * self.voxelType.scale) ≤ 255 * (64 ^ 3 * 8) :=
    Nat.mul_le_mul (Nat.le_of_lt_succ (Nat.mod_lt _ (by decide))) (Nat.mul_le_mul_left _ scale)
  have start : (brickTranslation self.voxelType block local_).voxelOfs =
      self.voxelType.scale * blockOffset local_ := voxelByteOfs_eq _ inBlock
  have high := xor_low block
  rw [low] at high
  have own : (brickTranslation self.voxelType block local_).block = block := rfl
  simp only [own, low, high, start]
  generalize brickTranslation self.voxelType block local_ = address8 at total
  generalize hofs : self.voxelType.scale * blockOffset local_ +
    block % 2 ^ 8 * (64 ^ 3 * self.voxelType.scale) = ofs
  have zero : ofs < 2 ^ 32 := by omega
  have one : ofs + (if corner 0 then address8.voxelOfs_dx else 0) < 2 ^ 32 := by omega
  have two : ofs + (if corner 0 then address8.voxelOfs_dx else 0) +
      (if corner 1 then address8.voxelOfs_dy else 0) < 2 ^ 32 := by omega
  have three : ofs + (if corner 0 then address8.voxelOfs_dx else 0) +
      (if corner 1 then address8.voxelOfs_dy else 0) +
      (if corner 2 then address8.voxelOfs_dz else 0) < 2 ^ 32 := by omega
  rw [toUInt32_natCast zero, addStep_eq _ one, addStep_eq _ two, addStep_eq _ three, ← hofs,
    ← scale_eq_bytes]
  calc 2 ^ 8 * (block / 2 ^ 8) * 64 ^ 3 * self.voxelType.scale + (_ + _ + _ + _)
      = 2 ^ 8 * (block / 2 ^ 8) * 64 ^ 3 * self.voxelType.scale +
          (block % 2 ^ 8 * (64 ^ 3 * self.voxelType.scale) +
            self.voxelType.scale * blockOffset (cornerOf local_ corner)) := by omega
    _ = self.voxelType.scale * (64 ^ 3 * (2 ^ 8 * (block / 2 ^ 8) + block % 2 ^ 8) +
          blockOffset (cornerOf local_ corner)) := by ring
    _ = _ := by rw [Nat.div_add_mod]

/-! ## The cells of a voxel -/

/-- A voxel of a block stands for a voxel of the volume. -/
def StandsFor (block local_ voxel : Index) : Prop :=
  ∀ axis, voxel axis = 63 * block axis + local_ axis

/-- The cells written for a voxel. -/
def place (self : GhostBlockBrickedVolume) (voxel : Index) : List Int :=
  (self.getIndices voxel :: deltas.filterMap (self.getGhostIndices voxel)).map fun address =>
    (address.cell : Int)

theorem writeVoxel_eq {V : Type} (coord : Index) (value : V) (memory : Memory V) :
    self.writeVoxel coord value memory = writeCells (self.place coord) value memory := by
  rw [writeVoxel, writeCells, place, List.map_cons, List.foldl_cons, List.foldl_map,
    List.foldl_filterMap]
  congr 1
  funext memory delta
  cases self.getGhostIndices coord delta <;> rfl

theorem cell_eq (fits : Fits 63 self.dimensions) {block local_ : Index}
    (inside : Inside (blocks 63 self.dimensions) block) (inBlock : InBlock local_) :
    (⟨blockAddress self.blockCount (fun axis => block axis), voxelIndices local_⟩ : Address).cell =
      blockCell (blocks 63 self.dimensions) block local_ := by
  rw [Address.cell, blockCell, blockCount, fits.blockAddress_eq (by decide) inside,
    voxelIndices_eq inBlock]

theorem getIndices_eq (fits : Fits 63 self.dimensions) {voxel : Index}
    (inside : Inside self.dimensions.size voxel) :
    (self.getIndices voxel).cell = blockCell (blocks 63 self.dimensions)
      (fun axis => voxel axis / 63) fun axis => voxel axis % 63 := by
  have remainder : ∀ axis, voxel axis - voxel axis / 63 * 63 = voxel axis % 63 := by
    intro axis
    omega
  rw [getIndices]
  simp only [remainder]
  refine cell_eq fits (div_inside (by decide) inside) fun axis => ?_
  exact (Nat.mod_lt _ (by decide)).trans (show 63 < 64 by decide)

/-- A ghost stands for the voxel. -/
theorem ghost_sound (fits : Fits 63 self.dimensions) {voxel delta : Index} {address : Address}
    (inside : Inside self.dimensions.size voxel)
    (ghost : self.getGhostIndices voxel delta = some address) :
    ∃ block local_, Inside (blocks 63 self.dimensions) block ∧ InBlock local_ ∧
      StandsFor block local_ voxel ∧
      address.cell = blockCell (blocks 63 self.dimensions) block local_ := by
  have remainder : ∀ axis, voxel axis - voxel axis / 63 * 63 = voxel axis % 63 := by
    intro axis
    omega
  rw [getGhostIndices] at ghost
  obtain ⟨moved, same⟩ : ∃ moved : Fin 3 → Bool,
      ∀ axis, decide (voxel axis % 63 = 0 ∧ delta axis = 1) = moved axis := ⟨_, fun _ => rfl⟩
  simp only [remainder, same] at ghost
  split at ghost
  case isTrue => cases ghost
  case isFalse =>
    have moves : ∀ axis, moved axis = true → voxel axis % 63 = 0 := fun axis isMoved =>
      (of_decide_eq_true ((same axis).trans isMoved)).1
    split at ghost
    case isFalse => cases ghost
    case isTrue valid =>
      obtain rfl := Option.some.inj ghost
      let block : Index := fun axis => if moved axis then voxel axis / 63 - 1 else voxel axis / 63
      let local_ : Index := fun axis => if moved axis then 63 else voxel axis % 63
      have stands : ∀ axis, block axis ≤ voxel axis / 63 ∧ local_ axis < 64 ∧
          voxel axis = 63 * block axis + local_ axis ∧
          (if moved axis then ((voxel axis / 63 : Nat) : Int) - 1 else (voxel axis / 63 : Nat)) =
            block axis := by
        intro axis
        have nonneg := valid.2 axis
        cases isMoved : moved axis with
        | true =>
          have zero := moves axis isMoved
          simp only [isMoved, if_true, block, local_] at nonneg ⊢
          omega
        | false =>
          simp only [isMoved, Bool.false_eq_true, if_false, block, local_, and_true]
          omega
      have inBlock : InBlock local_ := fun axis => (stands axis).2.1
      have blockInside : Inside (blocks 63 self.dimensions) block := fun axis =>
        (stands axis).1.trans_lt (div_inside (by decide) inside axis)
      refine ⟨block, local_, blockInside, inBlock, fun axis => (stands axis).2.2.1, ?_⟩
      rw [← cell_eq fits blockInside inBlock]
      exact congrArg (fun blockIndex => Address.cell ⟨blockAddress self.blockCount blockIndex, _⟩)
        (funext fun axis => (stands axis).2.2.2)

/-- Every voxel of a block that is the last along some axis is a ghost. -/
theorem ghost_complete {block local_ voxel : Index} (inBlock : InBlock local_)
    (stands : StandsFor block local_ voxel) (last : ∃ axis, local_ axis = 63) :
    ∃ delta ∈ deltas, self.getGhostIndices voxel delta =
      some ⟨blockAddress self.blockCount (fun axis => block axis), voxelIndices local_⟩ := by
  let delta : Index := fun axis => if local_ axis = 63 then 1 else 0
  have small : ∀ axis, delta axis ∈ List.range 2 := by
    intro axis
    rw [List.mem_range]
    change (if local_ axis = 63 then 1 else 0) < 2
    split <;> decide
  have listed : delta ∈ deltas := by
    refine List.mem_flatMap.mpr ⟨delta 2, small 2, List.mem_flatMap.mpr ⟨delta 1, small 1,
      List.mem_map.mpr ⟨delta 0, small 0, funext fun axis => ?_⟩⟩⟩
    induction axis using Library.Literals.three_cases with
    | zero => rfl
    | one => rfl
    | two => rfl
  refine ⟨delta, listed, ?_⟩
  have own : ∀ axis, local_ axis = 63 ∧ delta axis = 1 ∧ voxel axis / 63 = block axis + 1 ∧
      voxel axis % 63 = 0 ∨ local_ axis < 63 ∧ delta axis = 0 ∧ voxel axis / 63 = block axis ∧
      voxel axis % 63 = local_ axis := by
    intro axis
    have bound : local_ axis < 64 := inBlock axis
    have position := stands axis
    by_cases end_ : local_ axis = 63
    · exact Or.inl ⟨end_, if_pos end_, by omega, by omega⟩
    · exact Or.inr ⟨by omega, if_neg end_, by omega, by omega⟩
  have remainder : ∀ axis, voxel axis - voxel axis / 63 * 63 = voxel axis % 63 := by
    intro axis
    omega
  have moved : ∀ axis, decide (voxel axis % 63 = 0 ∧ delta axis = 1) = decide (local_ axis = 63) := by
    intro axis
    refine decide_eq_decide.mpr ?_
    obtain ⟨end_, one, -, zero⟩ | ⟨inner, none_, -, -⟩ := own axis
    · exact iff_of_true ⟨zero, one⟩ end_
    · exact iff_of_false (by omega) (by omega)
  rw [getGhostIndices]
  simp only [remainder, moved, decide_eq_true_eq]
  have ghostBlock : (fun axis => if local_ axis = 63 then ((voxel axis / 63 : Nat) : Int) - 1
      else (voxel axis / 63 : Nat)) = fun axis => (block axis : Int) := by
    funext axis
    obtain ⟨end_, -, next, -⟩ | ⟨inner, -, same, -⟩ := own axis
    · rw [if_pos end_, next]
      omega
    · rw [if_neg inner.ne, same]
  have ghostIdxInBlock : (fun axis => if local_ axis = 63 then 63 else voxel axis % 63) = local_ := by
    funext axis
    obtain ⟨end_, -⟩ | ⟨inner, -, -, same⟩ := own axis
    · rw [if_pos end_, end_]
    · rw [if_neg inner.ne, same]
  have nonneg : ∀ axis, 0 ≤ if local_ axis = 63 then ((voxel axis / 63 : Nat) : Int) - 1
      else (voxel axis / 63 : Nat) := by
    intro axis
    exact (congrFun ghostBlock axis).symm ▸ Int.natCast_nonneg _
  rw [if_neg, if_pos ⟨last, nonneg⟩, ghostBlock, ghostIdxInBlock]
  · obtain ⟨axis, end_⟩ := last
    rintro ⟨zero, one, two⟩
    have step : delta axis = 1 := if_pos end_
    induction axis using Library.Literals.three_cases with
    | zero => omega
    | one => omega
    | two => omega

/-- The cells of a voxel are those that stand for it. -/
theorem mem_place (fits : Fits 63 self.dimensions) {voxel : Index}
    (inside : Inside self.dimensions.size voxel) (address : Int) :
    address ∈ self.place voxel ↔ ∃ block local_, Inside (blocks 63 self.dimensions) block ∧
      InBlock local_ ∧ StandsFor block local_ voxel ∧
      address = blockCell (blocks 63 self.dimensions) block local_ := by
  rw [place, List.mem_map]
  constructor
  · rintro ⟨cell, member, rfl⟩
    obtain rfl | member := List.mem_cons.mp member
    · refine ⟨_, _, div_inside (show 0 < 63 by decide) inside, fun axis => ?_, fun axis => ?_,
        congrArg _ (getIndices_eq fits inside)⟩
      · exact (Nat.mod_lt _ (by decide)).trans (show 63 < 64 by decide)
      · exact (Nat.div_add_mod _ _).symm
    · obtain ⟨delta, -, ghost⟩ := List.mem_filterMap.mp member
      obtain ⟨block, local_, blockInside, inBlock, stands, same⟩ := ghost_sound fits inside ghost
      exact ⟨block, local_, blockInside, inBlock, stands, congrArg _ same⟩
  · rintro ⟨block, local_, blockInside, inBlock, stands, rfl⟩
    by_cases last : ∃ axis, local_ axis = 63
    · obtain ⟨delta, listed, ghost⟩ := @ghost_complete self _ _ _ inBlock stands last
      refine ⟨_, List.mem_cons_of_mem _ (List.mem_filterMap.mpr ⟨delta, listed, ghost⟩), ?_⟩
      exact congrArg _ (cell_eq fits blockInside inBlock)
    · refine ⟨_, List.mem_cons_self, congrArg _ ((getIndices_eq fits inside).trans ?_)⟩
      have inner : ∀ axis, voxel axis / 63 = block axis ∧ voxel axis % 63 = local_ axis := by
        intro axis
        have bound : local_ axis < 64 := inBlock axis
        have position := stands axis
        have notLast : local_ axis ≠ 63 := fun end_ => last ⟨axis, end_⟩
        omega
      rw [funext fun axis => (inner axis).1, funext fun axis => (inner axis).2]

theorem place_apart (fits : Fits 63 self.dimensions) {voxel other : Index} {address : Int}
    (inside : Inside self.dimensions.size voxel) (otherInside : Inside self.dimensions.size other)
    (own : address ∈ self.place voxel) (shared : address ∈ self.place other) : voxel = other := by
  obtain ⟨block, local_, blockInside, inBlock, stands, rfl⟩ := (mem_place fits inside _).mp own
  obtain ⟨block', local', blockInside', inBlock', stands', same⟩ :=
    (mem_place fits otherInside _).mp shared
  obtain ⟨rfl, rfl⟩ := blockCell_injective blockInside blockInside' inBlock inBlock'
    (Int.ofNat.inj same)
  funext axis
  rw [stands axis, stands' axis]

theorem place_lt (fits : Fits 63 self.dimensions) {voxel : Index} {address : Int}
    (inside : Inside self.dimensions.size voxel) (own : address ∈ self.place voxel) :
    0 ≤ address ∧ address < self.cells := by
  obtain ⟨block, local_, blockInside, inBlock, -, rfl⟩ := (mem_place fits inside _).mp own
  have bound := blockCell_lt blockInside inBlock
  rw [cells, allocated, blockCount, fits.blockBytes_eq (by decide),
    Nat.mul_div_cancel _ (bytes_pos _)]
  omega

theorem nTasks_eq {V : Type} {region : Region V}
    (rows : region.regionSize 1 * region.regionSize 2 < 2 ^ 31) :
    nTasks region = region.regionSize 1 * region.regionSize 2 := by
  rw [nTasks, ← Int.natCast_mul, toInt32_eq (by omega) (by omega), Int.toNat_natCast]

theorem setRegion_performs (fits : Fits 63 self.dimensions) {V : Type} (call : RowsCall V nTasks)
    (rows : call.region.regionSize 1 * call.region.regionSize 2 < 2 ^ 31) :
    Performs self.place (Inside self.dimensions.size) call.region.value (self.setRegion call) := by
  have writes : ∀ voxel (value : V) memory, Inside self.dimensions.size voxel →
      self.writeVoxel voxel value memory = writeCells (self.place voxel) value memory :=
    fun voxel value memory _ => writeVoxel_eq voxel value memory
  exact tasks_perform writes rows (nTasks_eq rows ▸ call.all)
    fun _ _ _ inside otherInside => place_apart fits inside otherInside

theorem stores (fits : Fits 63 self.dimensions) {V F : Type} (toFloat : V → F) :
    (self.store toFloat).Stores toFloat self.dimensions.size fun region =>
      region.regionSize 1 * region.regionSize 2 < 2 ^ 31 := by
  refine VoxelStore.stores_of_performs _ self.place (setRegion_performs fits) ?_ ?_
  · intro voxel inside
    exact ⟨_, List.mem_map_of_mem List.mem_cons_self, fun memory => rfl⟩
  · intro call memory rows address outside
    have writes : ∀ voxel (value : V) memory, Inside self.dimensions.size voxel →
        self.writeVoxel voxel value memory = writeCells (self.place voxel) value memory :=
      fun voxel value memory _ => writeVoxel_eq voxel value memory
    refine tasks_other writes rows (nTasks_eq rows ▸ call.all) memory ?_
    intro voxel inside member
    exact outside (place_lt fits inside member)

/-! ## Samples -/

/-- **Replication is complete.** Where the blocks can be counted and the rows of each call too, a
sample reads at each of its eight corners, inside the allocated memory, the value last written to
that voxel of the volume. -/
theorem sample_complete (fits : Fits 63 self.dimensions) {V : Type} (calls : List (RowsCall V nTasks))
    (rows : ∀ call ∈ calls, call.region.regionSize 1 * call.region.regionSize 2 < 2 ^ 31)
    (memory : Memory V) {base : Index} (inside : ∀ axis, base axis + 2 ≤ self.dimensions.size axis)
    {position : Fin 3 → ℚ} (floor : ∀ axis, ⌊position axis⌋₊ = base axis) (corner : Fin 3 → Bool) :
    let address := self.sampleAddress position corner
    address + self.voxelType.bytes ≤ self.allocated ∧
      self.accessArray (calls.foldl (fun memory call => self.setRegion call memory) memory) address =
        some ((lastWritten (calls.map fun call => call.region.value) (cornerOf base corner)).getD
          (memory (address / self.voxelType.bytes : Nat))) := by
  have upper : ∀ axis, (corner axis).toNat ≤ 1 := fun axis => Bool.toNat_le _
  have baseInside : Inside self.dimensions.size base := fun axis => by
    have bound := inside axis
    omega
  have voxelInside : Inside self.dimensions.size (cornerOf base corner) := fun axis => by
    have bound := inside axis
    have one := upper axis
    change base axis + (corner axis).toNat < _
    omega
  let block : Index := fun axis => base axis / 63
  let local_ : Index := cornerOf (fun axis => base axis % 63) corner
  have blockInside : Inside (blocks 63 self.dimensions) block := div_inside (by decide) baseInside
  have inBlock : InBlock local_ := fun axis => by
    have one := upper axis
    change base axis % 63 + (corner axis).toNat < 64
    omega
  have stands : StandsFor block local_ (cornerOf base corner) := fun axis => by
    change base axis + (corner axis).toNat = 63 * (base axis / 63) + (base axis % 63 + (corner axis).toNat)
    omega
  have own := (mem_place fits voxelInside _).mpr ⟨block, local_, blockInside, inBlock, stands, rfl⟩
  have performed := performs_run (fun call : RowsCall V nTasks => call.region.value) self.setRegion
    (fun call member => setRegion_performs fits call (rows call member)) memory _ voxelInside _ own
  have address : self.sampleAddress position corner =
      self.voxelType.bytes * blockCell (blocks 63 self.dimensions) block local_ := by
    rw [sampleAddress_eq floor, blockCell, blockCount, fits.blockAddress_eq (by decide) blockInside]
  have positive := bytes_pos self.voxelType
  simp only [address]
  constructor
  · have bound := blockCell_lt blockInside inBlock
    calc self.voxelType.bytes * blockCell (blocks 63 self.dimensions) block local_ + self.voxelType.bytes
        = self.voxelType.bytes * (blockCell (blocks 63 self.dimensions) block local_ + 1) := by ring
      _ ≤ self.voxelType.bytes * (64 ^ 3 * volume (blocks 63 self.dimensions)) :=
        Nat.mul_le_mul_left _ bound
      _ = self.allocated := by
        rw [allocated, blockCount, fits.blockBytes_eq (by decide), Nat.mul_comm]
  · rw [accessArray, if_pos (Nat.dvd_mul_right _ _), Nat.mul_div_cancel_left _ positive]
    exact congrArg some performed

/-- A volume of two blocks. -/
def twoBlocks : GhostBlockBrickedVolume where
  dimensions :=
    { size := ![64, 2, 2], positive := by decide, range := by decide }
  voxelType := .float

/-- A call that writes the first voxel of the second block. -/
def borderCall : RowsCall Nat nTasks where
  region :=
    { source := fun _ => 7, regionCoords := ![63, 0, 0], regionSize := ![1, 1, 1]
      coordsRange := by decide, sizeRange := by decide }
  order := [0]
  all := by decide

theorem sample_complete_twoBlocks :
    let address := twoBlocks.sampleAddress (fun axis => ((![62, 0, 0] : Index) axis : ℚ))
      ![true, false, false]
    address + twoBlocks.voxelType.bytes ≤ twoBlocks.allocated ∧
      twoBlocks.accessArray (twoBlocks.setRegion borderCall fun _ => 0) address = some 7 := by
  have fits : Fits 63 twoBlocks.dimensions := ⟨by decide, by decide⟩
  have floor : ∀ axis, ⌊((![62, 0, 0] : Index) axis : ℚ)⌋₊ = (![62, 0, 0] : Index) axis :=
    fun axis => Nat.floor_natCast _
  have written : lastWritten ([borderCall].map fun call => call.region.value)
      (cornerOf ![62, 0, 0] ![true, false, false]) = some 7 := by
    decide
  obtain ⟨inside, read⟩ := sample_complete fits [borderCall] (by decide) (fun _ => 0) (by decide)
    floor ![true, false, false]
  rw [written, List.foldl_cons, List.foldl_nil, Option.getD_some] at read
  exact ⟨inside, read⟩

/-- A volume with one block more than can be counted in 32 bits. -/
def manyBlocks : GhostBlockBrickedVolume where
  dimensions :=
    { size := ![40383, 422126271, 2], positive := by decide, range := by decide }
  voxelType := .uint8

/-- The blocks of such a volume are counted as one: a sample in the second block is read outside the
allocated memory. -/
theorem block_beyond_allocation :
    (∀ axis, 2 ≤ manyBlocks.dimensions.size axis) ∧
      (∀ axis, (![63, 0, 0] : Index) axis + 2 ≤ manyBlocks.dimensions.size axis) ∧
      ¬ manyBlocks.sampleAddress (fun axis => ((![63, 0, 0] : Index) axis : ℚ)) (fun _ => false) +
        manyBlocks.voxelType.bytes ≤ manyBlocks.allocated := by
  refine ⟨by decide, by decide, ?_⟩
  have floor : ∀ axis, ⌊((![63, 0, 0] : Index) axis : ℚ)⌋₊ = (![63, 0, 0] : Index) axis :=
    fun axis => Nat.floor_natCast _
  have address := @sampleAddress_eq manyBlocks _ _ floor fun _ => false
  have beyond : manyBlocks.allocated <
      manyBlocks.voxelType.bytes *
        (64 ^ 3 * blockAddress manyBlocks.blockCount (fun axis => ((![63, 0, 0] : Index) axis / 63 : Nat)) +
          blockOffset (cornerOf (fun axis => (![63, 0, 0] : Index) axis % 63) fun _ => false)) +
        manyBlocks.voxelType.bytes := by
    decide +kernel
  rw [address]
  exact not_le.mpr beyond

end GhostBlockBrickedVolume

end Ospray.Structured
