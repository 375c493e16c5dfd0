import Ospray.Library.BinaryFormats
import Ospray.Library.Bytes
import Ospray.Volume.DualLookup
import Ospray.Volume.StructuredVolume

/-!
# The values behind bricks

The array of a brick has elements of one of five types. `findLeafCell` reads them by a
function for their type. The other lookups read them through the brick's pointer, which is
one to single-precision values.
-/

namespace Ospray.Amr

open Library.BinaryFormats Library.BoxTrees Library.SinglePrecision Ospray.Structured

/-- The bytes that a brick's pointer points to. -/
abbrev BrickMemory := Int → UInt8

/-- The bits of an element. -/
def elementBits (memory : BrickMemory) (size : Nat) (index : Int) : Nat :=
  Library.Bytes.ofLittleEndian ((List.range size).map fun (byte : Nat) => memory (index * size + byte))

/-- `AMR_getVoxel_uint8_32` and its siblings -/
def getVoxel_32 (voxelType : VoxelType) (memory : BrickMemory) (index : Int) : Single :=
  let bits := elementBits memory voxelType.bytes index
  match voxelType with
  | .uint8 => .ofExact bits
  | .int16 => .ofExact ((bits : Int).bmod (2 ^ 16))
  | .uint16 => .ofExact bits
  | .float => (Format.single.decode bits).toSingle
  | .double => (Format.double.decode bits).toSingle

variable {data : List Brick} {V ι : Type}

/-- `AMRVolume_setAMR`, as far as it says how the values are read: there is a function for the type, and a pointer to
single-precision values. -/
def AMR.setVoxels (amr : AMR data V) (voxelType : VoxelType) (memory : BrickPointer data → BrickMemory) :
    AMR data Single where
  accel := amr.accel
  worldBounds := amr.worldBounds
  maxValidPos := amr.maxValidPos
  getVoxel := fun brick index => getVoxel_32 voxelType (memory brick) index
  value := fun brick index => getVoxel_32 .float (memory brick) index

/-! ## Elements of different types -/

/-- Bytes that are all one. -/
def ones : BrickMemory := fun _ => 1

/-- The bits of elements there. -/
theorem elementBits_ones (index : Int) : elementBits ones 1 index = 1 ∧ elementBits ones 2 index = 257 ∧
    elementBits ones 4 index = 16843009 ∧ elementBits ones 8 index = 72340172838076673 := by
  refine ⟨?_, ?_, ?_, ?_⟩
  · change Library.Bytes.ofLittleEndian [1] = _
    decide
  · change Library.Bytes.ofLittleEndian [1, 1] = _
    decide
  · change Library.Bytes.ofLittleEndian [1, 1, 1, 1] = _
    decide
  · change Library.Bytes.ofLittleEndian [1, 1, 1, 1, 1, 1, 1, 1] = _
    decide

/-- As a single-precision value they are small but not zero, -/
theorem getVoxel_ones_float (index : Int) : ∃ single, getVoxel_32 .float ones index =
    .finite ((2 ^ 23 + 65793) * 2 ^ (-148 : ℤ)) single := by
  have decoded : Format.single.decode (elementBits ones 4 index) = .finite ((2 ^ 23 + 65793) * 2 ^ (-148 : ℤ)) := by
    have bits := (elementBits_ones index).2.2.1
    have place : Format.single.place 16843009 = -148 := by decide
    have significand : Format.single.significand 16843009 = 2 ^ 23 + 65793 := by decide
    rw [bits, Format.decode, place, significand]
    norm_num [Format.single, Format.exponent]
  have fits := hasBits_single decoded
  change ∃ single, (Format.single.decode (elementBits ones 4 index)).toSingle = _
  rw [decoded, Datum.toSingle]
  obtain ⟨small, same⟩ | ⟨large, -⟩ := Single.ofExact_of_bits fits
  · exact ⟨_, same⟩
  · norm_num at large

/-- and as an element of another type they are an integer or zero. -/
theorem getVoxel_ones_ne {voxelType : VoxelType} (other : voxelType ≠ .float) (index : Int) :
    getVoxel_32 voxelType ones index ≠ getVoxel_32 .float ones index := by
  obtain ⟨single, float⟩ := getVoxel_ones_float index
  rw [float]
  have positive : (0 : ℚ) < (2 ^ 23 + 65793) * 2 ^ (-148 : ℤ) := by positivity
  have apart : ∀ (x : ℚ), toNearest x ≠ (2 ^ 23 + 65793) * 2 ^ (-148 : ℤ) →
      Single.ofExact x ≠ .finite ((2 ^ 23 + 65793) * 2 ^ (-148 : ℤ)) single := by
    intro x differs
    rw [Single.ofExact]
    split
    · intro same
      exact differs (Single.finite.inj same)
    · exact Single.noConfusion
  have integer : ∀ n : Nat, 0 < n → n ≤ 2 ^ 24 → toNearest (n : ℚ) ≠ (2 ^ 23 + 65793) * 2 ^ (-148 : ℤ) := by
    intro n one small same
    rw [nearest_eq_self (isSingle_natCast small).1] at same
    have least : (1 : ℚ) ≤ n := by exact_mod_cast one
    rw [same] at least
    norm_num at least
  cases voxelType with
  | float => exact absurd rfl other
  | uint8 =>
    change Single.ofExact (elementBits ones 1 index : Nat) ≠ _
    rw [(elementBits_ones index).1]
    exact apart _ (integer 1 (by decide) (by decide))
  | int16 =>
    change Single.ofExact (((elementBits ones 2 index : Nat) : Int).bmod (2 ^ 16) : Int) ≠ _
    rw [(elementBits_ones index).2.1]
    exact apart _ (integer 257 (by decide) (by decide))
  | uint16 =>
    change Single.ofExact (elementBits ones 2 index : Nat) ≠ _
    rw [(elementBits_ones index).2.1]
    exact apart _ (integer 257 (by decide) (by decide))
  | double =>
    have decoded : Format.double.decode (elementBits ones 8 index) =
        .finite ((2 ^ 52 + 282578800148737) * 2 ^ (-1059 : ℤ)) := by
      have bits := (elementBits_ones index).2.2.2
      have place : Format.double.place 72340172838076673 = -1059 := by decide
      have significand : Format.double.significand 72340172838076673 = 2 ^ 52 + 282578800148737 := by decide
      rw [bits, Format.decode, place, significand]
      norm_num [Format.double, Format.exponent]
    change (Format.double.decode (elementBits ones 8 index)).toSingle ≠ _
    rw [decoded]
    apply apart
    have digits : (2 ^ 52 + 282578800148737 : ℚ) ≤ 2 ^ (53 : ℤ) := by norm_num
    have place : (0 : ℚ) < 2 ^ (-1059 : ℤ) := zpow_pos (by norm_num) _
    have tiny : ((2 ^ 52 + 282578800148737) * 2 ^ (-1059 : ℤ) : ℚ) ≤ 2 ^ (-148 : ℤ) :=
      calc ((2 ^ 52 + 282578800148737) * 2 ^ (-1059 : ℤ) : ℚ) ≤ 2 ^ (53 : ℤ) * 2 ^ (-1059 : ℤ) :=
            mul_le_mul_of_nonneg_right digits place.le
        _ = 2 ^ (53 + -1059 : ℤ) := (zpow_add₀ (by norm_num) _ _).symm
        _ ≤ 2 ^ (-148 : ℤ) := zpow_le_zpow_right₀ (by norm_num) (by decide)
    have rounded := nearest_mono (mul_nonneg (by norm_num) place.le) tiny
    rw [nearest_of_pow (by decide)] at rounded
    apply ne_of_lt
    apply rounded.trans_lt
    norm_num

/-! ## The elements that lookups read -/

/-- The element of a brick's array for the cell of a point. -/
def elementAt (voxelType : VoxelType) (memory : BrickPointer data → BrickMemory) (b : BrickPointer data)
    (point : Vec3) : Single :=
  getVoxel_32 voxelType (memory b) ((data.get b).index ((data.get b).cellAt point))

/-- All lookups of values return the elements of their cells, by the type of the array. -/
structure AMR.ReadElements [DecidableEq ι] (amr : AMR data V) (voxelType : VoxelType)
    (memory : BrickPointer data → BrickMemory) (fuel steps : Nat) (pos : Vec3) (minWidth : ℚ) {lanes : Finset ι}
    (cellID : ι → DualCellID) (widths : UniqueWidths lanes cellID) (mirror : ι → Corner) : Prop where
  cell : ∀ b, amr.brickFor steps pos minWidth = some b →
    ((amr.setVoxels voxelType memory).findCell steps pos minWidth).map CellRef.value =
      some (elementAt voxelType memory b (amr.clampToBounds pos))
  leafCell : ∀ b, amr.leafBrickFor steps pos = some b →
    ((amr.setVoxels voxelType memory).findLeafCell steps pos).map CellRef.value =
      some (elementAt voxelType memory b (amr.clampToBounds pos))
  dual : ∀ dual, (amr.setVoxels voxelType memory).findDualCell fuel cellID widths = some dual →
    ∀ lane c found b, dual lane c = some found →
      amr.brickAt steps (cornerPoint (amr.dualCorner cellID) lane c) (cellID lane).width = some b →
        found.value = elementAt voxelType memory b (cornerPoint (amr.dualCorner cellID) lane c)
  mirrored : ∀ dual, (amr.setVoxels voxelType memory).findMirroredDualCell fuel cellID mirror widths = some dual →
    ∀ lane c found b, dual lane c = some found →
      amr.brickAt steps (cornerPoint (amr.mirroredCorner cellID mirror) lane c) (cellID lane).width = some b →
        found.value = elementAt voxelType memory b (cornerPoint (amr.mirroredCorner cellID mirror) lane c)

/-- There are corners in the bounding box, and all of them have a brick. -/
def AMR.ReadsCorners (amr : AMR data V) (steps : Nat) (lanes : Finset ι) (cellID : ι → DualCellID)
    (corner : ι → Fin 3 → Bool → ℚ) : Prop :=
  (∃ lane ∈ lanes, ∃ c, amr.worldBounds.Contains (cornerPoint corner lane c)) ∧
    ∀ lane ∈ lanes, ∀ c, amr.worldBounds.Contains (cornerPoint corner lane c) →
      ∃ b, amr.brickAt steps (cornerPoint corner lane c) (cellID lane).width = some b

/-- Some element is read through a pointer, by `findCell` or for a corner. -/
def AMR.ReadsPointer (amr : AMR data V) (steps : Nat) (pos : Vec3) (minWidth : ℚ) (lanes : Finset ι)
    (cellID : ι → DualCellID) : Prop :=
  (∃ b, amr.brickFor steps pos minWidth = some b) ∨ amr.ReadsCorners steps lanes cellID (amr.dualCorner cellID)

section Elements

variable {amr : AMR data V} {sorting : LevelSort data} {lanes : Finset ι} {cellID : ι → DualCellID}
  {corner : ι → Fin 3 → Bool → ℚ} {voxelType : VoxelType} {memory : BrickPointer data → BrickMemory}
  {steps : Nat} {pos : Vec3} {minWidth : ℚ}

theorem unserved_iff : (amr.setVoxels voxelType memory).Unserved steps lanes cellID corner ↔
    ∃ lane ∈ lanes, ∃ c, amr.worldBounds.Contains (cornerPoint corner lane c) ∧
      amr.brickAt steps (cornerPoint corner lane c) (cellID lane).width = none := by
  simp only [AMR.Unserved, lookupCorner_none_iff]
  exact Iff.rfl

theorem float_of_cell {b : BrickPointer data} (taken : amr.brickFor steps pos minWidth = some b)
    (read : ((amr.setVoxels voxelType fun _ => ones).findCell steps pos minWidth).map CellRef.value =
      some (elementAt voxelType (fun _ => ones) b (amr.clampToBounds pos))) : voxelType = .float := by
  by_contra other
  have found : (amr.setVoxels voxelType fun _ => ones).brickFor steps pos minWidth = some b := taken
  rw [AMR.findCell, found, Option.map_some, Option.map_some] at read
  exact getVoxel_ones_ne other _ (Option.some.inj read).symm

theorem readsCorners_of_mirrored {mirror : ι → Corner}
    (reads : amr.ReadsCorners steps lanes cellID (amr.mirroredCorner cellID mirror)) :
    amr.ReadsCorners steps lanes cellID (amr.dualCorner cellID) := by
  obtain ⟨⟨lane, member, c, inside⟩, served⟩ := reads
  rw [mirrored_point] at inside
  refine ⟨⟨lane, member, _, inside⟩, fun lane member c inside => ?_⟩
  have opposite := served lane member fun axis => c axis ^^ mirror lane axis
  rw [mirrored_point] at opposite
  simp only [Bool.xor_assoc, Bool.xor_self, Bool.xor_false] at opposite
  exact opposite inside

variable [DecidableEq ι]

/-- What the lookup of dual cells writes, by the brick of each corner. -/
theorem findCorners_elements (built : amr.Built sorting) (widths : UniqueWidths lanes cellID)
    (corner : ι → Fin 3 → Bool → ℚ) {fuel : Nat} (ends : amr.accel.node.length ≤ fuel)
    (enough : amr.accel.node.length ≤ steps) :
      ((amr.setVoxels voxelType memory).findCorners fuel cellID corner widths = none ↔
        ∃ lane ∈ lanes, ∃ c, amr.worldBounds.Contains (cornerPoint corner lane c) ∧
          amr.brickAt steps (cornerPoint corner lane c) (cellID lane).width = none) ∧
      ∀ dual, (amr.setVoxels voxelType memory).findCorners fuel cellID corner widths = some dual → ∀ lane c,
        (lane ∈ lanes ∧ amr.worldBounds.Contains (cornerPoint corner lane c) → (dual lane c).map CornerValue.value =
          (amr.brickAt steps (cornerPoint corner lane c) (cellID lane).width).map fun b =>
            elementAt .float memory b (cornerPoint corner lane c)) ∧
        (¬(lane ∈ lanes ∧ amr.worldBounds.Contains (cornerPoint corner lane c)) → dual lane c = none) := by
  have built' : (amr.setVoxels voxelType memory).Built sorting :=
    ⟨built.some_, built.valid, built.root, built.accel, built.room⟩
  obtain ⟨tree, overTree⟩ := built'.over
  obtain ⟨fails, stores⟩ := findCorners_spec overTree widths corner ends enough
  refine ⟨fails.trans unserved_iff, fun dual found lane c => ?_⟩
  obtain ⟨written, unwritten⟩ := stores dual found lane c
  refine ⟨fun inside => ?_, unwritten⟩
  rw [written inside, lookupCorner_map]
  rfl

/-- Where the elements are single-precision values, or nothing is read, the corners hold the elements of their
cells. -/
theorem corners_hold_elements (built : amr.Built sorting) (widths : UniqueWidths lanes cellID)
    (corner : ι → Fin 3 → Bool → ℚ) {fuel : Nat} (ends : amr.accel.node.length ≤ fuel)
    (enough : amr.accel.node.length ≤ steps)
    (allowed : voxelType = .float ∨ ¬amr.ReadsCorners steps lanes cellID corner) :
      ∀ dual, (amr.setVoxels voxelType memory).findCorners fuel cellID corner widths = some dual →
        ∀ lane c found b, dual lane c = some found →
          amr.brickAt steps (cornerPoint corner lane c) (cellID lane).width = some b →
            found.value = elementAt voxelType memory b (cornerPoint corner lane c) := by
  intro dual ended lane c found b written taken
  obtain ⟨fails, stores⟩ := @findCorners_elements _ _ _ amr sorting lanes cellID voxelType memory steps _
    built widths corner fuel ends enough
  obtain ⟨content, unwritten⟩ := stores dual ended lane c
  have inside : lane ∈ lanes ∧ amr.worldBounds.Contains (cornerPoint corner lane c) := by
    by_contra outside
    exact absurd ((unwritten outside).symm.trans written) (Option.some_ne_none _).symm
  obtain rfl | nothing := allowed
  · rw [written, taken] at content
    exact Option.some.inj (content inside)
  · -- Else a corner without a brick would have stopped the lookup.
    refine absurd ⟨⟨lane, inside.1, c, inside.2⟩, fun lane member c within => ?_⟩ nothing
    apply Option.ne_none_iff_exists'.mp
    intro missing
    exact absurd ((fails.mpr ⟨lane, member, c, within, missing⟩).symm.trans ended) (Option.some_ne_none _).symm

/-- **All lookups read the same elements** exactly where the elements are single-precision values, or none is read
through a pointer. -/
theorem AMR.lookups_read_elements (built : amr.Built sorting) (widths : UniqueWidths lanes cellID)
    (mirror : ι → Corner) {fuel : Nat} (ends : amr.accel.node.length ≤ fuel)
    (enough : amr.accel.node.length ≤ steps) :
    (∀ memory, amr.ReadElements voxelType memory fuel steps pos minWidth cellID widths mirror) ↔
    voxelType = .float ∨ ¬amr.ReadsPointer steps pos minWidth lanes cellID := by
  constructor
  · intro read
    by_contra reads
    obtain ⟨other, reads⟩ := not_or.mp reads
    have read := read fun _ => ones
    obtain ⟨b, taken⟩ | ⟨⟨lane, member, c, inside⟩, served⟩ := not_not.mp reads
    · exact other (float_of_cell taken (read.cell b taken))
    · obtain ⟨fails, stores⟩ := @findCorners_elements _ _ _ amr sorting lanes cellID voxelType (fun _ => ones)
        steps _ built widths (amr.dualCorner cellID) fuel ends enough
      have present := fails.not.mpr fun ⟨lane, member, c, within, missing⟩ => by
        obtain ⟨b, taken⟩ := served lane member c within
        exact absurd (missing.symm.trans taken) (Option.some_ne_none _).symm
      obtain ⟨dual, ended⟩ := Option.ne_none_iff_exists'.mp present
      obtain ⟨b, taken⟩ := served lane member c inside
      have content := (stores dual ended lane c).1 ⟨member, inside⟩
      rw [taken, Option.map_some, Option.map_eq_some_iff] at content
      obtain ⟨found, written, value⟩ := content
      have typed := read.dual dual ended lane c found b written taken
      exact getVoxel_ones_ne other _ (typed.symm.trans value)
  · intro allowed memory
    have corners : voxelType = .float ∨ ¬amr.ReadsCorners steps lanes cellID (amr.dualCorner cellID) :=
      allowed.imp_right fun nothing reads => nothing (.inr reads)
    refine ⟨fun b taken => ?_, fun b taken => ?_, ?_, ?_⟩
    · obtain rfl | nothing := allowed
      · have found : (amr.setVoxels .float memory).brickFor steps pos minWidth = some b := taken
        rw [AMR.findCell, found]
        rfl
      · exact absurd (.inl ⟨b, taken⟩) nothing
    · have found : (amr.setVoxels voxelType memory).leafBrickFor steps pos = some b := taken
      rw [AMR.findLeafCell, found]
      rfl
    · exact corners_hold_elements built widths (amr.dualCorner cellID) ends enough corners
    · exact corners_hold_elements built widths (amr.mirroredCorner cellID mirror) ends enough
        (corners.imp_right fun nothing reads => nothing (readsCorners_of_mirrored reads))

end Elements

/-- For every other type there are bytes of which two lookups make different values. -/
theorem lookups_read_other_elements : ∃ amr : AMR nested ℚ, amr.Built (LevelSort.stable nested) ∧
    ∀ voxelType, voxelType ≠ .float → ∃ memory, ∀ fuel,
      ¬amr.ReadElements voxelType memory fuel amr.accel.node.length (fun _ => 1 / 2) 1 farCell (oneWidth farCell)
        fun _ _ => false := by
  obtain ⟨amr, built, bounds, -⟩ := exists_built_nested (fun bounds => bounds.upper) (fun _ _ => (0 : ℚ)) fun _ _ => 0
  refine ⟨amr, built, fun voxelType other => ⟨fun _ => ones, fun fuel read => ?_⟩⟩
  have moved : amr.clampToBounds (fun _ => 1 / 2) = fun _ => 1 / 2 := by
    funext axis
    rw [AMR.clampToBounds, bounds]
    norm_num
  have inside : amr.LookupsInside (fun _ => 1 / 2) 1 := by
    rw [AMR.lookupsInside_iff built, moved]
    decide +kernel
  obtain ⟨⟨b, taken, -⟩, -⟩ := inside _ le_rfl
  exact other (float_of_cell taken (read.cell b taken))

/-- All lookups in the small example, with single-precision values. -/
theorem lookups_read_elements_nested : ∃ amr : AMR nested ℚ, amr.Built (LevelSort.stable nested) ∧
    ∀ memory,
      amr.ReadElements .float memory amr.accel.node.length amr.accel.node.length (fun _ => 1 / 2) 1 farCell (oneWidth farCell)
        fun _ _ => false := by
  obtain ⟨amr, built, -⟩ := exists_built_nested (fun bounds => bounds.upper) (fun _ _ => (0 : ℚ)) fun _ _ => 0
  exact ⟨amr, built,
    (amr.lookups_read_elements built (oneWidth farCell) (fun _ _ => false) le_rfl le_rfl).mpr (.inl rfl)⟩

end Ospray.Amr
