import Ospray.Library.Envelopes
import Ospray.Volume.GridAccelerator
import Ospray.Volume.IntDiv

/-!
# The value ranges of grid cells

The range that is stored for a cell is taken over the voxels of the cell, and NaNs are
left out. A sample in the cell is interpolated between eight voxels: along each axis the
one at or before it and the next one, which for a sample at the upper end of a cell
belongs to the cell behind.
-/

namespace Ospray.Structured

open Library.RowMajor Library.Envelopes

/-- A `float` that is not NaN. -/
abbrev Value := WithBot (WithTop ℚ)

/-- A finite `float`. -/
def finite (value : ℚ) : Value := ((value : WithTop ℚ) : Value)

/-- `StructuredVolume`; a voxel that is `none` is NaN. -/
structure StructuredVolume where
  dimensions : Dimensions
  gridOrigin : Fin 3 → ℚ
  gridSpacing : Fin 3 → ℚ
  localCoordinatesUpperBound : Fin 3 → ℚ
  /-- `nextafter(dimensions - 1, 0)` is 0 for a single voxel, else less than `dimensions - 1`. -/
  upperBound : ∀ axis, 0 ≤ localCoordinatesUpperBound axis ∧
    (localCoordinatesUpperBound axis < dimensions.size axis - 1 ∨
      dimensions.size axis = 1 ∧ localCoordinatesUpperBound axis = 0)
  getVoxel : Vec3i → Option Value

/-- The `cellRange` of a cell: a minimum and a maximum, or two NaNs. -/
abbrev CellRange := Option (Value × Value)

namespace GridAccelerator

/-! ## The range of a cell -/

/-- The indices of `foreach (k = 0 ... CELL_WIDTH, j = 0 ... CELL_WIDTH, i = 0 ... CELL_WIDTH)` -/
def cellVoxels : List Index :=
  (List.range 16).flatMap fun k => (List.range 16).flatMap fun j => (List.range 16).map fun i => ![i, j, k]

/-- The gangs that a `foreach` loop is run in: each index is in one gang. -/
structure Gangs where
  gangs : List (List Index)
  covers : gangs.flatten.Perm cellVoxels

/-- The local variables of `GridAccelerator_encodeBrickCell`. -/
@[ext] structure Scan where
  lower : Value
  upper : Value
  cellEmpty : Bool

/-- One gang: the reductions are over the lanes whose value is not NaN, and nothing is executed
where there is none. -/
def Scan.gang (scan : Scan) (values : List Value) : Scan :=
  match values with
  | [] => scan
  | value :: rest =>
    { lower := min scan.lower (least value rest)
      upper := max scan.upper (greatest value rest)
      cellEmpty := false }

/-- The voxel that an index of the loop stands for. -/
def voxelIndex (dimensions : Dimensions) (cellIndex : Vec3i) (index : Index) : Vec3i :=
  fun axis => min (dimensions.size axis - 1) (toInt32 (cellIndex axis * 16 + index axis))

/-- The scan before the loop, with the range of `GridAccelerator_encodeVolumeBrick`. -/
def Scan.initial : Scan := { lower := finite 99999, upper := finite (-99999), cellEmpty := true }

/-- What a scan stores. -/
def Scan.range (scan : Scan) : CellRange := if scan.cellEmpty then none else some (scan.lower, scan.upper)

/-- `GridAccelerator_encodeBrickCell` -/
def encodeBrickCell (volume : StructuredVolume) (gangs : Gangs) (cellIndex : Vec3i) : CellRange :=
  let value (index : Index) := volume.getVoxel (voxelIndex volume.dimensions cellIndex index)
  (gangs.gangs.foldl (fun scan gang => scan.gang (gang.filterMap value)) Scan.initial).range

theorem Scan.gang_eq (scan : Scan) (values : List Value) : scan.gang values =
    { lower := least scan.lower values, upper := greatest scan.upper values,
      cellEmpty := scan.cellEmpty && values.isEmpty } := by
  cases values with
  | nil => simp [Scan.gang]
  | cons value rest => simp [Scan.gang, min_least, max_greatest]

theorem scan_gangs {ι : Type} (value : ι → Option Value) (gangs : List (List ι)) (scan : Scan) :
    gangs.foldl (fun scan gang => scan.gang (gang.filterMap value)) scan =
      scan.gang (gangs.flatten.filterMap value) := by
  induction gangs generalizing scan with
  | nil => simp [Scan.gang_eq]
  | cons gang rest inductionHypothesis =>
    rw [List.foldl_cons, inductionHypothesis, List.flatten_cons, List.filterMap_append]
    have both : (gang.filterMap value ++ rest.flatten.filterMap value).isEmpty =
        ((gang.filterMap value).isEmpty && (rest.flatten.filterMap value).isEmpty) := by
      cases gang.filterMap value <;> rfl
    simp only [Scan.gang_eq, least_append, greatest_append, both, Bool.and_assoc]

/-- The values of the voxels of a cell, in the order of the loop. -/
def values (volume : StructuredVolume) (gangs : Gangs) (cellIndex : Vec3i) : List Value :=
  gangs.gangs.flatten.filterMap fun index => volume.getVoxel (voxelIndex volume.dimensions cellIndex index)

section Encode

variable {volume : StructuredVolume} {gangs : Gangs} {cellIndex : Vec3i}

theorem encodeBrickCell_eq : encodeBrickCell volume gangs cellIndex =
    if (values volume gangs cellIndex).isEmpty then none
    else some (least (finite 99999) (values volume gangs cellIndex),
      greatest (finite (-99999)) (values volume gangs cellIndex)) := by
  rw [encodeBrickCell, scan_gangs, Scan.gang_eq]
  rfl

/-- The values are those of the indices of the loop, however it is run. -/
theorem mem_values {value : Value} : value ∈ values volume gangs cellIndex ↔
    ∃ index : Index, (∀ axis, index axis < 16) ∧
      volume.getVoxel (voxelIndex volume.dimensions cellIndex index) = some value := by
  have visited : ∀ index, index ∈ gangs.gangs.flatten ↔ ∀ axis, index axis < 16 := by
    intro index
    rw [gangs.covers.mem_iff]
    simp only [cellVoxels, List.mem_flatMap, List.mem_map, List.mem_range]
    constructor
    · rintro ⟨k, small_k, j, small_j, i, small_i, rfl⟩ axis
      induction axis using Library.Literals.three_cases with
      | zero => exact small_i
      | one => exact small_j
      | two => exact small_k
    · intro small
      refine ⟨index 2, small 2, index 1, small 1, index 0, small 0, ?_⟩
      funext axis
      induction axis using Library.Literals.three_cases with
      | zero => rfl
      | one => rfl
      | two => rfl
  simp only [values, List.mem_filterMap, visited]

/-- A cell is stored as NaN exactly where all its values are NaN, -/
theorem encodeBrickCell_none :
    encodeBrickCell volume gangs cellIndex = none ↔ ∀ value, value ∉ values volume gangs cellIndex := by
  rw [encodeBrickCell_eq]
  split
  case isTrue empty => simpa [List.isEmpty_iff, List.eq_nil_iff_forall_not_mem] using empty
  case isFalse some_ =>
    rw [List.isEmpty_iff, List.eq_nil_iff_forall_not_mem] at some_
    simpa using some_

/-- and a value is in the stored range exactly where it is between two of its values, or outside
the initial range. -/
theorem encodeBrickCell_some {lower upper value : Value}
    (range : encodeBrickCell volume gangs cellIndex = some (lower, upper)) :
    lower ≤ value ∧ value ≤ upper ↔
      (finite 99999 ≤ value ∨ ∃ other ∈ values volume gangs cellIndex, other ≤ value) ∧
        (value ≤ finite (-99999) ∨ ∃ other ∈ values volume gangs cellIndex, value ≤ other) := by
  rw [encodeBrickCell_eq] at range
  split at range
  case isTrue => cases range
  case isFalse =>
    injection range with range
    injection range with isLower isUpper
    rw [← isLower, ← isUpper, least_le_iff, le_greatest_iff]

end Encode

/-- The cells whose ranges are stored; there is none where the padding overflows. -/
def Stored (dimensions : Dimensions) (cell : Index) : Prop :=
  ∀ axis, (cell axis : Int) < gridDimensions dimensions axis

instance (dimensions : Dimensions) (cell : Index) : Decidable (Stored dimensions cell) :=
  inferInstanceAs (Decidable (∀ _ : Fin 3, _ < _))

/-- The voxels of a cell. -/
def CellVoxel (dimensions : Dimensions) (cell : Index) (voxel : Vec3i) : Prop :=
  ∀ axis, 16 * (cell axis : Int) ≤ voxel axis ∧
    voxel axis ≤ min (16 * cell axis + 15 : Int) (dimensions.size axis - 1)

variable {dimensions : Dimensions} {cell : Index}

/-- A stored cell begins in the volume, and its last voxel has an index. -/
theorem Stored.bounds (stored : Stored dimensions cell) (axis : Fin 3) :
    16 * cell axis + 1 ≤ dimensions.size axis ∧ dimensions.size axis + 15 < 2 ^ 31 := by
  have inside := stored axis
  have range := dimensions.range axis
  rw [gridDimensions, blockCount] at inside
  have sum := @toInt32_sum (dimensions.size axis + 16 - 1) (by omega) (by omega)
  push_cast at inside
  rcases sum with exact_ | ⟨negative, -⟩
  · rw [exact_, Int.tdiv_eq_ediv_of_nonneg (by omega)] at inside
    have padded : toInt32 (dimensions.size axis + 16 - 1) < 2 ^ 31 := by
      rw [toInt32, Int.bmod_def]
      omega
    omega
  · have quotient : (toInt32 (dimensions.size axis + 16 - 1)).tdiv 16 ≤ 0 := by
      have opposite := Int.tdiv_nonneg (b := 16) (Int.neg_nonneg_of_nonpos negative.le) (by decide)
      rw [Int.neg_tdiv] at opposite
      omega
    omega

/-- The loop over a stored cell visits the voxels of the cell. -/
theorem voxelIndex_iff (stored : Stored dimensions cell) (voxel : Vec3i) :
    (∃ index : Index, (∀ axis, index axis < 16) ∧
      voxelIndex dimensions (fun axis => cell axis) index = voxel) ↔ CellVoxel dimensions cell voxel := by
  constructor
  · rintro ⟨index, small, rfl⟩ axis
    obtain ⟨begins, padded⟩ := stored.bounds axis
    have offset := small axis
    simp only [voxelIndex]
    rw [toInt32_eq (by omega) (by omega)]
    omega
  · intro own
    refine ⟨fun axis => (voxel axis - 16 * cell axis).toNat, fun axis => ?_, funext fun axis => ?_⟩
    · have bounds := own axis
      change (voxel axis - 16 * cell axis : Int).toNat < 16
      omega
    · have bounds := own axis
      obtain ⟨begins, padded⟩ := stored.bounds axis
      simp only [voxelIndex]
      rw [toInt32_eq (by omega) (by omega)]
      omega

/-! ## The memory of the accelerator -/

/-- `cellRange` after ranges were stored in some order. -/
def encodeVolume (volume : StructuredVolume) (gangs : Gangs) (done : List (Nat × Vec3i))
    (cellRange : Nat → CellRange) : Nat → CellRange :=
  done.foldl (fun cellRange write =>
    Function.update cellRange write.1 (encodeBrickCell volume gangs write.2)) cellRange

/-- After all tasks, a lookup of a cell finds the range of its voxels. -/
theorem encodeVolume_getCellAddress (volume : StructuredVolume) (gangs : Gangs)
    (small : paddedCells volume.dimensions < 2 ^ 31) {done : List (Nat × Vec3i)}
    (order : done.Perm (writes volume.dimensions)) (cellRange : Nat → CellRange) {cell : Index}
    (inside : InGrid volume.dimensions cell) :
    encodeVolume volume gangs done cellRange (getCellAddress volume.dimensions fun axis => cell axis) =
      encodeBrickCell volume gangs fun axis => cell axis := by
  have addresses : (done.map Prod.fst).Nodup := by
    rw [(order.map Prod.fst).nodup_iff, writes_addresses small]
    exact List.nodup_range
  have member := order.mem_iff.mpr (getCellAddress_mem small inside)
  refine Library.Loops.foldl_once _ (fun memory : Nat → CellRange =>
      memory (getCellAddress volume.dimensions fun axis => cell axis)) (fun _ => True)
    (fun _ => encodeBrickCell volume gangs fun axis => cell axis) _ addresses.of_map member
    (fun _ _ _ _ => trivial) ?_ (fun memory _ => Function.update_self _ _ _) trivial
  intro memory write written other _
  refine Function.update_of_ne (fun same => other ?_) _ _
  exact (List.inj_on_of_nodup_map addresses member written same).symm

/-- After all tasks, in whatever order and whatever the memory held before, a lookup of a cell
of the grid finds a range that the values of all voxels of the cell are in, and NaN if and only if
they are all NaN. -/
theorem encodeVolume_bounds (volume : StructuredVolume) (gangs : Gangs)
    (small : paddedCells volume.dimensions < 2 ^ 31) {done : List (Nat × Vec3i)}
    (order : done.Perm (writes volume.dimensions)) (cellRange : Nat → CellRange) {cell : Index}
    (inside : InGrid volume.dimensions cell) :
    let range := encodeVolume volume gangs done cellRange
      (getCellAddress volume.dimensions fun axis => cell axis)
    (range = none ↔ ∀ voxel, CellVoxel volume.dimensions cell voxel → volume.getVoxel voxel = none) ∧
      ∀ lower upper, range = some (lower, upper) → ∀ voxel, CellVoxel volume.dimensions cell voxel →
        ∀ value, volume.getVoxel voxel = some value → lower ≤ value ∧ value ≤ upper := by
  intro range
  have isRange : range = encodeBrickCell volume gangs fun axis => cell axis :=
    encodeVolume_getCellAddress volume gangs small order cellRange inside
  have stored : Stored volume.dimensions cell := by
    intro axis
    rw [gridDimensions_eq small]
    exact Int.ofNat_lt.mpr (inside axis)
  have mem_iff : ∀ value, value ∈ values volume gangs (fun axis => cell axis) ↔
      ∃ voxel, CellVoxel volume.dimensions cell voxel ∧ volume.getVoxel voxel = some value := by
    intro value
    rw [mem_values]
    constructor
    · rintro ⟨index, inCell, isValue⟩
      exact ⟨_, (voxelIndex_iff stored _).mp ⟨index, inCell, rfl⟩, isValue⟩
    · rintro ⟨voxel, own, isValue⟩
      obtain ⟨index, inCell, rfl⟩ := (voxelIndex_iff stored voxel).mpr own
      exact ⟨index, inCell, isValue⟩
  refine ⟨?_, fun lower upper found voxel own value isValue => ?_⟩
  · rw [isRange, encodeBrickCell_none]
    simp only [mem_iff, Option.eq_none_iff_forall_ne_some]
    exact ⟨fun absent voxel own value isValue => absent value ⟨voxel, own, isValue⟩,
      fun absent value ⟨voxel, own, isValue⟩ => absent voxel own value isValue⟩
  · have member := (mem_iff value).mpr ⟨voxel, own, isValue⟩
    rw [isRange] at found
    exact (encodeBrickCell_some found).mpr
      ⟨.inr ⟨value, member, le_rfl⟩, .inr ⟨value, member, le_rfl⟩⟩

/-! ## The voxels of a sample -/

/-- The `clampedLocalCoordinates` of `StructuredVolume_sample` -/
def clampedLocalCoordinates (volume : StructuredVolume) (localCoordinates : Fin 3 → ℚ) : Fin 3 → ℚ :=
  fun axis => max (min (localCoordinates axis) (volume.localCoordinatesUpperBound axis)) 0

/-- The voxel that `StructuredVolume_sample` reads at a corner: `voxelIndex_1` along the axes of
the corner, else `voxelIndex_0`. -/
def sampledVoxel (volume : StructuredVolume) (localCoordinates : Fin 3 → ℚ) (corner : Fin 3 → Bool) :
    Vec3i :=
  fun axis =>
    let voxelIndex_0 := truncate (clampedLocalCoordinates volume localCoordinates axis)
    if corner axis then voxelIndex_0 + 1 else voxelIndex_0

/-- The local coordinates inside the volume that lie in a cell. -/
def InCell (dimensions : Dimensions) (cell : Index) (localCoordinates : Fin 3 → ℚ) : Prop :=
  ∀ axis, 0 ≤ localCoordinates axis ∧ localCoordinates axis ≤ dimensions.size axis - 1 ∧
    16 * cell axis ≤ localCoordinates axis ∧ localCoordinates axis < 16 * cell axis + 16

/-- The voxels that samples in a cell read: along each axis from the first voxel of the cell to
the one behind it, but not beyond the last place at which the volume is sampled. -/
def ReadVoxel (volume : StructuredVolume) (cell : Index) (voxel : Vec3i) : Prop :=
  ∀ axis, min (16 * cell axis : Int) ⌊volume.localCoordinatesUpperBound axis⌋ ≤ voxel axis ∧
    voxel axis ≤ min (16 * cell axis + 15 : Int) ⌊volume.localCoordinatesUpperBound axis⌋ + 1

variable {volume : StructuredVolume}

theorem floor_upperBound (volume : StructuredVolume) (axis : Fin 3) : 0 ≤ ⌊volume.localCoordinatesUpperBound axis⌋ ∧
    (⌊volume.localCoordinatesUpperBound axis⌋ + 1 < volume.dimensions.size axis ∨
      volume.dimensions.size axis = 1 ∧ ⌊volume.localCoordinatesUpperBound axis⌋ = 0) := by
  obtain ⟨nonnegative, less | ⟨single, zero⟩⟩ := volume.upperBound axis
  · refine ⟨Int.floor_nonneg.mpr nonnegative, .inl ?_⟩
    have below : ⌊volume.localCoordinatesUpperBound axis⌋ < (volume.dimensions.size axis - 1 : Int) := by
      rw [Int.floor_lt]
      push_cast
      exact less
    omega
  · exact ⟨Int.floor_nonneg.mpr nonnegative, .inr ⟨single, by rw [zero, Int.floor_zero]⟩⟩

theorem sampledVoxel_eq (localCoordinates : Fin 3 → ℚ) (corner : Fin 3 → Bool) (axis : Fin 3)
    (nonnegative : 0 ≤ localCoordinates axis) : sampledVoxel volume localCoordinates corner axis =
      min ⌊localCoordinates axis⌋ ⌊volume.localCoordinatesUpperBound axis⌋ +
        if corner axis then 1 else 0 := by
  have inside := le_min nonnegative (volume.upperBound axis).1
  have floor := Int.floor_mono.map_min (a := localCoordinates axis)
    (b := volume.localCoordinatesUpperBound axis)
  simp only [sampledVoxel, clampedLocalCoordinates]
  rw [max_eq_left inside, truncate, if_pos inside, floor]
  split <;> simp

/-- A position along an axis from which a voxel is read. -/
theorem exists_position {upperBound : ℚ} {first voxel : Int} (low : min first ⌊upperBound⌋ ≤ voxel)
    (high : voxel ≤ min (first + 15) ⌊upperBound⌋ + 1) :
    ∃ position : Int, first ≤ position ∧ position < first + 16 ∧ position ≤ max first ⌊upperBound⌋ ∧
      ∃ next : Bool, min position ⌊upperBound⌋ + (if next then 1 else 0) = voxel := by
  by_cases next : voxel ≤ min (first + 15) ⌊upperBound⌋
  · refine ⟨max first voxel, by omega, by omega, by omega, false, ?_⟩
    simp only [Bool.false_eq_true, if_false]
    omega
  · refine ⟨max first (min (first + 15) ⌊upperBound⌋), by omega, by omega, by omega, true, ?_⟩
    simp only [if_true]
    omega

/-- These are the voxels that samples in the cell read. -/
theorem sampledVoxel_iff (stored : Stored volume.dimensions cell) (voxel : Vec3i) :
    (∃ localCoordinates corner, InCell volume.dimensions cell localCoordinates ∧
      sampledVoxel volume localCoordinates corner = voxel) ↔ ReadVoxel volume cell voxel := by
  constructor
  · rintro ⟨localCoordinates, corner, inside, rfl⟩ axis
    obtain ⟨nonnegative, -, low, high⟩ := inside axis
    have first : (16 * cell axis : Int) ≤ ⌊localCoordinates axis⌋ := by
      rw [Int.le_floor]
      exact_mod_cast low
    have last : ⌊localCoordinates axis⌋ < 16 * cell axis + 16 := by
      rw [Int.floor_lt]
      exact_mod_cast high
    rw [sampledVoxel_eq localCoordinates corner axis nonnegative]
    split <;> omega
  · intro read
    have positions := fun axis => exists_position (read axis).1 (read axis).2
    choose position begins ends inVolume corner place using positions
    refine ⟨fun axis => position axis, corner, fun axis => ?_, funext fun axis => ?_⟩
    · obtain ⟨here, -⟩ := stored.bounds axis
      have floor := (floor_upperBound volume axis).2
      have start := begins axis
      have stop := ends axis
      have last : position axis + 1 ≤ volume.dimensions.size axis := by
        have bound := inVolume axis
        omega
      have inside : (0 : ℚ) ≤ position axis ∧ (position axis : ℚ) + 1 ≤ volume.dimensions.size axis ∧
          (16 * cell axis : ℚ) ≤ position axis ∧ (position axis : ℚ) < 16 * cell axis + 16 :=
        ⟨by exact_mod_cast (by omega : 0 ≤ position axis), by exact_mod_cast last,
          by exact_mod_cast start, by exact_mod_cast stop⟩
      exact ⟨inside.1, le_sub_iff_add_le.mpr inside.2.1, inside.2.2⟩
    · have low : (0 : Int) ≤ position axis := by
        have start := begins axis
        omega
      rw [sampledVoxel_eq _ _ _ (by exact_mod_cast low), Int.floor_intCast]
      exact place axis

/-! ## Conservative ranges -/

/-- The stored range of every cell contains the values that samples in the cell read, but for NaN,
and it is NaN only where these are all NaN. -/
def Conservative (volume : StructuredVolume) (gangs : Gangs) : Prop :=
  ∀ cell, Stored volume.dimensions cell →
    (∀ lower upper, encodeBrickCell volume gangs (fun axis => cell axis) = some (lower, upper) →
      ∀ localCoordinates, InCell volume.dimensions cell localCoordinates → ∀ corner value,
        volume.getVoxel (sampledVoxel volume localCoordinates corner) = some value →
          lower ≤ value ∧ value ≤ upper) ∧
      (encodeBrickCell volume gangs (fun axis => cell axis) = none →
        ∀ localCoordinates, InCell volume.dimensions cell localCoordinates → ∀ corner,
          volume.getVoxel (sampledVoxel volume localCoordinates corner) = none)

/-- Voxels of the cell have a value at or below and one at or above a given one; values outside the
initial range need no bound on that side. -/
def Between (volume : StructuredVolume) (cell : Index) (value : Value) : Prop :=
  (∃ voxel other, CellVoxel volume.dimensions cell voxel ∧ volume.getVoxel voxel = some other ∧
      (finite 99999 ≤ value ∨ other ≤ value)) ∧
    ∃ voxel other, CellVoxel volume.dimensions cell voxel ∧ volume.getVoxel voxel = some other ∧
      (value ≤ finite (-99999) ∨ value ≤ other)

theorem mem_values_iff (stored : Stored volume.dimensions cell) (gangs : Gangs) {value : Value} :
    value ∈ values volume gangs (fun axis => cell axis) ↔
      ∃ voxel, CellVoxel volume.dimensions cell voxel ∧ volume.getVoxel voxel = some value := by
  rw [mem_values]
  constructor
  · rintro ⟨index, small, read⟩
    exact ⟨_, (voxelIndex_iff stored _).mp ⟨index, small, rfl⟩, read⟩
  · rintro ⟨voxel, own, read⟩
    obtain ⟨index, small, rfl⟩ := (voxelIndex_iff stored voxel).mpr own
    exact ⟨index, small, read⟩

/-- A value is in the stored range of a cell exactly where it is between values of the cell. -/
theorem range_contains_iff (stored : Stored volume.dimensions cell) (gangs : Gangs) (value : Value) :
    (∃ lower upper, encodeBrickCell volume gangs (fun axis => cell axis) = some (lower, upper) ∧
      lower ≤ value ∧ value ≤ upper) ↔ Between volume cell value := by
  constructor
  · rintro ⟨lower, upper, range, inside⟩
    obtain ⟨below, above⟩ := (encodeBrickCell_some range).mp inside
    -- the cell has some value at all
    have some_ : ∃ any, any ∈ values volume gangs fun axis => cell axis := by
      by_contra none_
      rw [encodeBrickCell_none.mpr fun any member => none_ ⟨any, member⟩] at range
      cases range
    obtain ⟨any, member⟩ := some_
    obtain ⟨voxel, own, read⟩ := (mem_values_iff stored gangs).mp member
    constructor
    · rcases below with initial | ⟨other, seen, le⟩
      · exact ⟨voxel, any, own, read, .inl initial⟩
      · obtain ⟨voxel, own, read⟩ := (mem_values_iff stored gangs).mp seen
        exact ⟨voxel, other, own, read, .inr le⟩
    · rcases above with initial | ⟨other, seen, le⟩
      · exact ⟨voxel, any, own, read, .inl initial⟩
      · obtain ⟨voxel, own, read⟩ := (mem_values_iff stored gangs).mp seen
        exact ⟨voxel, other, own, read, .inr le⟩
  · rintro ⟨⟨voxel, other, own, read, below⟩, voxel', other', own', read', above⟩
    have seen := (mem_values_iff stored gangs).mpr ⟨voxel, own, read⟩
    have seen' := (mem_values_iff stored gangs).mpr ⟨voxel', own', read'⟩
    cases range : encodeBrickCell volume gangs fun axis => cell axis with
    | none => exact absurd seen (encodeBrickCell_none.mp range other)
    | some bounds =>
      refine ⟨bounds.1, bounds.2, rfl, (encodeBrickCell_some range).mpr ⟨?_, ?_⟩⟩
      · exact below.imp_right fun le => ⟨other, seen, le⟩
      · exact above.imp_right fun le => ⟨other', seen', le⟩

/-- The ranges are conservative where every value that is read is in the range. -/
theorem conservative_iff_contains (gangs : Gangs) : Conservative volume gangs ↔
    ∀ cell, Stored volume.dimensions cell → ∀ voxel, ReadVoxel volume cell voxel →
      ∀ value, volume.getVoxel voxel = some value → Between volume cell value := by
  constructor
  · intro conservative cell stored voxel read value isValue
    obtain ⟨localCoordinates, corner, inside, rfl⟩ := (sampledVoxel_iff stored voxel).mpr read
    obtain ⟨contains, nan⟩ := conservative cell stored
    rw [← range_contains_iff stored gangs]
    cases range : encodeBrickCell volume gangs fun axis => cell axis with
    | none =>
      rw [nan range localCoordinates inside corner] at isValue
      cases isValue
    | some bounds =>
      exact ⟨bounds.1, bounds.2, rfl, contains _ _ range localCoordinates inside corner value isValue⟩
  · intro between cell stored
    have contained : ∀ localCoordinates, InCell volume.dimensions cell localCoordinates →
        ∀ corner value, volume.getVoxel (sampledVoxel volume localCoordinates corner) = some value →
          ∃ lower upper, encodeBrickCell volume gangs (fun axis => cell axis) = some (lower, upper) ∧
            lower ≤ value ∧ value ≤ upper := by
      intro localCoordinates inside corner value isValue
      rw [range_contains_iff stored]
      have read := (sampledVoxel_iff stored _).mp ⟨localCoordinates, corner, inside, rfl⟩
      exact between cell stored _ read value isValue
    constructor
    · intro lower upper range localCoordinates inside corner value isValue
      obtain ⟨lower', upper', range', bounds⟩ := contained localCoordinates inside corner value isValue
      rw [range] at range'
      cases range'
      exact bounds
    · intro range localCoordinates inside corner
      by_contra value
      obtain ⟨value, isValue⟩ := Option.ne_none_iff_exists'.mp value
      obtain ⟨lower, upper, range', -⟩ := contained localCoordinates inside corner value isValue
      rw [range] at range'
      cases range'

theorem CellVoxel.between {voxel : Vec3i} {value : Value} (own : CellVoxel volume.dimensions cell voxel)
    (read : volume.getVoxel voxel = some value) : Between volume cell value :=
  ⟨⟨voxel, value, own, read, .inr le_rfl⟩, voxel, value, own, read, .inr le_rfl⟩

/-- Where the ranges are conservative, the voxels that samples read beyond a cell are between
values of the cell. -/
theorem Conservative.beyond {gangs : Gangs} (conservative : Conservative volume gangs)
    (stored : Stored volume.dimensions cell) {voxel : Vec3i} (read : ReadVoxel volume cell voxel)
    {value : Value} (isValue : volume.getVoxel voxel = some value) : Between volume cell value :=
  (conservative_iff_contains gangs).mp conservative cell stored voxel read value isValue

/-- Gangs of one lane. -/
def scalar : Gangs where
  gangs := cellVoxels.map fun index => [index]
  covers := by rw [← List.flatMap_def, List.flatMap_singleton']

/-- A volume of two cells with 1 in the first plane of the second cell, and 0 elsewhere. -/
def twoCells : StructuredVolume where
  dimensions := { size := ![32, 2, 2], positive := by decide, range := by decide }
  gridOrigin := fun _ => 0
  gridSpacing := fun _ => 1
  localCoordinatesUpperBound := ![31 - 1 / 2 ^ 19, 1 - 1 / 2 ^ 24, 1 - 1 / 2 ^ 24]
  upperBound := by
    intro axis
    induction axis using Library.Literals.three_cases with
    | zero => exact ⟨by norm_num, .inl (by norm_num)⟩
    | one => exact ⟨by norm_num, .inl (by norm_num)⟩
    | two =>
      change (0 : ℚ) ≤ 1 - 1 / 2 ^ 24 ∧ ((1 : ℚ) - 1 / 2 ^ 24 < (2 : Nat) - 1 ∨ _)
      exact ⟨by norm_num, .inl (by norm_num)⟩
  getVoxel := fun voxel => some (finite (if voxel 0 = 16 then 1 else 0))

/-- The second cell of this volume, with its one value of 1 in the first plane. -/
theorem encodeVolume_bounds_twoCells : ∃ lower upper,
    encodeVolume twoCells scalar (writes twoCells.dimensions) (fun _ => none)
        (getCellAddress twoCells.dimensions fun axis => (![1, 0, 0] : Index) axis) =
      some (lower, upper) ∧ lower ≤ finite 1 ∧ finite 1 ≤ upper := by
  have inside : InGrid twoCells.dimensions ![1, 0, 0] := by
    change ∀ axis, (![1, 0, 0] : Index) axis < cells twoCells.dimensions axis
    decide
  have own : CellVoxel twoCells.dimensions ![1, 0, 0] ![16, 0, 0] := by
    unfold CellVoxel
    decide
  obtain ⟨isNaN, between⟩ := encodeVolume_bounds twoCells scalar (by decide +kernel)
    (List.Perm.refl _) (fun _ => none) inside
  obtain ⟨⟨lower, upper⟩, found⟩ := Option.ne_none_iff_exists'.mp fun none_ =>
    Option.some_ne_none (finite 1) (isNaN.mp none_ ![16, 0, 0] own)
  exact ⟨lower, upper, found, between lower upper found ![16, 0, 0] own (finite 1) rfl⟩

end GridAccelerator

end Ospray.Structured
