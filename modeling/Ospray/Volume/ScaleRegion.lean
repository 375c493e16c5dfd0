import Mathlib.Tactic.FinCases
import Ospray.Library.ScaledBoxes
import Ospray.Volume.GhostVoxels
import Ospray.Volume.IntDiv

/-!
# Scaling a volume region by region

With a scale factor, `setRegion` copies the voxels it is given more than once: coordinates
and size of the region are scaled, each is rounded down, and a voxel of the scaled region
is read from the voxel at its coordinates in the region, divided by the factor. Where the
scaled coordinates of a region are rounded, its voxels come too early, and before the next
region voxels may be left unwritten.
-/

namespace Ospray.Structured

open Library.RowMajor Library.Replicas Library.ScaledBoxes

section

variable {V : Type} (scaleFactor : Fin 3 → ℚ)

/-- `idx` of `upsampleRegion` -/
def idx (regionSize voxel : Index) : Int :=
  toInt32 (toInt (voxel 2 / scaleFactor 2) * regionSize 0 * regionSize 1 +
    toInt (voxel 1 / scaleFactor 1) * regionSize 0 + toInt (voxel 0 / scaleFactor 0))

/-- `outIdx` of `upsampleRegion` -/
def outIdx (scaledRegionSize voxel : Index) : Int :=
  toInt32 (voxel 2 * scaledRegionSize 1 * scaledRegionSize 0 + voxel 1 * scaledRegionSize 0 + voxel 0)

/-- `nTasks` of `upsampleRegion`; no task is run when it is negative. -/
def sliceTasks (scaledRegionSize : Index) : Nat :=
  (toInt32 (scaledRegionSize 0 * scaledRegionSize 1)).toNat

/-- The voxel of a task of `upsampleRegion`. -/
def taskVoxel (scaledRegionSize : Index) (z taskID : Nat) : Index :=
  ![taskID % scaledRegionSize 0, taskID / scaledRegionSize 0, z]

/-- `upsampleRegion`, with the order in which the tasks of each slice are run. -/
def upsampleRegion (orders : Nat → List Nat) (source : Nat → V) (regionSize scaledRegionSize : Index)
    (out : Int → V) : Int → V :=
  (List.range (scaledRegionSize 2)).foldl (fun out z =>
    (orders z).foldl (fun out taskID =>
      Function.update out (outIdx scaledRegionSize (taskVoxel scaledRegionSize z taskID))
        (source (idx scaleFactor regionSize (taskVoxel scaledRegionSize z taskID)).toNat)) out) out

/-- `scaledRegionSize`; a region of a negative size is like one of size 0. -/
def scaledRegionSize (regionSize : Index) : Index := fun axis =>
  (toInt (scaleFactor axis * regionSize axis)).toNat

/-- `scaledRegionCoords` -/
def scaledRegionCoords (regionCoords : Vec3i) : Vec3i := fun axis => toInt (scaleFactor axis * regionCoords axis)

theorem toInt_range (x : ℚ) : -2 ^ 31 ≤ toInt x ∧ toInt x < 2 ^ 31 := by
  rw [toInt]
  split_ifs with fits
  · exact fits
  · decide

/-- `scaleRegion`, where `out` is what the allocated memory holds. -/
def scaleRegion (orders : Nat → List Nat) (out : Int → V) (region : Region V) : Region V :=
  if 0 < scaleFactor 0 ∧ 0 < scaleFactor 1 ∧ 0 < scaleFactor 2 then
    { source := fun index => upsampleRegion scaleFactor orders region.source region.regionSize
        (scaledRegionSize scaleFactor region.regionSize) out index
      regionCoords := scaledRegionCoords scaleFactor region.regionCoords
      regionSize := scaledRegionSize scaleFactor region.regionSize
      coordsRange := fun _ => toInt_range _
      sizeRange := fun axis => by
        have range := toInt_range (scaleFactor axis * region.regionSize axis)
        rw [scaledRegionSize]
        omega }
  else region

/-- A call of `setRegion` with what `malloc` returns and the orders in which tasks are run. -/
structure ScaledCall (V : Type) (nTasks : Region V → Nat) where
  region : Region V
  out : Int → V
  orders : Nat → List Nat
  order : List Nat
  allSlices : ∀ z, (orders z).Perm (List.range (sliceTasks (scaledRegionSize scaleFactor region.regionSize)))
  allRows : order.Perm (List.range (nTasks (scaleRegion scaleFactor orders out region)))

/-- What is left of it behind `scaleRegion`. -/
def ScaledCall.rows {nTasks : Region V → Nat} (call : ScaledCall scaleFactor V nTasks) : RowsCall V nTasks where
  region := scaleRegion scaleFactor call.orders call.out call.region
  order := call.order
  all := call.allRows

/-- The box of a region. -/
def Region.box (region : Region V) : SizedBox (Fin 3) where
  lower := region.regionCoords
  size := region.regionSize

/-- The sizes and indices of a scaled box fit into an `int`. -/
structure Countable (box : SizedBox (Fin 3)) : Prop where
  coordsRange : ∀ axis, -2 ^ 31 ≤ box.lower axis ∧ box.lower axis < 2 ^ 31
  sizeRange : ∀ axis, box.size axis < 2 ^ 31
  slices : scaledRegionSize scaleFactor box.size 0 * scaledRegionSize scaleFactor box.size 1 < 2 ^ 31
  rows : scaledRegionSize scaleFactor box.size 1 * scaledRegionSize scaleFactor box.size 2 < 2 ^ 31
  voxels : volume (scaledRegionSize scaleFactor box.size) ≤ 2 ^ 31

end

/-! ## Scaling one region -/

section Upsample

variable {V : Type} {scaleFactor : Fin 3 → ℚ} {regionSize scaled voxel : Index}
  (slices : scaled 0 * scaled 1 < 2 ^ 31) (voxels : volume scaled ≤ 2 ^ 31)

theorem sliceTasks_eq (slices : scaled 0 * scaled 1 < 2 ^ 31) : sliceTasks scaled = scaled 0 * scaled 1 := by
  have exact_ := @toInt32_eq (scaled 0 * scaled 1 : Nat) (by omega) (by omega)
  rw [sliceTasks, ← Int.natCast_mul, exact_, Int.toNat_natCast]

theorem outIdx_eq (voxels : volume scaled ≤ 2 ^ 31) (inside : Inside scaled voxel) :
    outIdx scaled voxel = rowMajor scaled voxel := by
  have own := rowMajor_lt inside
  have sum : (voxel 2 * scaled 1 * scaled 0 + voxel 1 * scaled 0 + voxel 0 : Int) =
      (rowMajor scaled voxel : Nat) := by
    rw [rowMajor]
    push_cast
    ring
  rw [outIdx, sum, toInt32_eq (by omega) (by omega)]

theorem taskVoxel_inside {z task : Nat} (below : task < scaled 0 * scaled 1) (zInside : z < scaled 2) :
    Inside scaled (taskVoxel scaled z task) := by
  have some_ : 0 < scaled 0 := Nat.pos_of_ne_zero fun zero => by
    rw [zero, Nat.zero_mul] at below
    omega
  intro axis
  induction axis using Library.Literals.three_cases with
  | zero => exact Nat.mod_lt _ some_
  | one => exact Nat.div_lt_of_lt_mul below
  | two => exact zInside

theorem taskVoxel_eq (inside : Inside scaled voxel) :
    taskVoxel scaled (voxel 2) (voxel 0 + scaled 0 * voxel 1) = voxel := by
  have zero := inside 0
  rw [taskVoxel, Nat.add_mul_mod_self_left, Nat.mod_eq_of_lt zero,
    Nat.add_mul_div_left _ _ (Nat.zero_lt_of_lt zero), Nat.div_eq_of_lt zero, Nat.zero_add]
  funext axis
  induction axis using Library.Literals.three_cases with
  | zero => rfl
  | one => rfl
  | two => rfl

include slices voxels

/-- The scaled region is filled voxel by voxel. -/
theorem upsampleRegion_eq {orders : Nat → List Nat}
    (all : ∀ z, (orders z).Perm (List.range (sliceTasks scaled))) (source : Nat → V) (out : Int → V)
    (inside : Inside scaled voxel) :
    upsampleRegion scaleFactor orders source regionSize scaled out (rowMajor scaled voxel : Nat) =
      source (idx scaleFactor regionSize voxel).toNat := by
  rw [sliceTasks_eq slices] at all
  let place : Index → List Int := fun voxel => [(rowMajor scaled voxel : Int)]
  let content : Index → V := fun voxel => source (idx scaleFactor regionSize voxel).toNat
  let writes := (List.range (scaled 2)).flatMap fun z =>
    (orders z).map fun task => (taskVoxel scaled z task, content (taskVoxel scaled z task))
  have filled : upsampleRegion scaleFactor orders source regionSize scaled out = writeAll place writes out := by
    rw [upsampleRegion, writeAll, List.foldl_flatMap]
    apply List.foldl_ext _ _ _
    intro out z zListed
    rw [List.foldl_map]
    apply List.foldl_ext _ _ _
    intro out task listed
    have below := List.mem_range.mp ((all z).mem_iff.mp listed)
    rw [outIdx_eq voxels (taskVoxel_inside below (List.mem_range.mp zListed))]
    rfl
  have member : ∀ voxel value, (voxel, value) ∈ writes ↔
      Inside scaled voxel ∧ some (content voxel) = some value := by
    intro voxel value
    simp only [writes, List.mem_flatMap, List.mem_map, List.mem_range]
    constructor
    · rintro ⟨z, zInside, task, listed, same⟩
      obtain ⟨rfl, rfl⟩ := Prod.ext_iff.mp same
      exact ⟨taskVoxel_inside (List.mem_range.mp ((all z).mem_iff.mp listed)) zInside, rfl⟩
    · rintro ⟨inside, same⟩
      refine ⟨voxel 2, inside 2, voxel 0 + scaled 0 * voxel 1, ?_, ?_⟩
      · rw [(all _).mem_iff, List.mem_range]
        exact digit_lt (inside 0) (inside 1)
      · rw [taskVoxel_eq inside, Option.some.inj same]
  have performs : Performs place (Inside scaled) (fun voxel => some (content voxel)) (writeAll place writes) := by
    apply performs_writeAll member
    intro voxel other address own otherInside shared shared'
    have first := List.mem_singleton.mp shared
    have second := List.mem_singleton.mp shared'
    exact rowMajor_injective own otherInside (Int.ofNat.inj (first.symm.trans second))
  rw [filled]
  exact performs out voxel inside _ (List.mem_singleton_self _)

end Upsample

/-! ## What it is read from -/

section Origin

variable {scaleFactor : Fin 3 → ℚ} (large : ∀ axis, 1 ≤ scaleFactor axis) {size voxel : Index}

include large

theorem scaledRegionSize_eq {axis : Fin 3} (some_ : 0 < scaledRegionSize scaleFactor size axis) :
    (scaledRegionSize scaleFactor size axis : Int) = ⌊scaleFactor axis * size axis⌋ ∧
      size axis ≤ scaledRegionSize scaleFactor size axis ∧ scaledRegionSize scaleFactor size axis < 2 ^ 31 := by
  have nonnegative : (0 : ℚ) ≤ scaleFactor axis * size axis :=
    mul_nonneg (zero_le_one.trans (large axis)) (Nat.cast_nonneg _)
  have range := toInt_range (scaleFactor axis * size axis)
  have floor : toInt (scaleFactor axis * size axis) = ⌊scaleFactor axis * size axis⌋ := by
    rw [scaledRegionSize, toInt] at some_
    rw [toInt]
    split_ifs at some_ ⊢ with fits
    · exact if_pos nonnegative
    · simp at some_
  have more : (size axis : Int) ≤ ⌊scaleFactor axis * size axis⌋ := by
    rw [Int.le_floor, Int.cast_natCast]
    exact le_mul_of_one_le_left (Nat.cast_nonneg _) (large axis)
  rw [scaledRegionSize] at some_ ⊢
  omega

/-- The voxels read for a scaled region are in the region, and their indices are exact. -/
theorem idx_eq (voxels : volume (scaledRegionSize scaleFactor size) ≤ 2 ^ 31)
    (inside : Inside (scaledRegionSize scaleFactor size) voxel) :
    Inside size (fun axis => ⌊voxel axis / scaleFactor axis⌋.toNat) ∧
      idx scaleFactor size voxel = (rowMajor size fun axis => ⌊voxel axis / scaleFactor axis⌋.toNat : Nat) ∧
      volume size ≤ 2 ^ 31 := by
  have exact_ := fun axis => scaledRegionSize_eq large (Nat.zero_lt_of_lt (inside axis))
  have positive : ∀ axis, 0 < scaleFactor axis := fun axis => zero_lt_one.trans_le (large axis)
  have low : ∀ axis, 0 ≤ ⌊(voxel axis : ℚ) / scaleFactor axis⌋ := fun axis =>
    Int.floor_nonneg.mpr (div_nonneg (Nat.cast_nonneg _) (positive axis).le)
  have origin : Inside size fun axis => ⌊voxel axis / scaleFactor axis⌋.toNat := by
    intro axis
    have below : (voxel axis : Int) < ⌊scaleFactor axis * size axis⌋ := by
      have own := inside axis
      have whole := (exact_ axis).1
      omega
    have less : ⌊(voxel axis : ℚ) / scaleFactor axis⌋ < size axis := by
      rw [Int.floor_lt, div_lt_iff₀' (positive axis), Int.cast_natCast]
      exact lt_of_lt_of_le (by exact_mod_cast Int.cast_lt.mpr below) (Int.floor_le _)
    have nonnegative := low axis
    dsimp only
    omega
  have few : volume size ≤ 2 ^ 31 :=
    (Nat.mul_le_mul (exact_ 0).2.1 (Nat.mul_le_mul (exact_ 1).2.1 (exact_ 2).2.1)).trans voxels
  have own := rowMajor_lt origin
  have digit : ∀ axis, toInt (voxel axis / scaleFactor axis) = (⌊(voxel axis : ℚ) / scaleFactor axis⌋.toNat : Nat) := by
    intro axis
    have small : (voxel axis : ℚ) / scaleFactor axis < 2 ^ 31 := by
      refine (div_le_self (Nat.cast_nonneg _) (large axis)).trans_lt ?_
      exact_mod_cast (inside axis).trans (exact_ axis).2.2
    rw [toInt_eq (div_nonneg (Nat.cast_nonneg _) (positive axis).le) small, Int.toNat_of_nonneg (low axis)]
  refine ⟨origin, ?_, few⟩
  have sum : (⌊(voxel 2 : ℚ) / scaleFactor 2⌋.toNat * size 0 * size 1 + ⌊(voxel 1 : ℚ) / scaleFactor 1⌋.toNat * size 0 +
      ⌊(voxel 0 : ℚ) / scaleFactor 0⌋.toNat : Int) =
      (rowMajor size fun axis => ⌊voxel axis / scaleFactor axis⌋.toNat : Nat) := by
    rw [rowMajor]
    push_cast
    ring
  rw [idx, digit, digit, digit, sum, toInt32_eq (by omega) (by omega)]

end Origin

/-! ## Scaled regions -/

/-- A region is passed with the voxels of a source volume. -/
def Region.Holds {V : Type} (region : Region V) (source : Index → V) : Prop :=
  ∀ index, Inside region.regionSize index → region.source (rowMajor region.regionSize index) =
    source fun axis => (region.regionCoords axis + index axis).toNat

section Regions

variable {V : Type} {scaleFactor : Fin 3 → ℚ} (large : ∀ axis, 1 ≤ scaleFactor axis)
  {nTasks : Region V → Nat} {call : ScaledCall scaleFactor V nTasks}

include large

theorem rows_region :
    (call.rows scaleFactor).region.regionCoords = scaledRegionCoords scaleFactor call.region.regionCoords ∧
      (call.rows scaleFactor).region.regionSize = scaledRegionSize scaleFactor call.region.regionSize ∧
      (call.rows scaleFactor).region.source = fun index : Nat =>
        upsampleRegion scaleFactor call.orders call.region.source call.region.regionSize
          (scaledRegionSize scaleFactor call.region.regionSize) call.out index := by
  have upsampling : 0 < scaleFactor 0 ∧ 0 < scaleFactor 1 ∧ 0 < scaleFactor 2 :=
    ⟨zero_lt_one.trans_le (large 0), zero_lt_one.trans_le (large 1), zero_lt_one.trans_le (large 2)⟩
  simp only [ScaledCall.rows, scaleRegion, if_pos upsampling, and_self]

variable {size : Index} {dimensions : Dimensions} (grid : dimensions.size = scaledRegionSize scaleFactor size)

include grid

theorem dimensions_eq (axis : Fin 3) : (dimensions.size axis : Int) = ⌊scaleFactor axis * size axis⌋ := by
  have some_ := dimensions.positive axis
  rw [grid] at some_ ⊢
  exact (scaledRegionSize_eq large some_).1

variable {boxes : List (SizedBox (Fin 3))} (tiles : Tiles size boxes) (listed : call.region.box ∈ boxes)

include tiles listed

/-- Coordinates and size of a scaled region are exact. -/
theorem rows_box (solid : call.region.box.Solid) :
    (call.rows scaleFactor).region.box = call.region.box.scaled scaleFactor := by
  have positive : ∀ axis, 0 ≤ scaleFactor axis := fun axis => zero_le_one.trans (large axis)
  obtain ⟨scaledSolid, inside⟩ := scaled_lower large tiles listed solid
  obtain ⟨coords, sizes, -⟩ := @rows_region V scaleFactor large nTasks call
  have ends : ∀ axis, (call.region.box.scaled scaleFactor).lower axis +
      (call.region.box.scaled scaleFactor).size axis ≤ dimensions.size axis := by
    intro axis
    rw [dimensions_eq large grid]
    refine (scaled_end_le positive call.region.box axis).trans (Int.floor_mono ?_)
    exact mul_le_mul_of_nonneg_left (by exact_mod_cast (tiles.inside listed solid axis).2) (positive axis)
  rw [Region.box, coords, sizes, SizedBox.scaled]
  congr 1
  · funext axis
    have start := tiles.inside listed solid axis
    refine toInt_eq (mul_nonneg (positive axis) (Int.cast_nonneg start.1)) ?_
    have below := (inside axis).2
    have range := dimensions.range axis
    rw [← dimensions_eq large grid] at below
    change ⌊scaleFactor axis * call.region.regionCoords axis⌋ < _ at below
    have small : ⌊scaleFactor axis * call.region.regionCoords axis⌋ < 2 ^ 31 := by omega
    exact_mod_cast Int.floor_lt.mp small
  · funext axis
    have start := (inside axis).1
    have end_ := ends axis
    have range := dimensions.range axis
    rw [scaled_size positive] at end_
    change _ + ⌊scaleFactor axis * call.region.regionSize axis⌋ ≤ _ at end_
    have small : ⌊scaleFactor axis * call.region.regionSize axis⌋ < 2 ^ 31 := by omega
    change (toInt _).toNat = ⌊scaleFactor axis * call.region.regionSize axis⌋.toNat
    rw [toInt_eq (mul_nonneg (positive axis) (Nat.cast_nonneg _)) (by exact_mod_cast Int.floor_lt.mp small)]

/-- A region covers after scaling what its scaled box covers. -/
theorem rows_covers (voxel : Index) :
    (call.rows scaleFactor).region.Covers voxel ↔
      (call.region.box.scaled scaleFactor).Covers fun axis => voxel axis := by
  by_cases solid : call.region.box.Solid
  · rw [← rows_box large grid tiles listed solid]
    rfl
  · refine iff_of_false (fun covers => solid fun axis => ?_) fun covers => solid (solid_of_scaled covers)
    have bounds := covers axis
    rw [(rows_region large).2.1] at bounds
    apply Nat.pos_of_ne_zero
    intro zero
    change call.region.regionSize axis = 0 at zero
    have none_ : scaledRegionSize scaleFactor call.region.regionSize axis = 0 := by
      rw [scaledRegionSize, zero, Nat.cast_zero, mul_zero]
      rfl
    omega

/-- Each voxel of a scaled region is a copy of one of the region. -/
theorem rows_value (countable : Countable scaleFactor call.region.box) {source : Index → V}
    (holds : call.region.Holds source) {voxel : Index}
    (covers : (call.region.box.scaled scaleFactor).Covers fun axis => voxel axis) :
    (call.rows scaleFactor).region.value voxel =
      some (source fun axis => (copied scaleFactor call.region.box (fun axis => voxel axis) axis).toNat) := by
  have exact_ := rows_box large grid tiles listed (solid_of_scaled covers)
  obtain ⟨-, sizes, content⟩ := @rows_region V scaleFactor large nTasks call
  have coords : (call.rows scaleFactor).region.regionCoords = (call.region.box.scaled scaleFactor).lower :=
    congrArg SizedBox.lower exact_
  have scaledSizes : scaledRegionSize scaleFactor call.region.regionSize = (call.region.box.scaled scaleFactor).size :=
    sizes.symm.trans (congrArg SizedBox.size exact_)
  have inside : Inside (scaledRegionSize scaleFactor call.region.regionSize) fun axis =>
      (voxel axis - (call.region.box.scaled scaleFactor).lower axis).toNat := by
    intro axis
    have bounds : _ ≤ (voxel axis : Int) ∧ (voxel axis : Int) < _ := covers axis
    rw [scaledSizes]
    dsimp only
    omega
  obtain ⟨originInside, index, -⟩ := idx_eq large countable.voxels inside
  have read := @upsampleRegion_eq V scaleFactor call.region.regionSize _ _ countable.slices countable.voxels
    call.orders call.allSlices call.region.source call.out inside
  rw [Region.value, if_pos ((rows_covers large grid tiles listed voxel).mpr covers), coords, sizes, content]
  refine congrArg some (read.trans ?_)
  change call.region.source (idx scaleFactor call.region.box.size _).toNat = _
  rw [index, Int.toNat_natCast]
  refine (holds _ originInside).trans (congrArg source (funext fun axis => ?_))
  have from_ : 0 ≤ (voxel axis : Int) - (call.region.box.scaled scaleFactor).lower axis :=
    Int.sub_nonneg.mpr (covers axis).1
  have offset : ((voxel axis - (call.region.box.scaled scaleFactor).lower axis).toNat : ℚ) =
      ((voxel axis - (call.region.box.scaled scaleFactor).lower axis : Int) : ℚ) := by
    exact_mod_cast Int.toNat_of_nonneg from_
  have low : 0 ≤ ⌊((voxel axis - (call.region.box.scaled scaleFactor).lower axis : Int) : ℚ) / scaleFactor axis⌋ :=
    Int.floor_nonneg.mpr (div_nonneg (Int.cast_nonneg from_) (zero_le_one.trans (large axis)))
  rw [offset, Int.toNat_of_nonneg low]
  rfl

/-- A voxel is only written by a call on a box that covers it after scaling, with a copy of a voxel. -/
theorem rows_value_iff (countable : Countable scaleFactor call.region.box) {source : Index → V}
    (holds : call.region.Holds source) (voxel : Index) (value : V) :
    (call.rows scaleFactor).region.value voxel = some value ↔
      ((call.region.box.scaled scaleFactor).Covers fun axis => voxel axis) ∧
        (source fun axis => (copied scaleFactor call.region.box (fun axis => voxel axis) axis).toNat) = value := by
  constructor
  · intro written
    have covers : (call.region.box.scaled scaleFactor).Covers fun axis => voxel axis := by
      refine (rows_covers large grid tiles listed voxel).mp ?_
      by_contra outside
      rw [Region.value, if_neg outside] at written
      cases written
    exact ⟨covers, Option.some.inj ((rows_value large grid tiles listed countable holds covers).symm.trans written)⟩
  · rintro ⟨covers, rfl⟩
    exact rows_value large grid tiles listed countable holds covers

end Regions

/-! ## Scaling a volume -/

namespace GhostBlockBrickedVolume

variable {V F : Type}

/-- After all calls on the regions of a source volume, every voxel is written, and is a copy of the right
voxel of the source. -/
def Upscales (self : GhostBlockBrickedVolume) (toFloat : V → F) (scaleFactor : Fin 3 → ℚ)
    (boxes : List (SizedBox (Fin 3))) : Prop :=
  ∀ (source : Index → V) (calls : List (ScaledCall scaleFactor V nTasks)),
    (calls.map fun call => call.region.box) = boxes → (∀ call ∈ calls, call.region.Holds source) →
    ∀ memory voxel, Inside self.dimensions.size voxel →
      (∃ call ∈ calls, (call.rows scaleFactor).region.Covers voxel) ∧
        self.getVoxel toFloat ((self.store toFloat).run (calls.map fun call => call.rows scaleFactor) memory) voxel =
          toFloat (source fun axis => ⌊(voxel axis : ℚ) / scaleFactor axis⌋.toNat)

/-- A call on a region of a source volume. -/
def callOn {scaleFactor : Fin 3 → ℚ} (source : Index → V) (content : V) (box : SizedBox (Fin 3))
    (countable : Countable scaleFactor box) : ScaledCall scaleFactor V nTasks where
  region := {
    source := fun index => source fun axis => (box.lower axis + cellAt box.size index axis).toNat
    regionCoords := box.lower
    regionSize := box.size
    coordsRange := countable.coordsRange
    sizeRange := countable.sizeRange }
  out := fun _ => content
  orders := fun _ => List.range (sliceTasks (scaledRegionSize scaleFactor box.size))
  order := List.range _
  allSlices := fun _ => List.Perm.refl _
  allRows := List.Perm.refl _

theorem callOn_holds {scaleFactor : Fin 3 → ℚ} (source : Index → V) (content : V) (box : SizedBox (Fin 3))
    (countable : Countable scaleFactor box) : (callOn source content box countable).region.Holds source := by
  intro index inside
  have own : Inside box.size index := inside
  change source (fun axis => (box.lower axis + cellAt box.size (rowMajor box.size index) axis).toNat) =
    source fun axis => (box.lower axis + index axis).toNat
  rw [cellAt_rowMajor own]

section

variable {self : GhostBlockBrickedVolume} (fits : Fits 63 self.dimensions) (toFloat : V → F)
  {scaleFactor : Fin 3 → ℚ} (large : ∀ axis, 1 ≤ scaleFactor axis) {boxes : List (SizedBox (Fin 3))}
  (countable : ∀ box ∈ boxes, Countable scaleFactor box)

include fits large countable

/-- What is read after all calls is what was written last. -/
theorem getVoxel_scaled {calls : List (ScaledCall scaleFactor V nTasks)}
    (same : (calls.map fun call => call.region.box) = boxes) (memory : Memory V) {voxel : Index}
    (inside : Inside self.dimensions.size voxel) {value : V}
    (written : lastWritten (calls.map fun call => (call.rows scaleFactor).region.value) voxel = some value) :
    self.getVoxel toFloat ((self.store toFloat).run (calls.map fun call => call.rows scaleFactor) memory) voxel =
      toFloat value := by
  have rows : ∀ rows ∈ calls.map fun call => call.rows scaleFactor,
      ((self.store toFloat).region rows).regionSize 1 * ((self.store toFloat).region rows).regionSize 2 < 2 ^ 31 := by
    intro rows listed
    obtain ⟨call, member, rfl⟩ := List.mem_map.mp listed
    change (call.rows scaleFactor).region.regionSize 1 * (call.rows scaleFactor).region.regionSize 2 < 2 ^ 31
    rw [(rows_region large).2.1]
    exact (countable call.region.box (same ▸ List.mem_map_of_mem member)).rows
  have batches : ((calls.map fun call => call.rows scaleFactor).map fun rows : RowsCall V nTasks => rows.region.value) =
      calls.map fun call => (call.rows scaleFactor).region.value := List.map_map
  refine ((stores fits toFloat).last (calls.map fun call => call.rows scaleFactor) memory rows voxel inside).trans ?_
  change ((lastWritten ((calls.map fun call => call.rows scaleFactor).map
    fun rows : RowsCall V nTasks => rows.region.value) voxel).map toFloat).getD _ = _
  rw [batches, written]
  rfl

variable {size : Index} (grid : self.dimensions.size = scaledRegionSize scaleFactor size) (tiles : Tiles size boxes)

include grid tiles

/-- After all calls, a voxel that a scaled box covers is the copy that this box makes, as no other one
covers it. -/
theorem getVoxel_covered {source : Index → V} {calls : List (ScaledCall scaleFactor V nTasks)}
    (same : (calls.map fun call => call.region.box) = boxes) (holds : ∀ call ∈ calls, call.region.Holds source)
    (memory : Memory V) {voxel : Index} (inside : Inside self.dimensions.size voxel) {box : SizedBox (Fin 3)}
    (listed : box ∈ boxes) (covers : (box.scaled scaleFactor).Covers fun axis => voxel axis) :
    self.getVoxel toFloat ((self.store toFloat).run (calls.map fun call => call.rows scaleFactor) memory) voxel =
      toFloat (source fun axis => (copied scaleFactor box (fun axis => voxel axis) axis).toNat) := by
  have own : ∀ call ∈ calls, call.region.box ∈ boxes := fun call member => same ▸ List.mem_map_of_mem member
  have writes := fun call member => rows_value_iff large grid tiles (own call member) (countable _ (own call member))
    (holds call member) voxel
  obtain ⟨call, member, rfl⟩ := List.mem_map.mp (same.symm ▸ listed)
  refine getVoxel_scaled fits toFloat large countable same memory inside
    (lastWritten_eq_some ⟨_, List.mem_map_of_mem member, ?_⟩ ?_)
  · exact fun nothing => Option.some_ne_none _ (((writes call member _).mpr ⟨covers, rfl⟩).symm.trans nothing)
  · intro batch batchListed other read
    obtain ⟨writer, writerListed, rfl⟩ := List.mem_map.mp batchListed
    obtain ⟨writerCovers, rfl⟩ := (writes writer writerListed other).mp read
    have one : writer.region.box = call.region.box := by
      by_contra different
      exact scaled_apart (fun axis => zero_le_one.trans (large axis))
        (tiles.apart_of_ne (own writer writerListed) listed different) _ ⟨writerCovers, covers⟩
    rw [one]

/-- A volume is scaled where its regions, scaled one by one, give the scaled grid. -/
theorem upscales_of_commutes (commutes : Commutes scaleFactor size boxes) :
    self.Upscales toFloat scaleFactor boxes := by
  intro source calls same holds memory voxel inside
  have inGrid : ∀ axis, 0 ≤ (voxel axis : Int) ∧ (voxel axis : Int) < ⌊scaleFactor axis * size axis⌋ := by
    intro axis
    have bound := inside axis
    rw [← dimensions_eq large grid]
    omega
  obtain ⟨⟨box, listed, covers⟩, copies⟩ := commutes (fun axis => voxel axis) inGrid
  rw [getVoxel_covered fits toFloat large countable grid tiles same holds memory inside listed covers,
    copies box listed covers]
  obtain ⟨call, member, rfl⟩ := List.mem_map.mp (same.symm ▸ listed)
  exact ⟨⟨call, member, (rows_covers large grid tiles listed voxel).mpr covers⟩, rfl⟩

/-- And only there, as source volumes can have any values. -/
theorem commutes_of_upscales (distinct : ∃ first second : V, toFloat first ≠ toFloat second)
    (upscales : self.Upscales toFloat scaleFactor boxes) : Commutes scaleFactor size boxes := by
  intro point inGrid
  have positive : ∀ axis, 0 < scaleFactor axis := fun axis => zero_lt_one.trans_le (large axis)
  obtain ⟨value, other, apart⟩ := distinct
  obtain ⟨voxel, rfl⟩ : ∃ voxel : Index, (fun axis => (voxel axis : Int)) = point :=
    ⟨fun axis => (point axis).toNat, funext fun axis => Int.toNat_of_nonneg (inGrid axis).1⟩
  have inside : Inside self.dimensions.size voxel := by
    intro axis
    have bound := (inGrid axis).2
    rw [← dimensions_eq large grid] at bound
    exact Int.ofNat_lt.mp bound
  let calls := fun source : Index → V => boxes.pmap (fun box own => callOn source value box own) countable
  have same : ∀ source, ((calls source).map fun call => call.region.box) = boxes := by
    intro source
    rw [List.map_pmap]
    exact List.pmap_eq_self.mpr fun box _ => rfl
  have holds : ∀ source, ∀ call ∈ calls source, call.region.Holds source := by
    intro source call listed
    obtain ⟨box, member, rfl⟩ := List.mem_pmap.mp listed
    exact callOn_holds source value box _
  have ran := fun source => upscales source (calls source) (same source) (holds source) (fun _ => value) voxel inside
  constructor
  · obtain ⟨⟨call, listed, covers⟩, -⟩ := ran fun _ => value
    have own : call.region.box ∈ boxes := same (fun _ => value) ▸ List.mem_map_of_mem listed
    exact ⟨_, own, (rows_covers large grid tiles own voxel).mp covers⟩
  · intro box listed covers
    by_contra differs
    -- a source volume that has another value only where the box copies from
    let source : Index → V := fun index =>
      if index = fun axis => (copied scaleFactor box (fun axis => voxel axis) axis).toNat then value else other
    have wanted := (ran source).2
    rw [getVoxel_covered fits toFloat large countable grid tiles (same source) (holds source) (fun _ => value) inside
      listed covers] at wanted
    have here : (source fun axis => (copied scaleFactor box (fun axis => voxel axis) axis).toNat) = value := if_pos rfl
    have elsewhere : (source fun axis => ⌊(voxel axis : ℚ) / scaleFactor axis⌋.toNat) = other := by
      refine if_neg fun match_ => differs (funext fun axis => ?_)
      have one : ⌊(voxel axis : ℚ) / scaleFactor axis⌋.toNat = _ := congrFun match_ axis
      have low : 0 ≤ ⌊(voxel axis : ℚ) / scaleFactor axis⌋ :=
        Int.floor_nonneg.mpr (div_nonneg (Nat.cast_nonneg _) (positive axis).le)
      have start := (tiles.inside listed (solid_of_scaled covers) axis).1
      have copiedLow := (covers_copied positive covers axis).1
      change _ = ⌊(voxel axis : ℚ) / scaleFactor axis⌋
      omega
    rw [here, elsewhere] at wanted
    exact apart wanted

/-- **Scaling a volume region by region.** Where sizes and indices fit into an `int`, no voxel outside of a
region is read, and after the calls on a tiling of the source volume all voxels are written and are copies of
the right ones if and only if the scaled coordinates of no region are rounded. -/
theorem upscales_iff (distinct : ∃ first second : V, toFloat first ≠ toFloat second) :
    (∀ box ∈ boxes, ∀ voxel, Inside (scaledRegionSize scaleFactor box.size) voxel →
      0 ≤ idx scaleFactor box.size voxel ∧ idx scaleFactor box.size voxel < volume box.size) ∧
    (self.Upscales toFloat scaleFactor boxes ↔ ∀ box ∈ boxes, box.Solid → Aligned scaleFactor box) := by
  refine ⟨fun box listed voxel inside => ?_, ?_⟩
  · obtain ⟨origin, index, -⟩ := idx_eq large (countable box listed).voxels inside
    have own := rowMajor_lt origin
    omega
  · rw [← commutes_iff large tiles]
    exact ⟨commutes_of_upscales fits toFloat large countable grid tiles distinct,
      upscales_of_commutes fits toFloat large countable grid tiles⟩

end

/-- The boxes of two voxels side by side. -/
def sideBySide : List (SizedBox (Fin 3)) := [⟨![0, 0, 0], ![1, 1, 1]⟩, ⟨![1, 0, 0], ![1, 1, 1]⟩]

theorem sideBySide_tiles : Tiles ![2, 1, 1] sideBySide where
  apart := by
    apply List.pairwise_pair.mpr
    intro point covers
    have left : point 0 < 0 + 1 := (covers.1 0).2
    have right : 1 ≤ point 0 := (covers.2 0).1
    omega
  covers point := by
    have covers : ∀ box : SizedBox (Fin 3), box.Covers point ↔
        (box.lower 0 ≤ point 0 ∧ point 0 < box.lower 0 + box.size 0) ∧
        (box.lower 1 ≤ point 1 ∧ point 1 < box.lower 1 + box.size 1) ∧
        (box.lower 2 ≤ point 2 ∧ point 2 < box.lower 2 + box.size 2) := fun box => by
      rw [SizedBox.Covers, Fin.forall_fin_succ, Fin.forall_fin_succ, Fin.forall_fin_one]
      rfl
    simp [sideBySide, covers, Fin.forall_fin_succ]
    omega

theorem upscales_doubled :
    (GhostBlockBrickedVolume.mk ⟨![4, 1, 1], by decide, by decide⟩ .uint8).Upscales (id : Nat → Nat) ![2, 1, 1]
      sideBySide := by
  refine (upscales_iff ⟨by decide, by decide⟩ id ?_ ?_ ?_ sideBySide_tiles ⟨0, 1, by decide⟩).2.mpr ?_
  · intro axis
    fin_cases axis <;> decide +kernel
  · intro box listed
    simp only [sideBySide, List.mem_cons, List.not_mem_nil, or_false] at listed
    obtain rfl | rfl := listed
    · exact ⟨by decide, by decide, by decide +kernel, by decide +kernel, by decide +kernel⟩
    · exact ⟨by decide, by decide, by decide +kernel, by decide +kernel, by decide +kernel⟩
  · decide +kernel
  · intro box listed solid axis
    simp only [sideBySide, List.mem_cons, List.not_mem_nil, or_false] at listed
    obtain rfl | rfl := listed
    · fin_cases axis <;> decide +kernel
    · fin_cases axis <;> decide +kernel

/-- Factors that are not all whole. -/
def oneAndAHalf : Fin 3 → ℚ := ![3 / 2, 1, 1]

theorem countable_oneAndAHalf : ∀ box ∈ sideBySide, Countable oneAndAHalf box := by
  intro box listed
  simp only [sideBySide, List.mem_cons, List.not_mem_nil, or_false] at listed
  obtain rfl | rfl := listed
  · exact ⟨by decide, by decide, by decide +kernel, by decide +kernel, by decide +kernel⟩
  · exact ⟨by decide, by decide, by decide +kernel, by decide +kernel, by decide +kernel⟩

/-- The calls on the two voxels of a source volume. -/
def sideBySideCalls (source : Index → Nat) : List (ScaledCall oneAndAHalf Nat nTasks) :=
  sideBySide.pmap (fun box own => callOn source 0 box own) countable_oneAndAHalf

/-- The second region is copied to voxel 1 instead of voxel 2, so that voxel 1, which should be a copy of voxel 0
of the source, is one of voxel 1, and voxel 2 is not written. -/
theorem upscales_not_by_half :
    let self : GhostBlockBrickedVolume := ⟨⟨![3, 1, 1], by decide, by decide⟩, .uint8⟩
    let source : Index → Nat := fun voxel => if voxel 0 = 0 then 5 else 7
    let stored := (self.store (id : Nat → Nat)).run ((sideBySideCalls source).map fun call => call.rows oneAndAHalf)
      fun _ => 0
    self.dimensions.size = scaledRegionSize oneAndAHalf ![2, 1, 1] ∧
      source (fun axis => ⌊((![1, 0, 0] : Index) axis : ℚ) / oneAndAHalf axis⌋.toNat) = 5 ∧
      self.getVoxel id stored ![1, 0, 0] = 7 ∧ self.getVoxel id stored ![2, 0, 0] = 0 ∧
      ∀ call ∈ sideBySideCalls source, ¬ (call.rows oneAndAHalf).region.Covers ![2, 0, 0] := by
  decide +kernel

end GhostBlockBrickedVolume

end Ospray.Structured
