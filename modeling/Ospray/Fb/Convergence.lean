import Mathlib
import Ospray.Library.Loops
import Ospray.Library.Subdivisions
import Ospray.Fb.TileError
import Ospray.Fb.ErrorRegions

/-!
# When a frame has converged

`refine` returns an error before it raises any. The frame loop stops when that error is
not above the threshold, and the next frame would render the tiles that are above it.
Both agree: the mean of errors above the threshold is above it, and where there is none
no region is raised.

The loop of `refine` is followed region by region. Each iteration raises the tiles of
one region or none, so what is said about a call is an induction on its iterations.
-/

namespace Ospray

open Library.Loops Library.Subdivisions

variable {K : Type}

/-- The tiles that `LocalTiledLoadBalancer::renderFrame` does not skip, in the order of
its tasks. -/
def renderedTiles [LinearOrder K] (tileErrors : TileError K) (errorThreshold : K) : List Vec2i :=
  ((List.range tileErrors.tiles).map fun taskIndex =>
    let tile_y := taskIndex / tileErrors.numTiles.x
    (⟨taskIndex - tile_y * tileErrors.numTiles.x, tile_y⟩ : Vec2i)).filter
      fun tileID => ¬ tileErrors.get tileID ≤ errorThreshold

/-! ## The returned error -/

section Mean

theorem foldl_max_le_iff {α : Type} [LinearOrder α] (entries : List α) (start bound : α) :
    entries.foldl max start ≤ bound ↔ start ≤ bound ∧ ∀ entry ∈ entries, entry ≤ bound := by
  induction entries generalizing start with
  | nil => simp
  | cons entry rest inductionHypothesis =>
    rw [List.foldl_cons, inductionHypothesis, max_le_iff]
    simp only [List.mem_cons, forall_eq_or_imp, and_assoc]

variable [Field K] [LinearOrder K] [IsStrictOrderedRing K]

/-- The sum of errors above a threshold, if it is finite. -/
theorem sum_above {errorThreshold : K} (errors : List (WithTop K))
    (above : ∀ err ∈ errors, (errorThreshold : WithTop K) < err) (sum : K)
    (total : errors.sum = sum) :
    errors.length * errorThreshold ≤ sum ∧
      (errors ≠ [] → errors.length * errorThreshold < sum) := by
  induction errors generalizing sum with
  | nil =>
    have zero : (0 : K) = sum := WithTop.coe_injective total
    simp [← zero]
  | cons err rest inductionHypothesis =>
    rw [List.sum_cons, WithTop.add_eq_coe] at total
    obtain ⟨first, others, isFirst, isOthers, rfl⟩ := total
    have larger := above err List.mem_cons_self
    rw [← isFirst, WithTop.coe_lt_coe] at larger
    obtain ⟨atLeast, -⟩ := inductionHypothesis
      (fun err member => above err (List.mem_cons_of_mem _ member)) others isOthers.symm
    have together : ((err :: rest).length : K) * errorThreshold =
        errorThreshold + rest.length * errorThreshold := by
      rw [List.length_cons]
      push_cast
      ring
    rw [together]
    have less := add_lt_add_of_lt_of_le larger atLeast
    exact ⟨less.le, fun _ => less⟩

theorem mean_above {errorThreshold : K} {errors : List (WithTop K)} (some_ : errors ≠ [])
    (above : ∀ err ∈ errors, (errorThreshold : WithTop K) < err) :
    (errorThreshold : WithTop K) < errors.sum.map (· / (errors.length : K)) := by
  cases total : errors.sum with
  | top => exact WithTop.coe_lt_top _
  | coe sum =>
    have positive : (0 : K) < errors.length := by
      exact_mod_cast List.length_pos_iff.mpr some_
    have less := (sum_above errors above sum total).2 some_
    rw [WithTop.map_coe, WithTop.coe_lt_coe, lt_div_iff₀ positive, mul_comm]
    exact less

/-- The returned error is at most the threshold when all errors are. -/
theorem meanError_le_iff {errorThreshold : K} (positive : 0 < errorThreshold)
    (self : TileError K) : self.meanError errorThreshold ≤ errorThreshold ↔
      ∀ tile < self.tiles, self.tileErrorBuffer tile ≤ errorThreshold := by
  have start : (0 : WithTop K) ≤ errorThreshold := by
    rw [← WithTop.coe_zero, WithTop.coe_le_coe]
    exact positive.le
  have all : (∀ err ∈ (List.range self.tiles).map self.tileErrorBuffer, err ≤ errorThreshold) ↔
      ∀ tile < self.tiles, self.tileErrorBuffer tile ≤ errorThreshold := by
    simp
  rw [← all]
  unfold TileError.meanError
  dsimp only
  generalize (List.range self.tiles).map self.tileErrorBuffer = errors
  split
  · next none_ =>
    rw [foldl_max_le_iff]
    exact ⟨fun bounded => bounded.2, fun bounded => ⟨start, bounded⟩⟩
  · next some_ =>
    have above := mean_above some_ fun err member => of_decide_eq_true (List.mem_filter.mp member).2
    constructor
    · intro low
      exact absurd low (not_le.mpr above)
    · intro bounded
      refine absurd (List.filter_eq_nil_iff.mpr fun err member => ?_) some_
      simpa using bounded err member

end Mean

/-! ## The raised errors -/

theorem mem_indices {self : TileError K} {region : Region}
    (columns : region.upper.x ≤ self.numTiles.x) {tile : Vec2i} (inside : tile.x < self.numTiles.x) :
    tile.y * self.numTiles.x + tile.x ∈ self.indices region ↔ region.Contains tile := by
  unfold TileError.indices Region.Contains
  simp only [List.mem_map, mem_chunkLanes, Region.size]
  constructor
  · rintro ⟨⟨row, column⟩, ⟨rows, lanes⟩, same⟩
    dsimp only at rows lanes same
    obtain ⟨sameRow, sameColumn⟩ := stride_injective (by omega) inside same
    omega
  · rintro ⟨⟨left, right⟩, bottom, top⟩
    refine ⟨(tile.y - region.lower.y, tile.x - region.lower.x), ⟨by omega, by omega⟩, ?_⟩
    rw [Nat.add_sub_of_le left, Nat.add_sub_of_le bottom]

theorem indices_lt {self : TileError K} {region : Region}
    (columns : region.upper.x ≤ self.numTiles.x) (rows : region.upper.y ≤ self.numTiles.y)
    {index : Nat} (member : index ∈ self.indices region) : index < self.tiles := by
  unfold TileError.indices at member
  obtain ⟨⟨row, column⟩, inside, rfl⟩ := List.mem_map.mp member
  obtain ⟨lanes, chunks⟩ := (mem_chunkLanes _ _ _).mp inside
  simp only [Region.size] at lanes chunks
  rw [TileError.tiles, Nat.mul_comm self.numTiles.x]
  dsimp only
  exact stride_lt (by omega) (by omega)

theorem indices_congr {self other : TileError K} (tiles : other.numTiles = self.numTiles)
    (region : Region) : other.indices region = self.indices region := by
  unfold TileError.indices
  rw [tiles]

theorem get_eq {self : TileError K} (positive : 0 < self.tiles) (tile : Vec2i) :
    self.get tile = self.tileErrorBuffer (tile.y * self.numTiles.x + tile.x) := by
  rw [TileError.get, if_neg positive.ne']

section Raised

variable [Field K] [LinearOrder K] (nextafter : K → K)

/-- What an iteration does: it examines a region there is, and raises the errors of its
tiles when one of them is above the threshold. -/
structure Examines (errorThreshold : K) (before : TileError K) (region : Region)
    (after : TileError K) : Prop where
  present : region ∈ before.errorRegion
  tiles : after.numTiles = before.numTiles
  changes : Changes RegionCut before.errorRegion after.errorRegion
  errors : after.tileErrorBuffer =
    if (errorThreshold : WithTop K) < ((before.indices region).map before.tileErrorBuffer).foldl max 0
    then (before.raise nextafter region errorThreshold).tileErrorBuffer
    else before.tileErrorBuffer

/-- Iterations one after the other, with the states they find. -/
inductive Refines (errorThreshold : K) :
    TileError K → List (TileError K × Region) → TileError K → Prop where
  | done (self : TileError K) : Refines errorThreshold self [] self
  | examine {before next after : TileError K} {region : Region}
      {rest : List (TileError K × Region)}
      (examines : Examines nextafter errorThreshold before region next)
      (refines : Refines errorThreshold next rest after) :
      Refines errorThreshold before ((before, region) :: rest) after

/-- The loop of `refine` is a chain of such iterations. -/
theorem iterations_refines (errorThreshold : K) (pending : List Region) (self : TileError K)
    {kept fresh : List Region} (regions : self.errorRegion = kept ++ (pending ++ fresh)) :
    Refines nextafter errorThreshold self
      (self.iterations nextafter errorThreshold kept.length pending.length)
      (self.refineRegions nextafter errorThreshold kept.length pending.length) := by
  induction size : pending.length generalizing self kept pending fresh with
  | zero => exact .done self
  | succ remaining inductionHypothesis =>
    obtain ⟨region, others, rfl⟩ := List.exists_cons_of_length_eq_add_one size
    obtain rfl : others.length = remaining := Nat.succ.inj size
    obtain ⟨kept', pending', fresh', next, index, same, changed⟩ :=
      refineStep_regions nextafter errorThreshold self regions
    have refines := inductionHypothesis pending' _ next same.length_eq
    rw [← index] at refines
    have current : self.errorRegion.getD kept.length ⟨⟨0, 0⟩, ⟨0, 0⟩⟩ = region := by
      rw [regions]
      simp
    obtain ⟨tiles, errors⟩ :=
      refineStep_errors nextafter errorThreshold self kept.length others.length
    rw [current] at errors
    rw [refineRegions_succ, TileError.iterations, current]
    refine .examine ⟨?_, tiles, changed, errors⟩ refines
    rw [regions]
    simp

theorem refine_refines (errorThreshold : K) {self : TileError K} (positive : 0 < self.tiles) :
    Refines nextafter errorThreshold self (self.refineIterations nextafter errorThreshold)
      (self.refine nextafter errorThreshold).2 := by
  rw [TileError.refineIterations, TileError.refine, if_neg positive.ne', if_neg positive.ne']
  by_cases above : 0 < errorThreshold
  · rw [if_pos above]
    have whole : self.errorRegion = [] ++ (self.errorRegion ++ []) := by simp
    exact iterations_refines nextafter errorThreshold self.errorRegion self whole
  · rw [if_neg above]
    exact .done self

variable {nextafter} {errorThreshold : K} {self after : TileError K}
  {iterations : List (TileError K × Region)}

theorem Examines.le {region : Region} (examines : Examines nextafter errorThreshold self region after)
    (tile : Nat) : self.tileErrorBuffer tile ≤ after.tileErrorBuffer tile := by
  rw [examines.errors]
  split
  · exact raise_le nextafter self region errorThreshold tile
  · exact le_rfl

theorem Refines.le (refines : Refines nextafter errorThreshold self iterations after) (tile : Nat) :
    self.tileErrorBuffer tile ≤ after.tileErrorBuffer tile := by
  induction refines with
  | done => exact le_rfl
  | examine examines _ inductionHypothesis => exact (examines.le tile).trans inductionHypothesis

theorem Refines.tiles (refines : Refines nextafter errorThreshold self iterations after) :
    after.numTiles = self.numTiles := by
  induction refines with
  | done => rfl
  | examine examines _ inductionHypothesis => exact inductionHypothesis.trans examines.tiles

theorem Examines.raised {region : Region} (above : errorThreshold < nextafter errorThreshold)
    (examines : Examines nextafter errorThreshold self region after) {high tile : Nat}
    (inRegion : high ∈ self.indices region) (exceeds : errorThreshold < self.tileErrorBuffer high)
    (member : tile ∈ self.indices region) : errorThreshold < after.tileErrorBuffer tile := by
  have exceeded : (errorThreshold : WithTop K) <
      ((self.indices region).map self.tileErrorBuffer).foldl max 0 := by
    by_contra low
    have bounded := ((foldl_max_le_iff _ _ _).mp (not_lt.mp low)).2
    exact absurd exceeds (not_lt.mpr (bounded _ (List.mem_map_of_mem inRegion)))
  rw [examines.errors, if_pos exceeded]
  simp only [TileError.raise, if_pos member]
  exact lt_max_of_lt_right (WithTop.coe_lt_coe.mpr above)

theorem Refines.raised (above : errorThreshold < nextafter errorThreshold)
    (refines : Refines nextafter errorThreshold self iterations after)
    {iteration : TileError K × Region} (examined : iteration ∈ iterations) {high tile : Nat}
    (inRegion : high ∈ self.indices iteration.2) (exceeds : errorThreshold < self.tileErrorBuffer high)
    (member : tile ∈ self.indices iteration.2) : errorThreshold < after.tileErrorBuffer tile := by
  induction refines with
  | done => exact absurd examined List.not_mem_nil
  | examine examines refines inductionHypothesis =>
    rcases List.mem_cons.mp examined with rfl | later
    · exact (examines.raised above inRegion exceeds member).trans_le (refines.le tile)
    · rw [← indices_congr examines.tiles] at inRegion member
      exact inductionHypothesis later inRegion (exceeds.trans_le (examines.le high)) member

theorem Examines.invariant {region : Region}
    (examines : Examines nextafter errorThreshold self region after)
    (invariant : self.RegionInvariant) : after.RegionInvariant :=
  regionInvariant_changes examines.tiles examines.changes invariant

/-- While no error is above the threshold, none is raised. -/
theorem Refines.converged (positive : 0 < errorThreshold)
    (refines : Refines nextafter errorThreshold self iterations after)
    (invariant : self.RegionInvariant)
    (done : ∀ tile < self.tiles, self.tileErrorBuffer tile ≤ errorThreshold) :
    after.tileErrorBuffer = self.tileErrorBuffer := by
  induction refines with
  | done => rfl
  | @examine before next after region rest examines _ inductionHypothesis =>
    have unchanged : next.tileErrorBuffer = before.tileErrorBuffer := by
      obtain ⟨columns, rows⟩ := invariant.inside region examines.present
      rw [examines.errors, if_neg]
      rw [not_lt, foldl_max_le_iff]
      constructor
      · rw [← WithTop.coe_zero, WithTop.coe_le_coe]
        exact positive.le
      · intro err member
        obtain ⟨tile, inRegion, rfl⟩ := List.mem_map.mp member
        exact done tile (indices_lt columns rows inRegion)
    rw [← unchanged]
    apply inductionHypothesis (examines.invariant invariant)
    rw [TileError.tiles, examines.tiles, unchanged]
    exact done

/-- A tile that no region contains keeps its error. -/
theorem Refines.uncovered (refines : Refines nextafter errorThreshold self iterations after)
    (invariant : self.RegionInvariant) {tile : Vec2i} (inside : tile.x < self.numTiles.x)
    (outside : ¬ self.Covered tile) :
    after.tileErrorBuffer (tile.y * self.numTiles.x + tile.x) =
      self.tileErrorBuffer (tile.y * self.numTiles.x + tile.x) := by
  induction refines with
  | done => rfl
  | @examine before next after region rest examines _ inductionHypothesis =>
    have apart : tile.y * before.numTiles.x + tile.x ∉ before.indices region := by
      rw [mem_indices (invariant.inside region examines.present).1 inside]
      exact fun contained => outside ⟨region, examines.present, contained⟩
    have unchanged : next.tileErrorBuffer (tile.y * before.numTiles.x + tile.x) =
        before.tileErrorBuffer (tile.y * before.numTiles.x + tile.x) := by
      rw [examines.errors]
      split
      · simp only [TileError.raise, if_neg apart]
      · rfl
    have still : ¬ next.Covered tile := fun covers =>
      outside (covered_changes (fun _ _ _ cut => (regionCut_halves cut).1) examines.changes covers)
    rw [← examines.tiles] at inside unchanged ⊢
    exact (inductionHypothesis (examines.invariant invariant) inside still).trans unchanged

end Raised

/-! ## The next frame -/

section Claims

theorem forall_tiles {holds : Nat → Prop} {self : TileError K} (positive : 0 < self.tiles) :
    (∀ index < self.tiles, holds index) ↔ ∀ tile : Vec2i, tile.x < self.numTiles.x →
      tile.y < self.numTiles.y → holds (tile.y * self.numTiles.x + tile.x) := by
  have wide : 0 < self.numTiles.x := Nat.pos_of_mul_pos_right positive
  constructor
  · intro all tile column row
    apply all
    rw [TileError.tiles, Nat.mul_comm self.numTiles.x]
    exact stride_lt column row
  · intro all index inside
    have tile := all ⟨index % self.numTiles.x, index / self.numTiles.x⟩ (Nat.mod_lt index wide)
      (Nat.div_lt_of_lt_mul inside)
    rwa [Nat.div_add_mod' index] at tile

theorem renderedTiles_eq_nil [LinearOrder K] {self : TileError K} (positive : 0 < self.tiles)
    (errorThreshold : K) : renderedTiles self errorThreshold = [] ↔
      ∀ tile : Vec2i, tile.x < self.numTiles.x → tile.y < self.numTiles.y →
        self.get tile ≤ errorThreshold := by
  have wide : 0 < self.numTiles.x := Nat.pos_of_mul_pos_right positive
  simp only [renderedTiles, List.filter_eq_nil_iff, List.mem_map, List.mem_range,
    decide_eq_true_eq, not_not, forall_exists_index, and_imp, forall_apply_eq_imp_iff₂]
  rw [forall_tiles positive]
  refine forall_congr' fun tile => forall_congr' fun column => ?_
  have quotient : (tile.y * self.numTiles.x + tile.x) / self.numTiles.x = tile.y := by
    rw [Nat.mul_comm, Nat.mul_add_div wide, Nat.div_eq_of_lt column, Nat.add_zero]
  rw [quotient, Nat.add_sub_cancel_left]

variable [Field K] [LinearOrder K] [IsStrictOrderedRing K] {nextafter : K → K}

/-- For a positive threshold and regions that satisfy the invariant: the returned error is
at most the threshold exactly when all errors are after the call, that is when the next
frame renders no tile. Every region is examined, and one with a tile above the threshold
has all its tiles above it afterwards. No error is lowered, and tiles outside all regions
keep theirs. Errors need not be positive. -/
theorem refine_reports_convergence {errorThreshold : K} (positive : 0 < errorThreshold)
    (above : errorThreshold < nextafter errorThreshold) (self : TileError K)
    (invariant : self.RegionInvariant) :
    let result := self.refine nextafter errorThreshold
    let examined := (self.refineIterations nextafter errorThreshold).map Prod.snd
    (result.1 ≤ errorThreshold ↔ ∀ tile : Vec2i, tile.x < self.numTiles.x →
        tile.y < self.numTiles.y → result.2.get tile ≤ errorThreshold) ∧
      (result.1 ≤ errorThreshold ↔ renderedTiles result.2 errorThreshold = []) ∧
      examined.Perm self.errorRegion ∧
      (∀ region ∈ examined,
        (∃ tile, region.Contains tile ∧ errorThreshold < self.get tile) →
          ∀ tile, region.Contains tile → errorThreshold < result.2.get tile) ∧
      (∀ tile, self.get tile ≤ result.2.get tile) ∧
      ∀ tile : Vec2i, tile.x < self.numTiles.x → tile.y < self.numTiles.y →
        ¬ self.Covered tile → result.2.get tile = self.get tile := by
  intro result examined
  have refines := refine_refines nextafter errorThreshold invariant.positive
  have tiles : result.2.numTiles = self.numTiles := refines.tiles
  have positiveAfter : 0 < result.2.tiles := by
    rw [TileError.tiles, tiles]
    exact invariant.positive
  have perm : examined.Perm self.errorRegion := by
    simp only [examined, TileError.refineIterations]
    rw [if_neg invariant.positive.ne', if_pos positive]
    have whole : self.errorRegion = [] ++ (self.errorRegion ++ []) := by simp
    exact (iterations_regions nextafter errorThreshold self.errorRegion self whole).1
  have returned : result.1 = self.meanError errorThreshold := by
    simp only [result, TileError.refine]
    rw [if_neg invariant.positive.ne']
  -- Errors are only raised once one of them is above the threshold.
  have converges : result.1 ≤ errorThreshold ↔ ∀ tile : Vec2i, tile.x < self.numTiles.x →
      tile.y < self.numTiles.y → result.2.get tile ≤ errorThreshold := by
    rw [returned, meanError_le_iff positive]
    have raisedOnly : (∀ tile < self.tiles, self.tileErrorBuffer tile ≤ errorThreshold) ↔
        ∀ tile < self.tiles, result.2.tileErrorBuffer tile ≤ errorThreshold := by
      constructor
      · intro done tile inside
        rw [refines.converged positive invariant done]
        exact done tile inside
      · exact fun done tile inside => (refines.le tile).trans (done tile inside)
    rw [raisedOnly, forall_tiles invariant.positive]
    simp only [get_eq positiveAfter, tiles]
  refine ⟨converges, ?_, perm, ?_, (refine_le nextafter self errorThreshold).2, ?_⟩
  · rw [converges, renderedTiles_eq_nil positiveAfter, tiles]
  · rintro region member ⟨high, contains, exceeds⟩ tile containsToo
    obtain ⟨iteration, examinedHere, rfl⟩ := List.mem_map.mp member
    obtain ⟨columns, -⟩ := invariant.inside iteration.2 (perm.mem_iff.mp member)
    rw [get_eq invariant.positive] at exceeds
    rw [get_eq positiveAfter, tiles]
    exact refines.raised above examinedHere
      ((mem_indices columns (contains.1.2.trans_le columns)).mpr contains) exceeds
      ((mem_indices columns (containsToo.1.2.trans_le columns)).mpr containsToo)
  · intro tile column row outside
    rw [get_eq positiveAfter, get_eq invariant.positive, tiles]
    exact refines.uncovered invariant column outside

/-- Two tiles, one below the threshold and one above it: the returned error is above the
threshold, and the region raises the first tile. -/
theorem refine_reports_convergence_group :
    let self := ((TileError.make ⟨2, 1⟩ : TileError ℚ).update ⟨0, 0⟩ 1).update ⟨1, 0⟩ 9
    let result := self.refine (· + 1) 2
    result.1 = 9 ∧ (2 : WithTop ℚ) < result.2.get ⟨0, 0⟩ ∧ renderedTiles result.2 2 ≠ [] := by
  intro self result
  have invariant : self.RegionInvariant :=
    { positive := by decide
      proper := by decide
      inside := by decide
      apart := List.pairwise_singleton _ _ }
  obtain ⟨-, rendered, perm, raised, -⟩ :=
    @refine_reports_convergence ℚ _ _ _ (· + 1) 2 (by norm_num) (by norm_num) self invariant
  have returned : result.1 = 9 := by decide +kernel
  refine ⟨returned, ?_, ?_⟩
  · refine raised ⟨⟨0, 0⟩, ⟨2, 1⟩⟩ (perm.mem_iff.mpr List.mem_cons_self)
      ⟨⟨1, 0⟩, by unfold Region.Contains; decide, by decide +kernel⟩ ⟨0, 0⟩
      (by unfold Region.Contains; decide)
  · intro none_
    have low := rendered.mpr none_
    change result.1 ≤ 2 at low
    rw [returned] at low
    exact absurd low (by decide +kernel)

end Claims

end Ospray
