import Mathlib.Data.Rat.Floor
import Ospray.Library.NestedGrids
import Ospray.Volume.DualLookup

/-!
# Levels

In a hierarchy that is properly nested, the bricks of each level are made of whole cells of
the next coarser one and lie inside of its bricks. The regions of the levels are nested
then, and the lookups find the least of the widths from one on whose region holds a point.
-/

namespace Ospray.Amr

open Library.BoxTrees Library.NestedGrids

variable {data : List Brick} {V : Type}

/-- The widths of all cells. -/
def cellWidths (data : List Brick) : Finset ℚ := (data.map Brick.cellWidth).toFinset

/-- The bricks with cells of some width. -/
def brickRegion (data : List Brick) (width : ℚ) (point : Vec3) : Prop :=
  ∃ b ∈ data, b.cellWidth = width ∧ b.worldBounds.Contains point

theorem mem_cellWidths {width : ℚ} : width ∈ cellWidths data ↔ ∃ b ∈ data, b.cellWidth = width := by
  rw [cellWidths, List.mem_toFinset, List.mem_map]

/-- A brick is of the next coarser level. -/
def NextCoarser (data : List Brick) (b next : Brick) : Prop :=
  next.level < b.level ∧ ∀ other ∈ data, other.level < b.level → other.level ≤ next.level

/-- The levels are nested: finer ones have smaller cells, which divide those of the next coarser one, and their bricks
are made of whole cells of it and lie inside of it. -/
structure ProperlyNested (data : List Brick) : Prop where
  valid : ∀ b ∈ data, b.Valid
  levels : ∀ b ∈ data, ∀ other ∈ data, other.level < b.level ↔ b.cellWidth < other.cellWidth
  divides : ∀ b ∈ data, ∀ next ∈ data, NextCoarser data b next → ∃ k : ℕ, next.cellWidth = k * b.cellWidth
  aligned : ∀ b ∈ data, ∀ next ∈ data, NextCoarser data b next → ∀ axis,
    (∃ n : ℤ, b.worldBounds.lower axis = n * next.cellWidth) ∧ ∃ n : ℤ, b.worldBounds.upper axis = n * next.cellWidth
  inside : ∀ b ∈ data, ∀ next ∈ data, NextCoarser data b next → ∀ point, b.worldBounds.Contains point →
    ∃ other ∈ data, other.level = next.level ∧ other.worldBounds.Contains point

theorem contains_of_sameCell {box : Box3} {width : ℚ} {p q : Vec3} (positive : 0 < width)
    (lower : ∀ axis, ∃ n : ℤ, box.lower axis = n * width) (upper : ∀ axis, ∃ n : ℤ, box.upper axis = n * width)
    (same : SameCell width p q) (contained : box.Contains p) : box.Contains q := by
  intro axis
  obtain ⟨low, high⟩ := contained axis
  obtain ⟨first, lower⟩ := lower axis
  obtain ⟨last, upper⟩ := upper axis
  rw [lower] at low ⊢
  rw [upper] at high ⊢
  rw [← le_column_iff positive] at low ⊢
  rw [← column_lt_iff positive] at high ⊢
  exact ⟨low.trans_eq (same axis), (same axis).symm.trans_lt high⟩

namespace ProperlyNested

variable (nested : ProperlyNested data)
include nested

theorem level_eq_iff {b other : Brick} (present : b ∈ data) (listed : other ∈ data) :
    b.level = other.level ↔ b.cellWidth = other.cellWidth := by
  have finer := nested.levels b present other listed
  have coarser := nested.levels other listed b present
  constructor
  · intro same
    exact le_antisymm (not_lt.mp (coarser.not.mp same.not_lt)) (not_lt.mp (finer.not.mp same.symm.not_lt))
  · intro same
    exact le_antisymm (not_lt.mp (finer.not.mpr same.not_lt)) (not_lt.mp (coarser.not.mpr same.symm.not_lt))

theorem nextCoarser_of_next {b next : Brick} (present : b ∈ data) (listed : next ∈ data)
    (isNext : Next (cellWidths data) b.cellWidth next.cellWidth) : NextCoarser data b next := by
  refine ⟨(nested.levels b present next listed).mpr isNext.1, fun other among coarser => ?_⟩
  have wider := (nested.levels b present other among).mp coarser
  have beyond := isNext.2 _ (mem_cellWidths.mpr ⟨other, among, rfl⟩) wider
  exact not_lt.mp ((nested.levels other among next listed).not.mpr (not_lt.mpr beyond))

/-- The regions of the levels are nested. -/
theorem regions : NestedRegions (cellWidths data) (brickRegion data) where
  positive width member := by
    obtain ⟨b, present, rfl⟩ := mem_cellWidths.mp member
    exact (nested.valid b present).cellWidth
  divides fine member coarse wide isNext := by
    obtain ⟨b, present, rfl⟩ := mem_cellWidths.mp member
    obtain ⟨next, listed, rfl⟩ := mem_cellWidths.mp wide
    exact nested.divides b present next listed (nested.nextCoarser_of_next present listed isNext)
  inside fine _ coarse wide isNext := by
    rintro p ⟨b, present, rfl, contained⟩
    obtain ⟨next, listed, rfl⟩ := mem_cellWidths.mp wide
    obtain ⟨other, among, level, holds⟩ := nested.inside b present next listed
      (nested.nextCoarser_of_next present listed isNext) p contained
    exact ⟨other, among, (nested.level_eq_iff among listed).mp level, holds⟩
  aligned fine _ coarse wide isNext := by
    rintro p q same ⟨b, present, rfl, contained⟩
    obtain ⟨next, listed, rfl⟩ := mem_cellWidths.mp wide
    have faces := nested.aligned b present next listed (nested.nextCoarser_of_next present listed isNext)
    exact ⟨b, present, rfl, contains_of_sameCell (nested.valid next listed).cellWidth (fun axis => (faces axis).1)
      (fun axis => (faces axis).2) same contained⟩
  cells width _ := by
    rintro p q same ⟨b, present, rfl, contained⟩
    exact ⟨b, present, rfl, contains_of_sameCell (nested.valid b present).cellWidth (fun axis => ⟨_, rfl⟩)
      (fun axis => ⟨_, rfl⟩) same contained⟩

end ProperlyNested

/-! ## Lookups -/

section Lists

variable {bricks : List (BrickPointer data)} {b : BrickPointer data} {width : ℚ}

/-- In a list with the finest bricks first, the one that is taken has the least width of those that are wide enough. -/
theorem firstBrick_least
    (ascending : bricks.Pairwise fun first second => (data.get first).cellWidth ≤ (data.get second).cellWidth)
    (taken : firstBrick width (bricks.map some ++ [none]) = some b) {other : BrickPointer data}
    (listed : other ∈ bricks) (wide : width ≤ (data.get other).cellWidth) :
    (data.get b).cellWidth ≤ (data.get other).cellWidth := by
  induction bricks with
  | nil => cases listed
  | cons first rest inductionHypothesis =>
    rw [List.pairwise_cons] at ascending
    rw [List.map_cons, List.cons_append, firstBrick] at taken
    split at taken
    · obtain rfl := Option.some.inj taken
      obtain rfl | later := List.mem_cons.mp listed
      · exact le_rfl
      · exact ascending.1 other later
    · next narrow =>
      obtain rfl | later := List.mem_cons.mp listed
      · exact absurd wide narrow
      · exact inductionHypothesis ascending.2 taken later

theorem firstBrick_head_iff
    (ascending : bricks.Pairwise fun first second => (data.get first).cellWidth ≤ (data.get second).cellWidth)
    (taken : firstBrick width (bricks.map some ++ [none]) = some b) :
    bricks.head? = some b ↔ ∀ other ∈ bricks, (data.get b).cellWidth ≤ (data.get other).cellWidth := by
  cases bricks with
  | nil => cases taken
  | cons first rest =>
    rw [List.pairwise_cons] at ascending
    rw [List.head?_cons, Option.some.injEq]
    constructor
    · rintro rfl other listed
      obtain rfl | later := List.mem_cons.mp listed
      · exact le_rfl
      · exact ascending.1 other later
    · intro finest
      have wide := (firstBrick_mem taken).2.trans (finest first List.mem_cons_self)
      rw [List.map_cons, List.cons_append, firstBrick, if_pos wide] at taken
      exact Option.some.inj taken

end Lists

/-- The values of leaf cells: what `findLeafCell` finds for the positions in the bounding box. -/
def AMR.leafValues (amr : AMR data V) (steps : Nat) : Set V :=
  {v | ∃ pos C, amr.worldBounds.Contains pos ∧ amr.findLeafCell steps pos = some C ∧ C.value = v}

section Lookups

variable {amr : AMR data V} {sorting : LevelSort data} {steps : Nat} {p : Vec3} {least : ℚ}

theorem ProperlyNested.ascending (nested : ProperlyNested data) (sorting : LevelSort data)
    (bricks : List (BrickPointer data)) :
    (sorting.sort bricks).Pairwise fun first second => (data.get first).cellWidth ≤ (data.get second).cellWidth := by
  refine (sorting.descending bricks).imp fun {first second} ordered => ?_
  by_contra coarser
  have finer := (nested.levels _ (List.get_mem data second) _ (List.get_mem data first)).mpr (not_le.mp coarser)
  exact absurd ordered (not_le.mpr finer)

/-- The brick of a single descent is one of the least width there is from the requested one on. -/
theorem brickAt_found (built : amr.Built sorting) (nested : ProperlyNested data)
    (enough : amr.accel.node.length ≤ steps) (inside : amr.worldBounds.Contains p) {b : BrickPointer data}
    (taken : amr.brickAt steps p least = some b) :
    (data.get b).worldBounds.Contains p ∧
      Found (cellWidths data) (brickRegion data) least p (data.get b).cellWidth := by
  obtain ⟨tree, overTree⟩ := built.over
  have sorted := sorting.perm (tree.find p).2
  rw [AMR.brickAt, overTree.leafAt p enough] at taken
  obtain ⟨listed, wide⟩ := firstBrick_mem taken
  have contained := (overTree.mem_find inside b).mp (sorted.mem_iff.mp listed)
  refine ⟨contained, mem_cellWidths.mpr ⟨_, List.get_mem data b, rfl⟩, wide, ⟨_, List.get_mem data b, rfl, contained⟩, ?_⟩
  rintro _ - wider ⟨other, present, rfl, holds⟩
  obtain ⟨index, rfl⟩ := List.get_of_mem present
  exact firstBrick_least (nested.ascending sorting _) taken
    (sorted.mem_iff.mpr ((overTree.mem_find inside index).mpr holds)) wider

theorem brickAt_isSome (built : amr.Built sorting) (enough : amr.accel.node.length ≤ steps)
    (inside : amr.worldBounds.Contains p) {width : ℚ} (holds : brickRegion data width p) (wide : least ≤ width) :
    ∃ b, amr.brickAt steps p least = some b := by
  obtain ⟨tree, overTree⟩ := built.over
  obtain ⟨b, present, rfl, contained⟩ := holds
  obtain ⟨index, rfl⟩ := List.get_of_mem present
  have listed := (sorting.perm _).mem_iff.mpr ((overTree.mem_find inside index).mpr contained)
  obtain ⟨found, taken⟩ := firstBrick_isSome listed wide
  refine ⟨found, ?_⟩
  rw [AMR.brickAt, overTree.leafAt p enough]
  exact taken

/-- The brick of a single descent is the first one of its leaf where no finer region holds the point. -/
theorem brickAt_finest_iff (built : amr.Built sorting) (nested : ProperlyNested data)
    (enough : amr.accel.node.length ≤ steps) (inside : amr.worldBounds.Contains p) {b : BrickPointer data}
    (taken : amr.brickAt steps p least = some b) : (∃ leaf, amr.leafAt steps p = some leaf ∧ finestBrick leaf = some b) ↔
      Finest (cellWidths data) (brickRegion data) (data.get b).cellWidth p := by
  obtain ⟨tree, overTree⟩ := built.over
  have sorted := sorting.perm (tree.find p).2
  rw [AMR.brickAt, overTree.leafAt p enough] at taken
  have head := firstBrick_head_iff (nested.ascending sorting _) taken
  simp only [overTree.leafAt p enough, Option.some.injEq, exists_eq_left', finestBrick_leafOf, head]
  constructor
  · rintro finest _ - ⟨other, present, rfl, holds⟩
    obtain ⟨index, rfl⟩ := List.get_of_mem present
    exact finest index (sorted.mem_iff.mpr ((overTree.mem_find inside index).mpr holds))
  · intro finest other listed
    have holds := (overTree.mem_find inside other).mp (sorted.mem_iff.mp listed)
    exact finest _ (mem_cellWidths.mpr ⟨_, List.get_mem data other, rfl⟩) ⟨_, List.get_mem data other, rfl, holds⟩

end Lookups

end Ospray.Amr
