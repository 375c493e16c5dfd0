import Mathlib.Order.Interval.Set.Basic
import Ospray.Volume.Octant

/-!
# Methods of sampling

Three methods sample a volume and report the width of its cells. Both have a position in the
world, which is to be transformed into the one of the bricks by the origin and the spacing of
the grid. One of the methods reports its level without that, and the bounding box is not
the transformed one where the bricks do not begin at the origin.
-/

namespace Ospray.Amr

open Library.BoxTrees

variable {data : List Brick} {V : Type}

/-- `AMRVolume`, as far as `AMRVolume_setAMR` and `AMRVolume_set` make it -/
structure AMRVolume (data : List Brick) (V : Type) where
  amr : AMR data V
  finestLevelCellWidth : ℚ
  gridOrigin : Vec3
  gridSpacing : Vec3

namespace AMRVolume

/-- `AMRVolume_transformLocalToWorld` -/
def transformLocalToWorld (volume : AMRVolume data V) (localCoordinates : Vec3) : Vec3 := fun axis =>
  volume.gridOrigin axis + localCoordinates axis * volume.gridSpacing axis

/-- `AMRVolume_transformWorldToLocal` -/
def transformWorldToLocal (volume : AMRVolume data V) (worldCoordinates : Vec3) : Vec3 := fun axis =>
  1 / volume.gridSpacing axis * (worldCoordinates axis - volume.gridOrigin axis)

/-- `boundingBox` in `AMRVolume_set` -/
def boundingBox (volume : AMRVolume data V) : Box3 where
  lower axis := volume.gridOrigin axis + volume.amr.worldBounds.lower axis
  upper axis := volume.amr.worldBounds.lower axis + volume.gridOrigin axis +
    (volume.amr.worldBounds.upper axis - volume.amr.worldBounds.lower axis) * volume.gridSpacing axis

end AMRVolume

/-- The methods that can be installed. -/
inductive Method where
  | finest | current | octant
  deriving DecidableEq

section Samples

variable (volume : AMRVolume data ℚ) (fuel depth : Nat) (P : Vec3)

/-- `AMR_finest` -/
def AMR_finest : Option ℚ := do
  let lP := volume.transformWorldToLocal P
  let D ← volume.amr.dualCellAt fuel (initDualCell lP volume.finestLevelCellWidth)
  some (lerp (dualWeights lP volume.finestLevelCellWidth) fun c => (D c).value)

/-- `AMR_current` -/
def AMR_current : Option ℚ := do
  let lP := volume.transformWorldToLocal P
  let C ← volume.amr.findLeafCell fuel lP
  let D ← volume.amr.dualCellAt fuel (initDualCell lP C.width)
  some (lerp (dualWeights lP C.width) fun c => (D c).value)

/-- `AMR_octant` -/
def AMR_octant : Option ℚ := do
  let lP := volume.transformWorldToLocal P
  let C ← volume.amr.findLeafCell fuel lP
  volume.amr.doOctant fuel depth C lP

/-- `sample`, by the method that is installed -/
def sample : Method → Option ℚ
  | .finest => AMR_finest volume fuel P
  | .current => AMR_current volume fuel P
  | .octant => AMR_octant volume fuel depth P

end Samples

section Levels

variable (volume : AMRVolume data V) (fuel : Nat) (P : Vec3)

/-- `AMR_finestLevel`. Widths that are not numbers do not occur in exact arithmetic. -/
def AMR_finestLevel : Option ℚ := do
  let lP := volume.transformWorldToLocal P
  let C ← volume.amr.findLeafCell fuel lP
  some C.width

/-- `AMR_currentLevel` -/
def AMR_currentLevel : Option ℚ := do
  let C ← volume.amr.findLeafCell fuel P
  some C.width

/-- `AMR_octantLevel` -/
def AMR_octantLevel : Option ℚ := do
  let lP := volume.transformWorldToLocal P
  let C ← volume.amr.findLeafCell fuel lP
  some C.width

/-- `computeSampleLevel`, by the method that is installed -/
def computeSampleLevel : Method → Option ℚ
  | .finest => AMR_finestLevel volume fuel P
  | .current => AMR_currentLevel volume fuel P
  | .octant => AMR_octantLevel volume fuel P

end Levels

/-! ## Samples and levels -/

/-- The volume without an origin and a spacing. -/
def AMRVolume.inLocal (volume : AMRVolume data V) : AMRVolume data V :=
  { volume with gridOrigin := fun _ => 0, gridSpacing := fun _ => 1 }

theorem AMRVolume.inLocal_transform (volume : AMRVolume data V) (point : Vec3) :
    volume.inLocal.transformWorldToLocal point = point := by
  funext axis
  change 1 / 1 * (point axis - 0) = point axis
  ring

theorem sample_local (volume : AMRVolume data ℚ) (fuel depth : Nat) (P : Vec3) (method : Method) :
    sample volume fuel depth P method =
      sample volume.inLocal fuel depth (volume.transformWorldToLocal P) method := by
  cases method with
  | finest =>
    rw [sample, sample, AMR_finest, AMR_finest, AMRVolume.inLocal_transform]
    rfl
  | current =>
    rw [sample, sample, AMR_current, AMR_current, AMRVolume.inLocal_transform]
    rfl
  | octant =>
    rw [sample, sample, AMR_octant, AMR_octant, AMRVolume.inLocal_transform]
    rfl

/-- The width of the cells of the first brick in the leaf for a position. -/
def AMR.finestWidth (amr : AMR data V) (steps : Nat) (pos : Vec3) : Option ℚ :=
  (amr.leafBrickFor steps pos).map fun b => (data.get b).cellWidth

/-- A width is that of the bricks of the finest level that include the leaf for a position. -/
def AMR.FinestWidth (amr : AMR data V) (steps : Nat) (pos : Vec3) (width : ℚ) : Prop :=
  ∃ leaf region, amr.leafAt steps (amr.clampToBounds pos) = some leaf ∧ leaf.bounds = some region ∧
    ∃ b ∈ data, region.Within b.worldBounds ∧ b.cellWidth = width ∧
      ∀ other ∈ data, region.Within other.worldBounds → other.level ≤ b.level

/-- Bricks of one level have cells of one width. -/
def LevelsMatch (data : List Brick) : Prop :=
  ∀ b ∈ data, ∀ other ∈ data, b.level = other.level → b.cellWidth = other.cellWidth

theorem findLeafCell_width (amr : AMR data V) (steps : Nat) (pos : Vec3) :
    (amr.findLeafCell steps pos).map CellRef.width = amr.finestWidth steps pos := by
  rw [AMR.findLeafCell, AMR.finestWidth, Option.map_map]
  rfl

variable {amr : AMR data V} {sorting : LevelSort data} {steps : Nat} {pos : Vec3}

/-- The first brick in a leaf is one of the finest level there. -/
theorem finestWidth_iff (built : amr.Built sorting) (levels : LevelsMatch data)
    (enough : amr.accel.node.length ≤ steps) (width : ℚ) :
    amr.finestWidth steps pos = some width ↔ amr.FinestWidth steps pos width := by
  obtain ⟨tree, overTree⟩ := built.over
  have member := List.mem_of_getElem? (tree.leaves_findIndex (amr.clampToBounds pos))
  obtain ⟨present, cover⟩ := overTree.uniform _ member
  have proper := (tree.leaves_within overTree.proper _ member).2
  have listed : ∀ b, b ∈ sorting.sort (tree.find (amr.clampToBounds pos)).2 ↔
      (tree.find (amr.clampToBounds pos)).1.Within (data.get b).worldBounds := by
    intro b
    rw [(sorting.perm _).mem_iff]
    refine ⟨cover b, fun within => (present.overlaps b).mpr fun axis => ?_⟩
    exact (within.overlaps proper axis).symm
  have descending := sorting.descending (tree.find (amr.clampToBounds pos)).2
  rw [AMR.finestWidth, overTree.leafBrickFor enough]
  constructor
  · intro found
    obtain ⟨first, head, rfl⟩ := Option.map_eq_some_iff.mp found
    obtain ⟨rest, sorted⟩ := List.head?_eq_some_iff.mp head
    rw [sorted] at listed descending
    refine ⟨_, _, overTree.leafAt _ enough, rfl, _, List.get_mem data first,
      (listed first).mp List.mem_cons_self, rfl, fun other present within => ?_⟩
    obtain ⟨index, rfl⟩ := List.get_of_mem present
    obtain rfl | later := List.mem_cons.mp ((listed index).mpr within)
    · exact le_rfl
    · exact (List.pairwise_cons.mp descending).1 index later
  · rintro ⟨leaf, region, led, bounds, b, present, within, rfl, finest⟩
    obtain rfl := Option.some.inj ((overTree.leafAt _ enough).symm.trans led)
    obtain rfl := Option.some.inj bounds
    obtain ⟨index, rfl⟩ := List.get_of_mem present
    obtain ⟨first, rest, sorted⟩ := List.exists_cons_of_ne_nil (List.ne_nil_of_mem ((listed index).mpr within))
    rw [sorted] at listed descending ⊢
    have upper := finest _ (List.get_mem data first) ((listed first).mp List.mem_cons_self)
    have lower : (data.get index).level ≤ (data.get first).level := by
      obtain rfl | later := List.mem_cons.mp ((listed index).mpr within)
      · exact le_rfl
      · exact (List.pairwise_cons.mp descending).1 index later
    rw [List.head?_cons, Option.map_some, Option.some.injEq]
    exact levels _ (List.get_mem data first) _ (List.get_mem data index) (le_antisymm upper lower)

/-- For a position in the bounding box, it is one of the finest level among those that hold it. -/
theorem finestWidth_of_contains (built : amr.Built sorting) (levels : LevelsMatch data)
    (enough : amr.accel.node.length ≤ steps) {b : Brick} (present : b ∈ data)
    (contained : b.worldBounds.Contains (amr.clampToBounds pos))
    (finest : ∀ other ∈ data, other.worldBounds.Contains (amr.clampToBounds pos) → other.level ≤ b.level) :
    amr.finestWidth steps pos = some b.cellWidth := by
  obtain ⟨tree, overTree⟩ := built.over
  have inside := ((foldl_extend data none built.root).2 b present).contains contained
  have member := List.mem_of_getElem? (tree.leaves_findIndex (amr.clampToBounds pos))
  rw [finestWidth_iff built levels enough]
  refine ⟨_, _, overTree.leafAt _ enough, rfl, b, present, ?_, rfl, fun other present within => ?_⟩
  · obtain ⟨index, rfl⟩ := List.get_of_mem present
    exact (overTree.uniform _ member).2 index ((overTree.mem_find inside index).mpr contained)
  · exact finest other present (within.contains (tree.find_contains inside))

/-- The level that a method reports is the one at the local position, unless it is reported for the position in the
world. -/
theorem level_agrees_iff (volume : AMRVolume data V) (fuel : Nat) (P : Vec3) (method : Method) :
    computeSampleLevel volume fuel P method =
        (volume.amr.findLeafCell fuel (volume.transformWorldToLocal P)).map CellRef.width ↔
      (method = .current →
        volume.amr.finestWidth fuel P = volume.amr.finestWidth fuel (volume.transformWorldToLocal P)) := by
  have reports : ∀ pos, (do
      let C ← volume.amr.findLeafCell fuel pos
      some C.width) = (volume.amr.findLeafCell fuel pos).map CellRef.width :=
    fun _ => Option.map_eq_bind.symm
  cases method with
  | finest => exact iff_of_true (reports _) nofun
  | octant => exact iff_of_true (reports _) nofun
  | current =>
    rw [computeSampleLevel, AMR_currentLevel, reports, findLeafCell_width, findLeafCell_width]
    simp

/-! ## The bounding box -/

/-- The points of a box with its faces. -/
def closedBox (box : Box3) : Set Vec3 := Set.Icc box.lower box.upper

/-- The bounding box is the image of the bounds exactly where the spacing is not negative, and along each axis it is
one or the bricks begin at the origin. -/
theorem boundingBox_iff {volume : AMRVolume data V} (proper : volume.amr.worldBounds.Proper) :
    closedBox volume.boundingBox = volume.transformLocalToWorld '' closedBox volume.amr.worldBounds ↔
      ∀ axis, 0 ≤ volume.gridSpacing axis ∧
        (volume.amr.worldBounds.lower axis = 0 ∨ volume.gridSpacing axis = 1) := by
  have extent : ∀ axis, 0 < volume.amr.worldBounds.upper axis - volume.amr.worldBounds.lower axis :=
    fun axis => sub_pos.mpr (proper axis)
  constructor
  · intro same axis
    have corner : volume.transformLocalToWorld volume.amr.worldBounds.lower ∈ closedBox volume.boundingBox := by
      rw [same]
      exact ⟨_, Set.left_mem_Icc.mpr fun axis => (proper axis).le, rfl⟩
    have ordered : volume.boundingBox.lower ≤ volume.boundingBox.upper := corner.1.trans corner.2
    obtain ⟨point, inside, moved⟩ : volume.boundingBox.lower ∈
        volume.transformLocalToWorld '' closedBox volume.amr.worldBounds := by
      rw [← same]
      exact Set.left_mem_Icc.mpr ordered
    have spacing : 0 ≤ volume.gridSpacing axis := by
      have sides : volume.gridOrigin axis + volume.amr.worldBounds.lower axis ≤
          volume.amr.worldBounds.lower axis + volume.gridOrigin axis +
            (volume.amr.worldBounds.upper axis - volume.amr.worldBounds.lower axis) * volume.gridSpacing axis :=
        ordered axis
      exact nonneg_of_mul_nonneg_right (by linarith) (extent axis)
    refine ⟨spacing, ?_⟩
    -- The lower corner is moved onto itself.
    have least : volume.gridOrigin axis + volume.amr.worldBounds.lower axis ≤
        volume.gridOrigin axis + volume.amr.worldBounds.lower axis * volume.gridSpacing axis := corner.1 axis
    have onto : volume.gridOrigin axis + point axis * volume.gridSpacing axis =
        volume.gridOrigin axis + volume.amr.worldBounds.lower axis := congrFun moved axis
    have grows := mul_le_mul_of_nonneg_right (inside.1 axis) spacing
    have fixed : volume.amr.worldBounds.lower axis * (volume.gridSpacing axis - 1) = 0 := by linarith
    exact (mul_eq_zero.mp fixed).imp_right sub_eq_zero.mp
  · intro condition
    have fixed : ∀ axis, volume.amr.worldBounds.lower axis * volume.gridSpacing axis =
        volume.amr.worldBounds.lower axis := by
      intro axis
      obtain zero | one := (condition axis).2
      · rw [zero, zero_mul]
      · rw [one, mul_one]
    have lower : ∀ axis, volume.boundingBox.lower axis =
        volume.gridOrigin axis + volume.amr.worldBounds.lower axis * volume.gridSpacing axis := by
      intro axis
      rw [fixed]
      rfl
    have upper : ∀ axis, volume.boundingBox.upper axis =
        volume.gridOrigin axis + volume.amr.worldBounds.upper axis * volume.gridSpacing axis := by
      intro axis
      change volume.amr.worldBounds.lower axis + volume.gridOrigin axis +
        (volume.amr.worldBounds.upper axis - volume.amr.worldBounds.lower axis) * volume.gridSpacing axis = _
      rw [sub_mul, fixed]
      ring
    ext point
    constructor
    · rintro ⟨least, most⟩
      refine ⟨fun axis => if volume.gridSpacing axis = 0 then volume.amr.worldBounds.lower axis
        else (point axis - volume.gridOrigin axis) / volume.gridSpacing axis, ⟨fun axis => ?_, fun axis => ?_⟩, ?_⟩
      · dsimp only
        split
        · exact le_rfl
        · next nonzero =>
          rw [le_div_iff₀ ((condition axis).1.lt_of_ne' nonzero), le_sub_iff_add_le', ← lower]
          exact least axis
      · dsimp only
        split
        · exact (proper axis).le
        · next nonzero =>
          rw [div_le_iff₀ ((condition axis).1.lt_of_ne' nonzero), sub_le_iff_le_add', ← upper]
          exact most axis
      · funext axis
        rw [AMRVolume.transformLocalToWorld]
        split
        · next zero =>
          have low := least axis
          have high := most axis
          rw [lower, zero, mul_zero] at low
          rw [upper, zero, mul_zero] at high
          rw [zero, mul_zero]
          exact le_antisymm low high
        · next nonzero =>
          rw [div_mul_cancel₀ _ nonzero, add_sub_cancel]
    · rintro ⟨inner, inside, rfl⟩
      constructor
      · intro axis
        rw [lower]
        exact add_le_add_right (mul_le_mul_of_nonneg_right (inside.1 axis) (condition axis).1) _
      · intro axis
        rw [upper]
        exact add_le_add_right (mul_le_mul_of_nonneg_right (inside.2 axis) (condition axis).1) _

/-- **One coordinate frame.** All methods sample at the local position of a point. They report the width of the cells
there, except that the level of `current` is the one at the untransformed position: it agrees exactly where the two
are of one width. The bounding box is the transformed one exactly where no axis is mirrored, and each has a
spacing of one or bricks that begin at the origin. -/
theorem AMRVolume.methods_share_frame (volume : AMRVolume data ℚ) (built : volume.amr.Built sorting) (fuel : Nat)
    (enough : volume.amr.accel.node.length ≤ fuel) :
    (∀ depth P method, sample volume fuel depth P method =
      sample volume.inLocal fuel depth (volume.transformWorldToLocal P) method) ∧
    (∀ P method, computeSampleLevel volume fuel P method =
        (volume.amr.findLeafCell fuel (volume.transformWorldToLocal P)).map CellRef.width ↔
      (method = .current →
        volume.amr.finestWidth fuel P = volume.amr.finestWidth fuel (volume.transformWorldToLocal P))) ∧
    (LevelsMatch data → ∀ pos width,
      volume.amr.finestWidth fuel pos = some width ↔ volume.amr.FinestWidth fuel pos width) ∧
    ((∀ axis, volume.gridOrigin axis = 0 ∧ volume.gridSpacing axis = 1) → ∀ P,
      volume.transformWorldToLocal P = P) ∧
    (closedBox volume.boundingBox = volume.transformLocalToWorld '' closedBox volume.amr.worldBounds ↔
      ∀ axis, 0 ≤ volume.gridSpacing axis ∧
        (volume.amr.worldBounds.lower axis = 0 ∨ volume.gridSpacing axis = 1)) := by
  obtain ⟨tree, overTree⟩ := built.over
  refine ⟨sample_local volume fuel, level_agrees_iff volume fuel, fun levels pos width => ?_, fun default P => ?_,
    boundingBox_iff overTree.proper⟩
  · exact finestWidth_iff built levels enough width
  · funext axis
    rw [AMRVolume.transformWorldToLocal, (default axis).1, (default axis).2, sub_zero, div_one, one_mul]

/-! ## A spacing of two -/

/-- With a spacing of two, `current` reports the level of another cell, and where bricks do not begin at the origin
the bounding box is not the transformed one. -/
theorem methods_differ :
    (∃ volume : AMRVolume nested ℚ, volume.amr.Built (LevelSort.stable nested) ∧
      ∀ fuel, volume.amr.accel.node.length ≤ fuel →
        computeSampleLevel volume fuel (fun _ => 3) .current ≠
          (volume.amr.findLeafCell fuel (volume.transformWorldToLocal fun _ => 3)).map CellRef.width) ∧
    ∃ volume : AMRVolume shifted ℚ, volume.amr.Built (LevelSort.stable shifted) ∧
      closedBox volume.boundingBox ≠ volume.transformLocalToWorld '' closedBox volume.amr.worldBounds := by
  constructor
  · obtain ⟨amr, built, bounds, -⟩ := exists_built_nested (fun bounds => bounds.upper) (fun _ _ => (0 : ℚ)) fun _ _ => 0
    have levels : LevelsMatch nested := by
      unfold LevelsMatch
      decide +kernel
    have moved : ∀ x : ℚ, 0 ≤ x → x ≤ 4 → amr.clampToBounds (fun _ => x) = fun _ => x := by
      intro x low high
      funext axis
      rw [AMR.clampToBounds, bounds, min_eq_right high, max_eq_right low]
    refine ⟨⟨amr, 1, fun _ => 0, fun _ => 2⟩, built, fun fuel enough agrees => ?_⟩
    have same := (level_agrees_iff _ _ _ _).mp agrees rfl
    have transformed : AMRVolume.transformWorldToLocal (⟨amr, 1, fun _ => 0, fun _ => 2⟩ : AMRVolume nested ℚ)
        (fun _ => 3) = fun _ => 3 / 2 := by
      funext axis
      norm_num [AMRVolume.transformWorldToLocal]
    rw [transformed] at same
    have coarse : amr.finestWidth fuel (fun _ => 3) = some 2 := by
      apply @finestWidth_of_contains _ _ _ _ _ _ built levels enough (cube 0 2) List.mem_cons_self
      · rw [moved 3 (by norm_num) (by norm_num)]
        decide +kernel
      · rw [moved 3 (by norm_num) (by norm_num)]
        decide +kernel
    have fine : amr.finestWidth fuel (fun _ => 3 / 2) = some 1 := by
      apply @finestWidth_of_contains _ _ _ _ _ _ built levels enough (cube 1 1) (by simp [nested])
      · rw [moved (3 / 2) (by norm_num) (by norm_num)]
        decide +kernel
      · rw [moved (3 / 2) (by norm_num) (by norm_num)]
        decide +kernel
    exact absurd ((coarse.symm.trans same).trans fine) (by norm_num)
  · obtain ⟨amr, built, bounds, -⟩ := exists_built_shifted (fun bounds => bounds.upper) (fun _ _ => (0 : ℚ)) fun _ _ => 0
    refine ⟨⟨amr, 1, fun _ => 0, fun _ => 2⟩, built, fun same => ?_⟩
    obtain ⟨tree, overTree⟩ := built.over
    obtain ⟨-, zero | one⟩ := (boundingBox_iff overTree.proper).mp same 0
    · rw [bounds] at zero
      norm_num at zero
    · norm_num at one

theorem methods_share_frame_nested : ∃ volume : AMRVolume nested ℚ, volume.amr.Built (LevelSort.stable nested) ∧
    closedBox volume.boundingBox = volume.transformLocalToWorld '' closedBox volume.amr.worldBounds := by
  obtain ⟨amr, built, bounds, -⟩ := exists_built_nested (fun bounds => bounds.upper) (fun _ _ => (0 : ℚ)) fun _ _ => 0
  refine ⟨⟨amr, 1, fun _ => 0, fun _ => 2⟩, built, ?_⟩
  have frames := AMRVolume.methods_share_frame (⟨amr, 1, fun _ => 0, fun _ => 2⟩ : AMRVolume nested ℚ) built _ le_rfl
  apply frames.2.2.2.2.mpr
  intro axis
  rw [bounds]
  exact ⟨by norm_num, .inl rfl⟩

end Ospray.Amr
