import Ospray.Volume.OctantBounds

/-!
# Where the octant method is bounded

The corners of dual cells are moved into a box from zero to the last valid position. So the
octants at the lower faces of the bounding box have corners outside of it, or positions
outside of their cell, unless it begins at the origin, and those at its upper faces have
corners outside of it unless the last valid position is before its end.
-/

namespace Ospray.Amr

open Library.BoxTrees Library.NestedGrids

variable {data : List Brick} {amr : AMR data ℚ} {sorting : LevelSort data} {fuel : Nat} {C : CellRef ℚ} {P : Vec3}

theorem AMR.OctantBounded.corners_inside (bounded : amr.OctantBounded fuel P C) (built : amr.Built sorting)
    (enough : amr.accel.node.length ≤ fuel) (c : Corner) : amr.worldBounds.Contains
      (cornerPoint (amr.mirroredCorner (fun _ => initDual P C) fun _ => (initOctant P C).mirror) () c) := by
  obtain ⟨r, returns, -⟩ := bounded.returns
  have result := returns (data.length + 1) (Nat.le_succ _)
  rw [AMR.doOctant] at result
  obtain ⟨D, found, -⟩ := Option.bind_eq_some_iff.mp result
  exact readCorners_inside built enough found c

theorem Box3.exists_inside {box : Box3} (proper : box.Proper) (upper : ∀ axis, 0 < box.upper axis) {along : Fin 3}
    {x : ℚ} (low : box.lower along < x) (high : x < box.upper along) :
    ∃ P, box.Inside P ∧ P along = x ∧ ∀ axis, axis ≠ along → 0 < P axis := by
  have between : ∀ axis, max 0 (box.lower axis) < box.upper axis := fun axis => max_lt (upper axis) (proper axis)
  have above : ∀ axis, max 0 (box.lower axis) < (max 0 (box.lower axis) + box.upper axis) / 2 :=
    fun axis => by linarith [between axis]
  have below : ∀ axis, (max 0 (box.lower axis) + box.upper axis) / 2 < box.upper axis :=
    fun axis => by linarith [between axis]
  refine ⟨Function.update (fun axis => (max 0 (box.lower axis) + box.upper axis) / 2) along x, ?_,
    Function.update_self _ _ _, fun axis other => ?_⟩
  · intro axis
    by_cases own : axis = along
    · rw [own, Function.update_self]
      exact ⟨low, high⟩
    · rw [Function.update_of_ne own]
      exact ⟨(le_max_right _ _).trans_lt (above axis), below axis⟩
  · rw [Function.update_of_ne other]
    exact (le_max_left _ _).trans_lt (above axis)

namespace AMR.Hierarchy

variable (hierarchy : amr.Hierarchy sorting)
include hierarchy

/-- The cell that is found for a position is at the position that it is moved to. -/
theorem findLeafCell_place (enough : amr.accel.node.length ≤ fuel) (found : amr.findLeafCell fuel P = some C)
    (inside : amr.worldBounds.Contains (amr.clampToBounds P)) :
    C.width ∈ cellWidths data ∧ (∀ axis, C.pos axis = column C.width (amr.clampToBounds P axis) * C.width) ∧
      ∀ axis, amr.worldBounds.lower axis ≤ C.pos axis ∧ C.pos axis + C.width ≤ amr.worldBounds.upper axis := by
  obtain ⟨b, taken, contained, -, -⟩ := hierarchy.findLeafCell_eq enough inside
  obtain rfl := Option.some.inj (found.symm.trans taken)
  have valid := hierarchy.nested.valid _ (List.get_mem data b)
  have positive := valid.cellWidth
  have place := cellRef_pos valid amr.value (amr.clampToBounds P)
  refine ⟨mem_cellWidths.mpr ⟨_, List.get_mem data b, rfl⟩, place, fun axis => ?_⟩
  obtain ⟨low, high⟩ := contained axis
  have within := (foldl_extend data none hierarchy.built.root).2 _ (List.get_mem data b) axis
  have width : (AMR.cellRef amr.value b (amr.clampToBounds P)).width = (data.get b).cellWidth := rfl
  rw [place, width]
  simp only [Brick.worldBounds] at low high within
  have first : ((data.get b).box.lower axis : ℚ) ≤ column (data.get b).cellWidth (amr.clampToBounds P axis) := by
    exact_mod_cast (le_column_iff positive).mpr low
  have last : ((column (data.get b).cellWidth (amr.clampToBounds P axis) : ℤ) : ℚ) + 1 ≤
      (((data.get b).box.upper axis + 1 : Int) : ℚ) := by
    exact_mod_cast (column_lt_iff positive).mpr high
  constructor
  · exact within.1.trans (mul_le_mul_of_nonneg_right first positive.le)
  · rw [← add_one_mul]
    exact (mul_le_mul_of_nonneg_right last positive.le).trans within.2

/-- The corner away from a position that is not moved is next to its cell, and in the bounding box. -/
theorem far_corner (enough : amr.accel.node.length ≤ fuel) (bounded : amr.OctantBounded fuel P C)
    (inside : amr.worldBounds.Inside P) (still : ∀ axis, 0 ≤ P axis) (axis : Fin 3) :
    C.width ∈ cellWidths data ∧
      (amr.worldBounds.lower axis + C.width / 2 ≤ centerOf C axis ∧
        centerOf C axis + C.width / 2 ≤ amr.worldBounds.upper axis) ∧
      (P axis - C.width / 2 < centerOf C axis ∧ centerOf C axis ≤ P axis + C.width / 2) ∧
      amr.worldBounds.lower axis ≤ max 0 (min (centerOf C axis + direction (initOctant P C).mirror axis * C.width)
        (amr.maxValidPos axis)) ∧
      max 0 (min (centerOf C axis + direction (initOctant P C).mirror axis * C.width) (amr.maxValidPos axis)) <
        amr.worldBounds.upper axis := by
  have moved : amr.clampToBounds P = P := by
    funext axis
    rw [AMR.clampToBounds, min_eq_right (inside axis).2.le, max_eq_right (still axis)]
  obtain ⟨member, place, within⟩ := hierarchy.findLeafCell_place enough bounded.cell (moved.symm ▸ inside.contains)
  rw [moved] at place
  have positive := hierarchy.nested.regions.positive _ member
  have center : ∀ axis, centerOf C axis = middle C.width (column C.width (P axis)) := by
    intro axis
    rw [centerOf, place, middle]
    ring
  have inCell : InCell C.width (fun axis => column C.width (P axis)) P := by
    intro axis
    obtain ⟨low, high⟩ := (column_eq_iff positive).mp (rfl : column C.width (P axis) = _)
    exact ⟨low, high.le⟩
  have corner := bounded.corners_inside hierarchy.built enough (fun _ => true) axis
  have away : middle C.width (column C.width (P axis) + direction (initOctant P C).mirror axis) =
      centerOf C axis + direction (initOctant P C).mirror axis * C.width := by
    rw [center, middle, middle]
    push_cast
    ring
  rw [@mirrored_cornerPoint _ amr _ _ _ center positive inCell, AMR.cornerAt, cornerCell, if_pos rfl, away] at corner
  obtain ⟨low, high⟩ := (column_eq_iff positive).mp (rfl : column C.width (P axis) = _)
  have begins := place axis
  refine ⟨member, ?_, ?_, corner⟩
  · rw [centerOf]
    constructor <;> linarith [(within axis).1, (within axis).2]
  · rw [centerOf]
    constructor <;> linarith

theorem finest : ∃ width ∈ cellWidths data, 0 < width ∧ ∀ w ∈ cellWidths data, width ≤ w := by
  obtain ⟨coarse, wide, -, -⟩ := hierarchy.coarsest
  obtain ⟨width, member, least⟩ := (cellWidths data).exists_min_image id ⟨coarse, wide⟩
  exact ⟨width, member, hierarchy.nested.regions.positive _ member, least⟩

section Everywhere

variable (enough : amr.accel.node.length ≤ fuel)
  (everywhere : ∀ P, amr.worldBounds.Inside P → ∃ C, amr.OctantBounded fuel P C)
include enough everywhere

/-- Where the method is bounded everywhere, the bounding box ends after the origin, as no corner is before it. -/
theorem upper_pos (axis : Fin 3) : 0 < amr.worldBounds.upper axis := by
  obtain ⟨tree, overTree⟩ := hierarchy.built.over
  obtain ⟨C, bounded⟩ := everywhere (fun axis => (amr.worldBounds.lower axis + amr.worldBounds.upper axis) / 2) (by
    intro axis
    have extent := overTree.proper axis
    constructor <;> linarith)
  have corner := (bounded.corners_inside hierarchy.built enough C000 axis).2
  refine lt_of_le_of_lt ?_ corner
  rw [cornerPoint, AMR.mirroredCorner]
  split
  · exact le_max_left _ _
  · exact le_max_left _ _

/-- It begins at the origin or before it, as the corners at its lower faces would be outside. -/
theorem lower_nonpos (axis : Fin 3) : amr.worldBounds.lower axis ≤ 0 := by
  by_contra above
  rw [not_le] at above
  obtain ⟨tree, overTree⟩ := hierarchy.built.over
  have extent := overTree.proper axis
  obtain ⟨width, -, positive, least⟩ := hierarchy.finest
  have near : 0 < min (width / 4) ((amr.worldBounds.upper axis - amr.worldBounds.lower axis) / 2) :=
    lt_min (by linarith) (by linarith)
  have small := min_le_left (width / 4) ((amr.worldBounds.upper axis - amr.worldBounds.lower axis) / 2)
  have half := min_le_right (width / 4) ((amr.worldBounds.upper axis - amr.worldBounds.lower axis) / 2)
  obtain ⟨P, inside, at_, others⟩ := Box3.exists_inside overTree.proper (hierarchy.upper_pos enough everywhere)
    (lt_add_of_pos_right (amr.worldBounds.lower axis) near) (by linarith)
  have still : ∀ other, 0 ≤ P other := by
    intro other
    by_cases own : other = axis
    · rw [own, at_]
      linarith
    · exact (others other own).le
  obtain ⟨C, bounded⟩ := everywhere P inside
  obtain ⟨member, ⟨first, -⟩, ⟨-, beside⟩, corner, -⟩ := hierarchy.far_corner enough bounded inside still axis
  have wide := least _ member
  have before : P axis < centerOf C axis := by linarith
  have mirror : (initOctant P C).mirror axis = true := decide_eq_true before
  rw [direction, if_pos mirror] at corner
  obtain origin | next := le_max_iff.mp corner
  · linarith
  · have next := next.trans (min_le_left _ _)
    push_cast at next
    linarith

/-- It does not begin before it, as positions there would be taken to be in the cell at the origin. -/
theorem lower_nonneg (axis : Fin 3) : 0 ≤ amr.worldBounds.lower axis := by
  by_contra below
  rw [not_le] at below
  obtain ⟨tree, overTree⟩ := hierarchy.built.over
  have ends := hierarchy.upper_pos enough everywhere
  obtain ⟨P, inside, at_, others⟩ := @Box3.exists_inside _ overTree.proper ends axis (amr.worldBounds.lower axis / 2)
    (by linarith) (by linarith [ends axis])
  have moved : amr.clampToBounds P axis = 0 := by
    rw [AMR.clampToBounds, max_eq_left]
    exact (min_le_right _ _).trans (by rw [at_]; linarith)
  have contained : amr.worldBounds.Contains (amr.clampToBounds P) := by
    intro other
    by_cases own : other = axis
    · rw [own, moved]
      exact ⟨below.le, ends axis⟩
    · rw [AMR.clampToBounds, min_eq_right (inside other).2.le, max_eq_right (others other own).le]
      exact inside.contains other
  obtain ⟨C, bounded⟩ := everywhere P inside
  obtain ⟨member, place, -⟩ := hierarchy.findLeafCell_place enough bounded.cell contained
  have positive := hierarchy.nested.regions.positive _ member
  have origin : centerOf C axis = C.width / 2 := by
    rw [centerOf, place, moved, column, zero_div, Int.floor_zero]
    ring
  have weight : (initOctant P C).weights axis ≤ 1 := (bounded.weights _ .refl axis).2
  rw [initOctant_weights, origin, div_le_one₀ (half_pos positive), at_, abs_le] at weight
  linarith [weight.1]

/-- The last valid position is before its end, as the corners at its upper faces would be outside. -/
theorem maxValidPos_lt (axis : Fin 3) : amr.maxValidPos axis < amr.worldBounds.upper axis := by
  by_contra after
  rw [not_lt] at after
  obtain ⟨tree, overTree⟩ := hierarchy.built.over
  have extent := overTree.proper axis
  have origin := hierarchy.lower_nonneg enough everywhere
  obtain ⟨width, -, positive, least⟩ := hierarchy.finest
  have near : 0 < min (width / 4) ((amr.worldBounds.upper axis - amr.worldBounds.lower axis) / 2) :=
    lt_min (by linarith) (by linarith)
  have small := min_le_left (width / 4) ((amr.worldBounds.upper axis - amr.worldBounds.lower axis) / 2)
  have half := min_le_right (width / 4) ((amr.worldBounds.upper axis - amr.worldBounds.lower axis) / 2)
  obtain ⟨P, inside, at_, -⟩ := Box3.exists_inside overTree.proper (hierarchy.upper_pos enough everywhere)
    (by linarith) (sub_lt_self (amr.worldBounds.upper axis) near)
  obtain ⟨C, bounded⟩ := everywhere P inside
  obtain ⟨member, ⟨-, last⟩, ⟨beside, -⟩, -, corner⟩ := hierarchy.far_corner enough bounded inside
    (fun other => (origin other).trans (inside other).1.le) axis
  have wide := least _ member
  have beyond : ¬P axis < centerOf C axis := by linarith
  have mirror : (initOctant P C).mirror axis = false := decide_eq_false beyond
  rw [direction, if_neg (by rw [mirror]; exact Bool.false_ne_true)] at corner
  have next := (le_max_right _ _).trans_lt corner
  obtain next | next := min_lt_iff.mp next
  · push_cast at next
    linarith
  · exact absurd next (not_lt.mpr after)

end Everywhere

end AMR.Hierarchy

/-- **The octant method is bounded where the grids begin at the origin.** In a hierarchy whose levels are nested, the
method is well defined at every position strictly inside of the bounding box, with a value between those of leaf
cells, exactly if the box begins at the origin and the last valid position is before its end. -/
theorem AMR.octant_bounded (hierarchy : amr.Hierarchy sorting)
    (near : ∀ b ∈ data, ∀ axis, amr.worldBounds.upper axis - b.cellWidth ≤ amr.maxValidPos axis)
    (enough : amr.accel.node.length ≤ fuel) :
    (∀ P, amr.worldBounds.Inside P → ∃ C, amr.OctantBounded fuel P C) ↔
      ∀ axis, amr.worldBounds.lower axis = 0 ∧ amr.maxValidPos axis < amr.worldBounds.upper axis := by
  constructor
  · intro everywhere axis
    have first := hierarchy.lower_nonpos enough everywhere axis
    exact ⟨le_antisymm first (hierarchy.lower_nonneg enough everywhere axis),
      hierarchy.maxValidPos_lt enough everywhere axis⟩
  · intro limits P inside
    have regular : amr.Regular sorting :=
      { hierarchy with
        origin := fun axis => (limits axis).1
        last := fun b present axis => ⟨near b present axis, (limits axis).2⟩ }
    exact regular.octantBounded enough inside.contains

/-! ## Small hierarchies -/

theorem properlyNested_singleton {b : Brick} (valid : b.Valid) : ProperlyNested [b] where
  valid := List.forall_mem_singleton.mpr valid
  levels first present second listed := by
    rw [List.mem_singleton.mp present, List.mem_singleton.mp listed]
    exact iff_of_false (lt_irrefl _) (lt_irrefl _)
  divides first present second listed isNext := by
    rw [List.mem_singleton.mp present, List.mem_singleton.mp listed] at isNext
    exact absurd isNext.1 (lt_irrefl _)
  aligned first present second listed isNext := by
    rw [List.mem_singleton.mp present, List.mem_singleton.mp listed] at isNext
    exact absurd isNext.1 (lt_irrefl _)
  inside first present second listed isNext := by
    rw [List.mem_singleton.mp present, List.mem_singleton.mp listed] at isNext
    exact absurd isNext.1 (lt_irrefl _)

/-- In the brick that begins at one, the octant at its lower corner has a corner outside. -/
theorem octant_unbounded : ∃ amr : AMR shifted ℚ, amr.Hierarchy (LevelSort.stable shifted) ∧
    (∀ axis, amr.maxValidPos axis = nextafter (amr.worldBounds.upper axis) (-1)) ∧
    amr.worldBounds.Inside (fun _ => 5 / 4) ∧
    ∀ fuel, amr.accel.node.length ≤ fuel → ∀ C, ¬amr.OctantBounded fuel (fun _ => 5 / 4) C := by
  obtain ⟨amr, built, bounds, last, voxels, values⟩ := exists_built_shifted
    (fun bounds axis => nextafter (bounds.upper axis) (-1)) (fun _ index => (index : ℚ)) fun _ index => index
  have faces : (shifted.head (by decide)).worldBounds = amr.worldBounds := by
    rw [bounds]
    exact Box.ext (funext (by decide +kernel)) (funext (by decide +kernel))
  have hierarchy : amr.Hierarchy (LevelSort.stable shifted) :=
    { built
      nested := properlyNested_singleton (built.valid _ List.mem_cons_self)
      covered := fun point inside => ⟨_, List.mem_cons_self, rfl, faces.symm ▸ inside⟩
      raw := voxels.trans values.symm }
  have inside : amr.worldBounds.Inside (fun _ => 5 / 4) := by
    rw [bounds]
    intro axis
    constructor <;> norm_num
  refine ⟨amr, hierarchy, congrFun last, inside, fun fuel enough C bounded => ?_⟩
  obtain ⟨member, ⟨first, final⟩, -, corner, -⟩ := hierarchy.far_corner enough bounded inside
    (fun _ => by norm_num) 0
  obtain ⟨b, present, width⟩ := mem_cellWidths.mp member
  rw [List.mem_singleton.mp present] at width
  rw [bounds, ← width] at first final
  have center : centerOf C 0 = 3 / 2 := by
    norm_num at first final
    linarith
  have mirror : (initOctant (fun _ => 5 / 4) C).mirror 0 = true := decide_eq_true (by rw [center]; norm_num)
  rw [direction, if_pos mirror, center, ← width, bounds] at corner
  obtain origin | next := le_max_iff.mp corner
  · norm_num at origin
  · have next := next.trans (min_le_left _ _)
    norm_num at next

/-- The bricks of the small example are nested. -/
theorem properlyNested_nested : ProperlyNested nested where
  valid := nested_valid
  levels := by decide +kernel
  divides b present next listed isNext := by
    simp only [nested, List.mem_cons, List.not_mem_nil, or_false] at present listed
    obtain rfl | rfl := present <;> obtain rfl | rfl := listed
    · exact ⟨1, by norm_num⟩
    · exact absurd isNext.1 (by decide)
    · exact ⟨2, by norm_num [cube]⟩
    · exact ⟨1, by norm_num⟩
  aligned b present next listed isNext axis := by
    simp only [nested, List.mem_cons, List.not_mem_nil, or_false] at present listed
    obtain rfl | rfl := present <;> obtain rfl | rfl := listed
    · exact absurd isNext.1 (by decide)
    · exact absurd isNext.1 (by decide)
    · exact ⟨⟨0, by norm_num [cube, Brick.worldBounds]⟩, ⟨1, by norm_num [cube, Brick.worldBounds]⟩⟩
    · exact absurd isNext.1 (by decide)
  inside b present next listed isNext point contained := by
    simp only [nested, List.mem_cons, List.not_mem_nil, or_false] at present listed
    obtain rfl | rfl := present <;> obtain rfl | rfl := listed
    · exact absurd isNext.1 (by decide)
    · exact absurd isNext.1 (by decide)
    · refine ⟨_, List.mem_cons_self, rfl, fun axis => ?_⟩
      obtain ⟨low, high⟩ := contained axis
      norm_num [cube, Brick.worldBounds] at low high ⊢
      exact ⟨low, by linarith⟩
    · exact absurd isNext.1 (by decide)

/-- In them the method is bounded next to the face between both levels. -/
theorem octant_bounded_nested : ∃ amr : AMR nested ℚ, amr.Built (LevelSort.stable nested) ∧
    ∃ C, amr.OctantBounded amr.accel.node.length (fun _ => 7 / 4) C := by
  obtain ⟨amr, built, bounds, last, voxels, values⟩ := exists_built_nested
    (fun bounds axis => nextafter (bounds.upper axis) (-1)) (fun _ index => (index : ℚ)) fun _ index => index
  have final : ∀ axis, amr.maxValidPos axis = 4 - 1 / 2 ^ 22 := by
    intro axis
    rw [last, bounds]
    change nextafter 4 (-1) = _
    decide +kernel
  have faces : (nested.head (by decide)).worldBounds = amr.worldBounds := by
    rw [bounds]
    exact Box.ext (funext (by decide +kernel)) (funext (by decide +kernel))
  have hierarchy : amr.Hierarchy (LevelSort.stable nested) :=
    { built
      nested := properlyNested_nested
      covered := fun point inside => ⟨_, List.mem_cons_self, rfl, faces.symm ▸ inside⟩
      raw := voxels.trans values.symm }
  refine ⟨amr, built, (amr.octant_bounded hierarchy ?_ le_rfl).mpr ?_ _ ?_⟩
  · intro b present axis
    rw [final, bounds]
    change 4 - b.cellWidth ≤ _
    revert b
    decide +kernel
  · intro axis
    rw [final, bounds]
    norm_num
  · rw [bounds]
    intro axis
    constructor <;> norm_num

end Ospray.Amr
