import Ospray.Volume.AmrLevels
import Ospray.Volume.Octant

/-!
# The cells around an octant

An octant lies in a leaf cell, and the corners of its dual cell are in the cell itself and
the cells next to it, in those of them that the bounding box has. Where the cell found for a
corner is a coarser one, it begins at the octant, and the position that is passed on is in
its middle along the axes that lead there.
-/

namespace Ospray.Amr

open Library.BoxTrees Library.NestedGrids

variable {data : List Brick} {amr : AMR data ℚ} {sorting : LevelSort data}

/-- A hierarchy that is nested and covered by bricks of its root level. All lookups read the same values. -/
structure AMR.Hierarchy (amr : AMR data ℚ) (sorting : LevelSort data) : Prop where
  built : amr.Built sorting
  nested : ProperlyNested data
  covered : amr.Covered
  raw : amr.getVoxel = amr.value

/-- One for the octant method: it begins at the origin, and its last valid position is in the last cell of each
width. -/
structure AMR.Regular (amr : AMR data ℚ) (sorting : LevelSort data) : Prop extends amr.Hierarchy sorting where
  origin : ∀ axis, amr.worldBounds.lower axis = 0
  last : ∀ b ∈ data, ∀ axis, amr.worldBounds.upper axis - b.cellWidth ≤ amr.maxValidPos axis ∧
    amr.maxValidPos axis < amr.worldBounds.upper axis

namespace AMR.Hierarchy

variable (hierarchy : amr.Hierarchy sorting)
include hierarchy

theorem coarsest : ∃ width ∈ cellWidths data, (∀ w ∈ cellWidths data, w ≤ width) ∧
    ∀ p, amr.worldBounds.Contains p → ∃ b ∈ data, b.cellWidth = width ∧ b.worldBounds.Contains p := by
  obtain ⟨first, present⟩ := List.exists_mem_of_ne_nil _ hierarchy.built.some_
  obtain ⟨width, member, most⟩ := (cellWidths data).exists_max_image id ⟨_, mem_cellWidths.mpr ⟨first, present, rfl⟩⟩
  refine ⟨width, member, most, fun p inside => ?_⟩
  obtain ⟨b, listed, -, contained⟩ := hierarchy.covered p inside
  have own : b.cellWidth ∈ cellWidths data := mem_cellWidths.mpr ⟨b, listed, rfl⟩
  exact hierarchy.nested.regions.inside_coarser own member (most _ own) ⟨b, listed, rfl, contained⟩

/-- The bounding box ends with a cell of every width. -/
theorem upper_eq {width : ℚ} (member : width ∈ cellWidths data) (axis : Fin 3) :
    ∃ n : ℤ, amr.worldBounds.upper axis = n * width := by
  obtain ⟨tree, overTree⟩ := hierarchy.built.over
  obtain ⟨coarse, wide, most, cover⟩ := hierarchy.coarsest
  have positive := hierarchy.nested.regions.positive _ wide
  -- The brick that holds the last face of the coarsest grid ends with the bounding box.
  have face : amr.worldBounds.upper axis = column coarse (amr.worldBounds.upper axis) * coarse := by
    have low := (le_column_iff positive).mp (le_refl (column coarse (amr.worldBounds.upper axis)))
    by_contra beyond
    have below := lt_of_le_of_ne low (Ne.symm beyond)
    obtain ⟨b, present, same, contained⟩ := cover
      (Function.update amr.worldBounds.lower axis
        (max (amr.worldBounds.lower axis) (column coarse (amr.worldBounds.upper axis) * coarse))) (by
        intro along
        by_cases own : along = axis
        · subst own
          rw [Function.update_self]
          exact ⟨le_max_left _ _, max_lt (overTree.proper along) below⟩
        · rw [Function.update_of_ne own]
          exact ⟨le_rfl, overTree.proper along⟩)
    have after := (contained axis).2
    rw [Function.update_self, Brick.worldBounds, same] at after
    replace after := (le_max_right _ _).trans_lt after
    have within := (((foldl_extend data none hierarchy.built.root).2 b present) axis).2
    rw [Brick.worldBounds, same] at within
    have next : column coarse (amr.worldBounds.upper axis) < b.box.upper axis + 1 := by
      have cells := lt_of_mul_lt_mul_right after positive.le
      exact_mod_cast cells
    exact absurd ((le_column_iff positive).mpr within) (not_le.mpr next)
  obtain rfl | finer := (most width member).eq_or_lt
  · exact ⟨_, face⟩
  · obtain ⟨k, -, multiple⟩ := hierarchy.nested.regions.multiple member wide finer
    obtain ⟨count, face⟩ : ∃ n : ℤ, amr.worldBounds.upper axis = n * coarse := ⟨_, face⟩
    exact ⟨count * k, by rw [face, multiple]; push_cast; ring⟩

theorem exists_brickAt {fuel : Nat} (enough : amr.accel.node.length ≤ fuel) {p : Vec3}
    (inside : amr.worldBounds.Contains p) {least : ℚ} (below : ∃ w ∈ cellWidths data, least ≤ w) :
    ∃ b, amr.brickAt fuel p least = some b := by
  obtain ⟨coarse, -, most, cover⟩ := hierarchy.coarsest
  obtain ⟨w, member, wide⟩ := below
  exact brickAt_isSome hierarchy.built enough inside (cover p inside) (wide.trans (most w member))

end AMR.Hierarchy

/-! ## Leaf cells -/

/-- A cell that lookups find for positions in its leaf: one of some width, at a place of its grid, of which no finer
region holds the middle. -/
structure AMR.LeafCell (amr : AMR data ℚ) (fuel : Nat) (C : CellRef ℚ) (n : Fin 3 → ℤ) : Prop where
  width : C.width ∈ cellWidths data
  pos : ∀ axis, C.pos axis = n axis * C.width
  holds : brickRegion data C.width (centerOf C)
  finest : Finest (cellWidths data) (brickRegion data) C.width (centerOf C)
  value : C.value ∈ amr.leafValues fuel

variable {fuel : Nat} {C : CellRef ℚ} {n : Fin 3 → ℤ} {p : Vec3}

theorem AMR.LeafCell.center (leaf : amr.LeafCell fuel C n) (axis : Fin 3) :
    centerOf C axis = middle C.width (n axis) := by
  rw [centerOf, middle, leaf.pos]
  ring

theorem cellRef_pos {b : BrickPointer data} (valid : (data.get b).Valid) (read : BrickPointer data → Int → ℚ) (p : Vec3)
    (axis : Fin 3) : (AMR.cellRef read b p).pos axis =
      column (data.get b).cellWidth (p axis) * (data.get b).cellWidth := by
  have nonzero := valid.cellWidth.ne'
  have place : (p axis - (data.get b).worldBounds.lower axis) / (data.get b).cellWidth =
      p axis / (data.get b).cellWidth - (data.get b).box.lower axis := by
    rw [Brick.worldBounds, sub_div, mul_div_cancel_right₀ _ nonzero]
  change (data.get b).worldBounds.lower axis + (data.get b).cellAt p axis * (data.get b).cellWidth = _
  rw [valid.cellAt_eq, place, Int.floor_sub_intCast, column, Brick.worldBounds]
  push_cast
  ring

/-- The cell that is found for a position is that of the finest brick, where the position is in the bounding box once
it has been moved into the box of the lookup. -/
theorem AMR.Hierarchy.findLeafCell_eq (hierarchy : amr.Hierarchy sorting) (enough : amr.accel.node.length ≤ fuel)
    (inside : amr.worldBounds.Contains (amr.clampToBounds p)) :
    ∃ b, amr.findLeafCell fuel p = some (AMR.cellRef amr.value b (amr.clampToBounds p)) ∧
      (data.get b).worldBounds.Contains (amr.clampToBounds p) ∧
      amr.brickAt fuel (amr.clampToBounds p) 0 = some b ∧
      Finest (cellWidths data) (brickRegion data) (data.get b).cellWidth (amr.clampToBounds p) := by
  obtain ⟨coarse, wide, -, -⟩ := hierarchy.coarsest
  have positive := hierarchy.nested.regions.positive
  obtain ⟨b, taken⟩ := hierarchy.exists_brickAt enough inside ⟨coarse, wide, (positive _ wide).le⟩
  obtain ⟨contained, found⟩ := brickAt_found hierarchy.built hierarchy.nested enough inside taken
  have finest : Finest (cellWidths data) (brickRegion data) (data.get b).cellWidth (amr.clampToBounds p) :=
    fun f member holds => found.first f member (positive f member).le holds
  obtain ⟨leaf, led, first⟩ := (brickAt_finest_iff hierarchy.built hierarchy.nested enough inside taken).mpr finest
  refine ⟨b, ?_, contained, taken, finest⟩
  rw [AMR.findLeafCell, AMR.leafBrickFor, led]
  simp only [Option.bind_eq_bind, Option.bind_some, first, Option.map_some, hierarchy.raw]

namespace AMR.Regular

variable (regular : amr.Regular sorting)
include regular

theorem clamp_eq (inside : amr.worldBounds.Contains p) : amr.clampToBounds p = p := by
  funext axis
  have low := (inside axis).1
  rw [regular.origin] at low
  rw [AMR.clampToBounds, min_eq_right (inside axis).2.le, max_eq_right low]

/-- The cell of a brick that is the finest one at a point is a leaf cell. -/
theorem leafCell_of_finest (enough : amr.accel.node.length ≤ fuel) (inside : amr.worldBounds.Contains p) {least : ℚ}
    {b : BrickPointer data} (taken : amr.brickAt fuel p least = some b)
    (finest : Finest (cellWidths data) (brickRegion data) (data.get b).cellWidth p) :
    amr.LeafCell fuel (AMR.cellRef amr.value b p) fun axis => column (data.get b).cellWidth (p axis) := by
  obtain ⟨contained, found⟩ := brickAt_found regular.built regular.nested enough inside taken
  have valid := regular.nested.valid _ (List.get_mem data b)
  have place := cellRef_pos valid amr.value p
  have same : SameCell (data.get b).cellWidth p (centerOf (AMR.cellRef amr.value b p)) := by
    intro axis
    have center : centerOf (AMR.cellRef amr.value b p) axis =
        middle (data.get b).cellWidth (column (data.get b).cellWidth (p axis)) := by
      rw [centerOf, place, middle]
      change _ + 1 / 2 * (data.get b).cellWidth = _
      ring
    rw [center, column_middle valid.cellWidth]
  refine ⟨found.member, place, ?_, ?_, ?_⟩
  · exact regular.nested.regions.region_same found.member found.member le_rfl same found.holds
  · exact regular.nested.regions.finest_same found.member same finest
  · obtain ⟨leaf, led, first⟩ := (brickAt_finest_iff regular.built regular.nested enough inside taken).mpr finest
    refine ⟨p, AMR.cellRef amr.getVoxel b p, inside, ?_, ?_⟩
    · rw [AMR.findLeafCell, AMR.leafBrickFor, regular.clamp_eq inside, led]
      simp only [Option.bind_eq_bind, Option.bind_some, first, Option.map_some]
    · rw [regular.raw]

theorem findLeafCell_leafCell (enough : amr.accel.node.length ≤ fuel) (inside : amr.worldBounds.Contains p) :
    ∃ C, amr.findLeafCell fuel p = some C ∧ amr.LeafCell fuel C fun axis => column C.width (p axis) := by
  have moved := regular.clamp_eq inside
  obtain ⟨b, found, -, taken, finest⟩ := regular.findLeafCell_eq enough (moved.symm ▸ inside)
  rw [moved] at found taken finest
  exact ⟨AMR.cellRef amr.value b p, found, regular.leafCell_of_finest enough inside taken finest⟩

/-- Where the region of a width holds a position and no finer one does, `findCell` finds a leaf cell of it. -/
theorem findCell_leafCell (enough : amr.accel.node.length ≤ fuel) {width : ℚ} (member : width ∈ cellWidths data)
    (holds : brickRegion data width p) (finest : Finest (cellWidths data) (brickRegion data) width p) :
    ∃ C, amr.findCell fuel p width = some C ∧ C.width = width ∧
      amr.LeafCell fuel C fun axis => column width (p axis) := by
  have inside : amr.worldBounds.Contains p := by
    obtain ⟨b, present, -, contained⟩ := holds
    exact ((foldl_extend data none regular.built.root).2 b present).contains contained
  obtain ⟨b, taken⟩ := regular.exists_brickAt enough inside ⟨width, member, le_rfl⟩
  obtain ⟨-, found⟩ := brickAt_found regular.built regular.nested enough inside taken
  have same : (data.get b).cellWidth = width := le_antisymm (found.first width member le_rfl holds) found.wide
  refine ⟨AMR.cellRef amr.value b p, ?_, same, ?_⟩
  · have brick : amr.brickFor fuel p width = some b := by
      rw [AMR.brickFor, regular.clamp_eq inside]
      exact taken
    rw [AMR.findCell, brick, regular.clamp_eq inside, Option.map_some]
  · have leaf := regular.leafCell_of_finest enough inside taken (same.symm ▸ finest)
    rwa [same] at leaf

/-- What a single descent finds at a point, for some width. -/
structure LooksUp (amr : AMR data ℚ) (fuel : Nat) (least : ℚ) (p : Vec3) (found : CornerValue ℚ) : Prop where
  width : Found (cellWidths data) (brickRegion data) least p found.actualWidth
  leaf : found.isLeaf = true ↔ Finest (cellWidths data) (brickRegion data) found.actualWidth p
  value : found.isLeaf = true → found.value ∈ amr.leafValues fuel

omit regular in
theorem exists_lookup (regular : amr.Regular sorting) (enough : amr.accel.node.length ≤ fuel)
    (inside : amr.worldBounds.Contains p) {least : ℚ} (below : ∃ w ∈ cellWidths data, least ≤ w) :
    ∃ found, amr.lookupCorner fuel p least = some found ∧ LooksUp amr fuel least p found := by
  obtain ⟨b, taken⟩ := regular.exists_brickAt enough inside below
  obtain ⟨-, least_⟩ := brickAt_found regular.built regular.nested enough inside taken
  have first := brickAt_finest_iff regular.built regular.nested enough inside taken
  obtain ⟨found, lookup, value, width, leaf⟩ := lookupCorner_spec taken
  refine ⟨found, lookup, width ▸ least_, ?_, fun isLeaf => ?_⟩
  · rw [leaf, first, width]
  · have finest := first.mp (leaf.mp isLeaf)
    rw [value]
    exact (regular.leafCell_of_finest enough inside taken finest).value

end AMR.Regular

/-! ## Dual cells for one lane -/

/-- Corners in the bounding box are all written. -/
theorem readCorners_spec (regular : amr.Regular sorting) (enough : amr.accel.node.length ≤ fuel) (id : DualCellID)
    (below : ∃ w ∈ cellWidths data, id.width ≤ w) (corner : Unit → Fin 3 → Bool → ℚ)
    (inside : ∀ c, amr.worldBounds.Contains (cornerPoint corner () c)) :
    ∃ D, (do
        let dual ← amr.findCorners fuel (fun _ => id) corner (oneWidth fun _ => id)
        readCorners (dual ())) = some D ∧
      ∀ c, AMR.Regular.LooksUp amr fuel id.width (cornerPoint corner () c) (D c) := by
  obtain ⟨tree, overTree⟩ := regular.built.over
  obtain ⟨fails, stores⟩ := @findCorners_spec _ _ _ _ _ _ (fun _ => id) tree _ overTree
    (oneWidth fun _ => id) corner fuel fuel enough enough
  have served := fun c => regular.exists_lookup enough (inside c) below
  have present := fails.not.mpr fun ⟨lane, member, c, within, missing⟩ => by
    obtain ⟨found, lookup, -⟩ := served c
    exact absurd (missing.symm.trans lookup) (Option.some_ne_none _).symm
  obtain ⟨dual, ended⟩ := Option.ne_none_iff_exists'.mp present
  have content : ∀ c, ∃ found, dual () c = some found ∧
      AMR.Regular.LooksUp amr fuel id.width (cornerPoint corner () c) found := by
    intro c
    obtain ⟨found, lookup, spec⟩ := served c
    exact ⟨found, ((stores dual ended () c).1 ⟨Finset.mem_singleton_self _, inside c⟩).trans lookup, spec⟩
  have written : ∀ c, (dual () c).isSome := by
    intro c
    obtain ⟨found, same, -⟩ := content c
    rw [same]
    rfl
  refine ⟨fun c => (dual () c).get (written c), ?_, fun c => ?_⟩
  · rw [ended]
    exact dif_pos written
  · obtain ⟨found, same, spec⟩ := content c
    simp only [same, Option.get_some]
    exact spec

/-- Where they are written, all corners are in the bounding box. -/
theorem readCorners_inside (built : amr.Built sorting) (enough : amr.accel.node.length ≤ fuel) {id : DualCellID}
    {corner : Unit → Fin 3 → Bool → ℚ} {D : Corner → CornerValue ℚ}
    (read : (do
        let dual ← amr.findCorners fuel (fun _ => id) corner (oneWidth fun _ => id)
        readCorners (dual ())) = some D) (c : Corner) :
    amr.worldBounds.Contains (cornerPoint corner () c) := by
  obtain ⟨tree, overTree⟩ := built.over
  obtain ⟨-, stores⟩ := @findCorners_spec _ _ _ _ _ _ (fun _ => id) tree _ overTree
    (oneWidth fun _ => id) corner fuel fuel enough enough
  obtain ⟨dual, ended, all⟩ := Option.bind_eq_some_iff.mp read
  by_contra beyond
  have unwritten := (stores dual ended () c).2 fun ⟨_, inside⟩ => beyond inside
  rw [readCorners] at all
  split at all
  · next written => simpa only [unwritten, Option.isSome_none, Bool.false_eq_true] using written c
  · cases all

end Ospray.Amr
