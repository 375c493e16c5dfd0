import Ospray.Volume.OctantCells

/-!
# The neighbors of an octant

From a leaf cell and a position in it, the corners of the dual cell are in the cell and those
next to it. A corner that is left to another cell is left to the first of the coarsest ones,
which begins at the octant: the position that is passed on is in that cell, and so is the
corner of the octant.
-/

namespace Ospray.Amr

open Library.BoxTrees Library.NestedGrids

variable {data : List Brick} {amr : AMR data ℚ} {sorting : LevelSort data} {fuel : Nat} {C : CellRef ℚ}
  {n : Fin 3 → ℤ} {P : Vec3}

/-! ## Corners and cells -/

/-- A position is in a cell of a grid, its faces included. -/
def InCell (width : ℚ) (n : Fin 3 → ℤ) (P : Vec3) : Prop :=
  ∀ axis, n axis * width ≤ P axis ∧ P axis ≤ (n axis + 1) * width

/-- The direction of an octant, in cells. -/
def direction (mirror : Corner) (axis : Fin 3) : ℤ := if mirror axis then -1 else 1

/-- The corner of a dual cell some cells away, moved into the box for corners. -/
def AMR.cornerAt (amr : AMR data ℚ) (width : ℚ) (n : Fin 3 → ℤ) : Vec3 := fun axis =>
  max 0 (min (middle width (n axis)) (amr.maxValidPos axis))

/-- The cell of a corner, counted in the direction of the octant. -/
def cornerCell (n toward : Fin 3 → ℤ) (c : Corner) : Fin 3 → ℤ := fun axis =>
  n axis + if c axis then toward axis else 0

theorem initDualCell_pos {width : ℚ} (positive : 0 < width) {m : ℤ} {axis : Fin 3}
    (low : middle width m ≤ P axis) (high : P axis < middle width (m + 1)) :
    (initDualCell P width).pos axis = middle width m := by
  have floor : ⌊(P axis - width * (1 / 2)) * (1 / width)⌋ = m := by
    rw [mul_one_div, Int.floor_eq_iff, le_div_iff₀ positive, div_lt_iff₀ positive]
    rw [middle] at low high
    push_cast at high
    constructor <;> linarith
  simp only [initDualCell, floor, middle]
  ring

/-- The dual cell of an octant begins in the middle of its cell, or of the one before it. -/
theorem initDual_pos (center : ∀ axis, centerOf C axis = middle C.width (n axis)) (positive : 0 < C.width)
    (inCell : InCell C.width n P) (axis : Fin 3) :
    (initDual P C).pos axis = middle C.width (n axis + if (initOctant P C).mirror axis then -1 else 0) := by
  obtain ⟨low, high⟩ := inCell axis
  replace center := center axis
  have mirror : (initOctant P C).mirror axis = decide (P axis < centerOf C axis) := rfl
  have step : ∀ m : ℤ, middle C.width (m + 1) = middle C.width m + C.width := by
    intro m
    rw [middle, middle]
    push_cast
    ring
  have half : middle C.width (n axis) = n axis * C.width + C.width / 2 := by
    rw [middle]
    ring
  rw [initDual]
  by_cases before : P axis < centerOf C axis
  · rw [mirror, decide_eq_true before, if_pos rfl]
    have next := step (n axis + -1)
    rw [neg_add_cancel_right] at next
    have place := @initDualCell_pos P C.width positive (n axis + -1) axis (by linarith)
      (by rw [neg_add_cancel_right, ← center]; exact before)
    simp only [place]
    rw [if_neg (by linarith)]
  · rw [mirror, decide_eq_false before, if_neg Bool.false_ne_true, add_zero]
    have place := @initDualCell_pos P C.width positive (n axis) axis (by linarith)
      (by rw [step]; linarith)
    simp only [place]
    rw [if_neg (by linarith)]

theorem mirrored_cornerPoint (center : ∀ axis, centerOf C axis = middle C.width (n axis)) (positive : 0 < C.width)
    (inCell : InCell C.width n P) (c : Corner) :
    cornerPoint (amr.mirroredCorner (fun _ => initDual P C) fun _ => (initOctant P C).mirror) () c =
      amr.cornerAt C.width (cornerCell n (direction (initOctant P C).mirror) c) := by
  funext axis
  have pos := initDual_pos center positive inCell axis
  have width : (initDual P C).width = C.width := rfl
  rw [cornerPoint, AMR.mirroredCorner, AMR.cornerAt, cornerCell, direction]
  cases mirror : (initOctant P C).mirror axis <;> cases side : c axis <;>
    simp only [mirror, AMR.cornerBounds, pos, width, middle, if_true, if_false, Bool.not_true, Bool.not_false,
      Bool.false_eq_true] <;> congr 2 <;> push_cast <;> ring

namespace AMR.Regular

variable (regular : amr.Regular sorting)
include regular

theorem corner_inside {point : Vec3} {value : Vec3}
    (moved : ∀ axis, point axis = max 0 (min (value axis) (amr.maxValidPos axis))) :
    amr.worldBounds.Contains point := by
  obtain ⟨tree, overTree⟩ := regular.built.over
  obtain ⟨b, present⟩ := List.exists_mem_of_ne_nil _ regular.built.some_
  intro axis
  have extent := overTree.proper axis
  rw [regular.origin] at extent ⊢
  rw [moved]
  exact ⟨le_max_left _ _, max_lt extent ((min_le_right _ _).trans_lt (regular.last b present axis).2)⟩

/-- The cell that a corner is in after it has been moved into the box: one of those along the axis. -/
theorem column_cornerAt {width : ℚ} (member : width ∈ cellWidths data) (m : Fin 3 → ℤ) (axis : Fin 3) :
    ∃ count : ℤ, amr.worldBounds.upper axis = count * width ∧
      column width (amr.cornerAt width m axis) = max 0 (min (m axis) (count - 1)) := by
  have positive := regular.nested.regions.positive _ member
  obtain ⟨count, upper⟩ := regular.upper_eq member axis
  obtain ⟨b, present, rfl⟩ := mem_cellWidths.mp member
  obtain ⟨low, high⟩ := regular.last b present axis
  have final : column b.cellWidth (amr.maxValidPos axis) = count - 1 := by
    rw [column_eq_iff positive]
    rw [upper] at low high
    push_cast
    constructor <;> linarith
  have first : column b.cellWidth 0 = 0 := by rw [column, zero_div, Int.floor_zero]
  refine ⟨count, upper, ?_⟩
  rw [AMR.cornerAt, (column_mono positive).map_max, (column_mono positive).map_min, column_middle positive, first, final]

theorem center_inside (leaf : amr.LeafCell fuel C n) : amr.worldBounds.Contains (centerOf C) := by
  obtain ⟨b, present, -, contained⟩ := leaf.holds
  exact ((foldl_extend data none regular.built.root).2 b present).contains contained

/-- A corner is in the cell of the octant along the axes that it is not away from, and else there or in the next one. -/
theorem column_cornerCell (leaf : amr.LeafCell fuel C n) (mirror c : Corner) (axis : Fin 3) :
    column C.width (amr.cornerAt C.width (cornerCell n (direction mirror) c) axis) = n axis ∨
      c axis = true ∧ column C.width (amr.cornerAt C.width (cornerCell n (direction mirror) c) axis) =
        n axis + direction mirror axis := by
  have positive := regular.nested.regions.positive _ leaf.width
  obtain ⟨count, upper, cell⟩ := regular.column_cornerAt leaf.width (cornerCell n (direction mirror) c) axis
  obtain ⟨low, high⟩ := regular.center_inside leaf axis
  rw [regular.origin, leaf.center] at low
  rw [upper, leaf.center] at high
  have least : 0 ≤ n axis := by
    have mono := column_mono positive low
    rwa [column_middle positive, column, zero_div, Int.floor_zero] at mono
  have most : n axis < count := by
    have below := (column_lt_iff positive).mpr high
    rwa [column_middle positive] at below
  rw [cell, cornerCell, direction]
  cases c axis <;> cases mirror axis <;> simp only [if_true, if_false, Bool.false_eq_true, false_and, or_false,
    true_and] <;> omega

theorem sameCell_center (leaf : amr.LeafCell fuel C n) {m : Fin 3 → ℤ} (own : m = n) :
    SameCell C.width (centerOf C) (amr.cornerAt C.width m) := by
  have positive := regular.nested.regions.positive _ leaf.width
  intro axis
  have here := regular.column_cornerCell leaf (fun _ => false) (fun _ => false) axis
  have same : cornerCell n (direction fun _ => false) (fun _ => false) = n := by
    funext axis
    rw [cornerCell, if_neg Bool.false_ne_true, add_zero]
  rw [same] at here
  rw [leaf.center, column_middle positive, own]
  exact (here.resolve_right fun away => Bool.false_ne_true away.1).symm

end AMR.Regular

/-! ## Coarser neighbors -/

theorem octant_direction (leaf : amr.LeafCell fuel C n) (axis : Fin 3) :
    (initOctant P C).signs axis = direction (initOctant P C).mirror axis ∧
      (initOctant P C).center axis = middle C.width (n axis) ∧
      (initOctant P C).vertex axis =
        middle C.width (n axis) + direction (initOctant P C).mirror axis * (C.width * (1 / 2)) := by
  have center := leaf.center axis
  have mirror : (initOctant P C).mirror axis = decide (P axis < centerOf C axis) := rfl
  rw [Octant.signs, direction, mirror, ← center]
  refine ⟨?_, rfl, ?_⟩
  · split <;> norm_num
  · rw [initOctant]
    by_cases before : P axis < centerOf C axis <;> simp [before]

theorem vtxPos_inCell (leaf : amr.LeafCell fuel C n) (positive : 0 < C.width) (t : Corner) :
    InCell C.width n (vtxPos (initOctant P C) t) := by
  intro axis
  obtain ⟨-, center, vertex⟩ := @octant_direction _ _ _ _ _ P leaf axis
  have half : middle C.width (n axis) = n axis * C.width + C.width / 2 := by
    rw [middle]
    ring
  rw [vtxPos]
  split
  · rw [vertex, direction]
    split <;> push_cast <;> constructor <;> linarith
  · rw [center]
    constructor <;> linarith

/-- The lookups for the corners of the dual cell of an octant. -/
def OctantCorners (amr : AMR data ℚ) (fuel : Nat) (C : CellRef ℚ) (n : Fin 3 → ℤ) (mirror : Corner)
    (D : Corner → CornerValue ℚ) : Prop :=
  ∀ c, AMR.Regular.LooksUp amr fuel C.width (amr.cornerAt C.width (cornerCell n (direction mirror) c)) (D c)

/-- A corner without one of its axes. -/
abbrev Corner.without (c : Corner) (axis : Fin 3) : Corner := Function.update c axis false

namespace AMR.Regular

variable (regular : amr.Regular sorting) {D : Corner → CornerValue ℚ}
include regular

/-- Where a corner has a coarser cell than those with one axis less, that cell begins at the octant: the position for
it is in its middle along the axes that lead there, and the corners of the octant along these are in it. -/
theorem neighbor_cell (leaf : amr.LeafCell fuel C n)
    (corners : OctantCorners amr fuel C n (initOctant P C).mirror D) {c : Corner}
    (coarser : C.width < (D c).actualWidth)
    (first : ∀ axis, c axis = true → (D (c.without axis)).actualWidth < (D c).actualWidth) (axis : Fin 3) :
    column (D c).actualWidth (neighbor (initOctant P C) C D c axis) =
        column (D c).actualWidth (amr.cornerAt C.width (cornerCell n (direction (initOctant P C).mirror) c) axis) ∧
      ∀ t : Corner, (∀ axis, c axis = true → t axis = true) →
        column (D c).actualWidth (neighbor (initOctant P C) C D c axis) * (D c).actualWidth ≤
            vtxPos (initOctant P C) t axis ∧
          vtxPos (initOctant P C) t axis ≤
            (column (D c).actualWidth (neighbor (initOctant P C) C D c axis) + 1) * (D c).actualWidth := by
  have positive := regular.nested.regions.positive _ leaf.width
  have wide := regular.nested.regions.positive _ (corners c).width.member
  obtain ⟨k, many, multiple⟩ := regular.nested.regions.multiple leaf.width (corners c).width.member coarser
  obtain ⟨signs, center, vertex⟩ := @octant_direction _ _ _ _ _ P leaf axis
  have cells := regular.column_cornerCell leaf (initOctant P C).mirror
  by_cases along : c axis = true
  · -- The corner without this axis is in another cell of that width, so the octant is at the face between them.
    have apart := regular.nested.regions.apart_of_finer (corners (c.without axis)).width (corners c).width
      (first axis along)
    have differs : column (D c).actualWidth (amr.cornerAt C.width
        (cornerCell n (direction (initOctant P C).mirror) (c.without axis)) axis) ≠ column (D c).actualWidth
          (amr.cornerAt C.width (cornerCell n (direction (initOctant P C).mirror) c) axis) := by
      intro same
      apply apart
      intro other
      by_cases own : other = axis
      · rw [own, same]
      · rw [AMR.cornerAt, AMR.cornerAt, cornerCell, cornerCell, Corner.without, Function.update_of_ne own]
    have here := (cells (c.without axis) axis).resolve_right fun away => by
      rw [Corner.without, Function.update_self] at away
      exact Bool.false_ne_true away.1
    have there := cells c axis
    rw [multiple, column_mul, column_mul, here] at differs
    obtain same | ⟨-, next⟩ := there
    · rw [same] at differs
      exact absurd rfl differs
    · rw [next] at differs
      have either : direction (initOctant P C).mirror axis = 1 ∨ direction (initOctant P C).mirror axis = -1 := by
        rw [direction]
        split
        · exact .inr rfl
        · exact .inl rfl
      obtain ⟨middle_, low, high⟩ := middle_toward positive many either differs.symm
      rw [← multiple] at middle_ low high
      have place : neighbor (initOctant P C) C D c axis =
          middle (D c).actualWidth ((n axis + direction (initOctant P C).mirror axis) / k) := by
        rw [neighbor, if_pos along, signs, center, middle_]
      have cell : column (D c).actualWidth (amr.cornerAt C.width
          (cornerCell n (direction (initOctant P C).mirror) c) axis) =
          (n axis + direction (initOctant P C).mirror axis) / k := by
        rw [← next, ← column_mul, ← multiple]
      rw [place, column_middle wide, cell]
      refine ⟨rfl, fun t within => ?_⟩
      rw [vtxPos, if_pos (within axis along), vertex]
      exact ⟨low, high⟩
  · have here := (cells c axis).resolve_right fun away => along away.1
    have place : neighbor (initOctant P C) C D c axis = middle C.width (n axis) := by
      rw [neighbor, if_neg along, center]
    have cell : column (D c).actualWidth (middle C.width (n axis)) = n axis / k := by
      rw [multiple, column_mul, column_middle positive]
    have cell' : column (D c).actualWidth (amr.cornerAt C.width
        (cornerCell n (direction (initOctant P C).mirror) c) axis) = n axis / k := by
      rw [multiple, column_mul, here]
    rw [place, cell, cell']
    refine ⟨rfl, fun t _ => ?_⟩
    obtain ⟨low, high⟩ := vtxPos_inCell leaf positive t axis
    have inner := closed_of_finer positive many rfl low high
    rwa [← multiple] at inner

end AMR.Regular

/-! ## What is left to a neighbor -/

/-- A corner of an octant is left to the cell of one of the corners on the way: it is coarser, and those before it are
less coarse. -/
structure LeftTo (C : CellRef ℚ) (D : Corner → CornerValue ℚ) (c t : Corner) : Prop where
  coarser : C.width < (D c).actualWidth
  first : ∀ axis, c axis = true → (D (c.without axis)).actualWidth < (D c).actualWidth
  along : ∀ axis, c axis = true → t axis = true

/-- Each candidate comes after those with one axis less. -/
def Ordered : List Corner → List Corner → Prop
  | _, [] => True
  | seen, c :: candidates => (∀ axis, c axis = true → c.without axis ∈ seen) ∧ Ordered (c :: seen) candidates

instance Ordered.decidable : (seen candidates : List Corner) → Decidable (Ordered seen candidates)
  | _, [] => isTrue trivial
  | seen, c :: candidates => @instDecidableAnd _ _ _ (Ordered.decidable (c :: seen) candidates)

section Fills

variable {O : Octant} {D : Corner → CornerValue ℚ}

/-- The pass over candidates keeps the first of the coarsest ones. -/
theorem coarsest_fold {candidates : List Corner} {seen : List Corner} {best : Vec3 × ℚ}
    (ordered : Ordered seen candidates) (bounded : ∀ s ∈ seen, (D s).actualWidth ≤ best.2) :
    let last := candidates.foldl (fun best c =>
      if isCoarser (D c).actualWidth best.2 then (neighbor O C D c, (D c).actualWidth) else best) best
    (last = best ∧ ∀ c ∈ candidates, (D c).actualWidth ≤ best.2) ∨ ∃ c ∈ candidates,
      last = (neighbor O C D c, (D c).actualWidth) ∧ best.2 < (D c).actualWidth ∧
        ∀ axis, c axis = true → (D (c.without axis)).actualWidth < (D c).actualWidth := by
  induction candidates generalizing seen best with
  | nil => exact .inl ⟨rfl, fun _ absent => absurd absent List.not_mem_nil⟩
  | cons c candidates inductionHypothesis =>
    obtain ⟨before, ordered⟩ := ordered
    rw [List.foldl_cons]
    by_cases coarser : isCoarser (D c).actualWidth best.2
    · rw [if_pos coarser]
      have kept : ∀ s ∈ c :: seen, (D s).actualWidth ≤ (D c).actualWidth := by
        intro s member
        obtain rfl | member := List.mem_cons.mp member
        · exact le_rfl
        · exact (bounded s member).trans (le_of_lt coarser)
      obtain ⟨last, -⟩ | ⟨other, member, last, above, first⟩ :=
        @inductionHypothesis (c :: seen) (neighbor O C D c, (D c).actualWidth) ordered kept
      · refine .inr ⟨c, List.mem_cons_self, last, coarser, fun axis away => ?_⟩
        exact (bounded _ (before axis away)).trans_lt coarser
      · exact .inr ⟨other, List.mem_cons_of_mem _ member, last, lt_trans coarser above, first⟩
    · rw [if_neg coarser]
      have kept : ∀ s ∈ c :: seen, (D s).actualWidth ≤ best.2 := by
        intro s member
        obtain rfl | member := List.mem_cons.mp member
        · exact not_lt.mp coarser
        · exact bounded s member
      obtain ⟨last, most⟩ | ⟨other, member, last, above, first⟩ := @inductionHypothesis (c :: seen) best ordered kept
      · refine .inl ⟨last, fun other member => ?_⟩
        obtain rfl | member := List.mem_cons.mp member
        · exact not_lt.mp coarser
        · exact most other member
      · exact .inr ⟨other, List.mem_cons_of_mem _ member, last, above, first⟩

theorem coarsest_left {candidates : List Corner} {t : Corner} (own : (D C000).actualWidth = C.width)
    (ordered : Ordered [C000] candidates) (within : ∀ c ∈ candidates, ∀ axis, c axis = true → t axis = true)
    (some_ : ∃ c ∈ candidates, C.width < (D c).actualWidth) :
    ∃ c, LeftTo C D c t ∧ coarsest O C D candidates = (neighbor O C D c, (D c).actualWidth) := by
  have bounded : ∀ s ∈ [C000], (D s).actualWidth ≤ C.width := by
    intro s member
    rw [List.mem_singleton.mp member, own]
  obtain ⟨-, most⟩ | ⟨c, member, last, coarser, first⟩ := @coarsest_fold C O D candidates [C000] (C.pos, C.width)
    ordered bounded
  · obtain ⟨c, member, coarser⟩ := some_
    exact absurd coarser (not_lt.mpr (most c member))
  · exact ⟨c, ⟨coarser, first, within c member⟩, last⟩

variable {pos : Vec3} {width : ℚ}

theorem side_left {c : Corner} (own : (D C000).actualWidth = C.width)
    (single : ∀ axis, c axis = true → c.without axis = C000)
    (left : side O C D c = .needToFillFrom pos width) :
    ∃ c', LeftTo C D c' c ∧ (neighbor O C D c', (D c').actualWidth) = (pos, width) := by
  rw [side] at left
  split_ifs at left with _ coarser
  injection left with samePos sameWidth
  refine ⟨c, ⟨coarser, fun axis away => ?_, fun _ => id⟩, by rw [samePos, sameWidth]⟩
  rw [single axis away, own]
  exact coarser

theorem edge_left {first second both : Corner} (own : (D C000).actualWidth = C.width)
    (ordered : Ordered [C000] [first, second, both])
    (within : ∀ c ∈ [first, second, both], ∀ axis, c axis = true → both axis = true)
    (left : edge O C D first second both = .needToFillFrom pos width) :
    ∃ c, LeftTo C D c both ∧ (neighbor O C D c, (D c).actualWidth) = (pos, width) := by
  rw [edge] at left
  split_ifs at left with coarser
  injection left with samePos sameWidth
  have some_ : ∃ c ∈ [first, second, both], C.width < (D c).actualWidth := by
    obtain (above | above) | above := (lt_max_iff.mp coarser).imp_left lt_max_iff.mp
    · exact ⟨first, List.mem_cons_self, above⟩
    · exact ⟨second, List.mem_cons_of_mem _ List.mem_cons_self, above⟩
    · exact ⟨both, List.mem_cons_of_mem _ (List.mem_cons_of_mem _ List.mem_cons_self), above⟩
  obtain ⟨c, leftTo, place⟩ := @coarsest_left C O D _ both own ordered within some_
  exact ⟨c, leftTo, place.symm.trans (Prod.ext samePos sameWidth)⟩

theorem vertex_left (own : (D C000).actualWidth = C.width) (left : vertexFill O C D = .needToFillFrom pos width) :
    ∃ c, LeftTo C D c C111 ∧ (neighbor O C D c, (D c).actualWidth) = (pos, width) := by
  rw [vertexFill] at left
  split_ifs at left with _ coarser
  injection left with samePos sameWidth
  have some_ : ∃ c ∈ corners.tail, C.width < (D c).actualWidth := by
    by_contra none_
    push Not at none_
    have most : ∀ c, (D c).actualWidth ≤ C.width := by
      intro c
      by_cases here : c = C000
      · rw [here, own]
      · exact none_ c (by revert c; decide)
    refine absurd coarser (not_lt.mpr ?_)
    simp only [maxWidth, max_le_iff, most, true_and]
  obtain ⟨c, leftTo, place⟩ := @coarsest_left C O D _ C111 own (by decide) (by decide) some_
  exact ⟨c, leftTo, place.symm.trans (Prod.ext samePos sameWidth)⟩

theorem corner_cases : ∀ t : Corner,
    t = C000 ∨ t = C001 ∨ t = C010 ∨ t = C100 ∨ t = C011 ∨ t = C101 ∨ t = C110 ∨ t = C111 := by
  decide

theorem fill_left {t : Corner} (own : (D C000).actualWidth = C.width)
    (left : fill O C D t = .needToFillFrom pos width) :
    ∃ c, LeftTo C D c t ∧ (neighbor O C D c, (D c).actualWidth) = (pos, width) := by
  obtain rfl | rfl | rfl | rfl | rfl | rfl | rfl | rfl := corner_cases t
  · cases left
  · exact side_left own (by decide) left
  · exact side_left own (by decide) left
  · exact side_left own (by decide) left
  · exact edge_left own (by decide) (by decide) left
  · exact edge_left own (by decide) (by decide) left
  · exact edge_left own (by decide) (by decide) left
  · exact vertex_left own left

theorem corners_sum (value : Corner → ℚ) : (corners.map value).sum =
    value C000 + value C001 + value C010 + value C011 + value C100 + value C101 + value C110 + value C111 := by
  simp only [corners, List.map_cons, List.map_nil, List.sum_cons, List.sum_nil, C000, C001, C010, C011, C100, C101,
    C110, C111]
  ring

/-- Averages are between the values of leaves. -/
theorem fill_value {t : Corner} {v low high : ℚ} (own : low ≤ C.value ∧ C.value ≤ high)
    (leaves : ∀ c, (D c).isLeaf = true → low ≤ (D c).value ∧ (D c).value ≤ high)
    (filled : fill O C D t = .value v) : low ≤ v ∧ v ≤ high := by
  have sides : ∀ c, side O C D c = .value v → low ≤ v ∧ v ≤ high := by
    intro c filled
    rw [side] at filled
    split_ifs at filled with same
    injection filled with average
    have there := leaves c same.2
    rw [← average]
    constructor <;> linarith
  have edges : ∀ first second both, edge O C D first second both = .value v → low ≤ v ∧ v ≤ high := by
    intro first second both filled
    rw [edge] at filled
    split_ifs at filled with _ allLeaves
    injection filled with average
    obtain ⟨one, two, three⟩ := allLeaves
    have first := leaves _ one
    have second := leaves _ two
    have both := leaves _ three
    rw [← average]
    constructor <;> linarith
  obtain rfl | rfl | rfl | rfl | rfl | rfl | rfl | rfl := corner_cases t
  · injection filled with average
    exact average ▸ own
  · exact sides _ filled
  · exact sides _ filled
  · exact sides _ filled
  · exact edges _ _ _ filled
  · exact edges _ _ _ filled
  · exact edges _ _ _ filled
  · change vertexFill O C D = _ at filled
    rw [vertexFill] at filled
    split_ifs at filled with same
    injection filled with average
    have all : ∀ c, low ≤ (D c).value ∧ (D c).value ≤ high := fun c => leaves c (same.2 c (by revert c; decide))
    rw [corners_sum] at average
    rw [← average]
    have least := fun c => (all c).1
    have most := fun c => (all c).2
    constructor
    · linarith [least C000, least C001, least C010, least C011, least C100, least C101, least C110, least C111]
    · linarith [most C000, most C001, most C010, most C011, most C100, most C101, most C110, most C111]

end Fills

/-! ## The cell that a corner is left to -/

namespace AMR.Regular

variable (regular : amr.Regular sorting) {D : Corner → CornerValue ℚ}
include regular

theorem exists_corners (enough : amr.accel.node.length ≤ fuel) (leaf : amr.LeafCell fuel C n)
    (inCell : InCell C.width n P) :
    ∃ D, amr.mirroredDualCellAt fuel (initOctant P C).mirror (initDual P C) = some D ∧
      OctantCorners amr fuel C n (initOctant P C).mirror D := by
  have positive := regular.nested.regions.positive _ leaf.width
  have point := fun c => @mirrored_cornerPoint _ amr _ _ _ leaf.center positive inCell c
  obtain ⟨D, found, lookups⟩ := readCorners_spec regular enough (initDual P C) ⟨_, leaf.width, le_rfl⟩
    (amr.mirroredCorner (fun _ => initDual P C) fun _ => (initOctant P C).mirror) (fun c => by
      rw [point]
      exact regular.corner_inside fun _ => rfl)
  refine ⟨D, found, fun c => ?_⟩
  rw [← point]
  exact lookups c

theorem own_corner (leaf : amr.LeafCell fuel C n) {m : Fin 3 → ℤ} (own : m = n) {found : CornerValue ℚ}
    (lookup : LooksUp amr fuel C.width (amr.cornerAt C.width m) found) :
    found.actualWidth = C.width ∧ found.isLeaf = true := by
  have same := regular.sameCell_center leaf own
  have holds := regular.nested.regions.region_same leaf.width leaf.width le_rfl same leaf.holds
  have width : found.actualWidth = C.width :=
    le_antisymm (lookup.width.first _ leaf.width le_rfl holds) lookup.width.wide
  refine ⟨width, lookup.leaf.mpr ?_⟩
  rw [width]
  exact regular.nested.regions.finest_same leaf.width same leaf.finest

theorem own_width (leaf : amr.LeafCell fuel C n) {mirror : Corner} (corners : OctantCorners amr fuel C n mirror D) :
    (D C000).actualWidth = C.width := by
  refine (regular.own_corner leaf ?_ (corners C000)).1
  funext axis
  have center : C000 axis = false := by revert axis; decide
  rw [cornerCell, center, if_neg Bool.false_ne_true, add_zero]

/-- The cell that a corner is left to is a leaf cell, and the corner of the octant is in it. -/
theorem left_cell (enough : amr.accel.node.length ≤ fuel) (leaf : amr.LeafCell fuel C n)
    (corners : OctantCorners amr fuel C n (initOctant P C).mirror D) {c t : Corner} (left : LeftTo C D c t) :
    ∃ C', amr.findCell fuel (neighbor (initOctant P C) C D c) (D c).actualWidth = some C' ∧
      C'.width = (D c).actualWidth ∧ ∃ n', amr.LeafCell fuel C' n' ∧
        InCell C'.width n' (vtxPos (initOctant P C) t) := by
  have found := (corners c).width
  have place := regular.neighbor_cell leaf corners left.coarser left.first
  have same : SameCell (D c).actualWidth
      (amr.cornerAt C.width (cornerCell n (direction (initOctant P C).mirror) c))
      (neighbor (initOctant P C) C D c) := fun axis => (place axis).1.symm
  have holds := regular.nested.regions.region_same found.member found.member le_rfl same found.holds
  have finest := regular.nested.regions.finest_same found.member same
    (regular.nested.regions.finest_of_coarser leaf.width found left.coarser)
  obtain ⟨C', taken, width, isLeaf⟩ := regular.findCell_leafCell enough found.member holds finest
  refine ⟨C', taken, width, _, isLeaf, fun axis => ?_⟩
  rw [width]
  exact (place axis).2 t left.along

end AMR.Regular

end Ospray.Amr
