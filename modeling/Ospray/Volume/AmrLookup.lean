import Mathlib.Algebra.Order.Floor.Ring
import Mathlib.Data.Rat.Floor
import Mathlib.Tactic.FieldSimp
import Mathlib.Tactic.Linarith
import Ospray.Library.RowMajor
import Ospray.Volume.AmrLayout

/-!
# The lookup of cells

`findCell` moves a position into a box, descends from the root to the leaf for it, and takes
the first brick there whose cells are wide enough; `findLeafCell` takes the first brick. The
coordinates of the cell in its brick follow from the position. The box that positions are
moved into begins at the origin and has its upper faces, while the leaves begin where the
bricks do and exclude theirs.
-/

namespace Ospray.Amr

open Library.BoxTrees

/-! ## Cells of a brick -/

section Cells

variable (brick : Brick) (pos : Vec3)

/-- `dims` -/
def Brick.dims (axis : Fin 3) : Int := brick.box.upper axis - brick.box.lower axis + 1

/-- `bounds_scale` -/
def Brick.boundsScale (axis : Fin 3) : ℚ := 1 / (brick.worldBounds.upper axis - brick.worldBounds.lower axis)

/-- `f_bc`: the coordinates of the cell in its brick -/
def Brick.cellAt (axis : Fin 3) : Int :=
  ⌊(pos axis - brick.worldBounds.lower axis) * brick.boundsScale axis * brick.dims axis⌋

/-- `idx` -/
def Brick.index (f_bc : Fin 3 → Int) : Int := f_bc 0 + brick.dims 0 * (f_bc 1 + brick.dims 1 * f_bc 2)

/-- The size of a brick's array. -/
def Brick.size : Library.RowMajor.Index := fun axis => (brick.dims axis).toNat

/-- Cell coordinates within the dimensions of a brick, with an index within its array. -/
structure Brick.HasCell (f_bc : Fin 3 → Int) : Prop where
  coordinates : ∀ axis, 0 ≤ f_bc axis ∧ f_bc axis < brick.dims axis
  index : 0 ≤ brick.index f_bc ∧ brick.index f_bc < Library.RowMajor.volume brick.size

end Cells

variable {data : List Brick} {V : Type}

/-- `AMR`: the tree and what was derived from it, and two ways of reading the values behind a brick, by
`getVoxel` and through the pointer. -/
structure AMR (data : List Brick) (V : Type) where
  accel : AmrAccel data
  worldBounds : Box3
  maxValidPos : Vec3
  getVoxel : BrickPointer data → Int → V
  value : BrickPointer data → Int → V

/-- `CellRef` -/
structure CellRef (V : Type) where
  pos : Vec3
  width : ℚ
  value : V

/-- The first brick of a leaf's list whose cells are wide enough. There is none if the end of the list comes
first. -/
def firstBrick (minWidth : ℚ) : List (Option (BrickPointer data)) → Option (BrickPointer data)
  | some brick :: rest => if (data.get brick).cellWidth ≥ minWidth then some brick else firstBrick minWidth rest
  | _ => none

/-- `brickList[0]` -/
def finestBrick (leaf : Leaf data) : Option (BrickPointer data) := leaf.brickList.head?.join

namespace AMR

variable (amr : AMR data V) (steps : Nat) (pos : Vec3) (minWidth : ℚ)

/-- `worldSpacePos` of the two lookups -/
def clampToBounds : Vec3 := fun axis => max 0 (min (amr.worldBounds.upper axis) (pos axis))

/-- The leaf that the descent for a position ends at. -/
def leafAt : Option (Leaf data) := do
  let ofs ← amr.accel.descend pos steps 0
  amr.accel.leaf[ofs]?

/-- The brick that `findCell` takes. -/
def brickFor : Option (BrickPointer data) := do
  let leaf ← amr.leafAt steps (amr.clampToBounds pos)
  firstBrick minWidth leaf.brickList

/-- The brick that `findLeafCell` takes. -/
def leafBrickFor : Option (BrickPointer data) := do
  let leaf ← amr.leafAt steps (amr.clampToBounds pos)
  finestBrick leaf

/-- `ret` -/
def cellRef (read : BrickPointer data → Int → V) (brick : BrickPointer data) (worldSpacePos : Vec3) : CellRef V where
  pos := fun axis => (data.get brick).worldBounds.lower axis +
    (data.get brick).cellAt worldSpacePos axis * (data.get brick).cellWidth
  width := (data.get brick).cellWidth
  value := read brick ((data.get brick).index ((data.get brick).cellAt worldSpacePos))

/-- `findCell` -/
def findCell : Option (CellRef V) :=
  (amr.brickFor steps pos minWidth).map fun brick => cellRef amr.value brick (amr.clampToBounds pos)

/-- `findLeafCell` -/
def findLeafCell : Option (CellRef V) :=
  (amr.leafBrickFor steps pos).map fun brick => cellRef amr.getVoxel brick (amr.clampToBounds pos)

end AMR

/-! ## Cells and positions -/

section Positions

variable {brick : Brick} {pos : Vec3} {f_bc : Fin 3 → Int}

theorem Brick.extent_eq (brick : Brick) (axis : Fin 3) :
    brick.worldBounds.upper axis - brick.worldBounds.lower axis = brick.dims axis * brick.cellWidth := by
  rw [Brick.worldBounds, Brick.dims]
  push_cast
  ring

theorem Brick.Valid.dims_pos (valid : brick.Valid) (axis : Fin 3) : 0 < brick.dims axis := by
  have ordered := valid.box axis
  rw [Brick.dims]
  omega

theorem Brick.Valid.cellAt_eq (valid : brick.Valid) (pos : Vec3) (axis : Fin 3) :
    brick.cellAt pos axis = ⌊(pos axis - brick.worldBounds.lower axis) / brick.cellWidth⌋ := by
  have width := valid.cellWidth.ne'
  have dims : (brick.dims axis : ℚ) ≠ 0 := Int.cast_ne_zero.mpr (valid.dims_pos axis).ne'
  rw [Brick.cellAt, Brick.boundsScale, brick.extent_eq]
  congr 1
  field_simp

theorem Brick.Valid.coordinates_iff (valid : brick.Valid) :
    (∀ axis, 0 ≤ brick.cellAt pos axis ∧ brick.cellAt pos axis < brick.dims axis) ↔
      brick.worldBounds.Contains pos := by
  apply forall_congr'
  intro axis
  have extent := brick.extent_eq axis
  have low : 0 ≤ brick.cellAt pos axis ↔ brick.worldBounds.lower axis ≤ pos axis := by
    rw [valid.cellAt_eq, Int.le_floor, Int.cast_zero, le_div_iff₀ valid.cellWidth, zero_mul, sub_nonneg]
  have high : brick.cellAt pos axis < brick.dims axis ↔ pos axis < brick.worldBounds.upper axis := by
    rw [valid.cellAt_eq, Int.floor_lt, div_lt_iff₀ valid.cellWidth, ← extent, sub_lt_sub_iff_right]
  rw [low, high]

theorem Brick.Valid.index_inside (valid : brick.Valid)
    (coordinates : ∀ axis, 0 ≤ f_bc axis ∧ f_bc axis < brick.dims axis) :
    0 ≤ brick.index f_bc ∧ brick.index f_bc < Library.RowMajor.volume brick.size := by
  have cell : Library.RowMajor.Inside brick.size fun axis => (f_bc axis).toNat := by
    intro axis
    exact (Int.toNat_lt_toNat (valid.dims_pos axis)).mpr (coordinates axis).2
  have index : (Library.RowMajor.rowMajor brick.size fun axis => (f_bc axis).toNat : ℤ) = brick.index f_bc := by
    simp only [Library.RowMajor.rowMajor, Brick.size, Brick.index, Nat.cast_add, Nat.cast_mul,
      Int.toNat_of_nonneg (coordinates _).1, Int.toNat_of_nonneg (valid.dims_pos _).le]
  rw [← index]
  exact ⟨Int.natCast_nonneg _, Int.ofNat_lt.mpr (Library.RowMajor.rowMajor_lt cell)⟩

theorem Brick.Valid.hasCell_iff (valid : brick.Valid) :
    brick.HasCell (brick.cellAt pos) ↔ brick.worldBounds.Contains pos := by
  rw [← valid.coordinates_iff]
  constructor
  · exact Brick.HasCell.coordinates
  · intro coordinates
    exact ⟨coordinates, valid.index_inside coordinates⟩

end Positions

/-! ## The tree that is looked up -/

/-- The tree is the one that `AMRAccel` builds, and its references fit their field. -/
structure AMR.Built (amr : AMR data V) (sorting : LevelSort data) : Prop where
  some_ : data ≠ []
  valid : ∀ b ∈ data, b.Valid
  root : Amr.worldBounds data = some amr.worldBounds
  accel : AmrAccel.construct sorting (6 * data.length + 1) = .ok amr.accel
  room : amr.accel.node.length ≤ 2 ^ 30

/-- Bricks of the root level cover the bounding box. -/
def AMR.Covered (amr : AMR data V) : Prop :=
  ∀ point, amr.worldBounds.Contains point → ∃ b ∈ data, b.level = 0 ∧ b.worldBounds.Contains point

variable {amr : AMR data V} {sorting : LevelSort data}

/-- The arrays stand for a tree over the bounding box. -/
structure AMR.Over (amr : AMR data V) (sorting : LevelSort data)
    (tree : SplitTree (List (BrickPointer data)) amr.worldBounds) : Prop where
  proper : amr.worldBounds.Proper
  uniform : Uniform tree
  leaf : amr.accel.leaf = tree.leaves.map (leafOf sorting)
  stands : ∃ ids, Stands amr.accel.node tree 0 0 ids
  size : tree.size = amr.accel.node.length

/-- There is such a tree. -/
theorem AMR.Built.over (built : amr.Built sorting) : ∃ tree, amr.Over sorting tree := by
  obtain ⟨proper, present⟩ := worldBounds_spec built.root built.valid
  obtain ⟨tree, uniform, laid⟩ := buildRec_lay sorting built.valid proper present
  let start : AmrAccel data := { node := [Node.zero], leaf := [] }
  have same : amr.accel = lay sorting tree start 0 := by
    have accel := built.accel
    rw [AmrAccel.construct, built.root] at accel
    have enough : planes data amr.worldBounds < 6 * data.length + 1 :=
      Nat.lt_succ_of_le (planes_le amr.worldBounds)
    exact (Except.ok.inj ((laid _ enough start 0).symm.trans accel)).symm
  have size : tree.size = amr.accel.node.length := by
    have counted := lay_node_length start 0 sorting tree
    have single : start.node.length = 1 := rfl
    rw [same]
    omega
  have room := built.room
  rw [← size] at room
  have leafCount := tree.size_leaves
  have positive := tree.size_pos
  obtain ⟨ids, stands, -⟩ := lay_stands sorting tree start (show 0 < 1 by decide)
    (show 1 + tree.size ≤ 2 ^ 30 + 1 by omega) (show 0 + tree.leaves.length ≤ 2 ^ 30 by omega)
  exact ⟨tree, proper, uniform, same ▸ lay_leaf start 0 sorting tree, ⟨ids, same ▸ stands⟩, size⟩

namespace AMR.Over

variable {tree : SplitTree (List (BrickPointer data)) amr.worldBounds} {point : Vec3} {steps : Nat}

theorem leafAt (overTree : amr.Over sorting tree) (point : Vec3) (enough : amr.accel.node.length ≤ steps) :
    amr.leafAt steps point = some (leafOf sorting (tree.find point)) := by
  obtain ⟨ids, stands⟩ := overTree.stands
  have height := tree.height_le_size
  have led := stands.descend point (height.trans (overTree.size.le.trans enough))
  rw [AMR.leafAt, led, Nat.zero_add]
  simp only [Option.bind_eq_bind, Option.bind_some]
  rw [overTree.leaf, List.getElem?_map, tree.leaves_findIndex]
  rfl

theorem mem_find (overTree : amr.Over sorting tree) (inside : amr.worldBounds.Contains point)
    (b : BrickPointer data) : b ∈ (tree.find point).2 ↔ (data.get b).worldBounds.Contains point := by
  have member := List.mem_of_getElem? (tree.leaves_findIndex point)
  have contained := tree.find_contains inside
  obtain ⟨present, cover⟩ := overTree.uniform _ member
  constructor
  · intro listed
    exact (cover b listed).contains contained
  · intro holds
    exact (present.overlaps b).mpr (Box.overlaps_of_contains holds contained)

end AMR.Over

/-! ## Which brick is taken -/

section Bricks

variable {minWidth : ℚ} {bricks : List (BrickPointer data)} {b : BrickPointer data}

theorem firstBrick_mem (found : firstBrick minWidth (bricks.map some ++ [none]) = some b) :
    b ∈ bricks ∧ minWidth ≤ (data.get b).cellWidth := by
  induction bricks with
  | nil => cases found
  | cons first rest inductionHypothesis =>
    rw [List.map_cons, List.cons_append, firstBrick] at found
    split at found
    · obtain rfl := Option.some.inj found
      exact ⟨List.mem_cons_self, ‹_›⟩
    · obtain ⟨member, wide⟩ := inductionHypothesis found
      exact ⟨List.mem_cons_of_mem _ member, wide⟩

theorem firstBrick_isSome (member : b ∈ bricks) (wide : minWidth ≤ (data.get b).cellWidth) :
    ∃ found, firstBrick minWidth (bricks.map some ++ [none]) = some found := by
  induction bricks with
  | nil => cases member
  | cons first rest inductionHypothesis =>
    rw [List.map_cons, List.cons_append, firstBrick]
    split
    · exact ⟨first, rfl⟩
    · obtain rfl | later := List.mem_cons.mp member
      · exact absurd wide ‹_›
      · exact inductionHypothesis later

/-- The first brick of a list. -/
theorem finestBrick_leafOf (sorting : LevelSort data) (leaf : Box3 × List (BrickPointer data)) :
    finestBrick (leafOf sorting leaf) = (sorting.sort leaf.2).head? := by
  rw [finestBrick, leafOf]
  cases sorting.sort leaf.2 <;> rfl

end Bricks

/-! ## The cells that are found -/

namespace AMR

/-- Both lookups end with a brick, and the coordinates in it are those of a cell. -/
def LookupsInside (amr : AMR data V) (pos : Vec3) (minWidth : ℚ) : Prop :=
  ∀ steps, amr.accel.node.length ≤ steps →
    (∃ b, amr.brickFor steps pos minWidth = some b ∧
      (data.get b).HasCell ((data.get b).cellAt (amr.clampToBounds pos))) ∧
    ∃ b, amr.leafBrickFor steps pos = some b ∧
      (data.get b).HasCell ((data.get b).cellAt (amr.clampToBounds pos))

variable {pos : Vec3} {minWidth : ℚ} {tree : SplitTree (List (BrickPointer data)) amr.worldBounds}

theorem Over.brickFor (overTree : amr.Over sorting tree) {steps : Nat} (enough : amr.accel.node.length ≤ steps) :
    amr.brickFor steps pos minWidth =
      firstBrick minWidth ((sorting.sort (tree.find (amr.clampToBounds pos)).2).map some ++ [none]) := by
  rw [AMR.brickFor, overTree.leafAt _ enough]
  rfl

theorem Over.leafBrickFor (overTree : amr.Over sorting tree) {steps : Nat}
    (enough : amr.accel.node.length ≤ steps) :
    amr.leafBrickFor steps pos = (sorting.sort (tree.find (amr.clampToBounds pos)).2).head? := by
  rw [AMR.leafBrickFor, overTree.leafAt _ enough]
  exact finestBrick_leafOf sorting _

/-- The cells are those of bricks exactly where a brick that is wide enough holds the moved position. -/
theorem lookupsInside_iff (built : amr.Built sorting) : amr.LookupsInside pos minWidth ↔
    ∃ b ∈ data, minWidth ≤ b.cellWidth ∧ b.worldBounds.Contains (amr.clampToBounds pos) := by
  obtain ⟨tree, overTree⟩ := built.over
  have within := (worldBounds_spec built.root built.valid).2
  have valid : ∀ b : BrickPointer data, (data.get b).Valid := fun b => built.valid _ (List.get_mem data b)
  constructor
  · intro inside
    obtain ⟨⟨b, found, cell⟩, -⟩ := inside _ le_rfl
    rw [overTree.brickFor le_rfl] at found
    exact ⟨_, List.get_mem data b, (firstBrick_mem found).2, (valid b).hasCell_iff.mp cell⟩
  · rintro ⟨_, present, wide, contained⟩ steps enough
    obtain ⟨b, rfl⟩ := List.get_of_mem present
    have held : amr.worldBounds.Contains (amr.clampToBounds pos) :=
      ((foldl_extend data none built.root).2 _ present).contains contained
    have sorted := sorting.perm (tree.find (amr.clampToBounds pos)).2
    have holds : ∀ other, other ∈ sorting.sort (tree.find (amr.clampToBounds pos)).2 →
        (data.get other).HasCell ((data.get other).cellAt (amr.clampToBounds pos)) := fun other listed =>
      (valid other).hasCell_iff.mpr ((overTree.mem_find held other).mp (sorted.mem_iff.mp listed))
    have member : b ∈ sorting.sort (tree.find (amr.clampToBounds pos)).2 :=
      sorted.mem_iff.mpr ((overTree.mem_find held b).mpr contained)
    rw [overTree.brickFor enough, overTree.leafBrickFor enough]
    constructor
    · obtain ⟨found, taken⟩ := firstBrick_isSome member wide
      exact ⟨found, taken, holds found (firstBrick_mem taken).1⟩
    · obtain ⟨first, rest, list⟩ := List.exists_cons_of_ne_nil (List.ne_nil_of_mem member)
      rw [list] at holds ⊢
      exact ⟨first, rfl, holds first List.mem_cons_self⟩

/-- **Where the lookups stay inside.** Both lookups end for every position. What they compute are the coordinates
of a cell exactly where a brick that is wide enough holds the moved position, and where the bricks of the root
level are the coarsest, exactly where the bounding box holds it. -/
theorem lookups_stay_inside (built : amr.Built sorting) (covered : amr.Covered)
    (coarse : ∃ b ∈ data, minWidth ≤ b.cellWidth) :
    (∀ steps, amr.accel.node.length ≤ steps → (amr.leafAt steps (amr.clampToBounds pos)).isSome) ∧
      (amr.LookupsInside pos minWidth ↔
        ∃ b ∈ data, minWidth ≤ b.cellWidth ∧ b.worldBounds.Contains (amr.clampToBounds pos)) ∧
      ((∀ b ∈ data, b.level = 0 → ∀ other ∈ data, other.cellWidth ≤ b.cellWidth) →
        (amr.LookupsInside pos minWidth ↔
          ∀ axis, amr.worldBounds.lower axis ≤ max 0 (min (amr.worldBounds.upper axis) (pos axis)) ∧
            max 0 (min (amr.worldBounds.upper axis) (pos axis)) < amr.worldBounds.upper axis)) := by
  obtain ⟨tree, overTree⟩ := built.over
  refine ⟨fun steps enough => ?_, lookupsInside_iff built, fun coarsest => ?_⟩
  · rw [overTree.leafAt _ enough]
    rfl
  · rw [lookupsInside_iff built]
    constructor
    · rintro ⟨b, present, -, contained⟩
      exact ((foldl_extend data none built.root).2 b present).contains contained
    · intro held
      obtain ⟨b, present, root, contained⟩ := covered _ held
      obtain ⟨other, listed, wide⟩ := coarse
      exact ⟨b, present, wide.trans (coarsest b present root other listed), contained⟩

end AMR

/-! ## Small trees -/

/-- The construction adds at most as many nodes as a full tree of its depth has. -/
theorem buildRec_length (sorting : LevelSort data) {depth nodeID : Nat} {accel result : AmrAccel data} {bounds : Box3}
    {brick : List (BrickPointer data)}
    (built : buildRec sorting depth accel nodeID bounds brick = .ok result) :
    result.node.length + 2 ≤ accel.node.length + 2 ^ depth := by
  induction depth generalizing accel nodeID bounds brick result with
  | zero => cases built
  | succ depth inductionHypothesis =>
    have two : 2 ≤ 2 ^ (depth + 1) := Nat.le_self_pow (Nat.succ_ne_zero depth) 2
    rw [buildRec] at built
    split at built
    · obtain rfl := Except.ok.inj built
      simp only [AmrAccel.makeLeaf, List.length_modify]
      omega
    · next dim pos chosen =>
      cases divided : distribute bounds dim pos brick with
      | error reason => simp [divided, bind, Except.bind] at built
      | ok sides =>
        obtain ⟨l, r⟩ := sides
        simp only [divided, bind, Except.bind] at built
        split at built
        · cases built
        · next left leftBuilt =>
          have first := inductionHypothesis leftBuilt
          have second := inductionHypothesis built
          simp only [AmrAccel.makeInner, List.length_append, List.length_modify, List.length_cons,
            List.length_nil] at first
          rw [Nat.pow_succ]
          omega

theorem exists_built (sorting : LevelSort data) (some_ : data ≠ []) (valid : ∀ b ∈ data, b.Valid)
    (few : data.length ≤ 4) (maxValidPos : Box3 → Vec3) (getVoxel value : BrickPointer data → Int → V) :
    ∃ amr : AMR data V, amr.Built sorting ∧ amr.maxValidPos = maxValidPos amr.worldBounds ∧
      amr.getVoxel = getVoxel ∧ amr.value = value := by
  obtain ⟨root, accel, known, built, -⟩ := construct_spec sorting some_ valid
  have constructed := built (6 * data.length + 1) (Nat.lt_succ_self _)
  refine ⟨⟨accel, root, maxValidPos root, getVoxel, value⟩, ⟨some_, valid, known, constructed, ?_⟩, rfl, rfl, rfl⟩
  have length := constructed
  rw [AmrAccel.construct, known] at length
  have bound : accel.node.length + 2 ≤ 1 + 2 ^ (6 * data.length + 1) := buildRec_length sorting length
  have power : 2 ^ (6 * data.length + 1) ≤ 2 ^ 25 := Nat.pow_le_pow_right (by decide) (by omega)
  change accel.node.length ≤ 2 ^ 30
  omega

theorem exists_built_nested (maxValidPos : Box3 → Vec3) (getVoxel value : BrickPointer nested → Int → V) :
    ∃ amr : AMR nested V, amr.Built (LevelSort.stable nested) ∧ amr.worldBounds = ⟨fun _ => 0, fun _ => 4⟩ ∧
      amr.maxValidPos = maxValidPos amr.worldBounds ∧ amr.getVoxel = getVoxel ∧ amr.value = value := by
  obtain ⟨amr, built, derived⟩ := exists_built (LevelSort.stable nested) (by decide) nested_valid (by decide)
    maxValidPos getVoxel value
  refine ⟨amr, built, ?_, derived⟩
  rw [← Option.some.inj built.root]
  exact Box.ext (funext (by decide +kernel)) (funext (by decide +kernel))

/-- A brick of one cell that begins at one. -/
def shifted : List Brick := [{ box := { lower := fun _ => 1, upper := fun _ => 1 }, level := 0, cellWidth := 1 }]

theorem exists_built_shifted (maxValidPos : Box3 → Vec3) (getVoxel value : BrickPointer shifted → Int → V) :
    ∃ amr : AMR shifted V, amr.Built (LevelSort.stable shifted) ∧ amr.worldBounds = ⟨fun _ => 1, fun _ => 2⟩ ∧
      amr.maxValidPos = maxValidPos amr.worldBounds ∧ amr.getVoxel = getVoxel ∧ amr.value = value := by
  have valid : ∀ b ∈ shifted, b.Valid := by
    simp only [shifted, List.forall_mem_cons, List.not_mem_nil, false_implies, implies_true, and_true]
    exact ⟨by decide, by decide⟩
  obtain ⟨amr, built, derived⟩ := exists_built (LevelSort.stable shifted) (by decide) valid (by decide)
    maxValidPos getVoxel value
  refine ⟨amr, built, ?_, derived⟩
  rw [← Option.some.inj built.root]
  exact Box.ext (funext (by decide +kernel)) (funext (by decide +kernel))

/-- Positions before the only brick are moved to the origin, and those at its end stay there. -/
theorem lookups_outside : ∃ amr : AMR shifted ℚ, amr.Built (LevelSort.stable shifted) ∧ amr.Covered ∧
    ¬ amr.LookupsInside (fun _ => 0) 1 ∧ ¬ amr.LookupsInside (fun _ => 2) 1 := by
  obtain ⟨amr, built, bounds, -⟩ := exists_built_shifted (fun bounds => bounds.upper) (fun _ _ => (0 : ℚ)) fun _ _ => 0
  have moved : ∀ pos, amr.clampToBounds pos = fun axis => max 0 (min 2 (pos axis)) := by
    intro pos
    funext axis
    simp only [AMR.clampToBounds, bounds]
  refine ⟨amr, built, ?_, ?_, ?_⟩
  · intro point inside
    refine ⟨_, List.mem_cons_self, rfl, ?_⟩
    rw [bounds] at inside
    intro axis
    have extent : ∀ axis, (shifted.head (by decide)).worldBounds.lower axis = 1 ∧
        (shifted.head (by decide)).worldBounds.upper axis = 2 := by
      decide +kernel
    exact ⟨(extent axis).1.trans_le (inside axis).1, (inside axis).2.trans_eq (extent axis).2.symm⟩
  · rw [AMR.lookupsInside_iff built, moved]
    decide +kernel
  · rw [AMR.lookupsInside_iff built, moved]
    decide +kernel

theorem lookups_stay_inside_nested :
    ∃ amr : AMR nested ℚ, amr.LookupsInside (fun _ => 1 / 2) 2 ∧ amr.LookupsInside (fun _ => -1) 2 := by
  obtain ⟨amr, built, bounds, -⟩ := exists_built_nested (fun bounds => bounds.upper) (fun _ _ => (0 : ℚ)) fun _ _ => 0
  have extent : (cube 0 2).worldBounds = ⟨fun _ => 0, fun _ => 4⟩ :=
    Box.ext (funext (by decide +kernel)) (funext (by decide +kernel))
  have covered : amr.Covered := by
    intro point inside
    exact ⟨_, List.mem_cons_self, rfl, extent ▸ bounds ▸ inside⟩
  have coarse : ∃ b ∈ nested, (2 : ℚ) ≤ b.cellWidth := ⟨_, List.mem_cons_self, le_rfl⟩
  have inside := fun pos => (@AMR.lookups_stay_inside nested ℚ amr _ pos 2 built covered coarse).2.2
    (by decide +kernel)
  refine ⟨amr, (inside _).mpr ?_, (inside _).mpr ?_⟩
  · rw [bounds]
    decide +kernel
  · rw [bounds]
    decide +kernel

end Ospray.Amr
