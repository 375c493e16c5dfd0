import Mathlib.Data.Rat.Lemmas
import Mathlib.Data.List.FinRange
import Mathlib.Algebra.Order.Group.Unbundled.Abs
import Mathlib.Algebra.Order.Ring.Rat
import Ospray.Library.BoxTrees
import Ospray.Library.SortedSets

/-!
# The kd-tree over the bricks of an AMR volume

`AMRAccel` cuts the bounding box of all bricks by planes through their faces until no
face of a brick is strictly inside a region, and keeps with each such region, a leaf,
the bricks that overlap it, finest first. Nodes stand in one growing array; a node
refers to its two children by the index of the first, in 30 bits. `findCell` descends
from node 0.

Coordinates and widths are exact. The recursion of the construction is bounded by an
explicit depth, so that running out of it is told apart from every result.
-/

namespace Ospray.Amr

open Library.BoxTrees Library.SortedSets

/-- A point, or the extents of a box, in three dimensions. -/
abbrev Vec3 := Fin 3 → ℚ

/-- `box3f` -/
abbrev Box3 := Box (Fin 3) ℚ

/-- What the tree uses of `AMRData::Brick`. The box excludes the width of the last cell. -/
structure Brick where
  box : Box (Fin 3) Int
  level : Int
  cellWidth : ℚ

/-- The bounds of a brick, the last cell included. -/
def Brick.worldBounds (brick : Brick) : Box3 where
  lower axis := brick.box.lower axis * brick.cellWidth
  upper axis := ((brick.box.upper axis + 1 : Int) : ℚ) * brick.cellWidth

/-- `intersectionOf` -/
def intersectionOf (first second : Box3) : Box3 where
  lower axis := max (first.lower axis) (second.lower axis)
  upper axis := min (first.upper axis) (second.upper axis)

/-- `box_t::empty` -/
def isEmpty (box : Box3) : Bool := decide (∃ axis, box.upper axis < box.lower axis)

/-- `box_t::extend`; no box stands for the empty one, which extends from plus to minus
infinity. -/
def extend (bounds : Option Box3) (box : Box3) : Option Box3 :=
  match bounds with
  | none => some box
  | some bounds =>
    some
      { lower := fun axis => min (bounds.lower axis) (box.lower axis)
        upper := fun axis => max (bounds.upper axis) (box.upper axis) }

/-- `AMRAccel::Node`. The two bit fields share a word, and `pos` and `numItems` do. -/
structure Node where
  ofs : Fin (2 ^ 30)
  dim : Fin 4
  pos : ℚ
  numItems : Nat

instance offset_ne_zero : NeZero (2 ^ 30) := ⟨Nat.two_pow_pos 30 |>.ne'⟩

/-- `AMRAccel::Node()` -/
def Node.zero : Node := { ofs := 0, dim := 0, pos := 0, numItems := 0 }

variable (data : List Brick)

/-- A pointer to one of the bricks of the input. -/
abbrev BrickPointer := Fin data.length

/-- `AMRAccel::Leaf`; the brick list ends with a null pointer. -/
structure Leaf where
  bounds : Option Box3
  brickList : List (Option (BrickPointer data))

/-- The two arrays of `AMRAccel`. -/
structure AmrAccel where
  node : List Node
  leaf : List (Leaf data)

/-- `std::sort` with the comparison of levels in `makeLeaf`: the order of bricks of one
level is not specified. -/
structure LevelSort where
  sort : List (BrickPointer data) → List (BrickPointer data)
  perm : ∀ bricks, (sort bricks).Perm bricks
  descending : ∀ bricks, (sort bricks).Pairwise fun first second =>
    (data.get second).level ≤ (data.get first).level

/-- Why a construction ends without a tree. -/
inductive BuildError where
  | emptyBox
  | outOfDepth
  deriving DecidableEq

variable {data}

namespace AmrAccel

/-- `makeLeaf` -/
def makeLeaf (self : AmrAccel data) (sorting : LevelSort data) (nodeID : Nat)
    (bounds : Option Box3) (brick : List (BrickPointer data)) : AmrAccel data where
  node := self.node.modify nodeID fun node =>
    { node with dim := 3, ofs := Fin.ofNat _ self.leaf.length, numItems := brick.length }
  leaf := self.leaf ++ [{ bounds, brickList := (sorting.sort brick).map some ++ [none] }]

/-- `makeInner` -/
def makeInner (self : AmrAccel data) (nodeID : Nat) (dim : Fin 3) (pos : ℚ) (childID : Nat) :
    AmrAccel data :=
  { self with
    node := self.node.modify nodeID fun node =>
      { node with dim := dim.castSucc, pos, ofs := Fin.ofNat _ childID } }

end AmrAccel

/-- The faces of the bricks that `buildRec` collects along one dimension. -/
def possibleSplits (bounds : Box3) (brick : List (BrickPointer data)) (dim : Fin 3) :
    SortedSet ℚ :=
  brick.foldl (fun splits b =>
    let clipped := intersectionOf bounds (data.get b).worldBounds
    let splits := if clipped.lower dim ≠ bounds.lower dim then splits.insert (clipped.lower dim)
      else splits
    if clipped.upper dim ≠ bounds.upper dim then splits.insert (clipped.upper dim) else splits)
    SortedSet.empty

/-- The widest of the dimensions with a possible split. -/
def bestDim (bounds : Box3) (splits : Fin 3 → SortedSet ℚ) : Option (Fin 3) :=
  (List.finRange 3).foldl (fun best dim =>
    if (splits dim).elements = [] then best
    else match best with
      | none => some dim
      | some best =>
        if bounds.upper dim - bounds.lower dim > bounds.upper best - bounds.lower best then some dim
        else some best) none

/-- The first of the splits closest to the middle; none stands for infinity, which any
split is closer than. -/
def bestPos (mid : ℚ) (splits : List ℚ) : Option ℚ :=
  splits.foldl (fun best split => match best with
    | none => some split
    | some best => if |split - mid| < |best - mid| then some split else some best) none

/-- The plane `buildRec` cuts a region by. -/
def bestSplit (bounds : Box3) (brick : List (BrickPointer data)) : Option (Fin 3 × ℚ) := do
  let dim ← bestDim bounds (possibleSplits bounds brick)
  let pos ← bestPos ((bounds.lower dim + bounds.upper dim) / 2)
    (possibleSplits bounds brick dim).elements
  some (dim, pos)

/-- The bricks of the left and of the right region; a straddling brick is in both. -/
def distribute (bounds : Box3) (dim : Fin 3) (pos : ℚ) (brick : List (BrickPointer data)) :
    Except BuildError (List (BrickPointer data) × List (BrickPointer data)) :=
  brick.foldlM (fun (l, r) b =>
    let wb := intersectionOf (data.get b).worldBounds bounds
    if isEmpty wb then .error .emptyBox
    else if wb.lower dim ≥ pos then .ok (l, r ++ [b])
    else if wb.upper dim ≤ pos then .ok (l ++ [b], r)
    else .ok (l ++ [b], r ++ [b])) ([], [])

/-- `buildRec`. The left region is built first; the array grows meanwhile. A region
without bricks is reported and built all the same. -/
def buildRec (sorting : LevelSort data) :
    Nat → AmrAccel data → Nat → Box3 → List (BrickPointer data) →
      Except BuildError (AmrAccel data)
  | 0, _, _, _, _ => .error .outOfDepth
  | depth + 1, accel, nodeID, bounds, brick =>
    match bestSplit bounds brick with
    | none => .ok (accel.makeLeaf sorting nodeID (some bounds) brick)
    | some (dim, pos) => do
      let (l, r) ← distribute bounds dim pos brick
      let newNodeID := accel.node.length
      let inner := accel.makeInner nodeID dim pos newNodeID
      let grown : AmrAccel data := { inner with node := inner.node ++ [Node.zero, Node.zero] }
      let built ← buildRec sorting depth grown newNodeID (bounds.below dim pos) l
      buildRec sorting depth built (newNodeID + 1) (bounds.above dim pos) r

/-- The bounding box of all bricks. -/
def worldBounds (data : List Brick) : Option Box3 :=
  data.foldl (fun bounds b => extend bounds b.worldBounds) none

/-- The constructor. Without bricks the bounds are empty and have no face inside. -/
def AmrAccel.construct (sorting : LevelSort data) (depth : Nat) :
    Except BuildError (AmrAccel data) :=
  let root : AmrAccel data := { node := [Node.zero], leaf := [] }
  match worldBounds data with
  | none => .ok (root.makeLeaf sorting 0 none [])
  | some bounds => buildRec sorting depth root 0 bounds (List.finRange data.length)

/-- The descent of `findCell` to the number of a leaf. -/
def AmrAccel.descend (self : AmrAccel data) (point : Vec3) : Nat → Nat → Option Nat
  | 0, _ => none
  | steps + 1, nodeID => do
    let node ← self.node[nodeID]?
    if inner : node.dim.val < 3 then
      if point ⟨node.dim.val, inner⟩ ≥ node.pos then self.descend point steps (node.ofs.val + 1)
      else self.descend point steps node.ofs.val
    else some node.ofs.val

/-- Following all child references from a node: the nodes met, each as often as it is met. -/
def AmrAccel.reached (self : AmrAccel data) : Nat → Nat → List Nat
  | 0, _ => []
  | steps + 1, nodeID =>
    match self.node[nodeID]? with
    | none => [nodeID]
    | some node =>
      if node.dim.val < 3 then
        nodeID :: (self.reached steps node.ofs.val ++ self.reached steps (node.ofs.val + 1))
      else [nodeID]

end Ospray.Amr
