import Mathlib.Data.Fintype.Pi
import Ospray.Volume.DualLookup

/-!
# Octants

The octant method interpolates between the center of a cell and one of its vertices. The
values at the corners of the octant between are averages of cells around where these are
leaves of one width. Where a neighbor is coarser, they are left to the octant of the
coarsest one. Where a neighbor is finer, they are averages of the leaves among the cells of
the width around the corner.
-/

namespace Ospray.Amr

/-! ## Dual cells for one lane -/

/-- The eight corners in the order of their numbers. -/
def corners : List Corner :=
  [![false, false, false], ![true, false, false], ![false, true, false], ![true, true, false],
    ![false, false, true], ![true, false, true], ![false, true, true], ![true, true, true]]

/-- `C000` -/
def C000 : Corner := ![false, false, false]

/-- `C001` -/
def C001 : Corner := ![true, false, false]

/-- `C010` -/
def C010 : Corner := ![false, true, false]

/-- `C011` -/
def C011 : Corner := ![true, true, false]

/-- `C100` -/
def C100 : Corner := ![false, false, true]

/-- `C101` -/
def C101 : Corner := ![true, false, true]

/-- `C110` -/
def C110 : Corner := ![false, true, true]

/-- `C111` -/
def C111 : Corner := ![true, true, true]

/-- `lerp`: the values at the corners, by the weights of the upper ones along each axis -/
def lerp (w : Vec3) (value : Corner → ℚ) : ℚ :=
  let f00 := (1 - w 0) * value C000 + w 0 * value C001
  let f01 := (1 - w 0) * value C010 + w 0 * value C011
  let f10 := (1 - w 0) * value C100 + w 0 * value C101
  let f11 := (1 - w 0) * value C110 + w 0 * value C111
  let f0 := (1 - w 1) * f00 + w 1 * f01
  let f1 := (1 - w 1) * f10 + w 1 * f11
  (1 - w 2) * f0 + w 2 * f1

/-- The cell that `initDualCell` starts from: the one whose center is at or before a position along each axis. -/
def initDualCell (P : Vec3) (cellWidth : ℚ) : DualCellID where
  pos axis := ⌊(P axis - cellWidth * (1 / 2)) * (1 / cellWidth)⌋ * cellWidth + cellWidth * (1 / 2)
  width := cellWidth

/-- `weights` in `initDualCell` -/
def dualWeights (P : Vec3) (cellWidth : ℚ) : Vec3 := fun axis =>
  (P axis - cellWidth * (1 / 2)) * (1 / cellWidth) - ⌊(P axis - cellWidth * (1 / 2)) * (1 / cellWidth)⌋

variable {data : List Brick} {V : Type}

/-- The corners of a dual cell, all of which have been written. -/
def readCorners (dual : Corner → Option (CornerValue V)) : Option (Corner → CornerValue V) :=
  if written : ∀ c, (dual c).isSome then some fun c => (dual c).get (written c) else none

namespace AMR

/-- `findDualCell` for one lane -/
def dualCellAt (amr : AMR data V) (fuel : Nat) (id : DualCellID) : Option (Corner → CornerValue V) := do
  let dual ← amr.findDualCell fuel (fun _ => id) (oneWidth fun _ => id)
  readCorners (dual ())

/-- `findMirroredDualCell` for one lane -/
def mirroredDualCellAt (amr : AMR data V) (fuel : Nat) (mirror : Corner) (id : DualCellID) :
    Option (Corner → CornerValue V) := do
  let dual ← amr.findMirroredDualCell fuel (fun _ => id) (fun _ => mirror) (oneWidth fun _ => id)
  readCorners (dual ())

end AMR

/-! ## The octant method -/

/-- `centerOf` -/
def centerOf (C : CellRef V) : Vec3 := fun axis => C.pos axis + 1 / 2 * C.width

/-- `Octant`: which half of the cell it is in along each axis, its two extremes and the weights for a position -/
structure Octant where
  mirror : Corner
  center : Vec3
  vertex : Vec3
  weights : Vec3

/-- `signs` -/
def Octant.signs (O : Octant) : Vec3 := fun axis => if O.mirror axis then -1 else 1

/-- The octant in `initOctantAndDual` -/
def initOctant (P : Vec3) (C : CellRef V) : Octant where
  mirror := fun axis => decide (P axis < centerOf C axis)
  center := centerOf C
  vertex := fun axis => centerOf C axis + (if P axis < centerOf C axis then -1 else 1) * (C.width * (1 / 2))
  weights := fun axis => |P axis - centerOf C axis| * (2 * (1 / C.width))

/-- The dual cell in `initOctantAndDual`, with its correction for positions on a right-side plane -/
def initDual (P : Vec3) (C : CellRef V) : DualCellID where
  pos axis :=
    let pos := (initDualCell P C.width).pos axis
    if P axis - pos ≥ C.width then pos + C.width else pos
  width := C.width

/-- What is to be done for a corner: it has a value, it is left to the cell at a position with some width, or it is a
boundary where the cell is the coarsest one. -/
inductive Fill where
  | value (v : ℚ)
  | needToFillFrom (pos : Vec3) (width : ℚ)
  | boundary

section Corners

variable (O : Octant) (C : CellRef ℚ) (D : Corner → CornerValue ℚ)

/-- `isCoarser` -/
def isCoarser (width : ℚ) (than : ℚ) : Prop := width > than

instance (width than : ℚ) : Decidable (isCoarser width than) := inferInstanceAs (Decidable (_ > _))

/-- The center of the neighbor at a corner, where it is coarser. -/
def neighbor (c : Corner) : Vec3 := fun axis =>
  if c axis then O.center axis + 1 / 2 * (C.width + (D c).actualWidth) * O.signs axis else O.center axis

/-- The first of the coarsest neighbors at some corners, from the cell itself on. -/
def coarsest (candidates : List Corner) : Vec3 × ℚ :=
  candidates.foldl (fun best c =>
    if isCoarser (D c).actualWidth best.2 then (neighbor O C D c, (D c).actualWidth) else best) (C.pos, C.width)

/-- The sides touch one neighbor. -/
def side (c : Corner) : Fill :=
  if (D c).actualWidth = C.width ∧ (D c).isLeaf = true then .value (1 / 2 * (C.value + (D c).value))
  else if isCoarser (D c).actualWidth C.width then .needToFillFrom (neighbor O C D c) (D c).actualWidth
  else .boundary

/-- The edges touch three neighbors: one along each of two axes, and the one along both. -/
def edge (first second both : Corner) : Fill :=
  if isCoarser (max (max (D first).actualWidth (D second).actualWidth) (D both).actualWidth) C.width then
    .needToFillFrom (coarsest O C D [first, second, both]).1 (coarsest O C D [first, second, both]).2
  else if ¬((D first).isLeaf = true ∧ (D second).isLeaf = true ∧ (D both).isLeaf = true) then .boundary
  else .value (1 / 4 * (C.value + (D first).value + (D second).value + (D both).value))

/-- `maxWidth` over all corners -/
def maxWidth : ℚ :=
  max (max (max (D C000).actualWidth (D C001).actualWidth) (max (D C010).actualWidth (D C011).actualWidth))
    (max (max (D C100).actualWidth (D C101).actualWidth) (max (D C110).actualWidth (D C111).actualWidth))

/-- The vertex touches all seven neighbors. -/
def vertexFill : Fill :=
  if maxWidth D = C.width ∧ ∀ c ∈ corners, (D c).isLeaf = true then
    .value (1 / 8 * (corners.map fun c => (D c).value).sum)
  else if isCoarser (maxWidth D) C.width then
    .needToFillFrom (coarsest O C D corners.tail).1 (coarsest O C D corners.tail).2
  else .boundary

/-- What is to be done for each corner. The center is always the value of the cell. -/
def fill (c : Corner) : Fill :=
  if c = C000 then .value C.value
  else if c = C001 then side O C D C001
  else if c = C010 then side O C D C010
  else if c = C100 then side O C D C100
  else if c = C011 then edge O C D C001 C010 C011
  else if c = C101 then edge O C D C001 C100 C101
  else if c = C110 then edge O C D C010 C100 C110
  else vertexFill O C D

/-- The position of a corner, between the center and the vertex. -/
def vtxPos (c : Corner) : Vec3 := fun axis => if c axis then O.vertex axis else O.center axis

end Corners

namespace AMR

variable (amr : AMR data ℚ) (fuel : Nat)

/-- `coarseBoundaryValue`. It is undefined where no corner is a leaf. -/
def coarseBoundaryValue (P : Vec3) (currentWidth : ℚ) : Option ℚ := do
  let D ← amr.dualCellAt fuel (initDualCell P currentWidth)
  let leaves := corners.filter fun c => (D c).isLeaf
  let sumWeights : ℚ := leaves.length
  let sumWeighted := (leaves.map fun c => (D c).value).sum
  if sumWeights = 0 then none else some (sumWeighted / sumWeights)

/-- The values of all corners, where each is defined. -/
def allCorners (value : Corner → Option ℚ) : Option (Corner → ℚ) :=
  if defined : ∀ c, (value c).isSome then some fun c => (value c).get (defined c) else none

/-- `doOctant`, with a bound on its recursion -/
def doOctant : Nat → CellRef ℚ → Vec3 → Option ℚ
  | 0, _, _ => none
  | depth + 1, C, P => do
    let O := initOctant P C
    let D ← amr.mirroredDualCellAt fuel O.mirror (initDual P C)
    let value ← allCorners fun c =>
      match fill O C D c with
      | .value v => some v
      | .boundary => amr.coarseBoundaryValue fuel (vtxPos O c) C.width
      | .needToFillFrom pos width =>
        (amr.findCell fuel pos width).bind fun fillFrom => doOctant depth fillFrom (vtxPos O c)
    some (lerp O.weights value)

end AMR

end Ospray.Amr
