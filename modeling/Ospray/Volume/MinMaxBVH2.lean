import Mathlib.Algebra.Order.Field.Rat
import Mathlib.Data.Fin.VecNotation
import Mathlib.Tactic.Linarith
import Ospray.Library.Hulls
import Ospray.Library.Partitions
import Ospray.Library.StackTraversals

/-!
# Building a bounding volume hierarchy

Boxes in space, each with a range of values, are put into a binary tree. The boxes of a
node are divided at the middle of the box around their centers. The references to the boxes
are partitioned in place, and the nodes of the two parts appended to the nodes there are,
until dividing them does not pay. A node refers to its pair of children, or to the part of
the references that is its own. The arithmetic is exact.
-/

namespace Ospray.Unstructured

open Library.BoxTrees Library.Hulls Library.Partitions Library.StackTraversals

/-- `box4f`: a box in space, and a range of values in the last component -/
abbrev Box4 := Box (Fin 4) ℚ

/-- The first three components of a `vec4f`. -/
def xyz (vector : Fin 4 → ℚ) : Fin 3 → ℚ := fun dim => vector dim.castSucc

/-- `center` -/
def center {axes : Nat} (box : Box (Fin axes) ℚ) : Fin axes → ℚ :=
  fun axis => 1 / 2 * (box.lower axis + box.upper axis)

/-- `arg_max` of a `vec3f` -/
def argMax (v : Fin 3 → ℚ) : Fin 3 :=
  [1, 2].foldl (fun maxIdx i => if v i > v maxIdx then i else maxIdx) 0

/-- `safeArea` -/
def safeArea (b : Box4) : ℚ :=
  let size := xyz fun axis => b.upper axis - b.lower axis
  let f := size 0 * size 1 + size 0 * size 2 + size 1 * size 2
  max |f| (1 / 10 ^ 20)

/-- `MinMaxBVH2::Node`; the empty box has infinite bounds. -/
structure Node where
  bounds : Option Box4
  childRef : Nat

/-- `Node()` -/
instance : Inhabited Node := ⟨⟨none, 0⟩⟩

/-- `MinMaxBVH2`. The arrays of references have a fixed size. -/
structure MinMaxBVH2 where
  node : List Node
  primID : Nat → Nat
  root : Nat
  overallBounds : Option Box4

/-- A hierarchy that is built, and the other array. -/
structure Building where
  node : List Node
  primID : Nat → Nat
  overallBounds : Option Box4
  tmp_primID : Nat → Nat

section Boxes

variable (primBounds : Nat → Box4)

/-- The box around some primitives. -/
def boundsOf (prims : List Nat) : Option Box4 := hullOf (prims.map primBounds)

/-- The box around their centers; a point extends a box as the box of this point does. -/
def centBoundsOf (prims : List Nat) : Option (Box (Fin 3) ℚ) :=
  hullOf (prims.map fun prim => ⟨xyz (center (primBounds prim)), xyz (center (primBounds prim))⟩)

/-- The `dim` that primitives are divided along. -/
def splitDim (centBounds : Option (Box (Fin 3) ℚ)) : Fin 3 :=
  match centBounds with
  | some centBounds => argMax fun axis => centBounds.upper axis - centBounds.lower axis
  | none => 0

/-- The `pos` that they are divided at. -/
def splitPos (centBounds : Option (Box (Fin 3) ℚ)) : ℚ :=
  match centBounds with
  | some centBounds => center centBounds (splitDim (some centBounds))
  | none => 0

/-- A primitive belongs to the left part. -/
def goesLeft (centBounds : Option (Box (Fin 3) ℚ)) (prim : Nat) : Bool :=
  xyz (center (primBounds prim)) (splitDim centBounds) < splitPos centBounds

/-- The state of the loop that divides the primitives. -/
structure Dividing extends Progress Nat where
  lBounds : Option Box4
  rBounds : Option Box4

/-- One iteration of that loop. -/
def divideStep (centBounds : Option (Box (Fin 3) ℚ)) (dividing : Dividing) (prim : Nat) : Dividing :=
  { place (goesLeft primBounds centBounds) dividing.toProgress prim with
    lBounds := if goesLeft primBounds centBounds prim then extend dividing.lBounds (primBounds prim)
      else dividing.lBounds
    rBounds := if goesLeft primBounds centBounds prim then dividing.rBounds
      else extend dividing.rBounds (primBounds prim) }

/-- `costIfSplit`. The area of an empty box is infinite, and its product with the size of the empty
part is not a number, which is `none`. -/
def costIfSplit (bounds4 lBounds rBounds : Option Box4) (left right : Nat) : Option ℚ :=
  match bounds4, lBounds, rBounds with
  | some bounds4, some lBounds, some rBounds =>
    some (1 + 1 / safeArea bounds4 * (safeArea lBounds * left + safeArea rBounds * right))
  | _, _, _ => none

/-- The primitives from `begin` to `end` become a leaf. A comparison with what is not a number fails. -/
def isLeaf (bounds4 lBounds rBounds : Option Box4) (begin_ l end_ : Nat) : Bool :=
  let costNoSplit : ℚ := 1 + (end_ - begin_ : Nat)
  (costIfSplit bounds4 lBounds rBounds (l - begin_) (end_ - l)).any (fun cost => cost ≥ costNoSplit) &&
      end_ - begin_ ≤ 7 ||
    l == begin_ || l == end_

/-- The loop that divides the primitives from `begin` to `end`. -/
def divide (building : Building) (begin_ end_ : Nat) : Dividing :=
  let prims := slice building.primID begin_ end_
  prims.foldl (divideStep primBounds (centBoundsOf primBounds prims))
    ⟨⟨begin_, end_, building.tmp_primID⟩, none, none⟩

/-- The part of `buildRec` before the test for a leaf. -/
def partition (nodeID begin_ end_ : Nat) (building : Building) : Building :=
  let bounds4 := boundsOf primBounds (slice building.primID begin_ end_)
  let dividing := divide primBounds building begin_ end_
  { building with
    overallBounds := if nodeID = 0 then bounds4 else building.overallBounds
    primID := fun i => if begin_ ≤ i ∧ i < end_ then dividing.target i else building.primID i
    tmp_primID := dividing.target }

/-- The test for a leaf. -/
def stops (building : Building) (begin_ end_ : Nat) : Bool :=
  let dividing := divide primBounds building begin_ end_
  isLeaf (boundsOf primBounds (slice building.primID begin_ end_)) dividing.lBounds dividing.rBounds
    begin_ dividing.left end_

end Boxes

/-- The size of a `Node` in bytes. -/
def sizeOfNode : Nat := 40

/-! ## Dividing a list -/

section Lists

variable (primBounds : Nat → Box4) (prims : List Nat)

/-- The primitives of the left part, -/
def lefts : List Nat := passing (goesLeft primBounds (centBoundsOf primBounds prims)) prims

/-- and those of the right part. -/
def rights : List Nat := failing (goesLeft primBounds (centBoundsOf primBounds prims)) prims

/-- A list of primitives is not divided. -/
def undivided : Bool :=
  isLeaf (boundsOf primBounds prims) (boundsOf primBounds (lefts primBounds prims))
    (boundsOf primBounds (rights primBounds prims)) 0 (lefts primBounds prims).length prims.length

theorem parts_length : (lefts primBounds prims).length + (rights primBounds prims).length = prims.length :=
  partition_length _ _

/-- Where the loop that divides the primitives ends. -/
theorem divide_eq (building : Building) {begin_ end_ : Nat} (ordered : begin_ ≤ end_) :
    let prims := slice building.primID begin_ end_
    let dividing := divide primBounds building begin_ end_
    dividing.left = begin_ + (lefts primBounds prims).length ∧
      slice dividing.target begin_ dividing.left = lefts primBounds prims ∧
      slice dividing.target dividing.left end_ = rights primBounds prims ∧
      dividing.lBounds = boundsOf primBounds (lefts primBounds prims) ∧
      dividing.rBounds = boundsOf primBounds (rights primBounds prims) := by
  intro prims dividing
  have projects : ∀ (centBounds : Option (Box (Fin 3) ℚ)) (entries : List Nat) (start : Dividing),
      let result := entries.foldl (divideStep primBounds centBounds) start
      result.toProgress = entries.foldl (place (goesLeft primBounds centBounds)) start.toProgress ∧
        result.lBounds = ((passing (goesLeft primBounds centBounds) entries).map primBounds).foldl
          extend start.lBounds ∧
        result.rBounds = ((failing (goesLeft primBounds centBounds) entries).reverse.map
          primBounds).foldl extend start.rBounds := by
    intro centBounds entries
    induction entries with
    | nil => exact fun _ => ⟨rfl, rfl, rfl⟩
    | cons entry rest inductionHypothesis =>
      intro start
      obtain ⟨progress, left, right⟩ := inductionHypothesis (divideStep primBounds centBounds start entry)
      refine ⟨progress, left.trans ?_, right.trans ?_⟩
      · by_cases goes : goesLeft primBounds centBounds entry = true
        · rw [passing_cons_of_pos goes, List.map_cons, List.foldl_cons]
          simp only [divideStep, goes, if_true]
        · rw [passing_cons_of_neg goes]
          simp only [divideStep, goes, if_false, Bool.false_eq_true]
      · by_cases goes : goesLeft primBounds centBounds entry = true
        · rw [failing_cons_of_pos goes]
          simp only [divideStep, goes, if_true]
        · rw [failing_cons_of_neg goes, List.reverse_append, List.reverse_singleton,
            List.singleton_append, List.map_cons, List.foldl_cons]
          simp only [divideStep, goes, if_false, Bool.false_eq_true]
  obtain ⟨progress, left, right⟩ := projects (centBoundsOf primBounds prims) prims
    ⟨⟨begin_, end_, building.tmp_primID⟩, none, none⟩
  have size : prims.length = end_ - begin_ := length_slice _ _ _
  obtain ⟨leftEnd, rightEnd, low, high, -⟩ :=
    @place_foldl _ (goesLeft primBounds (centBoundsOf primBounds prims)) prims
      ⟨begin_, end_, building.tmp_primID⟩ (by
        change begin_ + prims.length ≤ end_
        omega)
  have total := parts_length primBounds prims
  rw [← progress] at leftEnd rightEnd low high
  change dividing.left = begin_ + (lefts primBounds prims).length at leftEnd
  change dividing.right + (rights primBounds prims).length = end_ at rightEnd
  have meet : dividing.right = dividing.left := by omega
  refine ⟨leftEnd, low, ?_, left, right.trans (hullOf_perm ?_)⟩
  · rw [← meet]
    exact high
  · exact (List.reverse_perm _).map primBounds

theorem isLeaf_shift (bounds4 lBounds rBounds : Option Box4) (begin_ left count : Nat) :
    isLeaf bounds4 lBounds rBounds begin_ (begin_ + left) (begin_ + count) =
      isLeaf bounds4 lBounds rBounds 0 left count := by
  have first : (begin_ + left == begin_) = (left == 0) := by
    rw [Bool.eq_iff_iff, beq_iff_eq, beq_iff_eq]
    omega
  have last : (begin_ + left == begin_ + count) = (left == count) := by
    rw [Bool.eq_iff_iff, beq_iff_eq, beq_iff_eq]
    omega
  simp only [isLeaf, Nat.add_sub_cancel_left, Nat.add_sub_add_left, first, last, Nat.sub_zero]

theorem stops_eq (building : Building) {begin_ end_ : Nat} (ordered : begin_ ≤ end_) :
    stops primBounds building begin_ end_ =
      undivided primBounds (slice building.primID begin_ end_) := by
  obtain ⟨left, -, -, lBounds, rBounds⟩ := divide_eq primBounds building ordered
  have size : (slice building.primID begin_ end_).length = end_ - begin_ := length_slice _ _ _
  have whole : end_ = begin_ + (slice building.primID begin_ end_).length := by omega
  simp only [stops, undivided, left, lBounds, rBounds]
  generalize slice building.primID begin_ end_ = prims at whole ⊢
  rw [whole, isLeaf_shift]

variable {primBounds prims}

theorem parts_of_divided (divided : ¬ undivided primBounds prims = true) :
    0 < (lefts primBounds prims).length ∧ 0 < (rights primBounds prims).length := by
  have total := parts_length primBounds prims
  simp only [undivided, isLeaf, Bool.not_eq_true, Bool.or_eq_false_iff, beq_eq_false_iff_ne] at divided
  omega

variable (primBounds) in
/-- The tree of a list of primitives. -/
def midpointTree (prims : List Nat) : LabelTree Unit (List Nat) :=
  if undivided primBounds prims then
    .leaf (lefts primBounds prims ++ rights primBounds prims)
  else
    .inner () (midpointTree (lefts primBounds prims)) (midpointTree (rights primBounds prims))
termination_by prims.length
decreasing_by
  all_goals
    rename_i divided
    have parts := parts_of_divided divided
    have total := parts_length primBounds prims
    omega

end Lists

/-! ## The builder -/

variable (primBounds : Nat → Box4)

/-- Where the parts of a divided range meet. -/
theorem between_of_divided {building : Building} {begin_ end_ : Nat}
    (divided : ¬ stops primBounds building begin_ end_ = true) :
    begin_ < (divide primBounds building begin_ end_).left ∧
      (divide primBounds building begin_ end_).left < end_ := by
  by_cases ordered : begin_ ≤ end_
  · have list := stops_eq primBounds building ordered
    rw [list] at divided
    have parts := parts_of_divided divided
    have total := parts_length primBounds (slice building.primID begin_ end_)
    rw [length_slice] at total
    rw [(divide_eq primBounds building ordered).1]
    omega
  · have none_ : slice building.primID begin_ end_ = [] :=
      List.length_eq_zero_iff.mp (by rw [length_slice]; omega)
    have left : (divide primBounds building begin_ end_).left = begin_ := by
      rw [divide, none_]
      rfl
    refine absurd ?_ divided
    simp [stops, isLeaf, left]

/-- A node becomes an inner one: it refers to two nodes that are appended. -/
def openNode (nodeID : Nat) (bounds4 : Option Box4) (building : Building) : Building :=
  let childID := building.node.length
  { building with
    node := building.node.set nodeID ⟨bounds4, childID * sizeOfNode⟩ ++ [default, default] }

/-- `MinMaxBVH2::buildRec` -/
def buildRec (nodeID begin_ end_ : Nat) (building : Building) : Building :=
  let bounds4 := boundsOf primBounds (slice building.primID begin_ end_)
  let l := (divide primBounds building begin_ end_).left
  let parted := partition primBounds nodeID begin_ end_ building
  if stops primBounds building begin_ end_ then
    -- `sizeof(primID[0])` is 8
    { parted with node := parted.node.set nodeID ⟨bounds4, end_ - begin_ + begin_ * 8⟩ }
  else
    let childID := parted.node.length
    buildRec (childID + 1) l end_ (buildRec childID begin_ l (openNode nodeID bounds4 parted))
termination_by end_ - begin_
decreasing_by
  all_goals
    rename_i divided
    have parts := between_of_divided primBounds divided
    omega

/-- `MinMaxBVH2::build` -/
def build (primRefs : Nat → Nat) (numPrims : Nat) : MinMaxBVH2 :=
  let built := buildRec primBounds 0 0 numPrims
    { node := [default, default], primID := primRefs, overallBounds := none, tmp_primID := fun _ => 0 }
  { node := built.node
    primID := built.primID
    root := (built.node.getD 0 default).childRef
    overallBounds := built.overallBounds }

end Ospray.Unstructured
