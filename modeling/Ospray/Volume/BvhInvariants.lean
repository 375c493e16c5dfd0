import Ospray.Volume.MinMaxBVH2

/-!
# What is built

The builder leaves a tree in its array of nodes that is the one of the list of primitives.
The references of a node stand next to each other, those of its left child first, and its
box is the one around their primitives. Each pair of nodes that was appended belongs to one
inner node.
-/

namespace Ospray.Unstructured

open Library.BoxTrees Library.Hulls Library.Partitions Library.StackTraversals

variable (primBounds : Nat → Box4)

/-! ## The tree of a list -/

section Lists

variable {primBounds} {prims : List Nat}

theorem midpointTree_of_undivided (whole : undivided primBounds prims = true) :
    midpointTree primBounds prims = .leaf (lefts primBounds prims ++ rights primBounds prims) := by
  rw [midpointTree, if_pos whole]

theorem midpointTree_of_divided (divided : ¬ undivided primBounds prims = true) :
    midpointTree primBounds prims = .inner () (midpointTree primBounds (lefts primBounds prims))
      (midpointTree primBounds (rights primBounds prims)) := by
  rw [midpointTree, if_neg divided]

theorem parts_perm (prims : List Nat) :
    (lefts primBounds prims ++ rights primBounds prims).Perm prims :=
  partition_perm _ _

theorem midpoint_induction {motive : List Nat → Prop}
    (whole : ∀ prims, undivided primBounds prims = true → motive prims)
    (divided : ∀ prims, ¬ undivided primBounds prims = true → motive (lefts primBounds prims) →
      motive (rights primBounds prims) → motive prims) (prims : List Nat) : motive prims := by
  induction size : prims.length using Nat.strongRecOn generalizing prims with
  | ind size inductionHypothesis =>
    by_cases stop : undivided primBounds prims = true
    · exact whole prims stop
    · have parts := parts_of_divided stop
      have total := parts_length primBounds prims
      exact divided prims stop (inductionHypothesis _ (by omega) _ rfl)
        (inductionHypothesis _ (by omega) _ rfl)

theorem midpointTree_perm (prims : List Nat) :
    (midpointTree primBounds prims).leaves.flatten.Perm prims := by
  induction prims using midpoint_induction with
  | whole prims stop =>
    rw [midpointTree_of_undivided stop, LabelTree.leaves, List.flatten_singleton]
    exact parts_perm prims
  | divided prims goes left right =>
    rw [midpointTree_of_divided goes, LabelTree.leaves, List.flatten_append]
    exact (left.append right).trans (parts_perm prims)

theorem leaf_nonempty (some_ : prims ≠ []) :
    ∀ leaf ∈ (midpointTree primBounds prims).leaves, leaf ≠ [] := by
  induction prims using midpoint_induction with
  | whole prims stop =>
    rw [midpointTree_of_undivided stop]
    intro leaf member
    rw [List.mem_singleton.mp member]
    intro none_
    have total := (@parts_perm primBounds prims).length_eq
    rw [none_] at total
    exact some_ (List.length_eq_zero_iff.mp total.symm)
  | divided prims goes left right =>
    rw [midpointTree_of_divided goes]
    have parts := parts_of_divided goes
    intro leaf member
    obtain inLeft | inRight := List.mem_append.mp member
    · exact left (List.ne_nil_of_length_pos parts.1) leaf inLeft
    · exact right (List.ne_nil_of_length_pos parts.2) leaf inRight

end Lists

/-! ## The tree in the array -/

/-- A leaf that was built. -/
structure Leaf where
  begin_ : Nat
  prims : List Nat

/-- The tree that was built; an inner node has the slot of the first one of its children. -/
abbrev BuiltTree := LabelTree Nat Leaf

namespace BuiltTree

/-- The primitives of a node. -/
def prims : BuiltTree → List Nat
  | .leaf item => item.prims
  | .inner _ left right => prims left ++ prims right

/-- The first of its references, -/
def first : BuiltTree → Nat
  | .leaf item => item.begin_
  | .inner _ left _ => first left

/-- and the one behind the last. -/
def last (tree : BuiltTree) : Nat := first tree + (prims tree).length

/-- The reference to a node that the builder means to write. -/
def childRef : BuiltTree → Nat
  | .leaf item => item.prims.length + item.begin_ * 8
  | .inner childID _ _ => childID * sizeOfNode

/-- The slots of the children of all inner nodes. -/
def children : BuiltTree → List Nat
  | .leaf _ => []
  | .inner childID left right => childID :: (childID + 1) :: (children left ++ children right)

/-- All nodes, with their slots. -/
def nodes : Nat → BuiltTree → List (Nat × BuiltTree)
  | slot, .leaf item => [(slot, .leaf item)]
  | slot, .inner childID left right =>
    (slot, .inner childID left right) :: (nodes childID left ++ nodes (childID + 1) right)

/-- The tree of the list that it is. -/
def shape (tree : BuiltTree) : LabelTree Unit (List Nat) := tree.map (fun _ => ()) Leaf.prims

/-- The references of the nodes follow one another. -/
def Placed : Nat → BuiltTree → Prop
  | begin_, .leaf item => item.begin_ = begin_
  | begin_, .inner _ left right => Placed begin_ left ∧ Placed (begin_ + (prims left).length) right

/-- The nodes stand in their slots. -/
def Encodes (node : List Node) (slot : Nat) (tree : BuiltTree) : Prop :=
  ∀ entry ∈ nodes slot tree,
    node[entry.1]? = some ⟨boundsOf primBounds (prims entry.2), childRef entry.2⟩

variable {primBounds} {node other : List Node} {slot begin_ : Nat} {tree : BuiltTree}

theorem prims_eq (tree : BuiltTree) : prims tree = (shape tree).leaves.flatten := by
  rw [shape, LabelTree.leaves_map]
  induction tree with
  | leaf item => rw [prims, LabelTree.leaves, List.map_singleton, List.flatten_singleton]
  | inner childID left right leftSame rightSame =>
    rw [prims, leftSame, rightSame, LabelTree.leaves, List.map_append, List.flatten_append]

theorem nodes_perm (slot : Nat) (tree : BuiltTree) :
    ((nodes slot tree).map Prod.fst).Perm (slot :: children tree) := by
  induction tree generalizing slot with
  | leaf item => exact .refl _
  | inner childID left right leftSame rightSame =>
    rw [nodes, children, List.map_cons, List.map_append]
    apply List.Perm.cons slot
    apply ((leftSame childID).append (rightSame (childID + 1))).trans
    exact List.Perm.cons childID List.perm_middle

theorem mem_nodes_self (slot : Nat) (tree : BuiltTree) : (slot, tree) ∈ nodes slot tree := by
  cases tree with
  | leaf item => exact List.mem_cons_self
  | inner childID left right => exact List.mem_cons_self

/-- What children inherit from their parent holds of all nodes. -/
theorem forall_nodes (inherited : BuiltTree → Prop)
    (inherits : ∀ childID left right, inherited (.inner childID left right) →
      inherited left ∧ inherited right)
    (holds : inherited tree) : ∀ entry ∈ nodes slot tree, inherited entry.2 := by
  induction tree generalizing slot with
  | leaf item =>
    intro entry member
    rw [List.mem_singleton.mp member]
    exact holds
  | inner childID left right leftHolds rightHolds =>
    obtain ⟨left_, right_⟩ := inherits childID left right holds
    intro entry member
    obtain rfl | below := List.mem_cons.mp member
    · exact holds
    · obtain inLeft | inRight := List.mem_append.mp below
      · exact leftHolds left_ entry inLeft
      · exact rightHolds right_ entry inRight

theorem slot_mem {entry : Nat × BuiltTree} (member : entry ∈ nodes slot tree) :
    entry.1 = slot ∨ entry.1 ∈ children tree :=
  List.mem_cons.mp ((nodes_perm slot tree).mem_iff.mp (List.mem_map_of_mem member))

theorem Encodes.congr (encodes : Encodes primBounds node slot tree)
    (same : ∀ position, position = slot ∨ position ∈ children tree →
      other[position]? = node[position]?) : Encodes primBounds other slot tree :=
  fun entry member => (same entry.1 (slot_mem member)).trans (encodes entry member)

theorem Placed.first (placed : Placed begin_ tree) : first tree = begin_ := by
  induction tree generalizing begin_ with
  | leaf item => exact placed
  | inner childID left right leftFirst _ => exact leftFirst placed.1

end BuiltTree

open BuiltTree

/-- What the recursion does to a range of references. -/
structure Builds (nodeID begin_ end_ : Nat) (before after : Building) (tree : BuiltTree) : Prop where
  shape : shape tree = midpointTree primBounds (slice before.primID begin_ end_)
  placed : Placed begin_ tree
  written : slice after.primID begin_ end_ = prims tree
  kept : ∀ i, i < begin_ ∨ end_ ≤ i → after.primID i = before.primID i
  encoded : Encodes primBounds after.node nodeID tree
  size : after.node.length = before.node.length + (children tree).length
  others : ∀ slot, slot < before.node.length → slot ≠ nodeID → after.node[slot]? = before.node[slot]?
  fresh : (children tree).Perm (List.range' before.node.length (children tree).length)

variable {primBounds}

/-- The references after the division of a range. -/
theorem partition_slices (nodeID : Nat) (building : Building) {begin_ end_ : Nat} (ordered : begin_ ≤ end_) :
    let prims := slice building.primID begin_ end_
    let l := (divide primBounds building begin_ end_).left
    let parted := partition primBounds nodeID begin_ end_ building
    begin_ ≤ l ∧ l ≤ end_ ∧ slice parted.primID begin_ l = lefts primBounds prims ∧
      slice parted.primID l end_ = rights primBounds prims := by
  intro prims l parted
  obtain ⟨left, low, high, -, -⟩ := divide_eq primBounds building ordered
  have total := parts_length primBounds (slice building.primID begin_ end_)
  rw [length_slice] at total
  have lower : begin_ ≤ l := by
    change begin_ ≤ (divide primBounds building begin_ end_).left
    omega
  have upper : l ≤ end_ := by
    change (divide primBounds building begin_ end_).left ≤ end_
    omega
  refine ⟨lower, upper, ?_, ?_⟩
  · rw [← low]
    apply slice_congr
    intro index from_ below
    exact if_pos ⟨from_, below.trans_le upper⟩
  · rw [← high]
    apply slice_congr
    intro index from_ below
    exact if_pos ⟨lower.trans from_, below⟩

theorem partition_kept (nodeID : Nat) (building : Building) {begin_ end_ i : Nat}
    (outside : i < begin_ ∨ end_ ≤ i) :
    (partition primBounds nodeID begin_ end_ building).primID i = building.primID i := by
  refine if_neg ?_
  omega

/-- A leaf is built. -/
theorem builds_leaf {nodeID begin_ end_ : Nat} {building : Building} (ordered : begin_ ≤ end_)
    (present : nodeID < building.node.length) (stop : stops primBounds building begin_ end_ = true) :
    ∃ tree, Builds primBounds nodeID begin_ end_ building
      (buildRec primBounds nodeID begin_ end_ building) tree := by
  obtain ⟨low, high, left, right⟩ := @partition_slices primBounds nodeID building _ _ ordered
  have whole : undivided primBounds (slice building.primID begin_ end_) = true := by
    rw [← stops_eq primBounds building ordered]
    exact stop
  have perm := @parts_perm primBounds (slice building.primID begin_ end_)
  have size := perm.length_eq
  rw [length_slice] at size
  refine ⟨.leaf ⟨begin_, lefts primBounds (slice building.primID begin_ end_) ++
    rights primBounds (slice building.primID begin_ end_)⟩, ?_⟩
  rw [buildRec, if_pos stop]
  refine ⟨(midpointTree_of_undivided whole).symm, rfl, ?_, fun i => partition_kept nodeID building,
    ?_, List.length_set, ?_, .nil⟩
  · rw [prims, ← left, ← right]
    exact (slice_append _ low high).symm
  · intro entry member
    rw [List.mem_singleton.mp member]
    change (building.node.set nodeID _)[nodeID]? = _
    rw [List.getElem?_set_self present, prims, childRef, size, boundsOf, boundsOf,
      hullOf_perm (perm.map primBounds)]
  · intro slot _ apart
    exact List.getElem?_set_ne (Ne.symm apart)

section Inner

variable {nodeID begin_ l end_ : Nat} {building : Building} {bounds4 : Option Box4}

theorem openNode_length : (openNode nodeID bounds4 building).node.length = building.node.length + 2 := by
  rw [openNode, List.length_append, List.length_set]
  rfl

/-- The node has its box and refers to the first of the new nodes, -/
theorem openNode_own (present : nodeID < building.node.length) :
    (openNode nodeID bounds4 building).node[nodeID]? =
      some ⟨bounds4, building.node.length * sizeOfNode⟩ := by
  have inside : nodeID < (building.node.set nodeID ⟨bounds4, building.node.length * sizeOfNode⟩).length := by
    rwa [List.length_set]
  rw [openNode, List.getElem?_append_left inside, List.getElem?_set_self present]

/-- and the other nodes are kept. -/
theorem openNode_other {slot : Nat} (below : slot < building.node.length) (apart : slot ≠ nodeID) :
    (openNode nodeID bounds4 building).node[slot]? = building.node[slot]? := by
  have inside : slot < (building.node.set nodeID ⟨bounds4, building.node.length * sizeOfNode⟩).length := by
    rwa [List.length_set]
  rw [openNode, List.getElem?_append_left inside, List.getElem?_set_ne (Ne.symm apart)]

/-- The children of an inner node are built one after the other. What is built for the right one
touches neither the references nor the nodes of the left one. -/
theorem builds_children {between after : Building} {leftTree rightTree : BuiltTree} {count : Nat}
    (size : building.node.length = count + 2) (low : begin_ ≤ l) (high : l ≤ end_)
    (left : Builds primBounds count begin_ l building between leftTree)
    (right : Builds primBounds (count + 1) l end_ between after rightTree) :
    Encodes primBounds after.node count leftTree ∧
      slice after.primID begin_ end_ = prims leftTree ++ prims rightTree ∧
      Placed begin_ (.inner count leftTree rightTree) ∧
      after.node.length = count + (children (.inner count leftTree rightTree)).length ∧
      (children (.inner count leftTree rightTree)).Perm
        (List.range' count (children (.inner count leftTree rightTree)).length) := by
  have leftSize := left.size
  have rightSize := right.size
  have leftSlots : ∀ slot ∈ children leftTree, count + 2 ≤ slot ∧ slot < between.node.length := by
    intro slot member
    have range := List.mem_range'_1.mp (left.fresh.mem_iff.mp member)
    omega
  have leftWritten : slice after.primID begin_ l = prims leftTree := by
    rw [← left.written]
    exact slice_congr fun i _ below => right.kept i (.inl below)
  have leftCount : (prims leftTree).length = l - begin_ := by rw [← left.written, length_slice]
  refine ⟨left.encoded.congr fun position own => ?_, ?_, ⟨left.placed, ?_⟩, ?_, ?_⟩
  · have range : position ≠ count + 1 ∧ position < between.node.length := by
      obtain rfl | child := own
      · omega
      · have bounds := leftSlots position child
        omega
    exact right.others position range.2 range.1
  · rw [← leftWritten, ← right.written, slice_append _ low high]
  · rw [leftCount, Nat.add_sub_cancel' low]
    exact right.placed
  · rw [children]
    simp only [List.length_cons, List.length_append]
    omega
  · have fresh := left.fresh.append right.fresh
    rw [leftSize, size] at fresh
    rw [children]
    simp only [List.length_cons, List.length_append, List.range'_succ]
    refine ((fresh.trans (.of_eq ?_)).cons _).cons _
    rw [← List.range'_append_1]

/-- An inner node is built, from its children. -/
theorem builds_inner (ordered : begin_ ≤ end_) (present : nodeID < building.node.length)
    (divided : ¬ stops primBounds building begin_ end_ = true)
    (recurses : ∀ (nodeID first last : Nat) (building : Building), last - first < end_ - begin_ →
      first ≤ last → nodeID < building.node.length → ∃ tree, Builds primBounds nodeID first last building
        (buildRec primBounds nodeID first last building) tree) :
    ∃ tree, Builds primBounds nodeID begin_ end_ building
      (buildRec primBounds nodeID begin_ end_ building) tree := by
  obtain ⟨low, high, left, right⟩ := @partition_slices primBounds nodeID building _ _ ordered
  obtain ⟨strictLow, strictHigh⟩ := between_of_divided primBounds divided
  have goes : ¬ undivided primBounds (slice building.primID begin_ end_) = true := by
    rw [← stops_eq primBounds building ordered]
    exact divided
  rw [buildRec, if_neg divided]
  have keptParted := fun i => @partition_kept primBounds nodeID building begin_ end_ i
  have nodeParted : (partition primBounds nodeID begin_ end_ building).node = building.node := rfl
  generalize partition primBounds nodeID begin_ end_ building = parted at *
  generalize (divide primBounds building begin_ end_).left = l at *
  dsimp only
  rw [← nodeParted] at present
  have startSize := @openNode_length nodeID parted
    (boundsOf primBounds (slice building.primID begin_ end_))
  have startOwn := @openNode_own nodeID parted
    (boundsOf primBounds (slice building.primID begin_ end_)) present
  have startOther := @openNode_other nodeID parted
    (boundsOf primBounds (slice building.primID begin_ end_))
  have startRefs : (openNode nodeID (boundsOf primBounds (slice building.primID begin_ end_))
    parted).primID = parted.primID := rfl
  generalize openNode nodeID (boundsOf primBounds (slice building.primID begin_ end_)) parted = start at *
  -- the left child, and then the right one
  obtain ⟨leftTree, leftBuilds⟩ := recurses parted.node.length begin_ l start (by omega) low (by omega)
  generalize buildRec primBounds parted.node.length begin_ l start = between at leftBuilds ⊢
  obtain ⟨rightTree, rightBuilds⟩ := recurses (parted.node.length + 1) l end_ between (by omega) high
    (by rw [leftBuilds.size]; omega)
  generalize buildRec primBounds (parted.node.length + 1) l end_ between = after at rightBuilds ⊢
  obtain ⟨encoded, written, placed, size, fresh⟩ := builds_children startSize low high leftBuilds rightBuilds
  have shape : shape (.inner parted.node.length leftTree rightTree) =
      midpointTree primBounds (slice building.primID begin_ end_) := by
    have rightPrims : slice between.primID l end_ = slice parted.primID l end_ := by
      rw [← startRefs]
      exact slice_congr fun i from_ _ => leftBuilds.kept i (.inr from_)
    have leftShape := leftBuilds.shape
    have rightShape := rightBuilds.shape
    rw [startRefs, left] at leftShape
    rw [rightPrims, right] at rightShape
    rw [midpointTree_of_divided goes, ← leftShape, ← rightShape]
    rfl
  have perm : (prims (.inner parted.node.length leftTree rightTree)).Perm
      (slice building.primID begin_ end_) := by
    rw [prims_eq, shape]
    exact midpointTree_perm _
  have kept : ∀ slot, slot < parted.node.length → after.node[slot]? = start.node[slot]? := by
    intro slot below
    have leftSize := leftBuilds.size
    rw [rightBuilds.others slot (by omega) (by omega), leftBuilds.others slot (by omega) (by omega)]
  refine ⟨.inner parted.node.length leftTree rightTree, shape, placed, written, ?_, ?_, ?_, ?_, ?_⟩
  · intro i outside
    rw [rightBuilds.kept i (by omega), leftBuilds.kept i (by omega), startRefs, keptParted i outside]
  · intro entry member
    rw [nodes] at member
    obtain rfl | below := List.mem_cons.mp member
    · rw [kept nodeID present, startOwn, boundsOf, boundsOf, hullOf_perm (perm.map primBounds)]
      rfl
    · obtain inLeft | inRight := List.mem_append.mp below
      · exact encoded entry inLeft
      · exact rightBuilds.encoded entry inRight
  · rw [size, nodeParted]
  · intro slot below apart
    rw [← nodeParted] at below ⊢
    rw [kept slot below, startOther below apart]
  · rw [← nodeParted]
    exact fresh

end Inner

/-- The recursion builds the tree of its range. The induction is on the length of the range. -/
theorem builds (nodeID begin_ end_ : Nat) (building : Building) (ordered : begin_ ≤ end_)
    (present : nodeID < building.node.length) :
    ∃ tree, Builds primBounds nodeID begin_ end_ building
      (buildRec primBounds nodeID begin_ end_ building) tree := by
  induction size : end_ - begin_ using Nat.strongRecOn generalizing nodeID begin_ end_ building with
  | ind size inductionHypothesis =>
    by_cases stop : stops primBounds building begin_ end_ = true
    · exact builds_leaf ordered present stop
    · apply builds_inner ordered present stop
      intro nodeID first last building shorter ordered present
      exact inductionHypothesis _ (size ▸ shorter) nodeID first last building ordered present rfl

/-! ## The invariants -/

variable (primBounds) in
/-- A hierarchy is the tree of some references. -/
structure IsBuilt (primRefs : Nat → Nat) (numPrims : Nat) (bvh : MinMaxBVH2) (tree : BuiltTree) : Prop where
  shape : shape tree = midpointTree primBounds (slice primRefs 0 numPrims)
  placed : Placed 0 tree
  written : slice bvh.primID 0 numPrims = prims tree
  encoded : Encodes primBounds bvh.node 0 tree
  slots : (0 :: children tree).Perm ((List.range bvh.node.length).erase 1)
  root : bvh.root = childRef tree

theorem isBuilt_build (primBounds : Nat → Box4) (primRefs : Nat → Nat) (numPrims : Nat) :
    ∃ tree, IsBuilt primBounds primRefs numPrims (build primBounds primRefs numPrims) tree := by
  obtain ⟨tree, built⟩ := @builds primBounds 0 0 numPrims
    ⟨[default, default], primRefs, none, fun _ => 0⟩ (Nat.zero_le _) Nat.zero_lt_two
  rw [build]
  generalize buildRec primBounds 0 0 numPrims _ = after at built
  have size : after.node.length = 2 + (children tree).length := built.size
  refine ⟨tree, built.shape, built.placed, built.written, built.encoded, ?_, ?_⟩
  · have all : List.range after.node.length = 0 :: 1 :: List.range' 2 (children tree).length := by
      rw [size, Nat.add_comm, List.range_eq_range', List.range'_succ, List.range'_succ]
    rw [all]
    exact built.fresh.cons 0
  · have own : after.node[0]? = some ⟨boundsOf primBounds (prims tree), childRef tree⟩ :=
      built.encoded _ (mem_nodes_self 0 tree)
    rw [List.getD_eq_getElem?_getD, own, Option.getD_some]

variable {primRefs : Nat → Nat} {numPrims : Nat} {bvh : MinMaxBVH2} {tree : BuiltTree}

namespace BuiltTree

theorem Placed.ranges {begin_ : Nat} (placed : Placed begin_ tree) :
    tree.leaves.flatMap (fun leaf => List.range' leaf.begin_ leaf.prims.length) =
      List.range' begin_ (prims tree).length := by
  induction tree generalizing begin_ with
  | leaf item =>
    rw [LabelTree.leaves, List.flatMap_singleton]
    exact congrArg (fun first => List.range' first item.prims.length) placed
  | inner childID left right leftRanges rightRanges =>
    rw [LabelTree.leaves, List.flatMap_append, leftRanges placed.1, rightRanges placed.2, prims,
      List.length_append, List.range'_append_1]

theorem Placed.inner {slot begin_ : Nat} (placed : Placed begin_ tree) :
    ∀ entry ∈ nodes slot tree, Placed (BuiltTree.first entry.2) entry.2 := by
  refine forall_nodes (fun tree => Placed (BuiltTree.first tree) tree)
    (fun childID left right placed => ?_) ?_
  · rw [Placed.first placed.1, Placed.first placed.2]
    exact placed
  · rwa [Placed.first placed]

theorem Placed.adjacent {childID begin_ : Nat} {left right : BuiltTree}
    (placed : Placed begin_ (.inner childID left right)) :
    BuiltTree.first left = begin_ ∧ last left = BuiltTree.first right ∧
      last right = last (.inner childID left right) := by
  have leftFirst := Placed.first placed.1
  have rightFirst := Placed.first placed.2
  refine ⟨leftFirst, ?_, ?_⟩
  · rw [last, leftFirst, rightFirst]
  · rw [last, last, prims, List.length_append, rightFirst, Placed.first placed, Nat.add_assoc]

/-- The references of every node stand where it says. -/
theorem Placed.slices {array : Nat → Nat} {slot begin_ : Nat} (placed : Placed begin_ tree)
    (written : slice array begin_ (last tree) = prims tree) :
    ∀ entry ∈ nodes slot tree, slice array (BuiltTree.first entry.2) (last entry.2) = prims entry.2 := by
  have both : ∀ entry ∈ nodes slot tree, Placed (BuiltTree.first entry.2) entry.2 ∧
      slice array (BuiltTree.first entry.2) (last entry.2) = prims entry.2 := by
    refine forall_nodes (fun tree => Placed (BuiltTree.first tree) tree ∧
      slice array (BuiltTree.first tree) (last tree) = prims tree)
      (fun childID left right holds => ?_) ⟨?_, ?_⟩
    · obtain ⟨placed, written⟩ := holds
      obtain ⟨leftFirst, meet, rightLast⟩ := placed.adjacent
      have low : BuiltTree.first left ≤ last left := Nat.le_add_right _ _
      have high : last left ≤ last right := by
        rw [meet]
        exact Nat.le_add_right _ _
      rw [← leftFirst, ← rightLast, ← slice_append array low high, prims] at written
      obtain ⟨leftWritten, rightWritten⟩ := List.append_inj written (by
        rw [length_slice, last, Nat.add_sub_cancel_left])
      rw [meet] at rightWritten
      refine ⟨⟨?_, leftWritten⟩, ?_, rightWritten⟩
      · rw [leftFirst]
        exact placed.1
      · rw [Placed.first placed.2]
        exact placed.2
    · rwa [Placed.first placed]
    · rwa [Placed.first placed]
  exact fun entry member => (both entry member).2

theorem prims_nonempty (some_ : ∀ leaf ∈ tree.leaves, leaf.prims ≠ []) : prims tree ≠ [] := by
  induction tree with
  | leaf item => exact some_ item List.mem_cons_self
  | inner childID left right leftSome _ =>
    exact List.append_ne_nil_of_left_ne_nil
      (leftSome fun leaf member => some_ leaf (List.mem_append_left _ member)) _

theorem nodes_nonempty {slot : Nat} (some_ : ∀ leaf ∈ tree.leaves, leaf.prims ≠ []) :
    ∀ entry ∈ nodes slot tree, ∀ leaf ∈ entry.2.leaves, leaf.prims ≠ [] :=
  forall_nodes (fun tree => ∀ leaf ∈ tree.leaves, leaf.prims ≠ [])
    (fun _ _ _ some_ => ⟨fun leaf member => some_ leaf (List.mem_append_left _ member),
      fun leaf member => some_ leaf (List.mem_append_right _ member)⟩) some_

theorem first_lt_last (some_ : ∀ leaf ∈ tree.leaves, leaf.prims ≠ []) : BuiltTree.first tree < last tree := by
  have positive := List.length_pos_of_ne_nil (prims_nonempty some_)
  rw [last]
  omega

end BuiltTree

variable (primBounds) in
/-- What is true of a hierarchy that was built of some primitives. -/
structure Invariants (primRefs : Nat → Nat) (numPrims : Nat) (bvh : MinMaxBVH2) (tree : BuiltTree) :
    Prop where
  root : bvh.root = childRef tree
  permutation : (slice bvh.primID 0 numPrims).Perm (slice primRefs 0 numPrims)
  leaves : tree.leaves.flatMap (fun leaf => List.range' leaf.begin_ leaf.prims.length) =
    List.range numPrims
  counts : ∀ leaf ∈ tree.leaves, 1 ≤ leaf.prims.length
  bounds : ∀ entry ∈ nodes 0 tree, ∃ box,
    bvh.node[entry.1]? = some ⟨some box, childRef entry.2⟩ ∧
      IsHull ((slice bvh.primID (first entry.2) (last entry.2)).map primBounds) box
  adjacent : ∀ entry ∈ nodes 0 tree, ∀ childID left right, entry.2 = .inner childID left right →
    first left = first entry.2 ∧ first left < last left ∧ last left = first right ∧
      first right < last right ∧ last right = last entry.2
  slots : (0 :: children tree).Perm ((List.range bvh.node.length).erase 1)

theorem IsBuilt.length (built : IsBuilt primBounds primRefs numPrims bvh tree) :
    (prims tree).length = numPrims := by
  rw [← built.written, length_slice, Nat.sub_zero]

/-- **The builder's invariants.** Every list of primitives is built into a tree of which its references
are a permutation. The ranges of the leaves, none of them empty, make up the list. The box of every node
is exactly the one around its primitives, its children divide its range into two parts that are not
empty, and every slot but the second one is the root's or that of one child. -/
theorem build_invariants (primBounds : Nat → Box4) (primRefs : Nat → Nat) {numPrims : Nat}
    (some_ : 1 ≤ numPrims) :
    ∃ tree, Invariants primBounds primRefs numPrims (build primBounds primRefs numPrims) tree := by
  obtain ⟨tree, built⟩ := isBuilt_build primBounds primRefs numPrims
  generalize build primBounds primRefs numPrims = bvh at built ⊢
  have size := built.length
  have perm : (prims tree).Perm (slice primRefs 0 numPrims) := by
    rw [prims_eq, built.shape]
    exact midpointTree_perm _
  have nonempty : ∀ leaf ∈ tree.leaves, leaf.prims ≠ [] := by
    have list : slice primRefs 0 numPrims ≠ [] :=
      List.ne_nil_of_length_pos (by rw [length_slice]; omega)
    have leaves := @leaf_nonempty primBounds _ list
    rw [← built.shape, BuiltTree.shape, LabelTree.leaves_map] at leaves
    exact fun leaf member => leaves _ (List.mem_map_of_mem member)
  have some_ := @nodes_nonempty tree 0 nonempty
  have slices := @Placed.slices tree bvh.primID 0 0 built.placed (by
    rw [last, built.placed.first, Nat.zero_add, size]
    exact built.written)
  refine ⟨tree, built.root, built.written ▸ perm, ?_, fun leaf member => ?_, fun entry member => ?_,
    fun entry member childID left right same => ?_, built.slots⟩
  · rw [built.placed.ranges, size, List.range_eq_range']
  · exact List.length_pos_of_ne_nil (nonempty leaf member)
  · have boxes : (prims entry.2).map primBounds ≠ [] := by
      rw [ne_eq, List.map_eq_nil_iff]
      exact prims_nonempty (some_ entry member)
    obtain ⟨box, computed, isHull⟩ := isHull_hullOf boxes
    refine ⟨box, ?_, ?_⟩
    · rw [built.encoded entry member, boundsOf, computed]
    · rwa [slices entry member]
  · have placed := built.placed.inner entry member
    have leaves := some_ entry member
    rw [same] at placed leaves ⊢
    obtain ⟨leftFirst, meet, rightLast⟩ := placed.adjacent
    have leftRange := first_lt_last fun leaf member => leaves leaf (List.mem_append_left _ member)
    have rightRange := first_lt_last fun leaf member => leaves leaf (List.mem_append_right _ member)
    exact ⟨leftFirst, leftRange, meet, rightRange, rightLast⟩

/-- Two boxes of which the first lies before the second. -/
def twoBoxes : Nat → Box4
  | 0 => ⟨![0, 0, 0, 5], ![1, 1, 1, 6]⟩
  | _ => ⟨![2, 0, 0, 7], ![3, 1, 1, 8]⟩

theorem build_invariants_twoBoxes :
    1 ≤ 2 ∧ ∃ tree, Invariants twoBoxes (fun i => 1 - i) 2 (build twoBoxes (fun i => 1 - i) 2) tree :=
  ⟨by decide, build_invariants twoBoxes (fun i => 1 - i) (by decide)⟩

end Ospray.Unstructured
