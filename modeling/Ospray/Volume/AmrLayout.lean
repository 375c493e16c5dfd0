import Mathlib.Data.List.Perm.Basic
import Mathlib.Data.List.Range
import Ospray.Volume.AmrTree

/-!
# The arrays of the kd-tree

The recursion of `buildRec` follows a split tree whose leaves hold the bricks of their
regions. Laid out in the two arrays, a node of the tree stands at one index, its two
children at consecutive indices that were new when the node was cut, and the leaves in
their order from left to right. The references of the arrays therefore meet every node
once, and the descent of `findCell` goes where the split tree leads.
-/

namespace Ospray.Amr

open Library.BoxTrees Library.SortedSets

variable {data : List Brick}

/-- The leaf made of a region and its bricks. -/
def leafOf (sorting : LevelSort data) (leaf : Box3 × List (BrickPointer data)) : Leaf data where
  bounds := some leaf.1
  brickList := (sorting.sort leaf.2).map some ++ [none]

/-- The arrays when a node has been cut, before its children are built. -/
def AmrAccel.cut (self : AmrAccel data) (nodeID : Nat) (dim : Fin 3) (pos : ℚ) : AmrAccel data :=
  let inner := self.makeInner nodeID dim pos self.node.length
  { inner with node := inner.node ++ [Node.zero, Node.zero] }

/-- A split tree written to the arrays in the order of `buildRec`. -/
def lay (sorting : LevelSort data) {bounds : Box3} :
    SplitTree (List (BrickPointer data)) bounds → AmrAccel data → Nat → AmrAccel data
  | .leaf bounds brick, accel, nodeID => accel.makeLeaf sorting nodeID (some bounds) brick
  | .split _ dim pos _ left right, accel, nodeID =>
    lay sorting right (lay sorting left (accel.cut nodeID dim pos) accel.node.length)
      (accel.node.length + 1)

/-- What `buildRec` reaches at the leaves: the bricks of the region, all of which cover it. -/
def Uniform {bounds : Box3} (tree : SplitTree (List (BrickPointer data)) bounds) : Prop :=
  ∀ leaf ∈ tree.leaves, Present leaf.1 leaf.2 ∧
    ∀ b ∈ leaf.2, leaf.1.Within (data.get b).worldBounds

/-- The recursion ends, by the number of faces inside the region, and lays a uniform tree. -/
theorem buildRec_lay (sorting : LevelSort data) (valid : ∀ b ∈ data, b.Valid) {bounds : Box3}
    {brick : List (BrickPointer data)} (proper : bounds.Proper) (present : Present bounds brick) :
    ∃ tree : SplitTree (List (BrickPointer data)) bounds, Uniform tree ∧
      ∀ depth, planes data bounds < depth → ∀ accel nodeID,
        buildRec sorting depth accel nodeID bounds brick = .ok (lay sorting tree accel nodeID) := by
  induction measure : planes data bounds using Nat.strong_induction_on generalizing bounds brick with
  | _ inside inductionHypothesis =>
    subst measure
    have overlap : ∀ b ∈ brick, (data.get b).worldBounds.Overlaps bounds :=
      fun b member => (present.overlaps b).mp member
    cases choice : bestSplit bounds brick with
    | none =>
      refine ⟨.leaf bounds brick, ?_, ?_⟩
      · intro leaf member
        rw [SplitTree.leaves, List.mem_singleton] at member
        subst member
        exact ⟨present, fun b => covers_of_no_split (bestSplit_spec.1 choice)⟩
      · intro depth enough accel nodeID
        obtain ⟨depth, rfl⟩ := Nat.exists_eq_succ_of_ne_zero (Nat.ne_zero_of_lt enough)
        rw [buildRec, choice, lay]
    | some plane =>
      obtain ⟨dim, pos⟩ := plane
      obtain ⟨cuts, b, -, face⟩ := split_cuts overlap (bestSplit_spec.2 dim pos choice)
      have member : (dim, pos) ∈ faces data := face_mem b face
      have fewerLeft := planes_lt cuts member fun _ _ => Box.cuts_below cuts
      have fewerRight := planes_lt cuts member fun _ _ => Box.cuts_above cuts
      obtain ⟨left, uniformLeft, buildLeft⟩ := inductionHypothesis _ fewerLeft
        (Box.below_proper proper cuts) (present.below cuts) rfl
      obtain ⟨right, uniformRight, buildRight⟩ := inductionHypothesis _ fewerRight
        (Box.above_proper proper cuts) (present.above cuts) rfl
      refine ⟨.split bounds dim pos cuts left right, ?_, ?_⟩
      · intro leaf present
        rw [SplitTree.leaves, List.mem_append] at present
        exact present.elim (uniformLeft leaf) (uniformRight leaf)
      · intro depth enough accel nodeID
        obtain ⟨depth, rfl⟩ := Nat.exists_eq_succ_of_ne_zero (Nat.ne_zero_of_lt enough)
        rw [buildRec, choice]
        simp only [distribute_spec cuts proper valid overlap, lay]
        change (buildRec sorting depth _ _ _ _ >>= fun built => _) = _
        rw [buildLeft depth (by omega)]
        exact buildRight depth (by omega) _ _

/-! ## What is laid where -/

section Arrays

variable (accel : AmrAccel data) (nodeID : Nat) (dim : Fin 3) (pos : ℚ)

@[simp] theorem cut_node_length : (accel.cut nodeID dim pos).node.length = accel.node.length + 2 := by
  rw [AmrAccel.cut, AmrAccel.makeInner, List.length_append, List.length_modify]
  rfl

theorem cut_other {id : Nat} (old : id < accel.node.length) (other : id ≠ nodeID) :
    (accel.cut nodeID dim pos).node[id]? = accel.node[id]? := by
  rw [AmrAccel.cut, List.getElem?_append_left (by rwa [AmrAccel.makeInner, List.length_modify])]
  exact List.getElem?_modify_ne _ _ other.symm

theorem cut_own (old : nodeID < accel.node.length) :
    ∃ node, (accel.cut nodeID dim pos).node[nodeID]? = some node ∧ node.dim = dim.castSucc ∧
      node.pos = pos ∧ node.ofs = Fin.ofNat _ accel.node.length := by
  refine ⟨{ accel.node[nodeID] with dim := dim.castSucc, pos, ofs := Fin.ofNat _ accel.node.length },
    ?_, rfl, rfl, rfl⟩
  rw [AmrAccel.cut, List.getElem?_append_left (by rwa [AmrAccel.makeInner, List.length_modify]),
    AmrAccel.makeInner, List.getElem?_modify_eq, List.getElem?_eq_getElem old]
  rfl

variable (sorting : LevelSort data) {bounds : Box3}
  (tree : SplitTree (List (BrickPointer data)) bounds)

theorem lay_node_length :
    (lay sorting tree accel nodeID).node.length + 1 = accel.node.length + tree.size := by
  induction tree generalizing accel nodeID with
  | leaf bounds brick => simp [lay, AmrAccel.makeLeaf, SplitTree.size]
  | split bounds dim pos cuts left right leftHypothesis rightHypothesis =>
    have leftLength := leftHypothesis (accel.cut nodeID dim pos) accel.node.length
    rw [cut_node_length] at leftLength
    rw [lay, SplitTree.size, rightHypothesis]
    omega

theorem lay_leaf :
    (lay sorting tree accel nodeID).leaf = accel.leaf ++ tree.leaves.map (leafOf sorting) := by
  induction tree generalizing accel nodeID with
  | leaf bounds brick => rfl
  | split bounds dim pos cuts left right leftHypothesis rightHypothesis =>
    rw [lay, rightHypothesis, leftHypothesis, SplitTree.leaves, List.map_append, List.append_assoc]
    rfl

theorem lay_node_le : accel.node.length ≤ (lay sorting tree accel nodeID).node.length := by
  have length := lay_node_length accel nodeID sorting tree
  have positive := tree.size_pos
  omega

theorem lay_other {id : Nat} (old : id < accel.node.length) (other : id ≠ nodeID) :
    (lay sorting tree accel nodeID).node[id]? = accel.node[id]? := by
  induction tree generalizing accel nodeID with
  | leaf bounds brick => exact List.getElem?_modify_ne _ _ other.symm
  | split bounds dim pos cuts left right leftHypothesis rightHypothesis =>
    have cutLength := cut_node_length accel nodeID dim pos
    have grown := lay_node_le (accel.cut nodeID dim pos) accel.node.length sorting left
    rw [lay, rightHypothesis _ _ (by omega) (by omega),
      leftHypothesis _ _ (by omega) (by omega), cut_other accel nodeID dim pos old other]

end Arrays

/-! ## The arrays as a tree -/

/-- From a node the array stands for a tree, its leaves numbered from a first one on; the
nodes are those of the list. -/
def Stands (node : List Node) {bounds : Box3} :
    SplitTree (List (BrickPointer data)) bounds → Nat → Nat → List Nat → Prop
  | .leaf _ _, nodeID, first, ids =>
    ids = [nodeID] ∧ ∃ n, node[nodeID]? = some n ∧ n.dim.val = 3 ∧ n.ofs.val = first
  | .split _ dim pos _ left right, nodeID, first, ids =>
    ∃ n leftIds rightIds, node[nodeID]? = some n ∧ n.dim = dim.castSucc ∧ n.pos = pos ∧
      ids = nodeID :: (leftIds ++ rightIds) ∧ Stands node left n.ofs.val first leftIds ∧
      Stands node right (n.ofs.val + 1) (first + left.leaves.length) rightIds

theorem Stands.congr {node other : List Node} {bounds : Box3}
    {tree : SplitTree (List (BrickPointer data)) bounds} {nodeID first : Nat} {ids : List Nat}
    (stands : Stands node tree nodeID first ids) (same : ∀ id ∈ ids, other[id]? = node[id]?) :
    Stands other tree nodeID first ids := by
  induction tree generalizing nodeID first ids with
  | leaf bounds brick =>
    obtain ⟨rfl, stands⟩ := stands
    refine ⟨rfl, ?_⟩
    rwa [same nodeID List.mem_cons_self]
  | split bounds dim pos cuts left right leftHypothesis rightHypothesis =>
    obtain ⟨n, leftIds, rightIds, found, inner, plane, rfl, standsLeft, standsRight⟩ := stands
    refine ⟨n, leftIds, rightIds, ?_, inner, plane, rfl, leftHypothesis standsLeft ?_,
      rightHypothesis standsRight ?_⟩
    · rwa [same nodeID List.mem_cons_self]
    · intro id member
      exact same id (List.mem_cons_of_mem _ (List.mem_append_left _ member))
    · intro id member
      exact same id (List.mem_cons_of_mem _ (List.mem_append_right _ member))

/-- The descent goes to the leaf the tree leads to. -/
theorem Stands.descend {accel : AmrAccel data} {bounds : Box3}
    {tree : SplitTree (List (BrickPointer data)) bounds} {nodeID first : Nat} {ids : List Nat}
    (stands : Stands accel.node tree nodeID first ids) (point : Vec3) {steps : Nat}
    (enough : tree.height ≤ steps) :
    accel.descend point steps nodeID = some (first + tree.findIndex point) := by
  induction tree generalizing nodeID first ids steps with
  | leaf bounds brick =>
    obtain ⟨-, n, found, isLeaf, number⟩ := stands
    obtain ⟨steps, rfl⟩ := Nat.exists_eq_succ_of_ne_zero (Nat.ne_zero_of_lt enough)
    have notInner : ¬ n.dim.val < 3 := by omega
    simp [AmrAccel.descend, found, notInner, number, SplitTree.findIndex]
  | split bounds dim pos cuts left right leftHypothesis rightHypothesis =>
    obtain ⟨n, leftIds, rightIds, found, inner, rfl, rfl, standsLeft, standsRight⟩ := stands
    rw [SplitTree.height] at enough
    obtain ⟨steps, rfl⟩ := Nat.exists_eq_succ_of_ne_zero (Nat.ne_zero_of_lt enough)
    have axis : n.dim.val = dim.val := by rw [inner, Fin.val_castSucc]
    have isInner : n.dim.val < 3 := axis ▸ dim.isLt
    have same : (⟨n.dim.val, isInner⟩ : Fin 3) = dim := Fin.ext axis
    rw [AmrAccel.descend, found, SplitTree.findIndex]
    simp only [Option.bind_eq_bind, Option.bind_some, dif_pos isInner, same, ge_iff_le]
    split
    · rw [rightHypothesis standsRight (by omega), Nat.add_assoc]
    · exact leftHypothesis standsLeft (by omega)

/-- Following the references meets the nodes of the list. -/
theorem Stands.reached {accel : AmrAccel data} {bounds : Box3}
    {tree : SplitTree (List (BrickPointer data)) bounds} {nodeID first : Nat} {ids : List Nat}
    (stands : Stands accel.node tree nodeID first ids) {steps : Nat}
    (enough : tree.height ≤ steps) : accel.reached steps nodeID = ids := by
  induction tree generalizing nodeID first ids steps with
  | leaf bounds brick =>
    obtain ⟨rfl, n, found, isLeaf, -⟩ := stands
    obtain ⟨steps, rfl⟩ := Nat.exists_eq_succ_of_ne_zero (Nat.ne_zero_of_lt enough)
    have notInner : ¬ n.dim.val < 3 := by omega
    rw [AmrAccel.reached, found]
    exact if_neg notInner
  | split bounds dim pos cuts left right leftHypothesis rightHypothesis =>
    obtain ⟨n, leftIds, rightIds, found, inner, -, rfl, standsLeft, standsRight⟩ := stands
    rw [SplitTree.height] at enough
    obtain ⟨steps, rfl⟩ := Nat.exists_eq_succ_of_ne_zero (Nat.ne_zero_of_lt enough)
    have isInner : n.dim.val < 3 := by
      rw [inner, Fin.val_castSucc]
      exact dim.isLt
    rw [AmrAccel.reached, found]
    simp only [if_pos isInner, leftHypothesis standsLeft (Nat.le_of_succ_le_succ
      ((Nat.succ_le_succ (le_max_left _ _)).trans enough)), rightHypothesis standsRight
      (Nat.le_of_succ_le_succ ((Nat.succ_le_succ (le_max_right _ _)).trans enough))]

/-- A laid tree stands where it was laid, on its root and the new nodes, while the numbers of
nodes and leaves fit their bit field. -/
theorem lay_stands (sorting : LevelSort data) {bounds : Box3}
    (tree : SplitTree (List (BrickPointer data)) bounds) (accel : AmrAccel data) {nodeID : Nat}
    (old : nodeID < accel.node.length) (room : accel.node.length + tree.size ≤ 2 ^ 30 + 1)
    (leafRoom : accel.leaf.length + tree.leaves.length ≤ 2 ^ 30) :
    ∃ ids, Stands (lay sorting tree accel nodeID).node tree nodeID accel.leaf.length ids ∧
      ids.Perm (nodeID :: List.range' accel.node.length (tree.size - 1)) := by
  induction tree generalizing accel nodeID with
  | leaf bounds brick =>
    let n : Node :=
      { accel.node[nodeID] with
        dim := 3, ofs := Fin.ofNat _ accel.leaf.length, numItems := brick.length }
    have number : n.ofs.val = accel.leaf.length := by
      rw [SplitTree.leaves, List.length_singleton] at leafRoom
      exact Nat.mod_eq_of_lt (by omega)
    refine ⟨[nodeID], ⟨rfl, n, ?_, rfl, number⟩, List.Perm.refl _⟩
    rw [lay, AmrAccel.makeLeaf, List.getElem?_modify_eq, List.getElem?_eq_getElem old]
    rfl
  | split bounds dim pos cuts left right leftHypothesis rightHypothesis =>
    rw [SplitTree.size] at room
    rw [SplitTree.leaves, List.length_append] at leafRoom
    have cutLength := cut_node_length accel nodeID dim pos
    have cutLeaf : (accel.cut nodeID dim pos).leaf.length = accel.leaf.length := rfl
    have leftLength := lay_node_length (accel.cut nodeID dim pos) accel.node.length sorting left
    have leftLeaf : (lay sorting left (accel.cut nodeID dim pos) accel.node.length).leaf.length =
        accel.leaf.length + left.leaves.length := by
      rw [lay_leaf, List.length_append, List.length_map]
      rfl
    have leftPositive := left.size_pos
    have rightPositive := right.size_pos
    obtain ⟨leftIds, standsLeft, permLeft⟩ := leftHypothesis (accel.cut nodeID dim pos)
      (show accel.node.length < _ by omega) (by omega) (by omega)
    obtain ⟨rightIds, standsRight, permRight⟩ := rightHypothesis
      (lay sorting left (accel.cut nodeID dim pos) accel.node.length)
      (show accel.node.length + 1 < _ by omega) (by omega) (by omega)
    rw [cutLeaf] at standsLeft
    rw [leftLeaf] at standsRight
    obtain ⟨n, found, inner, plane, refers⟩ := cut_own accel nodeID dim pos old
    have first : n.ofs.val = accel.node.length := by
      rw [refers]
      exact Nat.mod_eq_of_lt (by omega)
    refine ⟨nodeID :: (leftIds ++ rightIds), ⟨n, leftIds, rightIds, ?_, inner, plane, rfl, ?_, ?_⟩, ?_⟩
    · rw [lay, lay_other _ _ _ _ (by omega) (by omega), lay_other _ _ _ _ (by omega) (by omega), found]
    · rw [first]
      refine standsLeft.congr fun id member => ?_
      have among := permLeft.subset member
      rw [List.mem_cons, List.mem_range'_1] at among
      rw [lay, lay_other]
      · omega
      · omega
    · rw [first]
      exact standsRight
    · refine List.Perm.cons _ ((permLeft.append permRight).trans ?_)
      have sizes : left.size + right.size + 1 - 1 = left.size - 1 + (right.size - 1) + 1 + 1 := by
        omega
      have next : (lay sorting left (accel.cut nodeID dim pos) accel.node.length).node.length =
          accel.node.length + 2 + (left.size - 1) := by
        omega
      rw [SplitTree.size, sizes, List.range'_succ, List.range'_succ, cutLength, next,
        ← List.range'_append_1]
      exact List.Perm.cons _ List.perm_middle

/-! ## The bounding box -/

/-- The bounding box so far lies in the final one, and so does every box it is extended by. -/
theorem foldl_extend (rest : List Brick) (start : Option Box3) {root : Box3}
    (result : rest.foldl (fun bounds b => extend bounds b.worldBounds) start = some root) :
    (∀ bounds, start = some bounds → bounds.Within root) ∧
      ∀ b ∈ rest, b.worldBounds.Within root := by
  induction rest generalizing start with
  | nil =>
    refine ⟨?_, by simp⟩
    intro bounds same
    obtain rfl : bounds = root := Option.some.inj (same.symm.trans result)
    exact fun _ => ⟨le_rfl, le_rfl⟩
  | cons b rest inductionHypothesis =>
    obtain ⟨extended, later⟩ := inductionHypothesis _ result
    have both : (∀ bounds, start = some bounds → bounds.Within root) ∧ b.worldBounds.Within root := by
      cases start with
      | none => exact ⟨nofun, extended _ rfl⟩
      | some bounds =>
        have within := extended _ rfl
        refine ⟨?_, fun axis => ?_⟩
        · rintro _ ⟨⟩ axis
          exact ⟨(within axis).1.trans (min_le_left _ _), (le_max_left _ _).trans (within axis).2⟩
        · exact ⟨(within axis).1.trans (min_le_right _ _), (le_max_right _ _).trans (within axis).2⟩
    refine ⟨both.1, fun other member => ?_⟩
    obtain rfl | member := List.mem_cons.mp member
    · exact both.2
    · exact later other member

theorem worldBounds_some (some_ : data ≠ []) : ∃ root, worldBounds data = some root := by
  have kept : ∀ (rest : List Brick) (bounds : Box3),
      ∃ root, rest.foldl (fun bounds b => extend bounds b.worldBounds) (some bounds) = some root := by
    intro rest
    induction rest with
    | nil => exact fun bounds => ⟨bounds, rfl⟩
    | cons b rest inductionHypothesis => exact fun bounds => inductionHypothesis _
  cases data with
  | nil => exact absurd rfl some_
  | cons b rest => exact kept rest b.worldBounds

theorem worldBounds_spec {root : Box3} (known : worldBounds data = some root)
    (valid : ∀ b ∈ data, b.Valid) :
    root.Proper ∧ Present root (List.finRange data.length) := by
  have within := (foldl_extend data none known).2
  have proper : root.Proper := by
    cases data with
    | nil => cases known
    | cons b rest =>
      intro axis
      have inside := within b List.mem_cons_self axis
      have extent := (valid b List.mem_cons_self).proper axis
      exact inside.1.trans_lt (extent.trans_le inside.2)
  refine ⟨proper, List.nodup_finRange _, fun b => ?_⟩
  have member := List.get_mem data b
  exact iff_of_true (List.mem_finRange b) ((within _ member).overlaps (valid _ member).proper)

/-! ## The partition -/

/-- A leaf of a tree over a root box: a region and, finest first and ended by a null
pointer, the bricks that overlap it, all of which cover it. -/
def LeafOf (root : Box3) (leaf : Leaf data) : Prop :=
  ∃ (region : Box3) (brick : List (BrickPointer data)),
    leaf = ⟨some region, brick.map some ++ [none]⟩ ∧ region.Proper ∧
    region.Within root ∧ brick.Nodup ∧
    (∀ b, b ∈ brick ↔ (data.get b).worldBounds.Overlaps region) ∧
    (∀ b ∈ brick, region.Within (data.get b).worldBounds) ∧
    brick.Pairwise fun first second => (data.get second).level ≤ (data.get first).level

/-- The numbered leaf contains a point. -/
def AmrAccel.Holds (self : AmrAccel data) (index : Nat) (point : Vec3) : Prop :=
  ∃ leaf region, self.leaf[index]? = some leaf ∧ leaf.bounds = some region ∧ region.Contains point

/-- A tree over a root box. The clauses on references are for arrays whose indices fit
their 30 bits. -/
structure Partition (root : Box3) (accel : AmrAccel data) : Prop where
  leaves : ∀ leaf ∈ accel.leaf, LeafOf root leaf
  one : ∀ point, root.Contains point → ∃! index, accel.Holds index point
  reached : accel.node.length ≤ 2 ^ 30 → ∀ steps, accel.node.length ≤ steps →
    (accel.reached steps 0).Perm (List.range accel.node.length)
  descent : accel.node.length ≤ 2 ^ 30 → ∀ point, root.Contains point →
    ∀ steps, accel.node.length ≤ steps →
      ∃ index, accel.descend point steps 0 = some index ∧ accel.Holds index point

/-- A laid uniform tree is such a tree. -/
theorem partition_lay (sorting : LevelSort data) {root : Box3} (proper : root.Proper)
    (tree : SplitTree (List (BrickPointer data)) root) (uniform : Uniform tree) :
    Partition root (lay sorting tree { node := [Node.zero], leaf := [] } 0) := by
  let start : AmrAccel data := { node := [Node.zero], leaf := [] }
  have length : (lay sorting tree start 0).node.length = tree.size := by
    have counted := lay_node_length start 0 sorting tree
    have single : start.node.length = 1 := rfl
    omega
  have leafArray : (lay sorting tree start 0).leaf = tree.leaves.map (leafOf sorting) :=
    lay_leaf start 0 sorting tree
  have holds : ∀ index point, (lay sorting tree start 0).Holds index point ↔
      ∃ leaf, tree.leaves[index]? = some leaf ∧ leaf.1.Contains point := by
    intro index point
    constructor
    · rintro ⟨_, region, found, bounds, contained⟩
      rw [leafArray, List.getElem?_map, Option.map_eq_some_iff] at found
      obtain ⟨leaf, found, rfl⟩ := found
      obtain rfl := Option.some.inj bounds
      exact ⟨leaf, found, contained⟩
    · rintro ⟨leaf, found, contained⟩
      refine ⟨leafOf sorting leaf, leaf.1, ?_, rfl, contained⟩
      rw [leafArray, List.getElem?_map, found]
      rfl
  have led : ∀ point, root.Contains point →
      (lay sorting tree start 0).Holds (tree.findIndex point) point := fun point inside =>
    (holds _ _).mpr ⟨_, tree.leaves_findIndex point, tree.find_contains inside⟩
  have stands : tree.size ≤ 2 ^ 30 →
      ∃ ids, Stands (lay sorting tree start 0).node tree 0 0 ids ∧
        ids.Perm (List.range tree.size) := by
    intro room
    have positive := tree.size_pos
    have leafCount := tree.size_leaves
    obtain ⟨ids, stands, perm⟩ := lay_stands sorting tree start (show 0 < 1 by decide)
      (show 1 + tree.size ≤ 2 ^ 30 + 1 by omega) (show 0 + tree.leaves.length ≤ 2 ^ 30 by omega)
    have all : 0 :: List.range' start.node.length (tree.size - 1) = List.range tree.size := by
      rw [List.range_eq_range', ← Nat.succ_pred_eq_of_pos positive]
      rfl
    exact ⟨ids, stands, all ▸ perm⟩
  have height := tree.height_le_size
  constructor
  case leaves =>
    intro leaf member
    rw [leafArray, List.mem_map] at member
    obtain ⟨⟨region, brick⟩, member, rfl⟩ := member
    obtain ⟨within, extent⟩ := tree.leaves_within proper _ member
    obtain ⟨present, cover⟩ := uniform _ member
    have sorted := sorting.perm brick
    refine ⟨region, sorting.sort brick, rfl, extent, within, sorted.nodup_iff.mpr present.nodup,
      fun b => ?_, fun b listed => ?_, sorting.descending brick⟩
    · rw [sorted.mem_iff]
      exact present.overlaps b
    · exact cover b (sorted.mem_iff.mp listed)
  case one =>
    intro point inside
    refine ⟨tree.findIndex point, led point inside, ?_⟩
    intro index other
    obtain ⟨leaf, found, contained⟩ := (holds _ _).mp other
    obtain ⟨leaf', found', contained'⟩ := (holds _ _).mp (led point inside)
    have apart := List.pairwise_iff_getElem.mp (tree.leaves_disjoint proper)
    obtain ⟨bound, rfl⟩ := List.getElem?_eq_some_iff.mp found
    obtain ⟨bound', rfl⟩ := List.getElem?_eq_some_iff.mp found'
    obtain less | same | more := Nat.lt_trichotomy index (tree.findIndex point)
    · exact absurd ⟨contained, contained'⟩ (apart _ _ bound bound' less point)
    · exact same
    · exact absurd ⟨contained', contained⟩ (apart _ _ bound' bound more point)
  case reached =>
    intro room steps enough
    rw [length] at room enough ⊢
    obtain ⟨ids, stands, perm⟩ := stands room
    rwa [stands.reached (height.trans enough)]
  case descent =>
    intro room point inside steps enough
    rw [length] at room enough
    obtain ⟨ids, stands, -⟩ := stands room
    refine ⟨tree.findIndex point, ?_, led point inside⟩
    rw [stands.descend point (height.trans enough), Nat.zero_add]

theorem construct_spec (sorting : LevelSort data) (some_ : data ≠ [])
    (valid : ∀ b ∈ data, b.Valid) :
    ∃ root accel, worldBounds data = some root ∧
      (∀ depth, 6 * data.length < depth → AmrAccel.construct sorting depth = .ok accel) ∧
      Partition root accel := by
  obtain ⟨root, known⟩ := worldBounds_some some_
  obtain ⟨proper, present⟩ := worldBounds_spec known valid
  obtain ⟨tree, uniform, built⟩ := buildRec_lay sorting valid proper present
  refine ⟨root, _, known, ?_, partition_lay sorting proper tree uniform⟩
  intro depth enough
  rw [AmrAccel.construct, known]
  exact built depth ((planes_le root).trans_lt enough) _ 0

/-- A leaf has a brick exactly when a point of it is in a brick. -/
theorem LeafOf.brickList {root : Box3} {leaf : Leaf data} (leafOf : LeafOf root leaf) :
    ∃ region, leaf.bounds = some region ∧ region.Proper ∧ region.Within root ∧
      ∀ point, region.Contains point →
        (leaf.brickList = [none] ↔ ∀ b ∈ data, ¬ b.worldBounds.Contains point) := by
  obtain ⟨region, brick, rfl, extent, within, -, overlaps, cover, -⟩ := leafOf
  refine ⟨region, rfl, extent, within, fun point contained => ?_⟩
  have inBrick : ∀ b, b ∈ brick ↔ (data.get b).worldBounds.Contains point := fun b =>
    ⟨fun listed => (cover b listed).contains contained,
      fun inside => (overlaps b).mpr (Box.overlaps_of_contains inside contained)⟩
  constructor
  · rintro alone b present inside
    obtain ⟨pointer, rfl⟩ := List.get_of_mem present
    have listed := (inBrick pointer).mpr inside
    have length := congrArg List.length alone
    have positive := List.length_pos_of_mem listed
    simp only [List.length_append, List.length_map, List.length_singleton] at length
    omega
  · intro outside
    have empty : brick = [] := List.eq_nil_iff_forall_not_mem.mpr fun b listed =>
      outside _ (List.get_mem data b) ((inBrick b).mp listed)
    subst empty
    rfl

/-- **The tree is a partition.** For bricks with cells of a positive width, the construction
ends and its tree partitions the bounding box; where bricks of the root level cover that
box, every leaf has a brick. -/
theorem construct_partition (sorting : LevelSort data) (some_ : data ≠ [])
    (valid : ∀ b ∈ data, b.Valid) :
    ∃ root accel, worldBounds data = some root ∧
      (∀ depth, 6 * data.length < depth → AmrAccel.construct sorting depth = .ok accel) ∧
      Partition root accel ∧
      ((∀ point, root.Contains point →
          ∃ b ∈ data, b.level = 0 ∧ b.worldBounds.Contains point) →
        ∀ leaf ∈ accel.leaf, leaf.brickList ≠ [none]) := by
  obtain ⟨root, accel, known, built, partition⟩ := construct_spec sorting some_ valid
  refine ⟨root, accel, known, built, partition, ?_⟩
  intro covered leaf member alone
  obtain ⟨region, -, extent, within, brickList⟩ := (partition.leaves leaf member).brickList
  have corner := Box.contains_lower extent
  obtain ⟨b, present, -, contained⟩ := covered _ (within.contains corner)
  exact (brickList _ corner).mp alone b present contained

/-- A sort by levels that keeps the order of bricks of one level. -/
def LevelSort.stable (data : List Brick) : LevelSort data where
  sort brick := brick.mergeSort fun first second =>
    decide ((data.get second).level ≤ (data.get first).level)
  perm brick := List.mergeSort_perm brick _
  descending brick := by
    refine (List.pairwise_mergeSort ?_ ?_ brick).imp of_decide_eq_true
    · intro first second third before after
      exact decide_eq_true ((of_decide_eq_true after).trans (of_decide_eq_true before))
    · intro first second
      rw [Bool.or_eq_true, decide_eq_true_eq, decide_eq_true_eq]
      exact le_total _ _

instance (box : Box3) (point : Vec3) : Decidable (box.Contains point) :=
  inferInstanceAs (Decidable (∀ _ : Fin 3, _ ∧ _))

/-- A cube of cells from the origin on. -/
def cube (level : Int) (cellWidth : ℚ) : Brick where
  box := { lower := fun _ => 0, upper := fun _ => 1 }
  level := level
  cellWidth := cellWidth

/-- Eight cells, and eight finer ones in the corner of these. -/
def nested : List Brick := [cube 0 2, cube 1 1]

theorem nested_valid : ∀ b ∈ nested, b.Valid := by
  simp only [nested, List.forall_mem_cons, List.not_mem_nil, false_implies, implies_true, and_true]
  exact ⟨⟨by decide, by decide⟩, ⟨by decide, by decide⟩⟩

theorem construct_partition_nested :
    ∃ root accel, worldBounds nested = some root ∧
      (∀ depth, 12 < depth → AmrAccel.construct (LevelSort.stable nested) depth = .ok accel) ∧
      Partition root accel ∧ ∀ leaf ∈ accel.leaf, leaf.brickList ≠ [none] := by
  obtain ⟨root, accel, known, built, partition, full⟩ :=
    construct_partition (LevelSort.stable nested) (by decide) nested_valid
  refine ⟨root, accel, known, built, partition, full ?_⟩
  intro point inside
  refine ⟨_, List.mem_cons_self, rfl, fun axis => ?_⟩
  obtain rfl := Option.some.inj known
  have corners : ∀ axis : Fin 3,
      (cube 0 2).worldBounds.lower axis ≤
          min ((cube 0 2).worldBounds.lower axis) ((cube 1 1).worldBounds.lower axis) ∧
        max ((cube 0 2).worldBounds.upper axis) ((cube 1 1).worldBounds.upper axis) ≤
          (cube 0 2).worldBounds.upper axis := by
    decide +kernel
  exact ⟨(corners axis).1.trans (inside axis).1, (inside axis).2.trans_le (corners axis).2⟩

/-- Two bricks of one cell that share a corner, both of the root level. -/
def diagonal : List Brick :=
  [{ box := { lower := fun _ => 0, upper := fun _ => 0 }, level := 0, cellWidth := 1 },
    { box := { lower := fun _ => 1, upper := fun _ => 1 }, level := 0, cellWidth := 1 }]

/-- Bricks of the root level that cover all bricks may leave a part of the bounding box without
any; the leaf there has an empty list. -/
theorem diagonal_leaf :
    (∀ b ∈ diagonal, b.Valid) ∧ (∀ b ∈ diagonal, b.level = 0) ∧
      ∃ accel, (∀ depth, 12 < depth →
        AmrAccel.construct (LevelSort.stable diagonal) depth = .ok accel) ∧
        ∃ leaf ∈ accel.leaf, leaf.brickList = [none] := by
  have valid : ∀ b ∈ diagonal, b.Valid := by
    simp only [diagonal, List.forall_mem_cons, List.not_mem_nil, false_implies, implies_true,
      and_true]
    exact ⟨⟨by decide, by decide⟩, ⟨by decide, by decide⟩⟩
  obtain ⟨root, accel, known, built, partition⟩ :=
    construct_spec (LevelSort.stable diagonal) (by decide) valid
  refine ⟨valid, by decide, accel, built, ?_⟩
  -- beyond the first brick along one axis and before the second along the others
  let point : Vec3 := fun axis => if axis = 0 then 1 else 0
  have outside : ∀ b ∈ diagonal, ¬ b.worldBounds.Contains point := by decide +kernel
  have inside : root.Contains point := by
    obtain rfl := Option.some.inj known
    decide +kernel
  obtain ⟨index, ⟨leaf, region, found, bounds, contained⟩, -⟩ := partition.one point inside
  have member := List.mem_of_getElem? found
  obtain ⟨own, same, -, -, brickList⟩ := (partition.leaves leaf member).brickList
  obtain rfl : region = own := Option.some.inj (bounds.symm.trans same)
  exact ⟨leaf, member, (brickList point contained).mpr outside⟩

end Ospray.Amr
