import Ospray.Volume.BvhReferences

/-!
# Traversing a bounding volume hierarchy

The kernels go through a hierarchy from the root, for several lanes at once: down into a node
if some lane needs it, and to the other child later, which is kept on a stack of 32 entries.
For sample points the primitives of the boxes that contain a point are visited. For rays those
of the boxes that a ray meets before its nearest hit, the nearer child first; when a child is
taken from the stack and no ray reaches it any more, it is left out. The arithmetic is exact.
-/

namespace Ospray.Unstructured

open Library.BoxTrees Library.Hulls Library.Partitions Library.StackTraversals Library.Whiles BuiltTree

/-- The `MinMaxBVH2` of the kernels. Its arrays are pointers: `node` is what is read as a node at an
offset in bytes, and `primID` what is read as a reference at an index. -/
structure IspcBvh where
  rootRef : Nat
  node : Nat → Node
  primID : Nat → Nat

/-- What a reference leads to: a pair of nodes, or some primitives. -/
def fetch (bvh : IspcBvh) (nodeRef : Nat) : Cell Nat (Node × Node) (List Nat) :=
  match decode nodeRef with
  | .inner offset =>
    let nodePair := (bvh.node offset, bvh.node (offset + sizeOfNode))
    .inner nodePair nodePair.1.childRef nodePair.2.childRef
  | .leaf offset count => .leaf (slice bvh.primID offset (offset + count))

variable {ι : Type} [DecidableEq ι]

/-! ## Sample points -/

/-- `pointInAABBTest` of the bounds of a node -/
def pointInAABBTest (box : Option Box4) (point : Fin 3 → ℚ) : Bool :=
  match box with
  | some bounds => decide (∀ axis, point axis ≥ xyz bounds.lower axis ∧ point axis ≤ xyz bounds.upper axis)
  | none => false

/-- The lanes of `traverse` that have not returned, their results, and the primitives that the callback
was called for. -/
structure Sampling (ι : Type) where
  active : List ι
  result : ι → ℚ
  calls : List Nat

/-- An `intersectAndSamplePrim`: it is given a primitive, the result so far, a point, and the range of
values of the first node. It tells whether the point has a sample, and changes the result. -/
abbrev IntersectAndSamplePrim := Nat → ℚ → (Fin 3 → ℚ) → Option Box4 → Bool × ℚ

section Traverse

variable (bvh : IspcBvh) (sampleFunc : IntersectAndSamplePrim) (samplePos : ι → Fin 3 → ℚ)

/-- The callback is called for the active lanes, and those return that have a sample. -/
def samplePrim (sampling : Sampling ι) (primRef : Nat) : Sampling ι :=
  let root := bvh.node 0
  let sampled := fun lane => sampleFunc primRef (sampling.result lane) (samplePos lane) root.bounds
  { active := sampling.active.filter fun lane => !(sampled lane).1
    result := fun lane => if lane ∈ sampling.active then (sampled lane).2 else sampling.result lane
    calls := sampling.calls ++ [primRef] }

/-- The loop over the primitives of a leaf. When no lane is left, `traverse` returns. -/
def sampleLeaf : List Nat → Sampling ι → Pass (Sampling ι)
  | [], sampling => .again sampling
  | primRef :: rest, sampling =>
    let sampling := samplePrim bvh sampleFunc samplePos sampling primRef
    if sampling.active = [] then .leave sampling else sampleLeaf rest sampling

/-- The child that `traverse` goes to. It takes whatever is on the stack. -/
def pointTraversal : Traversal (Node × Node) (List Nat) Unit (Sampling ι) where
  choose nodePair sampling :=
    let in0 := sampling.active.any fun lane => pointInAABBTest nodePair.1.bounds (samplePos lane)
    let in1 := sampling.active.any fun lane => pointInAABBTest nodePair.2.bounds (samplePos lane)
    if in0 then
      if in1 then .leftFirst () else .left
    else
      if in1 then .right else .neither
  visit := sampleLeaf bvh sampleFunc samplePos
  wanted _ _ := true

/-- A pass of the loop of `traverse` -/
def traversePass : State Nat Unit (Sampling ι) → Pass (State Nat Unit (Sampling ι)) :=
  body (fetch bvh) (pointTraversal bvh sampleFunc samplePos)

end Traverse

/-! ## Rays -/

/-- A `Ray` with what the traversal and the callback use. -/
structure IsoRay where
  org : Fin 3 → ℚ
  dir : Fin 3 → ℚ
  t0 : ℚ
  t : ℚ
  u : ℚ
  geomID : Int
  primID : Int

/-- `inIsoRange` -/
def inIsoRange (isoRange : ℚ × ℚ) (rn : Box4) : Bool :=
  decide (isoRange.1 ≤ rn.upper 3 ∧ rn.lower 3 ≤ isoRange.2)

/-- An `intersectIsoRay`, for one lane. -/
abbrev IntersectIsoRay := Nat → IsoRay → IsoRay

section Boxes

-- `rcp` is a function of the compiler, and for zero any number
variable (rcp : ℚ → ℚ) (ray : IsoRay) (rn : Box4)

/-- The distances at which a ray passes the faces of a box across an axis. -/
def faceDistances (axis : Fin 3) : ℚ × ℚ :=
  let rdir := rcp (ray.dir axis)
  let rorg := -(ray.org axis * rdir)
  (xyz rn.lower axis * rdir + rorg, xyz rn.upper axis * rdir + rorg)

/-- `t_nr`: the `dist` that `intersects` returns. -/
def nearDistance : ℚ :=
  let t_nr := fun axis => min (faceDistances rcp ray rn axis).1 (faceDistances rcp ray rn axis).2
  max ray.t0 (max (t_nr 0) (max (t_nr 1) (t_nr 2)))

/-- `t_fr` -/
def farDistance : ℚ :=
  let t_fr := fun axis => max (faceDistances rcp ray rn axis).1 (faceDistances rcp ray rn axis).2
  min ray.t (min (t_fr 0) (min (t_fr 1) (t_fr 2)))

/-- `intersects` -/
def intersects : Bool := nearDistance rcp ray rn ≤ farDistance rcp ray rn

end Boxes

section TraverseRay

variable (rcp : ℚ → ℚ) (isoRange : ℚ × ℚ)

/-- `hit0` and `hit1`. The range of an empty box is empty. -/
def hits (ray : IsoRay) : Option Box4 → Bool
  | some bounds => inIsoRange isoRange bounds && intersects rcp ray bounds
  | none => false

/-- `dist0` and `dist1`, which are not used for an empty box. -/
def dist (ray : IsoRay) : Option Box4 → ℚ
  | some bounds => nearDistance rcp ray bounds
  | none => 0

variable (isoRayFunc : IntersectIsoRay) (lanes : List ι)

/-- A lane hits both children, and the first one before the second. -/
def nearerFirst (rays : ι → IsoRay) (first second : Option Box4) : Bool :=
  lanes.any fun lane => hits rcp isoRange (rays lane) first && hits rcp isoRange (rays lane) second &&
    decide (dist rcp (rays lane) first < dist rcp (rays lane) second)

/-- The callback is called for all lanes. -/
def intersectPrim (rays : ι → IsoRay) (primRef : Nat) : ι → IsoRay :=
  fun lane => if lane ∈ lanes then isoRayFunc primRef (rays lane) else rays lane

/-- The child that `traverseRay` goes to first, and the distances of the other one. A child is taken from
the stack if some ray is longer than its distance. -/
def rayTraversal : Traversal (Node × Node) (List Nat) (ι → ℚ) (ι → IsoRay) where
  choose nodePair rays :=
    let hit0 := lanes.any fun lane => hits rcp isoRange (rays lane) nodePair.1.bounds
    let hit1 := lanes.any fun lane => hits rcp isoRange (rays lane) nodePair.2.bounds
    if hit0 then
      if hit1 then
        if nearerFirst rcp isoRange lanes rays nodePair.1.bounds nodePair.2.bounds then
          .leftFirst fun lane => dist rcp (rays lane) nodePair.2.bounds
        else .rightFirst fun lane => dist rcp (rays lane) nodePair.1.bounds
      else .left
    else
      if hit1 then .right else .neither
  visit prims rays := .again (prims.foldl (intersectPrim isoRayFunc lanes) rays)
  wanted distStack rays := lanes.any fun lane => decide (distStack lane < (rays lane).t)

/-- A pass of the loop of `traverseRay` -/
def traverseRayPass (bvh : IspcBvh) :
    State Nat (ι → ℚ) (ι → IsoRay) → Pass (State Nat (ι → ℚ) (ι → IsoRay)) :=
  body (fetch bvh) (rayTraversal rcp isoRange isoRayFunc lanes)

end TraverseRay

/-! ## The box of a node -/

/-- A point of a primitive's box lies in the box of every node that has the primitive. -/
theorem pointInAABBTest_boundsOf {primBounds : Nat → Box4} {prims : List Nat} {prim : Nat} {point : Fin 3 → ℚ}
    (own : prim ∈ prims) (inside : pointInAABBTest (some (primBounds prim)) point = true) :
    pointInAABBTest (boundsOf primBounds prims) point = true := by
  have boxes : prims.map primBounds ≠ [] := by
    rw [ne_eq, List.map_eq_nil_iff]
    exact List.ne_nil_of_mem own
  obtain ⟨hull, computed, isHull⟩ := isHull_hullOf boxes
  have covers := of_decide_eq_true inside
  rw [boundsOf, computed]
  refine decide_eq_true fun axis => ?_
  have within := isHull.within (List.mem_map_of_mem own) axis.castSucc
  exact ⟨within.1.trans (covers axis).1, (covers axis).2.trans within.2⟩

/-! ## The hierarchy that was built -/

/-- What the kernels are given. -/
def MinMaxBVH2.pointers (bvh : MinMaxBVH2) : IspcBvh where
  rootRef := bvh.root
  node offset := bvh.node.getD (offset / sizeOfNode) default
  primID := bvh.primID

variable {primBounds : Nat → Box4} {primRefs : Nat → Nat} {numPrims : Nat} {bvh : MinMaxBVH2}
  {pointers : IspcBvh} {tree : BuiltTree} {content : Leaf → List Nat}

end Ospray.Unstructured
