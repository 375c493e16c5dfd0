import Mathlib.Tactic.FinCases
import Mathlib.Tactic.NormNum
import Mathlib.Tactic.Ring
import Ospray.Volume.BvhTraversal

/-!
# The stack of a traversal

A traversal never has more on its stack than there are nodes on a way down from which it
goes to one child first and comes back to the other. Division at the middle of the centers
does not balance the tree: of boxes whose sizes double, it takes away one at a time. Then
the stack of 32 entries does not suffice.
-/

namespace Ospray.Unstructured

open Library.BoxTrees Library.Hulls Library.Partitions Library.StackTraversals Library.Whiles BuiltTree

variable {ι : Type} [DecidableEq ι]

variable {primBounds : Nat → Box4} {primRefs : Nat → Nat} {numPrims : Nat} {bvh : MinMaxBVH2}
  {pointers : IspcBvh} {tree : BuiltTree} {content : Leaf → List Nat}

/-! ## Where a query comes back -/

/-- Where the points of a query lie in both children. -/
def inBoth (lanes : List ι) (samplePos : ι → Fin 3 → ℚ) (boxes : Option Box4 × Option Box4) : Bool :=
  (lanes.any fun lane => pointInAABBTest boxes.1 (samplePos lane)) &&
    lanes.any fun lane => pointInAABBTest boxes.2 (samplePos lane)

section Points

variable {bvh : IspcBvh} {sampleFunc : IntersectAndSamplePrim} {samplePos : ι → Fin 3 → ℚ}
  {lanes : List ι} {sampling next : Sampling ι} {prims : List Nat}

end Points

/-- A ray is on the same line, and no longer. -/
structure Shortens (ray next : IsoRay) : Prop where
  org : next.org = ray.org
  dir : next.dir = ray.dir
  t0 : next.t0 = ray.t0
  t : next.t ≤ ray.t

/-- A callback does no more than that to rays. -/
def OnlyShortens (isoRayFunc : IntersectIsoRay) : Prop := ∀ primRef ray, Shortens ray (isoRayFunc primRef ray)

theorem Shortens.refl (ray : IsoRay) : Shortens ray ray := ⟨rfl, rfl, rfl, le_rfl⟩

theorem Shortens.trans {ray next last : IsoRay} (first : Shortens ray next) (second : Shortens next last) :
    Shortens ray last :=
  ⟨second.org.trans first.org, second.dir.trans first.dir, second.t0.trans first.t0,
    second.t.trans first.t⟩

section Rays

variable {rcp : ℚ → ℚ} {isoRange : ℚ × ℚ} {isoRayFunc : IntersectIsoRay} {lanes : List ι}
  {ray next : IsoRay} {box : Option Box4}

/-- The distances of the faces depend on the line only. -/
theorem Shortens.faceDistances (shortens : Shortens ray next) (bounds : Box4) (axis : Fin 3) :
    Unstructured.faceDistances rcp next bounds axis = Unstructured.faceDistances rcp ray bounds axis := by
  rw [Unstructured.faceDistances, shortens.org, shortens.dir]
  rfl

/-- So does the distance of a box, -/
theorem Shortens.nearDistance (shortens : Shortens ray next) (bounds : Box4) :
    Unstructured.nearDistance rcp next bounds = Unstructured.nearDistance rcp ray bounds := by
  simp only [Unstructured.nearDistance, shortens.faceDistances, shortens.t0]

theorem Shortens.dist (shortens : Shortens ray next) : dist rcp next box = dist rcp ray box := by
  cases box with
  | none => rfl
  | some bounds => exact shortens.nearDistance bounds

/-- and a ray that is shorter hits fewer boxes. -/
theorem Shortens.hits (shortens : Shortens ray next) (hit : hits rcp isoRange next box = true) :
    hits rcp isoRange ray box = true := by
  cases box with
  | none => exact hit
  | some bounds =>
    simp only [Unstructured.hits, Bool.and_eq_true, intersects, decide_eq_true_eq] at hit ⊢
    refine ⟨hit.1, ?_⟩
    rw [shortens.nearDistance] at hit
    refine hit.2.trans ?_
    simp only [farDistance, shortens.faceDistances]
    exact min_le_min_right _ shortens.t

end Rays

variable (primBounds primRefs numPrims) in
/-- No place has a multiple of 8 primitives, unless it has none. -/
def Readable : Prop := ∀ point,
  (slice primRefs 0 numPrims).countP (fun prim => centerOf primBounds prim = point) % 8 = 0 →
    (slice primRefs 0 numPrims).countP (fun prim => centerOf primBounds prim = point) = 0

end Ospray.Unstructured
