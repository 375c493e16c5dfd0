import Ospray.Geometry.Meshes
import Ospray.Library.Whiles

/-!
# Going over a mesh

The bounds of a mesh are extended by its vertices, in a loop with a counter of 32 bits. For the
areas of triangles their indices are read, at an offset that is a product in 32 bits.
-/

namespace Ospray.Geometry

open Library.Whiles SafeGather

universe u
variable {V B : Type u}

/-! ## Bounds -/

/-- A pass of the loop over the vertices; the counter has 32 bits, the product has 64. -/
def boundsPass (mesh : Mesh) (read : Nat → V) (extend : B → V → B) : Nat × B → Pass (Nat × B)
  | (i, bounds) =>
    if i < mesh.numVerts * mesh.vtxSize % 2 ^ 64 then
      .again ((i + mesh.vtxSize) % 2 ^ 32, extend bounds (read i))
    else .leave (i, bounds)

/-- The bounds of all vertices; the vertices are at multiples of their size. -/
def boundsOf (mesh : Mesh) (read : Nat → V) (extend : B → V → B) (empty : B) (n : Nat) : B :=
  (List.range n).foldl (fun bounds k => extend bounds (read (k * mesh.vtxSize))) empty

/-- The loop ends, with the bounds extended by every vertex. -/
def BoundsCover (mesh : Mesh) (read : Nat → V) (extend : B → V → B) (empty : B) : Prop :=
  ∃ i, Returns (boundsPass mesh read extend) (0, empty) (i, boundsOf mesh read extend empty mesh.numVerts)

variable {mesh : Mesh} {read : Nat → V} {extend : B → V → B} {empty : B}

theorem boundsOf_succ (n : Nat) :
    boundsOf mesh read extend empty (n + 1) = extend (boundsOf mesh read extend empty n) (read (n * mesh.vtxSize)) := by
  rw [boundsOf, List.range_succ, List.foldl_append]
  rfl

/-- With a product of at most 32 bits the loop goes over all vertices. -/
theorem boundsCover_of_lt (positive : 0 < mesh.vtxSize) (small : mesh.numVerts * mesh.vtxSize < 2 ^ 32) :
    BoundsCover mesh read extend empty := by
  refine ⟨mesh.numVerts * mesh.vtxSize, ?_⟩
  have total : mesh.numVerts * mesh.vtxSize % 2 ^ 64 = mesh.numVerts * mesh.vtxSize := Nat.mod_eq_of_lt (by omega)
  -- from every vertex on to the last one
  have from_ : ∀ k ≤ mesh.numVerts, Returns (boundsPass mesh read extend)
      (k * mesh.vtxSize, boundsOf mesh read extend empty k)
      (mesh.numVerts * mesh.vtxSize, boundsOf mesh read extend empty mesh.numVerts) := by
    intro k inside
    induction inside using Nat.decreasingInduction with
    | self =>
      refine returns_leave ?_
      rw [boundsPass, total, if_neg (lt_irrefl _)]
    | of_succ k less inductionHypothesis =>
      have before : k * mesh.vtxSize < mesh.numVerts * mesh.vtxSize :=
        Nat.mul_lt_mul_of_pos_right less positive
      have next : (k + 1) * mesh.vtxSize ≤ mesh.numVerts * mesh.vtxSize := Nat.mul_le_mul_right _ less
      refine returns_again ?_ inductionHypothesis
      have step : k * mesh.vtxSize + mesh.vtxSize = (k + 1) * mesh.vtxSize := (Nat.succ_mul k mesh.vtxSize).symm
      rw [boundsPass, total, if_pos before, boundsOf_succ, step, Nat.mod_eq_of_lt (by omega)]
  have start := from_ 0 (Nat.zero_le _)
  rw [Nat.zero_mul] at start
  exact start

theorem not_boundsCover (large : 2 ^ 32 ≤ mesh.numVerts * mesh.vtxSize) (inMemory : mesh.numVerts * mesh.vtxSize < 2 ^ 64) :
    ¬BoundsCover mesh read extend empty := by
  rintro ⟨i, returns⟩
  refine not_returns (loop_eq_none (fun state => state.1 < 2 ^ 32) (fun state small => ?_) ?_) returns
  · refine ⟨_, if_pos ?_, Nat.mod_lt _ (by decide)⟩
    rw [Nat.mod_eq_of_lt inMemory]
    exact small.trans_le large
  · exact Nat.two_pow_pos 32

/-! ## Areas -/

/-- Where `getAreas` reads the indices of a triangle: `self->index + primID * idxSize`. -/
def areasIndexAddress (mesh : Mesh) (primID : BitVec 32) : BitVec 64 :=
  BitVec.ofNat 64 mesh.index + (primID * BitVec.ofNat 32 mesh.idxSize).signExtend 64 * 4#64

/-- The indices are read where those of the triangle are, as a mathematical integer. -/
def AreasExact (mesh : Mesh) (prim : Nat) : Prop :=
  (areasIndexAddress mesh (BitVec.ofNat 32 prim)).toNat = mesh.index + 4 * (prim * mesh.idxSize)

theorem areasExact_iff {prim : Nat} (inMemory : mesh.index + 4 * (prim * mesh.idxSize) < 2 ^ 63) :
    AreasExact mesh prim ↔ prim * mesh.idxSize < 2 ^ 31 := by
  obtain ⟨m, split, sign, low, high⟩ := toInt_ofNat (prim * mesh.idxSize)
  have product : BitVec.ofNat 32 prim * BitVec.ofNat 32 mesh.idxSize = BitVec.ofNat 32 (prim * mesh.idxSize) :=
    (BitVec.ofNat_mul prim mesh.idxSize).symm
  have scaled : BitVec.signExtend 64 (BitVec.ofNat 32 (prim * mesh.idxSize)) * 4#64 =
      BitVec.ofInt 64 ((BitVec.ofNat 32 (prim * mesh.idxSize)).toInt * 4) := by
    rw [BitVec.signExtend, BitVec.ofInt_mul]
    rfl
  have place : ((mesh.index + 4 * (prim * mesh.idxSize) : Nat) : Int) =
      mesh.index + (BitVec.ofNat 32 (prim * mesh.idxSize)).toInt * 4 + 2 ^ 32 * (4 * m : Nat) := by
    omega
  rw [AreasExact, areasIndexAddress, product, scaled, ← Int.natCast_inj, toNat_address, place,
    emod_eq_iff (by omega) (by omega) (by omega), Nat.mul_eq_zero, or_iff_right (by decide), sign]

/-! ## Meshes that are accepted -/

/-- The loops over a mesh cover it: the bounds have every vertex, and areas are those of the triangles. -/
def LoopsCover (kind : MeshKind) (mesh : Mesh) (read : Nat → V) (extend : B → V → B) (empty : B) : Prop :=
  BoundsCover mesh read extend empty ∧ (kind = .triangles → ∀ prim < mesh.numPrims, AreasExact mesh prim)

/-- The loops cover a mesh if and only if its counts have less than 32 bits. -/
theorem loopsCover_iff {kind : MeshKind} {params : MeshParams} (accepted : kind.finalize params = .ok mesh) :
    LoopsCover kind mesh read extend empty ↔ mesh.numVerts * mesh.vtxSize < 2 ^ 32 ∧
      (kind = .triangles → ∀ prim < mesh.numPrims, prim * mesh.idxSize < 2 ^ 31) := by
  obtain ⟨vertices, indices, accepts⟩ := accepts_of_finalize accepted
  have verts := accepts.verts
  have vertsInMemory := vertices.inMemory
  have indicesInMemory := indices.inMemory
  rw [← Data.numBytes] at vertsInMemory indicesInMemory
  have bytes : 4 * mesh.vtxSize * mesh.numVerts = 4 * (mesh.numVerts * mesh.vtxSize) := by
    rw [Nat.mul_assoc, Nat.mul_comm mesh.vtxSize]
  have positive : 0 < mesh.vtxSize := by obtain size | size := accepts.vtxSize <;> omega
  refine and_congr ⟨fun covers => ?_, boundsCover_of_lt positive⟩
    (forall_congr' fun _ => forall₂_congr fun prim valid => areasExact_iff ?_)
  · by_contra large
    exact not_boundsCover (Nat.le_of_not_lt large) (by omega) covers
  · have fits : 4 * mesh.idxSize * prim ≤ 4 * mesh.idxSize * mesh.numPrims := Nat.mul_le_mul_left _ valid.le
    have prims := accepts.prims
    rw [accepts.index, Nat.mul_comm prim, ← Nat.mul_assoc]
    omega

/-- A triangle of the first vertex, in a mesh of vertices of four floats. -/
def flatTriangle (vertexCount : Nat) (inMemory : 8192 + vertexCount * OSPDataType.float4.bytes < 2 ^ 63) : MeshParams where
  vertexData := some { data := 8192, numItems := vertexCount, type := .float4, inMemory := inMemory }
  normalData := none
  colorData := none
  texcoordData := none
  indexData := some { data := 4096, numItems := 1, type := .uint3, inMemory := index_inMemory }

/-- The mesh of the triangle. -/
def flatTriangleMesh (vertexCount : Nat) (huge_mesh : Bool) : Mesh where
  numPrims := 1
  numVerts := vertexCount
  idxSize := 3
  vtxSize := 4
  norSize := 0
  index := 4096
  vertex := 8192
  normal := none
  color := none
  texcoord := none
  has_alpha := false
  huge_mesh := huge_mesh

/-- The loops over a small mesh. -/
theorem loopsCover_iff_small :
    LoopsCover .triangles (flatTriangleMesh 3 false) id max 0 ↔ 3 * 4 < 2 ^ 32 ∧
      (MeshKind.triangles = .triangles → ∀ prim < 1, prim * 3 < 2 ^ 31) :=
  loopsCover_iff (rfl : MeshKind.triangles.finalize (flatTriangle 3 (by decide)) = .ok (flatTriangleMesh 3 false))

/-- With `2 ^ 30` vertices of four floats the loop over the vertices does not end. -/
theorem bounds_never_end :
    MeshKind.triangles.finalize (flatTriangle (2 ^ 30) (by decide)) = .ok (flatTriangleMesh (2 ^ 30) true) ∧
      ¬LoopsCover .triangles (flatTriangleMesh (2 ^ 30) true) id max 0 :=
  ⟨rfl, fun covers => not_boundsCover (by decide) (by decide) covers.1⟩

end Ospray.Geometry
