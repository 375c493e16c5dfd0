import Ospray.Geometry.Meshes

/-!
# Gathering the attributes of a mesh

The lanes of a gang read the indices of their primitives, and with them the vertices and the
attributes of the vertices. All arrays are addressed alike, by one flag for the mesh.
-/

namespace Ospray.Geometry

open SafeGather

variable {ι : Type}

/-- An index as its type tells, with a sign or without. -/
def OSPDataType.indexValue : OSPDataType → BitVec 32 → Int
  | .uint, word | .uint3, word | .uint4, word => word.toNat
  | _, word => word.toInt

namespace Mesh

variable (mesh : Mesh) (memory : Nat → BitVec 32) (lanes : List ι) (primID : ι → Nat)

/-- The addresses of the indices of the primitives, by `gather_vec3i` or `gather_vec4i`. -/
def indexAddress : ι → BitVec 64 :=
  gatherStride lanes mesh.huge_mesh (BitVec.ofNat 64 mesh.index) (BitVec.ofNat 32 (mesh.idxSize * 4))
    fun lane => BitVec.ofNat 32 (primID lane)

/-- A component of the indices that are read. -/
def cornerIndex (corner : Nat) : ι → BitVec 32 :=
  fun lane => memory ((mesh.indexAddress lanes primID lane).toNat + 4 * corner)

/-- An array that is read with the indices: where it starts, and how many bytes an element has. -/
structure Elements where
  base : Nat
  stride : Nat

/-- The array of the vertices, for `gather_vec3f`. -/
def vertexElements : Elements := ⟨mesh.vertex, mesh.vtxSize * 4⟩

/-- The attributes that are present, for `gather_vec3f`, `gather_vec4f` and `gather_vec2f`. -/
def attributes : List Elements :=
  (mesh.normal.map fun normal => ⟨normal, mesh.norSize * 4⟩).toList ++
    (mesh.color.map fun color => ⟨color, 16⟩).toList ++ (mesh.texcoord.map fun texcoord => ⟨texcoord, 8⟩).toList

/-- The addresses of the elements of an array for a corner of the primitives. -/
def elementAddress (array : Elements) (corner : Nat) : ι → BitVec 64 :=
  gatherStride lanes mesh.huge_mesh (BitVec.ofNat 64 array.base) (BitVec.ofNat 32 array.stride)
    (mesh.cornerIndex memory lanes primID corner)

/-- What the index array holds for a corner of a primitive. -/
def storedIndex (prim corner : Nat) : BitVec 32 := memory (mesh.index + mesh.idxSize * 4 * prim + 4 * corner)

end Mesh

/-- The indices of a mesh are below the vertex count. -/
def IndicesBelow (kind : MeshKind) (mesh : Mesh) (type : OSPDataType) (memory : Nat → BitVec 32) : Prop :=
  ∀ prim < mesh.numPrims, ∀ corner < kind.corners, 0 ≤ type.indexValue (mesh.storedIndex memory prim corner) ∧
    type.indexValue (mesh.storedIndex memory prim corner) < mesh.numVerts

instance (kind : MeshKind) (mesh : Mesh) (type : OSPDataType) (memory : Nat → BitVec 32) :
    Decidable (IndicesBelow kind mesh type memory) :=
  inferInstanceAs (Decidable (∀ prim < mesh.numPrims, ∀ corner < kind.corners, _ ∧ _))

/-- Every gather of a lane reads at the address of its element, as a mathematical integer. -/
structure GathersExact (kind : MeshKind) (mesh : Mesh) (type : OSPDataType) (memory : Nat → BitVec 32) (lanes : List ι)
    (primID : ι → Nat) (lane : ι) : Prop where
  index : (mesh.indexAddress lanes primID lane).toNat = mesh.index + mesh.idxSize * 4 * primID lane
  elements : ∀ array ∈ mesh.vertexElements :: mesh.attributes, ∀ corner < kind.corners,
    ((mesh.elementAddress memory lanes primID array corner lane).toNat : Int) =
      array.base + array.stride * type.indexValue (mesh.storedIndex memory (primID lane) corner)

/-- A primitive for which addresses have no sign in 32 bits, and for a mesh without large arrays no offset has one. -/
structure Addressable (kind : MeshKind) (params : MeshParams) (mesh : Mesh) (type : OSPDataType)
    (memory : Nat → BitVec 32) (prim : Nat) : Prop where
  number : prim < 2 ^ 31
  index : ∀ corner < kind.corners, type.indexValue (mesh.storedIndex memory prim corner) < 2 ^ 31
  offset : ¬params.Large → ∀ array ∈ mesh.attributes, ∀ corner < kind.corners,
    array.stride * type.indexValue (mesh.storedIndex memory prim corner) < 2 ^ 31

variable {kind : MeshKind} {params : MeshParams} {mesh : Mesh} {vertices indices : Data} {memory : Nat → BitVec 32}

theorem indexValue_eq {type : OSPDataType} {word : BitVec 32} (nonneg : 0 ≤ type.indexValue word) :
    type.indexValue word = word.toNat := by
  have bound := word.isLt
  cases type <;> simp only [OSPDataType.indexValue] at nonneg ⊢ <;> rw [BitVec.toInt_eq_toNat_cond] at nonneg ⊢ <;>
    split at nonneg <;> split <;> omega

theorem numBytes_lt {array : Data} (small : ¬params.Large) (member : array ∈ params.arrays) : array.numBytes < 2 ^ 31 := by
  by_contra other
  refine small ⟨array, member, ?_⟩
  rw [INT32_MAX]
  omega

namespace Accepts

variable (accepts : Accepts params mesh vertices indices) {lanes : List ι} {primID : ι → Nat} {lane : ι}
include accepts

theorem indices_mem : indices ∈ params.arrays := by simp [MeshParams.arrays, accepts.indexData]

theorem vertices_mem : vertices ∈ params.arrays := by simp [MeshParams.arrays, accepts.vertexData]

/-- An element has at most sixteen bytes, and its array is in memory. -/
theorem elements_spec {array : Mesh.Elements} (member : array ∈ mesh.vertexElements :: mesh.attributes) :
    0 < array.stride ∧ array.stride ≤ 16 ∧ array.base < 2 ^ 63 := by
  have inMemory : ∀ data : Data, data.data < 2 ^ 63 := fun data => (Nat.le_add_right _ _).trans_lt data.inMemory
  obtain rfl | other := List.mem_cons.mp member
  · have base := inMemory vertices
    obtain size | size := accepts.vtxSize <;> simp only [Mesh.vertexElements, size, accepts.vertex] <;> omega
  · simp only [Mesh.attributes, List.mem_append, Option.mem_toList, Option.map_eq_some_iff] at other
    obtain (⟨base, present, rfl⟩ | ⟨base, present, rfl⟩) | ⟨base, present, rfl⟩ := other
    · have size := accepts.norSize (Option.isSome_of_eq_some present)
      obtain ⟨data, -, rfl⟩ := Option.map_eq_some_iff.mp (accepts.normal.symm.trans present)
      have base := inMemory data
      dsimp only
      omega
    · obtain ⟨data, -, rfl⟩ := Option.map_eq_some_iff.mp (accepts.color.symm.trans present)
      exact ⟨Nat.succ_pos 15, le_rfl, inMemory data⟩
    · obtain ⟨data, -, rfl⟩ := Option.map_eq_some_iff.mp (accepts.texcoord.symm.trans present)
      exact ⟨Nat.succ_pos 7, (by decide : 8 ≤ 16), inMemory data⟩

/-- The indices of a primitive are read exactly if its number has no sign. -/
theorem indexAddress_iff (active : lane ∈ lanes) (valid : primID lane < mesh.numPrims) :
    (mesh.indexAddress lanes primID lane).toNat = mesh.index + mesh.idxSize * 4 * primID lane ↔ primID lane < 2 ^ 31 := by
  have within : mesh.idxSize * 4 * primID lane < indices.numBytes := by
    refine lt_of_lt_of_le ?_ accepts.prims
    rw [Nat.mul_comm mesh.idxSize]
    refine Nat.mul_lt_mul_of_pos_left valid ?_
    obtain size | size := accepts.idxSize <;> omega
  have inMemory := indices.inMemory
  rw [← Data.numBytes] at inMemory
  have positive : 0 < mesh.idxSize * 4 := by obtain size | size := accepts.idxSize <;> omega
  have small : mesh.idxSize * 4 ≤ 16 := by obtain size | size := accepts.idxSize <;> omega
  have exact := exact_iff mesh.huge_mesh indices.data (primID lane) (fun lane => BitVec.ofNat 32 (primID lane)) active
    positive small (by omega) rfl
  rw [Mesh.indexAddress, accepts.index, exact, accepts.huge_mesh]
  refine and_iff_left ?_
  by_cases large : params.Large
  · exact Or.inl large
  · exact Or.inr (within.trans (numBytes_lt large accepts.indices_mem))

/-- An element is read exactly if the index has no sign, and neither has the offset without upper bits. -/
theorem elementAddress_iff {type : OSPDataType} (below : IndicesBelow kind mesh type memory) (active : lane ∈ lanes)
    (valid : primID lane < mesh.numPrims)
    (read : (mesh.indexAddress lanes primID lane).toNat = mesh.index + mesh.idxSize * 4 * primID lane)
    {array : Mesh.Elements} (member : array ∈ mesh.vertexElements :: mesh.attributes) {corner : Nat}
    (inside : corner < kind.corners) :
    ((mesh.elementAddress memory lanes primID array corner lane).toNat : Int) =
        array.base + array.stride * type.indexValue (mesh.storedIndex memory (primID lane) corner) ↔
      type.indexValue (mesh.storedIndex memory (primID lane) corner) < 2 ^ 31 ∧
        (params.Large ∨ array.stride * type.indexValue (mesh.storedIndex memory (primID lane) corner) < 2 ^ 31) := by
  obtain ⟨positive, small, base⟩ := accepts.elements_spec member
  have stored : mesh.cornerIndex memory lanes primID corner lane = mesh.storedIndex memory (primID lane) corner := by
    rw [Mesh.cornerIndex, Mesh.storedIndex, read]
  rw [indexValue_eq (below _ valid corner inside).1]
  set word := mesh.storedIndex memory (primID lane) corner
  have bound : array.stride * word.toNat ≤ 16 * 2 ^ 32 := Nat.mul_le_mul small word.isLt.le
  have exact := exact_iff mesh.huge_mesh array.base word.toNat (mesh.cornerIndex memory lanes primID corner) active
    positive small (by omega) (stored.trans ((BitVec.ofNat_toNat 32 word).trans word.setWidth_eq).symm)
  rw [accepts.huge_mesh] at exact
  rw [Mesh.elementAddress]
  norm_cast

theorem vertexElements_offset {type : OSPDataType} (below : IndicesBelow kind mesh type memory) (small : ¬params.Large)
    {prim corner : Nat} (valid : prim < mesh.numPrims) (inside : corner < kind.corners) :
    mesh.vertexElements.stride * type.indexValue (mesh.storedIndex memory prim corner) < 2 ^ 31 := by
  obtain ⟨nonneg, less⟩ := below prim valid corner inside
  have bytes := numBytes_lt small accepts.vertices_mem
  have fits := accepts.verts
  rw [indexValue_eq nonneg] at less ⊢
  have product : mesh.vtxSize * 4 * (mesh.storedIndex memory prim corner).toNat ≤ 4 * mesh.vtxSize * mesh.numVerts := by
    rw [Nat.mul_comm mesh.vtxSize]
    exact Nat.mul_le_mul_left _ (Int.ofNat_lt.mp less).le
  have offset : mesh.vtxSize * 4 * (mesh.storedIndex memory prim corner).toNat < 2 ^ 31 :=
    (product.trans fits).trans_lt bytes
  exact_mod_cast offset

end Accepts

/-- The gathers of a primitive are exact if and only if it is addressable. -/
theorem gathersExact_iff {type : OSPDataType} (accepted : kind.finalize params = .ok mesh)
    (below : IndicesBelow kind mesh type memory) {lanes : List ι} {primID : ι → Nat} {lane : ι} (active : lane ∈ lanes)
    (valid : primID lane < mesh.numPrims) :
    GathersExact kind mesh type memory lanes primID lane ↔ Addressable kind params mesh type memory (primID lane) := by
  obtain ⟨vertices, indices, accepts⟩ := accepts_of_finalize accepted
  constructor
  · rintro ⟨read, elements⟩
    have each := fun array member corner inside => (accepts.elementAddress_iff below active valid read member inside).mp
      (elements array member corner inside)
    refine ⟨(accepts.indexAddress_iff active valid).mp read, fun corner inside => ?_,
      fun small array member corner inside => ?_⟩
    · exact (each _ List.mem_cons_self corner inside).1
    · exact (each array (List.mem_cons_of_mem _ member) corner inside).2.resolve_left small
  · rintro ⟨prim, index, offset⟩
    have read := (accepts.indexAddress_iff active valid).mpr prim
    refine ⟨read, fun array member corner inside => ?_⟩
    refine (accepts.elementAddress_iff below active valid read member inside).mpr ⟨index corner inside, ?_⟩
    refine or_iff_not_imp_left.mpr fun small => ?_
    obtain rfl | other := List.mem_cons.mp member
    · exact accepts.vertexElements_offset below small valid inside
    · exact offset small array other corner inside

/-! ## One triangle -/

/-- A triangle of the last of some vertices and the first one twice. -/
def oneTriangle (vertexCount : Nat) (inMemory : 8192 + vertexCount * OSPDataType.float3.bytes < 2 ^ 63) : MeshParams where
  vertexData := some { data := 8192, numItems := vertexCount, type := .float3, inMemory := inMemory }
  normalData := none
  colorData := none
  texcoordData := none
  indexData := some { data := 4096, numItems := 1, type := .uint3, inMemory := index_inMemory }

/-- The index array of the triangle. -/
def lastVertex (last : Nat) : Nat → BitVec 32 := fun address => if address = 4096 then BitVec.ofNat 32 last else 0

/-- The mesh of the triangle. -/
def oneTriangleMesh (vertexCount : Nat) (huge_mesh : Bool) : Mesh where
  numPrims := 1
  numVerts := vertexCount
  idxSize := 3
  vtxSize := 3
  norSize := 0
  index := 4096
  vertex := 8192
  normal := none
  color := none
  texcoord := none
  has_alpha := false
  huge_mesh := huge_mesh

/-- A triangle of a small mesh. -/
theorem gathersExact_iff_small :
    GathersExact .triangles (oneTriangleMesh 3 false) .uint3 (lastVertex 2) [()] (fun _ => 0) () ↔
      Addressable .triangles (oneTriangle 3 (by decide)) (oneTriangleMesh 3 false) .uint3 (lastVertex 2) 0 :=
  gathersExact_iff rfl (by decide) List.mem_cons_self (by decide)

/-- An index with the highest bit is read with a sign. -/
theorem gathers_below_array :
    MeshKind.triangles.finalize (oneTriangle (2 ^ 31 + 1) (by decide)) = .ok (oneTriangleMesh (2 ^ 31 + 1) true) ∧
      IndicesBelow .triangles (oneTriangleMesh (2 ^ 31 + 1) true) .uint3 (lastVertex (2 ^ 31)) ∧
      ¬GathersExact .triangles (oneTriangleMesh (2 ^ 31 + 1) true) .uint3 (lastVertex (2 ^ 31)) [()] (fun _ => 0) () := by
  refine ⟨rfl, by decide, fun exact => ?_⟩
  have first := exact.elements (oneTriangleMesh (2 ^ 31 + 1) true).vertexElements List.mem_cons_self 0 (by decide)
  revert first
  decide

end Ospray.Geometry
