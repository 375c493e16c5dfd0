import Mathlib.Tactic.Common
import Ospray.Geometry.SafeGather

/-!
# Meshes

A mesh of triangles or quads has an array of vertices, an array of indices, and attributes of the
vertices. The element types of the arrays decide how many items an element takes. If one of the
arrays is large, the mesh is addressed with 64 bits.
-/

namespace Ospray.Geometry

/-- The element types that a mesh asks for, and any other one by its size. -/
inductive OSPDataType where
  | int
  | int3
  | int4
  | uint
  | uint3
  | uint4
  | float
  | float3
  | float3a
  | float4
  | other (bytes : Nat)
  deriving DecidableEq

/-- `sizeOf` -/
def OSPDataType.bytes : OSPDataType → Nat
  | .int | .uint | .float => 4
  | .int3 | .uint3 | .float3 => 12
  | .int4 | .uint4 | .float3a | .float4 => 16
  | .other bytes => bytes

/-- `Data`, an array in the memory of a process, which is the lower half of all addresses. -/
structure Data where
  data : Nat
  numItems : Nat
  type : OSPDataType
  inMemory : data + numItems * type.bytes < 2 ^ 63

theorem index_inMemory : 4096 + 1 * OSPDataType.uint3.bytes < 2 ^ 63 := by decide

/-- `numBytes` -/
def Data.numBytes (self : Data) : Nat := self.numItems * self.type.bytes

/-- The parameters of a mesh. -/
structure MeshParams where
  vertexData : Option Data
  normalData : Option Data
  colorData : Option Data
  texcoordData : Option Data
  indexData : Option Data

/-- What the kernels know of a mesh; the sizes are in items of four bytes. -/
structure Mesh where
  numPrims : Nat
  numVerts : Nat
  idxSize : Nat
  vtxSize : Nat
  norSize : Nat
  index : Nat
  vertex : Nat
  normal : Option Nat
  color : Option Nat
  texcoord : Option Nat
  has_alpha : Bool
  huge_mesh : Bool

/-- `TriangleMesh` and `QuadMesh`. -/
inductive MeshKind where
  | triangles
  | quads
  deriving DecidableEq

namespace MeshKind

/-- How many indices a primitive has. -/
def corners : MeshKind → Nat
  | triangles => 3
  | quads => 4

/-- How the messages name the mesh, in words and as a type. -/
def words : MeshKind → String
  | triangles => "triangle mesh"
  | quads => "quad mesh"

def typeName : MeshKind → String
  | triangles => "trianglemesh"
  | quads => "quadmesh"

/-- How many items of the index array make a primitive, and how many integers. -/
def indexLayout : MeshKind → OSPDataType → Option (Nat × Nat)
  | triangles, .int | triangles, .uint => some (3, 3)
  | triangles, .int3 | triangles, .uint3 => some (1, 3)
  | triangles, .int4 | triangles, .uint4 => some (1, 4)
  | quads, .int | quads, .uint => some (4, 4)
  | quads, .int4 | quads, .uint4 => some (1, 4)
  | _, _ => none

end MeshKind

/-- How many items of the vertex array make a vertex, and how many floats. -/
def vertexLayout : OSPDataType → Option (Nat × Nat)
  | .float => some (4, 4)
  | .float3 => some (1, 3)
  | .float3a | .float4 => some (1, 4)
  | _ => none

/-- How many floats make a normal. -/
def normalLayout : OSPDataType → Option Nat
  | .float3 => some 3
  | .float | .float3a => some 4
  | _ => none

/-- `INT32_MAX` -/
def INT32_MAX : Nat := 2147483647

/-- An array needs 64-bit addressing. -/
def Data.huge (self : Data) : Bool := decide (self.numBytes > INT32_MAX)

/-- An array that need not be there needs 64-bit addressing. -/
def hugeIfPresent : Option Data → Bool
  | some array => array.huge
  | none => false

/-- What must be there, or an exception. -/
def orThrow {α : Type} (message : String) : Option α → Except String α
  | some a => .ok a
  | none => .error message

/-- The check of the element type of the colors. -/
def checkColor : Option Data → Except String Unit
  | some colorData =>
    if colorData.type ≠ .float4 ∧ colorData.type ≠ .float3a then
      .error "vertex.color must have data type OSP_FLOAT4 or OSP_FLOAT3A"
    else .ok ()
  | none => .ok ()

/-- How many floats make a normal, if there are any normals. -/
def MeshKind.normalSize (kind : MeshKind) : Option Data → Except String Nat
  | some normalData =>
    orThrow ("unsupported " ++ kind.typeName ++ ".vertex.normal data type") (normalLayout normalData.type)
  | none => .ok 0

/-- `TriangleMesh::finalize` and `QuadMesh::finalize`, up to what is handed to the kernels. -/
def MeshKind.finalize (kind : MeshKind) (params : MeshParams) : Except String Mesh := do
  let vertexData ← orThrow (kind.words ++ " must have 'vertex' array") params.vertexData
  let indexData ← orThrow (kind.words ++ " must have 'index' array") params.indexData
  checkColor params.colorData
  let huge_mesh := indexData.huge || vertexData.huge || hugeIfPresent params.normalData ||
    hugeIfPresent params.colorData || hugeIfPresent params.texcoordData
  let (itemsInPrim, numCompsInPrim) ←
    orThrow ("unsupported " ++ kind.typeName ++ ".index data type") (kind.indexLayout indexData.type)
  let (itemsInVtx, numCompsInVtx) ←
    orThrow ("unsupported " ++ kind.typeName ++ ".vertex data type") (vertexLayout vertexData.type)
  let numCompsInNor ← kind.normalSize params.normalData
  pure
    { numPrims := indexData.numItems / itemsInPrim
      numVerts := vertexData.numItems / itemsInVtx
      idxSize := numCompsInPrim
      vtxSize := numCompsInVtx
      norSize := numCompsInNor
      index := indexData.data
      vertex := vertexData.data
      normal := params.normalData.map Data.data
      color := params.colorData.map Data.data
      texcoord := params.texcoordData.map Data.data
      has_alpha := params.colorData.any fun colorData => colorData.type = .float4
      huge_mesh := huge_mesh }

/-! ## Accepted meshes -/

/-- The arrays of a mesh. -/
def MeshParams.arrays (params : MeshParams) : List Data :=
  params.indexData.toList ++ params.vertexData.toList ++ params.normalData.toList ++ params.colorData.toList ++
    params.texcoordData.toList

/-- An array has more bytes than 32 bits with a sign can address. -/
def MeshParams.Large (params : MeshParams) : Prop := ∃ array ∈ params.arrays, INT32_MAX < array.numBytes

/-- What is known of a mesh that is accepted. -/
structure Accepts (params : MeshParams) (mesh : Mesh) (vertices indices : Data) : Prop where
  vertexData : params.vertexData = some vertices
  indexData : params.indexData = some indices
  index : mesh.index = indices.data
  vertex : mesh.vertex = vertices.data
  idxSize : mesh.idxSize = 3 ∨ mesh.idxSize = 4
  vtxSize : mesh.vtxSize = 3 ∨ mesh.vtxSize = 4
  norSize : mesh.normal.isSome → mesh.norSize = 3 ∨ mesh.norSize = 4
  prims : 4 * mesh.idxSize * mesh.numPrims ≤ indices.numBytes
  verts : 4 * mesh.vtxSize * mesh.numVerts ≤ vertices.numBytes
  normal : mesh.normal = params.normalData.map Data.data
  color : mesh.color = params.colorData.map Data.data
  texcoord : mesh.texcoord = params.texcoordData.map Data.data
  huge_mesh : mesh.huge_mesh = true ↔ params.Large

theorem indexLayout_spec {kind : MeshKind} {type : OSPDataType} {items comps : Nat}
    (layout : kind.indexLayout type = some (items, comps)) :
    (comps = 3 ∨ comps = 4) ∧ 4 * comps = items * type.bytes := by
  cases kind <;> cases type <;> simp only [MeshKind.indexLayout, Option.some.injEq, Prod.mk.injEq, reduceCtorEq] at layout <;>
    obtain ⟨rfl, rfl⟩ := layout <;> decide

theorem vertexLayout_spec {type : OSPDataType} {items comps : Nat} (layout : vertexLayout type = some (items, comps)) :
    (comps = 3 ∨ comps = 4) ∧ 4 * comps = items * type.bytes := by
  cases type <;> simp only [vertexLayout, Option.some.injEq, Prod.mk.injEq, reduceCtorEq] at layout <;>
    obtain ⟨rfl, rfl⟩ := layout <;> decide

theorem normalLayout_spec {type : OSPDataType} {comps : Nat} (layout : normalLayout type = some comps) :
    comps = 3 ∨ comps = 4 := by
  cases type <;> simp only [normalLayout, Option.some.injEq, reduceCtorEq] at layout <;> subst layout <;> decide

theorem elements_le {array : Data} {items comps : Nat} (bytes : 4 * comps = items * array.type.bytes) :
    4 * comps * (array.numItems / items) ≤ array.numBytes := by
  rw [bytes, Data.numBytes, Nat.mul_right_comm]
  exact Nat.mul_le_mul_right _ (Nat.mul_div_le _ _)

theorem huge_iff (array : Data) : array.huge = true ↔ INT32_MAX < array.numBytes := decide_eq_true_iff

theorem hugeIfPresent_iff (array : Option Data) :
    hugeIfPresent array = true ↔ ∃ data ∈ array.toList, INT32_MAX < data.numBytes := by
  cases array with
  | none => simp [hugeIfPresent]
  | some data => simp [hugeIfPresent, huge_iff]

theorem bind_eq_ok {ε α β : Type} {x : Except ε α} {f : α → Except ε β} {b : β} (ok : x >>= f = .ok b) :
    ∃ a, x = .ok a ∧ f a = .ok b := by
  cases x with
  | error => cases ok
  | ok a => exact ⟨a, rfl, ok⟩

theorem orThrow_eq_ok {α : Type} {message : String} {x : Option α} {a : α} (ok : orThrow message x = .ok a) :
    x = some a := by
  cases x with
  | none => cases ok
  | some => exact congrArg some (Except.ok.inj ok)

theorem normalSize_spec {kind : MeshKind} {normalData : Option Data} {size : Nat}
    (ok : kind.normalSize normalData = .ok size) (present : normalData.isSome) : size = 3 ∨ size = 4 := by
  cases normalData with
  | none => cases present
  | some => exact normalLayout_spec (orThrow_eq_ok ok)

theorem accepts_of_finalize {kind : MeshKind} {params : MeshParams} {mesh : Mesh}
    (accepted : kind.finalize params = .ok mesh) : ∃ vertices indices, Accepts params mesh vertices indices := by
  obtain ⟨vertices, present, accepted⟩ := bind_eq_ok accepted
  obtain ⟨indices, present', accepted⟩ := bind_eq_ok accepted
  obtain ⟨-, -, accepted⟩ := bind_eq_ok accepted
  obtain ⟨⟨itemsInPrim, idxSize⟩, indexLayout, accepted⟩ := bind_eq_ok accepted
  obtain ⟨⟨itemsInVtx, vtxSize⟩, layout, accepted⟩ := bind_eq_ok accepted
  obtain ⟨norSize, normalSize, accepted⟩ := bind_eq_ok accepted
  obtain ⟨idxCases, idxBytes⟩ := indexLayout_spec (orThrow_eq_ok indexLayout)
  obtain ⟨vtxCases, vtxBytes⟩ := vertexLayout_spec (orThrow_eq_ok layout)
  have hasVertices := orThrow_eq_ok present
  have hasIndices := orThrow_eq_ok present'
  obtain rfl := Except.ok.inj accepted
  refine ⟨vertices, indices, hasVertices, hasIndices, rfl, rfl, idxCases, vtxCases, fun normal => ?_,
    elements_le idxBytes, elements_le vtxBytes, rfl, rfl, rfl, ?_⟩
  · exact normalSize_spec normalSize (by simpa using normal)
  · simp only [Bool.or_eq_true, huge_iff, hugeIfPresent_iff, MeshParams.Large, MeshParams.arrays, hasVertices, hasIndices,
      List.mem_append, Option.toList_some, List.mem_singleton, or_and_right, exists_or, exists_eq_left]

end Ospray.Geometry
