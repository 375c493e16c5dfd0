import Ospray.Volume.IntersectIsoRay

/-!
# The normals of the faces of cells

A normal is the cross product of two edges of a face, brought to length one. The kernels
compute it when they need it, or read it from a table that was filled for all cells before.
The length enters as a function of the square of a vector's length, for the root has no
exact value.
-/

namespace Ospray.Unstructured

/-- `normalize` -/
def normalize (rsqrt : ℚ → ℚ) (v : Fin 3 → ℚ) : Fin 3 → ℚ := fun axis => v axis * rsqrt (dot v v)

/-- `planes` of a tetrahedron -/
def tetPlanes : Fin 4 → Fin 4 × Fin 4 × Fin 4 := ![(1, 2, 3), (2, 0, 3), (3, 0, 1), (0, 2, 1)]

/-- `planes` of a hexahedron -/
def hexPlanes : Fin 6 → Fin 8 × Fin 8 × Fin 8 :=
  ![(0, 2, 1), (0, 5, 4), (0, 7, 3), (6, 5, 1), (6, 7, 4), (6, 2, 3)]

/-- The faces of a wedge in `calculateFaceNormals`. -/
def wedgePlanes : Fin 5 → Fin 6 × Fin 6 × Fin 6 := ![(0, 2, 1), (3, 4, 5), (0, 3, 2), (1, 4, 0), (2, 5, 1)]

/-- The cross product of the edges of a face. -/
def faceCross {vertices : Nat} (corner : Fin vertices → Fin 3 → ℚ) (plane : Fin vertices × Fin vertices × Fin vertices) :
    Fin 3 → ℚ :=
  cross (corner plane.2.1 - corner plane.1) (corner plane.2.2 - corner plane.1)

namespace UnstructuredVolume

variable (volume : UnstructuredVolume) (rsqrt : ℚ → ℚ) (id : Nat)

/-- The vertices of a tetrahedron. -/
def tetCorner (i : Fin 4) : Fin 3 → ℚ := volume.vertices (volume.indices (2 * id + 1) i)

/-- The vertices of a wedge. -/
def wedgeCorner (i : Fin 6) : Fin 3 → ℚ := volume.vertices (volume.cellIndex id (i + 2))

/-- The vertices of a hexahedron. -/
def hexCorner (i : Fin 8) : Fin 3 → ℚ := volume.vertices (volume.cellIndex id i)

/-- `calculateFaceNormals`: each cell has six entries. Those that it has no face for are left at zero. -/
def calculateFaceNormals (entry : Nat) : Fin 3 → ℚ :=
  let taskIndex := entry / 6
  let j := entry % 6
  if volume.indices (2 * taskIndex) 0 = -1 then
    if face : j < 4 then normalize rsqrt (faceCross (volume.tetCorner taskIndex) (tetPlanes ⟨j, face⟩)) else 0
  else if volume.indices (2 * taskIndex) 0 = -2 then
    if face : j < 5 then normalize rsqrt (faceCross (volume.wedgeCorner taskIndex) (wedgePlanes ⟨j, face⟩)) else 0
  else normalize rsqrt (faceCross (volume.hexCorner taskIndex) (hexPlanes ⟨j, Nat.mod_lt _ (by decide)⟩))

variable (faceNormals : Option (Nat → Fin 3 → ℚ))

/-- `tetNormal` -/
def tetNormal (planeID : Fin 4) : Fin 3 → ℚ :=
  match faceNormals with
  | some faceNormals => faceNormals (id * 6 + planeID)
  | none => normalize rsqrt (faceCross (volume.tetCorner id) (tetPlanes planeID))

/-- `hexNormal` -/
def hexNormal (planeID : Fin 6) : Fin 3 → ℚ :=
  match faceNormals with
  | some faceNormals => faceNormals (id * 6 + planeID)
  | none => normalize rsqrt (faceCross (volume.hexCorner id) (hexPlanes planeID))

variable {volume rsqrt id}

theorem entry_split {j : Nat} (bound : j < 6) : (id * 6 + j) / 6 = id ∧ (id * 6 + j) % 6 = j := by
  omega

theorem hexNormal_precomputed (notTetrahedron : volume.indices (2 * id) 0 ≠ -1)
    (notWedge : volume.indices (2 * id) 0 ≠ -2) (planeID : Fin 6) :
    volume.hexNormal rsqrt id (some (volume.calculateFaceNormals rsqrt)) planeID =
      volume.hexNormal rsqrt id none planeID := by
  obtain ⟨cell, face⟩ := @entry_split id planeID planeID.isLt
  simp only [hexNormal, calculateFaceNormals, cell, face, notTetrahedron, notWedge, if_false, Fin.eta]

end UnstructuredVolume

end Ospray.Unstructured
