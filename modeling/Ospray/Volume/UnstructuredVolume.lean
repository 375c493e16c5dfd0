import Ospray.Volume.MinMaxBVH2

/-!
# The cells of an unstructured volume

A cell has eight indices, of which a tetrahedron uses the last four for its vertices and a
wedge the last six; the first index tells which of them it is. The box of a cell is made
of four, six or eight of its vertices and their values. For a wedge one vertex is taken
twice and another one left out.
-/

namespace Ospray.Unstructured

open Library.BoxTrees Library.Hulls

/-- `UnstructuredVolume`. Each pair of entries of `indices` is a cell. The values are those of the vertices
where there is no `cellField`. -/
structure UnstructuredVolume where
  nCells : Nat
  vertices : Int → Fin 3 → ℚ
  field : Int → ℚ
  cellField : Option (Nat → ℚ)
  indices : Nat → Nat → Int

namespace UnstructuredVolume

variable (volume : UnstructuredVolume)

/-- `maxIdx` -/
def maxIdx (id : Nat) : Nat :=
  if volume.indices (2 * id) 0 = -1 then 4 else if volume.indices (2 * id) 0 = -2 then 6 else 8

/-- The vertex `idx` that `getTetBBox` reads for `i`. -/
def boxIndex (id i : Nat) : Int :=
  match volume.maxIdx id with
  | 4 => volume.indices (2 * id + 1) i
  | 6 => if i < 2 then volume.indices (2 * id) (1 + 2) else volume.indices (2 * id + 1) (i - 2)
  | _ => if i < 4 then volume.indices (2 * id) i else volume.indices (2 * id + 1) (i - 4)

/-- The position and the value of a vertex of a cell. -/
def vertexPoint (id : Nat) (idx : Int) : Fin 4 → ℚ :=
  let v := volume.vertices idx
  let f := match volume.cellField with
    | some cellField => cellField id
    | none => volume.field idx
  ![v 0, v 1, v 2, f]

/-- A box that has one point. -/
def pointBox {axes : Nat} (p : Fin axes → ℚ) : Box (Fin axes) ℚ := ⟨p, p⟩

/-- `getTetBBox` -/
def getTetBBox (id : Nat) : Box4 :=
  let p := fun i => pointBox (volume.vertexPoint id (volume.boxIndex id i))
  (List.range' 1 (volume.maxIdx id - 1)).foldl (fun tetBox i => join tetBox (p i)) (p 0)

/-- `buildBvhAndCalculateBounds`: the hierarchy and the new `bbox` -/
def buildBvhAndCalculateBounds (bbox : Box (Fin 3) ℚ) : MinMaxBVH2 × Box (Fin 3) ℚ :=
  let primBounds := volume.getTetBBox
  let extendBy := fun (bbox : Box (Fin 3) ℚ) i =>
    let bounds : Box (Fin 3) ℚ := ⟨xyz (primBounds i).lower, xyz (primBounds i).upper⟩
    if i = 0 then bounds else join (join bbox (pointBox bounds.lower)) (pointBox bounds.upper)
  (build primBounds (fun i => i) volume.nCells, (List.range volume.nCells).foldl extendBy bbox)

/-- The eight indices of a cell. -/
def cellIndex (id i : Nat) : Int :=
  if i < 4 then volume.indices (2 * id) i else volume.indices (2 * id + 1) (i - 4)

/-- The vertices of a cell, as the kernels read them: from `indices[2 * id + 1]`, from the third index
of `indices[2 * id]`, or from its first one on. -/
def cellVertices (id : Nat) : List Int :=
  if volume.indices (2 * id) 0 = -1 then (List.range' 4 4).map (volume.cellIndex id)
  else if volume.indices (2 * id) 0 = -2 then (List.range' 2 6).map (volume.cellIndex id)
  else (List.range 8).map (volume.cellIndex id)

/-- A wedge's first vertex lies between the others along each axis, in its position and its value. -/
def FirstBetween (id : Nat) : Prop :=
  ∀ axis, ∃ low ∈ (List.range' 3 5).map (volume.cellIndex id), ∃ high ∈ (List.range' 3 5).map (volume.cellIndex id),
    volume.vertexPoint id low axis ≤ volume.vertexPoint id (volume.cellIndex id 2) axis ∧
      volume.vertexPoint id (volume.cellIndex id 2) axis ≤ volume.vertexPoint id high axis

variable {volume} {id : Nat}

theorem maxIdx_cases (volume : UnstructuredVolume) (id : Nat) :
    volume.maxIdx id = 4 ∨ volume.maxIdx id = 6 ∨ volume.maxIdx id = 8 := by
  rw [maxIdx]
  split_ifs
  · exact .inl rfl
  · exact .inr (.inl rfl)
  · exact .inr (.inr rfl)

/-- The vertices that the box of a cell is made of. -/
def boxVertices (volume : UnstructuredVolume) (id : Nat) : List Int :=
  (List.range (volume.maxIdx id)).map (volume.boxIndex id)

theorem isHull_getTetBBox (volume : UnstructuredVolume) (id : Nat) :
    IsHull ((volume.boxVertices id).map fun idx => pointBox (volume.vertexPoint id idx))
      (volume.getTetBBox id) := by
  have some_ : volume.maxIdx id = volume.maxIdx id - 1 + 1 := by
    have cases_ := maxIdx_cases volume id
    omega
  have list : volume.boxVertices id =
      volume.boxIndex id 0 :: (List.range' 1 (volume.maxIdx id - 1)).map (volume.boxIndex id) := by
    rw [boxVertices, some_, List.range_eq_range', List.range'_succ, List.map_cons, Nat.add_sub_cancel]
  have hull := isHull_foldl_join (pointBox (volume.vertexPoint id (volume.boxIndex id 0)))
    ((List.range' 1 (volume.maxIdx id - 1)).map fun i => pointBox (volume.vertexPoint id (volume.boxIndex id i)))
  rw [List.foldl_map] at hull
  rw [list, List.map_cons, List.map_map]
  exact hull

theorem covers_getTetBBox_iff {point : Fin 4 → ℚ} : Covers (volume.getTetBBox id) point ↔
    ∀ axis, (∃ low ∈ volume.boxVertices id, volume.vertexPoint id low axis ≤ point axis) ∧
      ∃ high ∈ volume.boxVertices id, point axis ≤ volume.vertexPoint id high axis := by
  rw [(isHull_getTetBBox volume id).covers_iff]
  simp only [List.mem_map, exists_exists_and_eq_and]
  rfl

theorem covers_of_mem {idx : Int} (member : idx ∈ volume.boxVertices id) :
    Covers (volume.getTetBBox id) (volume.vertexPoint id idx) :=
  covers_getTetBBox_iff.mpr fun _ => ⟨⟨idx, member, le_rfl⟩, idx, member, le_rfl⟩

/-- The vertices of a tetrahedron and of a hexahedron are all taken. -/
theorem boxVertices_eq (notWedge : volume.indices (2 * id) 0 ≠ -2) :
    volume.boxVertices id = volume.cellVertices id := by
  by_cases tet : volume.indices (2 * id) 0 = -1
  · have idx : volume.maxIdx id = 4 := if_pos tet
    have index : volume.boxIndex id = fun i => volume.indices (2 * id + 1) i := by
      funext i
      rw [boxIndex, idx]
      rfl
    rw [boxVertices, cellVertices, if_pos tet, idx, index]
    rfl
  · have idx : volume.maxIdx id = 8 := (if_neg tet).trans (if_neg notWedge)
    have index : volume.boxIndex id = volume.cellIndex id := by
      funext i
      rw [boxIndex, idx]
      rfl
    rw [boxVertices, cellVertices, if_neg tet, if_neg notWedge, idx, index]

theorem boxVertices_wedge (wedge : volume.indices (2 * id) 0 = -2) :
    volume.boxVertices id = volume.cellIndex id 3 :: (List.range' 3 5).map (volume.cellIndex id) ∧
      volume.cellVertices id = volume.cellIndex id 2 :: (List.range' 3 5).map (volume.cellIndex id) := by
  have notTet : volume.indices (2 * id) 0 ≠ -1 := by
    rw [wedge]
    decide
  have idx : volume.maxIdx id = 6 := (if_neg notTet).trans (if_pos wedge)
  have index : volume.boxIndex id = fun i =>
      if i < 2 then volume.indices (2 * id) (1 + 2) else volume.indices (2 * id + 1) (i - 2) := by
    funext i
    rw [boxIndex, idx]
    rfl
  rw [boxVertices, cellVertices, if_neg notTet, if_pos wedge, idx, index]
  exact ⟨rfl, rfl⟩

/-- The box of a cell covers its vertices unless the cell is a wedge whose first vertex reaches out of
the others. -/
theorem covers_iff (volume : UnstructuredVolume) (id : Nat) :
    (∀ idx ∈ volume.cellVertices id, Covers (volume.getTetBBox id) (volume.vertexPoint id idx)) ↔
      (volume.indices (2 * id) 0 = -2 → volume.FirstBetween id) := by
  by_cases wedge : volume.indices (2 * id) 0 = -2
  · obtain ⟨taken, all⟩ := boxVertices_wedge wedge
    have same : ∀ idx, idx ∈ volume.boxVertices id ↔ idx ∈ (List.range' 3 5).map (volume.cellIndex id) := by
      intro idx
      rw [taken, List.mem_cons, or_iff_right_of_imp]
      rintro rfl
      exact List.mem_map.mpr ⟨3, by decide, rfl⟩
    have first : Covers (volume.getTetBBox id) (volume.vertexPoint id (volume.cellIndex id 2)) ↔
        volume.FirstBetween id := by
      rw [covers_getTetBBox_iff]
      simp only [same]
      refine forall_congr' fun axis => ⟨?_, ?_⟩
      · rintro ⟨⟨low, lowMember, lower⟩, high, highMember, upper⟩
        exact ⟨low, lowMember, high, highMember, lower, upper⟩
      · rintro ⟨low, lowMember, high, highMember, lower, upper⟩
        exact ⟨⟨low, lowMember, lower⟩, high, highMember, upper⟩
    rw [all, List.forall_mem_cons, first]
    constructor
    · exact fun both _ => both.1
    · exact fun between => ⟨between wedge, fun idx member => covers_of_mem ((same idx).mpr member)⟩
  · refine iff_of_true (fun idx member => covers_of_mem ?_) fun isWedge => absurd isWedge wedge
    rwa [boxVertices_eq wedge]

/-- **The boxes of the cells.** A hierarchy is built of the boxes of the cells. These contain the positions and
the values of all vertices of their cells if and only if the first vertex of every wedge lies between
its others, along each axis and in its value. -/
theorem cells_covered_iff (volume : UnstructuredVolume) (bbox : Box (Fin 3) ℚ) :
    (volume.buildBvhAndCalculateBounds bbox).1 = build volume.getTetBBox (fun i => i) volume.nCells ∧
      ((∀ id < volume.nCells, ∀ idx ∈ volume.cellVertices id,
          Covers (volume.getTetBBox id) (volume.vertexPoint id idx)) ↔
        ∀ id < volume.nCells, volume.indices (2 * id) 0 = -2 → volume.FirstBetween id) :=
  ⟨rfl, forall₂_congr fun id _ => covers_iff volume id⟩

/-- A wedge whose first vertex is the only one on its side. -/
def oneWedge : UnstructuredVolume where
  nCells := 1
  vertices idx := if idx = 0 then ![-1, 0, 0] else ![idx, idx, idx]
  field idx := idx
  cellField := none
  indices cell i := if cell = 0 then ([-2, -2, 0, 1].getD i 0) else 2 + i

/-- Its box does not contain that vertex. -/
theorem oneWedge_not_covered :
    ¬ ∀ id < oneWedge.nCells, ∀ idx ∈ oneWedge.cellVertices id,
      Covers (oneWedge.getTetBBox id) (oneWedge.vertexPoint id idx) := by
  intro covered
  have low := (covered 0 (by decide) 0 (by decide) 0).1
  exact absurd low (by decide +kernel)

end UnstructuredVolume

end Ospray.Unstructured
