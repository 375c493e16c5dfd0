import Mathlib.Algebra.Order.Ring.Rat
import Ospray.Library.Tetrahedra
import Ospray.Volume.FaceNormals

/-!
# Sampling in tetrahedra

The winding of each tetrahedron is repaired when the volume is made: the normals of its
faces then point away from the opposite vertices. The kernel measures the distances of a
point to the four faces along them, and weighs the values of the vertices with the ratios
of these to the distances of the opposite vertices.
-/

namespace Ospray.Unstructured

open Library.Tetrahedra

namespace UnstructuredVolume

variable (volume : UnstructuredVolume)

/-- `dist` in `fixupTetWinding` -/
def windingDist (id : Nat) : ℚ :=
  let p := volume.tetCorner id
  let center := fun axis => (p 0 axis + p 1 axis + p 2 axis + p 3 axis) / 4
  let norm := cross (p 1 - p 0) (p 2 - p 0)
  dot norm (p 0 - center)

/-- `std::swap(idx.x, idx.y)` -/
def swapXY (idx : Nat → Int) (i : Nat) : Int := if i = 0 then idx 1 else if i = 1 then idx 0 else idx i

/-- `fixupTetWinding`. Each task writes the second entry of its own cell. -/
def fixupTetWinding : UnstructuredVolume :=
  { volume with
    indices := fun entry =>
      let i := entry / 2
      if entry % 2 = 1 ∧ i < volume.nCells ∧ volume.indices (2 * i) 0 = -1 ∧ 0 < volume.windingDist i then
        swapXY (volume.indices entry)
      else volume.indices entry }

/-- `intersectAndSampleTet`: the result, unless it returns false -/
def intersectAndSampleTet (tetNormal : Nat → Fin 4 → Fin 3 → ℚ) (id : Nat) (assumeInside : Bool)
    (samplePos : Fin 3 → ℚ) : Option ℚ :=
  let p := volume.tetCorner id
  let norm := tetNormal id
  let d : Fin 4 → ℚ := ![dot (norm 0) (p 1 - samplePos), dot (norm 1) (p 2 - samplePos),
    dot (norm 2) (p 3 - samplePos), dot (norm 3) (p 0 - samplePos)]
  if ¬assumeInside ∧ ¬(d 0 > 0 ∧ d 1 > 0 ∧ d 2 > 0 ∧ d 3 > 0) then none
  else
    match volume.cellField with
    | some cellField => some (cellField id)
    | none =>
      let h : Fin 4 → ℚ := ![dot (norm 0) (p 1 - p 0), dot (norm 1) (p 2 - p 1), dot (norm 2) (p 3 - p 2),
        dot (norm 3) (p 0 - p 3)]
      let z := fun i => d i / h i
      let v := fun i : Fin 4 => volume.field (volume.indices (2 * id + 1) i)
      some (z 0 * v 0 + z 1 * v 1 + z 2 * v 2 + z 3 * v 3)

/-- A cell is a tetrahedron that is not flat. -/
structure Tetrahedron (id : Nat) : Prop where
  bound : id < volume.nCells
  kind : volume.indices (2 * id) 0 = -1
  solid : signedVolume (volume.tetCorner id) ≠ 0

/-- The normals of the tetrahedra are known up to their lengths. -/
def TetNormals (tetNormal : Nat → Fin 4 → Fin 3 → ℚ) : Prop :=
  ∀ id, volume.Tetrahedron id → ∀ planeID, ∃ k : ℚ, 0 < k ∧
    tetNormal id planeID = k • faceCross (volume.tetCorner id) (tetPlanes planeID)

variable {volume} {id : Nat} {tetNormal : Nat → Fin 4 → Fin 3 → ℚ}

/-! ## The winding -/

theorem windingDist_eq (volume : UnstructuredVolume) (id : Nat) :
    volume.windingDist id = -signedVolume (volume.tetCorner id) / 4 := by
  simp only [windingDist, dot, cross, signedVolume_eq, Pi.sub_apply, Matrix.cons_val]
  ring

/-- The repair leaves all but the vertices of tetrahedra, -/
theorem fixupTetWinding_lower (volume : UnstructuredVolume) (id i : Nat) :
    volume.fixupTetWinding.indices (2 * id) i = volume.indices (2 * id) i := by
  have even : ¬2 * id % 2 = 1 := by omega
  simp only [fixupTetWinding, even, false_and, if_false]

/-- and changes the places of two of these where the volume is negative. -/
theorem fixupTetWinding_upper (volume : UnstructuredVolume) (id : Nat) :
    volume.fixupTetWinding.indices (2 * id + 1) =
      if id < volume.nCells ∧ volume.indices (2 * id) 0 = -1 ∧ signedVolume (volume.tetCorner id) < 0 then
        swapXY (volume.indices (2 * id + 1))
      else volume.indices (2 * id + 1) := by
  have odd : (2 * id + 1) % 2 = 1 := by omega
  have cell : (2 * id + 1) / 2 = id := by omega
  have sign : 0 < volume.windingDist id ↔ signedVolume (volume.tetCorner id) < 0 := by
    rw [windingDist_eq]
    constructor <;> intro sign <;> linarith
  simp only [fixupTetWinding, odd, cell, sign, true_and]

theorem tetCorner_fixupTetWinding (bound : id < volume.nCells) (tetrahedron : volume.indices (2 * id) 0 = -1) :
    volume.fixupTetWinding.tetCorner id =
      if signedVolume (volume.tetCorner id) < 0 then volume.tetCorner id ∘ Equiv.swap 0 1
      else volume.tetCorner id := by
  funext i
  rw [tetCorner, fixupTetWinding_upper]
  simp only [bound, tetrahedron, true_and]
  split_ifs
  · fin_cases i <;> rfl
  · rfl

theorem signedVolume_fixupTetWinding (bound : id < volume.nCells) (tetrahedron : volume.indices (2 * id) 0 = -1) :
    signedVolume (volume.fixupTetWinding.tetCorner id) = |signedVolume (volume.tetCorner id)| := by
  rw [tetCorner_fixupTetWinding bound tetrahedron]
  split_ifs with negative
  · rw [signedVolume_swap, abs_of_neg negative]
  · rw [abs_of_nonneg (not_lt.mp negative)]

theorem fixupTetWinding_idem (volume : UnstructuredVolume) :
    volume.fixupTetWinding.fixupTetWinding = volume.fixupTetWinding := by
  have indices : volume.fixupTetWinding.fixupTetWinding.indices = volume.fixupTetWinding.indices := by
    funext entry
    obtain ⟨id, even | odd⟩ := entry.even_or_odd'
    · rw [even]
      funext i
      rw [fixupTetWinding_lower]
    · rw [odd, fixupTetWinding_upper volume.fixupTetWinding, if_neg]
      rintro ⟨bound, tetrahedron, negative⟩
      rw [fixupTetWinding_lower] at tetrahedron
      rw [@signedVolume_fixupTetWinding volume id bound tetrahedron] at negative
      exact absurd (abs_nonneg _) (not_le.mpr negative)
  exact congrArg (fun indices => { volume with indices := indices }) indices

theorem innerSide_fixupTetWinding (bound : id < volume.nCells) (tetrahedron : volume.indices (2 * id) 0 = -1)
    {point : Fin 3 → ℚ} : (∀ vertex, InnerSide (volume.fixupTetWinding.tetCorner id) vertex point) ↔
      ∀ vertex, InnerSide (volume.tetCorner id) vertex point := by
  rw [tetCorner_fixupTetWinding bound tetrahedron]
  split_ifs
  · simp only [innerSide_swap]
    have onto := (Equiv.swap (0 : Fin 4) 1).surjective
    exact (@Function.Surjective.forall _ _ _ onto fun vertex => InnerSide (volume.tetCorner id) vertex point).symm
  · rfl

/-! ## The samples -/

/-- The distance of a point from a face is measured by the volume with the point in the place of the opposite
vertex, and so is the distance of that vertex. -/
theorem dot_faceCross (volume : UnstructuredVolume) (id : Nat) (point : Fin 3 → ℚ) (vertex : Fin 4) :
    dot (faceCross (volume.tetCorner id) (tetPlanes vertex)) (volume.tetCorner id (tetPlanes vertex).1 - point) =
      volumeWith (volume.tetCorner id) vertex point := by
  fin_cases vertex <;>
    simp [dot, faceCross, tetPlanes, cross, volumeWith, signedVolume_eq] <;> ring

theorem dot_self_pos {v : Fin 3 → ℚ} (some_ : v ≠ 0) : 0 < dot v v := by
  obtain ⟨axis, nonzero⟩ := Function.ne_iff.mp some_
  have square : 0 < v axis * v axis := mul_self_pos.mpr nonzero
  unfold dot
  have x := mul_self_nonneg (v 0)
  have y := mul_self_nonneg (v 1)
  have z := mul_self_nonneg (v 2)
  fin_cases axis <;> dsimp only [Fin.reduceFinMk, Fin.zero_eta, Fin.mk_one] at square <;> linarith

theorem tetNormals_tetNormal {rsqrt : ℚ → ℚ} (positive : ∀ x, 0 < x → 0 < rsqrt x) :
    volume.TetNormals fun id => volume.tetNormal rsqrt id none := by
  intro id tetrahedron planeID
  have distance := dot_faceCross volume id (volume.tetCorner id planeID) planeID
  rw [volumeWith_self] at distance
  generalize normal : faceCross (volume.tetCorner id) (tetPlanes planeID) = n at distance ⊢
  have long : 0 < dot n n := by
    apply dot_self_pos
    rintro rfl
    exact tetrahedron.solid (distance ▸ by simp [dot])
  refine ⟨rsqrt (dot n n), positive _ long, ?_⟩
  funext axis
  simp only [tetNormal, normalize, normal, Pi.smul_apply, smul_eq_mul, mul_comm]

theorem dot_tetNormal (normals : volume.TetNormals tetNormal) (tetrahedron : volume.Tetrahedron id)
    (vertex : Fin 4) : ∃ k : ℚ, 0 < k ∧ ∀ point,
      dot (tetNormal id vertex) (volume.tetCorner id (tetPlanes vertex).1 - point) =
        k * volumeWith (volume.tetCorner id) vertex point := by
  obtain ⟨k, positive, scaled⟩ := normals id tetrahedron vertex
  refine ⟨k, positive, fun point => ?_⟩
  rw [← dot_faceCross, scaled]
  simp only [dot, Pi.smul_apply, smul_eq_mul]
  ring

/-- What the kernel computes where the volume is positive. -/
theorem intersectAndSampleTet_eq (normals : volume.TetNormals tetNormal) (tetrahedron : volume.Tetrahedron id)
    (positive : 0 < signedVolume (volume.tetCorner id)) (assumeInside : Bool) (samplePos : Fin 3 → ℚ) :
    volume.intersectAndSampleTet tetNormal id assumeInside samplePos =
      if ¬assumeInside ∧ ¬∀ vertex, InnerSide (volume.tetCorner id) vertex samplePos then none
      else
        match volume.cellField with
        | some cellField => some (cellField id)
        | none => some (∑ vertex : Fin 4,
            weight (volume.tetCorner id) vertex samplePos * volume.field (volume.indices (2 * id + 1) vertex)) := by
  choose k scale distance using dot_tetNormal normals tetrahedron
  have accepted : ∀ vertex, k vertex * volumeWith (volume.tetCorner id) vertex samplePos > 0 ↔
      InnerSide (volume.tetCorner id) vertex samplePos := by
    intro vertex
    rw [InnerSide, volumeWith_self, gt_iff_lt, mul_pos_iff_of_pos_left (scale vertex),
      mul_pos_iff_of_pos_right positive]
  have ratio : ∀ vertex, k vertex * volumeWith (volume.tetCorner id) vertex samplePos /
      (k vertex * signedVolume (volume.tetCorner id)) = weight (volume.tetCorner id) vertex samplePos := by
    intro vertex
    rw [mul_div_mul_left _ _ (scale vertex).ne', weight]
  have d : ![dot (tetNormal id 0) (volume.tetCorner id 1 - samplePos),
      dot (tetNormal id 1) (volume.tetCorner id 2 - samplePos), dot (tetNormal id 2) (volume.tetCorner id 3 - samplePos),
      dot (tetNormal id 3) (volume.tetCorner id 0 - samplePos)] =
        fun vertex => k vertex * volumeWith (volume.tetCorner id) vertex samplePos := by
    funext vertex
    rw [← distance]
    fin_cases vertex <;> rfl
  have h : ![dot (tetNormal id 0) (volume.tetCorner id 1 - volume.tetCorner id 0),
      dot (tetNormal id 1) (volume.tetCorner id 2 - volume.tetCorner id 1),
      dot (tetNormal id 2) (volume.tetCorner id 3 - volume.tetCorner id 2),
      dot (tetNormal id 3) (volume.tetCorner id 0 - volume.tetCorner id 3)] =
        fun vertex => k vertex * signedVolume (volume.tetCorner id) := by
    funext vertex
    rw [← volumeWith_self vertex, ← distance]
    fin_cases vertex <;> rfl
  rw [intersectAndSampleTet]
  simp only [d, h, accepted, ratio, Fin.sum_univ_four, Fin.forall_fin_succ, IsEmpty.forall_iff, and_true]
  rfl

theorem Tetrahedron.fixupTetWinding (tetrahedron : volume.Tetrahedron id) :
    volume.fixupTetWinding.Tetrahedron id ∧ 0 < signedVolume (volume.fixupTetWinding.tetCorner id) := by
  have kind : volume.fixupTetWinding.indices (2 * id) 0 = -1 := by
    rw [fixupTetWinding_lower, tetrahedron.kind]
  have positive : 0 < signedVolume (volume.fixupTetWinding.tetCorner id) := by
    rw [signedVolume_fixupTetWinding tetrahedron.bound tetrahedron.kind]
    exact abs_pos.mpr tetrahedron.solid
  exact ⟨⟨tetrahedron.bound, kind, positive.ne'⟩, positive⟩

theorem field_fixupTetWinding {f : (Fin 3 → ℚ) → ℚ}
    (values : ∀ i : Fin 4, volume.field (volume.indices (2 * id + 1) i) = f (volume.tetCorner id i)) (i : Fin 4) :
    volume.fixupTetWinding.field (volume.fixupTetWinding.indices (2 * id + 1) i) =
      f (volume.fixupTetWinding.tetCorner id i) := by
  change volume.field _ = f (volume.vertices _)
  rw [fixupTetWinding_upper]
  split_ifs
  · fin_cases i
    · exact values 1
    · exact values 0
    · exact values 2
    · exact values 3
  · exact values i

/-- The affine functions are interpolated exactly in each tetrahedron, and the points inside it are those that are
accepted. -/
theorem tet_exact (normals : volume.fixupTetWinding.TetNormals tetNormal) :
    volume.fixupTetWinding.fixupTetWinding = volume.fixupTetWinding ∧
      ∀ id, volume.Tetrahedron id →
        (∀ samplePos, ((volume.fixupTetWinding.intersectAndSampleTet tetNormal id false samplePos).isSome ↔
            ∀ vertex, InnerSide (volume.tetCorner id) vertex samplePos) ∧
          ((∀ vertex, InnerSide (volume.tetCorner id) vertex samplePos) ↔
            ∃ weights : Fin 4 → ℚ, (∀ vertex, 0 < weights vertex) ∧ ∑ vertex, weights vertex = 1 ∧
              ∑ vertex, weights vertex • volume.tetCorner id vertex = samplePos)) ∧
        ∀ f : (Fin 3 → ℚ) →ᵃ[ℚ] ℚ, volume.cellField = none →
          (∀ i : Fin 4, volume.field (volume.indices (2 * id + 1) i) = f (volume.tetCorner id i)) →
          ∀ assumeInside samplePos value,
            volume.fixupTetWinding.intersectAndSampleTet tetNormal id assumeInside samplePos = some value →
              value = f samplePos := by
  refine ⟨fixupTetWinding_idem volume, fun id tetrahedron => ?_⟩
  obtain ⟨repaired, positive⟩ := tetrahedron.fixupTetWinding
  have sampled := intersectAndSampleTet_eq normals repaired positive
  refine ⟨fun samplePos => ⟨?_, forall_innerSide_iff tetrahedron.solid⟩, ?_⟩
  · rw [sampled, ← innerSide_fixupTetWinding tetrahedron.bound tetrahedron.kind]
    by_cases inside : ∀ vertex, InnerSide (volume.fixupTetWinding.tetCorner id) vertex samplePos
    · simp only [inside, implies_true, not_true, and_false, if_false, iff_true]
      split <;> rfl
    · simp [inside]
  · intro f noCells values assumeInside samplePos value result
    have cells : volume.fixupTetWinding.cellField = none := noCells
    rw [sampled] at result
    split_ifs at result
    simp only [cells, field_fixupTetWinding values, Option.some.injEq] at result
    rw [← result, affine_eq positive.ne']

end UnstructuredVolume

/-- A tetrahedron with a negative volume and faces that have rational normals. Its values are the first
coordinates. -/
def turnedTetrahedron : UnstructuredVolume where
  nCells := 1
  vertices := fun idx => if idx = 0 then ![1, 1, 1] else if idx = 1 then ![1, 2, 1] else if idx = 2 then ![3, 1, 1]
    else ![1, 1, 4]
  field := fun idx => if idx = 2 then 3 else 1
  cellField := none
  indices := fun entry i => if entry = 0 then -1 else i

/-- The inverse of the root, at the squares of the normals of this tetrahedron. -/
def turnedRsqrt (x : ℚ) : ℚ := if x = 4 then 1 / 2 else if x = 9 then 1 / 3 else if x = 36 then 1 / 6 else 1 / 7

theorem turnedRsqrt_pos (x : ℚ) : 0 < turnedRsqrt x := by
  unfold turnedRsqrt
  split_ifs <;> norm_num

theorem tet_exact_turned : turnedTetrahedron.fixupTetWinding ≠ turnedTetrahedron ∧
    (turnedTetrahedron.fixupTetWinding.intersectAndSampleTet
      (fun id => turnedTetrahedron.fixupTetWinding.tetNormal turnedRsqrt id none) 0 false
      ![3 / 2, 5 / 4, 3 / 2]).isSome ∧
    ∀ assumeInside samplePos value, turnedTetrahedron.fixupTetWinding.intersectAndSampleTet
      (fun id => turnedTetrahedron.fixupTetWinding.tetNormal turnedRsqrt id none) 0 assumeInside samplePos =
        some value → value = samplePos 0 := by
  have tetrahedron : turnedTetrahedron.Tetrahedron 0 := ⟨by decide, by decide, by decide +kernel⟩
  have normals : turnedTetrahedron.fixupTetWinding.TetNormals _ :=
    UnstructuredVolume.tetNormals_tetNormal fun x _ => turnedRsqrt_pos x
  obtain ⟨accepted, values⟩ := (UnstructuredVolume.tet_exact normals).2 0 tetrahedron
  refine ⟨fun same => ?_, (accepted _).1.mpr (by decide +kernel), ?_⟩
  · have moved := congrArg (fun volume => volume.indices 1 0) same
    exact absurd moved (by decide +kernel)
  · exact values (LinearMap.proj 0 : (Fin 3 → ℚ) →ₗ[ℚ] ℚ).toAffineMap rfl (by decide +kernel)

end Ospray.Unstructured
