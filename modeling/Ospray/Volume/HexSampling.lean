import Mathlib
import Ospray.Volume.TetSampling

/-!
# Sampling in hexahedra

There are two methods. One weighs the values of the vertices with the distances of a point
to the faces. The other looks for the parametric coordinates of the point by Newton's
iteration and weighs the values with trilinear functions of them. In a parallelepiped whose
volume is not below the tolerance of the iteration the two agree: the iteration is there
after one step, and the ratios of distances are its coordinates. The vertices stand in the
documented order, the lower four counterclockwise and then the upper four.
-/

namespace Ospray.Unstructured

/-! ## The interpolation functions -/

/-- `HexInterpolationFunctions` -/
def hexInterpolationFunctions (pcoords : Fin 3 → ℚ) : Fin 8 → ℚ :=
  let rm := 1 - pcoords 0
  let sm := 1 - pcoords 1
  let tm := 1 - pcoords 2
  ![rm * sm * tm, pcoords 0 * sm * tm, pcoords 0 * pcoords 1 * tm, rm * pcoords 1 * tm,
    rm * sm * pcoords 2, pcoords 0 * sm * pcoords 2, pcoords 0 * pcoords 1 * pcoords 2, rm * pcoords 1 * pcoords 2]

/-- `HexInterpolationDerivs`: eight for each coordinate -/
def hexInterpolationDerivs (pcoords : Fin 3 → ℚ) : Fin 3 → Fin 8 → ℚ :=
  let rm := 1 - pcoords 0
  let sm := 1 - pcoords 1
  let tm := 1 - pcoords 2
  ![![-sm * tm, sm * tm, pcoords 1 * tm, -pcoords 1 * tm,
      -sm * pcoords 2, sm * pcoords 2, pcoords 1 * pcoords 2, -pcoords 1 * pcoords 2],
    ![-rm * tm, -pcoords 0 * tm, pcoords 0 * tm, rm * tm,
      -rm * pcoords 2, -pcoords 0 * pcoords 2, pcoords 0 * pcoords 2, rm * pcoords 2],
    ![-rm * sm, -pcoords 0 * sm, -pcoords 0 * pcoords 1, -rm * pcoords 1,
      rm * sm, pcoords 0 * sm, pcoords 0 * pcoords 1, rm * pcoords 1]]

/-- The coordinates of the vertices. -/
def hexParameters : Fin 8 → Fin 3 → ℚ :=
  ![![0, 0, 0], ![1, 0, 0], ![1, 1, 0], ![0, 1, 0], ![0, 0, 1], ![1, 0, 1], ![1, 1, 1], ![0, 1, 1]]

/-- The functions sum to one, -/
theorem sum_hexInterpolationFunctions (pcoords : Fin 3 → ℚ) : ∑ i, hexInterpolationFunctions pcoords i = 1 := by
  simp only [Fin.sum_univ_eight, hexInterpolationFunctions, Matrix.cons_val]
  ring

/-- and the coordinates are the means of the vertices' with them. -/
theorem sum_functions_mul (pcoords : Fin 3 → ℚ) (axis : Fin 3) :
    ∑ i, hexInterpolationFunctions pcoords i * hexParameters i axis = pcoords axis := by
  fin_cases axis <;>
    simp only [Fin.sum_univ_eight, hexInterpolationFunctions, hexParameters, Matrix.cons_val, Fin.zero_eta,
      Fin.mk_one, Fin.reduceFinMk] <;> ring

/-- The derivatives sum to zero, -/
theorem sum_hexInterpolationDerivs (pcoords : Fin 3 → ℚ) (axis : Fin 3) :
    ∑ i, hexInterpolationDerivs pcoords axis i = 0 := by
  fin_cases axis <;>
    simp only [Fin.sum_univ_eight, hexInterpolationDerivs, Matrix.cons_val, Fin.zero_eta, Fin.mk_one,
      Fin.reduceFinMk] <;> ring

/-- and with the coordinates of the vertices to one along their own axis. -/
theorem sum_derivs_mul (pcoords : Fin 3 → ℚ) (axis along : Fin 3) :
    ∑ i, hexInterpolationDerivs pcoords axis i * hexParameters i along = if along = axis then 1 else 0 := by
  fin_cases axis <;> fin_cases along <;>
    simp only [Fin.sum_univ_eight, hexInterpolationDerivs, hexParameters, Matrix.cons_val, Fin.zero_eta, Fin.mk_one,
      Fin.reduceFinMk, Fin.reduceEq, if_true, if_false] <;> ring

theorem hasDerivAt_of_line {f : ℚ → ℚ} {slope place : ℚ} (line : ∀ x, f x = f place + slope * (x - place)) :
    HasDerivAt f slope place := by
  have shifted : HasDerivAt (fun x : ℚ => x - place) 1 place := (hasDerivAt_id place).sub_const place
  have straight : HasDerivAt (fun x => f place + slope * (x - place)) (slope * 1) place :=
    (shifted.const_mul slope).const_add (f place)
  rw [mul_one] at straight
  exact straight.congr_of_eventuallyEq (.of_forall line)

theorem hasDerivAt_hexInterpolationFunctions (pcoords : Fin 3 → ℚ) (axis : Fin 3) (i : Fin 8) :
    HasDerivAt (fun x => hexInterpolationFunctions (Function.update pcoords axis x) i)
      (hexInterpolationDerivs pcoords axis i) (pcoords axis) := by
  apply hasDerivAt_of_line
  intro x
  rw [Function.update_eq_self]
  fin_cases axis <;> fin_cases i <;>
    simp only [hexInterpolationFunctions, hexInterpolationDerivs, Matrix.cons_val, Function.update_apply,
      Fin.reduceEq, if_true, if_false, Fin.zero_eta, Fin.mk_one, Fin.reduceFinMk] <;> ring

/-! ## The two methods -/

/-- `HEX_DIVERGED` -/
def hexDiverged : ℚ := 1000000

/-- `HEX_MAX_ITERATION` -/
def hexMaxIteration : Nat := 10

/-- `HEX_CONVERGED` -/
def hexConverged : ℚ := 1 / 100000

/-- `HEX_OUTSIDE_CELL_TOLERANCE` -/
def hexOutsideCellTolerance : ℚ := 1 / 1000000

/-- `det` -/
def det (vx vy vz : Fin 3 → ℚ) : ℚ := dot vx (cross vy vz)

section Newton

variable (distance : (Fin 3 → ℚ) → (Fin 3 → ℚ) → ℚ) (corner : Fin 8 → Fin 3 → ℚ) (samplePos : Fin 3 → ℚ)

/-- `longestDiagonal`: from each lower vertex to the upper one across -/
def longestDiagonal : ℚ :=
  [(0, 6), (1, 7), (2, 4), (3, 5)].foldl (fun longest (diagonal : Fin 8 × Fin 8) =>
    let dist := distance (corner diagonal.1) (corner diagonal.2)
    if longest < dist then dist else longest) 0

/-- `determinantTolerance` -/
def determinantTolerance : ℚ :=
  let volumeBound := longestDiagonal distance corner ^ 3
  if 1 / 10 ^ 20 < 1 / 100000 * volumeBound then 1 / 10 ^ 20 else 1 / 100000 * volumeBound

/-- `fcol` -/
def fcol (pcoords : Fin 3 → ℚ) : Fin 3 → ℚ := ∑ i, hexInterpolationFunctions pcoords i • corner i - samplePos

/-- `rcol`, `scol` and `tcol` -/
def derivCol (pcoords : Fin 3 → ℚ) (axis : Fin 3) : Fin 3 → ℚ :=
  ∑ i, hexInterpolationDerivs pcoords axis i • corner i

/-- `d` -/
def determinant (pcoords : Fin 3 → ℚ) : ℚ :=
  det (derivCol corner pcoords 0) (derivCol corner pcoords 1) (derivCol corner pcoords 2)

/-- The improved `pcoords` -/
def improve (params pcoords : Fin 3 → ℚ) : Fin 3 → ℚ :=
  let f := fcol corner samplePos pcoords
  let r := derivCol corner pcoords 0
  let s := derivCol corner pcoords 1
  let t := derivCol corner pcoords 2
  let d := determinant corner pcoords
  ![params 0 - det f s t / d, params 1 - det r f t / d, params 2 - det r s f / d]

/-- The iteration loop: the coordinates that it converges to -/
def iterate : Nat → (Fin 3 → ℚ) → (Fin 3 → ℚ) → Option (Fin 3 → ℚ)
  | 0, _, _ => none
  | remaining + 1, params, pcoords =>
    if |determinant corner pcoords| < determinantTolerance distance corner then none
    else
      let pcoords := improve corner samplePos params pcoords
      if ∀ axis, |pcoords axis - params axis| < hexConverged then some pcoords
      else if ∃ axis, |pcoords axis| > hexDiverged then none
      else iterate remaining pcoords pcoords

end Newton

namespace UnstructuredVolume

variable (volume : UnstructuredVolume) (id : Nat)

/-- `intersectAndSampleHexNonplanar`: the result, unless it returns false -/
def intersectAndSampleHexNonplanar (distance : (Fin 3 → ℚ) → (Fin 3 → ℚ) → ℚ) (samplePos : Fin 3 → ℚ) : Option ℚ :=
  let start := fun _ => 1 / 2
  (iterate distance (volume.hexCorner id) samplePos hexMaxIteration start start).bind fun pcoords =>
    if ∀ axis, pcoords axis ≥ 0 - hexOutsideCellTolerance ∧ pcoords axis ≤ 1 + hexOutsideCellTolerance then
      match volume.cellField with
      | some cellField => some (cellField id)
      | none => some (∑ i : Fin 8, hexInterpolationFunctions pcoords i * volume.field (volume.cellIndex id i))
    else none

/-- `intersectAndSampleHexPlanar`: the result, unless it returns false -/
def intersectAndSampleHexPlanar (hexNormal : Fin 6 → Fin 3 → ℚ) (assumeInside : Bool) (samplePos : Fin 3 → ℚ) :
    Option ℚ :=
  let corner := volume.hexCorner id
  let dist := fun planeID : Fin 6 => dot (samplePos - corner (if planeID < 3 then 0 else 6)) (hexNormal planeID)
  if ¬assumeInside ∧ ∃ planeID, dist planeID ≥ 0 then none
  else
    match volume.cellField with
    | some cellField => some (cellField id)
    | none =>
      let field := fun i => volume.field (volume.cellIndex id i)
      let u0 := dist 4 / (dist 0 + dist 4)
      let v0 := dist 5 / (dist 1 + dist 5)
      let w0 := dist 3 / (dist 2 + dist 3)
      let u1 := 1 - u0
      let v1 := 1 - v0
      let w1 := 1 - w0
      some (u0 * v0 * w0 * field 0 + u0 * v0 * w1 * field 1 + u0 * v1 * w1 * field 2 + u0 * v1 * w0 * field 3 +
        u1 * v0 * w0 * field 4 + u1 * v0 * w1 * field 5 + u1 * v1 * w1 * field 6 + u1 * v1 * w0 * field 7)

end UnstructuredVolume

/-! ## Parallelepipeds -/

/-- The vertices of a parallelepiped with some edges. -/
def Parallelepiped (corner : Fin 8 → Fin 3 → ℚ) (origin : Fin 3 → ℚ) (edge : Fin 3 → Fin 3 → ℚ) : Prop :=
  ∀ i, corner i = origin + ∑ axis, hexParameters i axis • edge axis

section Parallelepipeds

variable {distance : (Fin 3 → ℚ) → (Fin 3 → ℚ) → ℚ} {corner : Fin 8 → Fin 3 → ℚ} {origin : Fin 3 → ℚ}
  {edge : Fin 3 → Fin 3 → ℚ}

/-- The point with some coordinates. -/
def pointAt (origin : Fin 3 → ℚ) (edge : Fin 3 → Fin 3 → ℚ) (pcoords : Fin 3 → ℚ) : Fin 3 → ℚ :=
  origin + ∑ axis, pcoords axis • edge axis

theorem Parallelepiped.sum_smul (parallel : Parallelepiped corner origin edge) (weights : Fin 8 → ℚ) :
    ∑ i, weights i • corner i =
      (∑ i, weights i) • origin + ∑ axis, (∑ i, weights i * hexParameters i axis) • edge axis := by
  have spread : ∀ i, weights i • corner i =
      weights i • origin + ∑ axis, (weights i * hexParameters i axis) • edge axis := by
    intro i
    rw [parallel i, smul_add, Finset.smul_sum]
    simp only [smul_smul]
  simp only [spread, Finset.sum_add_distrib, ← Finset.sum_smul]
  rw [Finset.sum_comm]
  simp only [← Finset.sum_smul]

/-- The derivatives of the position are the edges, -/
theorem Parallelepiped.derivCol (parallel : Parallelepiped corner origin edge) (pcoords : Fin 3 → ℚ) (axis : Fin 3) :
    derivCol corner pcoords axis = edge axis := by
  rw [Unstructured.derivCol, parallel.sum_smul, sum_hexInterpolationDerivs, zero_smul, zero_add]
  simp [sum_derivs_mul]

/-- and the position is as far from a point as the coordinates are. -/
theorem Parallelepiped.fcol (parallel : Parallelepiped corner origin edge) (exact_ pcoords : Fin 3 → ℚ) :
    fcol corner (pointAt origin edge exact_) pcoords = ∑ axis, (pcoords axis - exact_ axis) • edge axis := by
  rw [Unstructured.fcol, parallel.sum_smul, sum_hexInterpolationFunctions, one_smul, pointAt]
  simp only [sum_functions_mul, sub_smul, Finset.sum_sub_distrib]
  abel

theorem det_replace (edge : Fin 3 → Fin 3 → ℚ) (factor : Fin 3 → ℚ) :
    det (∑ axis, factor axis • edge axis) (edge 1) (edge 2) = factor 0 * det (edge 0) (edge 1) (edge 2) ∧
      det (edge 0) (∑ axis, factor axis • edge axis) (edge 2) = factor 1 * det (edge 0) (edge 1) (edge 2) ∧
      det (edge 0) (edge 1) (∑ axis, factor axis • edge axis) = factor 2 * det (edge 0) (edge 1) (edge 2) := by
  simp only [det, dot, cross, Fin.sum_univ_three, Pi.add_apply, Pi.smul_apply, smul_eq_mul, Matrix.cons_val]
  refine ⟨?_, ?_, ?_⟩ <;> ring

/-- The determinant is the volume everywhere. -/
theorem Parallelepiped.determinant (parallel : Parallelepiped corner origin edge) (pcoords : Fin 3 → ℚ) :
    determinant corner pcoords = det (edge 0) (edge 1) (edge 2) := by
  rw [Unstructured.determinant, parallel.derivCol, parallel.derivCol, parallel.derivCol]

/-- So the iteration has the exact coordinates after one step, -/
theorem Parallelepiped.improve (parallel : Parallelepiped corner origin edge)
    (solid : det (edge 0) (edge 1) (edge 2) ≠ 0) (exact_ params : Fin 3 → ℚ) :
    improve corner (pointAt origin edge exact_) params params = exact_ := by
  obtain ⟨r, s, t⟩ := det_replace edge fun axis => params axis - exact_ axis
  rw [Unstructured.improve, parallel.determinant, parallel.fcol, parallel.derivCol, parallel.derivCol,
    parallel.derivCol]
  simp only [r, s, t, mul_div_cancel_right₀ _ solid, sub_sub_cancel]
  funext axis
  fin_cases axis <;> rfl

/-- and finds with the next step that it has. -/
theorem Parallelepiped.iterate (parallel : Parallelepiped corner origin edge)
    (solid : det (edge 0) (edge 1) (edge 2) ≠ 0)
    (large : ¬|det (edge 0) (edge 1) (edge 2)| < determinantTolerance distance corner) (exact_ start : Fin 3 → ℚ)
    (near : ∀ axis, |exact_ axis| ≤ hexDiverged) (remaining : Nat) :
    iterate distance corner (pointAt origin edge exact_) (remaining + 2) start start = some exact_ := by
  have kept : ¬∃ axis, |exact_ axis| > hexDiverged := by
    simpa only [not_exists, gt_iff_lt, not_lt] using near
  have found : ∀ axis, |exact_ axis - exact_ axis| < hexConverged := by
    intro axis
    rw [sub_self, abs_zero]
    norm_num [hexConverged]
  simp only [Unstructured.iterate, parallel.determinant, large, parallel.improve solid, kept, found, implies_true,
    if_true, if_false, ite_self]

/-- The axis between a face and the one across from it. -/
def faceAxis : Fin 6 → Fin 3 := ![2, 1, 0, 0, 2, 1]

/-- The face across from one. -/
def opposite : Fin 6 → Fin 6 := ![4, 5, 3, 2, 0, 1]

/-- The distance from a face is that along its axis, -/
theorem Parallelepiped.dot_faceCross (parallel : Parallelepiped corner origin edge) (pcoords : Fin 3 → ℚ)
    (planeID : Fin 6) :
    dot (pointAt origin edge pcoords - corner (if planeID < 3 then 0 else 6))
        (faceCross corner (hexPlanes planeID)) =
      (if planeID < 3 then -pcoords (faceAxis planeID) else pcoords (faceAxis planeID) - 1) *
        det (edge 0) (edge 1) (edge 2) := by
  fin_cases planeID <;>
    simp only [parallel _, pointAt, faceCross, hexPlanes, hexParameters, faceAxis, dot, cross, det,
      Fin.sum_univ_three, Pi.add_apply, Pi.sub_apply, Pi.smul_apply, smul_eq_mul, Matrix.cons_val, Fin.zero_eta,
      Fin.mk_one, Fin.reduceFinMk, Fin.reduceLT, if_true, if_false] <;> ring

/-- and faces across from each other have normals of one length. -/
theorem Parallelepiped.dot_self_opposite (parallel : Parallelepiped corner origin edge) (planeID : Fin 6) :
    dot (faceCross corner (hexPlanes (opposite planeID))) (faceCross corner (hexPlanes (opposite planeID))) =
      dot (faceCross corner (hexPlanes planeID)) (faceCross corner (hexPlanes planeID)) := by
  fin_cases planeID <;>
    simp only [parallel _, faceCross, hexPlanes, opposite, hexParameters, dot, cross, Fin.sum_univ_three,
      Pi.add_apply, Pi.sub_apply, Pi.smul_apply, smul_eq_mul, Matrix.cons_val, Fin.zero_eta, Fin.mk_one,
      Fin.reduceFinMk] <;> ring

end Parallelepipeds

/-! ## The methods agree -/

section Agree

variable {volume : UnstructuredVolume} {id : Nat} {origin : Fin 3 → ℚ} {edge : Fin 3 → Fin 3 → ℚ} {rsqrt : ℚ → ℚ}
  {distance : (Fin 3 → ℚ) → (Fin 3 → ℚ) → ℚ} {pcoords : Fin 3 → ℚ}

/-- What both return at the point with some coordinates. -/
def UnstructuredVolume.trilinear (volume : UnstructuredVolume) (id : Nat) (pcoords : Fin 3 → ℚ) : ℚ :=
  match volume.cellField with
  | some cellField => cellField id
  | none => ∑ i : Fin 8, hexInterpolationFunctions pcoords i * volume.field (volume.cellIndex id i)

/-- The iteration has the value at the coordinates. -/
theorem nonplanar_eq (parallel : Parallelepiped (volume.hexCorner id) origin edge)
    (solid : det (edge 0) (edge 1) (edge 2) ≠ 0)
    (large : ¬|det (edge 0) (edge 1) (edge 2)| < determinantTolerance distance (volume.hexCorner id))
    (inside : ∀ axis, 0 < pcoords axis ∧ pcoords axis < 1) :
    volume.intersectAndSampleHexNonplanar id distance (pointAt origin edge pcoords) =
      some (volume.trilinear id pcoords) := by
  have near : ∀ axis, |pcoords axis| ≤ hexDiverged := by
    intro axis
    obtain ⟨low, high⟩ := inside axis
    rw [abs_of_pos low, hexDiverged]
    linarith
  have within : ∀ axis, pcoords axis ≥ 0 - hexOutsideCellTolerance ∧ pcoords axis ≤ 1 + hexOutsideCellTolerance := by
    intro axis
    obtain ⟨low, high⟩ := inside axis
    rw [hexOutsideCellTolerance]
    constructor <;> linarith
  have found : iterate distance (volume.hexCorner id) (pointAt origin edge pcoords) hexMaxIteration (fun _ => 1 / 2)
      (fun _ => 1 / 2) = some pcoords := parallel.iterate solid large pcoords _ near 8
  rw [UnstructuredVolume.intersectAndSampleHexNonplanar]
  simp only [found, Option.bind_some, within, and_self, implies_true, if_true, UnstructuredVolume.trilinear]
  split <;> rfl

theorem nonplanar_thin (parallel : Parallelepiped (volume.hexCorner id) origin edge)
    (thin : |det (edge 0) (edge 1) (edge 2)| < determinantTolerance distance (volume.hexCorner id))
    (samplePos : Fin 3 → ℚ) : volume.intersectAndSampleHexNonplanar id distance samplePos = none := by
  have left : iterate distance (volume.hexCorner id) samplePos hexMaxIteration (fun _ => 1 / 2) (fun _ => 1 / 2) =
      none := by
    rw [hexMaxIteration, iterate, parallel.determinant, if_pos thin]
  rw [UnstructuredVolume.intersectAndSampleHexNonplanar]
  simp only [left, Option.bind_none]

theorem planar_dist (parallel : Parallelepiped (volume.hexCorner id) origin edge) (planeID : Fin 6) :
    dot (pointAt origin edge pcoords - volume.hexCorner id (if planeID < 3 then 0 else 6))
        (volume.hexNormal rsqrt id none planeID) =
      (if planeID < 3 then -pcoords (faceAxis planeID) else pcoords (faceAxis planeID) - 1) *
        (det (edge 0) (edge 1) (edge 2) *
          rsqrt (dot (faceCross (volume.hexCorner id) (hexPlanes planeID))
            (faceCross (volume.hexCorner id) (hexPlanes planeID)))) := by
  rw [← mul_assoc, ← parallel.dot_faceCross]
  simp only [dot, UnstructuredVolume.hexNormal, normalize]
  ring

theorem Parallelepiped.faceCross_ne {corner : Fin 8 → Fin 3 → ℚ} (parallel : Parallelepiped corner origin edge)
    (solid : det (edge 0) (edge 1) (edge 2) ≠ 0) (planeID : Fin 6) : faceCross corner (hexPlanes planeID) ≠ 0 := by
  intro zero
  have distance := parallel.dot_faceCross (fun _ => 1 / 2) planeID
  rw [zero] at distance
  have nothing : ∀ v : Fin 3 → ℚ, dot v 0 = 0 := by
    intro v
    simp [dot]
  rw [nothing] at distance
  apply mul_ne_zero _ solid distance.symm
  split_ifs <;> norm_num

theorem ratio_eq {scale place : ℚ} (some_ : scale ≠ 0) :
    (place - 1) * scale / (-place * scale + (place - 1) * scale) = 1 - place := by
  have whole : -place * scale + (place - 1) * scale = -scale := by ring
  rw [whole, div_neg, mul_div_cancel_right₀ _ some_]
  ring

/-- The distances to the faces give the value at the coordinates. -/
theorem planar_eq (positive : ∀ x, 0 < x → 0 < rsqrt x) (parallel : Parallelepiped (volume.hexCorner id) origin edge)
    (solid : 0 < det (edge 0) (edge 1) (edge 2)) (inside : ∀ axis, 0 < pcoords axis ∧ pcoords axis < 1) :
    volume.intersectAndSampleHexPlanar id (volume.hexNormal rsqrt id none) false (pointAt origin edge pcoords) =
      some (volume.trilinear id pcoords) := by
  let k := fun planeID => det (edge 0) (edge 1) (edge 2) *
    rsqrt (dot (faceCross (volume.hexCorner id) (hexPlanes planeID)) (faceCross (volume.hexCorner id) (hexPlanes planeID)))
  have scale : ∀ planeID, 0 < k planeID := fun planeID =>
    mul_pos solid (positive _ (UnstructuredVolume.dot_self_pos (parallel.faceCross_ne solid.ne' planeID)))
  have across : ∀ planeID, k (opposite planeID) = k planeID := fun planeID =>
    congrArg (fun square => det (edge 0) (edge 1) (edge 2) * rsqrt square) (parallel.dot_self_opposite planeID)
  have dist : ∀ planeID, dot (pointAt origin edge pcoords - volume.hexCorner id (if planeID < 3 then 0 else 6))
      (volume.hexNormal rsqrt id none planeID) =
        (if planeID < 3 then -pcoords (faceAxis planeID) else pcoords (faceAxis planeID) - 1) * k planeID :=
    planar_dist parallel
  have accepted : ¬∃ planeID : Fin 6,
      (if planeID < 3 then -pcoords (faceAxis planeID) else pcoords (faceAxis planeID) - 1) * k planeID ≥ 0 := by
    rintro ⟨planeID, behind⟩
    obtain ⟨low, high⟩ := inside (faceAxis planeID)
    have before := nonneg_of_mul_nonneg_left behind (scale planeID)
    split_ifs at before <;> linarith
  have u0 : (pcoords 2 - 1) * k 4 / (-pcoords 2 * k 0 + (pcoords 2 - 1) * k 4) = 1 - pcoords 2 := by
    rw [show k 4 = k 0 from across 0, ratio_eq (scale 0).ne']
  have v0 : (pcoords 1 - 1) * k 5 / (-pcoords 1 * k 1 + (pcoords 1 - 1) * k 5) = 1 - pcoords 1 := by
    rw [show k 5 = k 1 from across 1, ratio_eq (scale 1).ne']
  have w0 : (pcoords 0 - 1) * k 3 / (-pcoords 0 * k 2 + (pcoords 0 - 1) * k 3) = 1 - pcoords 0 := by
    rw [show k 3 = k 2 from across 2, ratio_eq (scale 2).ne']
  rw [UnstructuredVolume.intersectAndSampleHexPlanar]
  simp only [dist, accepted, and_false, if_false, UnstructuredVolume.trilinear]
  split
  · rfl
  · simp only [Fin.reduceLT, if_true, if_false, faceAxis, Matrix.cons_val, u0, v0, w0, Fin.sum_univ_eight,
      hexInterpolationFunctions, Option.some.injEq, Fin.coe_ofNat_eq_mod, Nat.reduceMod]
    ring

/-- In the other order of the vertices, they are on the wrong sides. -/
theorem planar_reversed (positive : ∀ x, 0 < x → 0 < rsqrt x)
    (parallel : Parallelepiped (volume.hexCorner id) origin edge) (reversed : det (edge 0) (edge 1) (edge 2) < 0)
    (inside : ∀ axis, 0 < pcoords axis ∧ pcoords axis < 1) :
    volume.intersectAndSampleHexPlanar id (volume.hexNormal rsqrt id none) false (pointAt origin edge pcoords) =
      none := by
  have scale : det (edge 0) (edge 1) (edge 2) *
      rsqrt (dot (faceCross (volume.hexCorner id) (hexPlanes 0)) (faceCross (volume.hexCorner id) (hexPlanes 0))) < 0 :=
    mul_neg_of_neg_of_pos reversed
      (positive _ (UnstructuredVolume.dot_self_pos (parallel.faceCross_ne reversed.ne 0)))
  have behind : dot (pointAt origin edge pcoords - volume.hexCorner id (if (0 : Fin 6) < 3 then 0 else 6))
      (volume.hexNormal rsqrt id none 0) ≥ 0 := by
    rw [planar_dist parallel]
    exact mul_nonneg_of_nonpos_of_nonpos (neg_nonpos.mpr (inside 2).1.le) scale.le
  rw [UnstructuredVolume.intersectAndSampleHexPlanar]
  exact if_pos ⟨Bool.false_ne_true, 0, behind⟩

/-- The methods agree inside every parallelepiped whose vertices stand in the documented order and whose volume is
not below the tolerance. -/
theorem hexMethods_agree (positive : ∀ x, 0 < x → 0 < rsqrt x) :
    (∀ pcoords, ∑ i, hexInterpolationFunctions pcoords i = 1) ∧
      (∀ pcoords axis i, HasDerivAt (fun x => hexInterpolationFunctions (Function.update pcoords axis x) i)
        (hexInterpolationDerivs pcoords axis i) (pcoords axis)) ∧
      ∀ (volume : UnstructuredVolume) (id : Nat) (origin : Fin 3 → ℚ) (edge : Fin 3 → Fin 3 → ℚ),
        volume.indices (2 * id) 0 ≠ -1 → volume.indices (2 * id) 0 ≠ -2 →
        Parallelepiped (volume.hexCorner id) origin edge → 0 < det (edge 0) (edge 1) (edge 2) →
        determinantTolerance distance (volume.hexCorner id) ≤ det (edge 0) (edge 1) (edge 2) →
        (∀ pcoords start, improve (volume.hexCorner id) (pointAt origin edge pcoords) start start = pcoords) ∧
          ∀ faceNormals, faceNormals = none ∨ faceNormals = some (volume.calculateFaceNormals rsqrt) →
            ∀ pcoords, (∀ axis, 0 < pcoords axis ∧ pcoords axis < 1) →
              ∃ value,
                volume.intersectAndSampleHexNonplanar id distance (pointAt origin edge pcoords) = some value ∧
                  volume.intersectAndSampleHexPlanar id (volume.hexNormal rsqrt id faceNormals) false
                    (pointAt origin edge pcoords) = some value := by
  refine ⟨sum_hexInterpolationFunctions, hasDerivAt_hexInterpolationFunctions, ?_⟩
  intro volume id origin edge notTetrahedron notWedge parallel solid large
  refine ⟨fun pcoords start => parallel.improve solid.ne' pcoords start, ?_⟩
  intro faceNormals computed pcoords inside
  have normals : volume.hexNormal rsqrt id faceNormals = volume.hexNormal rsqrt id none := by
    obtain rfl | rfl := computed
    · rfl
    · exact funext (UnstructuredVolume.hexNormal_precomputed notTetrahedron notWedge)
  refine ⟨volume.trilinear id pcoords, nonplanar_eq parallel solid.ne' ?_ inside, ?_⟩
  · rw [abs_of_pos solid, not_lt]
    exact large
  · rw [normals]
    exact planar_eq positive parallel solid inside

end Agree

/-- A cell with edges along the axes. -/
def boxCell (length : Fin 3 → ℚ) : UnstructuredVolume where
  nCells := 1
  vertices := fun idx axis => length axis * hexParameters (Fin.ofNat 8 idx.toNat) axis
  field := fun idx => idx
  cellField := none
  indices := fun entry i => 4 * entry + i

/-- `length` of the difference, where it is rational. -/
def rationalDistance (a b : Fin 3 → ℚ) : ℚ := Rat.sqrt (dot (a - b) (a - b))

/-- The inverse of the root, where it is rational. -/
def rationalRsqrt (x : ℚ) : ℚ := 1 / Rat.sqrt x

theorem rationalRsqrt_pos (x : ℚ) (positive : 0 < x) : 0 < rationalRsqrt x := by
  have num : 0 < Int.sqrt x.num := by
    rw [Int.sqrt, Int.natCast_pos, Nat.sqrt_pos, Int.lt_toNat]
    exact Rat.num_pos.mpr positive
  have den : 0 < Nat.sqrt x.den := Nat.sqrt_pos.mpr x.pos
  rw [rationalRsqrt, Rat.sqrt, Rat.mkRat_eq_div]
  positivity

theorem boxCell_parallelepiped (length : Fin 3 → ℚ) :
    Parallelepiped ((boxCell length).hexCorner 0) 0 fun axis => Pi.single axis (length axis) := by
  intro i
  have index : (boxCell length).cellIndex 0 i = i := by
    fin_cases i <;> rfl
  funext axis
  rw [UnstructuredVolume.hexCorner, index]
  simp [boxCell, Finset.sum_apply, Pi.single_apply, mul_comm]

theorem boxCell_det (length : Fin 3 → ℚ) :
    det (Pi.single 0 (length 0)) (Pi.single 1 (length 1)) (Pi.single 2 (length 2)) =
      length 0 * length 1 * length 2 := by
  simp [det, dot, cross]
  ring

theorem determinantTolerance_le (distance : (Fin 3 → ℚ) → (Fin 3 → ℚ) → ℚ) (corner : Fin 8 → Fin 3 → ℚ) :
    determinantTolerance distance corner ≤ 1 / 10 ^ 20 := by
  rw [determinantTolerance]
  split_ifs with large
  · exact le_rfl
  · exact not_lt.mp large

theorem boxCell_pointAt (length pcoords : Fin 3 → ℚ) :
    pointAt 0 (fun axis => Pi.single axis (length axis)) pcoords = fun axis => pcoords axis * length axis := by
  funext axis
  simp [pointAt, Finset.sum_apply, Pi.single_apply]

theorem hexMethods_agree_box : ∃ value,
    (boxCell ![2, 3, 6]).intersectAndSampleHexNonplanar 0 rationalDistance ![1, 1, 1] = some value ∧
      (boxCell ![2, 3, 6]).intersectAndSampleHexPlanar 0 ((boxCell ![2, 3, 6]).hexNormal rationalRsqrt 0 none) false
        ![1, 1, 1] = some value := by
  have volume : det (Pi.single 0 (![2, 3, 6] 0)) (Pi.single 1 (![2, 3, 6] 1)) (Pi.single 2 (![2, 3, 6] 2)) = 36 := by
    rw [boxCell_det]
    decide +kernel
  have agree := (@hexMethods_agree rationalRsqrt rationalDistance rationalRsqrt_pos).2.2 (boxCell ![2, 3, 6]) 0 0 _
    (by decide) (by decide) (boxCell_parallelepiped _) (by rw [volume]; norm_num)
    ((determinantTolerance_le _ _).trans (by rw [volume]; norm_num))
  have both := agree.2 none (.inl rfl) ![1 / 2, 1 / 3, 1 / 6] (by decide +kernel)
  rw [boxCell_pointAt] at both
  convert both using 4 <;> decide +kernel

/-- The longest diagonal of a cell whose diagonals are rational. -/
theorem boxCell_longestDiagonal {length : Fin 3 → ℚ} {diagonal : ℚ} (positive : 0 < diagonal)
    (square : length 0 * length 0 + length 1 * length 1 + length 2 * length 2 = diagonal * diagonal) :
    longestDiagonal rationalDistance ((boxCell length).hexCorner 0) = diagonal := by
  have each : ∀ i j, (∀ axis, hexParameters i axis + hexParameters j axis = 1) →
      rationalDistance ((boxCell length).hexCorner 0 i) ((boxCell length).hexCorner 0 j) = diagonal := by
    intro i j across
    have cornerAt : ∀ k : Fin 8, ∀ axis,
        (boxCell length).hexCorner 0 k axis = hexParameters k axis * length axis := by
      intro k axis
      rw [boxCell_parallelepiped length k, zero_add]
      simp [Finset.sum_apply, Pi.single_apply]
    have unit : ∀ axis, (hexParameters i axis - hexParameters j axis) *
        (hexParameters i axis - hexParameters j axis) = 1 := by
      intro axis
      have either : ∀ k : Fin 8, ∀ axis, hexParameters k axis * (1 - hexParameters k axis) = 0 := by decide +kernel
      have other : hexParameters j axis = 1 - hexParameters i axis := by
        linarith [across axis]
      rw [other]
      linear_combination -4 * either i axis
    have squared : dot ((boxCell length).hexCorner 0 i - (boxCell length).hexCorner 0 j)
        ((boxCell length).hexCorner 0 i - (boxCell length).hexCorner 0 j) = diagonal * diagonal := by
      simp only [dot, Pi.sub_apply, cornerAt]
      linear_combination square + length 0 * length 0 * unit 0 + length 1 * length 1 * unit 1 +
        length 2 * length 2 * unit 2
    rw [rationalDistance, squared, Rat.sqrt_eq, abs_of_pos positive]
  have four := And.intro (each 0 6 (by decide +kernel)) (And.intro (each 1 7 (by decide +kernel))
    (And.intro (each 2 4 (by decide +kernel)) (each 3 5 (by decide +kernel))))
  simp only [longestDiagonal, List.foldl, four, positive, lt_irrefl, if_true, if_false]

/-- A cell that is too thin for the iteration. -/
def thinCell : UnstructuredVolume := boxCell ![1, 1 / 10 ^ 11, 1 / (10 ^ 11 + 1)]

/-- A cell whose vertices stand in the other order. -/
def reversedCell : UnstructuredVolume := boxCell ![-2, 3, 6]

/-- The centers of the two cells have a value with one method only. -/
theorem hexMethods_disagree :
    (Parallelepiped (thinCell.hexCorner 0) 0 ![![1, 0, 0], ![0, 1 / 10 ^ 11, 0], ![0, 0, 1 / (10 ^ 11 + 1)]] ∧
        0 < det ![1, 0, 0] ![0, 1 / 10 ^ 11, 0] ![0, 0, 1 / (10 ^ 11 + 1)] ∧
        thinCell.intersectAndSampleHexNonplanar 0 rationalDistance
          ![1 / 2, 1 / (2 * 10 ^ 11), 1 / (2 * (10 ^ 11 + 1))] = none ∧
        (thinCell.intersectAndSampleHexPlanar 0 (thinCell.hexNormal rationalRsqrt 0 none) false
          ![1 / 2, 1 / (2 * 10 ^ 11), 1 / (2 * (10 ^ 11 + 1))]).isSome) ∧
      Parallelepiped (reversedCell.hexCorner 0) 0 ![![-2, 0, 0], ![0, 3, 0], ![0, 0, 6]] ∧
        det ![-2, 0, 0] ![0, 3, 0] ![0, 0, 6] < 0 ∧
        (reversedCell.intersectAndSampleHexNonplanar 0 rationalDistance ![-1, 3 / 2, 3]).isSome ∧
        reversedCell.intersectAndSampleHexPlanar 0 (reversedCell.hexNormal rationalRsqrt 0 none) false
          ![-1, 3 / 2, 3] = none := by
  have inside : ∀ axis : Fin 3, (0 : ℚ) < (fun _ => 1 / 2) axis ∧ (fun _ => 1 / 2) axis < (1 : ℚ) := by
    intro axis
    norm_num
  have thinEdges : (fun axis => Pi.single axis (![1, 1 / 10 ^ 11, 1 / (10 ^ 11 + 1)] axis)) =
      ![![(1 : ℚ), 0, 0], ![0, 1 / 10 ^ 11, 0], ![0, 0, 1 / (10 ^ 11 + 1)]] := by
    decide +kernel
  have reversedEdges : (fun axis => Pi.single axis (![-2, 3, 6] axis)) =
      ![![(-2 : ℚ), 0, 0], ![0, 3, 0], ![0, 0, 6]] := by
    decide +kernel
  have thin : Parallelepiped (thinCell.hexCorner 0) 0 _ := thinEdges ▸ boxCell_parallelepiped _
  have reversed : Parallelepiped (reversedCell.hexCorner 0) 0 _ := reversedEdges ▸ boxCell_parallelepiped _
  have thinPoint : pointAt 0 ![![(1 : ℚ), 0, 0], ![0, 1 / 10 ^ 11, 0], ![0, 0, 1 / (10 ^ 11 + 1)]] (fun _ => 1 / 2) =
      ![1 / 2, 1 / (2 * 10 ^ 11), 1 / (2 * (10 ^ 11 + 1))] := by
    rw [← thinEdges, boxCell_pointAt]
    decide +kernel
  have reversedPoint : pointAt 0 ![![(-2 : ℚ), 0, 0], ![0, 3, 0], ![0, 0, 6]] (fun _ => 1 / 2) = ![-1, 3 / 2, 3] := by
    rw [← reversedEdges, boxCell_pointAt]
    decide +kernel
  have longest : longestDiagonal rationalDistance (thinCell.hexCorner 0) =
      (10 ^ 22 + 10 ^ 11 + 1) / (10 ^ 11 * (10 ^ 11 + 1)) :=
    boxCell_longestDiagonal (by norm_num) (by decide +kernel)
  have tolerance : determinantTolerance rationalDistance (thinCell.hexCorner 0) = 1 / 10 ^ 20 := by
    rw [determinantTolerance, longest]
    exact if_pos (by decide +kernel)
  refine ⟨⟨thin, by decide +kernel, ?_, ?_⟩, reversed, by decide +kernel, ?_, ?_⟩
  · exact nonplanar_thin thin (tolerance ▸ by decide +kernel) _
  · rw [← thinPoint, planar_eq rationalRsqrt_pos thin (by decide +kernel) inside]
    rfl
  · rw [← reversedPoint, nonplanar_eq reversed (by decide +kernel)
      (not_lt.mpr ((determinantTolerance_le _ _).trans (by decide +kernel))) inside]
    rfl
  · rw [← reversedPoint, planar_reversed rationalRsqrt_pos reversed (by decide +kernel) inside]

end Ospray.Unstructured
