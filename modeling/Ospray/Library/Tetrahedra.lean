import Mathlib
import Ospray.Library.Literals

/-!
# Tetrahedra

Six times the volume of a tetrahedron has a sign, which tells its winding. A point that
takes the place of a vertex makes another tetrahedron, and the ratio of the two volumes is
the weight of that vertex: the point is the mean of the vertices with these weights, and an
affine function has there the mean of its values. The point is on the inner side of a face
if the volume keeps its sign, and inside if it is so for each of the four faces.
-/

namespace Library.Tetrahedra

open Matrix

universe u
variable {K : Type u}

section Volumes

variable [CommRing K]

/-- Six times the volume, with the sign of the winding. -/
def signedVolume (corner : Fin 4 → Fin 3 → K) : K :=
  (corner 1 - corner 0) ⬝ᵥ ((corner 2 - corner 0) ⨯₃ (corner 3 - corner 0))

/-- The volume that is left when a point takes the place of a vertex. -/
def volumeWith (corner : Fin 4 → Fin 3 → K) (vertex : Fin 4) (point : Fin 3 → K) : K :=
  signedVolume (Function.update corner vertex point)

theorem signedVolume_eq (corner : Fin 4 → Fin 3 → K) : signedVolume corner =
    (corner 1 0 - corner 0 0) * ((corner 2 1 - corner 0 1) * (corner 3 2 - corner 0 2) -
        (corner 2 2 - corner 0 2) * (corner 3 1 - corner 0 1)) +
      (corner 1 1 - corner 0 1) * ((corner 2 2 - corner 0 2) * (corner 3 0 - corner 0 0) -
        (corner 2 0 - corner 0 0) * (corner 3 2 - corner 0 2)) +
      (corner 1 2 - corner 0 2) * ((corner 2 0 - corner 0 0) * (corner 3 1 - corner 0 1) -
        (corner 2 1 - corner 0 1) * (corner 3 0 - corner 0 0)) := by
  rw [signedVolume, cross_apply, vec3_dotProduct]
  rfl

variable {corner : Fin 4 → Fin 3 → K} {point : Fin 3 → K}

/-- A vertex in its own place leaves the volume, -/
@[simp] theorem volumeWith_self (vertex : Fin 4) :
    volumeWith corner vertex (corner vertex) = signedVolume corner := by
  rw [volumeWith, Function.update_eq_self]

/-- the four volumes make up the whole one, -/
theorem sum_volumeWith (corner : Fin 4 → Fin 3 → K) (point : Fin 3 → K) :
    ∑ vertex, volumeWith corner vertex point = signedVolume corner := by
  simp only [volumeWith, signedVolume_eq, Fin.sum_univ_four, Function.update_apply, Fin.reduceEq, if_true, if_false]
  ring

/-- and the point is the mean of the vertices, weighed with them. -/
theorem sum_volumeWith_mul (corner : Fin 4 → Fin 3 → K) (point : Fin 3 → K) (axis : Fin 3) :
    ∑ vertex, volumeWith corner vertex point * corner vertex axis = signedVolume corner * point axis := by
  simp only [volumeWith, signedVolume_eq, Fin.sum_univ_four, Function.update_apply, Fin.reduceEq, if_true, if_false]
  fin_cases axis <;> simp <;> ring

theorem signedVolume_swap (corner : Fin 4 → Fin 3 → K) :
    signedVolume (corner ∘ Equiv.swap 0 1) = -signedVolume corner := by
  simp only [signedVolume_eq, Function.comp_apply, Equiv.swap_apply_left, Equiv.swap_apply_right,
    Equiv.swap_apply_of_ne_of_ne (show (2 : Fin 4) ≠ 0 by decide) (show (2 : Fin 4) ≠ 1 by decide),
    Equiv.swap_apply_of_ne_of_ne (show (3 : Fin 4) ≠ 0 by decide) (show (3 : Fin 4) ≠ 1 by decide)]
  ring

theorem volumeWith_swap (corner : Fin 4 → Fin 3 → K) (vertex : Fin 4) (point : Fin 3 → K) :
    volumeWith (corner ∘ Equiv.swap 0 1) vertex point = -volumeWith corner (Equiv.swap 0 1 vertex) point := by
  rw [volumeWith, volumeWith, ← signedVolume_swap]
  exact congrArg signedVolume (Function.update_comp_eq_of_injective _ (Equiv.injective _) _ _).symm

end Volumes

section Weights

variable [Field K]

/-- The share of a vertex in a point. -/
def weight (corner : Fin 4 → Fin 3 → K) (vertex : Fin 4) (point : Fin 3 → K) : K :=
  volumeWith corner vertex point / signedVolume corner

variable {corner : Fin 4 → Fin 3 → K} {point : Fin 3 → K}

/-- The weights sum to one, -/
theorem sum_weight (solid : signedVolume corner ≠ 0) : ∑ vertex, weight corner vertex point = 1 := by
  simp only [weight]
  rw [← Finset.sum_div, sum_volumeWith, div_self solid]

/-- and the point is the mean of the vertices with them. -/
theorem sum_weight_smul (solid : signedVolume corner ≠ 0) :
    ∑ vertex, weight corner vertex point • corner vertex = point := by
  funext axis
  have mean := sum_volumeWith_mul corner point axis
  simp only [Finset.sum_apply, Pi.smul_apply, smul_eq_mul, weight, div_mul_eq_mul_div]
  rw [← Finset.sum_div, mean, mul_div_cancel_left₀ _ solid]

theorem affine_sum {V : Type u} [AddCommGroup V] [Module K V] (f : V →ᵃ[K] K) {ι : Type} (s : Finset ι)
    {weights : ι → K} (one : ∑ i ∈ s, weights i = 1) (points : ι → V) :
    f (∑ i ∈ s, weights i • points i) = ∑ i ∈ s, weights i * f (points i) := by
  have parts : ∀ v, f v = f.linear v + f 0 := fun v => congrFun f.decomp v
  rw [parts, map_sum]
  simp only [map_smul, smul_eq_mul]
  rw [Finset.sum_congr rfl fun i _ => congrArg (weights i * ·) (parts (points i))]
  simp only [mul_add]
  rw [Finset.sum_add_distrib, ← Finset.sum_mul, one, one_mul]

theorem affine_eq (solid : signedVolume corner ≠ 0) (f : (Fin 3 → K) →ᵃ[K] K) :
    ∑ vertex, weight corner vertex point * f (corner vertex) = f point := by
  rw [← affine_sum f Finset.univ (sum_weight solid), sum_weight_smul solid]

theorem weight_unique (solid : signedVolume corner ≠ 0) {weights : Fin 4 → K} (one : ∑ vertex, weights vertex = 1)
    (mean : ∑ vertex, weights vertex • corner vertex = point) (vertex : Fin 4) :
    weights vertex = weight corner vertex point := by
  rw [weight, eq_div_iff solid, ← mean]
  rw [Fin.sum_univ_four] at one
  have first : weights 0 = 1 - weights 1 - weights 2 - weights 3 := by linear_combination one
  fin_cases vertex <;>
    simp [volumeWith, signedVolume_eq, Fin.sum_univ_four, first] <;> ring

variable [LinearOrder K]

/-- A point is on the same side of the plane through a face as the vertex that is not of the face. -/
def InnerSide (corner : Fin 4 → Fin 3 → K) (vertex : Fin 4) (point : Fin 3 → K) : Prop :=
  0 < volumeWith corner vertex point * volumeWith corner vertex (corner vertex)

instance {vertex : Fin 4} : Decidable (InnerSide corner vertex point) := inferInstanceAs (Decidable (0 < _))

theorem innerSide_swap (vertex : Fin 4) :
    InnerSide (corner ∘ Equiv.swap 0 1) vertex point ↔ InnerSide corner (Equiv.swap 0 1 vertex) point := by
  rw [InnerSide, InnerSide, volumeWith_self, volumeWith_self, volumeWith_swap, signedVolume_swap, neg_mul_neg]

variable [IsStrictOrderedRing K]

theorem innerSide_iff {vertex : Fin 4} :
    InnerSide corner vertex point ↔ 0 < weight corner vertex point := by
  rw [InnerSide, volumeWith_self, weight, div_eq_mul_inv, mul_pos_iff, mul_pos_iff, inv_pos, inv_lt_zero]

/-- The points on the inner sides of all the faces are the means of the vertices with positive weights. -/
theorem forall_innerSide_iff (solid : signedVolume corner ≠ 0) : (∀ vertex, InnerSide corner vertex point) ↔
    ∃ weights : Fin 4 → K, (∀ vertex, 0 < weights vertex) ∧ ∑ vertex, weights vertex = 1 ∧
      ∑ vertex, weights vertex • corner vertex = point := by
  constructor
  · intro inner
    exact ⟨fun vertex => weight corner vertex point, fun vertex => innerSide_iff.mp (inner vertex),
      sum_weight solid, sum_weight_smul solid⟩
  · rintro ⟨weights, positive, one, mean⟩ vertex
    rw [innerSide_iff, ← weight_unique solid one mean]
    exact positive vertex

end Weights

end Library.Tetrahedra
