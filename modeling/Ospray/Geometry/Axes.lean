import Mathlib.Tactic.Abel
import Mathlib.Tactic.LinearCombination
import Mathlib.Tactic.Ring
import Ospray.Geometry.Rays

/-!
# Rays and axes

The points of a ray, seen from an axis: a coordinate along the axis, and the part that is
perpendicular to it. The square of the distance from the axis is a parabola along the ray, whose
vertex is where the ray is closest.
-/

namespace Ospray.Geometry

variable {s d f n w : Vec3 ℝ}

theorem Ray.point_sub (v0 : Vec3 ℝ) (ray : Ray ℝ) (t : ℝ) : ray.point t - v0 = t • ray.dir - (v0 - ray.org) := by
  rw [Ray.point]
  abel

theorem dot_cross_cross (s d n : Vec3 ℝ) :
    dot (cross s d) (cross s n) = dot s s * dot d n - dot s n * dot s d := by
  simp only [dot, cross, Matrix.cons_val_zero, Matrix.cons_val_one, Matrix.cons_val]
  ring

theorem dot_comm (a b : Vec3 ℝ) : dot a b = dot b a := by
  simp only [dot]
  ring

theorem dot_sub (a b c : Vec3 ℝ) : dot a (b - c) = dot a b - dot a c := by
  simp only [dot, Pi.sub_apply]
  ring

theorem dot_smul (a : Vec3 ℝ) (factor : ℝ) (b : Vec3 ℝ) : dot a (factor • b) = factor * dot a b := by
  simp only [dot, Pi.smul_apply, smul_eq_mul]
  ring

theorem sub_dot (a b c : Vec3 ℝ) : dot (a - b) c = dot a c - dot b c := by
  rw [dot_comm, dot_sub, dot_comm c, dot_comm c]

theorem smul_dot (factor : ℝ) (a b : Vec3 ℝ) : dot (factor • a) b = factor * dot a b := by
  rw [dot_comm, dot_smul, dot_comm]

/-- The coordinate of a point along an axis, from one end to the other. -/
noncomputable def axial (s w : Vec3 ℝ) : ℝ := dot s w / dot s s

theorem distance_axis (axis : 0 < dot s s) (u : ℝ) :
    dot (w - u • s) (w - u • s) * dot s s =
      dot (cross s w) (cross s w) + (u - axial s w) * (u - axial s w) * (dot s s * dot s s) := by
  have along : axial s w * dot s s = dot s w := div_mul_cancel₀ _ axis.ne'
  rw [dot_cross_cross]
  simp only [sub_dot, dot_sub, dot_smul, smul_dot, dot_comm w s]
  linear_combination (2 * u * dot s s - axial s w * dot s s - dot s w) * along

theorem eq_axial_iff (axis : 0 < dot s s) (u : ℝ) : dot s (w - u • s) = 0 ↔ u = axial s w := by
  rw [dot_sub, dot_smul, axial, sub_eq_zero, eq_div_iff axis.ne', eq_comm]

theorem cross_sq (apart : dot (cross s d) (cross s d) ≠ 0) (t : ℝ) :
    let ts := dot (cross s d) (cross s f) * (1 / dot (cross s d) (cross s d))
    let perp := cross s (f - ts • d)
    dot (cross s (t • d - f)) (cross s (t • d - f)) =
      (t - ts) * (t - ts) * dot (cross s d) (cross s d) + dot perp perp := by
  intro ts perp
  have vertex : ts * dot (cross s d) (cross s d) = dot (cross s d) (cross s f) := by
    rw [mul_assoc, one_div_mul_cancel apart, mul_one]
  rw [dot_cross_cross, dot_cross_cross] at vertex
  clear_value ts
  simp only [perp, dot_cross_cross, sub_dot, dot_sub, dot_smul, smul_dot, dot_comm f d]
  linear_combination (2 * t - 2 * ts) * vertex

theorem cross_sub_smul (s d f : Vec3 ℝ) (t : ℝ) : cross s (t • d - f) = t • cross s d - cross s f := by
  funext i
  simp only [cross, Pi.sub_apply, Pi.smul_apply, smul_eq_mul]
  match i with
  | 0 => exact (by ring : s 1 * (t * d 2 - f 2) - s 2 * (t * d 1 - f 1) =
      t * (s 1 * d 2 - s 2 * d 1) - (s 1 * f 2 - s 2 * f 1))
  | 1 => exact (by ring : s 2 * (t * d 0 - f 0) - s 0 * (t * d 2 - f 2) =
      t * (s 2 * d 0 - s 0 * d 2) - (s 2 * f 0 - s 0 * f 2))
  | 2 => exact (by ring : s 0 * (t * d 1 - f 1) - s 1 * (t * d 0 - f 0) =
      t * (s 0 * d 1 - s 1 * d 0) - (s 0 * f 1 - s 1 * f 0))

theorem cross_eq_zero (parallel : dot (cross s d) (cross s d) = 0) : cross s d = 0 := by
  by_contra other
  exact (dot_self_pos other).ne' parallel

theorem dot_of_parallel (axis : 0 < dot s s) (parallel : dot (cross s d) (cross s d) = 0) (perpendicular : dot s n = 0) :
    dot d n = 0 := by
  have nothing := cross_eq_zero parallel
  have product := dot_cross_cross s d n
  rw [nothing, perpendicular, zero_mul, sub_zero] at product
  have zero : dot (0 : Vec3 ℝ) (cross s n) = 0 := by simp [dot]
  exact (mul_eq_zero.mp (product.symm.trans zero)).resolve_left axis.ne'

/-- Where the coordinate is zero and one. -/
theorem axial_mem_iff (axis : 0 < dot s s) (oblique : dot s d ≠ 0) (t : ℝ) :
    let tA := dot s f * (1 / dot s d)
    let tB := tA + dot s s * (1 / dot s d)
    (axial s (t • d - f) = 0 ↔ t = tA) ∧ (axial s (t • d - f) = 1 ↔ t = tB) ∧
      (0 ≤ axial s (t • d - f) ∧ axial s (t • d - f) ≤ 1 ↔ min tA tB ≤ t ∧ t ≤ max tA tB) := by
  intro tA tB
  have unit : dot s d * (1 / dot s d) = 1 := mul_one_div_cancel oblique
  have value : dot s (t • d - f) = t * dot s d - dot s f := by rw [dot_sub, dot_smul]
  have fromA : t * dot s d - dot s f = (t - tA) * dot s d := by
    simp only [tA]
    linear_combination dot s f * unit
  have fromB : t * dot s d - dot s f - dot s s = (t - tB) * dot s d := by
    simp only [tB, tA]
    linear_combination (dot s f + dot s s) * unit
  rw [axial, value]
  refine ⟨?_, ?_, ?_⟩
  · rw [div_eq_zero_iff, or_iff_left axis.ne', fromA, mul_eq_zero, or_iff_left oblique, sub_eq_zero]
  · rw [div_eq_one_iff_eq axis.ne', ← sub_eq_zero, fromB, mul_eq_zero, or_iff_left oblique, sub_eq_zero]
  · have low : 0 ≤ (t * dot s d - dot s f) / dot s s ↔ 0 ≤ (t - tA) * dot s d := by
      rw [le_div_iff₀ axis, zero_mul, fromA]
    have high : (t * dot s d - dot s f) / dot s s ≤ 1 ↔ 0 ≤ (tB - t) * dot s d := by
      rw [div_le_one axis, ← sub_nonpos, fromB, ← neg_sub tB, neg_mul, neg_nonpos]
    rw [low, high]
    obtain forward | backward := lt_or_gt_of_ne oblique.symm
    · have ordered : tA ≤ tB := le_add_of_nonneg_right (mul_nonneg axis.le (one_div_nonneg.mpr forward.le))
      rw [min_eq_left ordered, max_eq_right ordered, mul_nonneg_iff_of_pos_right forward,
        mul_nonneg_iff_of_pos_right forward, sub_nonneg, sub_nonneg]
    · have ordered : tB ≤ tA := add_le_of_nonpos_right
        (mul_nonpos_of_nonneg_of_nonpos axis.le (one_div_nonpos.mpr backward.le))
      rw [min_eq_right ordered, max_eq_left ordered, and_comm, ← neg_mul_neg, mul_nonneg_iff_of_pos_right
        (neg_pos.mpr backward), ← neg_mul_neg (t - tA), mul_nonneg_iff_of_pos_right (neg_pos.mpr backward), neg_sub,
        neg_sub, sub_nonneg, sub_nonneg]

theorem between {a b u : ℝ} (low : 0 ≤ u) (high : u ≤ 1) : min a b ≤ a + u * (b - a) ∧ a + u * (b - a) ≤ max a b := by
  obtain ordered | ordered := le_total a b
  · rw [min_eq_left ordered, max_eq_right ordered]
    constructor
    · exact le_add_of_nonneg_right (mul_nonneg low (sub_nonneg.mpr ordered))
    · linarith [mul_le_of_le_one_left (sub_nonneg.mpr ordered) high]
  · rw [min_eq_right ordered, max_eq_left ordered]
    constructor
    · linarith [mul_le_of_le_one_left (sub_nonneg.mpr ordered) high]
    · linarith [mul_nonneg low (sub_nonneg.mpr ordered)]

/-- A vector that is perpendicular to the axis is short in the direction of the axis. -/
theorem component_le_of_perpendicular (perpendicular : dot s n = 0) :
    n 0 * n 0 * dot s s ≤ dot n n * (s 1 * s 1 + s 2 * s 2) ∧
      n 1 * n 1 * dot s s ≤ dot n n * (s 0 * s 0 + s 2 * s 2) ∧
      n 2 * n 2 * dot s s ≤ dot n n * (s 0 * s 0 + s 1 * s 1) := by
  simp only [dot] at perpendicular ⊢
  refine ⟨?_, ?_, ?_⟩
  · linear_combination mul_self_nonneg (n 1 * s 2 - n 2 * s 1) +
      (s 0 * n 0 - s 1 * n 1 - s 2 * n 2) * perpendicular
  · linear_combination mul_self_nonneg (n 0 * s 2 - n 2 * s 0) +
      (s 1 * n 1 - s 0 * n 0 - s 2 * n 2) * perpendicular
  · linear_combination mul_self_nonneg (n 0 * s 1 - n 1 * s 0) +
      (s 2 * n 2 - s 0 * n 0 - s 1 * n 1) * perpendicular

end Ospray.Geometry
