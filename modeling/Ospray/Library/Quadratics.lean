import Mathlib.Analysis.Real.Sqrt
import Mathlib.Tactic.FieldSimp
import Mathlib.Tactic.Linarith
import Ospray.Library.Literals

/-!
# Quadratic equations with a known vertex

A parabola with its vertex at a known place takes a value at two places that are equally far from
the vertex, and is below the value between them.
-/

namespace Library.Quadratics

variable {factor value vertex place : ℝ}

theorem half_mul_half (positive : 0 < factor) (nonneg : 0 ≤ value) :
    √(value * (1 / factor)) * √(value * (1 / factor)) * factor = value := by
  rw [Real.mul_self_sqrt (mul_nonneg nonneg (one_div_nonneg.mpr positive.le)), mul_assoc,
    one_div_mul_cancel positive.ne', mul_one]

theorem eq_iff (positive : 0 < factor) (nonneg : 0 ≤ value) :
    (place - vertex) * (place - vertex) * factor = value ↔
      place = vertex - √(value * (1 / factor)) ∨ place = vertex + √(value * (1 / factor)) := by
  have half := half_mul_half positive nonneg
  constructor
  · intro equal
    have squares := mul_right_cancel₀ positive.ne' (equal.trans half.symm)
    obtain plus | minus := mul_self_eq_mul_self_iff.mp squares
    · exact Or.inr (by linarith)
    · exact Or.inl (by linarith)
  · rintro (rfl | rfl)
    · rw [sub_sub_cancel_left, neg_mul_neg, half]
    · rw [add_sub_cancel_left, half]

theorem le_iff (positive : 0 < factor) (nonneg : 0 ≤ value) :
    (place - vertex) * (place - vertex) * factor ≤ value ↔
      vertex - √(value * (1 / factor)) ≤ place ∧ place ≤ vertex + √(value * (1 / factor)) := by
  have half := half_mul_half positive nonneg
  have root := Real.sqrt_nonneg (value * (1 / factor))
  have squares : (place - vertex) * (place - vertex) * factor ≤ value ↔ |place - vertex| ≤ √(value * (1 / factor)) := by
    conv_lhs => rw [← half, mul_le_mul_iff_left₀ positive, ← sq, ← sq]
    rw [sq_le_sq, abs_of_nonneg root]
  rw [squares, abs_le]
  constructor
  · rintro ⟨low, high⟩
    exact ⟨by linarith, by linarith⟩
  · rintro ⟨low, high⟩
    exact ⟨by linarith, by linarith⟩

end Library.Quadratics
