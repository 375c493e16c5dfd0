import Mathlib.Algebra.Order.Field.Basic
import Mathlib.Analysis.Convex.Basic
import Mathlib.LinearAlgebra.AffineSpace.AffineMap
import Mathlib.Tactic.Linarith
import Ospray.Library.Literals

/-!
# Interpolation between control points

Control points have increasing positions and values in a vector space. Between two neighbors
the interpolant is linear, left of the first point and right of the last it is constant. The
places where two of these descriptions apply are the control points, and there they agree, so
that one of them is enough to determine the interpolant.
-/

namespace Library.ControlPoints

universe u v
variable {K : Type u} {E : Type v} [Field K] [LinearOrder K] [IsStrictOrderedRing K] [AddCommGroup E] [Module K E]

/-- A result is the value of the interpolant at a place. -/
structure InterpolatesAt (position : ℕ → K) (value : ℕ → E) (last : ℕ) (place : K) (result : E) : Prop where
  before : place ≤ position 0 → result = value 0
  between : ∀ index < last, position index ≤ place → place ≤ position (index + 1) →
    result = AffineMap.lineMap (value index) (value (index + 1))
      ((place - position index) / (position (index + 1) - position index))
  after : position last ≤ place → result = value last

/-- The positions are strictly increasing. -/
def Increasing (position : ℕ → K) (last : ℕ) : Prop :=
  ∀ first second, first < second → second ≤ last → position first < position second

variable {position : ℕ → K} {value : ℕ → E} {last index other : ℕ} {place : K} {result : E}

omit [Field K] [IsStrictOrderedRing K] in
theorem Increasing.index_le (increasing : Increasing position last) (inside : index ≤ last)
    (ordered : position index ≤ position other) : index ≤ other := by
  by_contra less
  exact (increasing other index (not_le.mp less) inside).not_ge ordered

omit [LinearOrder K] [IsStrictOrderedRing K] in
theorem lineMap_left (value : ℕ → E) (width : K) (same : place = position index) :
    AffineMap.lineMap (value index) (value (index + 1)) ((place - position index) / width) = value index := by
  rw [same, sub_self, zero_div, AffineMap.lineMap_apply_zero]

theorem lineMap_right (increasing : Increasing position last) (value : ℕ → E) (inside : index < last)
    (same : place = position (index + 1)) : AffineMap.lineMap (value index) (value (index + 1))
      ((place - position index) / (position (index + 1) - position index)) = value (index + 1) := by
  have wide : position (index + 1) - position index ≠ 0 :=
    (sub_pos.mpr (increasing index (index + 1) (Nat.lt_succ_self _) inside)).ne'
  rw [same, div_self wide, AffineMap.lineMap_apply_one]

omit [IsStrictOrderedRing K] in
/-- Left of the first point, -/
theorem interpolatesAt_before (increasing : Increasing position last) (low : place ≤ position 0) :
    InterpolatesAt position value last place (value 0) where
  before _ := rfl
  between index inside above _ := by
    obtain rfl : index = 0 := Nat.le_zero.mp (increasing.index_le inside.le (above.trans low))
    exact (lineMap_left value _ (le_antisymm low above)).symm
  after high := by
    obtain rfl : last = 0 := Nat.le_zero.mp (increasing.index_le le_rfl (high.trans low))
    rfl

/-- right of the last one, -/
theorem interpolatesAt_after (increasing : Increasing position last) (high : position last ≤ place) :
    InterpolatesAt position value last place (value last) where
  before low := by
    obtain rfl : last = 0 := Nat.le_zero.mp (increasing.index_le le_rfl (high.trans low))
    rfl
  between index inside _ below := by
    have reached : last ≤ index + 1 := increasing.index_le le_rfl (high.trans below)
    obtain rfl : last = index + 1 := le_antisymm reached inside
    exact (lineMap_right increasing value inside (le_antisymm below high)).symm
  after _ := rfl

/-- and in each cell, the interpolant is as described. -/
theorem interpolatesAt_between (increasing : Increasing position last) (inside : index < last)
    (low : position index ≤ place) (high : place ≤ position (index + 1)) :
    InterpolatesAt position value last place (AffineMap.lineMap (value index) (value (index + 1))
      ((place - position index) / (position (index + 1) - position index))) where
  before least := by
    obtain rfl : index = 0 := Nat.le_zero.mp (increasing.index_le inside.le (low.trans least))
    exact lineMap_left value _ (le_antisymm least low)
  between other otherInside otherLow otherHigh := by
    have notBehind : index ≤ other + 1 := increasing.index_le inside.le (low.trans otherHigh)
    have notBefore : other ≤ index + 1 := increasing.index_le otherInside.le (otherLow.trans high)
    obtain rfl | rfl | rfl : index = other + 1 ∨ index = other ∨ other = index + 1 := by omega
    · have same := le_antisymm otherHigh low
      rw [lineMap_left value _ same, lineMap_right increasing value otherInside same]
    · rfl
    · have same := le_antisymm high otherLow
      rw [lineMap_left value _ same, lineMap_right increasing value inside same]
  after greatest := by
    have reached : last ≤ index + 1 := increasing.index_le le_rfl (greatest.trans high)
    obtain rfl : last = index + 1 := le_antisymm reached inside
    exact lineMap_right increasing value inside (le_antisymm high greatest)

omit [Field K] [IsStrictOrderedRing K] in
theorem exists_cell (position : ℕ → K) (last : ℕ) (place : K) : place ≤ position 0 ∨ position last ≤ place ∨
    ∃ index < last, position index ≤ place ∧ place ≤ position (index + 1) := by
  induction last with
  | zero => exact (le_total place (position 0)).imp_right .inl
  | succ last inductionHypothesis =>
    obtain low | high | ⟨index, inside, cell⟩ := inductionHypothesis
    · exact .inl low
    · obtain below | above := le_total place (position (last + 1))
      · exact .inr (.inr ⟨last, Nat.lt_succ_self _, high, below⟩)
      · exact .inr (.inl above)
    · exact .inr (.inr ⟨index, Nat.lt_succ_of_lt inside, cell⟩)

omit [IsStrictOrderedRing K] in
theorem InterpolatesAt.unique {another : E} (first : InterpolatesAt position value last place result)
    (second : InterpolatesAt position value last place another) : result = another := by
  obtain low | high | ⟨index, inside, low, high⟩ := exists_cell position last place
  · exact (first.before low).trans (second.before low).symm
  · exact (first.after high).trans (second.after high).symm
  · exact (first.between index inside low high).trans (second.between index inside low high).symm

/-- Every convex set that contains the control values contains the interpolant. -/
theorem InterpolatesAt.mem_convex {values : Set E} (interpolates : InterpolatesAt position value last place result)
    (increasing : Increasing position last) (convex : Convex K values)
    (contained : ∀ index ≤ last, value index ∈ values) : result ∈ values := by
  obtain low | high | ⟨index, inside, low, high⟩ := exists_cell position last place
  · exact interpolates.before low ▸ contained 0 (Nat.zero_le _)
  · exact interpolates.after high ▸ contained last le_rfl
  · have wide : 0 < position (index + 1) - position index :=
      sub_pos.mpr (increasing index (index + 1) (Nat.lt_succ_self _) inside)
    rw [interpolates.between index inside low high]
    refine convex.lineMap_mem (contained index inside.le) (contained (index + 1) inside) ⟨?_, ?_⟩
    · exact div_nonneg (sub_nonneg.mpr low) wide.le
    · rw [div_le_one wide]
      exact sub_le_sub_right high _

end Library.ControlPoints
