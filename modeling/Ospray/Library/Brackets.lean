import Mathlib.Algebra.Order.Field.Basic
import Mathlib.Tactic.Linarith
import Mathlib.Tactic.Ring
import Ospray.Library.Literals

/-!
# Brackets

An interval brackets a level of a function if the values at its ends lie on different sides
of the level. It is cut where the straight line between the two values passes the level,
and the part is kept whose ends lie on different sides again. The cut is always inside.
-/

namespace Library.Brackets

universe u
variable {K : Type u} [Field K] [LinearOrder K]

/-- An interval, and values at its ends. -/
structure Bracket (K : Type u) where
  left : K
  right : K
  leftValue : K
  rightValue : K

/-- The interval of a function. -/
def between (f : K → K) (left right : K) : Bracket K := ⟨left, right, f left, f right⟩

/-- Two differences do not have opposite signs. -/
def sameSign (first second : K) : Bool := first * second ≥ 0

/-- Where the line between the values passes a level. -/
def cut (level : K) (bracket : Bracket K) : K :=
  bracket.left + (bracket.right - bracket.left) *
    ((level - bracket.leftValue) / (bracket.rightValue - bracket.leftValue))

/-- Keep the part on whose ends the values lie on different sides. -/
def narrow (f : K → K) (level : K) (bracket : Bracket K) : Bracket K :=
  let point := cut level bracket
  let value := f point
  if sameSign (value - level) (bracket.leftValue - level) then
    { bracket with left := point, leftValue := value }
  else { bracket with right := point, rightValue := value }

/-- A bracket of a level of a function; the value at the left end may be the level. -/
structure Surrounds (f : K → K) (level : K) (bracket : Bracket K) : Prop where
  start : bracket.leftValue = f bracket.left
  ordered : bracket.left < bracket.right
  apart : bracket.rightValue ≠ level
  opposite : (bracket.leftValue - level) * (bracket.rightValue - level) ≤ 0

variable [IsStrictOrderedRing K] {f : K → K} {level : K} {bracket : Bracket K}

/-- A level lies strictly between two values if and only if they are on different sides of it. -/
theorem sameSign_iff {first second : K} : sameSign (first - level) (second - level) = false ↔
    first < level ∧ level < second ∨ second < level ∧ level < first := by
  rw [sameSign, decide_eq_false_iff_not, ge_iff_le, not_le, mul_neg_iff]
  simp only [sub_pos, sub_neg]
  constructor
  · rintro (⟨low, high⟩ | ⟨low, high⟩)
    · exact .inr ⟨high, low⟩
    · exact .inl ⟨low, high⟩
  · rintro (⟨low, high⟩ | ⟨low, high⟩)
    · exact .inr ⟨low, high⟩
    · exact .inl ⟨high, low⟩

/-- How far the cut is from the left end, as a part of the whole. -/
theorem fraction_mem {first second : K} (apart : second ≠ level)
    (opposite : (first - level) * (second - level) ≤ 0) :
    0 ≤ (level - first) / (second - first) ∧ (level - first) / (second - first) < 1 ∧
      (first ≠ level → 0 < (level - first) / (second - first)) := by
  obtain above | below := lt_or_gt_of_ne apart
  · have low : level ≤ first := by
      by_contra less
      have positive := mul_pos_of_neg_of_neg (sub_neg.mpr (not_le.mp less)) (sub_neg.mpr above)
      exact absurd opposite (not_le.mpr positive)
    have gap : second - first < 0 := by linarith
    refine ⟨div_nonneg_of_nonpos (by linarith) gap.le, (div_lt_one_of_neg gap).mpr (by linarith), ?_⟩
    intro distinct
    have strict := lt_of_le_of_ne low (Ne.symm distinct)
    exact div_pos_of_neg_of_neg (by linarith) gap
  · have high : first ≤ level := by
      by_contra greater
      have positive := mul_pos (sub_pos.mpr (not_le.mp greater)) (sub_pos.mpr below)
      exact absurd opposite (not_le.mpr positive)
    have gap : 0 < second - first := by linarith
    refine ⟨div_nonneg (by linarith) gap.le, (div_lt_one gap).mpr (by linarith), ?_⟩
    intro distinct
    have strict := lt_of_le_of_ne high distinct
    exact div_pos (by linarith) gap

theorem cut_mem (surrounds : Surrounds f level bracket) :
    bracket.left ≤ cut level bracket ∧ cut level bracket < bracket.right ∧
      (bracket.leftValue ≠ level → bracket.left < cut level bracket) := by
  obtain ⟨low, high, strict⟩ := fraction_mem surrounds.apart surrounds.opposite
  have width := sub_pos.mpr surrounds.ordered
  rw [cut]
  generalize (level - bracket.leftValue) / (bracket.rightValue - bracket.leftValue) = fraction at *
  refine ⟨?_, ?_, fun distinct => ?_⟩
  · have product := mul_nonneg width.le low
    linarith
  · have product := mul_lt_mul_of_pos_left high width
    linarith
  · have product := mul_pos width (strict distinct)
    linarith

/-- What is kept is a bracket inside the old one. -/
theorem narrow_surrounds (surrounds : Surrounds f level bracket) :
    Surrounds f level (narrow f level bracket) ∧ bracket.left ≤ (narrow f level bracket).left ∧
      (narrow f level bracket).right ≤ bracket.right := by
  obtain ⟨low, high, strict⟩ := cut_mem surrounds
  simp only [narrow]
  by_cases same : sameSign (f (cut level bracket) - level) (bracket.leftValue - level) = true
  · rw [if_pos same]
    have product := of_decide_eq_true same
    refine ⟨⟨rfl, high, surrounds.apart, ?_⟩, low, le_rfl⟩
    change (f (cut level bracket) - level) * (bracket.rightValue - level) ≤ 0
    by_cases equal : bracket.leftValue = level
    · -- the cut is the left end
      have cut_ : cut level bracket = bracket.left := by
        rw [cut, equal, sub_self, zero_div, mul_zero, add_zero]
      rw [cut_, ← surrounds.start]
      exact surrounds.opposite
    · have distinct := sub_ne_zero.mpr equal
      obtain negative | positive := lt_or_gt_of_ne distinct
      · have right := nonneg_of_mul_nonpos_right surrounds.opposite negative
        exact mul_nonpos_of_nonpos_of_nonneg (nonpos_of_mul_nonneg_left product negative) right
      · have right := nonpos_of_mul_nonpos_right surrounds.opposite positive
        exact mul_nonpos_of_nonneg_of_nonpos (nonneg_of_mul_nonneg_left product positive) right
  · rw [if_neg same]
    have negative := not_le.mp fun nonneg => same (decide_eq_true nonneg)
    have distinct : bracket.leftValue ≠ level := by
      intro equal
      rw [equal, sub_self, mul_zero] at negative
      exact lt_irrefl _ negative
    refine ⟨⟨surrounds.start, strict distinct, ?_, ?_⟩, le_rfl, high.le⟩
    · intro equal
      change f (cut level bracket) = level at equal
      rw [equal, sub_self, zero_mul] at negative
      exact lt_irrefl _ negative
    · rw [mul_comm]
      exact negative.le

theorem iterate_surrounds (surrounds : Surrounds f level bracket) (cuts : Nat) :
    Surrounds f level ((narrow f level)^[cuts] bracket) ∧
      bracket.left ≤ ((narrow f level)^[cuts] bracket).left ∧
      ((narrow f level)^[cuts] bracket).right ≤ bracket.right := by
  induction cuts generalizing bracket with
  | zero => exact ⟨surrounds, le_rfl, le_rfl⟩
  | succ cuts inductionHypothesis =>
    obtain ⟨narrower, left, right⟩ := narrow_surrounds surrounds
    obtain ⟨last, leftLast, rightLast⟩ := inductionHypothesis narrower
    exact ⟨last, left.trans leftLast, rightLast.trans right⟩

theorem surrounds_between {left right : K} (ordered : left ≤ right)
    (differs : sameSign (f left - level) (f right - level) = false) :
    Surrounds f level (between f left right) := by
  have negative := not_le.mp (of_decide_eq_false differs)
  refine ⟨rfl, lt_of_le_of_ne ordered ?_, ?_, negative.le⟩
  · intro equal
    change left = right at equal
    subst equal
    exact absurd (mul_self_nonneg (f left - level)) (not_le.mpr negative)
  · intro equal
    change f right = level at equal
    rw [equal, sub_self, mul_zero] at negative
    exact lt_irrefl _ negative

end Library.Brackets
