import Mathlib.Algebra.Order.Floor.Ring
import Mathlib.Algebra.Order.Field.Basic
import Mathlib.Data.Finset.Max
import Mathlib.Data.Int.ConditionallyCompleteOrder
import Mathlib.Tactic.FieldSimp
import Mathlib.Tactic.LinearCombination
import Mathlib.Tactic.Linarith
import Mathlib.Tactic.Ring
import Ospray.Library.Literals

/-!
# Nested grids

Grids of several widths have their lines through the origin. Each finer grid divides the
cells of the coarser ones. A region belongs to each width, made of cells of that width: the
finer regions lie inside of the coarser ones, and each is made of whole cells of the next
coarser grid. What a point has of the regions from some width on is the same for all points
of a cell, and where two neighboring points differ, the cell of the coarser one begins
between them.
-/

namespace Library.NestedGrids

universe u v
/-! ## Widths -/

section Widths

variable {α : Type v} [LinearOrder α]

/-- A width is the next one above another. -/
def Next (widths : Finset α) (width coarse : α) : Prop := width < coarse ∧ ∀ f ∈ widths, width < f → coarse ≤ f

variable {widths : Finset α} {width coarse : α}

theorem exists_next (member : coarse ∈ widths) (finer : width < coarse) :
    ∃ next ∈ widths, Next widths width next ∧ next ≤ coarse := by
  obtain ⟨next, isNext, least⟩ := (widths.filter (width < ·)).exists_min_image id
    ⟨coarse, Finset.mem_filter.mpr ⟨member, finer⟩⟩
  obtain ⟨among, above⟩ := Finset.mem_filter.mp isNext
  refine ⟨next, among, ⟨above, fun f other beyond => ?_⟩, ?_⟩
  · exact least f (Finset.mem_filter.mpr ⟨other, beyond⟩)
  · exact least coarse (Finset.mem_filter.mpr ⟨member, finer⟩)

theorem exists_before (member : width ∈ widths) (finer : width < coarse) :
    ∃ before ∈ widths, before < coarse ∧ width ≤ before ∧ ∀ f ∈ widths, before < f → coarse ≤ f := by
  obtain ⟨before, isBefore, most⟩ := (widths.filter (· < coarse)).exists_max_image id
    ⟨width, Finset.mem_filter.mpr ⟨member, finer⟩⟩
  obtain ⟨among, below⟩ := Finset.mem_filter.mp isBefore
  refine ⟨before, among, below, most width (Finset.mem_filter.mpr ⟨member, finer⟩), fun f other beyond => ?_⟩
  by_contra above
  exact absurd (most f (Finset.mem_filter.mpr ⟨other, not_le.mp above⟩)) (not_le.mpr beyond)

/-- What holds for a width and the next one, and passes on, holds for a width and any coarser one. The induction is on
the number of coarser widths. -/
theorem induction_coarser {holds : α → α → Prop} (next : ∀ w ∈ widths, ∀ W ∈ widths, Next widths w W → holds w W)
    (trans : ∀ w ∈ widths, ∀ f ∈ widths, ∀ W ∈ widths, holds w f → holds f W → holds w W)
    (fine : width ∈ widths) (wide : coarse ∈ widths) (finer : width < coarse) : holds width coarse := by
  induction count : (widths.filter (width < ·)).card using Nat.strong_induction_on generalizing width with
  | _ count inductionHypothesis =>
    obtain ⟨first, member, isNext, within⟩ := exists_next wide finer
    obtain rfl | more := within.eq_or_lt
    · exact next width fine first wide isNext
    · refine trans width fine first member coarse wide (next width fine first member isNext) ?_
      refine inductionHypothesis _ ?_ member more rfl
      rw [← count]
      apply Finset.card_lt_card
      refine ⟨fun f above => ?_, fun same => ?_⟩
      · obtain ⟨among, beyond⟩ := Finset.mem_filter.mp above
        exact Finset.mem_filter.mpr ⟨among, isNext.1.trans beyond⟩
      · exact absurd (Finset.mem_filter.mp (same (Finset.mem_filter.mpr ⟨member, isNext.1⟩))).2 (lt_irrefl _)

end Widths

variable {ι : Type u} {K : Type v} [Field K] [LinearOrder K] [FloorRing K]

/-! ## Columns -/

/-- The number of the cell of some width that a coordinate is in. -/
def column (width x : K) : ℤ := ⌊x / width⌋

section Columns

variable [IsStrictOrderedRing K] {width x : K} {n : ℤ}

theorem column_eq_iff (positive : 0 < width) : column width x = n ↔ n * width ≤ x ∧ x < (n + 1) * width := by
  rw [column, Int.floor_eq_iff, le_div_iff₀ positive, div_lt_iff₀ positive]

/-- A face is at or below a coordinate, -/
theorem le_column_iff (positive : 0 < width) : n ≤ column width x ↔ n * width ≤ x := by
  rw [column, Int.le_floor, le_div_iff₀ positive]

/-- or above it. -/
theorem column_lt_iff (positive : 0 < width) : column width x < n ↔ x < n * width := by
  rw [column, Int.floor_lt, div_lt_iff₀ positive]

theorem column_mono (positive : 0 < width) : Monotone (column width) :=
  fun _ _ below => Int.floor_le_floor (div_le_div_of_nonneg_right below positive.le)

theorem column_mul (width x : K) (k : ℕ) : column (k * width) x = column width x / k := by
  rw [column, column, ← Int.floor_div_natCast, mul_comm, div_mul_eq_div_div]

/-- A coordinate in a closed cell is in the coarser closed cell around. -/
theorem closed_of_finer {k : ℕ} (positive : 0 < width) (many : 0 < k) {m : ℤ} (inside : n / k = m)
    (low : n * width ≤ x) (high : x ≤ (n + 1) * width) : m * (k * width) ≤ x ∧ x ≤ (m + 1) * (k * width) := by
  have divided := Int.mul_ediv_add_emod n k
  have least := Int.emod_nonneg n (Int.natCast_ne_zero.mpr many.ne')
  have most := Int.emod_lt_of_pos n (Int.natCast_pos.mpr many)
  rw [inside] at divided
  have first : m * k ≤ n := by nlinarith
  have second : n + 1 ≤ (m + 1) * k := by nlinarith
  constructor
  · calc (m : K) * (k * width) = ((m * k : ℤ) : K) * width := by push_cast; ring
      _ ≤ n * width := mul_le_mul_of_nonneg_right (by exact_mod_cast first) positive.le
      _ ≤ x := low
  · calc x ≤ (n + 1) * width := high
      _ = ((n + 1 : ℤ) : K) * width := by push_cast; ring
      _ ≤ ((m + 1) * k : ℤ) * width := mul_le_mul_of_nonneg_right (by exact_mod_cast second) positive.le
      _ = (m + 1) * (k * width) := by push_cast; ring

/-- Where the next cell is in another coarser cell, that one begins with it. -/
theorem boundary_above {k : ℕ} (many : 0 < k) (differs : (n + 1) / k ≠ n / k) :
    (n + 1) / k = n / k + 1 ∧ (n + 1) / k * k = n + 1 := by
  have positive : (0 : ℤ) < k := Int.natCast_pos.mpr many
  have here := Int.mul_ediv_add_emod n k
  have next := Int.mul_ediv_add_emod (n + 1) k
  have least := Int.emod_nonneg n positive.ne'
  have most := Int.emod_lt_of_pos n positive
  have least' := Int.emod_nonneg (n + 1) positive.ne'
  have most' := Int.emod_lt_of_pos (n + 1) positive
  have order : n / k ≤ (n + 1) / k := Int.ediv_le_ediv positive (by omega)
  have more : n / k + 1 ≤ (n + 1) / k := by omega
  have step : k * (n / k + 1) ≤ k * ((n + 1) / k) := mul_le_mul_of_nonneg_left more positive.le
  have unit_ : (n + 1) / k = n / k + 1 := by
    by_contra beyond
    have two : k * (n / k + 2) ≤ k * ((n + 1) / k) := mul_le_mul_of_nonneg_left (by omega) positive.le
    nlinarith
  refine ⟨unit_, ?_⟩
  rw [unit_] at next ⊢
  nlinarith

/-- The middle of a cell. -/
def middle (width : K) (n : ℤ) : K := (n + 1 / 2) * width

theorem column_middle (positive : 0 < width) (n : ℤ) : column width (middle width n) = n := by
  rw [column_eq_iff positive, middle]
  constructor
  · exact mul_le_mul_of_nonneg_right (by linarith) positive.le
  · exact mul_lt_mul_of_pos_right (by linarith) positive

/-- Above a coarser cell's upper face, half of both widths leads from the middle of one cell to that of the other,
and half of the finer width to the face. -/
theorem middle_above {k : ℕ} (many : 0 < k) (differs : (n + 1) / k ≠ n / k) :
    middle width n + 1 / 2 * (width + k * width) = middle (k * width) ((n + 1) / k) ∧
      middle width n + width * (1 / 2) = ((n + 1) / k : ℤ) * (k * width) := by
  have face : (((n + 1) / k : ℤ) : K) * k = n + 1 := by exact_mod_cast (boundary_above many differs).2
  constructor
  · rw [middle, middle]
    linear_combination -width * face
  · rw [middle]
    linear_combination -width * face

theorem middle_below {k : ℕ} (many : 0 < k) (differs : (n - 1) / k ≠ n / k) :
    middle width n - 1 / 2 * (width + k * width) = middle (k * width) ((n - 1) / k) ∧
      middle width n - width * (1 / 2) = (((n - 1) / k : ℤ) + 1) * (k * width) := by
  have above := @boundary_above (n - 1) k many (by rw [sub_add_cancel]; exact differs.symm)
  rw [sub_add_cancel] at above
  have unit_ : ((n / k : ℤ) : K) = ((n - 1) / k : ℤ) + 1 := by exact_mod_cast above.1
  have face : ((n / k : ℤ) : K) * k = n := by exact_mod_cast above.2
  constructor
  · rw [middle, middle]
    linear_combination -width * face + width * k * unit_
  · rw [middle]
    linear_combination -width * face + width * k * unit_

/-- In either direction, half of both widths leads to the middle of the coarser cell, and half of the finer width to a
face of it. -/
theorem middle_toward {k : ℕ} (positive : 0 < width) (many : 0 < k) {toward : ℤ} (either : toward = 1 ∨ toward = -1)
    (differs : (n + toward) / k ≠ n / k) :
    middle width n + 1 / 2 * (width + k * width) * toward = middle (k * width) ((n + toward) / k) ∧
      ((n + toward) / k : ℤ) * (k * width) ≤ middle width n + toward * (width * (1 / 2)) ∧
        middle width n + toward * (width * (1 / 2)) ≤ (((n + toward) / k : ℤ) + 1) * (k * width) := by
  have extent : (0 : K) < k * width := mul_pos (Nat.cast_pos.mpr many) positive
  obtain rfl | rfl := either
  · obtain ⟨center, face⟩ : middle width n + _ = _ ∧ middle width n + _ = _ := middle_above many differs
    rw [Int.cast_one, mul_one, one_mul, center, face]
    exact ⟨rfl, le_rfl, mul_le_mul_of_nonneg_right (by linarith) extent.le⟩
  · obtain ⟨center, face⟩ : middle width n - _ = _ ∧ middle width n - _ = _ := middle_below many differs
    rw [Int.cast_neg, Int.cast_one, mul_neg_one, neg_one_mul, ← sub_eq_add_neg, ← sub_eq_add_neg, ← sub_eq_add_neg,
      center, face]
    exact ⟨rfl, mul_le_mul_of_nonneg_right (by linarith) extent.le, le_rfl⟩

end Columns

/-! ## Cells -/

/-- Two points are in one cell. -/
def SameCell (width : K) (p q : ι → K) : Prop := ∀ axis, column width (p axis) = column width (q axis)

variable {width coarse : K} {p q : ι → K}

theorem SameCell.symm (same : SameCell width p q) : SameCell width q p := fun axis => (same axis).symm

theorem SameCell.coarser [IsStrictOrderedRing K] (same : SameCell width p q) (k : ℕ) : SameCell (k * width) p q := by
  intro axis
  rw [column_mul, column_mul, same axis]

/-! ## Regions -/

section Regions

variable (widths : Finset K) (region : K → (ι → K) → Prop)

/-- The regions of the widths are nested. -/
structure NestedRegions : Prop where
  positive : ∀ w ∈ widths, 0 < w
  divides : ∀ w ∈ widths, ∀ W ∈ widths, Next widths w W → ∃ k : ℕ, W = k * w
  inside : ∀ w ∈ widths, ∀ W ∈ widths, Next widths w W → ∀ p, region w p → region W p
  aligned : ∀ w ∈ widths, ∀ W ∈ widths, Next widths w W → ∀ p q, SameCell W p q → region w p → region w q
  cells : ∀ w ∈ widths, ∀ p q, SameCell w p q → region w p → region w q

/-- The least width from some one on of which a point is in the region. -/
structure Found (least : K) (p : ι → K) (width : K) : Prop where
  member : width ∈ widths
  wide : least ≤ width
  holds : region width p
  first : ∀ f ∈ widths, least ≤ f → region f p → width ≤ f

/-- No finer region holds a point. -/
def Finest (width : K) (p : ι → K) : Prop := ∀ f ∈ widths, region f p → width ≤ f

variable {widths region}

namespace NestedRegions

variable (nested : NestedRegions widths region)
include nested

theorem multiple (fine : width ∈ widths) (wide : coarse ∈ widths) (finer : width < coarse) :
    ∃ k : ℕ, 0 < k ∧ coarse = k * width := by
  have found : ∃ k : ℕ, coarse = k * width := by
    apply induction_coarser nested.divides _ fine wide finer
    rintro w - f - W - ⟨k, rfl⟩ ⟨l, rfl⟩
    exact ⟨l * k, by push_cast; ring⟩
  obtain ⟨k, rfl⟩ := found
  refine ⟨k, Nat.pos_of_ne_zero ?_, rfl⟩
  rintro rfl
  rw [Nat.cast_zero, zero_mul] at wide
  exact absurd (nested.positive 0 wide) (lt_irrefl _)

theorem inside_coarser (fine : width ∈ widths) (wide : coarse ∈ widths) (finer : width ≤ coarse)
    (holds : region width p) : region coarse p := by
  obtain rfl | finer := finer.eq_or_lt
  · exact holds
  · refine @induction_coarser K _ widths width coarse (fun w W => ∀ p, region w p → region W p)
      nested.inside ?_ fine wide finer p holds
    intro w _ f _ W _ first second p inner
    exact second p (first p inner)

theorem finest_same (member : width ∈ widths) (same : SameCell width p q) (finest : Finest widths region width p) :
    Finest widths region width q := by
  intro f finer holds
  by_contra below
  obtain ⟨before, among, lower, above, gap⟩ := exists_before finer (not_le.mp below)
  have inner := nested.aligned before among width member ⟨lower, gap⟩ q p same.symm
    (nested.inside_coarser finer among above holds)
  exact absurd (finest before among inner) (not_le.mpr lower)

theorem finest_of_coarser {least : K} (start : least ∈ widths) (found : Found widths region least p width)
    (coarser : least < width) : Finest widths region width p := by
  intro f member holds
  by_cases below : least ≤ f
  · exact found.first f member below holds
  · have own := nested.inside_coarser member start (not_le.mp below).le holds
    exact absurd (found.first least start le_rfl own) (not_le.mpr coarser)

theorem apart_of_finer {least finer : K} (found : Found widths region least p finer)
    (other : Found widths region least q coarse) (below : finer < coarse) : ¬SameCell coarse p q := by
  intro same
  obtain ⟨before, among, lower, above, gap⟩ := exists_before found.member below
  have inner := nested.aligned before among coarse other.member ⟨lower, gap⟩ p q same
    (nested.inside_coarser found.member among above found.holds)
  exact absurd (other.first before among (found.wide.trans above) inner) (not_le.mpr lower)

variable [IsStrictOrderedRing K]

theorem sameCell_coarser (fine : width ∈ widths) (wide : coarse ∈ widths) (finer : width ≤ coarse)
    (same : SameCell width p q) : SameCell coarse p q := by
  obtain rfl | finer := finer.eq_or_lt
  · exact same
  · obtain ⟨k, -, rfl⟩ := nested.multiple fine wide finer
    exact same.coarser k

theorem region_same (fine : width ∈ widths) (wide : coarse ∈ widths) (finer : width ≤ coarse)
    (same : SameCell width p q) (holds : region coarse p) : region coarse q :=
  nested.cells coarse wide p q (nested.sameCell_coarser fine wide finer same) holds

end NestedRegions

end Regions

end Library.NestedGrids
