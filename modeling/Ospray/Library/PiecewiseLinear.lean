import Mathlib.Algebra.Order.BigOperators.Group.List
import Mathlib.Algebra.Order.Floor.Ring
import Mathlib.Algebra.Order.Group.MinMax
import Mathlib.Data.Finset.Max
import Mathlib.Order.Bounds.Basic
import Mathlib.Order.Interval.Finset.Defs
import Mathlib.Data.Int.Interval
import Mathlib.Tactic.Linarith
import Mathlib.Tactic.Ring
import Ospray.Library.Literals

/-!
# Piecewise linear functions

Between the entries of a table, which stand at the integers, a function is interpolated
linearly. On an interval it is bounded by its values at the ends and the entries between
them, and takes its least and its greatest value there. So does the mean of any of these.
-/

namespace Library.PiecewiseLinear

universe u
variable {K : Type u} [Field K] [LinearOrder K]

section

variable [IsStrictOrderedRing K] {place first last bound : K}

theorem le_line {base slope : K} (firstAbove : bound ≤ base + first * slope) (lastAbove : bound ≤ base + last * slope)
    (low : first ≤ place) (high : place ≤ last) : bound ≤ base + place * slope := by
  obtain rises | falls := le_total 0 slope
  · have more := mul_le_mul_of_nonneg_right low rises
    linarith
  · have more := mul_le_mul_of_nonpos_right high falls
    linarith

/-- The mean of some values is not below a bound of them, -/
theorem le_mean {values : List K} (some_ : values ≠ []) (above : ∀ value ∈ values, bound ≤ value) :
    bound ≤ values.sum / values.length := by
  have positive : (0 : K) < values.length := Nat.cast_pos.mpr (List.length_pos_iff.mpr some_)
  rw [le_div_iff₀' positive, ← nsmul_eq_mul]
  exact List.card_nsmul_le_sum values bound above

/-- and not above one. -/
theorem mean_le {values : List K} (some_ : values ≠ []) (below : ∀ value ∈ values, value ≤ bound) :
    values.sum / values.length ≤ bound := by
  have positive : (0 : K) < values.length := Nat.cast_pos.mpr (List.length_pos_iff.mpr some_)
  rw [div_le_iff₀' positive, ← nsmul_eq_mul]
  exact List.sum_le_card_nsmul values bound below

end

variable [FloorRing K]

/-- The value at a place between the entries of a table. -/
def interpolate (entry : ℤ → K) (place : K) : K :=
  (1 - Int.fract place) * entry ⌊place⌋ + Int.fract place * entry (⌊place⌋ + 1)

theorem interpolate_neg (entry : ℤ → K) (place : K) :
    interpolate (fun index => -entry index) place = -interpolate entry place := by
  rw [interpolate, interpolate]
  ring

variable [IsStrictOrderedRing K] {entry : ℤ → K} {place first last bound : K}

@[simp] theorem interpolate_intCast (entry : ℤ → K) (index : ℤ) : interpolate entry index = entry index := by
  rw [interpolate, Int.fract_intCast, Int.floor_intCast, sub_zero, one_mul, zero_mul, add_zero]

theorem interpolate_cell {index : ℤ} (low : (index : K) ≤ place) (high : place ≤ index + 1) :
    interpolate entry place = entry index + (place - index) * (entry (index + 1) - entry index) := by
  obtain rfl | less := high.eq_or_lt
  · have next : ((index : K) + 1) = ((index + 1 : ℤ) : K) := by rw [Int.cast_add, Int.cast_one]
    rw [next, interpolate_intCast, ← next]
    ring
  · have floor : ⌊place⌋ = index := Int.floor_eq_iff.mpr ⟨low, less⟩
    rw [interpolate, Int.fract, floor]
    ring

/-- A bound of the ends and of the entries between is one of all values. -/
theorem le_interpolate (firstAbove : bound ≤ interpolate entry first) (lastAbove : bound ≤ interpolate entry last)
    (inner : ∀ index : ℤ, first ≤ index → index ≤ last → bound ≤ entry index) (low : first ≤ place)
    (high : place ≤ last) : bound ≤ interpolate entry place := by
  have floor := Int.floor_le place
  have next := (Int.lt_floor_add_one place).le
  have lowAbove : bound ≤ interpolate entry (max first ⌊place⌋) := by
    obtain before | behind := le_total first (⌊place⌋ : K)
    · rw [max_eq_right before, interpolate_intCast]
      exact inner _ before (floor.trans high)
    · rwa [max_eq_left behind]
  have highAbove : bound ≤ interpolate entry (min last (⌊place⌋ + 1)) := by
    obtain before | behind := le_total last ((⌊place⌋ : K) + 1)
    · rwa [min_eq_left before]
    · have index : ((⌊place⌋ : K) + 1) = ((⌊place⌋ + 1 : ℤ) : K) := by rw [Int.cast_add, Int.cast_one]
      rw [min_eq_right behind, index, interpolate_intCast]
      rw [index] at next behind
      exact inner _ (low.trans next) behind
  have cellLow : max first (⌊place⌋ : K) ≤ place := max_le low floor
  have cellHigh : place ≤ min last ((⌊place⌋ : K) + 1) := le_min high next
  rw [interpolate_cell (le_max_right _ _) (cellLow.trans next)] at lowAbove
  rw [interpolate_cell (floor.trans cellHigh) (min_le_right _ _)] at highAbove
  rw [interpolate_cell floor next]
  exact le_line lowAbove highAbove (sub_le_sub_right cellLow _) (sub_le_sub_right cellHigh _)

/-- On an interval there is a least value. -/
theorem exists_isLeast (entry : ℤ → K) (ordered : first ≤ last) :
    ∃ lowest, IsLeast (interpolate entry '' Set.Icc first last) lowest := by
  -- the ends and the integers between them
  let places : Finset K := {first, last} ∪ (Finset.Icc ⌈first⌉ ⌊last⌋).image Int.cast
  have ends : first ∈ places ∧ last ∈ places := by
    constructor <;> simp [places]
  obtain ⟨place, listed, least⟩ := places.exists_min_image (interpolate entry) ⟨first, ends.1⟩
  have inside : place ∈ Set.Icc first last := by
    simp only [places, Finset.mem_union, Finset.mem_insert, Finset.mem_singleton, Finset.mem_image,
      Finset.mem_Icc] at listed
    obtain (rfl | rfl) | ⟨index, ⟨low, high⟩, rfl⟩ := listed
    · exact ⟨le_rfl, ordered⟩
    · exact ⟨ordered, le_rfl⟩
    · exact ⟨Int.ceil_le.mp low, Int.le_floor.mp high⟩
  refine ⟨interpolate entry place, ⟨place, inside, rfl⟩, ?_⟩
  rintro value ⟨other, ⟨low, high⟩, rfl⟩
  refine le_interpolate (least _ ends.1) (least _ ends.2) (fun index lowIndex highIndex => ?_) low high
  rw [← interpolate_intCast entry index]
  apply least _
  simp only [places, Finset.mem_union, Finset.mem_image, Finset.mem_Icc]
  exact .inr ⟨index, ⟨Int.ceil_le.mpr lowIndex, Int.le_floor.mpr highIndex⟩, rfl⟩

theorem exists_isGreatest (entry : ℤ → K) (ordered : first ≤ last) :
    ∃ highest, IsGreatest (interpolate entry '' Set.Icc first last) highest := by
  obtain ⟨lowest, ⟨place, inside, rfl⟩, least⟩ := exists_isLeast (fun index => -entry index) ordered
  rw [interpolate_neg] at least
  refine ⟨interpolate entry place, ⟨place, inside, rfl⟩, ?_⟩
  rintro value ⟨other, otherInside, rfl⟩
  have less := least ⟨other, otherInside, rfl⟩
  rw [interpolate_neg] at less
  exact neg_le_neg_iff.mp less

/-- Within a cell, the least value is at one of the ends, -/
theorem isLeast_cell (entry : ℤ → K) (ordered : first ≤ last) (same : ⌊first⌋ = ⌊last⌋) :
    IsLeast (interpolate entry '' Set.Icc first last) (min (interpolate entry first) (interpolate entry last)) := by
  constructor
  · obtain less | less := le_total (interpolate entry first) (interpolate entry last)
    · rw [min_eq_left less]
      exact ⟨first, ⟨le_rfl, ordered⟩, rfl⟩
    · rw [min_eq_right less]
      exact ⟨last, ⟨ordered, le_rfl⟩, rfl⟩
  · rintro value ⟨place, ⟨low, high⟩, rfl⟩
    refine le_interpolate (min_le_left _ _) (min_le_right _ _) (fun index after before => ?_) low high
    -- no integer is in between, but perhaps the first end
    have reached : (index : K) ≤ first := by
      refine le_trans (Int.cast_le.mpr ?_) (Int.floor_le first)
      rw [same]
      exact Int.le_floor.mpr before
    rw [← interpolate_intCast entry index, le_antisymm reached after]
    exact min_le_left _ _

/-- and the greatest too. -/
theorem isGreatest_cell (entry : ℤ → K) (ordered : first ≤ last) (same : ⌊first⌋ = ⌊last⌋) :
    IsGreatest (interpolate entry '' Set.Icc first last) (max (interpolate entry first) (interpolate entry last)) := by
  constructor
  · obtain less | less := le_total (interpolate entry first) (interpolate entry last)
    · rw [max_eq_right less]
      exact ⟨last, ⟨ordered, le_rfl⟩, rfl⟩
    · rw [max_eq_left less]
      exact ⟨first, ⟨le_rfl, ordered⟩, rfl⟩
  · rintro value ⟨place, inside, rfl⟩
    have less := (isLeast_cell (fun index => -entry index) ordered same).2 ⟨place, inside, rfl⟩
    rw [interpolate_neg, interpolate_neg, interpolate_neg, min_neg_neg] at less
    exact neg_le_neg_iff.mp less

end Library.PiecewiseLinear
