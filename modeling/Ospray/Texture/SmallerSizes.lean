import Ospray.Library.SingleFractions
import Ospray.Volume.LastValidPos

/-!
# Smaller sizes

What the fraction of a texture coordinate is scaled by is the value after the size, towards minus
one. The size is rounded first, and beyond `2 ^ 24` the increment of one is not enough to reach
another value, unless the tie is broken the right way.
-/

namespace Ospray.Textures

open Library.SinglePrecision
open Ospray.Amr (nextafter nextafterDelta nextafterDelta_spec nextafter_lt nearest_nonpos)

/-! ## Bounds -/

theorem neg_one_le_delta {a : ℚ} (fuel : Nat) {delta : ℚ} (low : -1 ≤ delta) (nonpositive : delta ≤ 0) :
    -1 ≤ nextafterDelta a fuel delta := by
  induction fuel generalizing delta with
  | zero => exact low
  | succ fuel inductionHypothesis =>
    rw [nextafterDelta]
    split
    · apply inductionHypothesis
      · have rounded : toNearest (-1) ≤ toNearest (delta / 2) := nearest_mono_of_nonpos (by linarith) (by linarith)
        rwa [nearest_neg, nearest_one] at rounded
      · exact nearest_nonpos (by linarith)
    · exact low

theorem nextafter_bounds {a : ℚ} (fits : HasBits a) (one : 1 ≤ a) :
    0 ≤ nextafter a (-1) ∧ nextafter a (-1) ≤ a ∧ HasBits (nextafter a (-1)) := by
  have low := @neg_one_le_delta a 150 (-1) le_rfl (by norm_num)
  obtain ⟨high, -⟩ := @nextafterDelta_spec a 150 (-1) (by norm_num)
  rw [nextafter, if_neg (by linarith : a ≠ -1), if_neg (by linarith : ¬ (-1 : ℚ) > a)]
  have nonnegative : 0 ≤ a + nextafterDelta a 150 (-1) := by linarith
  have below : toNearest (a + nextafterDelta a 150 (-1)) ≤ toNearest a := nearest_mono nonnegative (by linarith)
  rw [nearest_eq_self fits] at below
  exact ⟨nearest_nonneg nonnegative, below, hasBits_nearest _⟩

/-! ## Large sizes -/

theorem add_one_le_of_large {a : ℚ} (fits : HasBits a) (large : 2 ^ 24 < a) : 2 ^ 24 + 1 ≤ a := by
  obtain whole | small := whole_or_small fits
  · rw [← whole] at large ⊢
    have below : (2 ^ 24 : ℤ) < ⌊a⌋ := by exact_mod_cast large
    exact_mod_cast Int.add_one_le_iff.mpr below
  · exact absurd ((le_abs_self a).trans small) (not_le.mpr large)

/-- The value after such a value is what one less is rounded to. -/
theorem nextafter_of_large {a : ℚ} (fits : HasBits a) (large : 2 ^ 24 < a) :
    nextafter a (-1) = toNearest (a - 1) := by
  have next := add_one_le_of_large fits large
  have half : toNearest (-1 / 2) = -1 / 2 := nearest_eq_self ⟨-1, -1, by decide, by decide, by norm_num⟩
  -- half of one is lost
  have lost : toNearest (a + -1 / 2) = a := by
    apply le_antisymm
    · have below : toNearest (a + -1 / 2) ≤ toNearest a := nearest_mono (by linarith) (by linarith)
      rwa [nearest_eq_self fits] at below
    · apply le_nearest_of_near (nearest_eq_self fits) (by linarith) (by linarith)
      have place : 1 ≤ unit (a + -1 / 2) := by
        have low : (2 : ℚ) ^ (24 : ℤ) ≤ |a + -1 / 2| := by
          rw [abs_of_pos (by linarith)]
          norm_num
          linarith
        have bound := le_unit (by linarith : a + -1 / 2 ≠ 0) low
        omega
      have two : (2 : ℚ) ^ (1 : ℤ) ≤ 2 ^ unit (a + -1 / 2) := zpow_le_zpow_right₀ (by norm_num) place
      rw [zpow_one] at two
      linarith
  have start : nextafterDelta a 150 (-1) = -1 := by
    rw [nextafterDelta, half, lost]
    exact if_neg (not_not_intro rfl)
  rw [nextafter, if_neg (by linarith : a ≠ -1), if_neg (by linarith : ¬ (-1 : ℚ) > a), start, ← sub_eq_add_neg]

/-- Beyond `2 ^ 25` one is lost as well. -/
theorem le_nextafter_of_huge {a : ℚ} (fits : HasBits a) (huge : 2 ^ 25 < a) : a ≤ nextafter a (-1) := by
  have next := add_one_le_of_large fits (by linarith)
  rw [nextafter_of_large fits (by linarith)]
  apply le_nearest_of_near (nearest_eq_self fits) (by linarith) (by linarith)
  have whole : 2 ^ 25 ≤ a - 1 := by
    obtain whole | small := whole_or_small fits
    · rw [← whole] at huge ⊢
      have below : (2 ^ 25 : ℤ) < ⌊a⌋ := by exact_mod_cast huge
      have one_less : (2 ^ 25 : ℤ) ≤ ⌊a⌋ - 1 := by omega
      exact_mod_cast one_less
    · have bound := (le_abs_self a).trans small
      linarith
  have place : 2 ≤ unit (a - 1) := by
    have low : (2 : ℚ) ^ (25 : ℤ) ≤ |a - 1| := by
      rw [abs_of_pos (by linarith)]
      exact_mod_cast whole
    have bound := le_unit (by linarith : a - 1 ≠ 0) low
    omega
  have four : (2 : ℚ) ^ (2 : ℤ) ≤ 2 ^ unit (a - 1) := zpow_le_zpow_right₀ (by norm_num) place
  norm_num at four
  linarith

theorem le_nextafter_of_four {a : ℚ} {quarter : ℤ} (fits : HasBits a) (large : 2 ^ 24 < a) (small : a ≤ 2 ^ 25)
    (multiple : a = 4 * quarter) : a ≤ nextafter a (-1) := by
  have next := add_one_le_of_large fits large
  have place : unit (a - 1) = 1 := unit_int (by linarith) (by linarith)
  rw [nextafter_of_large fits large]
  apply @le_nearest_of_tie _ _ quarter
  · rw [place, multiple]
    push_cast
    ring
  · rw [place, zpow_one]
    linarith

/-- The tie goes to that value, if four does not divide the value itself. -/
theorem nextafter_of_two {a : ℚ} {quarter : ℤ} (fits : HasBits a) (large : 2 ^ 24 < a) (small : a ≤ 2 ^ 25)
    (multiple : a = 4 * quarter + 2) : nextafter a (-1) = a - 2 := by
  have next := add_one_le_of_large fits large
  have place : unit (a - 1) = 1 := unit_int (by linarith) (by linarith)
  have floor : ⌊(a - 1) / 2⌋ = 2 * quarter := by
    rw [Int.floor_eq_iff, multiple]
    push_cast
    constructor <;> linarith
  have rest : (a - 1) / 2 - ((2 * quarter : ℤ) : ℚ) = 1 / 2 := by
    rw [multiple]
    push_cast
    ring
  have even : 2 * quarter % 2 = 0 := by omega
  rw [nextafter_of_large fits large, toNearest, place, zpow_one, roundEven, floor, rest,
    if_neg (lt_irrefl _), if_neg (lt_irrefl _), even, multiple]
  push_cast
  ring

/-! ## Sizes -/

variable {n : ℤ}

/-- Between `2 ^ 24` and `2 ^ 25` a size is rounded to an even one, and an odd size to one that
four divides. -/
theorem nearest_int (large : 2 ^ 24 ≤ n) (small : n < 2 ^ 25) :
    toNearest n = if n % 2 = 0 then (n : ℚ) else 4 * (((n + 1) / 4 : ℤ) : ℚ) := by
  have low : (2 : ℚ) ^ 24 ≤ n := by exact_mod_cast large
  have high : (n : ℚ) < 2 ^ 25 := by exact_mod_cast small
  rw [toNearest, unit_int low high, zpow_one]
  split
  · next even =>
    obtain ⟨half, rfl⟩ : ∃ half, n = 2 * half := ⟨n / 2, by omega⟩
    have whole : ((2 * half : ℤ) : ℚ) / 2 = (half : ℚ) := by
      push_cast
      ring
    rw [whole, roundEven_intCast]
    push_cast
    ring
  · next odd =>
    obtain ⟨half, rfl⟩ : ∃ half, n = 2 * half + 1 := ⟨n / 2, by omega⟩
    have floor : ⌊((2 * half + 1 : ℤ) : ℚ) / 2⌋ = half := by
      rw [Int.floor_eq_iff]
      push_cast
      constructor <;> linarith
    have rest : ((2 * half + 1 : ℤ) : ℚ) / 2 - half = 1 / 2 := by
      push_cast
      ring
    have even : half + half % 2 = 2 * ((2 * half + 1 + 1) / 4) := by omega
    rw [roundEven, floor, rest, if_neg (lt_irrefl _), if_neg (lt_irrefl _), even]
    push_cast
    ring

/-- A size has a smaller value if it is not above the largest significand, or is rounded down, or
is twice an odd number of 24 bits. -/
def SizeFits (n : ℤ) : Prop :=
  1 ≤ n ∧ (n ≤ 2 ^ 24 ∨ toNearest n < n ∨ n ≤ 2 ^ 25 ∧ n % 4 = 2)

/-- A size up to the largest significand. -/
theorem hasBits_int (positive : 1 ≤ n) (small : n ≤ 2 ^ 24) : HasBits n := by
  refine ⟨n, 0, ?_, by decide, by rw [zpow_zero, mul_one]⟩
  rw [abs_le]
  omega

/-- Such a size is scaled by less than itself, -/
theorem nextafter_lt_of_fits (fits : SizeFits n) : nextafter (toNearest n) (-1) < n := by
  obtain ⟨positive, either⟩ := fits
  by_cases small : n ≤ 2 ^ 24
  · have bits := hasBits_int positive small
    rw [nearest_eq_self bits]
    exact nextafter_lt bits (by exact_mod_cast positive) (by exact_mod_cast small)
  · obtain impossible | below | ⟨bound, twice⟩ := either
    · exact absurd impossible small
    · have one : 1 ≤ toNearest n := by
        have rounded : toNearest 1 ≤ toNearest n := nearest_mono zero_le_one (by exact_mod_cast positive)
        rwa [nearest_one] at rounded
      exact (nextafter_bounds (hasBits_nearest n) one).2.1.trans_lt below
    · have exact_ : toNearest n = n := by
        rw [nearest_int (by omega) (by omega), if_pos (by omega)]
      have bits : HasBits n := exact_ ▸ hasBits_nearest n
      have value : (n : ℚ) = 4 * ((n / 4 : ℤ) : ℚ) + 2 := by
        have split_ : n = 4 * (n / 4) + 2 := by omega
        exact_mod_cast split_
      rw [exact_, nextafter_of_two bits (by exact_mod_cast not_le.mp small) (by exact_mod_cast bound) value]
      linarith

/-- and no other one is. -/
theorem fits_of_nextafter_lt (positive : 1 ≤ n) (below : nextafter (toNearest n) (-1) < n) : SizeFits n := by
  refine ⟨positive, ?_⟩
  by_contra unfit
  obtain ⟨large, unfit⟩ := not_or.mp unfit
  obtain ⟨above, notTwice⟩ := not_or.mp unfit
  have bits := hasBits_nearest (n : ℚ)
  have beyond : (2 : ℚ) ^ 24 < n := by exact_mod_cast not_le.mp large
  apply not_lt.mpr _ below
  apply (not_lt.mp above).trans
  by_cases huge : 2 ^ 25 < toNearest n
  · exact le_nextafter_of_huge bits huge
  · have small : n ≤ 2 ^ 25 := by exact_mod_cast (not_lt.mp above).trans (not_lt.mp huge)
    have four : ∃ quarter : ℤ, toNearest n = 4 * quarter := by
      by_cases last : n = 2 ^ 25
      · refine ⟨2 ^ 23, ?_⟩
        have power : (n : ℚ) = 2 ^ (25 : ℤ) := by exact_mod_cast last
        rw [power, nearest_of_pow (by decide)]
        norm_num
      · rw [nearest_int (by omega) (by omega)]
        split
        · refine ⟨n / 4, ?_⟩
          have split_ : n = 4 * (n / 4) := by omega
          exact_mod_cast split_
        · exact ⟨_, rfl⟩
    obtain ⟨quarter, multiple⟩ := four
    exact le_nextafter_of_four bits (beyond.trans_le (not_lt.mp above)) (not_lt.mp huge) multiple

theorem ofExact_nextafter (positive : 1 ≤ n) (small : n < 2 ^ 31) :
    (∃ single, Single.ofExact (nextafter (toNearest n) (-1)) = .finite (nextafter (toNearest n) (-1)) single) ∧
      0 ≤ nextafter (toNearest n) (-1) := by
  have one : 1 ≤ toNearest n := by
    have rounded : toNearest 1 ≤ toNearest n := nearest_mono zero_le_one (by exact_mod_cast positive)
    rwa [nearest_one] at rounded
  obtain ⟨nonnegative, below, bits⟩ := nextafter_bounds (hasBits_nearest n) one
  have limit : toNearest n ≤ 2 ^ 31 := by
    have range : (n : ℚ) ≤ 2 ^ 31 := by exact_mod_cast small.le
    have power : toNearest (2 ^ 31) = 2 ^ 31 := by exact_mod_cast nearest_of_pow (by decide : (-149 : ℤ) ≤ 31)
    have nonneg : (0 : ℚ) ≤ n := by exact_mod_cast (zero_le_one.trans positive)
    have rounded : toNearest n ≤ toNearest (2 ^ 31) := nearest_mono nonneg range
    rwa [power] at rounded
  refine ⟨ofExact_of_nearest (nearest_eq_self bits) ?_, nonnegative⟩
  rw [abs_of_nonneg nonnegative]
  linarith

end Ospray.Textures
