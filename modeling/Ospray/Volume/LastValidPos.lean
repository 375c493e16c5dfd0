import Ospray.Library.SinglePrecision

/-!
# The last valid position

The box that the corners of dual cells are moved into is meant to end before the upper faces
of the bounding box. Its upper corner is computed by a function that halves an increment
while it still makes a difference. It begins with one, which makes none among values of which
every other integer is left out.
-/

namespace Ospray.Amr

open Library.SinglePrecision

/-- The loop in `nextafter`: the increment that is halved while it still makes a difference. Below the least
increment there is nothing to be halved, which `fuel` leaves room for. -/
def nextafterDelta (a : ℚ) : Nat → ℚ → ℚ
  | 0, delta => delta
  | fuel + 1, delta =>
    if toNearest (a + toNearest (delta / 2)) ≠ a then nextafterDelta a fuel (toNearest (delta / 2)) else delta

/-- `nextafter` -/
def nextafter (a b : ℚ) : ℚ :=
  if a = b then b else toNearest (a + nextafterDelta a 150 (if b > a then 1 else -1))

theorem nearest_nonpos {x : ℚ} (nonpositive : x ≤ 0) : toNearest x ≤ 0 := by
  have place : (0 : ℚ) < 2 ^ unit x := zpow_pos (by norm_num) _
  have scaled : x / 2 ^ unit x ≤ ((0 : ℤ) : ℚ) := by
    rw [Int.cast_zero]
    exact div_nonpos_of_nonpos_of_nonneg nonpositive place.le
  have below := roundEven_mono scaled
  rw [roundEven_intCast] at below
  exact mul_nonpos_of_nonpos_of_nonneg (by exact_mod_cast below) place.le

theorem nextafterDelta_spec {a : ℚ} (fuel : Nat) {delta : ℚ} (nonpositive : delta ≤ 0) :
    nextafterDelta a fuel delta ≤ 0 ∧
      (nextafterDelta a fuel delta = delta ∨ toNearest (a + nextafterDelta a fuel delta) ≠ a) := by
  induction fuel generalizing delta with
  | zero => exact ⟨nonpositive, .inl rfl⟩
  | succ fuel inductionHypothesis =>
    rw [nextafterDelta]
    split
    · next differs =>
      have half : toNearest (delta / 2) ≤ 0 := nearest_nonpos (by linarith)
      obtain ⟨below, same | other⟩ := inductionHypothesis half
      · exact ⟨below, .inr (same.symm ▸ differs)⟩
      · exact ⟨below, .inr other⟩
    · exact ⟨nonpositive, .inl rfl⟩

/-- One less than a value up to the largest significand is a value. -/
theorem hasBits_sub_one {a : ℚ} (fits : HasBits a) (one : 1 ≤ a) (small : a ≤ 2 ^ 24) : HasBits (a - 1) := by
  obtain ⟨significand, exponent, bits, normal, value⟩ := fits
  have place : (0 : ℚ) < 2 ^ exponent := zpow_pos (by norm_num) _
  by_cases fraction : exponent ≤ 0
  · obtain ⟨shift, shifted⟩ := Int.eq_ofNat_of_zero_le (neg_nonneg.mpr fraction)
    have unit_ : (2 : ℚ) ^ shift * 2 ^ exponent = 1 := by
      rw [← zpow_natCast, ← zpow_add₀ (by norm_num), ← shifted, neg_add_cancel, zpow_zero]
    have least : (2 : ℤ) ^ shift ≤ significand := by
      have scaled : (2 : ℚ) ^ shift * 2 ^ exponent ≤ significand * 2 ^ exponent := by
        rw [unit_, ← value]
        exact one
      exact_mod_cast le_of_mul_le_mul_right scaled place
    have power : (0 : ℤ) < 2 ^ shift := by positivity
    refine ⟨significand - 2 ^ shift, exponent, ?_, normal, ?_⟩
    · have upper := (abs_le.mp bits).2
      rw [abs_le]
      omega
    · push_cast
      rw [sub_mul, unit_, value]
  · obtain ⟨shift, rfl⟩ := Int.eq_ofNat_of_zero_le (not_le.mp fraction).le
    have whole : a = ((significand * 2 ^ shift : ℤ) : ℚ) := by
      rw [value, zpow_natCast]
      push_cast
      rfl
    refine ⟨significand * 2 ^ shift - 1, 0, ?_, by decide, ?_⟩
    · have low : 1 ≤ significand * 2 ^ shift := by
        rw [whole] at one
        exact_mod_cast one
      have high : significand * 2 ^ shift ≤ 2 ^ 24 := by
        rw [whole] at small
        exact_mod_cast small
      rw [abs_le]
      omega
    · rw [whole]
      push_cast
      ring

/-- Up to the largest significand, the value after a positive one towards minus one is below it. -/
theorem nextafter_lt {a : ℚ} (fits : HasBits a) (positive : 0 < a) (small : a ≤ 2 ^ 24) : nextafter a (-1) < a := by
  have differs : a ≠ -1 := by
    rintro rfl
    linarith
  rw [nextafter, if_neg differs, if_neg (by linarith)]
  obtain ⟨nonpositive, first | makes⟩ := @nextafterDelta_spec a 150 (-1) (by norm_num)
  · rw [first, ← sub_eq_add_neg]
    by_cases one : 1 ≤ a
    · rw [nearest_eq_self (hasBits_sub_one fits one small)]
      linarith
    · exact (nearest_nonpos (by linarith)).trans_lt positive
  · apply lt_of_le_of_ne _ makes
    by_cases nonnegative : 0 ≤ a + nextafterDelta a 150 (-1)
    · have below : toNearest (a + nextafterDelta a 150 (-1)) ≤ toNearest a :=
        nearest_mono nonnegative (by linarith)
      rwa [nearest_eq_self fits] at below
    · exact (nearest_nonpos (not_le.mp nonnegative).le).trans positive.le

/-- Beyond the largest significand there are values to which one makes no difference. -/
theorem nextafter_same : nextafter (2 ^ 24 + 4) (-1) = 2 ^ 24 + 4 := by
  have half : toNearest (-1 / 2) = -1 / 2 := nearest_eq_self ⟨-1, -1, by decide, by decide, by norm_num⟩
  have rounded : ∀ delta : ℚ, -1 ≤ delta → delta ≤ 0 → toNearest (2 ^ 24 + 4 + delta) = 2 ^ 24 + 4 := by
    intro delta low high
    have place : unit (2 ^ 24 + 4 + delta) = 1 := unit_int (by linarith) (by norm_num at high ⊢; linarith)
    have fits : toNearest (2 ^ 24 + 4) = 2 ^ 24 + 4 :=
      nearest_eq_self ⟨2 ^ 23 + 2, 1, by norm_num, by decide, by norm_num⟩
    apply le_antisymm
    · have above : toNearest (2 ^ 24 + 4 + delta) ≤ toNearest (2 ^ 24 + 4) :=
        nearest_mono (by linarith) (by linarith)
      rwa [fits] at above
    · apply @le_nearest_of_tie _ _ (2 ^ 22 + 1)
      · rw [place]
        norm_num
      · rw [place]
        linarith
  have start : nextafterDelta (2 ^ 24 + 4) 150 (-1) = -1 := by
    rw [nextafterDelta, half, rounded _ (by norm_num) (by norm_num)]
    exact if_neg (not_not_intro rfl)
  rw [nextafter, if_neg (by norm_num), if_neg (by norm_num), start, rounded _ le_rfl (by norm_num)]

end Ospray.Amr
