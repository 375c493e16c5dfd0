import Ospray.Library.SinglePrecision

/-!
# Fractions of single-precision values

The integer below a value is a value. What is left is rounded and may become one: that happens
right below an integer. Comparisons with what is not a number fail.
-/

namespace Library.SinglePrecision

variable {x : ℚ}

/-! ## Negative values -/

theorem roundEven_neg (x : ℚ) : roundEven (-x) = -roundEven x := by
  by_cases whole : x = ⌊x⌋
  · rw [whole, ← Int.cast_neg, roundEven_intCast, roundEven_intCast]
  · have below : ⌊x⌋ < x := lt_of_le_of_ne (Int.floor_le x) (Ne.symm whole)
    have above := Int.lt_floor_add_one x
    have floor : ⌊-x⌋ = -⌊x⌋ - 1 := by
      rw [Int.floor_eq_iff]
      push_cast
      constructor <;> linarith
    unfold roundEven
    rw [floor]
    push_cast
    split_ifs
    all_goals first | omega | linarith

theorem unit_neg (x : ℚ) : unit (-x) = unit x := by
  rw [unit, unit, abs_neg]

theorem nearest_neg (x : ℚ) : toNearest (-x) = -toNearest x := by
  rw [toNearest, toNearest, unit_neg, neg_div, roundEven_neg, Int.cast_neg, neg_mul]

theorem nearest_mono_of_nonpos {y : ℚ} (ordered : x ≤ y) (nonpositive : y ≤ 0) : toNearest x ≤ toNearest y := by
  have opposite : toNearest (-y) ≤ toNearest (-x) := nearest_mono (neg_nonneg.mpr nonpositive) (neg_le_neg ordered)
  rw [nearest_neg, nearest_neg] at opposite
  exact neg_le_neg_iff.mp opposite

/-! ## Integers -/

theorem nearest_one : toNearest 1 = 1 :=
  nearest_eq_self ⟨1, 0, by norm_num, by decide, by norm_num⟩

/-- A value with 24 bits is an integer, or is not above the largest significand. -/
theorem whole_or_small (fits : HasBits x) : (⌊x⌋ : ℚ) = x ∨ |x| ≤ 2 ^ 24 := by
  obtain ⟨significand, exponent, bits, normal, rfl⟩ := fits
  by_cases fraction : exponent ≤ 0
  · right
    have place : (0 : ℚ) < 2 ^ exponent := zpow_pos (by norm_num) _
    have one : (2 : ℚ) ^ exponent ≤ 1 := zpow_le_one_of_nonpos₀ (by norm_num) fraction
    have bound : |(significand : ℚ)| ≤ 2 ^ 24 := by exact_mod_cast bits
    rw [abs_mul, abs_of_pos place]
    calc |(significand : ℚ)| * 2 ^ exponent ≤ |(significand : ℚ)| * 1 :=
          mul_le_mul_of_nonneg_left one (abs_nonneg _)
      _ ≤ 2 ^ 24 := by rwa [mul_one]
  · left
    obtain ⟨shift, rfl⟩ := Int.eq_ofNat_of_zero_le (not_le.mp fraction).le
    have whole : (significand : ℚ) * 2 ^ (shift : ℤ) = ((significand * 2 ^ shift : ℤ) : ℚ) := by
      rw [zpow_natCast]
      push_cast
      rfl
    rw [whole, Int.floor_intCast]

theorem floor_small (small : |x| ≤ 2 ^ 24) : |⌊x⌋| ≤ 2 ^ 24 := by
  obtain ⟨low, high⟩ := abs_le.mp small
  rw [abs_le]
  constructor
  · apply Int.le_floor.mpr
    push_cast
    exact low
  · have below := (Int.floor_le x).trans high
    exact_mod_cast below

theorem isSingle_floor (single : IsSingle x) : IsSingle ⌊x⌋ := by
  obtain whole | small := whole_or_small single.1
  · rwa [whole]
  · have bound : |(⌊x⌋ : ℚ)| ≤ 2 ^ 24 := by exact_mod_cast floor_small small
    exact ⟨⟨⌊x⌋, 0, floor_small small, by decide, by rw [zpow_zero, mul_one]⟩, bound.trans_lt (by norm_num)⟩

/-! ## Operations -/

/-- The integer below a value. -/
def Single.floor : Single → Single
  | .finite value single => .finite ⌊value⌋ (isSingle_floor single)
  | .infinite negative => .infinite negative
  | .nan => .nan

/-- The order of the values. What is not a number is not compared. -/
def Single.lt : Single → Single → Bool
  | .finite first _, .finite second _ => decide (first < second)
  | .finite _ _, .infinite negative => !negative
  | .infinite negative, .finite _ _ => negative
  | .infinite first, .infinite second => first && !second
  | .nan, _ => false
  | _, .nan => false

/-- The greater of two values, or the second one if they are not compared. -/
def Single.max (first second : Single) : Single := if second.lt first then first else second

/-- Conversion to a signed integer of 32 bits: the fraction is dropped. It is undefined for what
does not fit. -/
def Single.toInt32 : Single → Option (BitVec 32)
  | .finite value _ =>
    let whole := if 0 ≤ value then ⌊value⌋ else ⌈value⌉
    if -2 ^ 31 ≤ whole ∧ whole < 2 ^ 31 then some (BitVec.ofInt 32 whole) else none
  | .infinite _ => none
  | .nan => none

/-- The value is finite, and between two bounds. -/
def Single.Between (low high : ℚ) : Single → Prop
  | .finite value _ => low ≤ value ∧ value ≤ high
  | .infinite _ => False
  | .nan => False

theorem ofExact_of_nearest {value : ℚ} (rounded : toNearest x = value) (small : |value| < 2 ^ 128) :
    ∃ single, Single.ofExact x = .finite value single := by
  subst rounded
  exact ⟨_, dif_pos small⟩

theorem between_ofExact {low high : ℚ} (nonnegative : 0 ≤ low) (lowFits : HasBits low) (highFits : HasBits high)
    (small : high < 2 ^ 128) (below : low ≤ x) (above : x ≤ high) : (Single.ofExact x).Between low high := by
  have lower : low ≤ toNearest x := by
    have rounded := nearest_mono nonnegative below
    rwa [nearest_eq_self lowFits] at rounded
  have upper : toNearest x ≤ high := by
    have rounded := nearest_mono (nonnegative.trans below) above
    rwa [nearest_eq_self highFits] at rounded
  rw [Single.ofExact, dif_pos]
  · exact ⟨lower, upper⟩
  · rw [abs_of_nonneg (nonnegative.trans lower)]
    exact upper.trans_lt small

/-- What a finite value is above the integer below it is from zero to one. -/
theorem between_sub_floor {value : Single} {low high : ℚ} (bounds : value.Between low high) :
    (value.sub value.floor).Between 0 1 := by
  cases value with
  | finite value single =>
    have below := Int.floor_le value
    have above := Int.lt_floor_add_one value
    apply between_ofExact le_rfl
    · exact ⟨0, 0, by norm_num, by decide, by norm_num⟩
    · exact ⟨1, 0, by norm_num, by decide, by norm_num⟩
    · norm_num
    · linarith
    · linarith
  | infinite => exact bounds.elim
  | nan => exact bounds.elim

theorem sub_floor (value : Single) : (value.sub value.floor).Between 0 1 ∨ value.sub value.floor = .nan := by
  cases value with
  | finite value single =>
    left
    exact between_sub_floor (show Single.Between value value (.finite value single) from ⟨le_rfl, le_rfl⟩)
  | infinite negative =>
    right
    exact if_pos rfl
  | nan =>
    right
    rfl

theorem between_max_zero {value : Single} {high : ℚ} (nonnegative : 0 ≤ high)
    (fraction : value.Between 0 high ∨ value = .nan) :
    (value.max (.ofNat 0 (Nat.zero_le _))).Between 0 high := by
  unfold Single.max
  cases value with
  | finite value single =>
    obtain bounds | impossible := fraction
    · split
      · exact bounds
      · exact ⟨le_of_eq Nat.cast_zero.symm, Nat.cast_zero.le.trans nonnegative⟩
    · cases impossible
  | infinite negative =>
    obtain impossible | impossible := fraction
    · exact impossible.elim
    · cases impossible
  | nan => exact ⟨le_of_eq Nat.cast_zero.symm, Nat.cast_zero.le.trans nonnegative⟩

theorem between_mul {first second : Single} {high : ℚ} (highFits : HasBits high) (small : high < 2 ^ 128)
    (one : first.Between 0 1) (bounds : second.Between 0 high) : (first.mul second).Between 0 high := by
  cases first with
  | finite first =>
    cases second with
    | finite second =>
      obtain ⟨firstNonneg, firstOne⟩ := one
      obtain ⟨secondNonneg, secondHigh⟩ := bounds
      apply between_ofExact le_rfl
      · exact ⟨0, 0, by norm_num, by decide, by norm_num⟩
      · exact highFits
      · exact small
      · exact mul_nonneg firstNonneg secondNonneg
      · exact (mul_le_of_le_one_left secondNonneg firstOne).trans secondHigh
    | infinite => exact bounds.elim
    | nan => exact bounds.elim
  | infinite => exact one.elim
  | nan => exact one.elim

theorem toInt32_spec {value : Single} {high : ℚ} {bound : ℤ} (bounds : value.Between 0 high) (below : high < bound)
    (small : bound ≤ 2 ^ 31) : ∃ whole, value.toInt32 = some whole ∧ 0 ≤ whole.toInt ∧ whole.toInt < bound := by
  cases value with
  | finite value single =>
    obtain ⟨low, upper⟩ := bounds
    have nonnegative : 0 ≤ ⌊value⌋ := Int.floor_nonneg.mpr low
    have inside : ⌊value⌋ < bound := by
      rw [Int.floor_lt]
      exact upper.trans_lt below
    refine ⟨BitVec.ofInt 32 ⌊value⌋, ?_, ?_⟩
    · simp only [Single.toInt32, if_pos low]
      exact if_pos ⟨by omega, by omega⟩
    · rw [BitVec.toInt_ofInt, Int.bmod_def]
      omega
  | infinite => exact bounds.elim
  | nan => exact bounds.elim

end Library.SinglePrecision
