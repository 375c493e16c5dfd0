import Mathlib.Data.Int.Log
import Mathlib.Data.Rat.Floor
import Mathlib.Tactic.Linarith
import Mathlib.Tactic.Positivity
import Mathlib.Tactic.NormNum
import Mathlib.Tactic.FieldSimp
import Mathlib.Tactic.Ring
import Ospray.Library.Literals

/-!
# Single precision

A single-precision value has a significand of 24 bits. The result of an operation is
the nearest such value to the exact result, the one with the even significand where
two are nearest, and infinite from `2 ^ 128` on.
-/

namespace Library.SinglePrecision

/-! ## The nearest integer -/

/-- The nearest integer, the even one of two. -/
def roundEven (x : ℚ) : ℤ :=
  if x - ⌊x⌋ < 1 / 2 then ⌊x⌋
  else if 1 / 2 < x - ⌊x⌋ then ⌊x⌋ + 1
  else ⌊x⌋ + ⌊x⌋ % 2

variable {x : ℚ} {n : ℤ}

theorem roundEven_mem (x : ℚ) : ⌊x⌋ ≤ roundEven x ∧ roundEven x ≤ ⌊x⌋ + 1 := by
  have even := Int.emod_nonneg ⌊x⌋ (by decide : (2 : ℤ) ≠ 0)
  have odd := Int.emod_lt_of_pos ⌊x⌋ (by decide : (0 : ℤ) < 2)
  unfold roundEven
  split
  · omega
  · split <;> omega

@[simp] theorem roundEven_intCast (n : ℤ) : roundEven (n : ℚ) = n := by
  simp [roundEven]

theorem le_roundEven (below : (n : ℚ) ≤ x) : n ≤ roundEven x :=
  (Int.le_floor.mpr below).trans (roundEven_mem x).1

/-- An integer more than half a unit above is not reached, -/
theorem roundEven_lt (below : x < n - 1 / 2) : roundEven x < n := by
  have floor_le := Int.floor_le x
  by_cases near : ⌊x⌋ + 1 < n
  · have bound := (roundEven_mem x).2
    omega
  · have before : ⌊x⌋ < n := by
      rw [Int.floor_lt]
      linarith
    have next : n = ⌊x⌋ + 1 := by omega
    rw [next] at below ⊢
    push_cast at below
    rw [roundEven, if_pos (by linarith)]
    omega

/-- and one less than half a unit above is. -/
theorem le_roundEven_of_near (near : n - 1 / 2 < x) : n ≤ roundEven x := by
  by_cases below : (n : ℚ) ≤ x
  · exact le_roundEven below
  · have floor : ⌊x⌋ = n - 1 := by
      rw [Int.floor_eq_iff]
      push_cast
      constructor <;> linarith
    have rest : 1 / 2 < x - ⌊x⌋ := by
      rw [floor]
      push_cast
      linarith
    rw [roundEven, if_neg (by linarith), if_pos rest, floor]
    omega

theorem le_roundEven_of_half (even : n % 2 = 0) (near : n - 1 / 2 ≤ x) : n ≤ roundEven x := by
  rcases lt_or_eq_of_le near with above | tie
  · exact le_roundEven_of_near above
  · have floor : ⌊x⌋ = n - 1 := by
      rw [Int.floor_eq_iff, ← tie]
      push_cast
      constructor <;> linarith
    have rest : x - ⌊x⌋ = 1 / 2 := by
      rw [floor, ← tie]
      push_cast
      ring
    rw [roundEven, rest, if_neg (lt_irrefl _), if_neg (lt_irrefl _), floor]
    omega

theorem roundEven_mono {y : ℚ} (ordered : x ≤ y) : roundEven x ≤ roundEven y := by
  have floors : ⌊x⌋ ≤ ⌊y⌋ := Int.floor_le_floor ordered
  obtain same | below := eq_or_lt_of_le floors
  · have even := Int.emod_nonneg ⌊y⌋ (by decide : (2 : ℤ) ≠ 0)
    have odd := Int.emod_lt_of_pos ⌊y⌋ (by decide : (0 : ℤ) < 2)
    have fractions : x - ⌊x⌋ ≤ y - ⌊y⌋ := by
      rw [same]
      linarith
    unfold roundEven
    rw [same] at fractions ⊢
    split_ifs with low lowOther highOther high lowOther highOther lowOther highOther
    all_goals first | omega | linarith
  · have upper := (roundEven_mem x).2
    have lower := (roundEven_mem y).1
    omega

/-! ## The nearest single-precision value -/

/-- The exponent of the last place of the significand. -/
def unit (x : ℚ) : ℤ := max (Int.log 2 |x| - 23) (-149)

/-- The nearest value with 24 bits. -/
def toNearest (x : ℚ) : ℚ := roundEven (x / 2 ^ unit x) * 2 ^ unit x

/-- The value has a significand of 24 bits. -/
def HasBits (x : ℚ) : Prop :=
  ∃ significand exponent : ℤ, |significand| ≤ 2 ^ 24 ∧ -149 ≤ exponent ∧
    x = significand * 2 ^ exponent

/-- A finite single-precision value. -/
def IsSingle (x : ℚ) : Prop := HasBits x ∧ |x| < 2 ^ 128

theorem unit_le {bound : ℤ} (nonzero : x ≠ 0) (below : |x| < 2 ^ bound) (normal : -125 ≤ bound) :
    unit x ≤ bound - 24 := by
  have log := (Int.lt_zpow_iff_log_lt (by decide : 1 < 2) (abs_pos.mpr nonzero)).mp
    (by exact_mod_cast below)
  unfold unit
  omega

theorem le_unit {bound : ℤ} (nonzero : x ≠ 0) (above : 2 ^ bound ≤ |x|) :
    bound - 23 ≤ unit x := by
  have log := (Int.zpow_le_iff_le_log (by decide : 1 < 2) (abs_pos.mpr nonzero)).mp
    (by exact_mod_cast above)
  unfold unit
  omega

theorem unit_int (low : 2 ^ 24 ≤ x) (high : x < 2 ^ 25) : unit x = 1 := by
  have positive : 0 < x := lt_of_lt_of_le (by norm_num) low
  have above := @le_unit x 24 positive.ne' (by rw [abs_of_pos positive]; exact_mod_cast low)
  have below := @unit_le x 25 positive.ne' (by rw [abs_of_pos positive]; exact_mod_cast high) (by decide)
  omega

theorem scaled_lt (x : ℚ) : |x / 2 ^ unit x| < 2 ^ 24 := by
  have positive : (0 : ℚ) < 2 ^ unit x := zpow_pos (by norm_num) _
  rw [abs_div, abs_of_pos positive, div_lt_iff₀ positive]
  have below : |x| < 2 ^ (Int.log 2 |x| + 1) := by
    exact_mod_cast Int.lt_zpow_succ_log_self (by decide : 1 < 2) |x|
  have grid : (2 : ℚ) ^ (Int.log 2 |x| + 1) ≤ 2 ^ (24 + unit x) := by
    refine zpow_le_zpow_right₀ (by norm_num) ?_
    unfold unit
    omega
  calc |x| < 2 ^ (Int.log 2 |x| + 1) := below
    _ ≤ 2 ^ (24 + unit x) := grid
    _ = 2 ^ 24 * 2 ^ unit x := by
      rw [zpow_add₀ (by norm_num)]
      norm_num

/-- What is rounded has 24 bits, -/
theorem hasBits_nearest (x : ℚ) : HasBits (toNearest x) := by
  refine ⟨roundEven (x / 2 ^ unit x), unit x, ?_, le_max_right _ _, rfl⟩
  have inside := abs_lt.mp (scaled_lt x)
  rw [abs_le]
  constructor
  · refine le_roundEven ?_
    push_cast
    linarith
  · have floor : ⌊x / 2 ^ unit x⌋ < 2 ^ 24 := by
      rw [Int.floor_lt]
      push_cast
      exact inside.2
    have next := (roundEven_mem (x / 2 ^ unit x)).2
    omega

/-- and is a single-precision value, unless it is too large. -/
theorem isSingle_nearest (small : |toNearest x| < 2 ^ 128) : IsSingle (toNearest x) :=
  ⟨hasBits_nearest x, small⟩

theorem nearest_of_multiple {significand : ℤ} (multiple : x = significand * 2 ^ unit x) :
    toNearest x = x := by
  have positive : (2 : ℚ) ^ unit x ≠ 0 := zpow_ne_zero _ (by norm_num)
  have quotient : x / 2 ^ unit x = significand := (div_eq_iff positive).mpr multiple
  rw [toNearest, quotient, roundEven_intCast]
  exact multiple.symm

/-- A value with 24 bits is rounded to itself. -/
theorem nearest_eq_self (fits : HasBits x) : toNearest x = x := by
  obtain ⟨significand, exponent, bits, normal, value⟩ := fits
  have positive : (0 : ℚ) < 2 ^ exponent := zpow_pos (by norm_num) _
  by_cases zero : x = 0
  · rw [zero, toNearest, zero_div]
    simp [roundEven]
  have size : |x| = |significand| * 2 ^ exponent := by
    rw [value, abs_mul, abs_of_pos positive, Int.cast_abs]
  have grid : ∀ place : ℤ, (2 : ℚ) ^ (place + exponent) = 2 ^ place * 2 ^ exponent :=
    fun place => zpow_add₀ (by norm_num) place exponent
  by_cases full : |significand| = 2 ^ 24
  · -- the significand is carried to the next place
    have half : ∃ carried : ℤ, significand = carried * 2 := by
      obtain positive | negative := abs_choice significand
      · exact ⟨2 ^ 23, by omega⟩
      · exact ⟨-2 ^ 23, by omega⟩
    obtain ⟨carried, rfl⟩ := half
    have place : unit x = 1 + exponent := by
      have exact_ : |x| = 2 ^ (24 + exponent) := by
        rw [size, full, grid]
        norm_num
      have log : Int.log 2 |x| = 24 + exponent := by
        rw [exact_]
        exact_mod_cast Int.log_zpow (R := ℚ) (by decide : 1 < 2) (24 + exponent)
      unfold unit
      omega
    apply @nearest_of_multiple x carried
    rw [place, grid, value]
    push_cast
    ring
  · have below : |x| < 2 ^ (24 + exponent) := by
      rw [size, grid]
      have strict : (|significand| : ℚ) < 2 ^ (24 : ℤ) := by
        have bound : |significand| < 2 ^ 24 := lt_of_le_of_ne bits full
        exact_mod_cast bound
      rw [Int.cast_abs]
      exact mul_lt_mul_of_pos_right strict positive
    have place : unit x ≤ exponent := by
      have log := (Int.lt_zpow_iff_log_lt (by decide : 1 < 2) (abs_pos.mpr zero)).mp
        (by exact_mod_cast below)
      unfold unit
      omega
    obtain ⟨shift, shifted⟩ := Int.eq_ofNat_of_zero_le (Int.sub_nonneg.mpr place)
    apply @nearest_of_multiple x (significand * 2 ^ shift)
    have split_ : exponent = (shift : ℤ) + unit x := by omega
    conv_lhs => rw [value, split_, zpow_add₀ (by norm_num)]
    push_cast
    rw [zpow_natCast]
    ring

theorem nearest_nearest (x : ℚ) : toNearest (toNearest x) = toNearest x := nearest_eq_self (hasBits_nearest x)

/-! ## Rounding and order -/

theorem unit_mono {y : ℚ} (positive : 0 < x) (ordered : x ≤ y) : unit x ≤ unit y := by
  have log : Int.log 2 |x| ≤ Int.log 2 |y| := by
    rw [abs_of_pos positive, abs_of_pos (positive.trans_le ordered)]
    exact Int.log_mono_right positive ordered
  unfold unit
  omega

theorem nearest_of_pow {power : ℤ} (normal : -149 ≤ power) : toNearest ((2 : ℚ) ^ power) = 2 ^ power :=
  nearest_eq_self ⟨1, power, by norm_num, normal, by rw [Int.cast_one, one_mul]⟩

/-- What is nearest to a positive value grows with it. -/
theorem nearest_mono_of_pos {y : ℚ} (positive : 0 < x) (ordered : x ≤ y) : toNearest x ≤ toNearest y := by
  have positiveOther := positive.trans_le ordered
  have place : ∀ z : ℚ, (0 : ℚ) < 2 ^ unit z := fun z => zpow_pos (by norm_num) _
  obtain same | below := eq_or_lt_of_le (unit_mono positive ordered)
  · have scaled : x / 2 ^ unit y ≤ y / 2 ^ unit y := div_le_div_of_nonneg_right ordered (place y).le
    rw [toNearest, toNearest, same]
    exact mul_le_mul_of_nonneg_right (by exact_mod_cast roundEven_mono scaled) (place y).le
  · -- a power of two lies between them
    have high : toNearest x ≤ 2 ^ (24 + unit x) := by
      have inside := (abs_lt.mp (scaled_lt x)).2
      have bound : roundEven (x / 2 ^ unit x) ≤ 2 ^ 24 := by
        have upper := @roundEven_mono (x / 2 ^ unit x) ((2 ^ 24 : ℤ) : ℚ) (by push_cast; exact inside.le)
        rwa [roundEven_intCast] at upper
      rw [toNearest, zpow_add₀ (by norm_num)]
      exact mul_le_mul_of_nonneg_right (by exact_mod_cast bound) (place x).le
    have large : (2 : ℚ) ^ (24 + unit x) ≤ 2 ^ (23 + unit y) := zpow_le_zpow_right₀ (by norm_num) (by omega)
    have low : 2 ^ (23 + unit y) ≤ toNearest y := by
      have normal : unit y = Int.log 2 |y| - 23 := by
        have bound : -149 ≤ unit x := le_max_right _ _
        unfold unit at below bound ⊢
        omega
      have above : (2 : ℚ) ^ (23 + unit y) ≤ y := by
        have power := Int.zpow_log_le_self (by decide : 1 < 2) (abs_pos.mpr positiveOther.ne')
        rw [abs_of_pos positiveOther] at power normal
        rw [normal, add_sub_cancel]
        exact_mod_cast power
      have scaled : ((2 ^ 23 : ℤ) : ℚ) ≤ y / 2 ^ unit y := by
        rw [le_div_iff₀ (place y)]
        push_cast
        rwa [zpow_add₀ (by norm_num)] at above
      rw [toNearest, zpow_add₀ (by norm_num)]
      exact mul_le_mul_of_nonneg_right (by exact_mod_cast le_roundEven scaled) (place y).le
    exact high.trans (large.trans low)

theorem nearest_nonneg (nonnegative : 0 ≤ x) : 0 ≤ toNearest x := by
  have place : (0 : ℚ) < 2 ^ unit x := zpow_pos (by norm_num) _
  have scaled : ((0 : ℤ) : ℚ) ≤ x / 2 ^ unit x := by
    rw [Int.cast_zero]
    exact div_nonneg nonnegative place.le
  exact mul_nonneg (by exact_mod_cast le_roundEven scaled) place.le

theorem nearest_mono {y : ℚ} (nonnegative : 0 ≤ x) (ordered : x ≤ y) : toNearest x ≤ toNearest y := by
  obtain rfl | positive := nonnegative.eq_or_lt
  · have zero : toNearest 0 = 0 := nearest_eq_self ⟨0, 0, by norm_num, by norm_num, by norm_num⟩
    rw [zero]
    exact nearest_nonneg ordered
  · exact nearest_mono_of_pos positive ordered

theorem exists_multiple (same : toNearest x = x) : ∃ significand : ℤ, x = significand * 2 ^ unit x :=
  ⟨roundEven (x / 2 ^ unit x), same.symm⟩

/-- A value on the grid is not passed from half a unit below, -/
theorem le_nearest_of_near {value : ℚ} (same : toNearest value = value) (positive : 0 < x)
    (ordered : x ≤ value) (near : value - 2 ^ unit x / 2 < x) : value ≤ toNearest x := by
  obtain ⟨significand, multiple⟩ := exists_multiple same
  have place : (0 : ℚ) < 2 ^ unit x := zpow_pos (by norm_num) _
  obtain ⟨shift, shifted⟩ := Int.eq_ofNat_of_zero_le (Int.sub_nonneg.mpr (unit_mono positive ordered))
  have onGrid : value = ((significand * 2 ^ shift : ℤ) : ℚ) * 2 ^ unit x := by
    have split_ : unit value = shift + unit x := by omega
    conv_lhs => rw [multiple, split_, zpow_add₀ (by norm_num)]
    push_cast
    rw [zpow_natCast]
    ring
  have scaled : ((significand * 2 ^ shift : ℤ) : ℚ) - 1 / 2 < x / 2 ^ unit x := by
    rw [lt_div_iff₀ place, sub_mul, ← onGrid]
    linarith
  conv_lhs => rw [onGrid]
  exact mul_le_mul_of_nonneg_right (by exact_mod_cast le_roundEven_of_near scaled) place.le

/-- nor from exactly half of it, if its significand is even there. -/
theorem le_nearest_of_tie {value : ℚ} {even : ℤ} (onGrid : value = ((2 * even : ℤ) : ℚ) * 2 ^ unit x)
    (near : value - 2 ^ unit x / 2 ≤ x) : value ≤ toNearest x := by
  have place : (0 : ℚ) < 2 ^ unit x := zpow_pos (by norm_num) _
  have scaled : ((2 * even : ℤ) : ℚ) - 1 / 2 ≤ x / 2 ^ unit x := by
    rw [le_div_iff₀ place, sub_mul, ← onGrid]
    linarith
  conv_lhs => rw [onGrid]
  exact mul_le_mul_of_nonneg_right (by exact_mod_cast le_roundEven_of_half (by omega) scaled) place.le

/-! ## Rounding and integers -/

theorem exists_scale (nonnegative : 0 ≤ x) (small : x < 2 ^ 24) :
    ∃ scale : ℕ, unit x = -(scale : ℤ) ∧ toNearest x = roundEven (x * 2 ^ scale) / 2 ^ scale := by
  have place : unit x ≤ 0 := by
    by_cases zero : x = 0
    · simp [zero, unit]
    · refine unit_le zero ?_ (by decide : (-125 : ℤ) ≤ 24)
      rw [abs_of_nonneg nonnegative]
      exact_mod_cast small
  obtain ⟨scale, scaled⟩ := Int.eq_ofNat_of_zero_le (Int.neg_nonneg.mpr place)
  have same : unit x = -(scale : ℤ) := by omega
  refine ⟨scale, same, ?_⟩
  rw [toNearest, same, zpow_neg, zpow_natCast, div_inv_eq_mul, ← div_eq_mul_inv]

/-- Rounding passes no integer below, -/
theorem le_nearest (nonnegative : 0 ≤ x) (small : x < 2 ^ 24) (below : (n : ℚ) ≤ x) :
    (n : ℚ) ≤ toNearest x := by
  obtain ⟨scale, -, rounded⟩ := exists_scale nonnegative small
  rw [rounded, le_div_iff₀ (by positivity)]
  have scaled : ((n * 2 ^ scale : ℤ) : ℚ) ≤ x * 2 ^ scale := by
    push_cast
    exact mul_le_mul_of_nonneg_right below (by positivity)
  exact_mod_cast le_roundEven scaled

/-- does not reach one more than half of the last place above, -/
theorem nearest_lt (nonnegative : 0 ≤ x) (small : x < 2 ^ 24) (below : x < n - 2 ^ unit x / 2) :
    toNearest x < n := by
  obtain ⟨scale, place, rounded⟩ := exists_scale nonnegative small
  rw [rounded, div_lt_iff₀ (by positivity)]
  rw [place, zpow_neg, zpow_natCast] at below
  have scaled : x * 2 ^ scale < ((n * 2 ^ scale : ℤ) : ℚ) - 1 / 2 := by
    have positive : (0 : ℚ) < 2 ^ scale := by positivity
    have moved := mul_lt_mul_of_pos_right below positive
    push_cast
    calc x * 2 ^ scale < (n - ((2 : ℚ) ^ scale)⁻¹ / 2) * 2 ^ scale := moved
      _ = n * 2 ^ scale - 1 / 2 := by field_simp
  exact_mod_cast roundEven_lt scaled

/-- and reaches one half of it above, where it is not the integers that have the last place. -/
theorem le_nearest_of_half (nonnegative : 0 ≤ x) (small : x < 2 ^ 23)
    (near : n - 2 ^ unit x / 2 ≤ x) : (n : ℚ) ≤ toNearest x := by
  obtain ⟨scale, place, rounded⟩ := exists_scale nonnegative (by linarith)
  have positive : (0 : ℚ) < 2 ^ scale := by positivity
  have fraction : unit x ≤ -1 := by
    by_cases zero : x = 0
    · simp [zero, unit]
    · have below : |x| < (2 : ℚ) ^ (23 : ℤ) := by
        rw [abs_of_nonneg nonnegative]
        exact_mod_cast small
      have bound := unit_le zero below (by decide)
      omega
  obtain ⟨half, rfl⟩ : ∃ half, scale = half + 1 := Nat.exists_eq_add_one.mpr (by omega)
  rw [rounded, le_div_iff₀ positive]
  rw [place, zpow_neg, zpow_natCast] at near
  have scaled : ((n * 2 ^ (half + 1) : ℤ) : ℚ) - 1 / 2 ≤ x * 2 ^ (half + 1) := by
    have moved := mul_le_mul_of_nonneg_right near positive.le
    push_cast
    calc (n : ℚ) * 2 ^ (half + 1) - 1 / 2
        = (n - ((2 : ℚ) ^ (half + 1))⁻¹ / 2) * 2 ^ (half + 1) := by field_simp
      _ ≤ x * 2 ^ (half + 1) := moved
  have even : n * 2 ^ (half + 1) % 2 = 0 := by
    rw [pow_succ, ← mul_assoc]
    exact Int.mul_emod_left _ 2
  exact_mod_cast le_roundEven_of_half even scaled

/-! ## Operations -/

/-- A single-precision value. The sign of zero is left out. -/
inductive Single
  | finite (value : ℚ) (single : IsSingle value)
  | infinite (negative : Bool)
  | nan

/-- The value nearest to an exact result. -/
def Single.ofExact (x : ℚ) : Single :=
  if small : |toNearest x| < 2 ^ 128 then .finite (toNearest x) (isSingle_nearest small)
  else .infinite (decide (x < 0))

theorem isSingle_natCast {number : ℕ} (small : number ≤ 2 ^ 24) : IsSingle (number : ℚ) := by
  have bits : (number : ℚ) ≤ 2 ^ 24 := by exact_mod_cast small
  refine ⟨⟨number, 0, ?_, by decide, ?_⟩, ?_⟩
  · rw [abs_of_nonneg (Int.natCast_nonneg number)]
    exact_mod_cast small
  · simp
  · rw [abs_of_nonneg (Nat.cast_nonneg number)]
    linarith

theorem zero_small : 0 ≤ 2 ^ 24 := Nat.zero_le _

theorem one_small : 1 ≤ 2 ^ 24 := Nat.one_le_two_pow

/-- A small integer, as a constant. -/
def Single.ofNat (number : ℕ) (small : number ≤ 2 ^ 24) : Single :=
  .finite number (isSingle_natCast small)

/-- The product of two values. -/
def Single.mul : Single → Single → Single
  | .finite first _, .finite second _ => .ofExact (first * second)
  | .infinite negative, .finite value _ =>
    if value = 0 then .nan else .infinite (negative ^^ decide (value < 0))
  | .finite value _, .infinite negative =>
    if value = 0 then .nan else .infinite (decide (value < 0) ^^ negative)
  | .infinite first, .infinite second => .infinite (first ^^ second)
  | .nan, _ => .nan
  | _, .nan => .nan

/-- The difference of two values. -/
def Single.sub : Single → Single → Single
  | .finite first _, .finite second _ => .ofExact (first - second)
  | .infinite negative, .finite _ _ => .infinite negative
  | .finite _ _, .infinite negative => .infinite !negative
  | .infinite first, .infinite second => if first = second then .nan else .infinite first
  | .nan, _ => .nan
  | _, .nan => .nan

/-- Conversion to an unsigned integer of 64 bits: the fraction is dropped. It is
undefined for what does not fit. -/
def Single.toUInt64 : Single → Option UInt64
  | .finite value _ =>
    if -1 < value ∧ value < 2 ^ 64 then some (UInt64.ofNat ⌊value⌋.toNat) else none
  | .infinite _ => none
  | .nan => none

theorem hasBits_mul_two_pow (fits : HasBits x) (scale : ℕ) : HasBits (x * 2 ^ scale) := by
  obtain ⟨significand, exponent, bits, normal, rfl⟩ := fits
  refine ⟨significand, exponent + scale, bits, by omega, ?_⟩
  rw [zpow_add₀ (by norm_num), zpow_natCast, mul_assoc]

theorem Single.ofExact_of_bits (fits : HasBits x) :
    (∃ small : |x| < 2 ^ 128, Single.ofExact x = .finite x ⟨fits, small⟩) ∨
      2 ^ 128 ≤ |x| ∧ Single.ofExact x = .infinite (decide (x < 0)) := by
  have same := nearest_eq_self fits
  by_cases small : |x| < 2 ^ 128
  · refine .inl ⟨small, ?_⟩
    rw [Single.ofExact, dif_pos (same.symm ▸ small)]
    simp only [same]
  · refine .inr ⟨not_lt.mp small, ?_⟩
    rw [Single.ofExact, dif_neg (same.symm ▸ small)]

end Library.SinglePrecision
