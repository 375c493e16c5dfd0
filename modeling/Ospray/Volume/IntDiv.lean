import Ospray.Library.SinglePrecision

/-!
# Division by a multiplication of floats

`GhostBlockBrickedVolume` finds the block of a voxel by multiplying its index, or the
position it was truncated from, by the single-precision reciprocal of 63. The
reciprocal is slightly too large, and the product is rounded: where it comes within half
a unit of the last place of the next integer, the block after the right one is found.
-/

namespace Ospray.Structured

open Library.SinglePrecision

/-- `1.f/(BLOCK_WIDTH-1.f)` -/
def reciprocal : ℚ := toNearest (1 / 63)

/-- `(int)` of a float: the fraction is dropped. -/
def truncate (x : ℚ) : ℤ := if 0 ≤ x then ⌊x⌋ else ⌈x⌉

/-- What does not fit into an `int` becomes the least one. -/
def toInt (x : ℚ) : ℤ :=
  if -2 ^ 31 ≤ truncate x ∧ truncate x < 2 ^ 31 then truncate x else -2 ^ 31

/-- `intDiv` of a `float` -/
def intDivFloat (x : ℚ) : ℤ := truncate (toNearest (x * reciprocal))

/-- `intDiv` of an `int`, which is converted first. -/
def intDivInt (x : ℤ) : ℤ := truncate (toNearest (toNearest x * reciprocal))

theorem toInt_eq {x : ℚ} (nonnegative : 0 ≤ x) (small : x < 2 ^ 31) : toInt x = ⌊x⌋ := by
  have floor : truncate x = ⌊x⌋ := if_pos nonnegative
  have low : 0 ≤ ⌊x⌋ := Int.floor_nonneg.mpr nonnegative
  have high : ⌊x⌋ < 2 ^ 31 := by
    rw [Int.floor_lt]
    push_cast
    exact small
  rw [toInt, floor, if_pos ⟨by omega, high⟩]

theorem reciprocal_eq : reciprocal = 8521761 / 2 ^ 29 := by
  have place : unit (1 / 63) = -29 := by
    have below := @unit_le (1 / 63) (-5) (by norm_num) (by rw [abs_of_pos] <;> norm_num) (by decide)
    have above := @le_unit (1 / 63) (-6) (by norm_num) (by rw [abs_of_pos] <;> norm_num)
    omega
  have scaled : (1 / 63 : ℚ) / 2 ^ (-29 : ℤ) = 536870912 / 63 := by norm_num
  have floor : ⌊(536870912 / 63 : ℚ)⌋ = 8521760 := by
    rw [Int.floor_eq_iff]
    norm_num
  have nearestInteger : roundEven (536870912 / 63) = 8521761 := by
    rw [roundEven, floor]
    norm_num
  rw [reciprocal, toNearest, place, scaled, nearestInteger]
  norm_num

theorem reciprocal_gt : 1 / 63 < reciprocal := by
  rw [reciprocal_eq]
  norm_num

/-! ## The block that is found -/

/-- The distance from the exact product to the next integer that the rounding bridges. -/
def bridged (x : ℚ) : ℚ := 2 ^ unit (x * reciprocal) / 2

section

variable {x : ℚ} (nonnegative : 0 ≤ x)

include nonnegative

theorem product_nonneg : 0 ≤ x * reciprocal := by
  have positive := reciprocal_gt
  exact mul_nonneg nonnegative (by linarith)

theorem quotient_le_product : x / 63 ≤ x * reciprocal := by
  rw [div_eq_mul_one_div]
  exact mul_le_mul_of_nonneg_left reciprocal_gt.le nonnegative

theorem le_intDivFloat (small : x < 63 * 2 ^ 22) : ⌊x / 63⌋ ≤ intDivFloat x := by
  have product := product_nonneg nonnegative
  have bound : x * reciprocal < 2 ^ 24 := by
    rw [reciprocal_eq]
    linarith
  have quotient : ((⌊x / 63⌋ : ℤ) : ℚ) ≤ x * reciprocal :=
    (Int.floor_le _).trans (quotient_le_product nonnegative)
  have zero : (0 : ℚ) ≤ toNearest (x * reciprocal) :=
    by exact_mod_cast @le_nearest _ 0 product bound (by exact_mod_cast product)
  rw [intDivFloat, truncate, if_pos zero, Int.le_floor]
  exact le_nearest product bound quotient

/-- The right block is found exactly where the product stays clear of the next integer. -/
theorem intDivFloat_eq_iff (small : x < 63 * 2 ^ 22) :
    intDivFloat x = ⌊x / 63⌋ ↔ x * reciprocal < ⌊x / 63⌋ + 1 - bridged x := by
  have product := product_nonneg nonnegative
  have bound : x * reciprocal < 2 ^ 23 := by
    rw [reciprocal_eq]
    linarith
  have below := le_intDivFloat nonnegative (by linarith)
  have zero : (0 : ℚ) ≤ toNearest (x * reciprocal) :=
    by exact_mod_cast @le_nearest _ 0 product (by linarith) (by exact_mod_cast product)
  have next : intDivFloat x < ⌊x / 63⌋ + 1 ↔
      toNearest (x * reciprocal) < ((⌊x / 63⌋ + 1 : ℤ) : ℚ) := by
    rw [intDivFloat, truncate, if_pos zero, Int.floor_lt]
  constructor
  · intro found
    by_contra near
    have reached := @le_nearest_of_half _ (⌊x / 63⌋ + 1) product bound (by
      push_cast
      exact not_lt.mp near)
    have stays := next.mp (by omega)
    exact absurd reached (not_le.mpr stays)
  · intro clear
    have stays := @nearest_lt _ (⌊x / 63⌋ + 1) product (by linarith) (by
      push_cast
      exact clear)
    have found := next.mpr stays
    omega

end

/-! ## Coordinates -/

/-- The index of a position in its block, as `GBBV_getAddress` finds it for `GBBV_sample`:
the voxel is the truncated position, but the block is found from the position itself. -/
def voxelIdxInBlock (position : ℚ) : ℤ := truncate position - intDivFloat position * 63

/-- The positions along an axis of a volume that are sampled. -/
def Sampled (dimension : ℤ) (position : ℚ) : Prop :=
  IsSingle position ∧ 0 ≤ position ∧ ⌊position⌋ ≤ dimension - 2

theorem voxelIdxInBlock_inside_iff {position : ℚ} (nonnegative : 0 ≤ position)
    (small : position < 63 * 2 ^ 22) :
    0 ≤ voxelIdxInBlock position ∧ voxelIdxInBlock position ≤ 62 ↔
      position * reciprocal < ⌊position / 63⌋ + 1 - bridged position := by
  rw [← intDivFloat_eq_iff nonnegative small]
  have quotient : ⌊position / 63⌋ = ⌊position⌋ / 63 := by
    exact_mod_cast Int.floor_div_natCast position 63
  rw [voxelIdxInBlock, truncate, if_pos nonnegative, quotient]
  omega

theorem bridged_le {position : ℚ} {power : ℤ} (nonnegative : 0 ≤ position) (large : 1 ≤ power)
    (below : position * reciprocal < 2 ^ power) : bridged position ≤ 2 ^ (power - 25) := by
  have place : unit (position * reciprocal) ≤ power - 24 := by
    by_cases zero : position * reciprocal = 0
    · rw [zero, unit, abs_zero, Int.log_zero_right]
      omega
    · refine unit_le zero ?_ (by omega)
      rwa [abs_of_nonneg (product_nonneg nonnegative)]
  calc bridged position ≤ 2 ^ (power - 24) / 2 :=
        div_le_div_of_nonneg_right (zpow_le_zpow_right₀ (by norm_num) place) (by norm_num)
    _ = 2 ^ (power - 25) := by
      rw [show power - 24 = power - 25 + 1 by ring, zpow_add_one₀ (by norm_num)]
      ring

theorem le_bridged {position : ℚ} {power : ℤ} (above : 2 ^ power ≤ position * reciprocal) :
    2 ^ (power - 24) ≤ bridged position := by
  have positive : 0 < position * reciprocal := lt_of_lt_of_le (zpow_pos (by norm_num) power) above
  have place : power - 23 ≤ unit (position * reciprocal) := by
    refine le_unit positive.ne' ?_
    rwa [abs_of_pos positive]
  calc (2 : ℚ) ^ (power - 24) = 2 ^ (power - 23) / 2 := by
        rw [show power - 23 = power - 24 + 1 by ring, zpow_add_one₀ (by norm_num)]
        ring
    _ ≤ bridged position :=
        div_le_div_of_nonneg_right (zpow_le_zpow_right₀ (by norm_num) place) (by norm_num)

/-- In the first block, but for its last voxel, the index is inside. -/
theorem first_block {position : ℚ} (nonnegative : 0 ≤ position) (first : position < 62) :
    0 ≤ voxelIdxInBlock position ∧ voxelIdxInBlock position ≤ 62 := by
  rw [voxelIdxInBlock_inside_iff nonnegative (by linarith)]
  have product : position * reciprocal < 1 - 2 ^ (1 - 25 : ℤ) := by
    rw [reciprocal_eq]
    norm_num
    linarith
  have block : ⌊position / 63⌋ = 0 := by
    rw [Int.floor_eq_zero_iff]
    constructor
    · exact div_nonneg nonnegative (by norm_num)
    · rw [div_lt_one (by norm_num)]
      linarith
  have gap : bridged position ≤ 2 ^ (1 - 25 : ℤ) :=
    bridged_le nonnegative le_rfl (by norm_num at product ⊢; linarith)
  rw [block]
  push_cast
  linarith

/-- The position just before voxel 63 at which the next block is found. -/
def beforeBlock : ℚ := 63 - 2 ^ (-18 : ℤ)

theorem isSingle_beforeBlock : IsSingle beforeBlock := by
  refine ⟨⟨63 * 2 ^ 18 - 1, -18, by norm_num, by norm_num, ?_⟩, ?_⟩
  · norm_num [beforeBlock]
  · norm_num [beforeBlock, abs_of_pos]

theorem floor_beforeBlock : ⌊beforeBlock⌋ = 62 := by
  rw [Int.floor_eq_iff]
  norm_num [beforeBlock]

theorem intDivFloat_beforeBlock : 1 ≤ intDivFloat beforeBlock := by
  have nonnegative : 0 ≤ beforeBlock := by norm_num [beforeBlock]
  have block : ⌊beforeBlock / 63⌋ = 0 := by
    rw [Int.floor_eq_zero_iff]
    norm_num [beforeBlock]
  have small : beforeBlock < 63 * 2 ^ 22 := by norm_num [beforeBlock]
  have bound := le_intDivFloat nonnegative small
  have gap : 2 ^ (-1 - 24 : ℤ) ≤ bridged beforeBlock :=
    le_bridged (by norm_num [beforeBlock, reciprocal_eq])
  have missed : ¬ intDivFloat beforeBlock = 0 := by
    rw [← block, intDivFloat_eq_iff nonnegative small, block, not_lt]
    have near : (1 : ℚ) - 2 ^ (-1 - 24 : ℤ) ≤ beforeBlock * reciprocal := by
      norm_num [beforeBlock, reciprocal_eq]
    push_cast
    linarith
  omega

/-! ## Indices -/

/-- The indices of the voxels along an axis of a volume. -/
def VoxelIndex (dimension index : ℤ) : Prop := 0 ≤ index ∧ index ≤ dimension - 1

theorem intDivInt_eq {index : ℤ} (nonnegative : 0 ≤ index) (small : index ≤ 2 ^ 24) :
    intDivInt index = intDivFloat index := by
  have bits : HasBits (index : ℚ) := by
    refine ⟨index, 0, ?_, by decide, by simp⟩
    rwa [abs_of_nonneg nonnegative]
  rw [intDivInt, intDivFloat, nearest_eq_self bits]

/-- The right block of an index is found exactly where the product stays clear. -/
theorem intDivInt_eq_iff {index : ℤ} (nonnegative : 0 ≤ index) (small : index ≤ 2 ^ 24) :
    intDivInt index = index / 63 ↔
      (index : ℚ) * reciprocal < ((index / 63 : ℤ) : ℚ) + 1 - bridged index := by
  have above : (0 : ℚ) ≤ index := by exact_mod_cast nonnegative
  have below : (index : ℚ) ≤ 2 ^ 24 := by exact_mod_cast small
  have exact_ := intDivFloat_eq_iff above (by linarith)
  have quotient : ⌊(index : ℚ) / 63⌋ = index / 63 := by
    have divided := Int.floor_div_natCast (index : ℚ) 63
    rw [Int.floor_intCast] at divided
    exact_mod_cast divided
  rw [quotient] at exact_
  rw [intDivInt_eq nonnegative small]
  exact exact_

/-- The first index that is too large. -/
def firstWrong : ℤ := 8794547

/-- Below it, the block of an index is the right one. -/
theorem intDivInt_below {index : ℤ} (nonnegative : 0 ≤ index) (below : index < firstWrong) :
    intDivInt index = index / 63 := by
  rw [firstWrong] at below
  rw [intDivInt_eq_iff nonnegative (by omega)]
  have above : (0 : ℚ) ≤ index := by exact_mod_cast nonnegative
  generalize block : index / 63 = next
  by_cases low : index < 63 * 2 ^ 17
  · -- half a unit is at most 1/256
    have last : (index : ℚ) ≤ 63 * next + 62 := by exact_mod_cast (by omega : index ≤ 63 * next + 62)
    have few : (next : ℚ) ≤ 2 ^ 17 - 1 := by exact_mod_cast (by omega : next ≤ 2 ^ 17 - 1)
    have gap := @bridged_le _ 17 above (by decide) (by
      rw [reciprocal_eq]
      norm_num
      linarith)
    rw [reciprocal_eq]
    norm_num at gap few ⊢
    linarith
  · -- and at most 1/128 here
    have low : (index : ℚ) ≤ 8794546 := by exact_mod_cast (by omega : index ≤ 8794546)
    have gap := @bridged_le _ 18 above (by decide) (by
      rw [reciprocal_eq]
      norm_num
      linarith)
    rw [reciprocal_eq]
    norm_num at gap ⊢
    by_cases last : next = 139595
    · subst last
      push_cast
      linarith
    · have last : (index : ℚ) ≤ 63 * next + 62 := by
        exact_mod_cast (by omega : index ≤ 63 * next + 62)
      have few : (next : ℚ) ≤ 139594 := by exact_mod_cast (by omega : next ≤ 139594)
      linarith

theorem intDivInt_firstWrong : intDivInt firstWrong ≠ firstWrong / 63 := by
  have block : firstWrong / 63 = 139595 := by decide
  intro found
  rw [intDivInt_eq_iff (by decide) (by decide), block, reciprocal_eq, firstWrong] at found
  have gap : 2 ^ (17 - 24 : ℤ) ≤ bridged (8794547 : ℤ) :=
    le_bridged (by norm_num [reciprocal_eq])
  norm_num at found gap
  linarith

theorem intDivInt_exact_iff (dimension : ℤ) :
    (∀ index, VoxelIndex dimension index → intDivInt index = index / 63) ↔
      dimension ≤ firstWrong := by
  constructor
  · intro exact_
    by_contra large
    exact intDivInt_firstWrong (exact_ firstWrong ⟨by decide, by omega⟩)
  · intro small index inside
    exact intDivInt_below inside.1 (by have last := inside.2; omega)

/-! ## A volume -/

/-- Every position of a volume that is sampled has its index inside the block, and every
index is divided exactly, where the volume has no voxel beyond the first block. -/
theorem intDiv_inside_iff (dimension : ℤ) (more : 2 ≤ dimension) :
    (∀ position, Sampled dimension position →
        0 ≤ voxelIdxInBlock position ∧ voxelIdxInBlock position ≤ 62) ∧
      (∀ index, VoxelIndex dimension index → intDivInt index = index / 63) ↔ dimension ≤ 63 := by
  constructor
  · rintro ⟨inside, -⟩
    by_contra large
    have before : Sampled dimension beforeBlock :=
      ⟨isSingle_beforeBlock, by norm_num [beforeBlock], by rw [floor_beforeBlock]; omega⟩
    have index := (inside beforeBlock before).1
    have found := intDivFloat_beforeBlock
    rw [voxelIdxInBlock, truncate, if_pos before.2.1, floor_beforeBlock] at index
    omega
  · intro small
    refine ⟨fun position sampled => first_block sampled.2.1 ?_, ?_⟩
    · have last : ⌊position⌋ < 62 := by have floor := sampled.2.2; omega
      exact_mod_cast Int.floor_lt.mp last
    · exact (intDivInt_exact_iff dimension).mpr (by rw [firstWrong]; omega)

/-- A volume of one block. -/
theorem intDiv_inside_one :
    (∀ position, Sampled 63 position →
        0 ≤ voxelIdxInBlock position ∧ voxelIdxInBlock position ≤ 62) ∧
      (∀ index, VoxelIndex 63 index → intDivInt index = index / 63) :=
  (intDiv_inside_iff 63 (by decide)).mpr le_rfl

/-- In a volume of 64 voxels, a position before voxel 63 is looked up in the second block,
at the voxel before its first one. -/
theorem intDiv_outside : Sampled 64 beforeBlock ∧ voxelIdxInBlock beforeBlock < 0 := by
  have nonnegative : 0 ≤ beforeBlock := by norm_num [beforeBlock]
  refine ⟨⟨isSingle_beforeBlock, nonnegative, by rw [floor_beforeBlock]; decide⟩, ?_⟩
  have found := intDivFloat_beforeBlock
  rw [voxelIdxInBlock, truncate, if_pos nonnegative, floor_beforeBlock]
  omega

end Ospray.Structured
