import Ospray.Library.Whiles
import Ospray.Volume.IntDiv
import Ospray.Volume.StructuredVolume

/-!
# The voxels of a sample

Local coordinates are clamped between zero and a bound that is meant to be the largest
single-precision value below the last voxel. The voxel that the coordinates are truncated
to and the next one are read along each axis. With a single voxel the bound is zero, and
the next voxel is outside. From 2^24 on the bound is not always below the last voxel.
-/

namespace Ospray.Structured.Sampling

open Library.RowMajor Library.SinglePrecision Library.Whiles

/-! ## The bound -/

/-- A pass of the loop of `nextafter`. All floats in it are finite. -/
def nextafterPass (a delta : ℚ) : Pass ℚ :=
  if toNearest (a + toNearest (1 / 2 * delta)) ≠ a then .again (toNearest (delta * (1 / 2)))
  else .leave delta

/-- `nextafter`, where the loop is run for at most `fuel` passes -/
def nextafter (fuel : Nat) (a b : ℚ) : Option ℚ :=
  if a = b then some b
  else (loop (nextafterPass a) fuel (if b > a then 1 else -1)).map fun delta => toNearest (a + delta)

/-- `localCoordinatesUpperBound` along an axis, of `dimensions - 1`, which is converted to a float -/
def upperBound (fuel : Nat) (dimensions : Dimensions) (axis : Fin 3) : Option ℚ :=
  nextafter fuel (toNearest (dimensions.size axis - 1 : Int)) 0

/-! ## The voxels -/

/-- `clamp`; the smaller one of a number and of what is no number is the number. -/
def clamp (v : Single) (lower upper : ℚ) : ℚ :=
  match v with
  | .finite value _ => max lower (min value upper)
  | .infinite true => lower
  | .infinite false => max lower upper
  | .nan => max lower upper

section

variable (rcp : Single → Single) (gridOrigin gridSpacing : Fin 3 → Single) (upper : Fin 3 → ℚ)

/-- `StructuredVolume_transformWorldToLocal` -/
def transformWorldToLocal (worldCoordinates : Fin 3 → Single) : Fin 3 → Single := fun axis =>
  (rcp (gridSpacing axis)).mul ((worldCoordinates axis).sub (gridOrigin axis))

/-- `voxelIndex_0` -/
def voxelIndex_0 (worldCoordinates : Fin 3 → Single) : Vec3i := fun axis =>
  toInt (clamp (transformWorldToLocal rcp gridOrigin gridSpacing worldCoordinates axis) 0 (upper axis))

/-- The voxel that is read for a corner of the box between `voxelIndex_0` and `voxelIndex_1`. Instead of going
to `voxelIndex_1`, `SSV_sample` adds the bytes of a voxel, a line or a slice. -/
def voxel (worldCoordinates : Fin 3 → Single) (corner : Fin 3 → Bool) : Vec3i := fun axis =>
  let voxelIndex_1 := toInt32 (voxelIndex_0 rcp gridOrigin gridSpacing upper worldCoordinates axis + 1)
  if corner axis then voxelIndex_1 else voxelIndex_0 rcp gridOrigin gridSpacing upper worldCoordinates axis

end

/-- No sample of any grid reads outside of the volume. -/
def ReadsInside (rcp : Single → Single) (dimensions : Dimensions) (upper : Fin 3 → ℚ) : Prop :=
  ∀ gridOrigin gridSpacing worldCoordinates corner axis,
    0 ≤ voxel rcp gridOrigin gridSpacing upper worldCoordinates corner axis ∧
      voxel rcp gridOrigin gridSpacing upper worldCoordinates corner axis ≤ (dimensions.size axis : Int) - 1

/-! ## The loop of `nextafter` -/

section Loop

variable {a delta : ℚ}

theorem nearest_half (halvings : Nat) (few : halvings ≤ 100) :
    toNearest (-(1 / 2) ^ halvings) = -(1 / 2) ^ halvings := by
  refine nearest_eq_self ⟨-1, -halvings, by norm_num, by omega, ?_⟩
  rw [zpow_neg, zpow_natCast, one_div, inv_pow]
  push_cast
  ring

theorem nextafterPass_eq (a : ℚ) {halvings : Nat} (few : halvings ≤ 99) :
    nextafterPass a (-(1 / 2) ^ halvings) =
      if toNearest (a + -(1 / 2) ^ (halvings + 1)) ≠ a then .again (-(1 / 2) ^ (halvings + 1))
      else .leave (-(1 / 2) ^ halvings) := by
  have first : (1 / 2 : ℚ) * -(1 / 2) ^ halvings = -(1 / 2) ^ (halvings + 1) := by
    rw [pow_succ]
    ring
  have second : -(1 / 2 : ℚ) ^ halvings * (1 / 2) = -(1 / 2) ^ (halvings + 1) := by
    rw [pow_succ]
    ring
  rw [nextafterPass, first, second, nearest_half _ (by omega)]

theorem nearest_sub_small (integer : 1 ≤ a) (same : toNearest a = a) :
    toNearest (a + -(1 / 2) ^ 26) = a := by
  have positive : (0 : ℚ) < a + -(1 / 2) ^ 26 := by
    norm_num
    linarith
  have ordered : a + -(1 / 2 : ℚ) ^ 26 ≤ a := by
    norm_num
  apply le_antisymm ((nearest_mono positive.le ordered).trans_eq same)
  apply le_nearest_of_near same positive ordered
  have place : (-24 : ℤ) ≤ unit (a + -(1 / 2) ^ 26) := by
    refine @le_unit (a + -(1 / 2) ^ 26) (-1) positive.ne' ?_
    rw [abs_of_pos positive]
    norm_num
    linarith
  have scale : (2 : ℚ) ^ (-24 : ℤ) ≤ 2 ^ unit (a + -(1 / 2) ^ 26) := zpow_le_zpow_right₀ (by norm_num) place
  norm_num at scale ⊢
  linarith

/-- The decrement is halved until half of it makes no difference. From 1 on, this is after 25 passes at
the latest. -/
theorem nextafterPass_returns (integer : 1 ≤ a) (same : toNearest a = a) :
    ∃ delta, Returns (nextafterPass a) (-1) delta ∧ delta < 0 ∧
      (delta = -1 ∨ -1 / 2 ≤ delta ∧ toNearest (a + delta) ≠ a) := by
  have runs : ∀ left halvings : Nat, halvings + left = 25 →
      (halvings = 0 ∨ toNearest (a + -(1 / 2) ^ halvings) ≠ a) →
      ∃ delta, Returns (nextafterPass a) (-(1 / 2) ^ halvings) delta ∧ delta < 0 ∧
        (delta = -1 ∨ -1 / 2 ≤ delta ∧ toNearest (a + delta) ≠ a) := by
    intro left
    induction left with
    | zero =>
      intro halvings last before
      obtain rfl : halvings = 25 := by omega
      have pass := @nextafterPass_eq a 25 (by decide)
      rw [if_neg (not_not.mpr (nearest_sub_small integer same))] at pass
      exact ⟨_, returns_leave pass, by norm_num, .inr ⟨by norm_num, before.resolve_left (by decide)⟩⟩
    | succ left inductionHypothesis =>
      intro halvings total before
      have pass := @nextafterPass_eq a halvings (by omega)
      by_cases differs : toNearest (a + -(1 / 2) ^ (halvings + 1)) ≠ a
      · rw [if_pos differs] at pass
        obtain ⟨delta, returns, rest⟩ := inductionHypothesis (halvings + 1) (by omega) (.inr differs)
        exact ⟨delta, returns_again pass returns, rest⟩
      · rw [if_neg differs] at pass
        have positive : (0 : ℚ) < (1 / 2) ^ halvings := by positivity
        refine ⟨_, returns_leave pass, by linarith, ?_⟩
        obtain rfl | earlier := before
        · exact .inl (by norm_num)
        · by_cases first : halvings = 0
          · exact .inl (by rw [first, pow_zero])
          · have small : (1 / 2 : ℚ) ^ halvings ≤ (1 / 2) ^ 1 :=
              pow_le_pow_of_le_one (by norm_num) (by norm_num) (by omega)
            exact .inr ⟨by linarith, earlier⟩
  obtain ⟨delta, returns, rest⟩ := runs 25 0 rfl (.inl rfl)
  rw [pow_zero] at returns
  exact ⟨delta, returns, rest⟩

/-- The bound is the rounded predecessor, or a value that is really below. -/
theorem nextafter_returns (integer : 1 ≤ a) (same : toNearest a = a) :
    ∃ upper, (∃ enough, ∀ fuel, enough ≤ fuel → nextafter fuel a 0 = some upper) ∧ 0 ≤ upper ∧ upper ≤ a ∧
      (upper = toNearest (a - 1) ∨ upper < a ∧ toNearest (a - 1 / 2) ≠ a) := by
  obtain ⟨delta, ⟨enough, runs⟩, negative, cases_⟩ := nextafterPass_returns integer same
  have apart : a ≠ 0 := by linarith
  have down : ¬ (0 : ℚ) > a := by linarith
  refine ⟨toNearest (a + delta), ⟨enough, fun fuel more => ?_⟩, ?_, ?_, ?_⟩
  · rw [nextafter, if_neg apart, if_neg down, runs fuel more]
    rfl
  · apply nearest_nonneg
    obtain rfl | ⟨half, -⟩ := cases_
    · linarith
    · linarith
  · have below : toNearest (a + delta) ≤ toNearest a := by
      refine nearest_mono ?_ (by linarith)
      obtain rfl | ⟨half, -⟩ := cases_
      · linarith
      · linarith
    rwa [same] at below
  · obtain rfl | ⟨half, differs⟩ := cases_
    · exact .inl (by rw [sub_eq_add_neg])
    · have below : toNearest (a + delta) ≤ toNearest a := nearest_mono (by linarith) (by linarith)
      have above : toNearest (a - 1 / 2) ≤ toNearest (a + delta) := nearest_mono (by linarith) (by linarith)
      rw [same] at below
      have less := lt_of_le_of_ne below differs
      exact .inr ⟨less, (above.trans_lt less).ne⟩

end Loop

/-! ## Where the bound lies -/

section Integers

variable {n : Int}

/-- The bound is below the last voxel, which has the index `n`. -/
def Below (n : Int) : Prop :=
  1 ≤ n ∧ (n ≤ 2 ^ 24 ∨ toNearest n < n ∨ n < 2 ^ 25 ∧ n % 4 = 2)

theorem nearest_int (nonnegative : 0 ≤ n) (small : n ≤ 2 ^ 24) : toNearest n = n :=
  nearest_eq_self ⟨n, 0, by rwa [abs_of_nonneg nonnegative], by decide, by rw [zpow_zero, mul_one]⟩

/-- Half of an integer, rounded to an even one between two. -/
def roundedHalf (n : Int) : Int := if n % 2 = 0 then n / 2 else n / 2 + n / 2 % 2

theorem roundEven_half (n : Int) : roundEven ((n : ℚ) / 2) = roundedHalf n := by
  rw [roundedHalf]
  have floor : ⌊(n : ℚ) / 2⌋ = n / 2 := Rat.floor_intCast_div_natCast n 2
  have parts : (n : ℚ) = 2 * (n / 2 : Int) + (n % 2 : Int) := by
    exact_mod_cast (Int.mul_ediv_add_emod n 2).symm
  split_ifs with even
  · have whole : (n : ℚ) / 2 = (n / 2 : Int) := by
      rw [even] at parts
      push_cast at parts ⊢
      linarith
    rw [whole, roundEven_intCast]
  · have odd : n % 2 = 1 := by omega
    have rest : (n : ℚ) / 2 - (n / 2 : Int) = 1 / 2 := by
      rw [odd] at parts
      push_cast at parts ⊢
      linarith
    rw [roundEven, floor, rest, if_neg (lt_irrefl _), if_neg (lt_irrefl _)]

theorem nearest_large (low : 2 ^ 24 ≤ n) (high : n < 2 ^ 25) :
    toNearest n = (2 * roundedHalf n : Int) := by
  have place : unit (n : ℚ) = 1 := unit_int (by exact_mod_cast low) (by exact_mod_cast high)
  rw [toNearest, place, zpow_one, roundEven_half]
  push_cast
  ring

/-- Below `2 ^ 25`, only odd multiples of 2 are not rounded to a multiple of 4, where they are not rounded
down, -/
theorem nearest_multiple_small (large : 2 ^ 24 ≤ n) (small : n < 2 ^ 25) (up : (n : ℚ) ≤ toNearest n)
    (other : n % 4 ≠ 2) : ∃ multiple : ℤ, toNearest n = 4 * multiple := by
  have rounded := nearest_large large small
  rw [rounded] at up
  have order : n ≤ 2 * roundedHalf n := by exact_mod_cast up
  have double : roundedHalf n = 2 * (roundedHalf n / 2) := by
    rw [roundedHalf] at order ⊢
    split_ifs at order ⊢ <;> omega
  refine ⟨roundedHalf n / 2, ?_⟩
  rw [rounded, double]
  push_cast
  rw [Int.mul_ediv_cancel_left _ two_ne_zero]
  ring

/-- and from there on there is nothing else. -/
theorem nearest_multiple_large (far : 2 ^ 25 ≤ toNearest n) : ∃ multiple : ℤ, toNearest n = 4 * multiple := by
  have whole : 0 < toNearest n := lt_of_lt_of_le (by norm_num) far
  obtain ⟨significand, multiple⟩ := exists_multiple (nearest_nearest n)
  have unitLarge : 25 - 23 ≤ unit (toNearest n) := by
    apply le_unit whole.ne'
    rw [abs_of_pos whole]
    exact_mod_cast far
  obtain ⟨shift, shifted⟩ := Int.eq_ofNat_of_zero_le (by omega : 0 ≤ unit (toNearest n) - 2)
  refine ⟨significand * 2 ^ shift, ?_⟩
  have split_ : unit (toNearest n) = shift + 2 := by omega
  conv_lhs => rw [multiple, split_, zpow_add₀ (by norm_num)]
  rw [zpow_natCast]
  push_cast
  ring

/-- The predecessor of a multiple of 4 is rounded to it where 2 is the last place, -/
theorem le_predecessor_of_multiple (one : unit (toNearest n - 1) = 1)
    (multiple : ∃ multiple : ℤ, toNearest n = 4 * multiple) :
    toNearest n ≤ toNearest (toNearest n - 1) := by
  obtain ⟨multiple, rounded⟩ := multiple
  refine @le_nearest_of_tie _ _ multiple ?_ ?_
  · rw [one, rounded]
    push_cast
    ring
  · rw [one]
    norm_num

/-- and that of any value where the last place is larger. -/
theorem le_predecessor_of_coarse (positive : 0 < toNearest n - 1) (coarse : 2 ≤ unit (toNearest n - 1)) :
    toNearest n ≤ toNearest (toNearest n - 1) := by
  apply le_nearest_of_near (nearest_nearest n) positive (by linarith)
  have scale : (2 : ℚ) ^ (2 : ℤ) ≤ 2 ^ unit (toNearest n - 1) := zpow_le_zpow_right₀ (by norm_num) coarse
  norm_num at scale
  linarith

theorem predecessor_lt_of_odd (large : 2 ^ 24 < n) (small : n < 2 ^ 25) (odd : n % 4 = 2) :
    toNearest (toNearest n - 1) < n := by
  have half : 2 * roundedHalf n = n := by
    rw [roundedHalf, if_pos (by omega)]
    omega
  have less : 2 * roundedHalf (n - 1) < n := by
    rw [roundedHalf, if_neg (by omega)]
    omega
  have before := @nearest_large (n - 1) (by omega) (by omega)
  rw [Int.cast_sub, Int.cast_one] at before
  rw [nearest_large large.le small, half, before]
  exact Int.cast_lt.mpr less

/-- What an integer from `2 ^ 24` on is rounded up to, or is, has a rounded predecessor that is not less
than it, unless it is an odd multiple of 2 below `2 ^ 25`. -/
theorem predecessor_lt_iff (large : 2 ^ 24 < n) (up : (n : ℚ) ≤ toNearest n) :
    toNearest (toNearest n - 1) < n ↔ n < 2 ^ 25 ∧ n % 4 = 2 := by
  have base : (2 : ℚ) ^ 24 + 1 ≤ n := by exact_mod_cast large
  constructor
  · intro less
    by_contra other
    refine absurd less (not_lt.mpr (up.trans ?_))
    have positive : 0 < toNearest n - 1 := by linarith
    have place : 24 - 23 ≤ unit (toNearest n - 1) := by
      apply le_unit positive.ne'
      rw [abs_of_pos positive]
      norm_num at base ⊢
      linarith
    by_cases coarse : 2 ≤ unit (toNearest n - 1)
    · exact le_predecessor_of_coarse positive coarse
    · apply le_predecessor_of_multiple (by omega)
      by_cases small : n < 2 ^ 25
      · exact nearest_multiple_small large.le small up fun odd => other ⟨small, odd⟩
      · exact nearest_multiple_large (le_trans (by exact_mod_cast not_lt.mp small) up)
  · rintro ⟨small, odd⟩
    exact predecessor_lt_of_odd large small odd

/-- The bound of an axis is below its last voxel where it should be. -/
theorem upper_lt_iff (positive : 1 ≤ n) {upper : ℚ} (bound : upper ≤ toNearest n)
    (last : upper = toNearest (toNearest n - 1) ∨ upper < toNearest n ∧ toNearest (toNearest n - 1 / 2) ≠ toNearest n) :
    upper < n ↔ Below n := by
  by_cases small : n ≤ 2 ^ 24
  · have exact_ := nearest_int (by omega) small
    have before := @nearest_int (n - 1) (by omega) (by omega)
    push_cast at before
    rw [exact_] at bound last
    refine iff_of_true ?_ ⟨positive, .inl small⟩
    obtain rfl | ⟨less, -⟩ := last
    · rw [before]
      linarith
    · exact less
  · have large : 2 ^ 24 < n := not_le.mp small
    by_cases down : toNearest n < n
    · exact iff_of_true (bound.trans_lt down) ⟨positive, .inr (.inl down)⟩
    · have up := not_lt.mp down
      have base : (2 : ℚ) ^ 24 + 1 ≤ n := by exact_mod_cast large
      -- half a unit makes no difference any more
      have half : toNearest (toNearest n - 1 / 2) = toNearest n := by
        have whole : 0 < toNearest n - 1 / 2 := by linarith
        have place : 24 - 23 ≤ unit (toNearest n - 1 / 2) := by
          apply le_unit whole.ne'
          rw [abs_of_pos whole]
          norm_num at base ⊢
          linarith
        have scale : (2 : ℚ) ^ (24 - 23 : ℤ) ≤ 2 ^ unit (toNearest n - 1 / 2) :=
          zpow_le_zpow_right₀ (by norm_num) place
        norm_num at scale
        refine le_antisymm ?_ (le_nearest_of_near (nearest_nearest n) whole (by linarith) (by linarith))
        exact (nearest_mono whole.le (by linarith)).trans_eq (nearest_nearest n)
      obtain rfl | ⟨-, differs⟩ := last
      · rw [predecessor_lt_iff large up, Below]
        exact ⟨fun odd => ⟨positive, .inr (.inr odd)⟩,
          fun below => (below.2.resolve_left small).resolve_left down⟩
      · exact absurd half differs

end Integers

/-- The bound along an axis. -/
theorem upperBound_returns (dimensions : Dimensions) (axis : Fin 3) :
    ∃ upper, (∃ enough, ∀ fuel, enough ≤ fuel → upperBound fuel dimensions axis = some upper) ∧
      0 ≤ upper ∧ upper ≤ 2 ^ 31 ∧
      (upper < (dimensions.size axis - 1 : Int) ↔ Below (dimensions.size axis - 1)) := by
  have some_ := dimensions.positive axis
  have range := dimensions.range axis
  obtain ⟨n, last⟩ : ∃ n : Int, (dimensions.size axis - 1 : Int) = n := ⟨_, rfl⟩
  simp only [upperBound, last]
  by_cases single : n = 0
  · have zero : toNearest (n : ℚ) = 0 := by
      rw [nearest_int (by omega) (by omega), single, Int.cast_zero]
    refine ⟨0, ⟨0, fun fuel _ => ?_⟩, le_rfl, by norm_num, ?_⟩
    · rw [zero, nextafter, if_pos rfl]
    · rw [single, Int.cast_zero, Below]
      exact iff_of_false (lt_irrefl _) fun below => absurd below.1 (by decide)
  · have positive : 1 ≤ n := by omega
    have first : (1 : ℚ) ≤ toNearest n := by
      have one := @nearest_int 1 (by decide) (by decide)
      rw [Int.cast_one] at one
      rw [← one]
      exact nearest_mono zero_le_one (by exact_mod_cast positive)
    have most : toNearest n ≤ 2 ^ 31 := by
      have power := @nearest_of_pow 31 (by decide)
      have order : (n : ℚ) ≤ 2 ^ (31 : ℤ) := by exact_mod_cast (by omega : n ≤ 2 ^ 31)
      exact_mod_cast (nearest_mono (by exact_mod_cast (by omega : 0 ≤ n)) order).trans_eq power
    obtain ⟨upper, returns, nonnegative, bound, cases_⟩ := nextafter_returns first (nearest_nearest n)
    exact ⟨upper, returns, nonnegative, bound.trans most, upper_lt_iff positive bound cases_⟩

/-! ## Samples -/

theorem clamp_mem (v : Single) {upper : ℚ} (nonnegative : 0 ≤ upper) :
    0 ≤ clamp v 0 upper ∧ clamp v 0 upper ≤ upper := by
  unfold clamp
  split
  · exact ⟨le_max_left _ _, max_le nonnegative (min_le_right _ _)⟩
  · exact ⟨le_rfl, nonnegative⟩
  · exact ⟨le_max_left _ _, max_le nonnegative le_rfl⟩
  · exact ⟨le_max_left _ _, max_le nonnegative le_rfl⟩

variable {rcp : Single → Single} {dimensions : Dimensions} {upper : Fin 3 → ℚ}

/-- The reciprocal of 1 is a positive number. -/
def PositiveAtOne (rcp : Single → Single) : Prop :=
  ∃ value single, rcp (.ofNat 1 one_small) = .finite value single ∧ 0 < value

theorem voxelIndex_0_far (one : PositiveAtOne rcp) (axis : Fin 3) (nonnegative : 0 ≤ upper axis) :
    voxelIndex_0 rcp (fun _ => .ofNat 0 (by decide)) (fun _ => .ofNat 1 (by decide)) upper
      (fun _ => .infinite false) axis = toInt (upper axis) := by
  obtain ⟨value, single, same, positive⟩ := one
  have difference : (Single.infinite false).sub (.ofNat 0 (by decide)) = .infinite false := rfl
  have far : (Single.finite value single).mul (.infinite false) = .infinite false := by
    rw [Single.mul, if_neg positive.ne', decide_eq_false positive.not_gt]
    rfl
  rw [voxelIndex_0, transformWorldToLocal, same, difference, far, clamp, max_eq_right nonnegative]

/-- All samples read inside if and only if the bound is below the last voxel. -/
theorem readsInside_iff (one : PositiveAtOne rcp)
    (inside : ∀ axis, 0 ≤ upper axis ∧ upper axis ≤ 2 ^ 31) :
    ReadsInside rcp dimensions upper ↔ ∀ axis, upper axis < (dimensions.size axis - 1 : Int) := by
  constructor
  · intro reads axis
    by_contra beyond
    have range := dimensions.range axis
    have some_ := dimensions.positive axis
    have at_ := fun corner => reads (fun _ => .ofNat 0 (by decide)) (fun _ => .ofNat 1 (by decide))
      (fun _ => .infinite false) corner axis
    have index := voxelIndex_0_far one axis (inside axis).1
    have first := at_ fun _ => false
    have second := at_ fun _ => true
    simp only [voxel, index, if_true, Bool.false_eq_true, if_false] at first second
    by_cases small : upper axis < 2 ^ 31
    · have low : (dimensions.size axis - 1 : Int) ≤ ⌊upper axis⌋ := Int.le_floor.mpr (not_lt.mp beyond)
      rw [toInt_eq (inside axis).1 small] at first second
      rw [toInt32_eq (by omega) (by omega)] at second
      omega
    · have large : upper axis = 2 ^ 31 := le_antisymm (inside axis).2 (not_lt.mp small)
      have least : toInt (upper axis) = -2 ^ 31 := by
        rw [large]
        decide +kernel
      rw [least] at first
      omega
  · intro below gridOrigin gridSpacing worldCoordinates corner axis
    have range := dimensions.range axis
    obtain ⟨low, high⟩ := clamp_mem
      (transformWorldToLocal rcp gridOrigin gridSpacing worldCoordinates axis) (inside axis).1
    have less := high.trans_lt (below axis)
    have floor : ⌊clamp (transformWorldToLocal rcp gridOrigin gridSpacing worldCoordinates axis) 0 (upper axis)⌋ <
        (dimensions.size axis - 1 : Int) := Int.floor_lt.mpr less
    have nonnegative := Int.floor_nonneg.mpr low
    have small : clamp (transformWorldToLocal rcp gridOrigin gridSpacing worldCoordinates axis) 0 (upper axis) <
        2 ^ 31 := by
      apply less.trans
      exact_mod_cast (by omega : (dimensions.size axis - 1 : Int) < 2 ^ 31)
    simp only [voxel, voxelIndex_0]
    rw [toInt_eq low small, toInt32_eq (by omega) (by omega)]
    split_ifs <;> omega

/-- **Samples read inside the volume.** The bound is found, and no sample of any grid reads outside the volume
if and only if along every axis the last voxel has an index from 1 to `2 ^ 24`, one that is rounded down
when it is converted to a float, or one below `2 ^ 25` that is an odd multiple of 2. -/
theorem sample_inside_iff (dimensions : Dimensions) (one : PositiveAtOne rcp) :
    ∃ upper : Fin 3 → ℚ,
      (∃ enough, ∀ fuel, enough ≤ fuel → ∀ axis, upperBound fuel dimensions axis = some (upper axis)) ∧
      (ReadsInside rcp dimensions upper ↔ ∀ axis, Below (dimensions.size axis - 1)) := by
  have bounds := fun axis => upperBound_returns dimensions axis
  choose upper returns low high below using bounds
  choose enough runs using returns
  refine ⟨upper, ⟨max (enough 0) (max (enough 1) (enough 2)), fun fuel more axis => ?_⟩, ?_⟩
  · refine runs axis fuel (le_trans ?_ more)
    induction axis using Library.Literals.three_cases with
    | zero => exact le_max_left _ _
    | one => exact (le_max_left _ _).trans (le_max_right _ _)
    | two => exact (le_max_right _ _).trans (le_max_right _ _)
  · rw [readsInside_iff one fun axis => ⟨low axis, high axis⟩]
    exact forall_congr' below

/-- `rcp`, with the nearest value -/
def exactRcp : Single → Single
  | .finite value _ => if value = 0 then .infinite false else .ofExact value⁻¹
  | .infinite _ => .ofNat 0 zero_small
  | .nan => .nan

theorem exactRcp_one : PositiveAtOne exactRcp := by
  have fits : HasBits (1 : ℚ) := ⟨1, 0, by decide, by decide, by norm_num⟩
  have same : exactRcp (.ofNat 1 (by decide)) = .ofExact 1 := by
    simp only [exactRcp, Single.ofNat]
    norm_num
  obtain ⟨small, exact_⟩ | ⟨large, -⟩ := Single.ofExact_of_bits fits
  · exact ⟨1, _, same.trans exact_, one_pos⟩
  · norm_num at large

theorem sample_inside_4_3_2 :
    ∃ upper : Fin 3 → ℚ,
      (∃ enough, ∀ fuel, enough ≤ fuel → ∀ axis,
        upperBound fuel ⟨![4, 3, 2], by decide, by decide⟩ axis = some (upper axis)) ∧
      ReadsInside exactRcp ⟨![4, 3, 2], by decide, by decide⟩ upper := by
  obtain ⟨upper, returns, inside⟩ := sample_inside_iff ⟨![4, 3, 2], by decide, by decide⟩ exactRcp_one
  refine ⟨upper, returns, inside.mpr fun axis => ?_⟩
  induction axis using Library.Literals.three_cases with
  | zero => exact ⟨by decide, .inl (by decide)⟩
  | one => exact ⟨by decide, .inl (by decide)⟩
  | two => exact ⟨by decide, .inl (by decide)⟩

/-- A volume of a single layer. -/
def slab : Dimensions := ⟨![1, 2, 2], by decide, by decide⟩

/-- All samples of a single layer read the layer behind it. -/
theorem slab_read_outside :
    (∀ fuel, upperBound fuel slab 0 = some 0) ∧
      ∀ rcp gridOrigin gridSpacing upper worldCoordinates, upper 0 = 0 →
        ¬ voxel rcp gridOrigin gridSpacing upper worldCoordinates (fun _ => true) 0 ≤ (slab.size 0 : Int) - 1 := by
  constructor
  · intro fuel
    have last : ((slab.size 0 - 1 : Int) : ℚ) = (0 : Int) := by
      rw [Int.cast_inj]
      rfl
    have zero : toNearest ((0 : Int) : ℚ) = (0 : Int) := nearest_int le_rfl (by decide)
    rw [upperBound, last, zero, nextafter, if_pos Int.cast_zero]
  · intro rcp gridOrigin gridSpacing upper worldCoordinates zero
    obtain ⟨low, high⟩ := clamp_mem
      (transformWorldToLocal rcp gridOrigin gridSpacing worldCoordinates 0) zero.ge
    have first : voxelIndex_0 rcp gridOrigin gridSpacing upper worldCoordinates 0 = 0 := by
      rw [voxelIndex_0, le_antisymm (high.trans_eq zero) low, toInt_eq le_rfl (by norm_num), Int.floor_zero]
    simp only [voxel, first, if_true]
    decide

end Ospray.Structured.Sampling
