import Ospray.Library.Whiles
import Ospray.Volume.CellRanges

/-!
# Skipping empty cells

A ray steps through the cells of the grid accelerator until it is in one that is visible.
From a cell that is not, the ray is advanced by the least number of steps that leads to the
exit of the cell or behind it. A cell that the ray was in before is not looked at again. The
arithmetic is exact.
-/

namespace Ospray.Structured

open Library.RowMajor Library.Whiles

/-- A `Ray` with the fields that stepping needs. -/
structure Ray where
  org : Fin 3 → ℚ
  dir : Fin 3 → ℚ
  t0 : ℚ
  t : ℚ
  time : ℚ
  geomID : Int
  primID : Int
  instID : Int

/-- The ray is marked as having been in a cell. -/
def Ray.track (ray : Ray) (cellIndex : Vec3i) : Ray :=
  { ray with geomID := cellIndex 0, primID := cellIndex 1, instID := cellIndex 2 }

/-- The ray has been in a cell before. -/
def Ray.Tracked (ray : Ray) (cellIndex : Vec3i) : Prop :=
  ray.geomID = cellIndex 0 ∧ ray.primID = cellIndex 1 ∧ ray.instID = cellIndex 2

instance (ray : Ray) (cellIndex : Vec3i) : Decidable (ray.Tracked cellIndex) :=
  inferInstanceAs (Decidable (_ ∧ _ ∧ _))

/-- The ray is advanced. -/
def Ray.advance (ray : Ray) (dist : ℚ) : Ray := { ray with t0 := ray.t0 + dist, time := dist }

/-- A volume, the stored ranges of its cells, and its transfer function. -/
structure Accelerated where
  volume : StructuredVolume
  cellRange : Nat → CellRange
  getMaxOpacityInRange : Value × Value → ℚ

/-- `StructuredVolume_transformLocalToWorld` -/
def StructuredVolume.transformLocalToWorld (volume : StructuredVolume) (localCoordinates : Fin 3 → ℚ) :
    Fin 3 → ℚ :=
  fun axis => volume.gridOrigin axis + localCoordinates axis * volume.gridSpacing axis

/-- `StructuredVolume_transformWorldToLocal` -/
def StructuredVolume.transformWorldToLocal (volume : StructuredVolume) (worldCoordinates : Fin 3 → ℚ) :
    Fin 3 → ℚ :=
  fun axis => (volume.gridSpacing axis)⁻¹ * (worldCoordinates axis - volume.gridOrigin axis)

namespace GridAccelerator

variable (accelerated : Accelerated) (step : ℚ)

/-- The local coordinates of a ray at a distance. -/
def localAt (ray : Ray) (distance : ℚ) : Fin 3 → ℚ :=
  accelerated.volume.transformWorldToLocal fun axis => ray.org axis + distance * ray.dir axis

/-- The cell of a ray at a distance. -/
def hitCell (ray : Ray) (distance : ℚ) : Vec3i :=
  fun axis => truncate (localAt accelerated ray distance axis) >>> (4 : Nat)

/-- A cell is visible where its range is not NaN and has a positive maximum opacity. -/
def visible (cellIndex : Vec3i) : Bool :=
  match accelerated.cellRange (getCellAddress accelerated.volume.dimensions cellIndex) with
  | none => false
  | some range => decide (accelerated.getMaxOpacityInRange range > 0)

/-- The `nextCellIndex` along an axis: the sign bit of the direction is 1 where it is negative. -/
def nextCellIndex (ray : Ray) (axis : Fin 3) : Int := 1 - if ray.dir axis < 0 then 1 else 0

/-- The distances at which a ray leaves a cell along the axes. -/
def maximum (ray : Ray) (cellIndex : Vec3i) : Fin 3 → ℚ :=
  let farBound := accelerated.volume.transformLocalToWorld fun axis =>
    ((cellIndex axis + nextCellIndex ray axis) <<< (4 : Nat) : Int)
  fun axis => (ray.dir axis)⁻¹ * (farBound axis - ray.org axis)

/-- The `exitDist` of a cell. -/
def exitDist (ray : Ray) (cellIndex : Vec3i) : ℚ :=
  let maximum := maximum accelerated ray cellIndex
  min (min ray.t (maximum 0)) (min (maximum 1) (maximum 2))

/-- The loop of `GridAccelerator_stepRay` -/
def stepRayPass (ray : Ray) : Pass Ray :=
  if ray.t0 < ray.t then
    let cellIndex := hitCell accelerated ray ray.t0
    if ray.Tracked cellIndex then .leave ray
    else
      let ray := ray.track cellIndex
      if visible accelerated cellIndex then .leave ray
      else
        let dist := ⌈|exitDist accelerated ray cellIndex - ray.t0| / step⌉ * step
        .again (ray.advance dist)
  else .leave ray

/-- `GridAccelerator_stepRay`: before the loop the ray is advanced by one step. -/
def StepsTo (ray last : Ray) : Prop :=
  Returns (stepRayPass accelerated step) { ray with t0 := ray.t0 + step, time := step } last

/-! ## The exit of a cell -/

/-- A coordinate that changes evenly stays in its interval until it reaches the bound on the side
that it moves to. -/
theorem stays_inside {slope start distance exit time first : ℚ} (moves : slope ≠ 0) (low : first ≤ start)
    (high : start < first + 16)
    (reaches : start + (exit - distance) * slope = first + if slope < 0 then 0 else 16) :
    distance ≤ exit ∧ (distance ≤ time → time < exit →
      first ≤ start + (time - distance) * slope ∧ start + (time - distance) * slope < first + 16) := by
  rcases lt_or_gt_of_ne moves with down | up
  · rw [if_pos down, add_zero] at reaches
    constructor
    · by_contra early
      have passed : 0 < (exit - distance) * slope := mul_pos_of_neg_of_neg (by linarith) down
      linarith
    · intro after before
      have travelled : (time - distance) * slope ≤ 0 :=
        mul_nonpos_of_nonneg_of_nonpos (by linarith) down.le
      have left : (exit - time) * slope < 0 := mul_neg_of_pos_of_neg (by linarith) down
      constructor <;> linarith
  · rw [if_neg (not_lt.mpr up.le)] at reaches
    constructor
    · by_contra early
      have passed : (exit - distance) * slope < 0 := mul_neg_of_neg_of_pos (by linarith) up
      linarith
    · intro after before
      have travelled : 0 ≤ (time - distance) * slope := mul_nonneg (by linarith) up.le
      have left : 0 < (exit - time) * slope := mul_pos (by linarith) up
      constructor <;> linarith

variable {accelerated step} {ray : Ray}

theorem localAt_eq (start distance : ℚ) (axis : Fin 3) : localAt accelerated ray distance axis =
    localAt accelerated ray start axis +
      (distance - start) * (ray.dir axis / accelerated.volume.gridSpacing axis) := by
  simp only [localAt, StructuredVolume.transformWorldToLocal]
  ring

/-- The cell of a ray, where its local coordinates are not negative. -/
theorem hitCell_eq_iff {distance : ℚ} {axis : Fin 3} (nonnegative : 0 ≤ localAt accelerated ray distance axis)
    (cell : Int) : hitCell accelerated ray distance axis = cell ↔
      16 * cell ≤ localAt accelerated ray distance axis ∧
        localAt accelerated ray distance axis < 16 * cell + 16 := by
  have low : 16 * cell ≤ ⌊localAt accelerated ray distance axis⌋ ↔
      (16 * cell : ℚ) ≤ localAt accelerated ray distance axis := by
    rw [Int.le_floor]
    push_cast
    rfl
  have high : ⌊localAt accelerated ray distance axis⌋ < 16 * cell + 16 ↔
      localAt accelerated ray distance axis < 16 * cell + 16 := by
    rw [Int.floor_lt]
    push_cast
    rfl
  rw [← low, ← high, hitCell, truncate, if_pos nonnegative, Int.shiftRight_eq_div_pow]
  omega

/-- The grid has a positive spacing, and the ray moves along every axis. -/
structure Regular (accelerated : Accelerated) (ray : Ray) : Prop where
  spacing : ∀ axis, 0 < accelerated.volume.gridSpacing axis
  moves : ∀ axis, ray.dir axis ≠ 0

/-- At its maximum a ray reaches the bound of the cell that it moves to. -/
theorem localAt_maximum (regular : Regular accelerated ray) (cellIndex : Vec3i) (axis : Fin 3) :
    localAt accelerated ray (maximum accelerated ray cellIndex axis) axis =
      16 * cellIndex axis + if ray.dir axis / accelerated.volume.gridSpacing axis < 0 then 0 else 16 := by
  have spacing := regular.spacing axis
  have moves := regular.moves axis
  have sign : ray.dir axis / accelerated.volume.gridSpacing axis < 0 ↔ ray.dir axis < 0 := by
    rw [div_lt_iff₀ spacing, zero_mul]
  have shifted : ∀ number : Int, ((number <<< (4 : Nat) : Int) : ℚ) = number * 16 := by
    intro number
    rw [Int.shiftLeft_eq]
    push_cast
    norm_num
  simp only [localAt, maximum, StructuredVolume.transformWorldToLocal,
    StructuredVolume.transformLocalToWorld, shifted, nextCellIndex, sign]
  have nonzero := spacing.ne'
  split <;> push_cast <;> field_simp <;> ring

/-- Up to the exit distance, which is not before it, a ray is in the cell it was in. -/
theorem hitCell_exitDist (regular : Regular accelerated ray) (before : ray.t0 < ray.t)
    (nonnegative : ∀ distance, ray.t0 ≤ distance → distance ≤ ray.t → ∀ axis,
      0 ≤ localAt accelerated ray distance axis) :
    ray.t0 ≤ exitDist accelerated ray (hitCell accelerated ray ray.t0) ∧
      ∀ distance, ray.t0 ≤ distance →
        distance < exitDist accelerated ray (hitCell accelerated ray ray.t0) →
          hitCell accelerated ray distance = hitCell accelerated ray ray.t0 := by
  have onAxis : ∀ axis,
      ray.t0 ≤ maximum accelerated ray (hitCell accelerated ray ray.t0) axis ∧
        ∀ distance, ray.t0 ≤ distance → distance < ray.t →
          distance < maximum accelerated ray (hitCell accelerated ray ray.t0) axis →
            hitCell accelerated ray distance axis = hitCell accelerated ray ray.t0 axis := by
    intro axis
    have slope : ray.dir axis / accelerated.volume.gridSpacing axis ≠ 0 :=
      div_ne_zero (regular.moves axis) (regular.spacing axis).ne'
    obtain ⟨low, high⟩ :=
      (hitCell_eq_iff (nonnegative ray.t0 le_rfl before.le axis) _).mp rfl
    have reaches := localAt_maximum regular (hitCell accelerated ray ray.t0) axis
    rw [localAt_eq ray.t0] at reaches
    refine ⟨(@stays_inside _ _ _ _ ray.t0 _ slope low high reaches).1,
      fun distance after inside early => ?_⟩
    rw [hitCell_eq_iff (nonnegative distance after inside.le axis), localAt_eq ray.t0]
    exact (stays_inside slope low high reaches).2 after early
  constructor
  · exact le_min (le_min before.le (onAxis 0).1) (le_min (onAxis 1).1 (onAxis 2).1)
  · intro distance after early
    obtain ⟨⟨inside, zero⟩, one, two⟩ := (lt_min_iff.mp early).imp lt_min_iff.mp lt_min_iff.mp
    funext axis
    induction axis using Library.Literals.three_cases with
    | zero => exact (onAxis 0).2 distance after inside zero
    | one => exact (onAxis 1).2 distance after inside one
    | two => exact (onAxis 2).2 distance after inside two

/-! ## The loop -/

/-- The ray is inside the volume up to its end. -/
def InVolume (accelerated : Accelerated) (ray : Ray) : Prop :=
  ∀ distance, ray.t0 ≤ distance → distance ≤ ray.t → ∀ axis,
    0 ≤ localAt accelerated ray distance axis ∧
      localAt accelerated ray distance axis ≤ accelerated.volume.dimensions.size axis - 1

/-- From its old position the ray was advanced by a positive number of steps, and the cells of all
steps it has passed are not visible. -/
structure Skipped (accelerated : Accelerated) (step : ℚ) (old ray : Ray) : Prop where
  org : ray.org = old.org
  dir : ray.dir = old.dir
  t : ray.t = old.t
  steps : ∃ count : Nat, 1 ≤ count ∧ ray.t0 = old.t0 + count * step ∧
    ∀ number : Nat, 1 ≤ number → number < count →
      visible accelerated (hitCell accelerated old (old.t0 + number * step)) = false

/-- What a pass finds out about the ray's cell. -/
theorem stepRayPass_cases {result : Pass Ray} (pass : stepRayPass accelerated step ray = result) :
    (∃ last, result = .leave last ∧ last.org = ray.org ∧ last.dir = ray.dir ∧ last.t = ray.t ∧
        last.t0 = ray.t0) ∨
      ray.t0 < ray.t ∧ ¬ ray.Tracked (hitCell accelerated ray ray.t0) ∧
        visible accelerated (hitCell accelerated ray ray.t0) = false ∧
        result = .again ((ray.track (hitCell accelerated ray ray.t0)).advance
          (⌈|exitDist accelerated ray (hitCell accelerated ray ray.t0) - ray.t0| / step⌉ * step)) := by
  subst pass
  unfold stepRayPass
  split
  case isFalse => exact .inl ⟨ray, rfl, rfl, rfl, rfl, rfl⟩
  case isTrue before =>
    dsimp only
    split
    case isTrue => exact .inl ⟨ray, rfl, rfl, rfl, rfl, rfl⟩
    case isFalse new =>
      split
      case isTrue => exact .inl ⟨_, rfl, rfl, rfl, rfl, rfl⟩
      case isFalse hidden => exact .inr ⟨before, new, by simpa using hidden, rfl⟩

/-- A bound for the passes to come: two for each step before the end, and one for a cell that the
ray has not been in. -/
def passes (accelerated : Accelerated) (step : ℚ) (ray : Ray) : Nat :=
  2 * ⌈(ray.t - ray.t0) / step⌉.toNat +
    if ray.Tracked (hitCell accelerated ray ray.t0) then 0 else 1

theorem hitCell_congr {other : Ray} (org : ray.org = other.org) (dir : ray.dir = other.dir) :
    hitCell accelerated ray = hitCell accelerated other := by
  funext distance axis
  simp only [hitCell, localAt, org, dir]

/-- The steps of an advance are not visible. -/
theorem Skipped.advance {old : Ray} (positive : 0 < step) (regular : Regular accelerated old)
    (inside : InVolume accelerated old) (skipped : Skipped accelerated step old ray)
    (before : ray.t0 < ray.t) (hidden : visible accelerated (hitCell accelerated ray ray.t0) = false)
    {count : Nat}
    (least : ⌈|exitDist accelerated ray (hitCell accelerated ray ray.t0) - ray.t0| / step⌉ = count) :
    Skipped accelerated step old
      ((ray.track (hitCell accelerated ray ray.t0)).advance (count * step)) := by
  obtain ⟨org, dir, t, past, some_, stands, unseen⟩ := skipped
  have same : hitCell accelerated ray = hitCell accelerated old := hitCell_congr org dir
  have coordinates : ∀ distance, localAt accelerated ray distance = localAt accelerated old distance := by
    intro distance
    simp only [localAt, org, dir]
  have onward : old.t0 ≤ ray.t0 := by
    rw [stands]
    have moved : 0 ≤ past * step := mul_nonneg (Nat.cast_nonneg _) positive.le
    linarith
  obtain ⟨late, stays⟩ := @hitCell_exitDist accelerated ray
    ⟨regular.spacing, dir ▸ regular.moves⟩ before (by
      intro distance after ends axis
      rw [coordinates]
      exact (inside distance (onward.trans after) (t ▸ ends) axis).1)
  refine ⟨org, dir, t, past + count, by omega, ?_, fun number first last => ?_⟩
  · change ray.t0 + count * step = _
    rw [stands]
    push_cast
    ring
  · by_cases earlier : number < past
    · exact unseen number first earlier
    · obtain ⟨more, rfl⟩ : ∃ more, number = past + more := ⟨number - past, by omega⟩
      have place : old.t0 + ((past + more : Nat) : ℚ) * step = ray.t0 + more * step := by
        rw [stands]
        push_cast
        ring
      -- fewer steps than the least number that leads to the exit
      have few : (more : ℚ) * step < exitDist accelerated ray (hitCell accelerated ray ray.t0) - ray.t0 := by
        have fewer : ((more : Int) : ℤ) <
            ⌈|exitDist accelerated ray (hitCell accelerated ray ray.t0) - ray.t0| / step⌉ := by
          rw [least]
          omega
        rw [Int.lt_ceil, lt_div_iff₀ positive, abs_of_nonneg (sub_nonneg.mpr late)] at fewer
        exact_mod_cast fewer
      have ahead : 0 ≤ more * step := mul_nonneg (Nat.cast_nonneg _) positive.le
      rw [place, ← same, stays _ (by linarith) (by linarith)]
      exact hidden

/-- Every pass that goes on leaves less to do. -/
theorem passes_lt (positive : 0 < step) (before : ray.t0 < ray.t)
    (new : ¬ ray.Tracked (hitCell accelerated ray ray.t0)) (count : Nat) :
    passes accelerated step ((ray.track (hitCell accelerated ray ray.t0)).advance (count * step)) <
      passes accelerated step ray := by
  generalize advanced : (ray.track (hitCell accelerated ray ray.t0)).advance (count * step) = next
  have sameOrg : next.org = ray.org := by rw [← advanced]; rfl
  have sameDir : next.dir = ray.dir := by rw [← advanced]; rfl
  have sameEnd : next.t = ray.t := by rw [← advanced]; rfl
  have place : next.t0 = ray.t0 + count * step := by rw [← advanced]; rfl
  have remaining : ⌈(next.t - next.t0) / step⌉ = ⌈(ray.t - ray.t0) / step⌉ - count := by
    rw [sameEnd, place, ← Int.ceil_sub_natCast]
    congr 1
    field_simp
    ring
  have some_ : 0 < ⌈(ray.t - ray.t0) / step⌉ := Int.ceil_pos.mpr (div_pos (by linarith) positive)
  unfold passes
  rw [remaining, if_neg new]
  by_cases stays : count = 0
  · have tracked : next.Tracked (hitCell accelerated next next.t0) := by
      rw [hitCell_congr sameOrg sameDir, place, stays, Nat.cast_zero, zero_mul, add_zero, ← advanced]
      exact ⟨rfl, rfl, rfl⟩
    rw [if_pos tracked]
    omega
  · split <;> omega

/-- The steps a ray has passed when the loop is left. -/
theorem stepsTo_skipped {old : Ray} (positive : 0 < step) (regular : Regular accelerated old)
    (inside : InVolume accelerated old) :
    ∃ last, StepsTo accelerated step old last ∧ Skipped accelerated step old last := by
  apply returns_of_measure (Skipped accelerated step old) (Skipped accelerated step old)
    (passes accelerated step)
  · intro state last skipped pass
    obtain ⟨result, left, org, dir, t, t0⟩ | ⟨-, -, -, went⟩ := stepRayPass_cases pass
    · cases left
      exact ⟨org.trans skipped.org, dir.trans skipped.dir, t.trans skipped.t, t0 ▸ skipped.steps⟩
    · cases went
  · intro state next skipped pass
    obtain ⟨result, left, -⟩ | ⟨before, new, hidden, went⟩ := stepRayPass_cases pass
    · cases left
    · cases went
      obtain ⟨count, least⟩ := Int.eq_ofNat_of_zero_le (Int.ceil_nonneg
        (div_nonneg (abs_nonneg (exitDist accelerated state (hitCell accelerated state state.t0) - state.t0))
          positive.le))
      rw [least]
      exact ⟨skipped.advance positive regular inside before hidden least,
        passes_lt positive before new count⟩
  · exact ⟨rfl, rfl, rfl, 1, le_rfl, by simp, fun number first last => by omega⟩

/-- The stored range of a cell is NaN or has no positive maximum opacity. -/
def Empty (accelerated : Accelerated) (cellIndex : Vec3i) : Prop :=
  ∀ range, accelerated.cellRange (getCellAddress accelerated.volume.dimensions cellIndex) = some range →
    accelerated.getMaxOpacityInRange range ≤ 0

theorem visible_eq_false (cellIndex : Vec3i) :
    visible accelerated cellIndex = false ↔ Empty accelerated cellIndex := by
  unfold visible Empty
  split
  case h_1 none_ => simp [none_]
  case h_2 range some_ => simp [some_]

/-- The ray is stepped to some point, by a positive number of steps, and all points in between are
in empty cells. -/
def SkipsEmpty (accelerated : Accelerated) (step : ℚ) (old : Ray) : Prop :=
  ∃ last, StepsTo accelerated step old last ∧
    (∃ count : Nat, 1 ≤ count ∧ last.t0 = old.t0 + count * step) ∧
    ∀ number : Nat, 1 ≤ number → old.t0 + number * step < last.t0 →
      Empty accelerated (hitCell accelerated old (old.t0 + number * step))

/-- On a grid of positive spacing a ray inside the volume skips empty cells only. -/
theorem stepRay_skipsEmpty (accelerated : Accelerated) (step : ℚ) (old : Ray) (positive : 0 < step)
    (spacing : ∀ axis, 0 < accelerated.volume.gridSpacing axis) (moves : ∀ axis, old.dir axis ≠ 0)
    (inside : InVolume accelerated old) : SkipsEmpty accelerated step old := by
  obtain ⟨last, steps, skipped⟩ := stepsTo_skipped positive ⟨spacing, moves⟩ inside
  obtain ⟨count, some_, stands, unseen⟩ := skipped.steps
  refine ⟨last, steps, ⟨count, some_, stands⟩, fun number first before => ?_⟩
  rw [← visible_eq_false]
  apply unseen number first
  rw [stands, add_lt_add_iff_left, mul_lt_mul_iff_left₀ positive] at before
  exact_mod_cast before

/-- A ray along the two cells. -/
def alongCells (start : ℚ) : Ray where
  org := ![start, 0, 0]
  dir := ![1, 1 / 64, 1 / 64]
  t0 := 0
  t := 18
  time := 0
  geomID := -1
  primID := -1
  instID := -1

theorem stepRay_skipsEmpty_twoCells : SkipsEmpty ⟨twoCells, fun _ => none, fun _ => 1⟩ 1 (alongCells 0) := by
  refine stepRay_skipsEmpty _ _ _ one_pos (fun _ => one_pos) (by decide +kernel) ?_
  intro distance after before axis
  have starts : 0 ≤ distance := after
  have ends : distance ≤ 18 := before
  induction axis using Library.Literals.three_cases with
  | zero =>
    change 0 ≤ 1⁻¹ * (0 + distance * 1 - 0) ∧ 1⁻¹ * (0 + distance * 1 - 0) ≤ ((32 : Nat) : ℚ) - 1
    constructor <;> push_cast <;> linarith
  | one | two =>
    change 0 ≤ 1⁻¹ * (0 + distance * (1 / 64) - 0) ∧ 1⁻¹ * (0 + distance * (1 / 64) - 0) ≤ ((2 : Nat) : ℚ) - 1
    constructor <;> push_cast <;> linarith

/-- The two cells with a spacing of -1 along the first axis; the first cell is visible. -/
def invertedCells : Accelerated where
  volume := { twoCells with gridSpacing := ![-1, 1, 1] }
  cellRange := fun address => if address = 0 then some (finite 1, finite 1) else none
  getMaxOpacityInRange := fun _ => 1

/-- From the second cell a ray inside the volume is advanced by the distance to where it entered
that cell, past points in the first cell. -/
theorem invertedCells_skipped : InVolume invertedCells (alongCells (-18)) ∧
    ¬ SkipsEmpty invertedCells 1 (alongCells (-18)) := by
  constructor
  · intro distance after before axis
    have starts : 0 ≤ distance := after
    have ends : distance ≤ 18 := before
    induction axis using Library.Literals.three_cases with
    | zero =>
      change 0 ≤ (-1 : ℚ)⁻¹ * (-18 + distance * 1 - 0) ∧
        (-1 : ℚ)⁻¹ * (-18 + distance * 1 - 0) ≤ ((32 : Nat) : ℚ) - 1
      constructor <;> push_cast <;> linarith
    | one | two =>
      change 0 ≤ 1⁻¹ * (0 + distance * (1 / 64) - 0) ∧ 1⁻¹ * (0 + distance * (1 / 64) - 0) ≤ ((2 : Nat) : ℚ) - 1
      constructor <;> push_cast <;> linarith
  · rintro ⟨last, steps, -, empty⟩
    obtain ⟨result, run, place⟩ : ∃ result,
        loop (stepRayPass invertedCells 1) 2
          { alongCells (-18) with t0 := (alongCells (-18)).t0 + 1, time := 1 } = some result ∧
          result.t0 = 16 := by
      rw [← Option.map_eq_some_iff]
      decide +kernel
    have same := steps.eq_of_loop run
    have passed := empty 3 (by decide) (by rw [same, place]; decide +kernel)
    exact absurd (passed (finite 1, finite 1) (by decide +kernel)) (by decide +kernel)

end GridAccelerator

end Ospray.Structured
