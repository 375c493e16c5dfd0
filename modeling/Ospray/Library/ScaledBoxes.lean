import Mathlib.Algebra.Order.Floor.Ring
import Mathlib.Algebra.Order.Field.Basic
import Mathlib.Data.List.Pairwise
import Mathlib.Tactic.Linarith
import Ospray.Library.Literals

/-!
# Boxes of a grid that is scaled up

A grid is cut into boxes, and each box is scaled on its own: its lower corner and its size
are multiplied by a factor for each axis, and rounded down. Together they give the scaled
grid if and only if no corner is rounded. Scaled boxes never overlap, and a point of one is
always a copy of a point of the box.
-/

namespace Library.ScaledBoxes

universe u v
variable {ι : Type u} {K : Type v}

/-! ## Boxes -/

/-- The points from a lower corner on, as many along each axis as the size says. -/
structure SizedBox (ι : Type u) where
  lower : ι → ℤ
  size : ι → ℕ

namespace SizedBox

variable {first second box : SizedBox ι} {point : ι → ℤ}

def Covers (box : SizedBox ι) (point : ι → ℤ) : Prop :=
  ∀ axis, box.lower axis ≤ point axis ∧ point axis < box.lower axis + box.size axis

/-- There are points in the box. -/
def Solid (box : SizedBox ι) : Prop := ∀ axis, 0 < box.size axis

/-- Two boxes have no point in common. -/
def Apart (first second : SizedBox ι) : Prop := ∀ point, ¬ (first.Covers point ∧ second.Covers point)

theorem Covers.solid (covers : box.Covers point) : box.Solid := fun axis => by
  have bounds := covers axis
  omega

theorem Solid.covers (solid : box.Solid) : box.Covers box.lower := fun axis => by
  have some_ := solid axis
  omega

instance : Std.Symm (@Apart ι) where
  symm _ _ apart point covers := apart point ⟨covers.2, covers.1⟩

theorem Apart.axis (apart : Apart first second) (firstSolid : first.Solid) (secondSolid : second.Solid) :
    ∃ axis, first.lower axis + first.size axis ≤ second.lower axis ∨
      second.lower axis + second.size axis ≤ first.lower axis := by
  by_contra overlap
  refine apart (fun axis => max (first.lower axis) (second.lower axis)) ⟨fun axis => ?_, fun axis => ?_⟩
  all_goals
    have some_ := firstSolid axis
    have others := secondSolid axis
    have none_ := not_or.mp (not_exists.mp overlap axis)
    dsimp only
    omega

end SizedBox

/-- Boxes without common points cover a grid. -/
structure Tiles (size : ι → ℕ) (boxes : List (SizedBox ι)) : Prop where
  apart : boxes.Pairwise SizedBox.Apart
  covers : ∀ point, (∃ box ∈ boxes, box.Covers point) ↔ ∀ axis, 0 ≤ point axis ∧ point axis < size axis

namespace Tiles

variable {size : ι → ℕ} {boxes : List (SizedBox ι)} {first second box : SizedBox ι} {point : ι → ℤ}

theorem apart_of_ne (tiles : Tiles size boxes) (firstListed : first ∈ boxes) (secondListed : second ∈ boxes)
    (different : first ≠ second) : first.Apart second :=
  tiles.apart.forall firstListed secondListed different

theorem unique (tiles : Tiles size boxes) (firstListed : first ∈ boxes) (secondListed : second ∈ boxes)
    (firstCovers : first.Covers point) (secondCovers : second.Covers point) : first = second := by
  by_contra different
  exact tiles.apart_of_ne firstListed secondListed different point ⟨firstCovers, secondCovers⟩

theorem inside (tiles : Tiles size boxes) (listed : box ∈ boxes) (solid : box.Solid) (axis : ι) :
    0 ≤ box.lower axis ∧ box.lower axis + box.size axis ≤ size axis := by
  have start := (tiles.covers _).mp ⟨box, listed, solid.covers⟩ axis
  have last : box.Covers fun axis => box.lower axis + (box.size axis - 1) := fun axis => by
    have some_ := solid axis
    dsimp only
    omega
  have end_ := (tiles.covers _).mp ⟨box, listed, last⟩ axis
  omega

/-- A box ends where another one starts, or with the grid. -/
theorem next [DecidableEq ι] (tiles : Tiles size boxes) (listed : box ∈ boxes) (covers : box.Covers point)
    (axis : ι) :
    box.lower axis + box.size axis = size axis ∨
      ∃ other ∈ boxes, other.Solid ∧ other.lower axis = box.lower axis + box.size axis := by
  have own := covers axis
  have moved : ∀ {other : SizedBox ι} {target : ℤ}, other.lower axis ≤ target →
      target < other.lower axis + other.size axis → (∀ rest, rest ≠ axis →
        other.lower rest ≤ point rest ∧ point rest < other.lower rest + other.size rest) →
      other.Covers (Function.update point axis target) := by
    intro other target low high rest axis'
    by_cases same : axis' = axis
    · rw [same, Function.update_self]
      exact ⟨low, high⟩
    · rw [Function.update_of_ne same]
      exact rest axis' same
  -- the last point of the box along the axis, and the one behind it
  have last := @moved box (box.lower axis + box.size axis - 1) (by omega) (by omega) fun rest _ => covers rest
  have lastInside := (tiles.covers _).mp ⟨box, listed, last⟩
  have end_ := lastInside axis
  rw [Function.update_self] at end_
  by_cases finished : box.lower axis + box.size axis = size axis
  · exact .inl finished
  · have behind : ∀ axis', 0 ≤ Function.update point axis (box.lower axis + box.size axis) axis' ∧
        Function.update point axis (box.lower axis + box.size axis) axis' < size axis' := by
      intro axis'
      have inside := lastInside axis'
      by_cases same : axis' = axis
      · subst same
        rw [Function.update_self] at inside ⊢
        omega
      · rwa [Function.update_of_ne same] at inside ⊢
    obtain ⟨other, otherListed, otherCovers⟩ := (tiles.covers _).mpr behind
    have start := otherCovers axis
    rw [Function.update_self] at start
    refine .inr ⟨other, otherListed, otherCovers.solid, le_antisymm start.1 (not_lt.mp fun before => ?_)⟩
    have back : other.Covers (Function.update point axis (box.lower axis + box.size axis - 1)) := by
      refine moved (by omega) (by omega) fun rest apart => ?_
      have kept := otherCovers rest
      rwa [Function.update_of_ne apart] at kept
    obtain rfl := tiles.unique otherListed listed back last
    omega

end Tiles

/-! ## Scaling -/

section

variable [Field K] [LinearOrder K] [FloorRing K] (scale : ι → K)

/-- Corner and size are scaled and rounded down. -/
def SizedBox.scaled (box : SizedBox ι) : SizedBox ι where
  lower := fun axis => ⌊scale axis * box.lower axis⌋
  size := fun axis => ⌊scale axis * box.size axis⌋.toNat

/-- The point of the grid of which a point of the scaled grid should be a copy. -/
def origin (point : ι → ℤ) : ι → ℤ := fun axis => ⌊point axis / scale axis⌋

/-- The point of a box of which a point of the scaled box is a copy. -/
def copied (box : SizedBox ι) (point : ι → ℤ) : ι → ℤ := fun axis =>
  box.lower axis + ⌊((point axis - (box.scaled scale).lower axis : ℤ) : K) / scale axis⌋

/-- The scaled corner is not rounded. -/
def Aligned (box : SizedBox ι) : Prop :=
  ∀ axis, ((box.scaled scale).lower axis : K) = scale axis * box.lower axis

/-- Scaling the boxes gives the scaled grid. -/
def Commutes (size : ι → ℕ) (boxes : List (SizedBox ι)) : Prop :=
  ∀ point : ι → ℤ, (∀ axis, 0 ≤ point axis ∧ point axis < ⌊scale axis * size axis⌋) →
    (∃ box ∈ boxes, (box.scaled scale).Covers point) ∧
      ∀ box ∈ boxes, (box.scaled scale).Covers point → copied scale box point = origin scale point

end

section

variable [Field K] [LinearOrder K] [IsStrictOrderedRing K] [FloorRing K] {scale : ι → K}
  {size : ι → ℕ} {boxes : List (SizedBox ι)} {first second box : SizedBox ι} {point : ι → ℤ}

theorem scaled_size (positive : ∀ axis, 0 ≤ scale axis) (box : SizedBox ι) (axis : ι) :
    ((box.scaled scale).size axis : ℤ) = ⌊scale axis * box.size axis⌋ :=
  Int.toNat_of_nonneg (Int.floor_nonneg.mpr (mul_nonneg (positive axis) (Nat.cast_nonneg _)))

theorem scaled_end_le (positive : ∀ axis, 0 ≤ scale axis) (box : SizedBox ι) (axis : ι) :
    (box.scaled scale).lower axis + (box.scaled scale).size axis ≤
      ⌊scale axis * ((box.lower axis + box.size axis : ℤ) : K)⌋ := by
  rw [scaled_size positive, Int.cast_add, Int.cast_natCast, mul_add]
  exact Int.le_floor_add _ _

theorem solid_of_scaled (covers : (box.scaled scale).Covers point) : box.Solid := by
  intro axis
  by_contra none_
  have bounds := covers axis
  have zero : (box.scaled scale).size axis = 0 := by
    change ⌊scale axis * box.size axis⌋.toNat = 0
    rw [Nat.eq_zero_of_not_pos none_, Nat.cast_zero, mul_zero, Int.floor_zero, Int.toNat_zero]
  omega

theorem scaled_apart (positive : ∀ axis, 0 ≤ scale axis) (apart : first.Apart second) :
    (first.scaled scale).Apart (second.scaled scale) := by
  rintro point ⟨firstCovers, secondCovers⟩
  obtain ⟨axis, before⟩ := apart.axis (solid_of_scaled firstCovers) (solid_of_scaled secondCovers)
  have ordered : ∀ {low high : SizedBox ι}, low.lower axis + low.size axis ≤ high.lower axis →
      (low.scaled scale).lower axis + (low.scaled scale).size axis ≤ (high.scaled scale).lower axis := by
    intro low high less
    refine (scaled_end_le positive low axis).trans (Int.floor_mono ?_)
    exact mul_le_mul_of_nonneg_left (Int.cast_le.mpr less) (positive axis)
  have firstBounds := firstCovers axis
  have secondBounds := secondCovers axis
  obtain less | less := before
  · have scaledLess := ordered less
    omega
  · have scaledLess := ordered less
    omega

theorem covers_copied (positive : ∀ axis, 0 < scale axis) (covers : (box.scaled scale).Covers point) :
    box.Covers (copied scale box point) := by
  intro axis
  have bounds := covers axis
  rw [scaled_size fun axis => (positive axis).le] at bounds
  have offset : 0 ≤ point axis - (box.scaled scale).lower axis := by omega
  have low : 0 ≤ ⌊((point axis - (box.scaled scale).lower axis : ℤ) : K) / scale axis⌋ :=
    Int.floor_nonneg.mpr (div_nonneg (Int.cast_nonneg offset) (positive axis).le)
  have high : ⌊((point axis - (box.scaled scale).lower axis : ℤ) : K) / scale axis⌋ < box.size axis := by
    rw [Int.floor_lt, div_lt_iff₀' (positive axis), Int.cast_natCast]
    refine lt_of_lt_of_le (Int.cast_lt.mpr ?_) (Int.floor_le _)
    omega
  rw [copied]
  omega

theorem copied_eq (positive : ∀ axis, 0 < scale axis) (aligned : Aligned scale box) (point : ι → ℤ) :
    copied scale box point = origin scale point := by
  funext axis
  have quotient : ((point axis - (box.scaled scale).lower axis : ℤ) : K) / scale axis =
      point axis / scale axis - box.lower axis := by
    rw [Int.cast_sub, aligned axis, sub_div, mul_div_cancel_left₀ _ (positive axis).ne']
  rw [copied, quotient, Int.floor_sub_intCast, origin]
  omega

theorem copied_lower : copied scale box (box.scaled scale).lower = box.lower := by
  funext axis
  rw [copied, sub_self, Int.cast_zero, zero_div, Int.floor_zero, add_zero]

/-- Without rounding, a point behind the origin of which is in a box is in the scaled box. -/
theorem scaled_covers [DecidableEq ι] (positive : ∀ axis, 0 < scale axis) (tiles : Tiles size boxes)
    (aligned : ∀ box ∈ boxes, box.Solid → Aligned scale box) (listed : box ∈ boxes)
    (inside : ∀ axis, point axis < ⌊scale axis * size axis⌋) (covers : box.Covers (origin scale point)) :
    (box.scaled scale).Covers point := by
  intro axis
  have own := aligned box listed covers.solid axis
  obtain ⟨low, high⟩ := covers axis
  have fromStart : scale axis * box.lower axis ≤ point axis := (le_div_iff₀' (positive axis)).mp (Int.le_floor.mp low)
  have toEnd : (point axis : K) < scale axis * ((box.lower axis + box.size axis : ℤ) : K) :=
    (div_lt_iff₀' (positive axis)).mp (Int.floor_lt.mp high)
  have split_ : scale axis * ((box.lower axis + box.size axis : ℤ) : K) =
      (box.scaled scale).lower axis + scale axis * box.size axis := by
    rw [own, Int.cast_add, Int.cast_natCast, mul_add]
  constructor
  · rw [← own] at fromStart
    exact Int.cast_le.mp fromStart
  · rw [scaled_size fun axis => (positive axis).le, ← sub_lt_iff_lt_add', Int.lt_floor_iff]
    have whole : ∃ end_ : ℤ, point axis < end_ ∧
        (end_ : K) ≤ scale axis * ((box.lower axis + box.size axis : ℤ) : K) := by
      obtain last | ⟨other, otherListed, solid, start⟩ := tiles.next listed covers axis
      · refine ⟨⌊scale axis * size axis⌋, inside axis, ?_⟩
        rw [last, Int.cast_natCast]
        exact Int.floor_le _
      · rw [← start, ← aligned other otherListed solid axis] at toEnd ⊢
        exact ⟨_, Int.cast_lt.mp toEnd, le_rfl⟩
    obtain ⟨end_, before, most⟩ := whole
    have next : ((point axis + 1 : ℤ) : K) ≤ end_ := Int.cast_le.mpr before
    rw [split_] at most
    push_cast at next ⊢
    linarith

theorem origin_inside (positive : ∀ axis, 0 < scale axis)
    (inside : ∀ axis, 0 ≤ point axis ∧ point axis < ⌊scale axis * size axis⌋) (axis : ι) :
    0 ≤ origin scale point axis ∧ origin scale point axis < size axis := by
  obtain ⟨low, high⟩ := inside axis
  refine ⟨Int.floor_nonneg.mpr (div_nonneg (Int.cast_nonneg low) (positive axis).le), ?_⟩
  rw [origin, Int.floor_lt, div_lt_iff₀' (positive axis), Int.cast_natCast]
  exact Int.lt_floor_iff.mp high |>.trans_lt' (lt_add_one _)

/-- The lower corner of a box that is scaled up is in the scaled box, and in the scaled grid. -/
theorem scaled_lower (large : ∀ axis, 1 ≤ scale axis) (tiles : Tiles size boxes) (listed : box ∈ boxes)
    (solid : box.Solid) :
    (box.scaled scale).Solid ∧ ∀ axis, 0 ≤ (box.scaled scale).lower axis ∧
      (box.scaled scale).lower axis < ⌊scale axis * size axis⌋ := by
  have positive : ∀ axis, 0 ≤ scale axis := fun axis => zero_le_one.trans (large axis)
  have scaledSolid : (box.scaled scale).Solid := by
    intro axis
    have one : (1 : K) ≤ scale axis * box.size axis :=
      one_le_mul_of_one_le_of_one_le (large axis) (Nat.one_le_cast.mpr (solid axis))
    have floor : 1 ≤ ⌊scale axis * box.size axis⌋ := Int.le_floor.mpr (by exact_mod_cast one)
    have size_ := scaled_size positive box axis
    omega
  refine ⟨scaledSolid, fun axis => ?_⟩
  obtain ⟨start, end_⟩ := tiles.inside listed solid axis
  refine ⟨Int.floor_nonneg.mpr (mul_nonneg (positive axis) (Int.cast_nonneg start)), ?_⟩
  have some_ := scaledSolid axis
  have before := scaled_end_le positive box axis
  have grid : ⌊scale axis * ((box.lower axis + box.size axis : ℤ) : K)⌋ ≤ ⌊scale axis * size axis⌋ :=
    Int.floor_mono (mul_le_mul_of_nonneg_left (by exact_mod_cast end_) (positive axis))
  omega

/-- **Scaling boxes one by one.** The scaled boxes of a tiling give the scaled grid if and only if no
lower corner is rounded. -/
theorem commutes_iff [DecidableEq ι] (large : ∀ axis, 1 ≤ scale axis) (tiles : Tiles size boxes) :
    Commutes scale size boxes ↔ ∀ box ∈ boxes, box.Solid → Aligned scale box := by
  have positive : ∀ axis, 0 < scale axis := fun axis => zero_lt_one.trans_le (large axis)
  constructor
  · intro commutes box listed solid axis
    obtain ⟨scaledSolid, inside⟩ := scaled_lower large tiles listed solid
    have same := congrFun ((commutes _ inside).2 box listed scaledSolid.covers) axis
    rw [copied_lower] at same
    have reached : (box.lower axis : K) ≤ (box.scaled scale).lower axis / scale axis :=
      Int.le_floor.mp same.le
    exact le_antisymm (Int.floor_le _) ((le_div_iff₀' (positive axis)).mp reached)
  · intro aligned point inside
    obtain ⟨box, listed, covers⟩ := (tiles.covers _).mpr (origin_inside positive inside)
    refine ⟨⟨box, listed, scaled_covers positive tiles aligned listed (fun axis => (inside axis).2) covers⟩, ?_⟩
    intro other otherListed otherCovers
    exact copied_eq positive (aligned other otherListed (solid_of_scaled otherCovers)) point

end

end Library.ScaledBoxes
