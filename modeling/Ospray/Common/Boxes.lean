import Mathlib.Data.Fin.VecNotation
import Mathlib.Order.Interval.Set.Basic
import Ospray.Library.Literals

/-!
# Boxes

A range has two corners, and a box is a range of vectors. Points are in it if they are between the
corners in every component; a box whose corners are the wrong way around in some component has none.
-/

namespace Ospray.Boxes

/-- `range_t` -/
structure Range (V : Type) where
  lower : V
  upper : V
  deriving DecidableEq

variable {N : Nat} {T : Type}

/-- `vec_t`, with a component for each dimension. -/
abbrev Vec (T : Type) (N : Nat) : Type := Fin N → T

/-- `box_t` -/
abbrev Box (T : Type) (N : Nat) : Type := Range (Vec T N)

variable [LinearOrder T]

/-- `anyLessThan` -/
def anyLessThan (a b : Vec T N) : Bool := decide (∃ d, a d < b d)

namespace Range

/-- `range_t::extend` by a point -/
def extendPoint (self : Box T N) (t : Vec T N) : Box T N := ⟨self.lower ⊓ t, self.upper ⊔ t⟩

/-- `range_t::extend` by a range -/
def extend (self t : Box T N) : Box T N := ⟨self.lower ⊓ t.lower, self.upper ⊔ t.upper⟩

/-- `range_t::clamp` -/
def clamp (self : Box T N) (t : Vec T N) : Vec T N := self.lower ⊔ (t ⊓ self.upper)

/-- `range_t::empty` -/
def empty (self : Box T N) : Bool := anyLessThan self.upper self.lower

/-- `range_t::contains` -/
def contains (self : Box T N) (vec : Vec T N) : Bool := !anyLessThan vec self.lower && !anyLessThan self.upper vec

end Range

/-- `touchingOrOverlapping` -/
def touchingOrOverlapping (a b : Box T N) : Bool :=
  if ∃ d, a.lower d > b.upper d then false
  else if ∃ d, b.lower d > a.upper d then false
  else true

/-- `intersectionOf` -/
def intersectionOf (a b : Box T N) : Box T N := ⟨a.lower ⊔ b.lower, a.upper ⊓ b.upper⟩

/-- `disjoint` -/
def disjoint (a b : Box T N) : Bool := anyLessThan a.upper b.lower || anyLessThan b.lower a.upper

/-! ## Points -/

/-- The points between the corners. -/
def Range.points (box : Box T N) : Set (Vec T N) := Set.Icc box.lower box.upper

variable {a b c : Box T N} {p : Vec T N}

theorem anyLessThan_iff {v w : Vec T N} : anyLessThan v w = true ↔ ¬w ≤ v := by
  simp [anyLessThan, Pi.le_def]

theorem contains_iff : a.contains p = true ↔ p ∈ a.points := by
  simp only [Range.contains, Bool.and_eq_true, Bool.not_eq_true', ← Bool.not_eq_true, anyLessThan_iff, not_not]
  rfl

theorem lower_le_upper (points : ¬a.empty = true) : a.lower ≤ a.upper := by
  rw [Range.empty, anyLessThan_iff, not_not] at points
  exact points

theorem points_intersectionOf (a b : Box T N) : (intersectionOf a b).points = a.points ∩ b.points :=
  Set.Icc_inter_Icc.symm

/-! ## Boxes that are apart -/

/-- In some dimension, one box ends before the other one begins. -/
def Apart (a b : Box T N) : Prop := ∃ d, a.upper d < b.lower d ∨ b.upper d < a.lower d

theorem touchingOrOverlapping_iff : touchingOrOverlapping a b = true ↔ ¬Apart a b := by
  unfold touchingOrOverlapping Apart
  split
  · next before =>
    obtain ⟨d, less⟩ := before
    simp only [Bool.false_eq_true, false_iff, not_not]
    exact ⟨d, .inr less⟩
  · next notBefore =>
    split
    · next after =>
      obtain ⟨d, less⟩ := after
      simp only [Bool.false_eq_true, false_iff, not_not]
      exact ⟨d, .inl less⟩
    · next notAfter =>
      simp only [true_iff]
      rintro ⟨d, less | less⟩
      · exact notAfter ⟨d, less⟩
      · exact notBefore ⟨d, less⟩

theorem empty_intersectionOf_iff (pointsA : ¬a.empty = true) (pointsB : ¬b.empty = true) :
    (intersectionOf a b).empty = true ↔ Apart a b := by
  have cornersA := lower_le_upper pointsA
  have cornersB := lower_le_upper pointsB
  simp only [Range.empty, anyLessThan, decide_eq_true_eq, intersectionOf, Pi.sup_apply, Pi.inf_apply, lt_sup_iff,
    inf_lt_iff]
  constructor
  · rintro ⟨d, (less | less) | less | less⟩
    · exact absurd (cornersA d) (not_le.mpr less)
    · exact ⟨d, .inr less⟩
    · exact ⟨d, .inl less⟩
    · exact absurd (cornersB d) (not_le.mpr less)
  · rintro ⟨d, less | less⟩
    · exact ⟨d, .inr (.inl less)⟩
    · exact ⟨d, .inl (.inr less)⟩

theorem disjoint_iff : disjoint a b = true ↔ a.upper ≠ b.lower := by
  rw [disjoint, Bool.or_eq_true, anyLessThan_iff, anyLessThan_iff, ← not_and_or, Ne, le_antisymm_iff, and_comm]

theorem ne_of_apart (pointsA : ¬a.empty = true) (pointsB : ¬b.empty = true) (apart : Apart a b) :
    a.upper ≠ b.lower := by
  obtain ⟨d, less | less⟩ := apart
  · exact fun same => absurd less (by rw [same]; exact lt_irrefl _)
  · intro same
    have through : b.lower d < a.upper d :=
      (lower_le_upper pointsB d).trans_lt (less.trans_le (lower_le_upper pointsA d))
    rw [same] at through
    exact lt_irrefl _ through

/-! ## Extension -/

/-- A box between the corners of another one. -/
def Within (a c : Box T N) : Prop := c.lower ≤ a.lower ∧ a.upper ≤ c.upper

theorem within_iff (points : ¬a.empty = true) : Within a c ↔ a.points ⊆ c.points :=
  (Set.Icc_subset_Icc_iff (lower_le_upper points)).symm

theorem within_point : Within ⟨p, p⟩ c ↔ p ∈ c.points := Iff.rfl

theorem within_extend : Within (a.extend b) c ↔ Within a c ∧ Within b c := by
  simp only [Within, Range.extend, le_inf_iff, sup_le_iff]
  exact and_and_and_comm

theorem extendPoint_eq (a : Box T N) (p : Vec T N) : a.extendPoint p = a.extend ⟨p, p⟩ := rfl

theorem not_empty_extend (points : ¬a.empty = true) : ¬(a.extend b).empty = true := by
  have corners := lower_le_upper points
  rw [Range.empty, anyLessThan_iff, not_not]
  exact inf_le_left.trans (corners.trans le_sup_left)

theorem extend_subset_iff (pointsA : ¬a.empty = true) (pointsB : ¬b.empty = true) :
    (a.extend b).points ⊆ c.points ↔ a.points ∪ b.points ⊆ c.points := by
  rw [Set.union_subset_iff, ← within_iff (not_empty_extend pointsA), ← within_iff pointsA, ← within_iff pointsB,
    within_extend]

theorem not_empty_point : ¬(⟨p, p⟩ : Box T N).empty = true := by
  rw [Range.empty, anyLessThan_iff, not_not]

section Bounded

variable [BoundedOrder T]

/-- The default range: its lower corner is infinite, and its upper corner is negatively infinite. -/
def Range.default : Box T N := ⟨⊤, ⊥⟩

end Bounded

/-! ## Agreement -/

/-- The box functions agree with the points of boxes. -/
structure Agrees (a b : Box T N) : Prop where
  intersection : ∀ p, (intersectionOf a b).contains p ↔ a.contains p ∧ b.contains p
  disjoint_touching : ¬a.empty → ¬b.empty → (disjoint a b ↔ ¬touchingOrOverlapping a b)
  disjoint_empty : ¬a.empty → ¬b.empty → (disjoint a b ↔ (intersectionOf a b).empty)
  extendPoint : ∀ (p : Vec T N) (c : Box T N), Within (a.extendPoint p) c ↔ Within a c ∧ c.contains p
  extend : ∀ c : Box T N, Within (a.extend b) c ↔ Within a c ∧ Within b c
  extendPoint_points : ¬a.empty → ∀ (p : Vec T N) (c : Box T N),
    (a.extendPoint p).points ⊆ c.points ↔ a.points ∪ {p} ⊆ c.points
  extend_points : ¬a.empty → ¬b.empty → ∀ c : Box T N,
    (a.extend b).points ⊆ c.points ↔ a.points ∪ b.points ⊆ c.points

/-- They agree for two boxes if and only if one of these has no points, the boxes are apart, or the
first one ends in the point in which the second one begins. -/
theorem agrees_iff (a b : Box T N) : Agrees a b ↔ a.empty ∨ b.empty ∨ Apart a b ∨ a.upper = b.lower := by
  constructor
  · intro agrees
    by_contra fails
    obtain ⟨pointsA, fails⟩ := not_or.mp fails
    obtain ⟨pointsB, fails⟩ := not_or.mp fails
    obtain ⟨notApart, differ⟩ := not_or.mp fails
    have same := agrees.disjoint_touching pointsA pointsB
    rw [disjoint_iff, touchingOrOverlapping_iff, not_not] at same
    exact notApart (same.mp differ)
  · intro condition
    have right (pointsA : ¬a.empty = true) (pointsB : ¬b.empty = true) : disjoint a b = true ↔ Apart a b := by
      rw [disjoint_iff]
      constructor
      · intro differ
        obtain impossible | impossible | apart | touch := condition
        · exact absurd impossible pointsA
        · exact absurd impossible pointsB
        · exact apart
        · exact absurd touch differ
      · exact ne_of_apart pointsA pointsB
    constructor
    · intro p
      rw [contains_iff, contains_iff, contains_iff, points_intersectionOf]
      rfl
    · intro pointsA pointsB
      rw [right pointsA pointsB, touchingOrOverlapping_iff, not_not]
    · intro pointsA pointsB
      rw [right pointsA pointsB, empty_intersectionOf_iff pointsA pointsB]
    · intro p c
      rw [extendPoint_eq, within_extend, within_point, contains_iff]
    · exact fun _ => within_extend
    · intro pointsA p c
      have point : ({p} : Set (Vec T N)) = (⟨p, p⟩ : Box T N).points := (Set.Icc_self p).symm
      rw [extendPoint_eq, extend_subset_iff pointsA not_empty_point, point]
    · exact fun pointsA pointsB _ => extend_subset_iff pointsA pointsB

/-- Two squares that overlap. -/
def firstSquare : Box Int 2 := ⟨![0, 0], ![2, 2]⟩

/-- The second one. -/
def secondSquare : Box Int 2 := ⟨![1, 1], ![3, 3]⟩

/-- `disjoint` says that they are disjoint. -/
theorem disjoint_overlapping :
    disjoint firstSquare secondSquare = true ∧ touchingOrOverlapping firstSquare secondSquare = true ∧
      (intersectionOf firstSquare secondSquare).contains ![1, 1] = true ∧ ¬Agrees firstSquare secondSquare := by
  refine ⟨by decide, by decide, by decide, ?_⟩
  intro agrees
  exact absurd (agrees.disjoint_touching (by decide) (by decide)) (by decide)

end Ospray.Boxes
