import Mathlib.Data.List.Basic
import Mathlib.Order.Lattice
import Mathlib.Logic.Function.Basic
import Ospray.Library.Literals

/-!
# Boxes and binary split trees

A box is given by a lower and an upper corner and contains the points between them,
the lower faces included and the upper ones not. A split tree cuts a box by planes
strictly inside it, down to leaves. The leaves partition the box, and going right at
a plane exactly for the points on or beyond it leads each point to its leaf.
-/

namespace Library.BoxTrees

universe u v w
variable {ι : Type u} {α : Type v}

/-- An axis-aligned box. -/
@[ext]
structure Box (ι : Type u) (α : Type v) where
  lower : ι → α
  upper : ι → α

namespace Box

section Parts

variable [DecidableEq ι]

/-- The part of a box below a plane. -/
def below (box : Box ι α) (axis : ι) (position : α) : Box ι α :=
  { box with upper := Function.update box.upper axis position }

/-- The part of a box on and above a plane. -/
def above (box : Box ι α) (axis : ι) (position : α) : Box ι α :=
  { box with lower := Function.update box.lower axis position }

@[simp] theorem below_lower (box : Box ι α) (axis : ι) (position : α) :
    (box.below axis position).lower = box.lower := rfl

@[simp] theorem below_upper (box : Box ι α) (axis : ι) (position : α) :
    (box.below axis position).upper = Function.update box.upper axis position := rfl

@[simp] theorem above_lower (box : Box ι α) (axis : ι) (position : α) :
    (box.above axis position).lower = Function.update box.lower axis position := rfl

@[simp] theorem above_upper (box : Box ι α) (axis : ι) (position : α) :
    (box.above axis position).upper = box.upper := rfl

end Parts

variable [LinearOrder α]

/-- The points of a box. -/
def Contains (box : Box ι α) (point : ι → α) : Prop :=
  ∀ axis, box.lower axis ≤ point axis ∧ point axis < box.upper axis

/-- A box has an extent along every axis. -/
def Proper (box : Box ι α) : Prop := ∀ axis, box.lower axis < box.upper axis

/-- The interiors of two boxes meet, along every axis. -/
def Overlaps (first second : Box ι α) : Prop :=
  ∀ axis, first.lower axis < second.upper axis ∧ second.lower axis < first.upper axis

/-- One box lies inside another. -/
def Within (inner outer : Box ι α) : Prop :=
  ∀ axis, outer.lower axis ≤ inner.lower axis ∧ inner.upper axis ≤ outer.upper axis

/-- A plane cuts a box. -/
def Cuts (box : Box ι α) (axis : ι) (position : α) : Prop :=
  box.lower axis < position ∧ position < box.upper axis

instance (box : Box ι α) (axis : ι) (position : α) : Decidable (box.Cuts axis position) :=
  inferInstanceAs (Decidable (_ ∧ _))

variable {box inner outer other : Box ι α} {axis : ι} {position : α} {point : ι → α}

theorem Within.contains (within : inner.Within outer) (contained : inner.Contains point) :
    outer.Contains point := by
  intro along
  exact ⟨(within along).1.trans (contained along).1, (contained along).2.trans_le (within along).2⟩

theorem Within.trans (first : inner.Within box) (second : box.Within outer) :
    inner.Within outer := by
  intro along
  exact ⟨(second along).1.trans (first along).1, (first along).2.trans (second along).2⟩

theorem overlaps_of_contains {first second : Box ι α} (inFirst : first.Contains point)
    (inSecond : second.Contains point) : first.Overlaps second := by
  intro along
  exact ⟨(inFirst along).1.trans_lt (inSecond along).2,
    (inSecond along).1.trans_lt (inFirst along).2⟩

theorem Within.overlaps (within : inner.Within outer) (proper : inner.Proper) :
    inner.Overlaps outer := by
  intro along
  exact ⟨(proper along).trans_le (within along).2, (within along).1.trans_lt (proper along)⟩

theorem contains_lower (proper : box.Proper) : box.Contains box.lower :=
  fun along => ⟨le_rfl, proper along⟩

variable [DecidableEq ι]

theorem contains_below (cuts : box.Cuts axis position) :
    (box.below axis position).Contains point ↔ box.Contains point ∧ point axis < position := by
  constructor
  · intro contained
    have own := (contained axis).2
    rw [below_upper, Function.update_self] at own
    refine ⟨?_, own⟩
    intro along
    refine ⟨(contained along).1, ?_⟩
    by_cases same : along = axis
    · subst same
      exact own.trans cuts.2
    · have upper := (contained along).2
      rwa [below_upper, Function.update_of_ne same] at upper
  · rintro ⟨contained, own⟩ along
    refine ⟨(contained along).1, ?_⟩
    by_cases same : along = axis
    · subst same
      rwa [below_upper, Function.update_self]
    · rw [below_upper, Function.update_of_ne same]
      exact (contained along).2

theorem contains_above (cuts : box.Cuts axis position) :
    (box.above axis position).Contains point ↔ box.Contains point ∧ position ≤ point axis := by
  constructor
  · intro contained
    have own := (contained axis).1
    rw [above_lower, Function.update_self] at own
    refine ⟨?_, own⟩
    intro along
    refine ⟨?_, (contained along).2⟩
    by_cases same : along = axis
    · subst same
      exact cuts.1.le.trans own
    · have lower := (contained along).1
      rwa [above_lower, Function.update_of_ne same] at lower
  · rintro ⟨contained, own⟩ along
    refine ⟨?_, (contained along).2⟩
    by_cases same : along = axis
    · subst same
      rwa [above_lower, Function.update_self]
    · rw [above_lower, Function.update_of_ne same]
      exact (contained along).1

theorem cuts_below (cuts : box.Cuts axis position) {along : ι} {plane : α}
    (inner : (box.below axis position).Cuts along plane) :
    box.Cuts along plane ∧ (along, plane) ≠ (axis, position) := by
  by_cases same : along = axis
  · subst same
    have before := inner.2
    rw [below_upper, Function.update_self] at before
    refine ⟨⟨inner.1, before.trans cuts.2⟩, ?_⟩
    rintro ⟨⟩
    exact lt_irrefl _ before
  · have before := inner.2
    rw [below_upper, Function.update_of_ne same] at before
    exact ⟨⟨inner.1, before⟩, fun equal => same (Prod.ext_iff.mp equal).1⟩

theorem cuts_above (cuts : box.Cuts axis position) {along : ι} {plane : α}
    (inner : (box.above axis position).Cuts along plane) :
    box.Cuts along plane ∧ (along, plane) ≠ (axis, position) := by
  by_cases same : along = axis
  · subst same
    have beyond := inner.1
    rw [above_lower, Function.update_self] at beyond
    refine ⟨⟨cuts.1.trans beyond, inner.2⟩, ?_⟩
    rintro ⟨⟩
    exact lt_irrefl _ beyond
  · have beyond := inner.1
    rw [above_lower, Function.update_of_ne same] at beyond
    exact ⟨⟨beyond, inner.2⟩, fun equal => same (Prod.ext_iff.mp equal).1⟩

theorem below_within (cuts : box.Cuts axis position) : (box.below axis position).Within box := by
  intro along
  refine ⟨le_rfl, ?_⟩
  by_cases same : along = axis
  · subst same
    rw [below_upper, Function.update_self]
    exact cuts.2.le
  · rw [below_upper, Function.update_of_ne same]

theorem above_within (cuts : box.Cuts axis position) : (box.above axis position).Within box := by
  intro along
  refine ⟨?_, le_rfl⟩
  by_cases same : along = axis
  · subst same
    rw [above_lower, Function.update_self]
    exact cuts.1.le
  · rw [above_lower, Function.update_of_ne same]

theorem below_proper (proper : box.Proper) (cuts : box.Cuts axis position) :
    (box.below axis position).Proper := by
  intro along
  by_cases same : along = axis
  · subst same
    rw [below_upper, Function.update_self]
    exact cuts.1
  · rw [below_upper, Function.update_of_ne same]
    exact proper along

theorem above_proper (proper : box.Proper) (cuts : box.Cuts axis position) :
    (box.above axis position).Proper := by
  intro along
  by_cases same : along = axis
  · subst same
    rw [above_lower, Function.update_self]
    exact cuts.2
  · rw [above_lower, Function.update_of_ne same]
    exact proper along

/-- What overlaps the part below a cut begins before the plane. -/
theorem overlaps_below (cuts : box.Cuts axis position) :
    other.Overlaps (box.below axis position) ↔
      other.Overlaps box ∧ other.lower axis < position := by
  constructor
  · intro meets
    have own := (meets axis).1
    rw [below_upper, Function.update_self] at own
    refine ⟨?_, own⟩
    intro along
    refine ⟨?_, (meets along).2⟩
    by_cases same : along = axis
    · subst same
      exact own.trans cuts.2
    · have lower := (meets along).1
      rwa [below_upper, Function.update_of_ne same] at lower
  · rintro ⟨meets, own⟩ along
    refine ⟨?_, (meets along).2⟩
    by_cases same : along = axis
    · subst same
      rwa [below_upper, Function.update_self]
    · rw [below_upper, Function.update_of_ne same]
      exact (meets along).1

/-- What overlaps the part above a cut ends after the plane. -/
theorem overlaps_above (cuts : box.Cuts axis position) :
    other.Overlaps (box.above axis position) ↔
      other.Overlaps box ∧ position < other.upper axis := by
  constructor
  · intro meets
    have own := (meets axis).2
    rw [above_lower, Function.update_self] at own
    refine ⟨?_, own⟩
    intro along
    refine ⟨(meets along).1, ?_⟩
    by_cases same : along = axis
    · subst same
      exact cuts.1.trans own
    · have upper := (meets along).2
      rwa [above_lower, Function.update_of_ne same] at upper
  · rintro ⟨meets, own⟩ along
    refine ⟨(meets along).1, ?_⟩
    by_cases same : along = axis
    · subst same
      rwa [above_lower, Function.update_self]
    · rw [above_lower, Function.update_of_ne same]
      exact (meets along).2

end Box

/-- A box cut by planes strictly inside, with contents at the leaves. -/
inductive SplitTree {ι : Type u} [DecidableEq ι] {α : Type v} [LinearOrder α] (β : Type w) :
    Box ι α → Type (max u v w)
  | leaf (bounds : Box ι α) (contents : β) : SplitTree β bounds
  | split (bounds : Box ι α) (axis : ι) (position : α) (cuts : bounds.Cuts axis position)
      (left : SplitTree β (bounds.below axis position))
      (right : SplitTree β (bounds.above axis position)) : SplitTree β bounds

namespace SplitTree

variable [DecidableEq ι] [LinearOrder α] {β : Type w} {bounds : Box ι α}

/-- The leaves from left to right, with their boxes. -/
def leaves {bounds : Box ι α} : SplitTree β bounds → List (Box ι α × β)
  | .leaf bounds contents => [(bounds, contents)]
  | .split _ _ _ _ left right => left.leaves ++ right.leaves

/-- The leaf a point is led to: right at a plane when the point is on it or beyond. -/
def find {bounds : Box ι α} : SplitTree β bounds → (ι → α) → Box ι α × β
  | .leaf bounds contents, _ => (bounds, contents)
  | .split _ axis position _ left right, point =>
    if position ≤ point axis then right.find point else left.find point

/-- The number of the leaf a point is led to, counted from the left. -/
def findIndex {bounds : Box ι α} : SplitTree β bounds → (ι → α) → Nat
  | .leaf _ _, _ => 0
  | .split _ axis position _ left right, point =>
    if position ≤ point axis then left.leaves.length + right.findIndex point
    else left.findIndex point

/-- The number of nodes on the longest way down. -/
def height {bounds : Box ι α} : SplitTree β bounds → Nat
  | .leaf _ _ => 1
  | .split _ _ _ _ left right => max left.height right.height + 1

/-- The number of nodes. -/
def size {bounds : Box ι α} : SplitTree β bounds → Nat
  | .leaf _ _ => 1
  | .split _ _ _ _ left right => left.size + right.size + 1

theorem size_leaves (tree : SplitTree β bounds) : tree.size + 1 = 2 * tree.leaves.length := by
  induction tree with
  | leaf bounds contents => rfl
  | split bounds axis position cuts left right leftHypothesis rightHypothesis =>
    rw [size, leaves, List.length_append]
    omega

theorem height_le_size (tree : SplitTree β bounds) : tree.height ≤ tree.size := by
  induction tree with
  | leaf bounds contents => exact le_rfl
  | split bounds axis position cuts left right leftHypothesis rightHypothesis =>
    rw [height, size]
    omega

theorem size_pos (tree : SplitTree β bounds) : 0 < tree.size := by
  cases tree <;> exact Nat.succ_pos _

theorem leaves_findIndex (tree : SplitTree β bounds) (point : ι → α) :
    tree.leaves[tree.findIndex point]? = some (tree.find point) := by
  induction tree with
  | leaf bounds contents => rfl
  | split bounds axis position cuts left right leftHypothesis rightHypothesis =>
    rw [leaves, findIndex, find]
    split
    · rw [List.getElem?_append_right (Nat.le_add_right _ _), Nat.add_sub_cancel_left,
        rightHypothesis]
    · have inside := (List.getElem?_eq_some_iff.mp leftHypothesis).1
      rw [List.getElem?_append_left inside, leftHypothesis]

theorem find_contains (tree : SplitTree β bounds) {point : ι → α}
    (inside : bounds.Contains point) : (tree.find point).1.Contains point := by
  induction tree with
  | leaf bounds contents => exact inside
  | split bounds axis position cuts left right leftHypothesis rightHypothesis =>
    rw [find]
    split
    · exact rightHypothesis ((Box.contains_above cuts).mpr ⟨inside, ‹_›⟩)
    · exact leftHypothesis ((Box.contains_below cuts).mpr ⟨inside, not_le.mp ‹_›⟩)

theorem leaves_within (tree : SplitTree β bounds) (proper : bounds.Proper) :
    ∀ leaf ∈ tree.leaves, leaf.1.Within bounds ∧ leaf.1.Proper := by
  induction tree with
  | leaf bounds contents =>
    intro leaf member
    rw [leaves, List.mem_singleton] at member
    subst member
    exact ⟨fun _ => ⟨le_rfl, le_rfl⟩, proper⟩
  | split bounds axis position cuts left right leftHypothesis rightHypothesis =>
    intro leaf member
    rw [leaves, List.mem_append] at member
    obtain member | member := member
    · obtain ⟨within, extent⟩ := leftHypothesis (Box.below_proper proper cuts) leaf member
      exact ⟨within.trans (Box.below_within cuts), extent⟩
    · obtain ⟨within, extent⟩ := rightHypothesis (Box.above_proper proper cuts) leaf member
      exact ⟨within.trans (Box.above_within cuts), extent⟩

theorem leaves_disjoint (tree : SplitTree β bounds) (proper : bounds.Proper) :
    tree.leaves.Pairwise fun first second =>
      ∀ point, ¬ (first.1.Contains point ∧ second.1.Contains point) := by
  induction tree with
  | leaf bounds contents => exact List.pairwise_singleton _ _
  | split bounds axis position cuts left right leftHypothesis rightHypothesis =>
    rw [leaves, List.pairwise_append]
    refine ⟨leftHypothesis (Box.below_proper proper cuts),
      rightHypothesis (Box.above_proper proper cuts), ?_⟩
    rintro first inLeft second inRight point ⟨inFirst, inSecond⟩
    have before := (left.leaves_within (Box.below_proper proper cuts) first inLeft).1.contains inFirst
    have beyond :=
      (right.leaves_within (Box.above_proper proper cuts) second inRight).1.contains inSecond
    exact absurd ((Box.contains_above cuts).mp beyond).2
      (not_le.mpr ((Box.contains_below cuts).mp before).2)

end SplitTree

end Library.BoxTrees
