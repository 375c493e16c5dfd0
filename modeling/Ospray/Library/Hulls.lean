import Mathlib.Data.List.Perm.Basic
import Mathlib.Order.Bounds.Basic
import Ospray.Library.BoxTrees

/-!
# Boxes around boxes

The hull of some boxes reaches along every axis from the least of their lower bounds to the
greatest of their upper ones. It is found by extending the empty box by one of them after
the other, in any order.
-/

namespace Library.Hulls

open Library.BoxTrees

universe u v
variable {ι : Type u} {α : Type v} [LinearOrder α]

/-- The points of a box with its faces. -/
def Covers (box : Box ι α) (point : ι → α) : Prop :=
  ∀ axis, box.lower axis ≤ point axis ∧ point axis ≤ box.upper axis

/-- The box around two boxes. -/
def join (first second : Box ι α) : Box ι α where
  lower := fun axis => min (first.lower axis) (second.lower axis)
  upper := fun axis => max (first.upper axis) (second.upper axis)

/-- A box that is extended by another; `none` is the empty box. -/
def extend : Option (Box ι α) → Box ι α → Option (Box ι α)
  | none, box => some box
  | some hull, box => some (join hull box)

/-- The box around some boxes. -/
def hullOf (boxes : List (Box ι α)) : Option (Box ι α) := boxes.foldl extend none

/-- A box reaches exactly as far as some boxes do. -/
structure IsHull (boxes : List (Box ι α)) (hull : Box ι α) : Prop where
  lower : ∀ axis, IsLeast {bound | ∃ box ∈ boxes, box.lower axis = bound} (hull.lower axis)
  upper : ∀ axis, IsGreatest {bound | ∃ box ∈ boxes, box.upper axis = bound} (hull.upper axis)

variable {boxes others : List (Box ι α)} {hull other box inner outer : Box ι α} {point : ι → α}

theorem IsHull.within (isHull : IsHull boxes hull) (member : box ∈ boxes) : box.Within hull :=
  fun axis => ⟨(isHull.lower axis).2 ⟨box, member, rfl⟩, (isHull.upper axis).2 ⟨box, member, rfl⟩⟩

theorem isHull_singleton (box : Box ι α) : IsHull [box] box where
  lower axis := by
    refine ⟨⟨box, List.mem_singleton_self box, rfl⟩, ?_⟩
    rintro bound ⟨other, member, rfl⟩
    rw [List.mem_singleton.mp member]
  upper axis := by
    refine ⟨⟨box, List.mem_singleton_self box, rfl⟩, ?_⟩
    rintro bound ⟨other, member, rfl⟩
    rw [List.mem_singleton.mp member]

/-- The hull of two groups of boxes is the box around their hulls. -/
theorem IsHull.append (isHull : IsHull boxes hull) (isOther : IsHull others other) :
    IsHull (boxes ++ others) (join hull other) where
  lower axis := by
    have bounds : {bound | ∃ box ∈ boxes ++ others, box.lower axis = bound} =
        {bound | ∃ box ∈ boxes, box.lower axis = bound} ∪
          {bound | ∃ box ∈ others, box.lower axis = bound} := by
      ext bound
      simp only [List.mem_append, or_and_right, exists_or, Set.mem_ofPred_eq, Set.mem_union]
    rw [bounds]
    exact (isHull.lower axis).union (isOther.lower axis)
  upper axis := by
    have bounds : {bound | ∃ box ∈ boxes ++ others, box.upper axis = bound} =
        {bound | ∃ box ∈ boxes, box.upper axis = bound} ∪
          {bound | ∃ box ∈ others, box.upper axis = bound} := by
      ext bound
      simp only [List.mem_append, or_and_right, exists_or, Set.mem_ofPred_eq, Set.mem_union]
    rw [bounds]
    exact (isHull.upper axis).union (isOther.upper axis)

/-- A hull covers a point if along every axis some box begins before it and some box ends behind it. -/
theorem IsHull.covers_iff (isHull : IsHull boxes hull) : Covers hull point ↔
    ∀ axis, (∃ box ∈ boxes, box.lower axis ≤ point axis) ∧ ∃ box ∈ boxes, point axis ≤ box.upper axis := by
  refine forall_congr' fun axis => and_congr ?_ ?_
  · constructor
    · intro low
      obtain ⟨box, member, same⟩ := (isHull.lower axis).1
      exact ⟨box, member, same.trans_le low⟩
    · rintro ⟨box, member, low⟩
      exact ((isHull.lower axis).2 ⟨box, member, rfl⟩).trans low
  · constructor
    · intro high
      obtain ⟨box, member, same⟩ := (isHull.upper axis).1
      exact ⟨box, member, high.trans_eq same.symm⟩
    · rintro ⟨box, member, high⟩
      exact high.trans ((isHull.upper axis).2 ⟨box, member, rfl⟩)

theorem IsHull.unique (isHull : IsHull boxes hull) (isOther : IsHull boxes other) : hull = other :=
  Box.ext (funext fun axis => (isHull.lower axis).unique (isOther.lower axis))
    (funext fun axis => (isHull.upper axis).unique (isOther.upper axis))

theorem IsHull.perm (isHull : IsHull boxes hull) (same : boxes.Perm others) : IsHull others hull where
  lower axis := by
    simp only [← same.mem_iff]
    exact isHull.lower axis
  upper axis := by
    simp only [← same.mem_iff]
    exact isHull.upper axis

theorem isHull_foldl (isHull : IsHull boxes hull) (others : List (Box ι α)) :
    ∃ whole, others.foldl extend (some hull) = some whole ∧ IsHull (boxes ++ others) whole := by
  induction others generalizing boxes hull with
  | nil => exact ⟨hull, rfl, (List.append_nil boxes).symm ▸ isHull⟩
  | cons box rest inductionHypothesis =>
    obtain ⟨whole, same, isWhole⟩ := inductionHypothesis (isHull.append (isHull_singleton box))
    refine ⟨whole, same, ?_⟩
    rwa [List.append_assoc, List.singleton_append] at isWhole

theorem isHull_foldl_join (box : Box ι α) (others : List (Box ι α)) :
    IsHull (box :: others) (others.foldl join box) := by
  obtain ⟨whole, same, isHull⟩ := isHull_foldl (isHull_singleton box) others
  have joined : ∀ (others : List (Box ι α)) (box : Box ι α),
      others.foldl extend (some box) = some (others.foldl join box) := by
    intro others
    induction others with
    | nil => exact fun _ => rfl
    | cons other rest inductionHypothesis => exact fun box => inductionHypothesis (join box other)
  rw [joined others box, Option.some.injEq] at same
  rwa [← same] at isHull

theorem isHull_hullOf (some_ : boxes ≠ []) : ∃ hull, hullOf boxes = some hull ∧ IsHull boxes hull := by
  cases boxes with
  | nil => exact absurd rfl some_
  | cons box rest => exact isHull_foldl (isHull_singleton box) rest

theorem hullOf_perm (same : boxes.Perm others) : hullOf boxes = hullOf others := by
  by_cases none_ : boxes = []
  · subst none_
    rw [List.nil_perm.mp same]
  · obtain ⟨hull, computed, isHull⟩ := isHull_hullOf none_
    have some_ : others ≠ [] := fun empty => none_ (List.perm_nil.mp (empty ▸ same))
    obtain ⟨other, computedOther, isOther⟩ := isHull_hullOf some_
    rw [computed, computedOther, (isHull.perm same).unique isOther]

end Library.Hulls
