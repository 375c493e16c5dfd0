import Mathlib.Order.Bounds.Basic
import Mathlib.Topology.Order.DenselyOrdered
import Ospray.Library.Literals

/-!
# Bodies along a line

What a line has in common with a convex body: a set of places, and the open set of the places that
are inside. Between a place that is inside and any other one there are only places that are
inside. Where both ends are known, they are the surface.
-/

namespace Library

variable {α : Type*} [LinearOrder α] [TopologicalSpace α]

/-- The places of a line in a convex body. -/
structure LineBody (α : Type*) [LinearOrder α] [TopologicalSpace α] where
  solid : Set α
  inner : Set α
  inner_subset : inner ⊆ solid
  isOpen_inner : IsOpen inner
  toward : ∀ x ∈ inner, ∀ y ∈ solid, ∀ z, x < z ∧ z < y ∨ y < z ∧ z < x → z ∈ inner

namespace LineBody

variable (body : LineBody α) {x y : α}

/-- The places that are not inside. -/
def surface : Set α := body.solid \ body.inner

/-- A line that comes inside has the two ends for its surface. -/
theorem surface_eq [OrderTopology α] [DenselyOrdered α] [NoMinOrder α] [NoMaxOrder α] (least : IsLeast body.solid x)
    (greatest : IsGreatest body.solid y) (comesInside : body.inner.Nonempty) : x < y ∧ body.surface = {x, y} := by
  have strict : body.inner ⊆ Set.Ioo x y := by
    rw [← interior_Icc]
    exact interior_maximal (fun z inside => ⟨least.2 (body.inner_subset inside), greatest.2 (body.inner_subset inside)⟩)
      body.isOpen_inner
  obtain ⟨p, inside⟩ := comesInside
  refine ⟨(strict inside).1.trans (strict inside).2, Set.Subset.antisymm ?_ ?_⟩
  · rintro z ⟨solid, outside⟩
    by_contra other
    have between : x < z ∧ z < y := by
      refine ⟨lt_of_le_of_ne (least.2 solid) fun same => ?_, lt_of_le_of_ne (greatest.2 solid) fun same => ?_⟩
      · exact other (Or.inl same.symm)
      · exact other (Or.inr same)
    obtain before | rfl | after := lt_trichotomy p z
    · exact outside (body.toward p inside y greatest.1 z (Or.inl ⟨before, between.2⟩))
    · exact outside inside
    · exact outside (body.toward p inside x least.1 z (Or.inr ⟨between.1, after⟩))
  · rintro z (rfl | rfl)
    · exact ⟨least.1, fun inside => (strict inside).1.false⟩
    · exact ⟨greatest.1, fun inside => (strict inside).2.false⟩

end LineBody

omit [TopologicalSpace α] in
theorem isLeast_of_cover {parts solid : Set α} {x : α} (least : IsLeast parts x) (parts_subset : parts ⊆ solid)
    (cover : ∀ t ∈ solid, ∃ z ∈ parts, z ≤ t) : IsLeast solid x := by
  refine ⟨parts_subset least.1, fun t place => ?_⟩
  obtain ⟨z, part, before⟩ := cover t place
  exact (least.2 part).trans before

omit [TopologicalSpace α] in
theorem isGreatest_of_cover {parts solid : Set α} {x : α} (greatest : IsGreatest parts x) (parts_subset : parts ⊆ solid)
    (cover : ∀ t ∈ solid, ∃ z ∈ parts, t ≤ z) : IsGreatest solid x := by
  refine ⟨parts_subset greatest.1, fun t place => ?_⟩
  obtain ⟨z, part, after⟩ := cover t place
  exact after.trans (greatest.2 part)

end Library
