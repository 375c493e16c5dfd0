import Mathlib.Data.List.Basic
import Mathlib.Order.Lattice
import Mathlib.Order.MinMax
import Ospray.Library.Literals

/-!
# Envelopes

A scan that keeps the least and the greatest value seen so far, from a start value on.
What lies above the least, or below the greatest, does so for the start value or for one
of the values seen, however the scan is cut into pieces.
-/

namespace Library.Envelopes

variable {F : Type*} [LinearOrder F]

/-- The least of the values and the start value. -/
def least (start : F) (values : List F) : F := values.foldl min start

/-- The greatest of the values and the start value. -/
def greatest (start : F) (values : List F) : F := values.foldl max start

variable {start bound : F} {values : List F}

@[simp] theorem least_nil : least start [] = start := rfl

@[simp] theorem least_cons (value : F) : least start (value :: values) = least (min start value) values := rfl

@[simp] theorem greatest_nil : greatest start [] = start := rfl

@[simp] theorem greatest_cons (value : F) :
    greatest start (value :: values) = greatest (max start value) values := rfl

theorem least_le_iff : least start values ≤ bound ↔ start ≤ bound ∨ ∃ value ∈ values, value ≤ bound := by
  induction values generalizing start with
  | nil => simp
  | cons value rest inductionHypothesis =>
    rw [least_cons, inductionHypothesis, min_le_iff]
    simp [or_assoc]

theorem le_greatest_iff :
    bound ≤ greatest start values ↔ bound ≤ start ∨ ∃ value ∈ values, bound ≤ value := by
  induction values generalizing start with
  | nil => simp
  | cons value rest inductionHypothesis =>
    rw [greatest_cons, inductionHypothesis, le_max_iff]
    simp [or_assoc]

theorem least_le {value : F} (seen : value ∈ values) : least start values ≤ value :=
  least_le_iff.mpr (.inr ⟨value, seen, le_rfl⟩)

theorem le_greatest {value : F} (seen : value ∈ values) : value ≤ greatest start values :=
  le_greatest_iff.mpr (.inr ⟨value, seen, le_rfl⟩)

theorem min_least (first : F) : min start (least first values) = least (min start first) values :=
  (List.foldl_assoc).symm

theorem max_greatest (first : F) : max start (greatest first values) = greatest (max start first) values :=
  (List.foldl_assoc).symm

theorem least_append (first rest : List F) : least start (first ++ rest) = least (least start first) rest :=
  List.foldl_append

theorem greatest_append (first rest : List F) :
    greatest start (first ++ rest) = greatest (greatest start first) rest :=
  List.foldl_append

theorem least_eq_start (above : ∀ value ∈ values, start ≤ value) : least start values = start := by
  refine le_antisymm (least_le_iff.mpr (.inl le_rfl)) ?_
  obtain le | ⟨value, seen, le⟩ := least_le_iff.mp (le_refl (least start values))
  · exact le
  · exact (above value seen).trans le

theorem least_perm {others : List F} (same : values.Perm others) : least start values = least start others := by
  refine eq_of_forall_ge_iff fun bound => ?_
  simp only [least_le_iff, same.mem_iff]

end Library.Envelopes
