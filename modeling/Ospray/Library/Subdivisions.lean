import Mathlib.Algebra.Order.BigOperators.Group.List
import Mathlib.Algebra.Group.Action.Defs
import Mathlib.Algebra.Order.Ring.Nat
import Mathlib.Data.List.Perm.Basic
import Mathlib.Data.Set.Disjoint
import Mathlib.Data.Set.BooleanAlgebra
import Mathlib.Order.CompletePartialOrder
import Mathlib.Logic.Relation
import Ospray.Library.Literals

/-!
# Subdivisions

A collection of parts changes one part at a time: a part is given up, or cut in two.
The order of the parts is of no interest, so a change is stated up to permutation. When
cutting leaves two separate parts of the one that is cut, the parts of a whole stay
separate, and what none of them covers is never covered again. A weight that no cut
raises bounds their number.
-/

namespace Library.Subdivisions

universe u v
variable {α : Type u} {β : Type v}

/-- A part is given up, or replaced by the two parts it is cut into. -/
inductive Change (cuts : α → α → α → Prop) (before after : List α) : Prop where
  | drop (part : α) (others : List α) (taken : before.Perm (part :: others))
      (left : after.Perm others)
  | cut (part first second : α) (others : List α) (taken : before.Perm (part :: others))
      (halves : cuts part first second) (left : after.Perm (first :: second :: others))

/-- Finitely many changes, in any order. -/
def Changes (cuts : α → α → α → Prop) : List α → List α → Prop :=
  Relation.ReflTransGen (Change cuts)

/-- The two halves of a part: separate, and neither of them empty. -/
structure Halves (cells : α → Set β) (part first second : α) : Prop where
  firstNonempty : (cells first).Nonempty
  secondNonempty : (cells second).Nonempty
  firstWithin : cells first ⊆ cells part
  secondWithin : cells second ⊆ cells part
  apart : Disjoint (cells first) (cells second)

/-- Parts of a whole: separate, and none of them empty. -/
structure Subdivision (cells : α → Set β) (whole : Set β) (parts : List α) : Prop where
  nonempty : ∀ part ∈ parts, (cells part).Nonempty
  within : ∀ part ∈ parts, cells part ⊆ whole
  apart : parts.Pairwise fun first second => Disjoint (cells first) (cells second)

/-- What some part covers. -/
def covered (cells : α → Set β) (parts : List α) : Set β := {cell | ∃ part ∈ parts, cell ∈ cells part}

section Cells

variable {cells : α → Set β} {whole : Set β} {cuts : α → α → α → Prop} {before after : List α}

theorem subdivision_singleton {part : α} (nonempty : (cells part).Nonempty) :
    Subdivision cells (cells part) [part] where
  nonempty := by simpa using nonempty
  within := by simp
  apart := List.pairwise_singleton _ _

theorem Subdivision.perm {parts other : List α} (perm : parts.Perm other)
    (divided : Subdivision cells whole parts) : Subdivision cells whole other where
  nonempty := fun part member => divided.nonempty part (perm.mem_iff.mpr member)
  within := fun part member => divided.within part (perm.mem_iff.mpr member)
  apart := perm.pairwise divided.apart fun separate => separate.symm

/-- A change of one part leaves a subdivision. -/
theorem Subdivision.change (halving : ∀ part first second, cuts part first second →
      Halves cells part first second)
    (divided : Subdivision cells whole before) (change : Change cuts before after) :
    Subdivision cells whole after := by
  cases change with
  | drop part others taken left =>
    obtain ⟨nonempty, within, apart⟩ := divided.perm taken
    exact Subdivision.perm left.symm
      ⟨fun other member => nonempty other (List.mem_cons_of_mem _ member),
        fun other member => within other (List.mem_cons_of_mem _ member),
        (List.pairwise_cons.mp apart).2⟩
  | cut part first second others taken halves left =>
    obtain ⟨nonempty, within, apart⟩ := divided.perm taken
    obtain ⟨separate, othersApart⟩ := List.pairwise_cons.mp apart
    have half := halving part first second halves
    have inWhole := within part List.mem_cons_self
    refine Subdivision.perm left.symm ⟨?_, ?_, ?_⟩
    · simp only [List.mem_cons, forall_eq_or_imp]
      exact ⟨half.firstNonempty, half.secondNonempty,
        fun other member => nonempty other (List.mem_cons_of_mem _ member)⟩
    · simp only [List.mem_cons, forall_eq_or_imp]
      exact ⟨half.firstWithin.trans inWhole, half.secondWithin.trans inWhole,
        fun other member => within other (List.mem_cons_of_mem _ member)⟩
    · simp only [List.pairwise_cons, List.mem_cons, forall_eq_or_imp]
      exact ⟨⟨half.apart, fun other member => (separate other member).mono_left half.firstWithin⟩,
        fun other member => (separate other member).mono_left half.secondWithin, othersApart⟩

theorem Subdivision.changes (halving : ∀ part first second, cuts part first second →
      Halves cells part first second)
    (divided : Subdivision cells whole before) (changes : Changes cuts before after) :
    Subdivision cells whole after := by
  induction changes with
  | refl => exact divided
  | tail _ change inductionHypothesis => exact inductionHypothesis.change halving change

theorem covered_change (halving : ∀ part first second, cuts part first second →
      Halves cells part first second)
    (change : Change cuts before after) : covered cells after ⊆ covered cells before := by
  rintro cell ⟨holder, member, inside⟩
  cases change with
  | drop part others taken left =>
    exact ⟨holder, taken.mem_iff.mpr (List.mem_cons_of_mem _ (left.mem_iff.mp member)), inside⟩
  | cut part first second others taken halves left =>
    have half := halving part first second halves
    have kept := left.mem_iff.mp member
    simp only [List.mem_cons] at kept
    rcases kept with rfl | rfl | other
    · exact ⟨part, taken.mem_iff.mpr List.mem_cons_self, half.firstWithin inside⟩
    · exact ⟨part, taken.mem_iff.mpr List.mem_cons_self, half.secondWithin inside⟩
    · exact ⟨holder, taken.mem_iff.mpr (List.mem_cons_of_mem _ other), inside⟩

theorem covered_changes (halving : ∀ part first second, cuts part first second →
      Halves cells part first second)
    (changes : Changes cuts before after) : covered cells after ⊆ covered cells before := by
  induction changes with
  | refl => exact subset_rfl
  | tail _ change inductionHypothesis => exact (covered_change halving change).trans inductionHypothesis

end Cells

section Weights

variable {weight : α → Nat} {cuts : α → α → α → Prop} {before after : List α}

/-- The weight of all parts together. -/
def partsWeight (weight : α → Nat) (parts : List α) : Nat := (parts.map weight).sum

theorem partsWeight_perm {parts other : List α} (perm : parts.Perm other) :
    partsWeight weight parts = partsWeight weight other :=
  (perm.map weight).sum_eq

/-- When no cut raises the weight, finitely many changes do not. -/
theorem partsWeight_changes (light : ∀ part first second, cuts part first second →
      weight first + weight second ≤ weight part)
    (changes : Changes cuts before after) : partsWeight weight after ≤ partsWeight weight before := by
  induction changes with
  | refl => exact le_rfl
  | tail _ change inductionHypothesis =>
    refine le_trans ?_ inductionHypothesis
    cases change with
    | drop part others taken left =>
      rw [partsWeight_perm taken, partsWeight_perm left]
      exact Nat.le_add_left _ _
    | cut part first second others taken halves left =>
      rw [partsWeight_perm taken, partsWeight_perm left]
      have smaller := light part first second halves
      simp only [partsWeight, List.map_cons, List.sum_cons]
      omega

theorem length_mul_le {least : Nat} {parts : List α} (heavy : ∀ part ∈ parts, least ≤ weight part) :
    parts.length * least ≤ partsWeight weight parts := by
  have bound := List.card_nsmul_le_sum (parts.map weight) least (by simpa using heavy)
  rwa [List.length_map, smul_eq_mul] at bound

end Weights

end Library.Subdivisions
