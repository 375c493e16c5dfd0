import Mathlib.Data.List.Basic
import Ospray.Library.Literals

/-!
# Shared ownership

An object lives as long as it has an owner: something outside that holds it, or another
living object. When owners go, the objects that are left without one are destroyed, and with
them what only they owned. What is destroyed does not depend on the order: it is the least
set of objects whose owners are all in it. Objects on a cycle of owners stay.
-/

namespace Library.Ownership

universe u
variable {α : Type u} (held : α → Prop) (owns : α → α → Prop)

/-- A living object loses its last owner: nothing outside holds it, and its living owners lose theirs. -/
inductive Dies (lives : α → Prop) : α → Prop where
  | intro {x : α} (alive : lives x) (loose : ¬held x)
      (owners : ∀ y, lives y → owns y x → Dies lives y) : Dies lives x

variable {held owns} {lives : α → Prop} {x : α}

theorem Dies.alive (dies : Dies held owns lives x) : lives x := by
  cases dies with
  | intro alive _ _ => exact alive

theorem Dies.owner (dies : Dies held owns lives x) {y : α} (alive : lives y) (owner : owns y x) :
    Dies held owns lives y := by
  cases dies with
  | intro _ _ owners => exact owners y alive owner

/-- What dies is determined by who holds and who owns the living objects. Objects without owners of their own may be
among the living ones or not. -/
theorem Dies.congr {held' : α → Prop} {owns' : α → α → Prop} {lives' : α → Prop}
    (within : ∀ x, lives x → lives' x) (holds : ∀ x, lives x → held' x → held x)
    (owners : ∀ x y, lives x → lives' y → owns' y x → lives y ∧ owns y x) (dies : Dies held owns lives x) :
    Dies held' owns' lives' x := by
  induction dies with
  | intro alive loose _ inductionHypothesis =>
    refine .intro (within _ alive) (fun still => loose (holds _ alive still)) fun y other owner => ?_
    obtain ⟨alive', owner'⟩ := owners _ y alive other owner
    exact inductionHypothesis y alive' owner'

/-! ## Destruction -/

variable (held owns) [DecidablePred held] [DecidableRel owns]

/-- An object has an owner. -/
def owned (living : List α) (x : α) : Bool := decide (held x) || living.any fun y => decide (owns y x)

/-- Rounds in which all objects without an owner are destroyed. -/
def sweep : Nat → List α → List α
  | 0, living => living
  | rounds + 1, living => sweep rounds (living.filter (owned held owns living))

variable {held owns} {living : List α} {rounds : Nat}

theorem owned_iff : owned held owns living x = true ↔ held x ∨ ∃ y ∈ living, owns y x := by
  simp only [owned, Bool.or_eq_true, decide_eq_true_eq, List.any_eq_true]

theorem mem_of_mem_sweep (left : x ∈ sweep held owns rounds living) : x ∈ living := by
  induction rounds generalizing living with
  | zero => exact left
  | succ rounds inductionHypothesis => exact (List.mem_filter.mp (inductionHypothesis left)).1

theorem dies_of_filter (dies : Dies held owns (· ∈ living.filter (owned held owns living)) x) :
    Dies held owns (· ∈ living) x := by
  induction dies with
  | intro alive loose _ inductionHypothesis =>
    refine .intro (List.mem_filter.mp alive).1 loose fun y member owner => ?_
    by_cases kept : owned held owns living y = true
    · exact inductionHypothesis y (List.mem_filter.mpr ⟨member, kept⟩) owner
    · rw [owned_iff] at kept
      exact .intro member (fun still => kept (.inl still))
        fun z among above => absurd (.inr ⟨z, among, above⟩) kept

theorem dies_filter (dies : Dies held owns (· ∈ living) x) (kept : x ∈ living.filter (owned held owns living)) :
    Dies held owns (· ∈ living.filter (owned held owns living)) x := by
  induction dies with
  | intro _ loose _ inductionHypothesis =>
    exact .intro kept loose fun y among owner => inductionHypothesis y (List.mem_filter.mp among).1 owner among

theorem dies_of_swept (member : x ∈ living) (gone : x ∉ sweep held owns rounds living) :
    Dies held owns (· ∈ living) x := by
  induction rounds generalizing living with
  | zero => exact absurd member gone
  | succ rounds inductionHypothesis =>
    by_cases kept : owned held owns living x = true
    · exact dies_of_filter (inductionHypothesis (List.mem_filter.mpr ⟨member, kept⟩) gone)
    · rw [owned_iff] at kept
      exact .intro member (fun still => kept (.inl still)) fun y among owner => absurd (.inr ⟨y, among, owner⟩) kept

theorem not_dies_of_stable (stable : ∀ x ∈ living, owned held owns living x = true) :
    ¬Dies held owns (· ∈ living) x := by
  intro dies
  induction dies with
  | intro alive loose _ inductionHypothesis =>
    obtain still | ⟨y, among, owner⟩ := owned_iff.mp (stable _ alive)
    · exact loose still
    · exact inductionHypothesis y among owner

/-- After as many rounds as there are objects, what is left has not lost its last owner. The induction is on the
rounds: each destroys something, or all that is left has owners. -/
theorem not_dies_of_mem_sweep (enough : living.length ≤ rounds) (left : x ∈ sweep held owns rounds living) :
    ¬Dies held owns (· ∈ living) x := by
  induction rounds generalizing living with
  | zero =>
    obtain rfl := List.length_eq_zero_iff.mp (Nat.le_zero.mp enough)
    exact absurd left List.not_mem_nil
  | succ rounds inductionHypothesis =>
    intro dies
    by_cases stable : ∀ x ∈ living, owned held owns living x = true
    · exact not_dies_of_stable stable dies
    · have fewer : (living.filter (owned held owns living)).length < living.length :=
        Nat.lt_of_le_of_ne (List.length_filter_le _ _) (List.length_filter_eq_length_iff.not.mpr stable)
      exact inductionHypothesis (by omega) left (dies_filter dies (mem_of_mem_sweep left))

theorem mem_sweep_iff (enough : living.length ≤ rounds) :
    x ∈ sweep held owns rounds living ↔ x ∈ living ∧ ¬Dies held owns (· ∈ living) x := by
  constructor
  · exact fun left => ⟨mem_of_mem_sweep left, not_dies_of_mem_sweep enough left⟩
  · rintro ⟨member, survives⟩
    by_contra gone
    exact survives (dies_of_swept member gone)

theorem not_dies_sweep (enough : living.length ≤ rounds) :
    ¬Dies held owns (· ∈ sweep held owns rounds living) x := by
  intro dies
  apply not_dies_of_mem_sweep enough dies.alive
  induction dies with
  | intro alive loose _ inductionHypothesis =>
    refine .intro (mem_of_mem_sweep alive) loose fun y among owner => ?_
    by_cases left : y ∈ sweep held owns rounds living
    · exact inductionHypothesis y left owner
    · exact dies_of_swept among left

theorem sweep_eq_self (rest : ∀ x, ¬Dies held owns (· ∈ living) x) : sweep held owns rounds living = living := by
  have stable : living.filter (owned held owns living) = living := by
    refine List.filter_eq_self.mpr fun x member => ?_
    by_contra without
    rw [owned_iff] at without
    exact rest x (.intro member (fun still => without (.inl still))
      fun y among owner => absurd (.inr ⟨y, among, owner⟩) without)
  induction rounds with
  | zero => rfl
  | succ rounds inductionHypothesis => rw [sweep, stable, inductionHypothesis]

end Library.Ownership
