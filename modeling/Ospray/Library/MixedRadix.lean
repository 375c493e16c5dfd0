import Mathlib.Algebra.BigOperators.Group.List.Basic
import Mathlib.Data.List.Forall2
import Mathlib.Data.List.OfFn
import Ospray.Library.Literals

/-!
# Mixed radix places

Coordinates within dimensions are the digits of a number whose radix changes from place to place.
The first dimension varies fastest.
-/

namespace Library.MixedRadix

/-- The coordinates are below the dimensions. -/
abbrev Within (coords dims : List Nat) : Prop := List.Forall₂ (· < ·) coords dims

/-- The number with these digits. -/
def flatten : List Nat → List Nat → Nat
  | dim :: dims, coord :: coords => coord + dim * flatten dims coords
  | _, _ => 0

/-- The digits of a number. -/
def reshape : List Nat → Nat → List Nat
  | [], _ => []
  | dim :: dims, i => i % dim :: reshape dims (i / dim)

variable {coords dims : List Nat} {i : Nat}

theorem flatten_lt (within : Within coords dims) : flatten dims coords < dims.prod := by
  induction within with
  | nil => exact Nat.zero_lt_one
  | @cons coord dim coords dims less _ inductionHypothesis =>
    have next : dim * (flatten dims coords + 1) ≤ dim * dims.prod := Nat.mul_le_mul_left dim inductionHypothesis
    rw [Nat.mul_succ] at next
    rw [flatten, List.prod_cons]
    omega

theorem reshape_flatten (within : Within coords dims) : reshape dims (flatten dims coords) = coords := by
  induction within with
  | nil => rfl
  | @cons coord dim coords dims less _ inductionHypothesis =>
    have positive : 0 < dim := Nat.zero_lt_of_lt less
    rw [flatten, reshape, Nat.add_mul_mod_self_left, Nat.mod_eq_of_lt less, Nat.add_mul_div_left _ _ positive,
      Nat.div_eq_of_lt less, Nat.zero_add, inductionHypothesis]

theorem within_reshape (below : i < dims.prod) : Within (reshape dims i) dims := by
  induction dims generalizing i with
  | nil => exact .nil
  | cons dim dims inductionHypothesis =>
    rw [List.prod_cons] at below
    have positive : 0 < dim := Nat.pos_of_mul_pos_right (Nat.zero_lt_of_lt below)
    exact .cons (Nat.mod_lt i positive) (inductionHypothesis (Nat.div_lt_of_lt_mul below))

theorem flatten_reshape (below : i < dims.prod) : flatten dims (reshape dims i) = i := by
  induction dims generalizing i with
  | nil => exact (Nat.lt_one_iff.mp below).symm
  | cons dim dims inductionHypothesis =>
    rw [List.prod_cons] at below
    rw [reshape, flatten, inductionHypothesis (Nat.div_lt_of_lt_mul below), Nat.mod_add_div]

theorem forall₂_ofFn {α β : Type*} {related : α → β → Prop} {n : Nat} {f : Fin n → α} {g : Fin n → β} :
    List.Forall₂ related (List.ofFn f) (List.ofFn g) ↔ ∀ d, related (f d) (g d) := by
  induction n with
  | zero => simp
  | succ n inductionHypothesis =>
    rw [List.ofFn_succ, List.ofFn_succ, List.forall₂_cons, inductionHypothesis, Fin.forall_fin_succ]

end Library.MixedRadix
