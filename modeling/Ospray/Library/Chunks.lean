import Mathlib.Data.List.Basic
import Ospray.Library.Literals

/-!
# Chunks

A loop appends a chunk in every pass. Where the chunk of a pass starts, and what is read from
there.
-/

namespace Library.Chunks

variable {α : Type*} (chunk : Nat → List α) {i n k : Nat}

/-- Everything that is appended in the first passes. -/
def emitted (n : Nat) : List α := (List.range n).flatMap chunk

/-- Where the chunk of a pass starts. -/
def start (i : Nat) : Nat := (emitted chunk i).length

@[simp] theorem emitted_zero : emitted chunk 0 = [] := rfl

theorem emitted_succ (n : Nat) : emitted chunk (n + 1) = emitted chunk n ++ chunk n := by
  rw [emitted, List.range_succ, List.flatMap_append, List.flatMap_singleton, emitted]

theorem start_succ (i : Nat) : start chunk (i + 1) = start chunk i + (chunk i).length := by
  rw [start, emitted_succ, List.length_append, start]

theorem start_add_length_le (before : i < n) : start chunk i + (chunk i).length ≤ start chunk n := by
  induction n with
  | zero => exact absurd before (Nat.not_lt_zero i)
  | succ n ih =>
    rw [start_succ]
    obtain earlier | rfl := Nat.lt_succ_iff_lt_or_eq.mp before
    · exact Nat.le_trans (ih earlier) (Nat.le_add_right _ _)
    · exact Nat.le_refl _

theorem getElem?_emitted (before : i < n) (within : k < (chunk i).length) :
    (emitted chunk n)[start chunk i + k]? = (chunk i)[k]? := by
  induction n with
  | zero => exact absurd before (Nat.not_lt_zero i)
  | succ n ih =>
    rw [emitted_succ]
    obtain earlier | rfl := Nat.lt_succ_iff_lt_or_eq.mp before
    · rw [List.getElem?_append_left, ih earlier]
      exact Nat.lt_of_lt_of_le (Nat.add_lt_add_left within _) (start_add_length_le chunk earlier)
    · rw [start, List.getElem?_append_right (Nat.le_add_right _ _), Nat.add_sub_cancel_left]

end Library.Chunks
