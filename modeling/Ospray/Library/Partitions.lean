import Mathlib.Data.List.Perm.Basic
import Mathlib.Data.List.Range
import Mathlib.Logic.Function.Basic
import Ospray.Library.Literals

/-!
# Partitioning part of an array

The entries of a range that pass a test are written to the front of the same range of
another array, the others to its back, so that the latter stand there in the opposite
order. An array is a function of the index.
-/

namespace Library.Partitions

universe u
variable {α : Type u}

/-- The entries of a range of an array. -/
def slice (array : Nat → α) (first last : Nat) : List α := (List.range' first (last - first)).map array

variable {array other : Nat → α} {first middle last : Nat}

@[simp] theorem length_slice (array : Nat → α) (first last : Nat) :
    (slice array first last).length = last - first := by
  rw [slice, List.length_map, List.length_range']

@[simp] theorem slice_self (array : Nat → α) (first : Nat) : slice array first first = [] := by
  rw [slice, Nat.sub_self]
  rfl

theorem slice_cons (array : Nat → α) (some_ : first < last) :
    slice array first last = array first :: slice array (first + 1) last := by
  obtain ⟨rest, rfl⟩ := Nat.exists_eq_add_of_lt some_
  rw [slice, slice, Nat.add_assoc, Nat.add_sub_cancel_left, List.range'_succ, List.map_cons,
    Nat.add_comm rest, ← Nat.add_assoc, Nat.add_sub_cancel_left]

theorem slice_concat (array : Nat → α) (ordered : first ≤ last) :
    slice array first (last + 1) = slice array first last ++ [array last] := by
  have end_ : first + 1 * (last - first) = last := by omega
  rw [slice, slice, Nat.succ_sub ordered, List.range'_concat, List.map_append, end_]
  rfl

theorem slice_append (array : Nat → α) (low : first ≤ middle) (high : middle ≤ last) :
    slice array first middle ++ slice array middle last = slice array first last := by
  have sizes : middle - first + (last - middle) = last - first := by omega
  have place : first + 1 * (middle - first) = middle := by omega
  rw [slice, slice, slice, ← List.map_append, ← sizes, ← List.range'_append, place]

theorem slice_congr (same : ∀ index, first ≤ index → index < last → array index = other index) :
    slice array first last = slice other first last := by
  apply List.map_congr_left
  intro index member
  obtain ⟨low, high⟩ := List.mem_range'_1.mp member
  exact same index low (by omega)

variable (test : α → Bool)

/-- The two write positions and the array that is written. -/
structure Progress (α : Type u) where
  left : Nat
  right : Nat
  target : Nat → α

/-- One entry is written. -/
def place (progress : Progress α) (entry : α) : Progress α :=
  if test entry then
    { progress with
      target := Function.update progress.target progress.left entry, left := progress.left + 1 }
  else
    { progress with
      target := Function.update progress.target (progress.right - 1) entry
      right := progress.right - 1 }

/-- The entries that pass the test, -/
def passing (entries : List α) : List α := entries.filter test

/-- and the others, from the last one on. -/
def failing (entries : List α) : List α := (entries.filter fun entry => !test entry).reverse

variable {test} {entries : List α} {progress : Progress α}

@[simp] theorem passing_cons_of_pos {entry : α} (passes : test entry = true) :
    passing test (entry :: entries) = entry :: passing test entries :=
  List.filter_cons_of_pos passes

@[simp] theorem passing_cons_of_neg {entry : α} (fails : ¬ test entry = true) :
    passing test (entry :: entries) = passing test entries :=
  List.filter_cons_of_neg fails

@[simp] theorem failing_cons_of_pos {entry : α} (passes : test entry = true) :
    failing test (entry :: entries) = failing test entries := by
  rw [failing, List.filter_cons_of_neg (by simp [passes]), failing]

@[simp] theorem failing_cons_of_neg {entry : α} (fails : ¬ test entry = true) :
    failing test (entry :: entries) = failing test entries ++ [entry] := by
  rw [failing, List.filter_cons_of_pos (by simp [fails]), List.reverse_cons, failing]

theorem partition_perm (test : α → Bool) (entries : List α) :
    (passing test entries ++ failing test entries).Perm entries :=
  ((List.reverse_perm _).append_left _).trans (List.filter_append_perm test entries)

theorem partition_length (test : α → Bool) (entries : List α) :
    (passing test entries).length + (failing test entries).length = entries.length := by
  rw [← List.length_append]
  exact (partition_perm test entries).length_eq

/-- What the loop writes between the two positions; the induction is on the entries, from the
outside to the inside. -/
theorem place_foldl (entries : List α) (progress : Progress α)
    (room : progress.left + entries.length ≤ progress.right) :
    let result := entries.foldl (place test) progress
    result.left = progress.left + (passing test entries).length ∧
      result.right + (failing test entries).length = progress.right ∧
      slice result.target progress.left result.left = passing test entries ∧
      slice result.target result.right progress.right = failing test entries ∧
      ∀ index, index < progress.left ∨ progress.right ≤ index →
        result.target index = progress.target index := by
  induction entries generalizing progress with
  | nil => exact ⟨rfl, rfl, slice_self _ _, slice_self _ _, fun _ _ => rfl⟩
  | cons entry rest inductionHypothesis =>
    rw [List.length_cons] at room
    rw [List.foldl_cons]
    by_cases passes : test entry = true
    · have step : place test progress entry =
          { progress with
            target := Function.update progress.target progress.left entry
            left := progress.left + 1 } := if_pos passes
      obtain ⟨left, right, low, high, kept⟩ := inductionHypothesis (place test progress entry) (by
        rw [step]
        change progress.left + 1 + rest.length ≤ progress.right
        omega)
      generalize rest.foldl (place test) (place test progress entry) = result at left right low high kept ⊢
      simp only [step] at left right low high kept
      have own : result.target progress.left = entry := by
        rw [kept _ (.inl (Nat.lt_succ_self _)), Function.update_self]
      refine ⟨?_, ?_, ?_, ?_, fun index outside => ?_⟩
      · rw [passing_cons_of_pos passes, List.length_cons]
        omega
      · rw [failing_cons_of_pos passes]
        exact right
      · rw [slice_cons _ (by omega), own, low, passing_cons_of_pos passes]
      · rw [failing_cons_of_pos passes, high]
      · rw [kept index (by omega), Function.update_of_ne (by omega)]
    · have step : place test progress entry =
          { progress with
            target := Function.update progress.target (progress.right - 1) entry
            right := progress.right - 1 } := if_neg passes
      obtain ⟨left, right, low, high, kept⟩ := inductionHypothesis (place test progress entry) (by
        rw [step]
        change progress.left + rest.length ≤ progress.right - 1
        omega)
      generalize rest.foldl (place test) (place test progress entry) = result at left right low high kept ⊢
      simp only [step] at left right low high kept
      have own : result.target (progress.right - 1) = entry := by
        rw [kept _ (.inr (Nat.le_refl _)), Function.update_self]
      have last : progress.right - 1 + 1 = progress.right := by omega
      refine ⟨?_, ?_, ?_, ?_, fun index outside => ?_⟩
      · rw [passing_cons_of_neg passes]
        exact left
      · rw [failing_cons_of_neg passes, List.length_append, List.length_singleton]
        omega
      · rw [low, passing_cons_of_neg passes]
      · have whole := slice_concat result.target (show result.right ≤ progress.right - 1 by omega)
        rw [last, own, high] at whole
        rw [failing_cons_of_neg passes, whole]
      · rw [kept index (by omega), Function.update_of_ne (by omega)]

end Library.Partitions
