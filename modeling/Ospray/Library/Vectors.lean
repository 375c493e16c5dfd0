import Mathlib.Data.List.Perm.Basic
import Mathlib.Data.List.Count
import Ospray.Library.Literals

/-!
# Sequence containers and their algorithms

The operations of a growing array that programs combine by hand: finding the
first entry that passes a test, erasing at an iterator, and the in-place removal
that moves the kept entries to the front and returns the new end. An iterator is
a position; the position equal to the length is the end, where erasing is not
defined.
-/

namespace Library.Vectors

universe u
variable {α : Type u}

/-- The position of the first entry that passes the test, the end if none does. -/
def findIf (entries : List α) (wanted : α → Bool) : Nat := entries.findIdx wanted

/-- Erase one entry. Erasing at the end is undefined behaviour. -/
def eraseAt (entries : List α) (position : Nat) : Option (List α) :=
  if position < entries.length then some (entries.eraseIdx position) else none

variable [DecidableEq α]

/-- One iteration of the in-place removal: an entry that is kept is copied down
to the write position. -/
def removeStep (value : α) (progress : List α × Nat) (read : Nat) : List α × Nat :=
  match progress.1[read]? with
  | some entry =>
    if entry = value then progress else (progress.1.set progress.2 entry, progress.2 + 1)
  | none => progress

/-- In-place removal: the storage afterwards and the new end. The storage keeps
its length, and what stands behind the new end is left over. -/
def remove (entries : List α) (value : α) : List α × Nat :=
  (List.range entries.length).foldl (removeStep value) (entries, 0)

/-- The entries that differ from a value, in order. -/
def others (entries : List α) (value : α) : List α := entries.filter (fun entry => entry ≠ value)

theorem others_length (entries : List α) (value : α) :
    (others entries value).length + entries.count value = entries.length := by
  induction entries with
  | nil => rfl
  | cons entry rest inductionHypothesis =>
    by_cases same : entry = value
    · simp only [others, same, List.count_cons_self, List.length_cons] at *
      simp only [ne_eq, decide_not, decide_true, Bool.not_true, Bool.false_eq_true,
        not_false_eq_true, List.filter_cons_of_neg] at *
      omega
    · simp only [others, ne_eq, decide_not, List.count_cons_of_ne same, List.length_cons] at *
      rw [List.filter_cons_of_pos (by simp [same]), List.length_cons]
      omega

theorem others_take_length (entries : List α) (value : α) (count : Nat) :
    (others (entries.take count) value).length ≤ count :=
  Nat.le_trans (List.length_filter_le _ _) (List.length_take_le _ _)

/-- The storage after some iterations: the kept entries read so far, then the
original entries. The induction is on the number of entries read; the write
position never passes the read position, so no entry is overwritten before it
is read. -/
theorem remove_progress (entries : List α) (value : α) (count : Nat)
    (bounded : count ≤ entries.length) :
    (List.range count).foldl (removeStep value) (entries, 0) =
      (others (entries.take count) value ++
          entries.drop (others (entries.take count) value).length,
        (others (entries.take count) value).length) := by
  induction count with
  | zero => simp [others]
  | succ count inductionHypothesis =>
    have inside : count < entries.length := bounded
    have behind := others_take_length entries value count
    rw [List.range_succ, List.foldl_append, List.foldl_cons, List.foldl_nil,
      inductionHypothesis (Nat.le_of_succ_le bounded), List.take_add_one,
      List.getElem?_eq_getElem inside, Option.toList_some]
    have unread : (others (entries.take count) value ++
        entries.drop (others (entries.take count) value).length)[count]? =
          some entries[count] := by
      rw [List.getElem?_append_right behind, List.getElem?_drop, Nat.add_sub_cancel' behind,
        List.getElem?_eq_getElem inside]
    simp only [removeStep, unread]
    by_cases same : entries[count] = value
    · have kept : others (entries.take count ++ [entries[count]]) value =
          others (entries.take count) value := by
        rw [others, List.filter_append, others, List.filter_cons_of_neg (by simp [same]),
          List.filter_nil, List.append_nil]
      rw [if_pos same, kept]
    · have kept : others (entries.take count ++ [entries[count]]) value =
          others (entries.take count) value ++ [entries[count]] := by
        rw [others, List.filter_append, others, List.filter_cons_of_pos (by simp [same]),
          List.filter_nil]
      have room : (others (entries.take count) value).length < entries.length := by omega
      rw [if_neg same, kept, List.set_append_right _ _ (Nat.le_refl _), Nat.sub_self,
        List.drop_eq_getElem_cons room, List.set_cons_zero, List.length_append,
        List.length_singleton, List.append_assoc, List.singleton_append]

/-- In-place removal puts the kept entries in front and leaves the entries
behind them as they were. -/
theorem remove_eq (entries : List α) (value : α) :
    remove entries value =
      (others entries value ++ entries.drop (others entries value).length,
        (others entries value).length) := by
  have whole := remove_progress entries value entries.length (Nat.le_refl _)
  rwa [List.take_length] at whole

/-- In-place removal followed by erasing everything behind the new end. -/
def removeErase (entries : List α) (value : α) : List α :=
  (remove entries value).1.take (remove entries value).2

theorem removeErase_eq (entries : List α) (value : α) :
    removeErase entries value = others entries value := by
  rw [removeErase, remove_eq, List.take_left]

/-- Erasing at the new end takes away one left-over entry. There is one exactly
when the value occurred. -/
theorem erase_removed (entries : List α) (value : α) :
    eraseAt (remove entries value).1 (remove entries value).2 =
      if value ∈ entries then
        some (others entries value ++ entries.drop (entries.length - (entries.count value - 1)))
      else none := by
  have split_ := others_length entries value
  rw [remove_eq, eraseAt]
  by_cases present : value ∈ entries
  · have occurs : 0 < entries.count value := List.count_pos_iff.mpr present
    have leftOver : (others entries value).length < entries.length := by omega
    have position : (others entries value).length + 1 =
        entries.length - (entries.count value - 1) := by omega
    rw [if_pos present, if_pos (by simp only [List.length_append, List.length_drop]; omega),
      List.eraseIdx_append_of_length_le (Nat.le_refl _), Nat.sub_self,
      List.eraseIdx_zero, List.tail_drop, position]
  · have absent : entries.count value = 0 := List.count_eq_zero.mpr present
    rw [if_neg present, if_neg]
    simp only [List.length_append, List.length_drop]
    omega

/-- The entries counted as their kind: the kept ones and the copies of a value. -/
theorem others_perm (entries : List α) (value : α) :
    (others entries value ++ List.replicate (entries.count value) value).Perm entries := by
  rw [List.perm_iff_count]
  intro counted
  by_cases same : counted = value
  · subst same
    have none_ : (others entries counted).count counted = 0 := by
      apply List.count_eq_zero.mpr
      simp [others]
    rw [List.count_append, none_, List.count_replicate_self, Nat.zero_add]
  · have kept : (others entries value).count counted = entries.count counted := by
      apply List.count_filter
      simp [same]
    rw [List.count_append, kept, List.count_replicate, if_neg (by simpa using Ne.symm same),
      Nat.add_zero]

/-- What in-place removal followed by a one-entry erase leaves is the sequence
without one occurrence exactly when all entries that stay behind the kept ones
are that value. -/
theorem others_append_perm_erase {entries : List α} {value : α} (present : value ∈ entries)
    (leftOver : List α) (fits : leftOver.length = entries.count value - 1) :
    (others entries value ++ leftOver).Perm (entries.erase value) ↔
      ∀ entry ∈ leftOver, entry = value := by
  have occurs : 0 < entries.count value := List.count_pos_iff.mpr present
  have copies : List.replicate (entries.count value) value =
      value :: List.replicate (entries.count value - 1) value := by
    rw [← List.replicate_succ, Nat.sub_add_cancel occurs]
  have one : (others entries value ++ List.replicate (entries.count value - 1) value).Perm
      (entries.erase value) := by
    have whole := others_perm entries value
    rw [copies] at whole
    have moved := List.perm_middle.symm.trans (whole.trans (List.perm_cons_erase present))
    exact moved.cons_inv
  constructor
  · intro same
    have tails : leftOver.Perm (List.replicate (entries.count value - 1) value) :=
      (List.perm_append_left_iff _).mp (same.trans one.symm)
    have equal := List.perm_replicate.mp tails
    intro entry member
    rw [equal] at member
    exact List.eq_of_mem_replicate member
  · intro all
    have equal : leftOver = List.replicate (entries.count value - 1) value :=
      List.eq_replicate_iff.mpr ⟨fits, all⟩
    rw [equal]
    exact one

theorem erase_found (entries : List α) (value : α) :
    eraseAt entries (findIf entries (fun entry => value = entry)) =
      if value ∈ entries then some (entries.erase value) else none := by
  have found : (fun entry : α => decide (value = entry)) = (fun entry => entry == value) := by
    funext entry
    rw [Bool.eq_iff_iff, decide_eq_true_iff, beq_iff_eq, eq_comm]
  have position : findIf entries (fun entry => value = entry) = entries.idxOf value := by
    rw [findIf, List.idxOf, found]
  rw [eraseAt, position, ← List.erase_eq_eraseIdx_of_idxOf rfl]
  simp only [List.idxOf_lt_length_iff]

end Library.Vectors
