import Mathlib.Algebra.BigOperators.Group.List.Basic
import Mathlib.Data.List.GetD
import Ospray.Library.Literals

/-!
# Slots that are filled, replaced and vacated

A store of numbered slots, each holding a value or vacant. A slot once vacated
keeps its number, so a number that is still around can be recognised as stale. A
quantity summed over all values changes, when one slot changes, by what that slot
contributed before and after.
-/

namespace Library.Slots

universe u
variable {α : Type u}

/-- What a slot holds; nothing outside the store. -/
def occupant (slots : List (Option α)) (index : Nat) : Option α := slots.getD index none

/-- A quantity summed over all values in the store. -/
def total (weight : α → Nat) (slots : List (Option α)) : Nat :=
  (slots.map fun slot => slot.elim 0 weight).sum

theorem occupant_lt {slots : List (Option α)} {index : Nat} {value : α}
    (found : occupant slots index = some value) : index < slots.length := by
  by_contra outside
  rw [occupant, List.getD_eq_default _ _ (Nat.le_of_not_lt outside)] at found
  cases found

@[simp] theorem occupant_set {slots : List (Option α)} {index : Nat} {value : α}
    (found : occupant slots index = some value) (slot : Option α) (other : Nat) :
    occupant (slots.set index slot) other = if other = index then slot else occupant slots other := by
  have inside := occupant_lt found
  by_cases same : other = index
  · subst same
    rw [if_pos rfl, occupant, List.getD_eq_getElem _ _ (by rwa [List.length_set]),
      List.getElem_set_self]
  · rw [if_neg same, occupant, occupant, List.getD_eq_getElem?_getD, List.getD_eq_getElem?_getD,
      List.getElem?_set_ne (Ne.symm same)]

theorem occupied_set {slots : List (Option α)} {index other : Nat} {value found : α}
    {slot : Option α} (live : occupant slots index = some value)
    (occupied : occupant (slots.set index slot) other = some found) :
    (other = index ∧ slot = some found) ∨ (other ≠ index ∧ occupant slots other = some found) := by
  rw [occupant_set live] at occupied
  by_cases same : other = index
  · rw [if_pos same] at occupied
    exact Or.inl ⟨same, occupied⟩
  · rw [if_neg same] at occupied
    exact Or.inr ⟨same, occupied⟩

theorem occupant_append (slots : List (Option α)) (slot : Option α) (index : Nat) :
    occupant (slots ++ [slot]) index =
      if index = slots.length then slot else occupant slots index := by
  simp only [occupant, List.getD_eq_getElem?_getD]
  by_cases last : index = slots.length
  · subst last
    rw [if_pos rfl, List.getElem?_concat_length, Option.getD_some]
  · rw [if_neg last]
    by_cases inside : index < slots.length
    · rw [List.getElem?_append_left inside]
    · have outside : (slots ++ [slot]).length ≤ index := by
        rw [List.length_append, List.length_singleton]
        omega
      rw [List.getElem?_eq_none outside, List.getElem?_eq_none (by omega)]

/-- Changing one slot trades its contribution for the new one. The induction is on
the store, along which the slot's number counts down. -/
theorem total_set (weight : α → Nat) {slots : List (Option α)} {index : Nat} {value : α}
    (found : occupant slots index = some value) (slot : Option α) :
    total weight (slots.set index slot) + weight value =
      total weight slots + slot.elim 0 weight := by
  induction slots generalizing index with
  | nil => cases found
  | cons first rest inductionHypothesis =>
    cases index with
    | zero =>
      obtain rfl : first = some value := found
      simp only [total, List.set_cons_zero, List.map_cons, List.sum_cons, Option.elim_some]
      omega
    | succ index =>
      have below : occupant rest index = some value := found
      have onwards := inductionHypothesis below
      simp only [total, List.set_cons_succ, List.map_cons, List.sum_cons] at *
      omega

theorem total_append (weight : α → Nat) (slots : List (Option α)) (slot : Option α) :
    total weight (slots ++ [slot]) = total weight slots + slot.elim 0 weight := by
  simp [total]

theorem total_filter (weight : α → Nat) (slots : List (Option α)) {kept : Option α → Bool}
    (all : ∀ slot ∈ slots, kept slot = false → slot = none) :
    total weight (slots.filter kept) = total weight slots := by
  induction slots with
  | nil => rfl
  | cons first rest inductionHypothesis =>
    have onwards := inductionHypothesis (fun slot member => all slot (List.mem_cons_of_mem _ member))
    cases keeps : kept first with
    | true =>
      rw [List.filter_cons_of_pos keeps]
      simp only [total, List.map_cons, List.sum_cons] at *
      rw [onwards]
    | false =>
      have vacant := all first List.mem_cons_self keeps
      rw [List.filter_cons_of_neg (by simp [keeps])]
      simp only [total, List.map_cons, List.sum_cons, vacant, Option.elim_none, Nat.zero_add] at *
      exact onwards

theorem weight_le_total (weight : α → Nat) {slots : List (Option α)} {index : Nat} {value : α}
    (found : occupant slots index = some value) : weight value ≤ total weight slots := by
  have vacated := total_set weight found none
  rw [Option.elim_none] at vacated
  omega

/-- What is not nothing in all, some value contributes to. -/
theorem exists_of_total_pos {weight : α → Nat} {slots : List (Option α)} (positive : 0 < total weight slots) :
    ∃ index value, occupant slots index = some value ∧ 0 < weight value := by
  induction slots with
  | nil => exact absurd positive (Nat.lt_irrefl 0)
  | cons first rest inductionHypothesis =>
    by_cases onwards : 0 < total weight rest
    · obtain ⟨index, value, found, contributes⟩ := inductionHypothesis onwards
      exact ⟨index + 1, value, found, contributes⟩
    · cases first with
      | none =>
        rw [total, List.map_cons, List.sum_cons, Option.elim_none, Nat.zero_add] at positive
        exact absurd positive onwards
      | some value =>
        rw [total, List.map_cons, List.sum_cons, Option.elim_some] at positive
        refine ⟨0, value, rfl, ?_⟩
        rw [total] at onwards
        omega

end Library.Slots
