import Mathlib.Data.List.Basic
import Mathlib.Data.List.Infix
import Mathlib.Tactic.Common
import Ospray.Library.Literals

/-!
# Positions in texts

Where an element with a property stands first or last in a list, and where a word starts first. A list
that is written as what stands before the element, the element and what stands behind it says where that is.
-/

namespace Library.Positions

universe u
variable {α : Type u} {holds : α → Bool} {before after l : List α} {c : α}

theorem findIdx?_append_cons (none_ : ∀ d ∈ before, holds d = false) (found : holds c = true) :
    (before ++ c :: after).findIdx? holds = some before.length := by
  rw [List.findIdx?_append, List.findIdx?_eq_none_iff.mpr none_, List.findIdx?_cons, found]
  simp

theorem take_append_cons : (before ++ c :: after).take before.length = before := List.take_left

theorem take_succ_append_cons : (before ++ c :: after).take (before.length + 1) = before ++ [c] := by
  rw [List.append_cons, List.take_left' (by rw [List.length_append, List.length_singleton])]

theorem drop_append_cons : (before ++ c :: after).drop (before.length + 1) = after := by
  rw [List.append_cons, List.drop_left' (by rw [List.length_append, List.length_singleton])]

/-! ## Last positions -/

/-- The position of the last element with a property. -/
def findLast (holds : α → Bool) (l : List α) : Option Nat :=
  (l.reverse.findIdx? holds).map fun i => l.length - 1 - i

theorem findLast_none : findLast holds l = none ↔ ∀ c ∈ l, holds c = false := by
  simp [findLast]

theorem findLast_append_cons (none_ : ∀ d ∈ after, holds d = false) (found : holds c = true) :
    findLast holds (before ++ c :: after) = some before.length := by
  have reversed : (before ++ c :: after).reverse = after.reverse ++ c :: before.reverse := by simp
  rw [findLast, reversed, findIdx?_append_cons (fun d member => none_ d (List.mem_reverse.mp member)) found]
  simp only [Option.map_some, List.length_append, List.length_cons, List.length_reverse]
  congr 1
  omega

theorem last_cases (holds : α → Bool) (l : List α) :
    (∀ c ∈ l, holds c = false) ∨
      ∃ before c after, l = before ++ c :: after ∧ holds c = true ∧ ∀ d ∈ after, holds d = false := by
  induction l with
  | nil => exact Or.inl fun _ member => nomatch member
  | cons d l inductionHypothesis =>
    rcases inductionHypothesis with none_ | ⟨before, c, after, rfl, found, none_⟩
    · cases own : holds d with
      | true => exact Or.inr ⟨[], d, l, rfl, own, none_⟩
      | false => exact Or.inl (List.forall_mem_cons.mpr ⟨own, none_⟩)
    · exact Or.inr ⟨d :: before, c, after, rfl, found, none_⟩

/-! ## Words -/

variable [DecidableEq α]

/-- The first position at which a word starts. -/
def findWord (word : List α) : List α → Option Nat
  | [] => if word = [] then some 0 else none
  | c :: l => if word <+: c :: l then some 0 else (findWord word l).map (· + 1)

theorem findWord_append {word : List α} (none_ : c ∉ before) :
    findWord (c :: word) (before ++ (c :: word ++ after)) = some before.length := by
  induction before with
  | nil =>
    rw [List.nil_append, List.cons_append, findWord, if_pos ⟨after, rfl⟩]
    rfl
  | cons d before inductionHypothesis =>
    rw [List.mem_cons, not_or] at none_
    have other : ¬c :: word <+: d :: (before ++ (c :: word ++ after)) := by
      rw [List.cons_prefix_cons]
      exact fun both => none_.1 both.1
    rw [List.cons_append, findWord, if_neg other, inductionHypothesis none_.2]
    rfl

end Library.Positions
