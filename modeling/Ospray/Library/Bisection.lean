import Ospray.Library.Whiles
import Mathlib.Order.Basic

/-!
# Binary search

The search halves a range of indices, behind which a property holds and before which it does
not. If the property, once it holds, goes on to hold, the search ends at the first index of
the range for which it does, or behind the range.
-/

namespace Library.Bisection

open Library.Whiles

variable (holds : Nat → Prop) [DecidablePred holds]

/-- One round of the search, in a range given by its first index and its length. -/
def round : Nat × Nat → Pass (Nat × Nat)
  | (first, length) =>
    if 0 < length then
      let half := length / 2
      let middle := first + half
      if holds middle then .again (first, half) else .again (middle + 1, length - (half + 1))
    else .leave (first, length)

variable {holds}

/-- Before the range of the search nothing holds, behind it everything does. -/
structure Brackets (holds : Nat → Prop) (start stop : Nat) (range : Nat × Nat) : Prop where
  first : start ≤ range.1
  last : range.1 + range.2 ≤ stop
  before : ∀ index, start ≤ index → index < range.1 → ¬holds index
  behind : ∀ index, range.1 + range.2 ≤ index → index < stop → holds index

omit [DecidablePred holds] in
theorem brackets_whole (start length : Nat) : Brackets holds start (start + length) (start, length) where
  first := Nat.le_refl start
  last := Nat.le_refl (start + length)
  before _ reached within := absurd reached (Nat.not_le.mpr within)
  behind _ reached within := absurd reached (Nat.not_le.mpr within)

/-- A round keeps the brackets and shortens the range. -/
theorem round_brackets {start stop : Nat} {range next : Nat × Nat}
    (upward : ∀ first second, start ≤ first → first ≤ second → second < stop → holds first → holds second)
    (brackets : Brackets holds start stop range) (went : round holds range = .again next) :
    Brackets holds start stop next ∧ next.2 < range.2 := by
  obtain ⟨first, length⟩ := range
  obtain ⟨after, inside, before, behind⟩ := brackets
  dsimp only at after inside before behind
  simp only [round] at went
  split_ifs at went with some_ found
  · obtain rfl := Pass.again.inj went
    refine ⟨⟨after, by dsimp only; omega, before, fun index reached within => ?_⟩, by dsimp only; omega⟩
    exact upward _ index (by omega) reached within found
  · obtain rfl := Pass.again.inj went
    refine ⟨⟨by dsimp only; omega, by dsimp only; omega, fun index reached within holding => ?_, ?_⟩,
      by dsimp only; omega⟩
    · exact found (upward index _ reached (Nat.le_of_lt_succ within) (by omega) holding)
    · intro index reached within
      exact behind index (by dsimp only at reached; omega) within

/-- The search ends at the first index for which the property holds. -/
theorem search_returns {start length : Nat}
    (upward : ∀ first second, start ≤ first → first ≤ second → second < start + length → holds first → holds second) :
    ∃ found, Returns (round holds) (start, length) (found, 0) ∧ start ≤ found ∧ found ≤ start + length ∧
      (∀ index, start ≤ index → index < found → ¬holds index) ∧
      ∀ index, found ≤ index → index < start + length → holds index := by
  obtain ⟨last, returns, left⟩ := returns_of_measure (Brackets holds start (start + length))
    (fun range => Brackets holds start (start + length) range ∧ range.2 = 0) Prod.snd
    (by
      rintro ⟨first, rest⟩ last brackets went
      simp only [round] at went
      split_ifs at went with some_
      obtain rfl := Pass.leave.inj went
      exact ⟨brackets, Nat.eq_zero_of_not_pos some_⟩)
    (fun range next brackets went => round_brackets upward brackets went)
    (brackets_whole start length)
  obtain ⟨found, rest⟩ := last
  obtain ⟨⟨after, inside, before, behind⟩, rfl⟩ := left
  exact ⟨found, returns, after, inside, before, behind⟩

end Library.Bisection
