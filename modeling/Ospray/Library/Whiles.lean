import Mathlib.Logic.Relation
import Mathlib.Tactic.Common
import Ospray.Library.Literals

/-!
# Loops that are left from the body

A pass through the body of a loop either leaves the loop, with a result, or goes on with a
next state. Run for enough passes, a loop whose invariant every pass keeps and whose
measure every pass lowers is left with a result for which the postcondition holds, and
the result does not depend on the number of passes allowed.
-/

namespace Library.Whiles

universe u
variable {σ : Type u}

/-- What one pass through the body does. -/
inductive Pass (σ : Type u) where
  | leave (last : σ)
  | again (next : σ)

/-- The state after the pass. -/
def Pass.result : Pass σ → σ
  | .leave last => last
  | .again next => next

/-- The states that passes lead to. -/
def Reaches (body : σ → Pass σ) : σ → σ → Prop :=
  Relation.ReflTransGen fun state next => body state = .again next

/-- The loop, run for at most `fuel` passes. -/
def loop (body : σ → Pass σ) : Nat → σ → Option σ
  | 0, _ => none
  | fuel + 1, state =>
    match body state with
    | .leave last => some last
    | .again next => loop body fuel next

/-- The loop is left with a result, for every sufficient number of passes. -/
def Returns (body : σ → Pass σ) (state last : σ) : Prop :=
  ∃ enough, ∀ fuel, enough ≤ fuel → loop body fuel state = some last

variable {body : σ → Pass σ} {state next last : σ}

theorem returns_leave (left : body state = .leave last) : Returns body state last := by
  refine ⟨1, fun fuel enough => ?_⟩
  obtain ⟨more, rfl⟩ := Nat.exists_eq_add_of_le' enough
  simp only [loop, left]

theorem returns_again (went : body state = .again next) (returns : Returns body next last) :
    Returns body state last := by
  obtain ⟨enough, runs⟩ := returns
  refine ⟨enough + 1, fun fuel more => ?_⟩
  obtain ⟨rest, rfl⟩ : ∃ rest, fuel = rest + 1 := ⟨fuel - 1, by omega⟩
  simp only [loop, went]
  exact runs rest (by omega)

/-- A result that is returned with some number of passes is the result. -/
theorem Returns.eq_of_loop (returns : Returns body state last) {fuel : Nat}
    (run : loop body fuel state = some next) : last = next := by
  obtain ⟨enough, runs⟩ := returns
  have same : ∀ more, loop body (fuel + more) state = some next := by
    intro more
    clear runs
    induction fuel generalizing state with
    | zero => simp [loop] at run
    | succ fuel inductionHypothesis =>
      rw [Nat.add_right_comm, loop]
      rw [loop] at run
      cases pass : body state with
      | leave result =>
        rw [pass] at run
        exact run
      | again after =>
        rw [pass] at run
        exact inductionHypothesis run
  have both := (runs (fuel + enough) (by omega)).symm.trans (same enough)
  exact Option.some.inj both

theorem returns_of_measure (invariant post : σ → Prop) (measure : σ → Nat)
    (leaves : ∀ state last, invariant state → body state = .leave last → post last)
    (lowers : ∀ state next, invariant state → body state = .again next →
      invariant next ∧ measure next < measure state)
    {state : σ} (holds : invariant state) : ∃ last, Returns body state last ∧ post last := by
  induction bound : measure state using Nat.strongRecOn generalizing state with
  | ind size inductionHypothesis =>
    cases pass : body state with
    | leave last => exact ⟨last, returns_leave pass, leaves state last holds pass⟩
    | again next =>
      obtain ⟨kept, lower⟩ := lowers state next holds pass
      obtain ⟨last, returns, result⟩ := inductionHypothesis (measure next) (bound ▸ lower) kept rfl
      exact ⟨last, returns_again pass returns, result⟩

theorem loop_eq_none (invariant : σ → Prop)
    (goesOn : ∀ state, invariant state → ∃ next, body state = .again next ∧ invariant next) (holds : invariant state)
    (fuel : Nat) : loop body fuel state = none := by
  induction fuel generalizing state with
  | zero => rfl
  | succ fuel inductionHypothesis =>
    obtain ⟨next, went, kept⟩ := goesOn state holds
    simp only [loop, went]
    exact inductionHypothesis kept

theorem not_returns (never : ∀ fuel, loop body fuel state = none) : ¬Returns body state last := fun ⟨enough, runs⟩ => by
  cases (never enough).symm.trans (runs enough (Nat.le_refl enough))

theorem Reaches.keeps {invariant : σ → Prop} (reached : Reaches body state last)
    (kept : ∀ state next, invariant state → body state = .again next → invariant next)
    (holds : invariant state) : invariant last := by
  induction reached with
  | refl => exact holds
  | tail _ passed inductionHypothesis => exact kept _ _ inductionHypothesis passed

end Library.Whiles
