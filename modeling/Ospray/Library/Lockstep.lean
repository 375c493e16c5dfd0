import Mathlib.Logic.Function.Iterate
import Ospray.Library.Whiles

/-!
# Two loops in lockstep

Two loops go on pass by pass. A relation between their states that every pass keeps where the
first loop meets a condition holds as long as all of its states do. If the condition is needed for
what the relation implies, then agreement in all states is the condition in all states.
-/

namespace Library.Lockstep

open Library.Whiles

universe u v
variable {σ : Type u} {τ : Type v}

/-- The state after a number of passes; a loop that has been left stays where it is. -/
def stage (body : σ → Pass σ) (passes : Nat) (state : σ) : σ :=
  (fun state => (body state).result)^[passes] state

/-- Both passes leave their loops, or both go on, with related states. -/
inductive Both (related : σ → τ → Prop) : Pass σ → Pass τ → Prop where
  | leave {last : σ} {last' : τ} (holds : related last last') : Both related (.leave last) (.leave last')
  | again {next : σ} {next' : τ} (holds : related next next') : Both related (.again next) (.again next')

variable {body : σ → Pass σ} {body' : τ → Pass τ} {related agree : σ → τ → Prop} {meets : σ → Prop} {state : σ}
  {state' : τ}

theorem Both.result {pass : Pass σ} {pass' : Pass τ} (both : Both related pass pass') :
    related pass.result pass'.result := by
  cases both with
  | leave holds => exact holds
  | again holds => exact holds

theorem stage_succ (body : σ → Pass σ) (passes : Nat) (state : σ) :
    stage body (passes + 1) state = (body (stage body passes state)).result :=
  Function.iterate_succ_apply' ..

theorem related_stage (kept : ∀ state state', related state state' → meets state → Both related (body state) (body' state'))
    (holds : related state state') (passes : Nat) (met : ∀ earlier < passes, meets (stage body earlier state)) :
    related (stage body passes state) (stage body' passes state') := by
  induction passes with
  | zero => exact holds
  | succ passes inductionHypothesis =>
    rw [stage_succ, stage_succ]
    have before := inductionHypothesis fun earlier less => met earlier (Nat.lt_succ_of_lt less)
    exact (kept _ _ before (met passes (Nat.lt_succ_self passes))).result

/-- The states agree throughout if and only if the first loop meets the condition throughout. -/
theorem agree_iff (kept : ∀ state state', related state state' → meets state → Both related (body state) (body' state'))
    (implies : ∀ state state', related state state' → agree state state')
    (needed : ∀ state state', related state state' → agree (body state).result (body' state').result → meets state)
    (holds : related state state') :
    (∀ passes, agree (stage body passes state) (stage body' passes state')) ↔
      ∀ passes, meets (stage body passes state) := by
  constructor
  · intro agrees passes
    induction passes using Nat.strongRecOn with
    | ind passes inductionHypothesis =>
      have now := related_stage kept holds passes inductionHypothesis
      have next := agrees (passes + 1)
      rw [stage_succ, stage_succ] at next
      exact needed _ _ now next
  · intro met passes
    exact implies _ _ (related_stage kept holds passes fun earlier _ => met earlier)

theorem loop_related (kept : ∀ state state', related state state' → meets state → Both related (body state) (body' state'))
    (holds : related state state') (met : ∀ passes, meets (stage body passes state)) (fuel : Nat) :
    Option.Rel related (loop body fuel state) (loop body' fuel state') := by
  induction fuel generalizing state state' with
  | zero => exact Option.Rel.none
  | succ fuel inductionHypothesis =>
    have both := kept state state' holds (met 0)
    have later : ∀ passes, meets (stage body passes (body state).result) := fun passes => met (passes + 1)
    rw [loop, loop]
    generalize body state = pass at both later ⊢
    generalize body' state' = pass' at both ⊢
    cases both with
    | leave holds => exact Option.Rel.some holds
    | again holds => exact inductionHypothesis holds later

end Library.Lockstep
