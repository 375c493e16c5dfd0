import Mathlib.Data.List.Induction
import Mathlib.Logic.Relation
import Ospray.Library.Literals

/-!
# Runs of a step relation

A system is a predicate on its start states and a relation between consecutive
states. Labels, schedulers and message orders are choices inside the relation,
so a statement about every reachable state is a statement about every
interleaving. Two rules carry the inductions: a property that holds at the start
and survives each step holds in every reachable state, and steps that shrink a
natural measure lead from every state to one with no step left.

A system driven by a list of calls is a partial function of state and call. Such
a system follows a specification at every point of a run exactly when each call
of the run meets the condition under which one step keeps the two related.
-/

namespace Library.Runs

universe u
variable {σ : Type u}

/-- States that finitely many steps reach from some start state. -/
def Reachable (start : σ → Prop) (step : σ → σ → Prop) (state : σ) : Prop :=
  ∃ origin, start origin ∧ Relation.ReflTransGen step origin state

/-- A state in which no step is possible. -/
def Terminal (step : σ → σ → Prop) (state : σ) : Prop := ∀ next, ¬ step state next

variable {start : σ → Prop} {step : σ → σ → Prop}

theorem reachable_start {state : σ} (begins : start state) : Reachable start step state :=
  ⟨state, begins, .refl⟩

theorem reachable_step {state next : σ} (reached : Reachable start step state)
    (moved : step state next) : Reachable start step next := by
  obtain ⟨origin, begins, run⟩ := reached
  exact ⟨origin, begins, run.tail moved⟩

theorem reachable_run {state next : σ} (reached : Reachable start step state)
    (run : Relation.ReflTransGen step state next) : Reachable start step next := by
  obtain ⟨origin, begins, first⟩ := reached
  exact ⟨origin, begins, first.trans run⟩

/-- The invariant rule. Each step may assume the invariant of the state it
leaves; the induction is on the run that reaches the state. -/
theorem reachable_invariant {holds : σ → Prop} (initially : ∀ state, start state → holds state)
    (preserved : ∀ state next, holds state → step state next → holds next)
    {state : σ} (reached : Reachable start step state) : holds state := by
  obtain ⟨origin, begins, run⟩ := reached
  induction run with
  | refl => exact initially origin begins
  | tail _ moved inductionHypothesis => exact preserved _ _ inductionHypothesis moved

/-- When every step lowers the measure, some run from each state ends in a
terminal one. The induction is on the measure of the state the run starts from. -/
theorem terminal_reachable (measure : σ → Nat)
    (lowers : ∀ state next, step state next → measure next < measure state) (state : σ) :
    ∃ last, Relation.ReflTransGen step state last ∧ Terminal step last := by
  induction bound : measure state using Nat.strongRecOn generalizing state with
  | ind size inductionHypothesis =>
    by_cases stuck : Terminal step state
    · exact ⟨state, .refl, stuck⟩
    · obtain ⟨next, moved⟩ : ∃ next, step state next := by
        simpa only [Terminal, not_forall, not_not] using stuck
      have smaller : measure next < size := bound ▸ lowers state next moved
      obtain ⟨last, run, ends⟩ := inductionHypothesis (measure next) smaller next rfl
      exact ⟨last, run.head moved, ends⟩

/-! ## Runs driven by a list of calls -/

section Calls

variable {τ κ : Type u} {perform : σ → κ → Option σ} {specify : τ → κ → τ}

theorem calls_append (origin : σ) (done : List κ) (call : κ) :
    (done ++ [call]).foldlM perform origin = (done.foldlM perform origin).bind (perform · call) := by
  rw [List.foldlM_append]
  apply congrArg (Option.bind (List.foldlM perform origin done))
  funext state
  simp [List.foldlM_cons, List.foldlM_nil]

theorem calls_flatMap {ι : Type u} (calls : ι → List κ) (entries : List ι) (origin : σ) :
    (entries.flatMap calls).foldlM perform origin =
      entries.foldlM (fun state entry => (calls entry).foldlM perform state) origin := by
  induction entries generalizing origin with
  | nil => rfl
  | cons entry rest inductionHypothesis =>
    rw [List.flatMap_cons, List.foldlM_append, List.foldlM_cons]
    apply congrArg (Option.bind ((calls entry).foldlM perform origin))
    funext state
    exact inductionHypothesis state

/-- A step that some call performs. -/
def Performs (perform : σ → κ → Option σ) (state next : σ) : Prop :=
  ∃ call, perform state call = some next

/-- What a list of calls leads to is reached by steps. The induction is on the
list, so the state it starts from varies. -/
theorem calls_run {origin last : σ} {calls : List κ}
    (performed : calls.foldlM perform origin = some last) :
    Relation.ReflTransGen (Performs perform) origin last := by
  induction calls generalizing origin with
  | nil =>
    obtain rfl : origin = last := Option.some.inj performed
    exact .refl
  | cons call rest inductionHypothesis =>
    rw [List.foldlM_cons] at performed
    obtain ⟨next, moved, onwards⟩ := Option.bind_eq_some_iff.mp performed
    exact (inductionHypothesis onwards).head ⟨call, moved⟩

/-- The lockstep rule. When a call keeps the states related exactly under a
condition, the states are related after every prefix of a run exactly when every
call of the run meets the condition. The induction is on the prefix, from its
last call backwards. -/
theorem lockstep_iff (related : σ → τ → Prop) (admissible : σ → κ → Prop)
    (exact_ : ∀ state specified call, related state specified →
      ((∃ next, perform state call = some next ∧ related next (specify specified call)) ↔
        admissible state call))
    {origin : σ} {specified : τ} (start : related origin specified) (calls : List κ) :
    (∀ done, done <+: calls → ∃ state,
        done.foldlM perform origin = some state ∧ related state (done.foldl specify specified)) ↔
      ∀ done call, done ++ [call] <+: calls →
        ∀ state, done.foldlM perform origin = some state → admissible state call := by
  constructor
  · intro follows done call before state reached
    obtain ⟨reachedAgain, again, relatedBefore⟩ :=
      follows done ((List.prefix_append done [call]).trans before)
    obtain ⟨next, moved, relatedAfter⟩ := follows (done ++ [call]) before
    obtain rfl : reachedAgain = state := Option.some.inj (again.symm.trans reached)
    rw [calls_append, reached, Option.bind_some] at moved
    rw [List.foldl_append] at relatedAfter
    exact (exact_ reachedAgain _ call relatedBefore).mp ⟨next, moved, relatedAfter⟩
  · intro meets done
    induction done using List.reverseRecOn with
    | nil =>
      intro _
      exact ⟨origin, rfl, start⟩
    | append_singleton done call inductionHypothesis =>
      intro before
      obtain ⟨state, reached, relatedBefore⟩ :=
        inductionHypothesis ((List.prefix_append done [call]).trans before)
      obtain ⟨next, moved, relatedAfter⟩ :=
        (exact_ state _ call relatedBefore).mpr (meets done call before state reached)
      refine ⟨next, ?_, ?_⟩
      · rw [calls_append, reached, Option.bind_some, moved]
      · rw [List.foldl_append]
        exact relatedAfter

end Calls

end Library.Runs
