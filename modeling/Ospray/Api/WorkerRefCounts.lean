import Ospray.Api.RefCounts

/-!
# Reference counts on an offload worker

A worker sets the parameters of its objects as the local device does. It removes
them with `ParameterizedObject::removeParam` alone, which does not count down the
object a parameter held, so the reference stays for good. Counters are exact once
these references are added up: an object for which one was left behind is never
destroyed, whatever the application releases.
-/

namespace Ospray

open Library.Runs
open Library.Slots

/-- The objects of a worker and the handles that are not released. The references
that nothing accounts for any more are counted next to them. -/
structure WorkerObjects where
  heap : ObjectHeap
  handles : Nat → Nat
  leaked : Nat → Nat

namespace WorkerObjects

/-- Before the first work item. -/
def initial : WorkerObjects := { heap := [], handles := fun _ => 0, leaked := fun _ => 0 }

/-- The object that a parameter holds. -/
def heldParam (heap : ObjectHeap) (object : Nat) (name : String) : Option Nat :=
  (occupant heap object).bind fun owner => (findParam owner.paramList name).bind Any.held

/-- The references left behind, with one more for the object that a parameter holds. -/
def leak (state : WorkerObjects) (object : Nat) (name : String) (pointer : Nat) : Nat :=
  state.leaked pointer + (heldParam state.heap object name).toList.count pointer

/-- `RemoveParam::run`: the parameter goes, and nothing else happens. -/
def removeParam (heap : ObjectHeap) (object : Nat) (name : String) : Option ObjectHeap :=
  update heap object fun object => { object with paramList := eraseParam object.paramList name }

/-- One work item on the worker. `CommandRelease` has no object for a null handle. -/
def run (state : WorkerObjects) : ObjectCall → Option WorkerObjects
  | .newObject =>
    some
      { state with
        heap := ISPCDevice.newObject state.heap
        handles := Function.update state.handles state.heap.length 1 }
  | .setObject target name value =>
    (ISPCDevice.setObject state.heap target name value).map ({ state with heap := · })
  | .setScalar object name value =>
    (setParam state.heap object name (.scalar value)).map fun heap =>
      { state with heap, leaked := state.leak object name }
  | .removeParam object name =>
    (removeParam state.heap object name).map fun heap =>
      { state with heap, leaked := state.leak object name }
  | .release none => none
  | .release (some object) =>
    (ISPCDevice.release state.heap (some object)).map fun heap =>
      { state with heap, handles := Function.update state.handles object (state.handles object - 1) }

/-- What the application may ask for: objects it has handles for, values that are
alive and counted below the largest `int`, and no release of a null handle. -/
def Allowed (state : WorkerObjects) : ObjectCall → Prop
  | .newObject => True
  | .setObject target _ value => 0 < state.handles target ∧
    ∀ object, value = some object → ∃ live, occupant state.heap object = some live ∧
      live.refCounter < 2 ^ 31 - 1
  | .setScalar object _ _ | .removeParam object _ => 0 < state.handles object
  | .release object => ∃ released, object = some released ∧ 0 < state.handles released

/-- An allowed work item. -/
def Step (state next : WorkerObjects) : Prop :=
  ∃ call, state.Allowed call ∧ state.run call = some next

/-- Counters are the handles, the holders and what was left behind, and objects are
alive as long as any of these is there. -/
structure Accounted (state : WorkerObjects) : Prop where
  counts : ∀ pointer object, occupant state.heap pointer = some object →
    object.refCounter = state.handles pointer + holders state.heap pointer + state.leaked pointer
  alive : ∀ pointer, (∃ object, occupant state.heap pointer = some object) ↔
    0 < state.handles pointer + holders state.heap pointer + state.leaked pointer

/-- The references that are owed from outside the heap. -/
def owed (state : WorkerObjects) (pointer : Nat) : Nat :=
  state.handles pointer + state.leaked pointer

/-- Between two work items the counts are balanced. -/
def InBalance (state : WorkerObjects) : Prop :=
  Balanced state.heap (fun pointer => state.owed pointer) []

theorem InBalance.accounted {state : WorkerObjects} (balanced : state.InBalance) :
    state.Accounted := by
  constructor
  · intro pointer object live
    have counted := balanced.counts pointer object live
    simp only [owed, List.count_nil] at counted
    omega
  · intro pointer
    constructor
    · rintro ⟨object, live⟩
      have counted := balanced.counts pointer object live
      have needed := balanced.needed pointer object live
      simp only [owed, List.count_nil] at counted
      omega
    · intro positive
      apply balanced.alive pointer
      simp only [owed, List.count_nil]
      omega

/-- Setting a scalar leaves behind the reference to what the parameter held. -/
theorem setScalar_balanced {state : WorkerObjects} (balanced : state.InBalance) {target : Nat}
    (handle : 0 < state.handles target) (name : String) (value : Scalar) :
    ∃ next, state.run (.setScalar target name value) = some next ∧ next.InBalance := by
  obtain ⟨owner, live⟩ := balanced.handled (Nat.add_pos_left handle _)
  refine ⟨_, by rw [run, setParam, update, live, Option.map_some, Option.map_some], ?_⟩
  apply Balanced.reparam balanced live
  intro held
  obtain ⟨data, found, same⟩ := findParam_addParam owner.paramList name
  have traded := count_writeParam found (.scalar value) held
  rw [objectParams_addParam, Any.count, same] at traded
  have scalar : (Any.scalar value).count held = 0 := rfl
  rw [scalar] at traded
  simp only [owed, leak, heldParam, live, Option.bind_some, ManagedObject.holds]
  omega

theorem removeParam_leaves {state : WorkerObjects} (balanced : state.InBalance) {target : Nat}
    (handle : 0 < state.handles target) (name : String) :
    ∃ next, state.run (.removeParam target name) = some next ∧ next.InBalance := by
  obtain ⟨owner, live⟩ := balanced.handled (Nat.add_pos_left handle _)
  refine ⟨_, by rw [run, removeParam, update, live, Option.map_some, Option.map_some], ?_⟩
  apply Balanced.reparam balanced live
  intro held
  have erased := count_eraseParam owner.paramList name held
  simp only [owed, leak, heldParam, live, Option.bind_some, ManagedObject.holds]
  omega

/-- An allowed work item has a result and keeps the counts balanced. -/
theorem run_balanced {state : WorkerObjects} (balanced : state.InBalance) (call : ObjectCall)
    (allowed : state.Allowed call) : ∃ next, state.run call = some next ∧ next.InBalance := by
  cases call with
  | newObject =>
    refine ⟨_, rfl, (newObject_balanced balanced).regroup ?_⟩
    have unreferenced : state.leaked state.heap.length = 0 := by
      by_contra positive
      obtain ⟨object, live⟩ := (balanced.accounted.alive state.heap.length).mpr (by omega)
      exact absurd (occupant_lt live) (Nat.lt_irrefl _)
    intro pointer
    simp only [owed]
    by_cases same : pointer = state.heap.length
    · subst same
      rw [Function.update_self, Function.update_self, unreferenced]
    · rw [Function.update_of_ne same, Function.update_of_ne same]
      rfl
  | setObject target name value =>
    obtain ⟨handle, alive⟩ := allowed
    obtain ⟨heap, performed, after⟩ :=
      setObject_balanced balanced (Nat.add_pos_left handle _) name value alive
    exact ⟨{ state with heap }, by rw [run, performed, Option.map_some], after⟩
  | setScalar object name value => exact setScalar_balanced balanced allowed name value
  | removeParam object name => exact removeParam_leaves balanced allowed name
  | release object =>
    obtain ⟨pointer, rfl, handle⟩ := allowed
    obtain ⟨heap, performed, after⟩ :=
      release_balanced balanced (Nat.add_pos_left handle (state.leaked pointer))
    let next : WorkerObjects :=
      { state with
        heap, handles := Function.update state.handles pointer (state.handles pointer - 1) }
    refine ⟨next, by rw [run, performed, Option.map_some], Balanced.regroup after ?_⟩
    intro other
    by_cases same : other = pointer
    · subst same
      simp only [next, owed, Function.update_self]
      omega
    · simp only [next, owed, Function.update_of_ne same]

theorem initial_inBalance : initial.InBalance := by
  constructor
  · intro pointer object live
    cases live
  · intro pointer positive
    simp [initial, owed, holders, total] at positive
  · intro pointer object live
    cases live
  · intro pointer object live
    cases live

/-- References left behind stay. -/
theorem leaked_mono {state next : WorkerObjects} {call : ObjectCall}
    (performed : state.run call = some next) (pointer : Nat) :
    state.leaked pointer ≤ next.leaked pointer := by
  cases call with
  | newObject =>
    obtain rfl := Option.some.inj performed
    exact Nat.le_refl _
  | setObject target name value =>
    obtain ⟨heap, -, rfl⟩ := Option.map_eq_some_iff.mp performed
    exact Nat.le_refl _
  | setScalar object name value =>
    obtain ⟨heap, -, rfl⟩ := Option.map_eq_some_iff.mp performed
    exact Nat.le_add_right _ _
  | removeParam object name =>
    obtain ⟨heap, -, rfl⟩ := Option.map_eq_some_iff.mp performed
    exact Nat.le_add_right _ _
  | release object =>
    cases object with
    | none => cases performed
    | some object =>
      obtain ⟨heap, -, rfl⟩ := Option.map_eq_some_iff.mp performed
      exact Nat.le_refl _

/-- In every run of allowed work items the counters are accounted for, and no item
touches a destroyed object. An object to which a removed or overwritten parameter
left a reference is alive in every later state of the run. -/
theorem worker_counts {state : WorkerObjects} (reached : Reachable (· = initial) Step state) :
    state.Accounted ∧
    (∀ call, state.Allowed call → ∃ next, state.run call = some next) ∧
    ∀ pointer, 0 < state.leaked pointer → ∀ later, Relation.ReflTransGen Step state later →
      ∃ object, occupant later.heap pointer = some object := by
  have balanced : ∀ state, Reachable (· = initial) Step state → state.InBalance := by
    intro state reached
    refine reachable_invariant ?_ ?_ reached
    · rintro origin rfl
      exact initial_inBalance
    · rintro before after held ⟨call, allowed, performed⟩
      obtain ⟨next, performedAgain, balanced⟩ := run_balanced held call allowed
      obtain rfl : next = after := Option.some.inj (performedAgain.symm.trans performed)
      exact balanced
  refine ⟨(balanced state reached).accounted, ?_, ?_⟩
  · intro call allowed
    obtain ⟨next, performed, -⟩ := run_balanced (balanced state reached) call allowed
    exact ⟨next, performed⟩
  · intro pointer left later onwards
    have still : state.leaked pointer ≤ later.leaked pointer := by
      induction onwards with
      | refl => exact Nat.le_refl _
      | tail _ moved inductionHypothesis =>
        obtain ⟨call, -, performed⟩ := moved
        exact inductionHypothesis.trans (leaked_mono performed pointer)
    have accounted := (balanced later (reachable_run reached onwards)).accounted
    exact (accounted.alive pointer).mpr (by omega)

/-- Two objects, the second a parameter of the first, and both handles. -/
def linkedObjects : WorkerObjects :=
  { heap := [some { refCounter := 1, paramList := [⟨"material", .object (some 1)⟩] },
      some { refCounter := 2, paramList := [] }]
    handles := Function.update (Function.update (fun _ => 0) 0 1) 1 1
    leaked := fun _ => 0 }

/-- The parameter is removed: the second object is still counted for it. -/
def unlinkedObjects : WorkerObjects :=
  { linkedObjects with
    heap := [some { refCounter := 1, paramList := [] }, some { refCounter := 2, paramList := [] }]
    leaked := linkedObjects.leak 0 "material" }

theorem unlinkedObjects_reachable : Reachable (· = initial) Step unlinkedObjects := by
  obtain ⟨first, created⟩ : ∃ first, initial.run .newObject = some first := ⟨_, rfl⟩
  obtain ⟨both, createdBoth, liveBoth⟩ : ∃ both, first.run .newObject = some both ∧
      both = { linkedObjects with
        heap := [some { refCounter := 1, paramList := [] },
          some { refCounter := 1, paramList := [] }] } := by
    obtain rfl := Option.some.inj created
    exact ⟨_, rfl, rfl⟩
  have linked : both.run (.setObject 0 "material" (some 1)) = some linkedObjects := by
    rw [liveBoth]
    rfl
  have allowed : both.Allowed (.setObject 0 "material" (some 1)) := by
    rw [liveBoth]
    refine ⟨by decide, ?_⟩
    rintro pointer given
    obtain rfl := Option.some.inj given
    exact ⟨_, rfl, by decide⟩
  have unlinked : linkedObjects.run (.removeParam 0 "material") = some unlinkedObjects := rfl
  have start : Reachable (· = initial) Step initial := reachable_start rfl
  have run : Reachable (· = initial) Step both :=
    reachable_step (reachable_step start ⟨.newObject, trivial, created⟩)
      ⟨.newObject, trivial, createdBoth⟩
  have handle : 0 < linkedObjects.handles 0 := by decide
  exact reachable_step (reachable_step run ⟨_, allowed, linked⟩)
    ⟨.removeParam 0 "material", handle, unlinked⟩

/-- After that, the second object outlives the release of everything. -/
theorem worker_counts_unlinked : unlinkedObjects.leaked 1 = 1 ∧
    ∀ later, Relation.ReflTransGen Step unlinkedObjects later →
      ∃ object, occupant later.heap 1 = some object := by
  refine ⟨rfl, ?_⟩
  exact (worker_counts unlinkedObjects_reachable).2.2 1 (by decide)

end WorkerObjects

end Ospray
