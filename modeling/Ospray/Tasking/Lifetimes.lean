import Ospray.Tasking.TaskSys

/-!
# Lifetimes of tasks

A task object dies in one of two places: the call of `parallel_for_internal` that
built it returns, or the thread that completed it deletes it. Neither looks whether
the task is still linked in the active list, from which only a worker that finds it
exhausted at the head removes it, nor whether another thread still has a pointer to
it. The objects the list and the threads refer to are alive as long as each death
happens to come after the last reference.
-/

namespace Ospray.Tasking

open Library.Chains Library.Runs

namespace TaskSys

/-- The task whose life the next step of a frame ends. -/
def ends (self : TaskSys) : Frame → Option Address
  | .worker (.workOnIt task work) => if (self.memory task).deletes work then some task else none
  | .caller call (.workOnIt work) =>
    if (self.memory call.task).deletes work then some call.task else none
  | .caller call .leave => some call.task
  | _ => none

/-- A step ends the life of a task only when the list does not link it and no other
thread has a pointer to it. -/
def Patient (self : TaskSys) : Event → Prop
  | .advance index => ∀ frame task, self.frames[index]? = some frame →
      self.ends frame = some task → ¬ self.Active task ∧ ¬ self.HeldByOther index task
  | _ => True

/-- No dead task is linked, and no thread has a step to take on one. -/
structure Safe (state : TaskSys) : Prop where
  active : ∀ task, state.Active task → state.alive task = true
  held : ∀ task, state.Held task → state.alive task = true

end TaskSys

theorem workOnIt_frame (task : Task) (work : Work) :
    (task.workOnIt work).1.next = task.next ∧ (task.workOnIt work).1.owner = task.owner ∧
      (task.workOnIt work).1.willNeedToBeDeleted = task.willNeedToBeDeleted ∧
      (task.workOnIt work).1.numJobsInTask = task.numJobsInTask := by
  cases work with
  | test myCompleted thisJobID =>
    simp only [Task.workOnIt]
    split <;> exact ⟨rfl, rfl, rfl, rfl⟩
  | _ => exact ⟨rfl, rfl, rfl, rfl⟩

namespace TaskSys

variable {state after next : TaskSys} {frame moved : Frame} {task cell : Address}

/-! ## What a step changes -/

theorem active_congr (first : after.activeListFirst = state.activeListFirst)
    (links : ∀ cell, (after.memory cell).next = (state.memory cell).next) :
    after.Active task ↔ state.Active task := by
  rw [Active, Active, first, funext links]

theorem store_active {change : Task → Task} (keeps : ∀ object, (change object).next = object.next) :
    (state.store cell change).Active task ↔ state.Active task := by
  refine active_congr rfl ?_
  intro other
  rw [store_memory]
  by_cases same : other = cell
  · subst same
    rw [Function.update_self, keeps]
  · rw [Function.update_of_ne same]

theorem unlinkFront_active {front : Address} (first : state.activeListFirst = some front)
    (linked : (state.unlinkFront front).Active task) : state.Active task := by
  unfold unlinkFront at linked
  split at linked
  · exact absurd linked not_linked_none
  · rw [Active, first]
    exact .onwards front task linked

/-- Linking a task adds at most that task to the list. -/
theorem link_active {order : ScheduleOrder} (linked : (state.link cell order).Active task) :
    state.Active task ∨ task = cell := by
  have old : ∀ here there, state.Active here → (state.memory here).next = some there →
      state.Active there := fun _ _ reached successor => linked_next reached successor
  apply linked_invariant linked
  · intro head first
    cases list : state.activeListFirst with
    | none =>
      simp only [link, list, store, Option.some.injEq] at first
      exact Or.inr first.symm
    | some front =>
      cases order with
      | backOfQueue =>
        have listed : state.Active front := by
          rw [Active, list]
          exact .first front
        cases last : state.activeListLast <;>
          simp only [link, list, last, store, Option.elim_none, Option.elim_some,
            Option.some.injEq] at first <;>
          exact Or.inl (first ▸ listed)
      | frontOfQueue =>
        simp only [link, list, store, Option.some.injEq] at first
        exact Or.inr first.symm
  · intro here there reached successor
    cases list : state.activeListFirst with
    | none =>
      by_cases same : here = cell
      · subst same
        simp [link, list, store] at successor
      · simp only [link, list, store, Function.update_of_ne same] at successor
        exact Or.inl (old here there (reached.resolve_right same) successor)
    | some front =>
      cases order with
      | backOfQueue =>
        cases last : state.activeListLast with
        | none =>
          by_cases same : here = cell
          · subst same
            simp [link, list, last, store] at successor
          · simp only [link, list, last, store, Option.elim_none,
              Function.update_of_ne same] at successor
            exact Or.inl (old here there (reached.resolve_right same) successor)
        | some final =>
          by_cases atEnd : here = final
          · subst atEnd
            by_cases same : here = cell
            · subst same
              simp only [link, list, last, store, Option.elim_some, Function.update_self,
                Option.some.injEq] at successor
              exact Or.inr successor.symm
            · simp only [link, list, last, store, Option.elim_some, Function.update_self,
                Function.update_of_ne same, Option.some.injEq] at successor
              exact Or.inr successor.symm
          · by_cases same : here = cell
            · subst same
              simp [link, list, last, store, atEnd] at successor
            · simp only [link, list, last, store, Option.elim_some, Function.update_of_ne same,
                Function.update_of_ne atEnd] at successor
              exact Or.inl (old here there (reached.resolve_right same) successor)
      | frontOfQueue =>
        by_cases same : here = cell
        · subst same
          simp only [link, list, store, Function.update_self, Option.some.injEq] at successor
          left
          rw [← successor, Active, list]
          exact .first front
        · simp only [link, list, store, Function.update_of_ne same] at successor
          exact Or.inl (old here there (reached.resolve_right same) successor)

theorem workOnIt_active {work : Work} :
    (state.workOnIt cell work).1.Active task ↔ state.Active task := by
  obtain ⟨_, memory, _, _, _, first⟩ := workOnIt_spec state cell work
  refine active_congr first ?_
  intro other
  rw [memory]
  by_cases same : other = cell
  · subst same
    rw [Function.update_self]
    exact (workOnIt_frame _ work).1
  · rw [Function.update_of_ne same]

/-- What a step of a thread does: the lives, the list and the pointers it changes, that
it acts on no task but the one it has a pointer to, and whose jobs it may run. -/
structure Moves (state : TaskSys) (frame : Frame) (after : TaskSys) (moved : Frame) : Prop where
  frames : after.frames = state.frames
  role : moved.role = frame.role
  alive : ∀ cell, after.alive cell = if state.ends frame = some cell then false else state.alive cell
  active : ∀ cell, after.Active cell → state.Active cell ∨ frame.holds = some cell
  remains : ∀ cell, state.ends frame = some cell → (after.Active cell ↔ state.Active cell)
  holds : ∀ cell, moved.holds = some cell → frame.holds = some cell ∨ state.Active cell
  built : ∀ cell, (after.memory cell).owner = (state.memory cell).owner ∧
    (after.memory cell).willNeedToBeDeleted = (state.memory cell).willNeedToBeDeleted
  elsewhere : ∀ cell, frame.holds ≠ some cell →
    ∃ next, after.memory cell = { state.memory cell with next := next }
  executed : ∀ owner, (∀ task, frame.holds = some task → (state.memory task).owner ≠ owner) →
    after.executed owner = state.executed owner

theorem moves_self (lives : state.ends frame = none) (role : moved.role = frame.role)
    (holds : ∀ cell, moved.holds = some cell → frame.holds = some cell ∨ state.Active cell) :
    Moves state frame state moved := by
  constructor
  case frames => rfl
  case role => exact role
  case alive =>
    intro cell
    rw [lives, if_neg nofun]
  case active => exact fun _ => Or.inl
  case remains => exact fun _ _ => Iff.rfl
  case holds => exact holds
  case built => exact fun _ => ⟨rfl, rfl⟩
  case elsewhere => exact fun _ _ => ⟨_, rfl⟩
  case executed => exact fun _ _ => rfl

/-- A step that changes other members of the thread's task than its link. -/
theorem moves_store {change : Task → Task} (lives : state.ends frame = none)
    (role : moved.role = frame.role) (mine : frame.holds = some task)
    (next : ∀ object, (change object).next = object.next)
    (built : ∀ object, (change object).owner = object.owner ∧
      (change object).willNeedToBeDeleted = object.willNeedToBeDeleted)
    (holds : ∀ cell, moved.holds = some cell → frame.holds = some cell ∨ state.Active cell) :
    Moves state frame (state.store task change) moved := by
  constructor
  case frames => rfl
  case role => exact role
  case alive =>
    intro cell
    rw [lives, if_neg nofun, store_alive]
  case active => exact fun cell linked => Or.inl ((store_active next).mp linked)
  case remains => exact fun _ _ => store_active next
  case holds => exact holds
  case built =>
    intro cell
    rw [store_memory]
    by_cases same : cell = task
    · rw [same, Function.update_self]
      exact built _
    · rw [Function.update_of_ne same]
      exact ⟨rfl, rfl⟩
  case elsewhere =>
    intro cell away
    have different : cell ≠ task := by
      rintro rfl
      exact away mine
    exact ⟨_, by rw [store_memory, Function.update_of_ne different]⟩
  case executed => exact fun _ _ => rfl

/-- A step of `workOnIt`. -/
theorem moves_workOnIt {work : Work}
    (lives : state.ends frame = if (state.memory task).deletes work then some task else none)
    (role : moved.role = frame.role) (mine : frame.holds = some task)
    (holds : ∀ cell, moved.holds = some cell → frame.holds = some cell ∨ state.Active cell) :
    Moves state frame (state.workOnIt task work).1 moved := by
  obtain ⟨_, memory, executed, alive, frames, _⟩ := workOnIt_spec state task work
  constructor
  case frames => exact frames
  case role => exact role
  case alive =>
    intro cell
    rw [alive, lives]
    cases (state.memory task).deletes work with
    | false => simp
    | true =>
      by_cases same : cell = task
      · subst same
        simp
      · simp [Function.update_of_ne same, Ne.symm same]
  case active => exact fun _ linked => Or.inl (workOnIt_active.mp linked)
  case remains => exact fun _ _ => workOnIt_active
  case holds => exact holds
  case built =>
    intro cell
    rw [memory]
    by_cases same : cell = task
    · rw [same, Function.update_self]
      obtain ⟨_, owner, flag, _⟩ := workOnIt_frame (state.memory task) work
      exact ⟨owner, flag⟩
    · rw [Function.update_of_ne same]
      exact ⟨rfl, rfl⟩
  case elsewhere =>
    intro cell away
    have different : cell ≠ task := by
      rintro rfl
      exact away mine
    exact ⟨_, by rw [memory, Function.update_of_ne different]⟩
  case executed =>
    intro owner away
    rw [executed, Function.update_of_ne (Ne.symm (away task mine))]

/-- What a step of a thread does. -/
theorem frameStep_moves (step : state.frameStep frame = some (after, moved)) :
    Moves state frame after moved := by
  cases frame with
  | worker position =>
    simp only [frameStep, Option.map_eq_some_iff, Prod.exists, Prod.mk.injEq] at step
    obtain ⟨_, next, step, rfl, rfl⟩ := step
    cases position with
    | getNextActiveTask =>
      simp only [workerStep, getNextActiveTask] at step
      cases running : state.running with
      | false =>
        simp only [running, Bool.false_eq_true, if_false, Option.some.injEq, Prod.mk.injEq] at step
        obtain ⟨rfl, rfl⟩ := step
        exact moves_self rfl rfl (by rintro cell ⟨⟩)
      | true =>
        cases first : state.activeListFirst with
        | none => simp [running, first] at step
        | some front =>
          simp only [running, first, if_true] at step
          split at step <;> simp only [Option.some.injEq, Prod.mk.injEq] at step <;>
            obtain ⟨rfl, rfl⟩ := step
          · obtain ⟨memory, alive, frames, executed⟩ := unlinkFront_others state front
            constructor
            case frames => exact frames
            case role => rfl
            case alive =>
              intro cell
              rw [alive]
              exact (if_neg (by rintro ⟨⟩)).symm
            case active => exact fun cell linked => Or.inl (unlinkFront_active first linked)
            case remains => rintro cell ⟨⟩
            case holds => rintro cell ⟨⟩
            case built =>
              intro cell
              rw [memory]
              exact ⟨rfl, rfl⟩
            case elsewhere =>
              intro cell _
              exact ⟨_, by rw [memory]⟩
            case executed =>
              intro owner _
              rw [executed]
          · refine moves_self rfl rfl ?_
            intro cell held
            obtain rfl : front = cell := by simpa [Frame.holds] using held
            right
            rw [Active, first]
            exact .first front
    | fetched task =>
      simp only [workerStep, Option.some.injEq, Prod.mk.injEq] at step
      obtain ⟨rfl, rfl⟩ := step
      refine moves_self rfl rfl ?_
      intro cell held
      left
      split at held
      · exact held
      · cases held
    | workOnIt task work =>
      simp only [workerStep, Option.some.injEq, Prod.mk.injEq] at step
      obtain ⟨rfl, rfl⟩ := step
      refine moves_workOnIt rfl rfl rfl ?_
      intro cell held
      left
      cases next : (state.workOnIt task work).2 with
      | none =>
        rw [next] at held
        cases held
      | some work =>
        rw [next] at held
        exact held
    | returned => cases step
  | caller call position =>
    simp only [frameStep, Option.map_eq_some_iff, Prod.exists, Prod.mk.injEq] at step
    obtain ⟨_, next, step, rfl, rfl⟩ := step
    have mine : ∀ cell, (Frame.caller call next).holds = some cell → some call.task = some cell := by
      intro cell held
      cases next <;> first | exact held | cases held
    cases position with
    | setNumJobs =>
      simp only [callStep, Option.some.injEq, Prod.mk.injEq] at step
      obtain ⟨rfl, rfl⟩ := step
      exact moves_store rfl rfl rfl (fun _ => rfl) (fun _ => ⟨rfl, rfl⟩)
        fun cell held => Or.inl (mine cell held)
    | setScheduled =>
      simp only [callStep, Option.some.injEq, Prod.mk.injEq] at step
      obtain ⟨rfl, rfl⟩ := step
      exact moves_store rfl rfl rfl (fun _ => rfl) (fun _ => ⟨rfl, rfl⟩)
        fun cell held => Or.inl (mine cell held)
    | link =>
      simp only [callStep, Option.some.injEq, Prod.mk.injEq] at step
      obtain ⟨rfl, rfl⟩ := step
      obtain ⟨alive, frames, executed⟩ := link_others state call.task call.kind.order
      constructor
      case frames => exact frames
      case role => rfl
      case alive =>
        intro cell
        rw [alive]
        exact (if_neg (by rintro ⟨⟩)).symm
      case active =>
        intro cell linked
        obtain before | rfl := link_active linked
        · exact Or.inl before
        · exact Or.inr rfl
      case remains => rintro cell ⟨⟩
      case holds => exact fun cell held => Or.inl (mine cell held)
      case built =>
        intro cell
        obtain ⟨link, memory⟩ := link_memory state call.task call.kind.order cell
        rw [memory]
        exact ⟨rfl, rfl⟩
      case elsewhere =>
        intro cell away
        obtain ⟨link, memory⟩ := link_memory state call.task call.kind.order cell
        have different : cell ≠ call.task := by
          rintro rfl
          exact away rfl
        rw [if_neg different] at memory
        exact ⟨link, memory⟩
      case executed =>
        intro owner _
        rw [executed]
    | wait =>
      simp only [callStep, Option.some.injEq, Prod.mk.injEq] at step
      obtain ⟨rfl, rfl⟩ := step
      exact moves_self rfl rfl fun cell held => Or.inl (mine cell held)
    | workOnIt work =>
      simp only [callStep, Option.some.injEq, Prod.mk.injEq] at step
      obtain ⟨rfl, rfl⟩ := step
      exact moves_workOnIt rfl rfl rfl fun cell held => Or.inl (mine cell held)
    | waitCompleted =>
      simp only [callStep, Option.ite_none_right_eq_some, Option.some.injEq, Prod.mk.injEq] at step
      obtain ⟨_, rfl, rfl⟩ := step
      exact moves_self rfl rfl fun cell held => Or.inl (mine cell held)
    | leave =>
      simp only [callStep, Option.some.injEq, Prod.mk.injEq] at step
      obtain ⟨rfl, rfl⟩ := step
      constructor
      case frames => rfl
      case role => rfl
      case alive =>
        intro cell
        by_cases same : cell = call.task
        · subst same
          simp [ends, destroy]
        · simp [ends, destroy, Function.update_of_ne same, Ne.symm same]
      case active => exact fun _ => Or.inl
      case remains => exact fun _ _ => Iff.rfl
      case holds => rintro cell ⟨⟩
      case built => exact fun _ => ⟨rfl, rfl⟩
      case elsewhere => exact fun _ _ => ⟨_, rfl⟩
      case executed => exact fun _ _ => rfl
    | returned => cases step

theorem advance_cases {index : Nat} (step : state.advance index = some next) :
    ∃ frame after moved, state.frames[index]? = some frame ∧
      state.frameStep frame = some (after, moved) ∧
      next = { after with frames := state.frames.set index moved } := by
  simp only [advance, Option.bind_eq_bind, Option.bind_eq_some_iff, Option.some.injEq] at step
  obtain ⟨frame, present, ⟨after, moved⟩, step, rfl⟩ := step
  exact ⟨frame, after, moved, present, step, by rw [(frameStep_moves step).frames]⟩

theorem ends_holds (last : state.ends frame = some task) : frame.holds = some task := by
  cases frame with
  | worker position =>
    cases position with
    | workOnIt busy work => exact (Option.ite_none_right_eq_some.mp last).2
    | _ => cases last
  | caller call position =>
    cases position with
    | workOnIt work => exact (Option.ite_none_right_eq_some.mp last).2
    | leave => exact last
    | _ => cases last

theorem mem_set_cases {frames : List Frame} {index : Nat} {other : Frame}
    (member : other ∈ frames.set index moved) :
    other = moved ∨ ∃ place, place ≠ index ∧ frames[place]? = some other := by
  obtain ⟨place, found⟩ := List.mem_iff_getElem?.mp member
  rw [List.getElem?_set] at found
  split at found
  · split at found
    · exact Or.inl (Option.some.inj found).symm
    · cases found
  · exact Or.inr ⟨place, fun same => by simp_all, found⟩

/-! ## Runs in which every death comes last -/

/-- The state carried along such a run: it is safe, the objects of calls that have not
returned have the flag their interface passed, and only `parallel_for_internal` waits. -/
structure Lasting (state : TaskSys) : Prop where
  safe : state.Safe
  flagged : ∀ call position, .caller call position ∈ state.frames → position ≠ .returned →
    (state.memory call.task).willNeedToBeDeleted = call.kind.needsToBeDeleted
  waiting : ∀ call position, .caller call position ∈ state.frames → position.waits = true →
    call.kind = .parallelFor

/-- A thread has no pointer to the task whose life it has just ended. -/
theorem ends_moved (lasting : state.Lasting) (present : frame ∈ state.frames)
    (step : state.frameStep frame = some (after, moved)) (last : state.ends frame = some task) :
    moved.holds ≠ some task := by
  cases frame with
  | worker position =>
    cases position with
    | workOnIt busy work =>
      simp only [ends, Option.ite_none_right_eq_some, Task.deletes, Bool.and_eq_true,
        decide_eq_true_eq] at last
      obtain ⟨⟨rfl, _⟩, _⟩ := last
      simp only [frameStep, workerStep, (workOnIt_spec state busy .dispose).1, Option.map_some,
        Option.some.injEq, Prod.mk.injEq] at step
      obtain ⟨_, rfl⟩ := step
      nofun
    | _ => cases last
  | caller call position =>
    cases position with
    | workOnIt work =>
      simp only [ends, Option.ite_none_right_eq_some, Task.deletes, Bool.and_eq_true] at last
      have flag := lasting.flagged call (.workOnIt work) present nofun
      rw [lasting.waiting call (.workOnIt work) present rfl, last.1.2] at flag
      cases flag
    | leave =>
      simp only [frameStep, callStep, Option.map_some, Option.some.injEq, Prod.mk.injEq] at step
      obtain ⟨_, rfl⟩ := step
      nofun
    | _ => cases last

/-- A step of a thread keeps the flags and who waits. -/
theorem advance_callers (lasting : state.Lasting) (present : frame ∈ state.frames)
    (step : state.frameStep frame = some (after, moved)) {call : Call} {position : CallPosition}
    (same : .caller call position = moved) :
    ∃ earlier, frame = .caller call earlier ∧ earlier ≠ .returned ∧
      (position.waits = true → call.kind = .parallelFor) := by
  subst same
  cases frame with
  | worker earlier =>
    simp only [frameStep, Option.map_eq_some_iff, Prod.mk.injEq, reduceCtorEq, and_false,
      exists_false] at step
  | caller caller earlier =>
    simp only [frameStep, Option.map_eq_some_iff, Prod.exists, Prod.mk.injEq,
      Frame.caller.injEq] at step
    obtain ⟨_, _, step, rfl, rfl, rfl⟩ := step
    refine ⟨earlier, rfl, ?_, ?_⟩
    · rintro rfl
      cases step
    · intro waits
      by_cases before : earlier.waits = true
      · exact lasting.waiting _ _ present before
      · cases earlier with
        | setNumJobs | setScheduled =>
          simp only [callStep, Option.some.injEq, Prod.mk.injEq] at step
          obtain ⟨_, rfl⟩ := step
          cases waits
        | link =>
          simp only [callStep, Option.some.injEq, Prod.mk.injEq] at step
          obtain ⟨_, rfl⟩ := step
          by_contra other
          rw [if_neg other] at waits
          cases waits
        | returned => cases step
        | _ => exact absurd rfl before

/-- A step of a thread that ends no life too early keeps the state lasting. -/
theorem advance_lasting {index : Nat} (lasting : state.Lasting)
    (patient : state.Patient (.advance index)) (performed : state.advance index = some next) :
    next.Lasting := by
  obtain ⟨frame, after, moved, found, step, rfl⟩ := advance_cases performed
  have present : frame ∈ state.frames := List.mem_of_getElem? found
  obtain ⟨_, _, alive, active, remains, holds, built, _, _⟩ := frameStep_moves step
  have lives : ∀ task, state.alive task = true → state.ends frame ≠ some task →
      after.alive task = true := by
    intro task before going
    rw [alive, if_neg going, before]
  have held : ∀ task, frame.holds = some task → state.alive task = true :=
    fun task pointer => lasting.safe.held task ⟨frame, present, pointer⟩
  constructor
  case safe =>
    constructor
    case active =>
      intro task linked
      have before : state.alive task = true := by
        obtain linked | pointer := active task linked
        · exact lasting.safe.active task linked
        · exact held task pointer
      apply lives task before
      intro last
      exact (patient frame task found last).1 ((remains task last).mp linked)
    case held =>
      rintro task ⟨other, member, pointer⟩
      obtain rfl | ⟨place, elsewhere, kept⟩ := mem_set_cases member
      · apply lives task
        · obtain before | linked := holds task pointer
          · exact held task before
          · exact lasting.safe.active task linked
        · intro last
          exact ends_moved lasting present step last pointer
      · apply lives task (lasting.safe.held task ⟨other, List.mem_of_getElem? kept, pointer⟩)
        intro last
        exact (patient frame task found last).2 ⟨place, other, elsewhere, kept, pointer⟩
  case flagged =>
    intro call position member staying
    change (after.memory call.task).willNeedToBeDeleted = _
    rw [(built call.task).2]
    obtain same | ⟨_, _, kept⟩ := mem_set_cases member
    · obtain ⟨earlier, rfl, before, _⟩ := advance_callers lasting present step same
      exact lasting.flagged call earlier present before
    · exact lasting.flagged call position (List.mem_of_getElem? kept) staying
  case waiting =>
    intro call position member waits
    obtain same | ⟨_, _, kept⟩ := mem_set_cases member
    · obtain ⟨_, _, _, parallel⟩ := advance_callers lasting present step same
      exact parallel waits
    · exact lasting.waiting call position (List.mem_of_getElem? kept) waits

theorem caller_held {call : Call} {position : CallPosition}
    (member : .caller call position ∈ state.frames) (staying : position ≠ .returned) :
    state.Held call.task := by
  refine ⟨.caller call position, member, ?_⟩
  cases position <;> first | rfl | exact absurd rfl staying

/-- Building a task object where none lives keeps the state lasting. -/
theorem enter_lasting {call : Call} (lasting : state.Lasting)
    (free : state.alive call.task = false) : (state.enter call).Lasting := by
  have lives : ∀ task, state.alive task = true → (state.enter call).alive task = true := by
    intro task before
    rw [enter_alive]
    by_cases same : task = call.task
    · rw [same, Function.update_self]
    · rw [Function.update_of_ne same, before]
  have linked : ∀ task, (state.enter call).Active task ↔ state.Active task := by
    intro task
    refine active_congr rfl ?_
    intro cell
    rw [enter_memory]
    by_cases same : cell = call.task
    · rw [same, Function.update_self]
    · rw [Function.update_of_ne same]
  have members : ∀ frame, frame ∈ (state.enter call).frames →
      frame ∈ state.frames ∨ frame = .caller call .setNumJobs := by
    intro frame member
    simpa only [enter, List.mem_append, List.mem_singleton] using member
  constructor
  case safe =>
    constructor
    case active => exact fun task active => lives task (lasting.safe.active task ((linked task).mp active))
    case held =>
      rintro task ⟨frame, member, pointer⟩
      obtain before | rfl := members frame member
      · exact lives task (lasting.safe.held task ⟨frame, before, pointer⟩)
      · obtain rfl : call.task = task := Option.some.inj pointer
        rw [enter_alive, Function.update_self]
  case flagged =>
    intro other position member staying
    obtain before | same := members _ member
    · have lived := lasting.safe.held _ (caller_held before staying)
      have different : other.task ≠ call.task := by
        intro same
        rw [same, free] at lived
        cases lived
      rw [enter_memory, Function.update_of_ne different]
      exact lasting.flagged other position before staying
    · obtain ⟨rfl, rfl⟩ := Frame.caller.inj same
      rw [enter_memory, Function.update_self]
  case waiting =>
    intro other position member waits
    obtain before | same := members _ member
    · exact lasting.waiting other position before waits
    · obtain ⟨rfl, rfl⟩ := Frame.caller.inj same
      cases waits

/-- Writing other data where no object lives keeps the state lasting. -/
theorem overwrite_lasting {address : Address} {contents : Task} (lasting : state.Lasting)
    (free : state.alive address = false) : (state.store address fun _ => contents).Lasting := by
  have elsewhere : ∀ task, state.alive task = true →
      (state.store address fun _ => contents).memory task = state.memory task := by
    intro task lived
    have different : task ≠ address := by
      rintro rfl
      rw [free] at lived
      cases lived
    rw [store_memory, Function.update_of_ne different]
  constructor
  case safe =>
    constructor
    case active =>
      intro task linked
      apply lasting.safe.active task
      apply linked_of_agree _ linked
      intro here reached
      exact congrArg Task.next (elsewhere here (lasting.safe.active here reached))
    case held => exact lasting.safe.held
  case flagged =>
    intro call position member staying
    rw [elsewhere _ (lasting.safe.held _ (caller_held member staying))]
    exact lasting.flagged call position member staying
  case waiting => exact lasting.waiting

/-- A step that ends no life too early keeps the state lasting. -/
theorem perform_lasting {event : Event} (lasting : state.Lasting) (patient : state.Patient event)
    (step : state.perform event = some next) : next.Lasting := by
  cases event with
  | parallelFor numJobs task =>
    simp only [perform, Option.ite_none_right_eq_some, Option.some.injEq] at step
    obtain ⟨⟨_, _, free⟩, rfl⟩ := step
    exact enter_lasting lasting free
  | schedule task =>
    simp only [perform, Option.ite_none_right_eq_some, Option.some.injEq] at step
    obtain ⟨free, rfl⟩ := step
    exact enter_lasting lasting free
  | overwrite address contents =>
    simp only [perform, Option.ite_none_right_eq_some, Option.some.injEq] at step
    obtain ⟨free, rfl⟩ := step
    exact overwrite_lasting lasting free
  | shutdown =>
    obtain rfl := Option.some.inj step
    exact ⟨⟨lasting.safe.active, lasting.safe.held⟩, lasting.flagged, lasting.waiting⟩
  | advance index => exact advance_lasting lasting patient step

/-- The tasking system starts out with workers only. -/
theorem initialized_lasting (memory : Address → Task) (numThreads : Nat) :
    (initialized memory numThreads).Lasting := by
  have onlyWorkers : ∀ frame, frame ∈ (initialized memory numThreads).frames →
      frame = .worker .getNextActiveTask := fun frame member => List.eq_of_mem_replicate member
  constructor
  case safe =>
    constructor
    case active => exact fun task linked => absurd linked not_linked_none
    case held =>
      rintro task ⟨frame, member, pointer⟩
      rw [onlyWorkers frame member] at pointer
      cases pointer
  case flagged =>
    intro call position member _
    cases onlyWorkers _ member
  case waiting =>
    intro call position member _
    cases onlyWorkers _ member

/-- A start of the tasking system, whatever the memory holds. -/
def Initial (state : TaskSys) : Prop :=
  ∃ memory numThreads, state = initialized memory numThreads

/-- A step that ends no life too early. -/
def PatientStep (state next : TaskSys) : Prop :=
  ∃ event, state.Patient event ∧ state.perform event = some next

/-- A step that ends a life too early leaves a dead task linked or held. -/
theorem impatient_not_safe {event : Event} (performed : state.perform event = some next)
    (safe : next.Safe) : state.Patient event := by
  cases event with
  | advance index =>
    intro frame task found last
    obtain ⟨frame, after, moved, foundAgain, step, rfl⟩ := advance_cases performed
    obtain rfl := Option.some.inj (found.symm.trans foundAgain)
    obtain ⟨_, _, alive, _, remains, _, _, _, _⟩ := frameStep_moves step
    have dead : ∀ lives : after.alive task = true, False := by
      intro lives
      rw [alive, if_pos last] at lives
      cases lives
    constructor
    · intro linked
      exact dead (safe.active task ((remains task last).mpr linked))
    · rintro ⟨place, other, elsewhere, kept, pointer⟩
      apply dead
      apply safe.held task
      refine ⟨other, ?_, pointer⟩
      exact List.mem_of_getElem? ((List.getElem?_set_ne (Ne.symm elsewhere)).trans kept)
  | _ => trivial

/-- In every run in which a task dies only when the list no longer links it and no other
thread has a pointer to it, no dead task is ever linked or held; and the first step of
a run that meets this no longer is followed by a state with a dead task linked or held. -/
theorem patient_safe {state : TaskSys} (reached : Reachable Initial PatientStep state) :
    state.Safe ∧ ∀ event next, state.perform event = some next →
      (next.Safe ↔ state.Patient event) := by
  have lasting : state.Lasting := by
    apply reachable_invariant _ _ reached
    · rintro origin ⟨memory, numThreads, rfl⟩
      exact initialized_lasting memory numThreads
    · rintro before after lasting ⟨event, patient, step⟩
      exact perform_lasting lasting patient step
  refine ⟨lasting.safe, fun event next step => ⟨impatient_not_safe step, fun patient => ?_⟩⟩
  exact (perform_lasting lasting patient step).safe

/-- One worker, and memory that holds nothing of interest. -/
def oneWorker : TaskSys :=
  initialized (fun _ => { numJobsCompleted := 0, numJobsStarted := 0, numJobsInTask := 0
                          status := .initializing, next := none, willNeedToBeDeleted := true
                          owner := 0 }) 2

theorem patient_of_quiet (index : Nat) (performed : (state.advance index).isSome)
    (quiet : state.frames[index]?.bind state.ends = none) :
    PatientStep state ((state.advance index).get performed) := by
  refine ⟨.advance index, ?_, (Option.some_get performed).symm⟩
  intro frame task found last
  rw [found, Option.bind_some, last] at quiet
  cases quiet

/-- A task is linked and fetched by the worker in such a run. -/
theorem patient_safe_fetched : ∃ state : TaskSys, state.Active 0 ∧ state.Held 0 ∧ state.Safe := by
  let built := oneWorker.enter { kind := .parallelFor, numJobs := 1, task := 0 }
  let sized := (built.advance 1).get rfl
  let scheduled := (sized.advance 1).get rfl
  let linked := (scheduled.advance 1).get rfl
  let fetched := (linked.advance 0).get rfl
  have start : PatientStep oneWorker built := ⟨.parallelFor 1 0, trivial, rfl⟩
  have steps : Relation.ReflTransGen PatientStep oneWorker fetched :=
    ((((Relation.ReflTransGen.single start).tail (patient_of_quiet 1 rfl rfl)).tail
      (patient_of_quiet 1 rfl rfl)).tail (patient_of_quiet 1 rfl rfl)).tail
        (patient_of_quiet 0 rfl rfl)
  have reached : Reachable Initial PatientStep fetched := ⟨oneWorker, ⟨_, _, rfl⟩, steps⟩
  have active : fetched.Active 0 := Linked.first 0
  have held : fetched.Held 0 := ⟨.worker (.fetched 0), by decide, rfl⟩
  exact ⟨fetched, active, held, (patient_safe reached).1⟩

/-- Where nothing waits for the last reference, the task of a call that has returned is
still linked, and the worker that fetched it is about to work on it. -/
theorem returned_task_dangles :
    ¬ ∀ state, Reachable Initial (Performs perform) state → state.Safe := by
  intro allSafe
  let events : List Event := [.parallelFor 1 0, .advance 1, .advance 1, .advance 1, .advance 0] ++
    List.replicate 12 (.advance 1)
  obtain ⟨last, performed⟩ : ∃ last, events.foldlM perform oneWorker = some last :=
    Option.isSome_iff_exists.mp rfl
  have result : (events.foldlM perform oneWorker).map
      (fun state => (state.activeListFirst, state.frames[0]?, state.alive 0)) =
        some (some 0, some (.worker (.fetched 0)), false) := by rfl
  rw [performed, Option.map_some, Option.some.injEq, Prod.mk.injEq, Prod.mk.injEq] at result
  obtain ⟨first, _, dead⟩ := result
  have safe := allSafe last ⟨oneWorker, ⟨_, _, rfl⟩, calls_run performed⟩
  have linked : last.Active 0 := by
    rw [Active, first]
    exact .first 0
  rw [safe.active 0 linked] at dead
  cases dead

end TaskSys

end Ospray.Tasking
