import Mathlib.Logic.Function.Basic
import Ospray.Library.Chains
import Ospray.Library.Runs
import Ospray.Tasking.WorkOnIt

/-!
# The internal tasking system

Calls of `parallel_for_internal` and `schedule_internal` build a task object, link
it into the list of active tasks and, the former, work on it until it is completed;
the worker threads take tasks from the head of the list. A task is unlinked by the
worker that finds all its jobs started. The object of `parallel_for_internal` dies
when the call returns, the object of `schedule_internal` is deleted by the thread
that completes it.

Objects live at addresses, and the list and the threads hold addresses. The memory
of a dead object keeps its contents until it is overwritten or another object is
built there. A step is one access to an atomic counter, one plain access, or one
section under a mutex, of any thread; the steps interleave freely.
-/

namespace Ospray.Tasking

open Library.Chains Library.Runs

/-- Which of the two interfaces was called. -/
inductive CallKind where
  | parallelFor
  | schedule
  deriving DecidableEq

/-- `ScheduleOrder` -/
inductive ScheduleOrder where
  | backOfQueue
  | frontOfQueue
  deriving DecidableEq

/-- A call and the task object it built. -/
structure Call where
  kind : CallKind
  numJobs : Int
  task : Address
  deriving DecidableEq

/-- The order each interface passes to `scheduleTaskInternal`. -/
def CallKind.order : CallKind → ScheduleOrder
  | .parallelFor => .backOfQueue
  | .schedule => .frontOfQueue

/-- What each interface passes to the constructor of `Task`. -/
def CallKind.needsToBeDeleted : CallKind → Bool
  | .parallelFor => false
  | .schedule => true

/-- Where a worker thread is. -/
inductive WorkerPosition where
  | getNextActiveTask
  | fetched (task : Address)
  | workOnIt (task : Address) (work : Work)
  | returned
  deriving DecidableEq

/-- Where a call is: in `scheduleTaskInternal`, in `wait`, or about to return. -/
inductive CallPosition where
  | setNumJobs
  | setScheduled
  | link
  | wait
  | workOnIt (work : Work)
  | waitCompleted
  | leave
  | returned
  deriving DecidableEq

/-- A call is in `wait`, or about to return from it. -/
def CallPosition.waits : CallPosition → Bool
  | .wait | .workOnIt _ | .waitCompleted | .leave => true
  | _ => false

/-- A thread of execution. Calls made from inside a job are frames of their own. -/
inductive Frame where
  | worker (position : WorkerPosition)
  | caller (call : Call) (position : CallPosition)
  deriving DecidableEq

/-- The call a thread is in; none for a worker. -/
def Frame.role : Frame → Option Call
  | .worker _ => none
  | .caller call _ => some call

/-- The task a frame has a pointer to and still a step to take on. -/
def Frame.holds : Frame → Option Address
  | .worker (.fetched task) | .worker (.workOnIt task _) => some task
  | .worker _ => none
  | .caller _ .returned => none
  | .caller call _ => some call.task

/-- `TaskSys`, the memory of task objects and the threads. `executed` lists, for each
call, the jobs its functor has run. -/
structure TaskSys where
  memory : Address → Task
  alive : Address → Bool
  activeListFirst : Option Address
  activeListLast : Option Address
  running : Bool
  frames : List Frame
  executed : Nat → List Int

namespace TaskSys

/-- Changing an object in memory. -/
def store (self : TaskSys) (task : Address) (change : Task → Task) : TaskSys :=
  { self with memory := Function.update self.memory task (change (self.memory task)) }

/-- The end of an object's life. -/
def destroy (self : TaskSys) (task : Address) : TaskSys :=
  { self with alive := Function.update self.alive task false }

/-- One thread's step of `task->workOnIt()`. -/
def workOnIt (self : TaskSys) (task : Address) (work : Work) : TaskSys × Option Work :=
  let object := self.memory task
  let (changed, next) := object.workOnIt work
  let worked : TaskSys :=
    { self with
      memory := Function.update self.memory task changed
      executed := Function.update self.executed object.owner
        (self.executed object.owner ++ work.executes) }
  (if object.deletes work then worked.destroy task else worked, next)

/-- `getNextActiveTask` takes the head off the list. -/
def unlinkFront (self : TaskSys) (front : Address) : TaskSys :=
  if self.activeListFirst = self.activeListLast then
    { self with activeListFirst := none, activeListLast := none }
  else { self with activeListFirst := (self.memory front).next }

/-- One round of `getNextActiveTask`; `none` while the worker sleeps on
`tasksAvailable`. -/
def getNextActiveTask (self : TaskSys) : Option (TaskSys × WorkerPosition) :=
  if self.running then
    match self.activeListFirst with
    | none => none
    | some front =>
      if (self.memory front).numJobsStarted ≥ (self.memory front).numJobsInTask then
        some (self.unlinkFront front, .getNextActiveTask)
      else some (self, .fetched front)
  else some (self, .returned)

/-- The section of `scheduleTaskInternal` under the global mutex. The last pointer is
never null when the first is not. -/
def link (self : TaskSys) (task : Address) (order : ScheduleOrder) : TaskSys :=
  let linked : TaskSys :=
    match self.activeListFirst, order with
    | none, _ =>
      { self.store task ({ · with next := none }) with
        activeListFirst := some task, activeListLast := some task }
    | some _, .backOfQueue =>
      let ended := self.store task ({ · with next := none })
      { ended.activeListLast.elim ended (ended.store · ({ · with next := some task })) with
        activeListLast := some task }
    | some first, .frontOfQueue =>
      { self.store task ({ · with next := some first }) with activeListFirst := some task }
  linked.store task ({ · with status := .active })

/-- One step of a worker thread; `none` when it waits or has ended. -/
def workerStep (self : TaskSys) : WorkerPosition → Option (TaskSys × WorkerPosition)
  | .getNextActiveTask => self.getNextActiveTask
  | .fetched task =>
    some (self, if self.running then .workOnIt task (.claim 0) else .returned)
  | .workOnIt task work =>
    let (worked, next) := self.workOnIt task work
    some (worked, next.elim .getNextActiveTask (.workOnIt task))
  | .returned => none

/-- One step of a call; `none` when it waits or has returned. -/
def callStep (self : TaskSys) (call : Call) : CallPosition → Option (TaskSys × CallPosition)
  | .setNumJobs =>
    some (self.store call.task ({ · with numJobsInTask := call.numJobs }), .setScheduled)
  | .setScheduled => some (self.store call.task ({ · with status := .scheduled }), .link)
  | .link =>
    some (self.link call.task call.kind.order,
      if call.kind = .parallelFor then .wait else .returned)
  | .wait =>
    some (self, if (self.memory call.task).status = .completed then .leave else .workOnIt (.claim 0))
  | .workOnIt work =>
    let (worked, next) := self.workOnIt call.task work
    some (worked, next.elim .waitCompleted .workOnIt)
  | .waitCompleted =>
    if (self.memory call.task).status = .completed then some (self, .leave) else none
  -- the local task object of `parallel_for_internal` goes out of scope
  | .leave => some (self.destroy call.task, .returned)
  | .returned => none

/-- One step of a thread. -/
def frameStep (self : TaskSys) : Frame → Option (TaskSys × Frame)
  | .worker position => (self.workerStep position).map fun (after, next) => (after, .worker next)
  | .caller call position =>
    (self.callStep call position).map fun (after, next) => (after, .caller call next)

/-- The step of the thread with a number. -/
def advance (self : TaskSys) (index : Nat) : Option TaskSys := do
  let frame ← self.frames[index]?
  let (after, next) ← self.frameStep frame
  some { after with frames := after.frames.set index next }

/-- A call builds its task object. The pointer to the next task is not initialised. -/
def enter (self : TaskSys) (call : Call) : TaskSys :=
  { self with
    memory := Function.update self.memory call.task
      { numJobsCompleted := 0, numJobsStarted := 0, numJobsInTask := 0, status := .initializing
        next := (self.memory call.task).next
        willNeedToBeDeleted := call.kind.needsToBeDeleted, owner := self.frames.length }
    alive := Function.update self.alive call.task true
    frames := self.frames ++ [.caller call .setNumJobs]
    executed := Function.update self.executed self.frames.length [] }

/-- What may happen next. -/
inductive Event where
  | parallelFor (numJobs : Int) (task : Address)
  | schedule (task : Address)
  | overwrite (address : Address) (contents : Task)
  | shutdown
  | advance (index : Nat)
  deriving DecidableEq

/-- One step of the whole. An object is built where no other object lives, and other
data may be written there; shutting down only clears `running`. -/
def perform (self : TaskSys) : Event → Option TaskSys
  | .parallelFor numJobs task =>
    if 0 ≤ numJobs ∧ numJobs < 2 ^ 31 ∧ self.alive task = false then
      some (self.enter { kind := .parallelFor, numJobs, task })
    else none
  | .schedule task =>
    if self.alive task = false then
      some (self.enter { kind := .schedule, numJobs := 1, task })
    else none
  | .overwrite address contents =>
    if self.alive address = false then some (self.store address fun _ => contents) else none
  | .shutdown => some { self with running := false }
  | .advance index => self.advance index

/-- After `init` with a number of threads, of which the calling one is no worker. -/
def initialized (memory : Address → Task) (numThreads : Nat) : TaskSys :=
  { memory, alive := fun _ => false, activeListFirst := none, activeListLast := none
    running := true, frames := List.replicate (numThreads - 1) (.worker .getNextActiveTask)
    executed := fun _ => [] }

/-! ## What the operations change -/

section Operations

variable (self : TaskSys) (task : Address)

@[simp] theorem store_memory (change : Task → Task) :
    (self.store task change).memory =
      Function.update self.memory task (change (self.memory task)) := rfl

@[simp] theorem store_frames (change : Task → Task) :
    (self.store task change).frames = self.frames := rfl

@[simp] theorem store_alive (change : Task → Task) :
    (self.store task change).alive = self.alive := rfl

@[simp] theorem store_executed (change : Task → Task) :
    (self.store task change).executed = self.executed := rfl

@[simp] theorem store_activeListFirst (change : Task → Task) :
    (self.store task change).activeListFirst = self.activeListFirst := rfl

@[simp] theorem store_activeListLast (change : Task → Task) :
    (self.store task change).activeListLast = self.activeListLast := rfl

@[simp] theorem enter_memory (call : Call) :
    (self.enter call).memory = Function.update self.memory call.task
      { numJobsCompleted := 0, numJobsStarted := 0, numJobsInTask := 0, status := .initializing
        next := (self.memory call.task).next
        willNeedToBeDeleted := call.kind.needsToBeDeleted, owner := self.frames.length } := rfl

@[simp] theorem enter_alive (call : Call) :
    (self.enter call).alive = Function.update self.alive call.task true := rfl

@[simp] theorem enter_frames (call : Call) :
    (self.enter call).frames = self.frames ++ [.caller call .setNumJobs] := rfl

@[simp] theorem enter_executed (call : Call) :
    (self.enter call).executed = Function.update self.executed self.frames.length [] := rfl

theorem unlinkFront_others (front : Address) :
    (self.unlinkFront front).memory = self.memory ∧ (self.unlinkFront front).alive = self.alive ∧
      (self.unlinkFront front).frames = self.frames ∧
      (self.unlinkFront front).executed = self.executed := by
  unfold unlinkFront
  split <;> exact ⟨rfl, rfl, rfl, rfl⟩

theorem link_others (order : ScheduleOrder) :
    (self.link task order).alive = self.alive ∧ (self.link task order).frames = self.frames ∧
      (self.link task order).executed = self.executed := by
  cases list : self.activeListFirst with
  | none => simp [link, list]
  | some first =>
    cases order with
    | frontOfQueue => simp [link, list]
    | backOfQueue => cases last : self.activeListLast <;> simp [link, list, last]

/-- Linking changes links, and the status of the task that is linked. -/
theorem link_memory (order : ScheduleOrder) (cell : Address) :
    ∃ next, (self.link task order).memory cell =
      { self.memory cell with
        next := next
        status := if cell = task then .active else (self.memory cell).status } := by
  by_cases same : cell = task
  · subst same
    cases list : self.activeListFirst with
    | none => exact ⟨none, by simp [link, list]⟩
    | some first =>
      cases order with
      | frontOfQueue => exact ⟨some first, by simp [link, list]⟩
      | backOfQueue =>
        cases last : self.activeListLast with
        | none => exact ⟨none, by simp [link, list, last]⟩
        | some final =>
          by_cases atEnd : cell = final
          · subst atEnd
            exact ⟨some cell, by simp [link, list, last]⟩
          · exact ⟨none, by simp [link, list, last, Function.update_of_ne atEnd]⟩
  · rw [if_neg same]
    cases list : self.activeListFirst with
    | none => exact ⟨_, by simp [link, list, Function.update_of_ne same]; rfl⟩
    | some first =>
      cases order with
      | frontOfQueue => exact ⟨_, by simp [link, list, Function.update_of_ne same]; rfl⟩
      | backOfQueue =>
        cases last : self.activeListLast with
        | none => exact ⟨_, by simp [link, list, last, Function.update_of_ne same]; rfl⟩
        | some final =>
          by_cases atEnd : cell = final
          · subst atEnd
            exact ⟨some task, by simp [link, list, last, Function.update_of_ne same]⟩
          · exact ⟨_, by
              simp [link, list, last, Function.update_of_ne same, Function.update_of_ne atEnd]; rfl⟩

/-- A thread's step of `workOnIt` changes the object, the jobs run for it and its life. -/
theorem workOnIt_spec (work : Work) :
    (self.workOnIt task work).2 = ((self.memory task).workOnIt work).2 ∧
      (self.workOnIt task work).1.memory =
        Function.update self.memory task ((self.memory task).workOnIt work).1 ∧
      (self.workOnIt task work).1.executed =
        Function.update self.executed (self.memory task).owner
          (self.executed (self.memory task).owner ++ work.executes) ∧
      (self.workOnIt task work).1.alive =
        (if (self.memory task).deletes work then Function.update self.alive task false
          else self.alive) ∧
      (self.workOnIt task work).1.frames = self.frames ∧
      (self.workOnIt task work).1.activeListFirst = self.activeListFirst := by
  cases deletes : (self.memory task).deletes work <;> simp [workOnIt, deletes, destroy]

end Operations

/-! ## What the list and the threads refer to -/

/-- A task is linked in the list of active tasks. -/
def Active (self : TaskSys) (task : Address) : Prop :=
  Linked (fun cell => (self.memory cell).next) self.activeListFirst task

/-- Some thread has a pointer to a task and still a step to take on it. -/
def Held (self : TaskSys) (task : Address) : Prop :=
  ∃ frame ∈ self.frames, frame.holds = some task

/-- A thread other than the one with a number has a pointer to a task. -/
def HeldByOther (self : TaskSys) (index : Nat) (task : Address) : Prop :=
  ∃ (other : Nat) (frame : Frame), other ≠ index ∧ self.frames[other]? = some frame ∧
    frame.holds = some task

/-- The worker threads. -/
def workers (self : TaskSys) : Nat := self.frames.countP fun frame => frame.role.isNone

end TaskSys

end Ospray.Tasking
