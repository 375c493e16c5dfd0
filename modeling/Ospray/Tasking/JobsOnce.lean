import Ospray.Tasking.Lifetimes

/-!
# Every job runs once

The books of `workOnIt` are kept for each task by the call that built it and the
workers that have fetched it, while all of them go about other tasks as well. The
storage of a task must keep its contents as long as the list or a thread refers to
it, also after the task has died; then a call has its own books from the moment it
builds its object, and they are closed before another object is built in its place.
-/

namespace Ospray.Tasking

open Library.Chains Library.Runs

/-- A call has not linked its task yet. -/
def CallPosition.preparing : CallPosition → Bool
  | .setNumJobs | .setScheduled | .link => true
  | _ => false

/-- What a call of `parallel_for_internal` has to do on its task: it will enter
`workOnIt` from `wait`. -/
def CallPosition.work (kind : CallKind) : CallPosition → Option Work
  | .workOnIt work => some work
  | .setNumJobs | .setScheduled | .link | .wait =>
    if kind = .parallelFor then some (.claim 0) else none
  | _ => none

/-- What a worker that has fetched a task has to do on it. -/
def Frame.workOn (task : Address) : Frame → Option Work
  | .worker (.fetched fetched) => if fetched = task then some (.claim 0) else none
  | .worker (.workOnIt busy work) => if busy = task then some work else none
  | _ => none

/-- Where a thread is inside `workOnIt` of a task. -/
def Frame.inside (task : Address) : Frame → Option Work
  | .worker (.workOnIt busy work) => if busy = task then some work else none
  | .caller call (.workOnIt work) => if call.task = task then some work else none
  | _ => none

namespace TaskSys

/-- What the workers have to do on a task. -/
def crew (self : TaskSys) (task : Address) : List Work := self.frames.filterMap (Frame.workOn task)

/-- The storage of a task is referred to. -/
def InUse (self : TaskSys) (task : Address) : Prop :=
  self.alive task = true ∨ self.Active task ∨ self.Held task

/-- The object of a call, and no later one, is alive at its address. -/
def Lives (self : TaskSys) (index : Nat) (call : Call) : Prop :=
  self.alive call.task = true ∧ (self.memory call.task).owner = index

/-- A step builds an object, or writes other data, only where neither the list nor a
thread refers to, and a call has a job to run, and so few that each thread can draw a
number past the last. -/
def Spaced (self : TaskSys) : Event → Prop
  | .parallelFor numJobs task =>
    1 ≤ numJobs ∧ numJobs + self.workers + 1 < 2 ^ 31 ∧ ¬ self.Active task ∧ ¬ self.Held task
  | .schedule task => self.workers + 2 < 2 ^ 31 ∧ ¬ self.Active task ∧ ¬ self.Held task
  | .overwrite address _ => ¬ self.Active address ∧ ¬ self.Held address
  | _ => True

/-- Such a step. -/
def SpacedStep (state next : TaskSys) : Prop :=
  ∃ event, state.Spaced event ∧ state.perform event = some next

/-- The books of a call whose object holds its storage, dead or alive. -/
structure Current (state : TaskSys) (index : Nat) (call : Call) (position : CallPosition) :
    Prop where
  owner : (state.memory call.task).owner = index
  balanced : Balanced call.numJobs (state.workers + 1) (state.memory call.task)
    ((position.work call.kind).toList ++ state.crew call.task) (state.executed index)
  preparing : position.preparing = true →
    (state.memory call.task).numJobsStarted = 0 ∧ (state.memory call.task).numJobsCompleted = 0 ∧
      (state.memory call.task).status ≠ .completed ∧ ¬ state.Active call.task ∧
      ¬ state.HeldByOther index call.task
  sized : position ≠ .setNumJobs → (state.memory call.task).numJobsInTask = call.numJobs
  drawn : position = .waitCompleted → call.numJobs ≤ (state.memory call.task).numJobsStarted
  dead : state.alive call.task = false →
    (state.memory call.task).status = .completed ∧ position = .returned
  left : call.kind = .parallelFor → position = .leave ∨ position = .returned →
    (state.memory call.task).status = .completed
  flag : (state.memory call.task).willNeedToBeDeleted = call.kind.needsToBeDeleted
  waits : position.waits = true → call.kind = .parallelFor

/-- The closed books of a call whose storage has been given to others. -/
structure Closed (state : TaskSys) (index : Nat) (call : Call) (position : CallPosition) :
    Prop where
  returned : position = .returned
  all : (state.executed index).Perm (jobsBelow call.numJobs)
  reused : state.InUse call.task → (state.memory call.task).owner ≠ index

/-- Every call has its books, and storage in use belongs to a call. -/
structure Consistent (state : TaskSys) : Prop where
  calls : ∀ index call position, state.frames[index]? = some (.caller call position) →
    state.Current index call position ∨ state.Closed index call position
  owned : ∀ task, state.InUse task → ∃ call position,
    state.frames[(state.memory task).owner]? = some (.caller call position) ∧ call.task = task

variable {state after next : TaskSys} {frame moved : Frame} {task cell : Address} {index : Nat}
  {call : Call} {position : CallPosition}

theorem set_split {frames : List Frame} (found : frames[index]? = some frame) :
    ∃ before after, frames = before ++ frame :: after ∧ before.length = index ∧
      ∀ moved, frames.set index moved = before ++ moved :: after := by
  obtain ⟨inside, rfl⟩ := List.getElem?_eq_some_iff.mp found
  refine ⟨frames.take index, frames.drop (index + 1), ?_, ?_, ?_⟩
  · rw [List.getElem_cons_drop, List.take_append_drop]
  · rw [List.length_take]
    omega
  · intro moved
    exact List.set_eq_take_append_cons_drop.trans (if_pos inside)

/-- The workers on a task are those before, at and after one thread's place. -/
theorem crew_split (found : state.frames[index]? = some frame) (task : Address) :
    ∃ before after, state.crew task = before ++ (frame.workOn task).toList ++ after ∧
      ∀ moved, (state.frames.set index moved).filterMap (Frame.workOn task) =
        before ++ (moved.workOn task).toList ++ after := by
  have split : ∀ (frame : Frame) before after,
      (before ++ frame :: after).filterMap (Frame.workOn task) =
        before.filterMap (Frame.workOn task) ++ (frame.workOn task).toList ++
          after.filterMap (Frame.workOn task) := by
    intro frame before after
    rw [List.filterMap_append, List.filterMap_cons, List.append_assoc]
    cases frame.workOn task <;> rfl
  obtain ⟨before, after, frames, _, set⟩ := set_split found
  refine ⟨before.filterMap (Frame.workOn task), after.filterMap (Frame.workOn task), ?_, ?_⟩
  · rw [crew, frames, split]
  · intro moved
    rw [set moved, split]

theorem workOn_holds {work : Work} (working : frame.workOn task = some work) :
    frame.holds = some task ∧ frame.role = none := by
  cases frame with
  | worker position =>
    cases position <;> simp only [Frame.workOn, Option.ite_none_right_eq_some, reduceCtorEq] at working
    · exact ⟨congrArg some working.1, rfl⟩
    · exact ⟨congrArg some working.1, rfl⟩
  | caller call position => cases working

theorem workOn_away (away : frame.holds ≠ some task) : frame.workOn task = none := by
  cases working : frame.workOn task with
  | none => rfl
  | some work => exact absurd (workOn_holds working).1 away

theorem workers_set (found : state.frames[index]? = some frame) (role : moved.role = frame.role) :
    (state.frames.set index moved).countP (fun frame => frame.role.isNone) = state.workers := by
  obtain ⟨before, after, frames, _, set⟩ := set_split found
  rw [set, workers, frames, List.countP_append, List.countP_append, List.countP_cons,
    List.countP_cons, role]

/-- Storage that is in use after a step was in use before. -/
theorem inUse_before (found : state.frames[index]? = some frame)
    (step : state.frameStep frame = some (after, moved))
    (used : InUse { after with frames := state.frames.set index moved } task) :
    state.InUse task := by
  have moves := frameStep_moves step
  have present : frame ∈ state.frames := List.mem_of_getElem? found
  obtain lives | linked | ⟨other, member, pointer⟩ := used
  · left
    have lives : after.alive task = true := lives
    rw [moves.alive] at lives
    split at lives
    · cases lives
    · exact lives
  · obtain linked | pointer := moves.active task linked
    · exact Or.inr (Or.inl linked)
    · exact Or.inr (Or.inr ⟨frame, present, pointer⟩)
  · obtain rfl | ⟨place, _, kept⟩ := mem_set_cases member
    · obtain pointer | linked := moves.holds task pointer
      · exact Or.inr (Or.inr ⟨frame, present, pointer⟩)
      · exact Or.inr (Or.inl linked)
    · exact Or.inr (Or.inr ⟨other, List.mem_of_getElem? kept, pointer⟩)

/-- A pointer that another thread has after a step came from there or from the list. -/
theorem heldByOther_before {owner : Nat} (found : state.frames[index]? = some frame)
    (step : state.frameStep frame = some (after, moved))
    (held : HeldByOther { after with frames := state.frames.set index moved } owner task) :
    state.HeldByOther owner task ∨ state.Active task := by
  obtain ⟨place, other, elsewhere, present, pointer⟩ := held
  change (state.frames.set index moved)[place]? = some other at present
  rw [List.getElem?_set] at present
  split at present
  · subst place
    split at present
    · obtain rfl := Option.some.inj present
      obtain pointer | linked := (frameStep_moves step).holds task pointer
      · exact Or.inl ⟨index, frame, elsewhere, found, pointer⟩
      · exact Or.inr linked
    · cases present
  · exact Or.inl ⟨place, other, elsewhere, present, pointer⟩

/-- The books of a call are not touched by a step of a thread that has no pointer to its
task. -/
theorem current_elsewhere {owner : Nat} (current : state.Current owner call position)
    (found : state.frames[index]? = some frame)
    (step : state.frameStep frame = some (after, moved)) (away : frame.holds ≠ some call.task)
    (awayAfter : moved.holds ≠ some call.task) (jobs : after.executed owner = state.executed owner) :
    Current { after with frames := state.frames.set index moved } owner call position := by
  have moves := frameStep_moves step
  obtain ⟨link, memory⟩ := moves.elsewhere call.task away
  have alive : after.alive call.task = state.alive call.task := by
    rw [moves.alive, if_neg]
    intro last
    exact away (ends_holds last)
  have crew : crew { after with frames := state.frames.set index moved } call.task =
      state.crew call.task := by
    obtain ⟨before, rest, same, set⟩ := crew_split found call.task
    rw [same, workOn_away away]
    exact (set moved).trans (by rw [workOn_away awayAfter])
  constructor
  case owner =>
    rw [(moves.built call.task).1]
    exact current.owner
  case balanced =>
    rw [crew, workers, workers_set found moves.role, jobs, memory]
    exact current.balanced.congr rfl rfl rfl
  case preparing =>
    intro prepares
    obtain ⟨started, completed, status, notLinked, alone⟩ := current.preparing prepares
    rw [memory]
    refine ⟨started, completed, status, ?_, ?_⟩
    · intro linked
      obtain linked | pointer := moves.active call.task linked
      · exact notLinked linked
      · exact away pointer
    · intro held
      obtain held | linked := heldByOther_before found step held
      · exact alone held
      · exact notLinked linked
  case sized =>
    rw [memory]
    exact current.sized
  case drawn =>
    rw [memory]
    exact current.drawn
  case dead =>
    rw [memory, alive]
    exact current.dead
  case left =>
    rw [memory]
    exact current.left
  case flag =>
    rw [(moves.built call.task).2]
    exact current.flag
  case waits => exact current.waits

/-! ## Steps on a call's own task -/

theorem not_preparing {owner : Nat} (current : state.Current owner call position)
    (refers : state.HeldByOther owner call.task ∨ state.Active call.task) :
    position.preparing = false := by
  by_contra prepares
  obtain ⟨_, _, _, notLinked, alone⟩ := current.preparing (by simpa using prepares)
  obtain held | linked := refers
  · exact alone held
  · exact notLinked linked

/-- Only the flag decides about deletion, and only tasks that nobody waits for have it. -/
theorem deleted_returned {owner : Nat} {work : Work} (current : state.Current owner call position)
    (prepared : position.preparing = false)
    (deletes : (state.memory call.task).deletes work = true) :
    work = .dispose ∧ position = .returned := by
  simp only [Task.deletes, Bool.and_eq_true, decide_eq_true_eq] at deletes
  refine ⟨deletes.1, ?_⟩
  have schedules : call.kind.needsToBeDeleted = true := current.flag ▸ deletes.2
  have notParallel : call.kind ≠ .parallelFor := by
    intro parallel
    rw [parallel] at schedules
    cases schedules
  cases position with
  | returned => rfl
  | setNumJobs | setScheduled | link => cases prepared
  | _ => exact absurd (current.waits rfl) notParallel

/-- A worker's step that leaves the object as it is changes the crew only. -/
theorem current_recrew {owner : Nat} (current : state.Current owner call position)
    (found : state.frames[index]? = some frame) (role : moved.role = frame.role)
    (prepared : position.preparing = false)
    (balanced : ∀ before rest, state.crew call.task =
        before ++ (frame.workOn call.task).toList ++ rest →
      Balanced call.numJobs (state.workers + 1) (state.memory call.task)
        ((position.work call.kind).toList ++ (before ++ (moved.workOn call.task).toList ++ rest))
        (state.executed owner)) :
    Current { state with frames := state.frames.set index moved } owner call position := by
  obtain ⟨before, rest, same, set⟩ := crew_split found call.task
  constructor
  case owner => exact current.owner
  case balanced =>
    rw [crew, workers, workers_set found role, set]
    exact balanced before rest same
  case preparing =>
    intro prepares
    rw [prepared] at prepares
    cases prepares
  case sized => exact current.sized
  case drawn => exact current.drawn
  case dead => exact current.dead
  case left => exact current.left
  case flag => exact current.flag
  case waits => exact current.waits

/-- A worker does its step of `workOnIt`. -/
theorem current_workOnIt {owner : Nat} {work : Work} {returns : Option Work}
    (current : state.Current owner call position)
    (found : state.frames[index]? = some (.worker (.workOnIt call.task work)))
    (prepared : position.preparing = false)
    (step : state.workOnIt call.task work = (after, returns)) :
    Current { after with
        frames := state.frames.set index
          (.worker (returns.elim .getNextActiveTask (.workOnIt call.task))) } owner call position := by
  obtain ⟨next, memory, executed, alive, _, _⟩ := workOnIt_spec state call.task work
  rw [step] at next memory executed alive
  dsimp only at next memory executed alive
  obtain ⟨before, rest, same, set⟩ := crew_split found call.task
  have here : Frame.workOn call.task (.worker (.workOnIt call.task work)) = some work := if_pos rfl
  have there : ∀ next : Option Work, Frame.workOn call.task
      (.worker (next.elim .getNextActiveTask (.workOnIt call.task))) = next := by
    intro next
    cases next with
    | none => rfl
    | some work => exact if_pos rfl
  have sized : (state.memory call.task).numJobsInTask = call.numJobs := by
    apply current.sized
    rintro rfl
    cases prepared
  have balanced := current.balanced
  rw [same, here, Option.toList_some, ← List.append_assoc, ← List.append_assoc,
    List.append_assoc _ [work], List.singleton_append] at balanced
  obtain ⟨links, owner_, flag, inTask⟩ := workOnIt_frame (state.memory call.task) work
  obtain ⟨drawn, completed⟩ := balanced.workOnIt_mono
  have object : after.memory call.task = ((state.memory call.task).workOnIt work).1 := by
    rw [memory, Function.update_self]
  constructor
  case owner =>
    rw [object]
    exact owner_.trans current.owner
  case balanced =>
    have worked := balanced.workOnIt sized
    have role : Frame.role (.worker (returns.elim .getNextActiveTask (.workOnIt call.task))) =
      Frame.role (.worker (.workOnIt call.task work)) := rfl
    rw [object, executed, current.owner, Function.update_self, crew, workers,
      workers_set found role, set, there, next]
    simpa only [List.append_assoc] using worked
  case preparing =>
    intro prepares
    rw [prepared] at prepares
    cases prepares
  case sized =>
    rw [object]
    exact fun _ => inTask.trans sized
  case drawn =>
    rw [object]
    exact fun waits => Int.le_trans (current.drawn waits) drawn
  case dead =>
    rw [object, alive]
    intro gone
    split at gone
    · obtain ⟨rfl, returned⟩ := deleted_returned current prepared ‹_›
      exact ⟨completed (balanced.settled.disposing (by simp)), returned⟩
    · exact ⟨completed (current.dead gone).1, (current.dead gone).2⟩
  case left =>
    rw [object]
    exact fun parallel returns => completed (current.left parallel returns)
  case flag =>
    rw [object]
    exact flag.trans current.flag
  case waits => exact current.waits

theorem crew_caller {next : CallPosition} (found : state.frames[index]? = some (.caller call position))
    (task : Address) :
    (state.frames.set index (.caller call next)).filterMap (Frame.workOn task) = state.crew task := by
  obtain ⟨before, rest, same, set⟩ := crew_split found task
  rw [set, same]
  rfl

/-- A call prepares its task: it writes the number of jobs, a status, a link. -/
theorem current_prepares {next : CallPosition} (current : state.Current index call position)
    (found : state.frames[index]? = some (.caller call position))
    (step : state.frameStep (.caller call position) = some (after, .caller call next))
    (prepares : position.preparing = true) (work : next.work call.kind = position.work call.kind)
    (counters : (after.memory call.task).numJobsStarted = (state.memory call.task).numJobsStarted ∧
      (after.memory call.task).numJobsCompleted = (state.memory call.task).numJobsCompleted)
    (status : (after.memory call.task).status ≠ .completed)
    (sized : (after.memory call.task).numJobsInTask = call.numJobs)
    (unlinked : next.preparing = true → ¬ after.Active call.task)
    (waits : next.waits = true → call.kind = .parallelFor)
    (returns : next = .leave ∨ next = .returned → call.kind ≠ .parallelFor)
    (notBlocked : next ≠ .waitCompleted)
    (executed : after.executed = state.executed) (alive : after.alive = state.alive) :
    Current { after with frames := state.frames.set index (.caller call next) } index call next := by
  have moves := frameStep_moves step
  obtain ⟨started, completed, before, notLinked, alone⟩ := current.preparing prepares
  have lives : state.alive call.task = true := by
    by_contra dead
    have returned := (current.dead (by simpa using dead)).2
    rw [returned] at prepares
    cases prepares
  constructor
  case owner =>
    rw [(moves.built call.task).1]
    exact current.owner
  case balanced =>
    rw [crew, workers, workers_set found moves.role, crew_caller found, executed, work]
    exact current.balanced.prepare counters.1 counters.2 completed status before
  case preparing =>
    intro still
    refine ⟨counters.1.trans started, counters.2.trans completed, status, unlinked still, ?_⟩
    intro held
    obtain held | linked := heldByOther_before found step held
    · exact alone held
    · exact notLinked linked
  case sized => exact fun _ => sized
  case drawn => exact fun blocked => absurd blocked notBlocked
  case dead =>
    intro gone
    rw [alive, lives] at gone
    cases gone
  case left => exact fun parallel past => absurd parallel (returns past)
  case flag =>
    rw [(moves.built call.task).2]
    exact current.flag
  case waits => exact waits

/-- A call waits for its task without touching it. -/
theorem current_waits {next : CallPosition} (current : state.Current index call position)
    (found : state.frames[index]? = some (.caller call position))
    (waiting : position.waits = true)
    (kept : after.alive call.task = state.alive call.task ∨ next = .returned)
    (memory : after.memory = state.memory) (executed : after.executed = state.executed)
    (balanced : Balanced call.numJobs (state.workers + 1) (state.memory call.task)
      ((next.work call.kind).toList ++ state.crew call.task) (state.executed index))
    (left : next = .leave ∨ next = .returned → (state.memory call.task).status = .completed)
    (drawn : next = .waitCompleted → call.numJobs ≤ (state.memory call.task).numJobsStarted)
    (later : next.preparing = false) :
    Current { after with frames := state.frames.set index (.caller call next) } index call next := by
  have role : Frame.role (.caller call next) = Frame.role (.caller call position) := rfl
  have lives : state.alive call.task = true := by
    by_contra dead
    have returned := (current.dead (by simpa using dead)).2
    rw [returned] at waiting
    cases waiting
  constructor
  case owner =>
    rw [memory]
    exact current.owner
  case balanced =>
    rw [crew, workers, workers_set found role, crew_caller found, executed, memory]
    exact balanced
  case preparing =>
    intro prepares
    rw [later] at prepares
    cases prepares
  case sized =>
    rw [memory]
    intro _
    apply current.sized
    rintro rfl
    cases waiting
  case drawn =>
    rw [memory]
    exact drawn
  case dead =>
    intro gone
    rw [memory]
    obtain same | ended := kept
    · rw [same, lives] at gone
      cases gone
    · exact ⟨left (Or.inr ended), ended⟩
  case left =>
    rw [memory]
    exact fun _ => left
  case flag =>
    rw [memory]
    exact current.flag
  case waits => exact fun _ => current.waits waiting

/-- A call does its step of `workOnIt`. -/
theorem current_callWorkOnIt {work : Work} {returns : Option Work}
    (current : state.Current index call (.workOnIt work))
    (found : state.frames[index]? = some (.caller call (.workOnIt work)))
    (step : state.workOnIt call.task work = (after, returns)) :
    Current { after with
        frames := state.frames.set index (.caller call (returns.elim .waitCompleted .workOnIt)) }
      index call (returns.elim .waitCompleted .workOnIt) := by
  obtain ⟨next, memory, executed, alive, _, _⟩ := workOnIt_spec state call.task work
  rw [step] at next memory executed alive
  dsimp only at next memory executed alive
  have sized := current.sized nofun
  have balanced : Balanced call.numJobs (state.workers + 1) (state.memory call.task)
      ([] ++ work :: state.crew call.task) (state.executed index) := current.balanced
  obtain ⟨_, owner, flag, inTask⟩ := workOnIt_frame (state.memory call.task) work
  have drawn := balanced.workOnIt_mono.1
  have object : after.memory call.task = ((state.memory call.task).workOnIt work).1 := by
    rw [memory, Function.update_self]
  have keeps : after.alive = state.alive := by
    rw [alive, if_neg]
    intro deletes
    cases (deleted_returned current rfl deletes).2
  have lives : state.alive call.task = true := by
    by_contra dead
    cases (current.dead (by simpa using dead)).2
  have working : (returns.elim CallPosition.waitCompleted .workOnIt).work call.kind = returns := by
    cases returns <;> rfl
  have role : Frame.role (.caller call (returns.elim .waitCompleted .workOnIt)) =
    Frame.role (.caller call (.workOnIt work)) := rfl
  constructor
  case owner =>
    rw [object]
    exact owner.trans current.owner
  case balanced =>
    have worked := balanced.workOnIt sized
    rw [object, executed, current.owner, Function.update_self, crew, workers,
      workers_set found role, crew_caller found, working, next]
    exact worked
  case preparing => cases returns <;> exact nofun
  case sized =>
    rw [object]
    exact fun _ => inTask.trans sized
  case drawn =>
    rw [object]
    intro blocked
    cases returns with
    | none => exact Int.le_trans (balanced.returns_drawn sized next.symm) drawn
    | some work => cases blocked
  case dead =>
    intro gone
    rw [keeps, lives] at gone
    cases gone
  case left =>
    intro _ past
    cases returns <;> cases past <;> rename_i same <;> cases same
  case flag =>
    rw [object]
    exact flag.trans current.flag
  case waits => exact fun _ => current.waits rfl

/-- The step of a call keeps its books. -/
theorem current_caller {next : CallPosition} (current : state.Current index call position)
    (found : state.frames[index]? = some (.caller call position))
    (step : state.frameStep (.caller call position) = some (after, .caller call next)) :
    Current { after with frames := state.frames.set index (.caller call next) } index call next := by
  have moved := step
  simp only [frameStep, Option.map_eq_some_iff, Prod.exists, Prod.mk.injEq, Frame.caller.injEq,
    true_and] at moved
  obtain ⟨_, _, moved, rfl, rfl⟩ := moved
  cases position with
  | setNumJobs =>
    obtain ⟨started, completed, status, notLinked, _⟩ := current.preparing rfl
    obtain ⟨rfl, rfl⟩ := Prod.mk.inj (Option.some.inj moved)
    refine current_prepares current found step rfl rfl ?_ ?_ ?_ ?_ (by rintro ⟨⟩) ?_ (by rintro ⟨⟩) rfl rfl
    · simp
    · simpa using status
    · simp
    · intro _ linked
      exact notLinked ((store_active (by intro _; rfl)).mp linked)
    · rintro (same | same) <;> cases same
  | setScheduled =>
    obtain ⟨started, completed, status, notLinked, _⟩ := current.preparing rfl
    obtain ⟨rfl, rfl⟩ := Prod.mk.inj (Option.some.inj moved)
    refine current_prepares current found step rfl rfl ?_ ?_ ?_ ?_ (by rintro ⟨⟩) ?_ (by rintro ⟨⟩) rfl rfl
    · simp
    · simp
    · simpa using current.sized (by rintro ⟨⟩)
    · intro _ linked
      exact notLinked ((store_active (by intro _; rfl)).mp linked)
    · rintro (same | same) <;> cases same
  | link =>
    obtain ⟨rfl, rfl⟩ := Prod.mk.inj (Option.some.inj moved)
    obtain ⟨alive, _, executed⟩ := link_others state call.task call.kind.order
    obtain ⟨link, memory⟩ := link_memory state call.task call.kind.order call.task
    have sized := current.sized (by rintro ⟨⟩)
    by_cases parallel : call.kind = .parallelFor
    · rw [if_pos parallel] at step ⊢
      refine current_prepares current found step rfl rfl ?_ ?_ ?_ (by rintro ⟨⟩) ?_ ?_ (by rintro ⟨⟩) executed alive
      · simp [memory]
      · simp [memory]
      · simpa [memory] using sized
      · exact fun _ => parallel
      · rintro (same | same) <;> cases same
    · rw [if_neg parallel] at step ⊢
      refine current_prepares current found step rfl ?_ ?_ ?_ ?_ (by rintro ⟨⟩) (by rintro ⟨⟩) ?_ (by rintro ⟨⟩) executed alive
      · exact (if_neg parallel).symm
      · simp [memory]
      · simp [memory]
      · simpa [memory] using sized
      · exact fun _ => parallel
  | wait =>
    obtain ⟨rfl, rfl⟩ := Prod.mk.inj (Option.some.inj moved)
    have parallel := current.waits rfl
    have balanced : Balanced call.numJobs (state.workers + 1) (state.memory call.task)
        ([] ++ .claim 0 :: state.crew call.task) (state.executed index) := by
      have balanced := current.balanced
      rwa [CallPosition.work, if_pos parallel] at balanced
    by_cases completed : (state.memory call.task).status = .completed
    · rw [if_pos completed] at step ⊢
      exact current_waits current found rfl (Or.inl rfl) rfl rfl balanced.withdraw
        (fun _ => completed) (by rintro ⟨⟩) rfl
    · rw [if_neg completed] at step ⊢
      exact current_waits current found rfl (Or.inl rfl) rfl rfl balanced
        (by rintro (same | same) <;> cases same) (by rintro ⟨⟩) rfl
  | workOnIt work =>
    simp only [callStep, Option.some.injEq, Prod.mk.injEq] at moved
    obtain ⟨rfl, rfl⟩ := moved
    exact current_callWorkOnIt current found rfl
  | waitCompleted =>
    simp only [callStep, Option.ite_none_right_eq_some, Option.some.injEq, Prod.mk.injEq] at moved
    obtain ⟨completed, rfl, rfl⟩ := moved
    exact current_waits current found rfl (Or.inl rfl) rfl rfl current.balanced
      (fun _ => completed) (by rintro ⟨⟩) rfl
  | leave =>
    obtain ⟨rfl, rfl⟩ := Prod.mk.inj (Option.some.inj moved)
    exact current_waits current found rfl (Or.inr rfl) rfl rfl current.balanced
      (fun _ => current.left (current.waits rfl) (Or.inl rfl)) (by rintro ⟨⟩) rfl
  | returned => cases moved

/-- A worker that is not on a task leaves room in its crew. -/
theorem crew_room (found : state.frames[index]? = some frame) (role : frame.role = none)
    (idle : frame.workOn task = none) : (state.crew task).length < state.workers := by
  have most : ∀ frames : List Frame, (frames.filterMap (Frame.workOn task)).length ≤
      frames.countP fun frame => frame.role.isNone := by
    intro frames
    rw [List.length_filterMap_eq_countP]
    apply List.countP_mono_left
    intro frame _ working
    obtain ⟨work, working⟩ := Option.isSome_iff_exists.mp working
    rw [(workOn_holds working).2, Option.isNone_none]
  obtain ⟨before, after, frames, _, _⟩ := set_split found
  have front := most before
  have back := most after
  rw [crew, workers, frames, List.filterMap_append, List.filterMap_cons, idle, List.length_append,
    List.countP_append, List.countP_cons, role, Option.isNone_none, if_pos rfl]
  dsimp only
  omega

/-- The step of a worker keeps the books of the call whose task it takes up or works on. -/
theorem current_worker {owner : Nat} {worker : WorkerPosition}
    (current : state.Current owner call position)
    (found : state.frames[index]? = some (.worker worker)) (other : index ≠ owner)
    (step : state.frameStep (.worker worker) = some (after, moved))
    (acts : Frame.holds (.worker worker) = some call.task ∨ moved.holds = some call.task) :
    Current { after with frames := state.frames.set index moved } owner call position := by
  have prepared : position.preparing = false := by
    apply not_preparing current
    obtain pointer | pointer := acts
    · exact Or.inl ⟨index, _, other, found, pointer⟩
    · obtain pointer | linked := (frameStep_moves step).holds call.task pointer
      · exact Or.inl ⟨index, _, other, found, pointer⟩
      · exact Or.inr linked
  have balanced := current.balanced
  simp only [frameStep, Option.map_eq_some_iff, Prod.exists, Prod.mk.injEq] at step
  obtain ⟨_, _, step, rfl, rfl⟩ := step
  cases worker with
  | getNextActiveTask =>
    obtain pointer | pointer := acts
    · cases pointer
    · simp only [workerStep, getNextActiveTask] at step
      split at step
      · split at step
        · cases step
        · split at step <;> obtain ⟨rfl, rfl⟩ := Prod.mk.inj (Option.some.inj step)
          · cases pointer
          · rename_i front _ jobsLeft
            obtain rfl : front = call.task := Option.some.inj pointer
            have sized : (state.memory call.task).numJobsInTask = call.numJobs := by
              apply current.sized
              rintro rfl
              cases prepared
            refine current_recrew current found rfl prepared ?_
            intro before rest same
            have idle : Frame.workOn call.task (.worker .getNextActiveTask) = none := rfl
            have taken : Frame.workOn call.task (.worker (.fetched call.task)) = some (.claim 0) :=
              if_pos rfl
            have room := crew_room found rfl idle
            have caller : (position.work call.kind).toList.length ≤ 1 := Option.length_toList_le
            rw [same, idle, Option.toList_none, List.append_nil] at balanced room
            rw [taken, Option.toList_some, List.append_assoc, List.singleton_append,
              ← List.append_assoc]
            rw [← List.append_assoc] at balanced
            apply balanced.join
            · simp only [List.length_append] at room ⊢
              omega
            · rw [sized] at jobsLeft
              exact Int.lt_of_not_ge jobsLeft
      · obtain ⟨rfl, rfl⟩ := Prod.mk.inj (Option.some.inj step)
        cases pointer
  | fetched fetched =>
    obtain ⟨rfl, rfl⟩ := Prod.mk.inj (Option.some.inj step)
    obtain rfl : fetched = call.task := by
      obtain pointer | pointer := acts
      · exact Option.some.inj pointer
      · split at pointer
        · exact Option.some.inj pointer
        · cases pointer
    refine current_recrew current found rfl prepared ?_
    intro before rest same
    have taken : Frame.workOn call.task (.worker (.fetched call.task)) = some (.claim 0) := if_pos rfl
    have works : Frame.workOn call.task (.worker (.workOnIt call.task (.claim 0))) =
        some (.claim 0) := if_pos rfl
    rw [same, taken] at balanced
    cases state.running with
    | true =>
      rw [if_pos rfl, works]
      exact balanced
    | false =>
      have gone : Frame.workOn call.task (.worker .returned) = none := rfl
      rw [if_neg Bool.false_ne_true, gone, Option.toList_none, List.append_nil, ← List.append_assoc]
      rw [Option.toList_some, List.append_assoc, List.singleton_append, ← List.append_assoc] at balanced
      exact balanced.withdraw
  | workOnIt busy work =>
    simp only [workerStep, Option.some.injEq, Prod.mk.injEq] at step
    obtain ⟨rfl, rfl⟩ := step
    obtain rfl : busy = call.task := by
      obtain pointer | pointer := acts
      · exact Option.some.inj pointer
      · cases next : (state.workOnIt busy work).2 with
        | none =>
          rw [next] at pointer
          cases pointer
        | some work =>
          rw [next] at pointer
          exact Option.some.inj pointer
    exact current_workOnIt current found prepared rfl
  | returned => cases step

/-! ## Whole runs -/

theorem caller_set (found : state.frames[index]? = some frame) (role : moved.role = frame.role)
    {owner : Nat} (present : state.frames[owner]? = some (.caller call position)) :
    ∃ later, (state.frames.set index moved)[owner]? = some (.caller call later) := by
  rw [List.getElem?_set]
  by_cases same : index = owner
  · subst same
    obtain rfl := Option.some.inj (found.symm.trans present)
    rw [if_pos rfl, if_pos (List.getElem?_eq_some_iff.mp found).1]
    cases moved with
    | worker worker => cases role
    | caller other later =>
      obtain rfl : other = call := Option.some.inj role
      exact ⟨later, rfl⟩
  · rw [if_neg same]
    exact ⟨position, present⟩

/-- A step of a thread keeps all books. -/
theorem advance_consistent (consistent : state.Consistent)
    (performed : state.advance index = some next) : next.Consistent := by
  obtain ⟨frame, after, moved, found, step, rfl⟩ := advance_cases performed
  have moves := frameStep_moves step
  have present : frame ∈ state.frames := List.mem_of_getElem? found
  -- the call whose task the thread has a pointer to
  have ownCall : ∀ owner call position, state.frames[owner]? = some (.caller call position) →
      frame.holds ≠ some call.task →
      ∀ task, frame.holds = some task → (state.memory task).owner ≠ owner := by
    intro owner call position listed away task pointer same
    obtain ⟨other, _, found, rfl⟩ := consistent.owned task (Or.inr (Or.inr ⟨frame, present, pointer⟩))
    rw [same, listed] at found
    obtain ⟨rfl, _⟩ := Frame.caller.inj (Option.some.inj found)
    exact away pointer
  constructor
  case calls =>
    intro owner call position listed
    change (state.frames.set index moved)[owner]? = some (.caller call position) at listed
    rw [List.getElem?_set] at listed
    by_cases same : index = owner
    · subst same
      rw [if_pos rfl, if_pos (List.getElem?_eq_some_iff.mp found).1] at listed
      obtain rfl := Option.some.inj listed
      cases frame with
      | worker worker => cases moves.role
      | caller other earlier =>
        obtain rfl : call = other := Option.some.inj moves.role
        obtain current | closed := consistent.calls index call earlier found
        · exact Or.inl (current_caller current found step)
        · rw [closed.returned] at step
          cases step
    · rw [if_neg same] at listed
      obtain current | closed := consistent.calls owner call position listed
      · left
        by_cases acts : frame.holds = some call.task ∨ moved.holds = some call.task
        · cases frame with
          | worker worker => exact current_worker current found same step acts
          | caller other earlier =>
            exfalso
            have mine : other.task = call.task := by
              have own : ∀ position, Frame.holds (.caller other position) = some call.task →
                  other.task = call.task := by
                intro position pointer
                cases position <;> first | exact Option.some.inj pointer | cases pointer
              obtain pointer | pointer := acts
              · exact own _ pointer
              · cases moved with
                | worker worker => cases moves.role
                | caller again later =>
                  obtain rfl : again = other := Option.some.inj moves.role
                  exact own _ pointer
            obtain others | closed := consistent.calls index other earlier found
            · apply same
              rw [← others.owner, ← current.owner, mine]
            · rw [closed.returned] at step
              cases step
        · obtain ⟨away, awayAfter⟩ := not_or.mp acts
          exact current_elsewhere current found step away awayAfter
            (moves.executed owner (ownCall owner call position listed away))
      · right
        have away : frame.holds ≠ some call.task ∨ (state.memory call.task).owner ≠ owner := by
          by_cases pointer : frame.holds = some call.task
          · exact Or.inr (closed.reused (Or.inr (Or.inr ⟨frame, present, pointer⟩)))
          · exact Or.inl pointer
        refine ⟨closed.returned, ?_, ?_⟩
        · have jobs : after.executed owner = state.executed owner := by
            apply moves.executed
            intro task pointer
            by_cases mine : task = call.task
            · subst mine
              exact closed.reused (Or.inr (Or.inr ⟨frame, present, pointer⟩))
            · apply ownCall owner call position listed _ task pointer
              rw [pointer]
              exact fun same => mine (Option.some.inj same)
          rw [jobs]
          exact closed.all
        · intro used
          rw [(moves.built call.task).1]
          exact closed.reused (inUse_before found step used)
  case owned =>
    intro task used
    obtain ⟨call, position, listed, rfl⟩ := consistent.owned task (inUse_before found step used)
    rw [(moves.built call.task).1]
    obtain ⟨later, listed⟩ := caller_set found moves.role listed
    exact ⟨call, later, listed, rfl⟩

/-- When nothing refers to the storage of a task any more, its call has returned and all
jobs have been run. -/
theorem unused_executed {owner : Nat} (current : state.Current owner call position)
    (unused : ¬ state.InUse call.task) :
    position = .returned ∧ (state.executed owner).Perm (jobsBelow call.numJobs) := by
  have dead : state.alive call.task = false := by
    by_contra lives
    exact unused (Or.inl (by simpa using lives))
  obtain ⟨completed, returned⟩ := current.dead dead
  exact ⟨returned, current.balanced.all_executed completed⟩

theorem crew_unused (unused : ¬ state.InUse task) : state.crew task = [] := by
  rw [crew, List.filterMap_eq_nil_iff]
  intro frame member
  apply workOn_away
  intro pointer
  exact unused (Or.inr (Or.inr ⟨frame, member, pointer⟩))

/-- The books of a call do not depend on other storage, nor on calls that begin later. -/
theorem current_kept {owner : Nat} (current : state.Current owner call position)
    (memory : after.memory call.task = state.memory call.task)
    (alive : after.alive call.task = state.alive call.task)
    (executed : after.executed owner = state.executed owner)
    (crew : after.crew call.task = state.crew call.task) (workers : after.workers = state.workers)
    (active : after.Active call.task → state.Active call.task)
    (held : after.HeldByOther owner call.task → state.HeldByOther owner call.task) :
    after.Current owner call position := by
  obtain ⟨owned, balanced, preparing, sized, drawn, dead, left, flag, waits⟩ := current
  rw [← memory] at owned preparing sized drawn dead left flag
  rw [← alive] at dead
  rw [← memory, ← executed, ← crew, ← workers] at balanced
  refine ⟨owned, balanced, ?_, sized, drawn, dead, left, flag, waits⟩
  intro prepares
  obtain ⟨started, completed, status, notLinked, alone⟩ := preparing prepares
  exact ⟨started, completed, status, notLinked ∘ active, alone ∘ held⟩

theorem enter_active : (state.enter call).Active task ↔ state.Active task := by
  refine active_congr rfl ?_
  intro cell
  rw [enter_memory]
  by_cases same : cell = call.task
  · rw [same, Function.update_self]
  · rw [Function.update_of_ne same]

/-- A new call opens books of its own. -/
theorem enter_current (unused : ¬ state.InUse call.task) (nonempty : 1 ≤ call.numJobs)
    (representable : call.numJobs + (state.workers + 1 : Nat) < 2 ^ 31) :
    (state.enter call).Current state.frames.length call .setNumJobs := by
  have crew : (state.enter call).crew call.task = [] := by
    rw [crew, enter_frames, List.filterMap_append]
    exact congrArg (· ++ []) (crew_unused unused)
  have workers : (state.enter call).workers = state.workers := by
    rw [workers, enter_frames, List.countP_append]
    rfl
  constructor
  case owner => rw [enter_memory, Function.update_self]
  case balanced =>
    rw [crew, workers, enter_executed, Function.update_self, List.append_nil, enter_memory,
      Function.update_self]
    refine Balanced.fresh nonempty representable (by omega) rfl rfl (by simp) ?_
    intro work begins
    simp only [CallPosition.work, Option.ite_none_right_eq_some, Option.some.injEq] at begins
    exact begins.2.symm
  case preparing =>
    intro _
    rw [enter_memory, Function.update_self]
    refine ⟨rfl, rfl, nofun, ?_, ?_⟩
    · intro linked
      exact unused (Or.inr (Or.inl (enter_active.mp linked)))
    · rintro ⟨place, frame, elsewhere, present, pointer⟩
      rw [enter_frames, List.getElem?_append] at present
      split at present
      · exact unused (Or.inr (Or.inr ⟨frame, List.mem_of_getElem? present, pointer⟩))
      · have beyond : place - state.frames.length ≠ 0 := by omega
        rw [List.getElem?_singleton, if_neg beyond] at present
        cases present
  case sized => exact fun past => absurd rfl past
  case drawn => exact nofun
  case dead =>
    intro gone
    rw [enter_alive, Function.update_self] at gone
    cases gone
  case left => exact fun _ past => by rcases past with same | same <;> cases same
  case flag => rw [enter_memory, Function.update_self]
  case waits => exact nofun

/-- Building an object in storage that nothing refers to keeps all books. -/
theorem enter_consistent (consistent : state.Consistent) (unused : ¬ state.InUse call.task)
    (nonempty : 1 ≤ call.numJobs)
    (representable : call.numJobs + (state.workers + 1 : Nat) < 2 ^ 31) :
    (state.enter call).Consistent := by
  have usedBefore : ∀ task, task ≠ call.task → (state.enter call).InUse task → state.InUse task := by
    rintro task different (lives | linked | ⟨frame, member, pointer⟩)
    · rw [enter_alive, Function.update_of_ne different] at lives
      exact Or.inl lives
    · exact Or.inr (Or.inl (enter_active.mp linked))
    · rw [enter_frames, List.mem_append, List.mem_singleton] at member
      obtain before | rfl := member
      · exact Or.inr (Or.inr ⟨frame, before, pointer⟩)
      · exact absurd (Option.some.inj pointer).symm different
  constructor
  case calls =>
    intro owner other position listed
    rw [enter_frames, List.getElem?_append] at listed
    split at listed
    · have earlier : owner ≠ state.frames.length := by omega
      have executed : (state.enter call).executed owner = state.executed owner := by
        rw [enter_executed, Function.update_of_ne earlier]
      by_cases same : other.task = call.task
      · right
        have ended : position = .returned ∧ (state.executed owner).Perm (jobsBelow other.numJobs) := by
          obtain current | closed := consistent.calls owner other position listed
          · exact unused_executed current (same ▸ unused)
          · exact ⟨closed.returned, closed.all⟩
        refine ⟨ended.1, executed ▸ ended.2, fun _ => ?_⟩
        rw [enter_memory, same, Function.update_self]
        exact Ne.symm earlier
      · obtain current | closed := consistent.calls owner other position listed
        · left
          apply current_kept current
          · rw [enter_memory, Function.update_of_ne same]
          · rw [enter_alive, Function.update_of_ne same]
          · exact executed
          · rw [crew, enter_frames, List.filterMap_append]
            exact List.append_nil _
          · rw [workers, enter_frames, List.countP_append]
            rfl
          · exact enter_active.mp
          · rintro ⟨place, frame, elsewhere, present, pointer⟩
            rw [enter_frames, List.getElem?_append] at present
            split at present
            · exact ⟨place, frame, elsewhere, present, pointer⟩
            · obtain rfl : frame = .caller call .setNumJobs := by
                have member := List.mem_of_getElem? present
                exact List.mem_singleton.mp member
              exact absurd (Option.some.inj pointer).symm same
        · right
          refine ⟨closed.returned, executed ▸ closed.all, fun used => ?_⟩
          rw [enter_memory, Function.update_of_ne same]
          exact closed.reused (usedBefore _ same used)
    · have last : owner = state.frames.length := by
        have inside := (List.getElem?_eq_some_iff.mp listed).1
        rw [List.length_singleton] at inside
        omega
      subst last
      rw [Nat.sub_self, List.getElem?_cons_zero, Option.some.injEq] at listed
      obtain ⟨rfl, rfl⟩ := Frame.caller.inj listed
      exact Or.inl (enter_current unused nonempty representable)
  case owned =>
    intro task used
    by_cases same : task = call.task
    · refine ⟨call, .setNumJobs, ?_, same.symm⟩
      rw [same, enter_memory, Function.update_self, enter_frames, List.getElem?_concat_length]
    · obtain ⟨other, position, listed, rfl⟩ := consistent.owned task (usedBefore task same used)
      refine ⟨other, position, ?_, rfl⟩
      rw [enter_memory, Function.update_of_ne same, enter_frames]
      exact List.getElem?_append_left (List.getElem?_eq_some_iff.mp listed).1 ▸ listed

/-- Writing other data into storage that nothing refers to keeps all books. -/
theorem overwrite_consistent {address : Address} {contents : Task} (consistent : state.Consistent)
    (unused : ¬ state.InUse address) : (state.store address fun _ => contents).Consistent := by
  have elsewhere : ∀ task, task ≠ address →
      (state.store address fun _ => contents).memory task = state.memory task := by
    intro task different
    rw [store_memory, Function.update_of_ne different]
  have activeBefore : ∀ task, (state.store address fun _ => contents).Active task →
      state.Active task := by
    intro task linked
    apply linked_of_agree _ linked
    intro here reached
    apply congrArg Task.next (elsewhere here _)
    rintro rfl
    exact unused (Or.inr (Or.inl reached))
  have usedBefore : ∀ task, (state.store address fun _ => contents).InUse task →
      state.InUse task := by
    rintro task (lives | linked | held)
    · exact Or.inl lives
    · exact Or.inr (Or.inl (activeBefore task linked))
    · exact Or.inr (Or.inr held)
  constructor
  case calls =>
    intro owner call position listed
    by_cases same : call.task = address
    · right
      have ended : position = .returned ∧ (state.executed owner).Perm (jobsBelow call.numJobs) := by
        obtain current | closed := consistent.calls owner call position listed
        · exact unused_executed current (same ▸ unused)
        · exact ⟨closed.returned, closed.all⟩
      exact ⟨ended.1, ended.2, fun used => absurd (same ▸ usedBefore _ used) unused⟩
    · obtain current | closed := consistent.calls owner call position listed
      · left
        exact current_kept current (elsewhere _ same) rfl rfl rfl rfl (activeBefore _) id
      · right
        refine ⟨closed.returned, closed.all, fun used => ?_⟩
        rw [elsewhere _ same]
        exact closed.reused (usedBefore _ used)
  case owned =>
    intro task used
    have before := usedBefore task used
    have different : task ≠ address := by
      rintro rfl
      exact unused before
    rw [elsewhere task different]
    exact consistent.owned task before

/-- A step that spares referenced storage keeps all books. -/
theorem perform_consistent {event : Event} (consistent : state.Consistent)
    (spaced : state.Spaced event) (performed : state.perform event = some next) :
    next.Consistent := by
  have unused : ∀ task, state.alive task = false → ¬ state.Active task → ¬ state.Held task →
      ¬ state.InUse task := by
    rintro task dead notLinked notHeld (lives | linked | held)
    · rw [dead] at lives
      cases lives
    · exact notLinked linked
    · exact notHeld held
  cases event with
  | parallelFor numJobs task =>
    simp only [perform, Option.ite_none_right_eq_some, Option.some.injEq] at performed
    obtain ⟨⟨_, _, dead⟩, rfl⟩ := performed
    obtain ⟨nonempty, representable, notLinked, notHeld⟩ := spaced
    apply enter_consistent consistent (unused task dead notLinked notHeld) nonempty
    dsimp only
    omega
  | schedule task =>
    simp only [perform, Option.ite_none_right_eq_some, Option.some.injEq] at performed
    obtain ⟨dead, rfl⟩ := performed
    obtain ⟨representable, notLinked, notHeld⟩ := spaced
    apply enter_consistent consistent (unused task dead notLinked notHeld) (Int.le_refl 1)
    dsimp only
    omega
  | overwrite address contents =>
    simp only [perform, Option.ite_none_right_eq_some, Option.some.injEq] at performed
    obtain ⟨dead, rfl⟩ := performed
    exact overwrite_consistent consistent (unused address dead spaced.1 spaced.2)
  | shutdown =>
    obtain rfl := Option.some.inj performed
    constructor
    case calls =>
      intro owner call position listed
      obtain current | closed := consistent.calls owner call position listed
      · exact Or.inl (current_kept current rfl rfl rfl rfl rfl id id)
      · exact Or.inr ⟨closed.returned, closed.all, closed.reused⟩
    case owned => exact consistent.owned
  | advance index => exact advance_consistent consistent performed

theorem initialized_consistent (memory : Address → Task) (numThreads : Nat) :
    (initialized memory numThreads).Consistent := by
  have onlyWorkers : ∀ frame, frame ∈ (initialized memory numThreads).frames →
      frame = .worker .getNextActiveTask := fun frame member => List.eq_of_mem_replicate member
  constructor
  case calls =>
    intro owner call position listed
    cases onlyWorkers _ (List.mem_of_getElem? listed)
  case owned =>
    rintro task (lives | linked | ⟨frame, member, pointer⟩)
    · cases lives
    · exact absurd linked not_linked_none
    · rw [onlyWorkers frame member] at pointer
      cases pointer

/-- Whoever works on a task is inside `workOnIt` of it or has yet to enter. -/
theorem inside_of_work {owner : Nat} {work : Work}
    (listed : state.frames[owner]? = some (.caller call position))
    (member : work ∈ (position.work call.kind).toList ++ state.crew call.task) :
    work = .claim 0 ∨ ∃ (index : Nat) (frame : Frame), state.frames[index]? = some frame ∧
      frame.inside call.task = some work := by
  rw [List.mem_append, Option.mem_toList] at member
  obtain mine | crew := member
  · cases position with
    | workOnIt busy =>
      obtain rfl : busy = work := Option.some.inj mine
      exact Or.inr ⟨owner, _, listed, if_pos rfl⟩
    | setNumJobs | setScheduled | link | wait =>
      left
      simp only [CallPosition.work, Option.ite_none_right_eq_some, Option.some.injEq] at mine
      exact mine.2.symm
    | _ => cases mine
  · obtain ⟨frame, member, working⟩ := List.mem_filterMap.mp crew
    obtain ⟨index, found⟩ := List.mem_iff_getElem?.mp member
    cases frame with
    | caller other place => cases working
    | worker place =>
      cases place with
      | fetched fetched =>
        left
        simp only [Frame.workOn, Option.ite_none_right_eq_some, Option.some.injEq] at working
        exact working.2.symm
      | workOnIt busy work => exact Or.inr ⟨index, _, found, working⟩
      | _ => cases working

theorem inside_advances {work : Work} (found : state.frames[index]? = some frame)
    (inside : frame.inside task = some work) : (state.advance index).isSome := by
  rw [advance, found]
  cases frame with
  | worker place =>
    cases place with
    | workOnIt busy work => rfl
    | _ => cases inside
  | caller call place =>
    cases place with
    | workOnIt work => rfl
    | _ => cases inside

/-- In every run of non-empty tasks that spares referenced storage: no job of a call runs
twice and no other index runs; `wait` is over only when all jobs have been run; a call
that has not returned has its object; the status of a call's object is set once all jobs
have been run and no thread is between running one of them and setting it; and while a
call is blocked, some thread can take a step on its task. -/
theorem jobs_run_once {state : TaskSys} (reached : Reachable Initial SpacedStep state)
    {index : Nat} {call : Call} {position : CallPosition}
    (listed : state.frames[index]? = some (.caller call position)) :
    (state.executed index).Nodup ∧
      (∀ job ∈ state.executed index, 0 ≤ job ∧ job < call.numJobs) ∧
      (call.kind = .parallelFor → position = .leave ∨ position = .returned →
        ∀ job, 0 ≤ job → job < call.numJobs → job ∈ state.executed index) ∧
      (position ≠ .returned → state.Lives index call) ∧
      (state.Lives index call →
        (∀ job, 0 ≤ job → job < call.numJobs → job ∈ state.executed index) →
        (∀ frame ∈ state.frames, ∀ work, frame.inside call.task = some work →
          work.uncounted = 0 ∧ work.publishing = false) →
        (state.memory call.task).status = .completed) ∧
      (position = .waitCompleted → (state.memory call.task).status ≠ .completed →
        ∃ (other : Nat) (frame : Frame) (work : Work), state.frames[other]? = some frame ∧
          frame.inside call.task = some work ∧ (state.advance other).isSome) := by
  have consistent : state.Consistent := by
    apply reachable_invariant _ _ reached
    · rintro origin ⟨memory, numThreads, rfl⟩
      exact initialized_consistent memory numThreads
    · rintro before after consistent ⟨event, spaced, performed⟩
      exact perform_consistent consistent spaced performed
  obtain current | closed := consistent.calls index call position listed
  · obtain ⟨distinct, within⟩ := current.balanced.executed_once
    refine ⟨distinct, within, ?_, ?_, ?_, ?_⟩
    · intro parallel past job nonnegative below
      have all := current.balanced.all_executed (current.left parallel past)
      exact all.mem_iff.mpr (mem_jobsBelow.mpr ⟨nonnegative, below⟩)
    · intro staying
      refine ⟨?_, current.owner⟩
      by_contra dead
      exact staying (current.dead (by simpa using dead)).2
    · intro _ all settled
      have quiet : ∀ work ∈ (position.work call.kind).toList ++ state.crew call.task,
          work.uncounted = 0 ∧ work.publishing = false := by
        intro work member
        obtain rfl | ⟨place, frame, found, inside⟩ := inside_of_work listed member
        · exact ⟨rfl, rfl⟩
        · exact settled frame (List.mem_of_getElem? found) work inside
      exact current.balanced.status_completed all (fun work member => (quiet work member).1)
        fun work member => (quiet work member).2
    · intro blocked waiting
      obtain ⟨work, member, busy⟩ :=
        current.balanced.someone_works (current.drawn blocked) waiting
      obtain idle | ⟨place, frame, found, inside⟩ := inside_of_work listed member
      · exact absurd idle busy
      · exact ⟨place, frame, work, found, inside, inside_advances found inside⟩
  · have distinct := closed.all.nodup_iff.mpr (jobsBelow_nodup call.numJobs)
    refine ⟨distinct, ?_, ?_, ?_, ?_, ?_⟩
    · intro job member
      exact mem_jobsBelow.mp (closed.all.mem_iff.mp member)
    · intro _ _ job nonnegative below
      exact closed.all.mem_iff.mpr (mem_jobsBelow.mpr ⟨nonnegative, below⟩)
    · exact fun staying => absurd closed.returned staying
    · rintro ⟨lives, owner⟩
      exact absurd owner (closed.reused (Or.inl lives))
    · intro blocked
      rw [closed.returned] at blocked
      cases blocked

/-- A loop of two jobs and one worker: the worker is inside the task, both jobs have been
run, and the caller is blocked until the worker has counted its job. -/
theorem jobs_run_once_twoJobs : ∃ state : TaskSys, state.frames[1]? =
      some (.caller { kind := .parallelFor, numJobs := 2, task := 0 } .waitCompleted) ∧
    state.executed 1 = [0, 1] ∧ (state.executed 1).Nodup ∧
    ∃ (other : Nat) (frame : Frame) (work : Work), state.frames[other]? = some frame ∧
      frame.inside 0 = some work ∧ (state.advance other).isSome := by
  let call : Call := { kind := .parallelFor, numJobs := 2, task := 0 }
  have notHeld : ¬ oneWorker.Held 0 := by
    rintro ⟨frame, member, pointer⟩
    obtain rfl : frame = .worker .getNextActiveTask := List.eq_of_mem_replicate member
    cases pointer
  have start : SpacedStep oneWorker (oneWorker.enter call) :=
    ⟨.parallelFor 2 0, ⟨by decide, by decide, not_linked_none, notHeld⟩, rfl⟩
  -- the caller links the task; the worker fetches it and claims and runs the first job
  let order : List Nat := [1, 1, 1, 0, 0, 0, 0, 0, 1, 1, 1, 1, 1, 1, 1, 1]
  have advances : ∀ (order : List Nat) (state last : TaskSys),
      order.foldlM advance state = some last →
        Relation.ReflTransGen SpacedStep state last := by
    intro order
    induction order with
    | nil =>
      intro state last done
      obtain rfl := Option.some.inj done
      exact .refl
    | cons index rest inductionHypothesis =>
      intro state last done
      obtain ⟨next, performed, onwards⟩ := Option.bind_eq_some_iff.mp done
      exact (inductionHypothesis next last onwards).head ⟨.advance index, trivial, performed⟩
  obtain ⟨last, done⟩ : ∃ last, order.foldlM advance (oneWorker.enter call) = some last :=
    Option.isSome_iff_exists.mp (by decide +kernel)
  have reached : Reachable Initial SpacedStep last :=
    ⟨oneWorker, ⟨_, _, rfl⟩, (advances order _ last done).head start⟩
  have result : (order.foldlM advance (oneWorker.enter call)).map
      (fun state => (state.frames[1]?, state.executed 1, (state.memory 0).status)) =
        some (some (.caller call .waitCompleted), [0, 1], .active) := by decide +kernel
  rw [done, Option.map_some, Option.some.injEq, Prod.mk.injEq, Prod.mk.injEq] at result
  obtain ⟨listed, executed, active⟩ := result
  obtain ⟨distinct, _, _, _, _, busy⟩ := jobs_run_once reached listed
  refine ⟨last, listed, executed, distinct, busy rfl ?_⟩
  rw [active]
  nofun

/-- A thread that has run the last job and not yet counted it leaves the status unset,
although nobody is between the counter and the status. An empty task has no job whose
completion would set its status, and its caller waits with no thread able to step. -/
theorem status_unset :
    (∃ state : TaskSys, Reachable Initial (Performs perform) state ∧
      state.frames = [.caller { kind := .parallelFor, numJobs := 1, task := 0 }
        (.workOnIt (.claim 1))] ∧
      state.executed 0 = [0] ∧
      (∀ frame ∈ state.frames, ∀ work, frame.inside 0 = some work → work.publishing = false) ∧
      (state.memory 0).status = .active) ∧
    ∃ state : TaskSys, Reachable Initial (Performs perform) state ∧
      state.frames = [.caller { kind := .parallelFor, numJobs := 0, task := 0 } .waitCompleted] ∧
      (state.memory 0).status = .active ∧ ∀ index, state.advance index = none := by
  let alone : TaskSys := initialized oneWorker.memory 0
  have runs : ∀ (events : List Event) (frames : List Frame) (executed : List Int),
      (events.foldlM perform alone).map
        (fun state => (state.frames, state.executed 0, (state.memory 0).status)) =
          some (frames, executed, .active) →
      ∃ state : TaskSys, Reachable Initial (Performs perform) state ∧ state.frames = frames ∧
        state.executed 0 = executed ∧ (state.memory 0).status = .active := by
    intro events frames executed result
    obtain ⟨state, performed, shown⟩ := Option.map_eq_some_iff.mp result
    obtain ⟨shows, showsExecuted, status⟩ := Prod.mk.inj shown |>.imp_right Prod.mk.inj
    exact ⟨state, ⟨alone, ⟨_, _, rfl⟩, calls_run performed⟩, shows, showsExecuted, status⟩
  constructor
  · obtain ⟨state, reached, frames, executed, status⟩ :=
      runs (.parallelFor 1 0 :: List.replicate 7 (.advance 0))
        [.caller { kind := .parallelFor, numJobs := 1, task := 0 } (.workOnIt (.claim 1))] [0]
        (by decide +kernel)
    refine ⟨state, reached, frames, executed, ?_, status⟩
    intro frame member work inside
    rw [frames, List.mem_singleton] at member
    subst member
    obtain rfl : .claim 1 = work := Option.some.inj inside
    rfl
  · obtain ⟨state, reached, frames, _, status⟩ :=
      runs (.parallelFor 0 0 :: List.replicate 6 (.advance 0))
        [.caller { kind := .parallelFor, numJobs := 0, task := 0 } .waitCompleted] []
        (by decide +kernel)
    refine ⟨state, reached, frames, status, ?_⟩
    intro index
    rw [advance, frames]
    cases index with
    | zero => simp [frameStep, callStep, status]
    | succ index => rfl

end TaskSys

end Ospray.Tasking
