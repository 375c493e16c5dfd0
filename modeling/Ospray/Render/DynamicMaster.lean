import Mathlib
import Ospray.Fb.Tile
import Ospray.Library.Runs

/-!
# The master of the dynamic load balancer

The master keeps one queue of tile tasks for each worker and answers each call
of `scheduleTile` with a task or with the notice that there are none left. A
worker whose own queue is empty is served from the largest one. The messages and
the call of `closeCurrentFrame` are recorded in the order they are made, so that
a statement about a moment is a statement about a prefix of the record.

Calls come from the preallocation loop and from the requests of the workers. The
workers are part of the second half of this module, where each of them sends a
request for each task it has finished.
-/

namespace Ospray

open Library.Runs

/-- A `TileTask` with a tile to render. -/
structure TileTask where
  tileId : Vec2i
  accumId : Int
deriving DecidableEq, Repr

/-- What the master answers: a task, or the flag `tilesExhausted`, next to which
the other fields of the message mean nothing. -/
inductive Answer where
  | tile (task : TileTask)
  | tilesExhausted
deriving DecidableEq, Repr

/-- `dynamicLoadBalancer::Master`, for `n` workers. The end of a list is the back
of the queue. -/
structure Master (n : Nat) where
  preferredTiles : Fin n → List TileTask
  workerNotified : Fin n → Bool

/-- What a call of `scheduleTile` does outside of the master. -/
inductive Effect (n : Nat) where
  | sendTo (worker : Fin n) (answer : Answer)
  | closeCurrentFrame
deriving DecidableEq

variable {n : Nat}

/-- `std::max_element` by size: the first of the largest queues. -/
def maxElement (queues : Fin n → List TileTask) (first : Fin n) : Fin n :=
  (List.finRange n).foldl (fun largest candidate =>
    if (queues largest).length < (queues candidate).length then candidate else largest) first

/-- The worker's preferred queue, or the largest one when that is empty. -/
def Master.chooseQueue (self : Master n) (worker : Fin n) : Fin n :=
  if (self.preferredTiles worker).isEmpty then maxElement self.preferredTiles ⟨0, worker.pos⟩
  else worker

/-- `pop_back` on one of the queues. -/
def Master.popBack (self : Master n) (queue : Fin n) : Master n :=
  { self with preferredTiles :=
      Function.update self.preferredTiles queue (self.preferredTiles queue).dropLast }

/-- `workerNotified[worker] = true`. -/
def Master.notify (self : Master n) (worker : Fin n) : Master n :=
  { self with workerNotified := Function.update self.workerNotified worker true }

/-- `Master::scheduleTile`. -/
def Master.scheduleTile (self : Master n) (worker : Fin n) : Master n × List (Effect n) :=
  if self.workerNotified worker then (self, [])
  else
    let queue := self.chooseQueue worker
    match (self.preferredTiles queue).getLast? with
    | none =>
      let notified := self.notify worker
      let closing :=
        if ∀ other, notified.workerNotified other = true then [.closeCurrentFrame] else []
      (notified, closing ++ [.sendTo worker .tilesExhausted])
    | some task => (self.popBack queue, [.sendTo worker (.tile task)])

/-- The tasks still queued. -/
def Master.remaining (self : Master n) : Multiset TileTask :=
  ∑ worker, (self.preferredTiles worker : Multiset TileTask)

/-- The tasks among the answers of a record, in order. -/
def handedOut (sent : List (Effect n)) : List TileTask :=
  sent.filterMap fun
    | .sendTo _ (.tile task) => some task
    | _ => none

theorem handedOut_append (first second : List (Effect n)) :
    handedOut (first ++ second) = handedOut first ++ handedOut second :=
  List.filterMap_append

/-- No queue is larger than the one `max_element` finds. The induction carries the
bound for the queues already looked at. -/
theorem maxElement_largest (queues : Fin n → List TileTask) (first other : Fin n) :
    (queues other).length ≤ (queues (maxElement queues first)).length := by
  have scan : ∀ (candidates : List (Fin n)) (largest : Fin n),
      let found := candidates.foldl (fun largest candidate =>
        if (queues largest).length < (queues candidate).length then candidate else largest) largest
      (queues largest).length ≤ (queues found).length ∧
        ∀ candidate ∈ candidates, (queues candidate).length ≤ (queues found).length := by
    intro candidates
    induction candidates with
    | nil => simp
    | cons head rest inductionHypothesis =>
      intro largest
      simp only [List.foldl_cons, List.mem_cons, forall_eq_or_imp]
      by_cases larger : (queues largest).length < (queues head).length
      · rw [if_pos larger]
        obtain ⟨fromHead, others⟩ := inductionHypothesis head
        exact ⟨larger.le.trans fromHead, fromHead, others⟩
      · rw [if_neg larger]
        obtain ⟨fromLargest, others⟩ := inductionHypothesis largest
        exact ⟨fromLargest, (Nat.not_lt.mp larger).trans fromLargest, others⟩
  exact (scan (List.finRange n) first).2 other (List.mem_finRange other)

theorem chooseQueue_empty (self : Master n) (worker : Fin n)
    (empty : self.preferredTiles (self.chooseQueue worker) = []) (other : Fin n) :
    self.preferredTiles other = [] := by
  unfold Master.chooseQueue at empty
  split at empty
  · have bound := maxElement_largest self.preferredTiles ⟨0, worker.pos⟩ other
    rw [empty] at bound
    exact List.length_eq_zero_iff.mp (Nat.le_zero.mp bound)
  · rename_i filled
    simp [empty] at filled

/-- Taking the last task of one queue takes it from the remaining tasks. -/
theorem remaining_pop (self : Master n) (queue : Fin n) (task : TileTask)
    (last : (self.preferredTiles queue).getLast? = some task) :
    self.remaining = task ::ₘ (self.popBack queue).remaining := by
  obtain ⟨front, whole⟩ := List.getLast?_eq_some_iff.mp last
  have split : (self.preferredTiles queue : Multiset TileTask) =
      task ::ₘ ((self.preferredTiles queue).dropLast : Multiset TileTask) := by
    rw [whole, List.dropLast_concat, ← Multiset.coe_add, add_comm]
    rfl
  unfold Master.remaining Master.popBack
  rw [← Finset.add_sum_erase _ _ (Finset.mem_univ queue),
    ← Finset.add_sum_erase _ _ (Finset.mem_univ queue), split]
  simp only [Function.update_self, Multiset.cons_add]
  congr 2
  refine Finset.sum_congr rfl ?_
  intro other apart
  rw [Function.update_of_ne (Finset.ne_of_mem_erase apart)]

/-- Every call does one of three things: nothing, for a notified worker; hand the
worker one of the remaining tasks; or, when none remains, notify it, closing the
frame first if it is the last one. -/
theorem scheduleTile_cases (self : Master n) (worker : Fin n) :
    (self.workerNotified worker = true ∧ self.scheduleTile worker = (self, [])) ∨
      (self.workerNotified worker = false ∧ ∃ queue task,
        self.remaining = task ::ₘ (self.popBack queue).remaining ∧
        self.scheduleTile worker = (self.popBack queue, [.sendTo worker (.tile task)])) ∨
      (self.workerNotified worker = false ∧ self.remaining = 0 ∧
        self.scheduleTile worker = (self.notify worker,
          (if ∀ other, (self.notify worker).workerNotified other = true
            then [.closeCurrentFrame] else []) ++ [.sendTo worker .tilesExhausted])) := by
  unfold Master.scheduleTile
  cases notified : self.workerNotified worker with
  | true => exact .inl ⟨rfl, rfl⟩
  | false =>
    refine .inr ?_
    simp only [Bool.false_eq_true, if_false, true_and]
    cases last : (self.preferredTiles (self.chooseQueue worker)).getLast? with
    | some task => exact .inl ⟨_, task, remaining_pop self _ task last, rfl⟩
    | none =>
      refine .inr ⟨?_, rfl⟩
      have empty := chooseQueue_empty self worker (List.getLast?_eq_none_iff.mp last)
      exact Finset.sum_eq_zero fun other _ => by rw [empty other]; rfl

/-- The master together with the record of what its calls have done. -/
structure Dispatch (n : Nat) where
  master : Master n
  sent : List (Effect n)

/-- One call of `scheduleTile`. -/
def Dispatch.call (self : Dispatch n) (worker : Fin n) : Dispatch n :=
  { master := (self.master.scheduleTile worker).1
    sent := self.sent ++ (self.master.scheduleTile worker).2 }

/-- A frame begins with the generated tasks in the queues and nobody notified. -/
def Dispatch.begin (preferredTiles : Fin n → List TileTask) : Dispatch n :=
  { master := { preferredTiles := preferredTiles, workerNotified := fun _ => false }, sent := [] }

/-- What holds between the tasks of a frame and the record, whatever calls were
made. The record is split at a notice to speak of the moment it was sent. -/
structure Distributes (tasks : Multiset TileTask) (dispatch : Dispatch n) : Prop where
  conserved : (handedOut dispatch.sent : Multiset TileTask) + dispatch.master.remaining = tasks
  notified : ∀ worker, dispatch.master.workerNotified worker = true ↔
    .sendTo worker .tilesExhausted ∈ dispatch.sent
  exhausted : ∀ worker before after, dispatch.sent = before ++ .sendTo worker .tilesExhausted :: after →
    (handedOut before : Multiset TileTask) = tasks ∧
      ∀ answer, .sendTo worker answer ∉ after
  closed : .closeCurrentFrame ∈ dispatch.sent ↔
    0 < n ∧ ∀ worker, dispatch.master.workerNotified worker = true
  closing : ∀ before after, dispatch.sent = before ++ .closeCurrentFrame :: after →
    (handedOut before : Multiset TileTask) = tasks ∧
      ∃ last, after = [.sendTo last .tilesExhausted] ∧
        ∀ other, other ≠ last → .sendTo other .tilesExhausted ∈ before

theorem append_split {α : Type} {first second before after : List α} {mark : α}
    (split : first ++ second = before ++ mark :: after) :
    (∃ rest, first = before ++ mark :: rest ∧ after = rest ++ second) ∨
      ∃ front, before = first ++ front ∧ second = front ++ mark :: after := by
  rcases List.append_eq_append_iff.mp split with ⟨front, before_eq, second_eq⟩ | ⟨rest, first_eq, rest_eq⟩
  · exact .inr ⟨front, before_eq, second_eq⟩
  · cases rest with
    | nil => exact .inr ⟨[], by simpa using first_eq.symm, by simpa using rest_eq.symm⟩
    | cons head rest =>
      obtain ⟨rfl, rfl⟩ := List.cons.inj rest_eq
      exact .inl ⟨rest, first_eq, rfl⟩

/-- The invariant holds when a frame begins: all tasks are queued, and the record
is empty. -/
theorem begin_distributes (preferredTiles : Fin n → List TileTask) :
    Distributes (∑ worker, (preferredTiles worker : Multiset TileTask))
      (Dispatch.begin preferredTiles) := by
  refine ⟨by simp [Dispatch.begin, handedOut, Master.remaining], ?_, ?_, ?_, ?_⟩
  · simp [Dispatch.begin]
  · simp [Dispatch.begin]
  · simp only [Dispatch.begin, List.not_mem_nil, Bool.false_eq_true, false_iff, not_and, not_forall]
    intro some
    exact ⟨⟨0, some⟩, not_false⟩
  · simp [Dispatch.begin]

/-- A call that hands out a task keeps the invariant. The worker was not notified
and no notice is recorded, so every notice in the record is an earlier one. -/
theorem handOut_distributes {tasks : Multiset TileTask} {self : Dispatch n}
    (distributes : Distributes tasks self) {worker queue : Fin n} {task : TileTask}
    (waiting : self.master.workerNotified worker = false)
    (taken : self.master.remaining = task ::ₘ (self.master.popBack queue).remaining) :
    Distributes tasks
      { master := self.master.popBack queue, sent := self.sent ++ [.sendTo worker (.tile task)] } := by
  obtain ⟨conserved, notified, exhausted, closed, closing⟩ := distributes
  refine ⟨?_, ?_, ?_, ?_, ?_⟩
  · rw [← conserved, taken, handedOut_append, ← Multiset.coe_add, add_assoc]
    congr 1
  · intro other
    simpa [Master.popBack] using notified other
  · intro other before after split
    rcases append_split split with ⟨rest, recorded, rfl⟩ | ⟨front, _, new⟩
    · obtain ⟨all, quiet⟩ := exhausted other before rest recorded
      refine ⟨all, ?_⟩
      have apart : worker ≠ other := by
        rintro rfl
        have told := (notified worker).mpr (by rw [recorded]; simp)
        rw [waiting] at told
        cases told
      intro answer
      simp [quiet answer, apart.symm]
    · have impossible : (Effect.sendTo other .tilesExhausted : Effect n) ∈
          [.sendTo worker (.tile task)] := by rw [new]; simp
      simp at impossible
  · simpa [Master.popBack] using closed
  · intro before after split
    rcases append_split split with ⟨rest, recorded, rfl⟩ | ⟨front, _, new⟩
    · have everyone := (closed.mp (by rw [recorded]; simp)).2 worker
      rw [waiting] at everyone
      cases everyone
    · have impossible : (Effect.closeCurrentFrame : Effect n) ∈
          [.sendTo worker (.tile task)] := by rw [new]; simp
      simp at impossible

/-- What a notifying call adds to the record: its notice comes last, and the frame
is closed before it exactly when the notice is the last one missing. -/
theorem notice_split {everyone : Prop} [Decidable everyone] {worker : Fin n}
    {front after : List (Effect n)} {mark : Effect n}
    (split : (if everyone then [Effect.closeCurrentFrame] else []) ++
      [.sendTo worker .tilesExhausted] = front ++ mark :: after) :
    (mark = .sendTo worker .tilesExhausted ∧ after = [] ∧ handedOut front = []) ∨
      (mark = .closeCurrentFrame ∧ everyone ∧ front = [] ∧
        after = [.sendTo worker .tilesExhausted]) := by
  by_cases all : everyone
  · simp only [all, if_true, List.cons_append, List.nil_append] at split
    rcases front with _ | ⟨head, front⟩
    · obtain ⟨rfl, rfl⟩ := List.cons.inj split
      exact .inr ⟨rfl, all, rfl, rfl⟩
    · obtain ⟨rfl, later⟩ := List.cons.inj split
      rcases front with _ | ⟨other, front⟩
      · obtain ⟨rfl, rfl⟩ := List.cons.inj later
        exact .inl ⟨rfl, rfl, rfl⟩
      · simp at later
  · simp only [all, if_false, List.nil_append] at split
    rcases front with _ | ⟨head, front⟩
    · obtain ⟨rfl, rfl⟩ := List.cons.inj split
      exact .inl ⟨rfl, rfl, rfl⟩
    · simp at split

/-- A call that notifies a worker keeps the invariant. Nothing is left to hand
out, and when it is the last notice, the frame is closed right before it. -/
theorem notify_distributes {tasks : Multiset TileTask} {self : Dispatch n}
    (distributes : Distributes tasks self) {worker : Fin n}
    (waiting : self.master.workerNotified worker = false)
    (empty : self.master.remaining = 0) :
    Distributes tasks
      { master := self.master.notify worker
        sent := self.sent ++ ((if ∀ other, (self.master.notify worker).workerNotified other = true
          then [.closeCurrentFrame] else []) ++ [.sendTo worker .tilesExhausted]) } := by
  obtain ⟨conserved, notified, exhausted, closed, closing⟩ := distributes
  have allOut : (handedOut self.sent : Multiset TileTask) = tasks := by
    rw [← conserved, empty, add_zero]
  have untold : ∀ other, self.master.workerNotified other = true → worker ≠ other := by
    rintro other told rfl
    rw [waiting] at told
    cases told
  have unclosed : Effect.closeCurrentFrame ∉ self.sent := by
    intro before
    exact untold worker ((closed.mp before).2 worker) rfl
  have updated : ∀ other, (self.master.notify worker).workerNotified other = true ↔
      other = worker ∨ self.master.workerNotified other = true := by
    intro other
    rcases eq_or_ne other worker with rfl | apart
    · simp [Master.notify]
    · simp [Master.notify, apart]
  refine ⟨?_, ?_, ?_, ?_, ?_⟩
  · have nothing : handedOut ((if ∀ other, (self.master.notify worker).workerNotified other = true
        then [.closeCurrentFrame] else []) ++ [.sendTo worker .tilesExhausted]) = [] := by
      split <;> rfl
    rw [handedOut_append, nothing, List.append_nil]
    exact conserved
  · intro other
    rw [updated, notified]
    simp only [List.mem_append, List.mem_singleton]
    split <;> simp [or_comm]
  · intro other before after split
    rcases append_split split with ⟨rest, recorded, rfl⟩ | ⟨front, rfl, new⟩
    · obtain ⟨all, quiet⟩ := exhausted other before rest recorded
      have apart := untold other ((notified other).mpr (by rw [recorded]; simp))
      refine ⟨all, ?_⟩
      intro answer
      simp only [List.mem_append, quiet answer, List.mem_singleton, Effect.sendTo.injEq,
        apart.symm, false_and, or_false, false_or]
      split_ifs <;> simp
    · rcases notice_split new with ⟨_, rfl, nothing⟩ | ⟨impossible, _⟩
      · refine ⟨?_, fun answer => List.not_mem_nil⟩
        rw [handedOut_append, nothing, List.append_nil]
        exact allOut
      · cases impossible
  · simp only [List.mem_append, unclosed, List.mem_singleton, reduceCtorEq, or_false, false_or]
    split_ifs with everyone
    · simp only [List.mem_singleton, true_iff]
      exact ⟨worker.pos, everyone⟩
    · simp only [List.not_mem_nil, false_iff]
      exact fun all => everyone all.2
  · intro before after split
    rcases append_split split with ⟨rest, recorded, _⟩ | ⟨front, rfl, new⟩
    · exact absurd (by rw [recorded]; simp) unclosed
    · rcases notice_split new with ⟨impossible, _⟩ | ⟨_, everyone, rfl, rfl⟩
      · cases impossible
      · rw [List.append_nil]
        refine ⟨allOut, worker, rfl, ?_⟩
        intro other apart
        exact (notified other).mp (((updated other).mp (everyone other)).resolve_left apart)

theorem call_distributes {tasks : Multiset TileTask} {self : Dispatch n}
    (distributes : Distributes tasks self) (worker : Fin n) :
    Distributes tasks (self.call worker) := by
  unfold Dispatch.call
  rcases scheduleTile_cases self.master worker with
    ⟨_, nothing⟩ | ⟨waiting, queue, task, taken, call⟩ | ⟨waiting, empty, call⟩
  · rw [nothing]
    simpa only [List.append_nil] using distributes
  · rw [call]
    exact handOut_distributes distributes waiting taken
  · rw [call]
    exact notify_distributes distributes waiting empty

theorem calls_distribute (preferredTiles : Fin n → List TileTask) (workers : List (Fin n)) :
    Distributes (∑ worker, (preferredTiles worker : Multiset TileTask))
      (workers.foldl Dispatch.call (.begin preferredTiles)) := by
  induction workers using List.reverseRecOn with
  | nil => exact begin_distributes preferredTiles
  | append_singleton earlier worker inductionHypothesis =>
    rw [List.foldl_append]
    exact call_distributes inductionHypothesis worker

/-- A frame being rendered: the dispatching master, the calls its preallocation loop
has yet to make, and for each worker the tasks it has been sent and not finished
and the requests of it that have not been handled. -/
structure Rendering (n : Nat) where
  dispatch : Dispatch n
  calls : List (Fin n)
  tasks : Fin n → Nat
  requests : Fin n → Nat

/-- Number of tasks a record sends to a worker. -/
def tilesFor (worker : Fin n) (sent : List (Effect n)) : Nat :=
  sent.countP fun
    | .sendTo receiver (.tile _) => receiver = worker
    | _ => false

/-- A call of `scheduleTile`, and the receiver's new task. -/
def Rendering.scheduleTile (self : Rendering n) (worker : Fin n) : Rendering n :=
  { self with
    dispatch := self.dispatch.call worker
    tasks := fun other =>
      self.tasks other + tilesFor other (self.dispatch.master.scheduleTile worker).2 }

/-- `Master::renderFrame` before its preallocation loop, which serves all workers
in each of its rounds. -/
def Rendering.start (preferredTiles : Fin n → List TileTask) (numPreAllocated : Nat) :
    Rendering n :=
  { dispatch := .begin preferredTiles
    calls := (List.range numPreAllocated).flatMap fun _ => List.finRange n
    tasks := fun _ => 0
    requests := fun _ => 0 }

/-- A request of the worker leaves the network. -/
def Rendering.receive (self : Rendering n) (worker : Fin n) : Rendering n :=
  { self with requests := Function.update self.requests worker (self.requests worker - 1) }

/-- `requestTile`, on the worker. -/
def Rendering.requestTile (self : Rendering n) (worker : Fin n) : Rendering n :=
  { self with requests := Function.update self.requests worker (self.requests worker + 1) }

/-- The worker is done with one of its tasks. -/
def Rendering.finish (self : Rendering n) (worker : Fin n) : Rendering n :=
  { self with tasks := Function.update self.tasks worker (self.tasks worker - 1) }

/-- The steps of a frame, in any order: the preallocation loop goes on, a request
is handled, or a worker finishes a task and sends a request. A worker that knows
there are no tiles left sends none. -/
inductive RenderStep : Rendering n → Rendering n → Prop where
  | preallocate (state : Rendering n) (worker : Fin n) (rest : List (Fin n))
      (next : state.calls = worker :: rest) :
      RenderStep state ({ state with calls := rest }.scheduleTile worker)
  | incoming (state : Rendering n) (worker : Fin n) (waiting : 0 < state.requests worker) :
      RenderStep state ((state.receive worker).scheduleTile worker)
  | tileTask (state : Rendering n) (worker : Fin n) (busy : 0 < state.tasks worker) :
      RenderStep state ((state.finish worker).requestTile worker)
  | lastTask (state : Rendering n) (worker : Fin n) (busy : 0 < state.tasks worker)
      (notified : state.dispatch.master.workerNotified worker = true) :
      RenderStep state (state.finish worker)

/-- A worker that has not been notified has its share of tasks, requests and
preallocation calls, one for each round of the loop. -/
def Outstanding (numPreAllocated : Nat) (state : Rendering n) : Prop :=
  ∀ worker, state.dispatch.master.workerNotified worker = false →
    state.tasks worker + state.requests worker + state.calls.count worker = numPreAllocated

/-- After a call the worker it was for has one more task, or has been notified;
nothing changes for the others. -/
theorem scheduleTile_serves (self : Rendering n) (worker other : Fin n)
    (still : (self.scheduleTile worker).dispatch.master.workerNotified other = false) :
    self.dispatch.master.workerNotified other = false ∧
      (self.scheduleTile worker).tasks other =
        self.tasks other + if other = worker then 1 else 0 := by
  simp only [Rendering.scheduleTile, Dispatch.call] at still ⊢
  rcases scheduleTile_cases self.dispatch.master worker with
    ⟨notified, nothing⟩ | ⟨waiting, queue, task, taken, call⟩ | ⟨waiting, empty, call⟩
  · rw [nothing] at still ⊢
    have apart : other ≠ worker := by
      rintro rfl
      rw [notified] at still
      cases still
    exact ⟨still, by simp [tilesFor, apart]⟩
  · rw [call] at still ⊢
    refine ⟨still, ?_⟩
    simp [tilesFor, eq_comm]
  · rw [call] at still ⊢
    have apart : other ≠ worker := by
      rintro rfl
      simp [Master.notify] at still
    simp only [Master.notify, Function.update_of_ne apart] at still
    refine ⟨still, ?_⟩
    rw [if_neg apart]
    split <;> simp [tilesFor]

theorem start_outstanding (preferredTiles : Fin n → List TileTask) (numPreAllocated : Nat) :
    Outstanding numPreAllocated (Rendering.start preferredTiles numPreAllocated) := by
  intro worker _
  have once : (List.finRange n).count worker = 1 :=
    List.count_eq_one_of_mem (List.nodup_finRange n) (List.mem_finRange worker)
  simp only [Rendering.start, List.count_flatMap, Function.comp_def, once]
  simp

/-- Every step keeps the share of each worker that is not notified. -/
theorem renderStep_outstanding {numPreAllocated : Nat} {state next : Rendering n}
    (outstanding : Outstanding numPreAllocated state) (moved : RenderStep state next) :
    Outstanding numPreAllocated next := by
  intro other still
  cases moved with
  | preallocate worker rest calls =>
    obtain ⟨before, served⟩ := scheduleTile_serves { state with calls := rest } worker other still
    have share := outstanding other before
    rw [calls] at share
    rw [served]
    simp only [Rendering.scheduleTile, List.count_cons, beq_iff_eq] at share ⊢
    split_ifs at share ⊢ <;> grind
  | incoming worker waiting =>
    obtain ⟨before, served⟩ := scheduleTile_serves (state.receive worker) worker other still
    have share := outstanding other before
    rw [served]
    simp only [Rendering.scheduleTile, Rendering.receive]
    rcases eq_or_ne other worker with rfl | apart
    · simp only [Function.update_self, if_true]
      omega
    · simp only [Function.update_of_ne apart, if_neg apart]
      omega
  | tileTask worker busy =>
    have share := outstanding other still
    simp only [Rendering.finish, Rendering.requestTile]
    rcases eq_or_ne other worker with rfl | apart
    · simp only [Function.update_self]
      omega
    · simpa only [Function.update_of_ne apart] using share
  | lastTask worker busy notified =>
    have share := outstanding other still
    have apart : other ≠ worker := by
      rintro rfl
      simp [Rendering.finish, notified] at still
    simpa only [Rendering.finish, Function.update_of_ne apart] using share

theorem renderStep_distributes {tasks : Multiset TileTask} {state next : Rendering n}
    (distributes : Distributes tasks state.dispatch) (moved : RenderStep state next) :
    Distributes tasks next.dispatch := by
  cases moved with
  | preallocate worker => exact call_distributes distributes worker
  | incoming worker => exact call_distributes distributes worker
  | tileTask => exact distributes
  | lastTask => exact distributes

/-- Work left in a frame. A task weighs three while it is queued, two once it has
been sent and one as the request that follows it. -/
def Rendering.work (self : Rendering n) : Nat :=
  3 * self.dispatch.master.remaining.card +
    ∑ worker, (2 * self.tasks worker + self.requests worker) + self.calls.length

/-- A call of `scheduleTile` by itself never adds work. -/
theorem scheduleTile_work (self : Rendering n) (worker : Fin n) :
    (self.scheduleTile worker).work ≤ self.work := by
  have weight : 3 * (self.dispatch.call worker).master.remaining.card +
      ∑ other, 2 * tilesFor other (self.dispatch.master.scheduleTile worker).2 ≤
      3 * self.dispatch.master.remaining.card := by
    unfold Dispatch.call
    rcases scheduleTile_cases self.dispatch.master worker with
      ⟨_, nothing⟩ | ⟨_, queue, task, taken, call⟩ | ⟨_, _, call⟩
    · rw [nothing]
      simp [tilesFor]
    · rw [call, taken, Multiset.card_cons]
      have receiver : ∑ other, 2 * tilesFor other [Effect.sendTo worker (.tile task)] = 2 := by
        simp [tilesFor, List.countP_cons, Finset.sum_ite_eq]
      simp only [receiver]
      omega
    · rw [call]
      have nobody : ∀ other : Fin n, tilesFor other
          ((if ∀ other, (self.dispatch.master.notify worker).workerNotified other = true
            then [Effect.closeCurrentFrame] else []) ++ [.sendTo worker .tilesExhausted]) = 0 := by
        intro other
        split <;> simp [tilesFor]
      simp only [nobody, mul_zero, Finset.sum_const_zero, add_zero]
      exact le_rfl
  have sums : ∑ other, (2 * (self.scheduleTile worker).tasks other +
      (self.scheduleTile worker).requests other) =
      ∑ other, (2 * self.tasks other + self.requests other) +
        ∑ other, 2 * tilesFor other (self.dispatch.master.scheduleTile worker).2 := by
    rw [← Finset.sum_add_distrib]
    refine Finset.sum_congr rfl ?_
    intro other _
    simp only [Rendering.scheduleTile]
    ring
  unfold Rendering.work
  rw [sums]
  simp only [Rendering.scheduleTile]
  omega

/-- Every step of a frame lowers the work left in it. -/
theorem renderStep_lowers (state next : Rendering n) (moved : RenderStep state next) :
    next.work < state.work := by
  cases moved with
  | preallocate worker rest calls =>
    refine (scheduleTile_work _ worker).trans_lt ?_
    simp [Rendering.work, calls]
  | incoming worker waiting =>
    refine (scheduleTile_work _ worker).trans_lt ?_
    have fewer : ∑ other, (2 * (state.receive worker).tasks other +
        (state.receive worker).requests other) <
        ∑ other, (2 * state.tasks other + state.requests other) := by
      refine Finset.sum_lt_sum ?_ ⟨worker, Finset.mem_univ worker, ?_⟩
      · intro other _
        rcases eq_or_ne other worker with rfl | apart
        · simp [Rendering.receive]
        · simp [Rendering.receive, apart]
      · simp only [Rendering.receive, Function.update_self]
        omega
    simp only [Rendering.work, Rendering.receive] at fewer ⊢
    omega
  | tileTask worker busy =>
    have fewer : ∑ other, (2 * ((state.finish worker).requestTile worker).tasks other +
        ((state.finish worker).requestTile worker).requests other) <
        ∑ other, (2 * state.tasks other + state.requests other) := by
      refine Finset.sum_lt_sum ?_ ⟨worker, Finset.mem_univ worker, ?_⟩
      · intro other _
        rcases eq_or_ne other worker with rfl | apart
        · simp only [Rendering.requestTile, Rendering.finish, Function.update_self]
          omega
        · simp [Rendering.requestTile, Rendering.finish, apart]
      · simp only [Rendering.requestTile, Rendering.finish, Function.update_self]
        omega
    simp only [Rendering.work, Rendering.requestTile, Rendering.finish] at fewer ⊢
    omega
  | lastTask worker busy notified =>
    have fewer : ∑ other, (2 * (state.finish worker).tasks other +
        (state.finish worker).requests other) <
        ∑ other, (2 * state.tasks other + state.requests other) := by
      refine Finset.sum_lt_sum ?_ ⟨worker, Finset.mem_univ worker, ?_⟩
      · intro other _
        rcases eq_or_ne other worker with rfl | apart
        · simp only [Rendering.finish, Function.update_self]
          omega
        · simp [Rendering.finish, apart]
      · simp only [Rendering.finish, Function.update_self]
        omega
    simp only [Rendering.work, Rendering.finish] at fewer ⊢
    omega

/-- Where no step is possible, every worker has been notified: one that has not
would still have a task, a request or a preallocation call. -/
theorem terminal_notified {numPreAllocated : Nat} {state : Rendering n}
    (outstanding : Outstanding numPreAllocated state) (some : 1 ≤ numPreAllocated)
    (stuck : Terminal RenderStep state) (worker : Fin n) :
    state.dispatch.master.workerNotified worker = true := by
  cases notified : state.dispatch.master.workerNotified worker with
  | true => rfl
  | false =>
    have share := outstanding worker notified
    have noTask : state.tasks worker = 0 := by
      by_contra busy
      exact stuck _ (.tileTask state worker (Nat.pos_of_ne_zero busy))
    have noRequest : state.requests worker = 0 := by
      by_contra waiting
      exact stuck _ (.incoming state worker (Nat.pos_of_ne_zero waiting))
    have noCall : state.calls = [] := by
      by_contra more
      obtain ⟨next, rest, calls⟩ := List.exists_cons_of_ne_nil more
      exact stuck _ (.preallocate state next rest calls)
    simp only [noTask, noRequest, noCall, List.count_nil] at share
    omega

/-- The master under any sequence of calls, and in a whole frame. Whatever calls
are made, the record conserves the tasks, and notices and the closing of the
frame stand where they should. In a frame with preallocation, a worker that has
not been notified has a task or a request outstanding from its first
preallocation call on, so the frame always goes on to where the last worker is
notified and the frame is closed. -/
theorem dynamicMaster_distributes (preferredTiles : Fin n → List TileTask) :
    (∀ workers : List (Fin n),
      Distributes (∑ worker, (preferredTiles worker : Multiset TileTask))
        (workers.foldl Dispatch.call (.begin preferredTiles))) ∧
      ∀ numPreAllocated, 1 ≤ numPreAllocated → ∀ state : Rendering n,
        Reachable (· = .start preferredTiles numPreAllocated) RenderStep state →
        Distributes (∑ worker, (preferredTiles worker : Multiset TileTask)) state.dispatch ∧
          (∀ worker, state.dispatch.master.workerNotified worker = false →
            (worker ∈ state.calls ∨ 0 < state.tasks worker + state.requests worker) ∧
            (state.calls.count worker < numPreAllocated →
              0 < state.tasks worker + state.requests worker)) ∧
          ∃ last, Relation.ReflTransGen RenderStep state last ∧ Terminal RenderStep last ∧
            (∀ worker, last.dispatch.master.workerNotified worker = true) ∧
            (0 < n → .closeCurrentFrame ∈ last.dispatch.sent) := by
  refine ⟨calls_distribute preferredTiles, ?_⟩
  intro numPreAllocated some state reached
  have invariant : ∀ state, Reachable (· = .start preferredTiles numPreAllocated) RenderStep state →
      Distributes (∑ worker, (preferredTiles worker : Multiset TileTask)) state.dispatch ∧
        Outstanding numPreAllocated state := by
    have initially : ∀ state : Rendering n, state = .start preferredTiles numPreAllocated →
        Distributes (∑ worker, (preferredTiles worker : Multiset TileTask)) state.dispatch ∧
          Outstanding numPreAllocated state := by
      rintro _ rfl
      exact ⟨begin_distributes preferredTiles, start_outstanding preferredTiles numPreAllocated⟩
    intro state reached
    refine reachable_invariant initially ?_ reached
    rintro before after ⟨distributes, outstanding⟩ moved
    exact ⟨renderStep_distributes distributes moved, renderStep_outstanding outstanding moved⟩
  obtain ⟨distributes, outstanding⟩ := invariant state reached
  refine ⟨distributes, ?_, ?_⟩
  · intro worker waiting
    have share := outstanding worker waiting
    constructor
    · rcases Nat.eq_zero_or_pos (state.calls.count worker) with none | more
      · exact .inr (by omega)
      · exact .inl (List.count_pos_iff.mp more)
    · intro begun
      omega
  · obtain ⟨last, run, stuck⟩ := terminal_reachable Rendering.work renderStep_lowers state
    obtain ⟨lastDistributes, lastOutstanding⟩ := invariant last (reachable_run reached run)
    have everyone := terminal_notified lastOutstanding some stuck
    exact ⟨last, run, stuck, everyone, fun workers => lastDistributes.closed.mpr ⟨workers, everyone⟩⟩

/-- One tile and two workers, one of which steals from the other's queue or is told
at once that there is nothing left. -/
theorem dynamicMaster_distributes_two_workers :
    ∃ last : Rendering 2,
      Relation.ReflTransGen RenderStep
        (.start (fun worker => if worker = 0 then [⟨⟨0, 0⟩, 0⟩] else []) 1) last ∧
      Terminal RenderStep last ∧ .closeCurrentFrame ∈ last.dispatch.sent := by
  obtain ⟨_, _, last, run, stuck, _, closed⟩ :=
    (dynamicMaster_distributes (n := 2) (fun worker => if worker = 0 then [⟨⟨0, 0⟩, 0⟩] else [])).2
      1 le_rfl _ (reachable_start rfl)
  exact ⟨last, run, stuck, closed (by decide)⟩

end Ospray
