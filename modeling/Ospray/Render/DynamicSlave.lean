import Mathlib
import Ospray.Render.DynamicMaster

/-!
# The worker of the dynamic load balancer

The worker's message handler runs in one thread, which delivers the answers of
the master one after another but not in the order they were sent. It updates a
counter and a flag under the mutex, releases it, and then reads the flag again to
decide whether the tile is scheduled. The scheduled tiles are rendered by other
threads, which lower the counter when they are done.

A state keeps what the handler and the tasking system have in hand, next to the
tasks that were ever scheduled and executed, so that both can be compared with
the tasks the master sent.
-/

namespace Ospray

open Library.Runs

/-- The counters of `dynamicLoadBalancer::Slave`. -/
structure Slave where
  tilesScheduled : Int
  tilesAvailable : Bool
deriving DecidableEq, Repr

/-- One frame on a worker: the answers still to be delivered, in the order of
delivery; the one the handler is dealing with; the tasks waiting for a thread;
and those rendered but not yet subtracted from the counter. -/
structure SlaveFrame where
  slave : Slave
  undelivered : List Answer
  handling : Option Answer
  waiting : Multiset TileTask
  finishing : Multiset TileTask
  /-- Every task that `tasking::schedule` has been called for. -/
  scheduled : Multiset TileTask
  /-- Every task that has been rendered and set. -/
  executed : Multiset TileTask

/-- `Slave::renderFrame` up to its wait. -/
def SlaveFrame.renderFrame (deliveries : List Answer) : SlaveFrame :=
  { slave := { tilesScheduled := 0, tilesAvailable := true }
    undelivered := deliveries, handling := none
    waiting := 0, finishing := 0, scheduled := 0, executed := 0 }

/-- The part of `Slave::incoming` under the mutex. -/
def Slave.receive (self : Slave) : Answer → Slave
  | .tilesExhausted => { self with tilesAvailable := false }
  | .tile _ => { self with tilesScheduled := self.tilesScheduled + 1 }

/-- The part of `Slave::incoming` after the mutex is released: the flag decides
whether the task is scheduled. -/
def SlaveFrame.dispatch (self : SlaveFrame) (answer : Answer) : SlaveFrame :=
  match answer with
  | .tile task =>
    if self.slave.tilesAvailable then
      { self with handling := none, waiting := task ::ₘ self.waiting
                  scheduled := task ::ₘ self.scheduled }
    else { self with handling := none }
  | .tilesExhausted => { self with handling := none }

/-- The predicate `renderFrame` waits for. -/
def SlaveFrame.Ready (self : SlaveFrame) : Prop :=
  self.slave.tilesScheduled = 0 ∧ self.slave.tilesAvailable = false

/-- The steps of a worker, interleaved in any way: the handler takes the next
answer, finishes with it, a thread renders a scheduled task and sets its tile, or
a thread that has done so counts it. -/
inductive SlaveStep : SlaveFrame → SlaveFrame → Prop where
  | receive (state : SlaveFrame) (answer : Answer) (rest : List Answer)
      (idle : state.handling = none) (next : state.undelivered = answer :: rest) :
      SlaveStep state { state with
        slave := state.slave.receive answer, undelivered := rest, handling := some answer }
  | dispatch (state : SlaveFrame) (answer : Answer) (taken : state.handling = some answer) :
      SlaveStep state (state.dispatch answer)
  | tileTask (state : SlaveFrame) (task : TileTask) (others : Multiset TileTask)
      (chosen : state.waiting = task ::ₘ others) :
      SlaveStep state { state with
        waiting := others, finishing := task ::ₘ state.finishing
        executed := task ::ₘ state.executed }
  | retire (state : SlaveFrame) (task : TileTask) (others : Multiset TileTask)
      (chosen : state.finishing = task ::ₘ others) :
      SlaveStep state { state with
        slave := { state.slave with tilesScheduled := state.slave.tilesScheduled - 1 }
        finishing := others }

/-- The tasks among some answers. -/
def tileTasks (answers : List Answer) : List TileTask :=
  answers.filterMap fun
    | .tile task => some task
    | .tilesExhausted => none

@[simp] theorem tileTasks_nil : tileTasks [] = [] := rfl

@[simp] theorem tileTasks_tile (task : TileTask) (rest : List Answer) :
    tileTasks (.tile task :: rest) = task :: tileTasks rest := rfl

@[simp] theorem tileTasks_tilesExhausted (rest : List Answer) :
    tileTasks (.tilesExhausted :: rest) = tileTasks rest := rfl

@[simp] theorem tileTasks_map (tasks : List TileTask) (rest : List Answer) :
    tileTasks (tasks.map .tile ++ rest) = tasks ++ tileTasks rest := by
  induction tasks with
  | nil => rfl
  | cons task tasks inductionHypothesis => simp [inductionHypothesis]

/-- States of a frame whose answers are delivered in the given order. -/
def DeliveredAs (deliveries : List Answer) (state : SlaveFrame) : Prop :=
  Reachable (· = .renderFrame deliveries) SlaveStep state

/-- What the worker owes the master for a delivery order: no task is executed or
scheduled more often than it was sent; between two calls of the handler each
delivered task has been scheduled exactly once; the wait is over only when every
task has been executed; and the frame always goes on to that point. -/
structure ExecutesAll (tasks : Multiset TileTask) (deliveries : List Answer) : Prop where
  atMostOnce : ∀ state, DeliveredAs deliveries state →
    state.executed ≤ state.scheduled ∧ state.scheduled ≤ tasks
  scheduledOnce : ∀ state, DeliveredAs deliveries state → state.handling = none →
    state.scheduled + (tileTasks state.undelivered : Multiset TileTask) = tasks
  waits : ∀ state, DeliveredAs deliveries state → state.Ready → state.executed = tasks
  finishes : ∀ state, DeliveredAs deliveries state →
    ∃ last, Relation.ReflTransGen SlaveStep state last ∧ last.Ready ∧ last.executed = tasks

/-- A state before the notice has been received: the tasks scheduled, the one in
hand and those delivered before the notice are the ones sent before it, and the
counter counts what is not finished. -/
structure Serving (before after : List TileTask) (state : SlaveFrame) : Prop where
  available : state.slave.tilesAvailable = true
  noNotice : state.handling ≠ some .tilesExhausted
  remaining : ∃ rest : List TileTask,
    state.undelivered = rest.map .tile ++ .tilesExhausted :: after.map .tile ∧
      state.scheduled + (tileTasks state.handling.toList : Multiset TileTask) + rest = before
  counted : state.slave.tilesScheduled = state.waiting.card + state.finishing.card +
    (tileTasks state.handling.toList).length

/-- A state after the notice has been received: nothing more is scheduled, but the
counter counts every task delivered since. -/
structure Exhausted (before after : List TileTask) (state : SlaveFrame) : Prop where
  unavailable : state.slave.tilesAvailable = false
  stopped : state.scheduled = before
  remaining : ∃ passed rest : List TileTask, after = passed ++ rest ∧
    state.undelivered = rest.map .tile ∧
      state.slave.tilesScheduled = state.waiting.card + state.finishing.card + passed.length

/-- Scheduled tasks wait or have been executed, and the frame is in one of its two
phases. -/
structure Accounted (before after : List TileTask) (state : SlaveFrame) : Prop where
  scheduled : state.scheduled = state.waiting + state.executed
  phase : Serving before after state ∨ Exhausted before after state

theorem renderFrame_accounted (before after : List TileTask) :
    Accounted before after
      (.renderFrame (before.map .tile ++ .tilesExhausted :: after.map .tile)) := by
  refine ⟨rfl, .inl ⟨rfl, nofun, ⟨before, rfl, ?_⟩, rfl⟩⟩
  simp [SlaveFrame.renderFrame, tileTasks]

/-- Receiving an answer counts a task or begins the second phase. -/
theorem receive_accounted {before after : List TileTask} {state : SlaveFrame} {answer : Answer}
    {rest : List Answer} (accounted : Accounted before after state)
    (idle : state.handling = none) (next : state.undelivered = answer :: rest) :
    Accounted before after { state with
      slave := state.slave.receive answer, undelivered := rest, handling := some answer } := by
  refine ⟨accounted.scheduled, ?_⟩
  rcases accounted.phase with
    ⟨available, _, ⟨left, undelivered, sent⟩, counted⟩ | ⟨unavailable, stopped, passed, left, whole,
      undelivered, counted⟩
  · rw [idle] at sent counted
    simp only [Option.toList_none, tileTasks_nil, Multiset.coe_nil, add_zero,
      List.length_nil, Nat.cast_zero] at sent counted
    rw [undelivered] at next
    cases left with
    | nil =>
      obtain ⟨rfl, rfl⟩ := List.cons.inj next
      refine .inr ⟨rfl, ?_, [], after, rfl, rfl, ?_⟩
      · simpa using sent
      · simpa [Slave.receive] using counted
    | cons task left =>
      obtain ⟨rfl, rfl⟩ := List.cons.inj next
      refine .inl ⟨available, by simp, ⟨left, rfl, ?_⟩, ?_⟩
      · rw [← sent]
        simp [add_assoc]
      · simpa [Slave.receive] using counted
  · cases left with
    | nil => simp [undelivered] at next
    | cons task left =>
      rw [undelivered] at next
      obtain ⟨rfl, rfl⟩ := List.cons.inj next
      refine .inr ⟨unavailable, stopped, passed ++ [task], left, by simp [whole], rfl, ?_⟩
      simp only [Slave.receive, counted, List.length_append, List.length_singleton]
      push_cast
      ring

/-- The handler's second half schedules the task in hand in the first phase, and
drops it in the second. -/
theorem dispatch_accounted {before after : List TileTask} {state : SlaveFrame} {answer : Answer}
    (accounted : Accounted before after state) (taken : state.handling = some answer) :
    Accounted before after (state.dispatch answer) := by
  obtain ⟨scheduled, phase⟩ := accounted
  rcases phase with
    ⟨available, noNotice, ⟨left, undelivered, sent⟩, counted⟩ | ⟨unavailable, stopped, passed, left,
      whole, undelivered, counted⟩
  · cases answer with
    | tilesExhausted => exact absurd taken noNotice
    | tile task =>
      rw [taken] at sent counted
      simp only [SlaveFrame.dispatch, available, if_true]
      refine ⟨by simp [scheduled], .inl ⟨available, nofun, ⟨left, undelivered, ?_⟩, ?_⟩⟩
      · rw [← sent]
        simp only [Option.toList_some, Option.toList_none, tileTasks_tile, tileTasks_nil,
          Multiset.coe_nil, add_zero, Multiset.coe_singleton, ← Multiset.singleton_add]
        abel
      · simp only [counted, Option.toList_some, Option.toList_none, tileTasks_tile, tileTasks_nil,
          List.length_singleton, List.length_nil, Multiset.card_cons]
        push_cast
        ring
  · cases answer with
    | tilesExhausted =>
      exact ⟨scheduled, .inr ⟨unavailable, stopped, passed, left, whole, undelivered, counted⟩⟩
    | tile task =>
      simp only [SlaveFrame.dispatch, unavailable, Bool.false_eq_true, if_false]
      exact ⟨scheduled, .inr ⟨unavailable, stopped, passed, left, whole, undelivered, counted⟩⟩

/-- Rendering moves a task on; the counter does not notice. -/
theorem tileTask_accounted {before after : List TileTask} {state : SlaveFrame} {task : TileTask}
    {others : Multiset TileTask} (accounted : Accounted before after state)
    (chosen : state.waiting = task ::ₘ others) :
    Accounted before after { state with
      waiting := others, finishing := task ::ₘ state.finishing
      executed := task ::ₘ state.executed } := by
  obtain ⟨scheduled, phase⟩ := accounted
  refine ⟨by rw [scheduled, chosen, Multiset.cons_add, Multiset.add_cons], ?_⟩
  rcases phase with
    ⟨available, noNotice, remaining, counted⟩ | ⟨unavailable, stopped, passed, left, whole,
      undelivered, counted⟩
  · refine .inl ⟨available, noNotice, remaining, ?_⟩
    simp only [counted, chosen, Multiset.card_cons]
    push_cast
    ring
  · refine .inr ⟨unavailable, stopped, passed, left, whole, undelivered, ?_⟩
    simp only [counted, chosen, Multiset.card_cons]
    push_cast
    ring

/-- A rendered task is subtracted from the counter once. -/
theorem retire_accounted {before after : List TileTask} {state : SlaveFrame} {task : TileTask}
    {others : Multiset TileTask} (accounted : Accounted before after state)
    (chosen : state.finishing = task ::ₘ others) :
    Accounted before after { state with
      slave := { state.slave with tilesScheduled := state.slave.tilesScheduled - 1 }
      finishing := others } := by
  obtain ⟨scheduled, phase⟩ := accounted
  refine ⟨scheduled, ?_⟩
  rcases phase with
    ⟨available, noNotice, remaining, counted⟩ | ⟨unavailable, stopped, passed, left, whole,
      undelivered, counted⟩
  · refine .inl ⟨available, noNotice, remaining, ?_⟩
    simp only [counted, chosen, Multiset.card_cons]
    push_cast
    ring
  · refine .inr ⟨unavailable, stopped, passed, left, whole, undelivered, ?_⟩
    simp only [counted, chosen, Multiset.card_cons]
    push_cast
    ring

theorem delivered_accounted {before after : List TileTask} {state : SlaveFrame}
    (delivered : DeliveredAs (before.map .tile ++ .tilesExhausted :: after.map .tile) state) :
    Accounted before after state := by
  refine reachable_invariant ?_ ?_ delivered
  · rintro _ rfl
    exact renderFrame_accounted before after
  · intro state next accounted moved
    cases moved with
    | receive answer rest idle next => exact receive_accounted accounted idle next
    | dispatch answer taken => exact dispatch_accounted accounted taken
    | tileTask task others chosen => exact tileTask_accounted accounted chosen
    | retire task others chosen => exact retire_accounted accounted chosen

/-- The steps a frame still needs: four for an answer not delivered, three for the
one in hand, two for a waiting task and one for a rendered one. -/
def SlaveFrame.work (self : SlaveFrame) : Nat :=
  4 * self.undelivered.length + 3 * self.handling.toList.length + 2 * self.waiting.card +
    self.finishing.card

theorem slaveStep_lowers (state next : SlaveFrame) (moved : SlaveStep state next) :
    next.work < state.work := by
  cases moved with
  | receive answer rest idle next =>
    simp [SlaveFrame.work, idle, next]
    omega
  | dispatch answer taken =>
    unfold SlaveFrame.dispatch
    split
    · split
      · simp [SlaveFrame.work, taken]
        omega
      · simp [SlaveFrame.work, taken]
    · simp [SlaveFrame.work, taken]
  | tileTask task others chosen =>
    simp [SlaveFrame.work, chosen]
    omega
  | retire task others chosen => simp [SlaveFrame.work, chosen]

/-- Where no step is possible, nothing is left to deliver, dispatch, render or
retire. -/
theorem terminal_idle {state : SlaveFrame} (stuck : Terminal SlaveStep state) :
    state.undelivered = [] ∧ state.handling = none ∧ state.waiting = 0 ∧ state.finishing = 0 := by
  have idle : state.handling = none := by
    cases taken : state.handling with
    | none => rfl
    | some answer => exact absurd (.dispatch state answer taken) (stuck _)
  refine ⟨?_, idle, ?_, ?_⟩
  · cases next : state.undelivered with
    | nil => rfl
    | cons answer rest => exact absurd (.receive state answer rest idle next) (stuck _)
  · by_contra some
    obtain ⟨task, member⟩ := Multiset.exists_mem_of_ne_zero some
    obtain ⟨others, chosen⟩ := Multiset.exists_cons_of_mem member
    exact stuck _ (.tileTask state task others chosen)
  · by_contra some
    obtain ⟨task, member⟩ := Multiset.exists_mem_of_ne_zero some
    obtain ⟨others, chosen⟩ := Multiset.exists_cons_of_mem member
    exact stuck _ (.retire state task others chosen)

/-- Once the notice has come last, all tasks have been scheduled when the counter
is down to zero, and none of them is waiting. -/
theorem accounted_ready {before : List TileTask} {state : SlaveFrame}
    (accounted : Accounted before [] state) (ready : state.Ready) : state.executed = before := by
  rcases accounted.phase with serving | ⟨_, stopped, passed, left, whole, _, counted⟩
  · exact absurd (serving.available.symm.trans ready.2) (by decide)
  · obtain ⟨rfl, rfl⟩ := List.append_eq_nil_iff.mp whole.symm
    have none : state.waiting.card = 0 := by
      have zero := ready.1
      rw [counted] at zero
      simp only [List.length_nil, Nat.cast_zero, add_zero] at zero
      omega
    rw [← stopped, accounted.scheduled, Multiset.card_eq_zero.mp none, zero_add]

theorem accounted_scheduled {before : List TileTask} {state : SlaveFrame}
    (accounted : Accounted before [] state) (idle : state.handling = none) :
    state.scheduled + (tileTasks state.undelivered : Multiset TileTask) = before := by
  rcases accounted.phase with
    ⟨_, _, ⟨left, undelivered, sent⟩, _⟩ | ⟨_, stopped, passed, left, whole, undelivered, _⟩
  · rw [undelivered, ← sent, idle]
    simp
  · obtain ⟨rfl, rfl⟩ := List.append_eq_nil_iff.mp whole.symm
    rw [undelivered, stopped]
    simp

theorem accounted_bounds {before after : List TileTask} {state : SlaveFrame}
    (accounted : Accounted before after state) :
    state.executed ≤ state.scheduled ∧ state.scheduled ≤ before := by
  refine ⟨accounted.scheduled ▸ Multiset.le_add_left _ _, ?_⟩
  rcases accounted.phase with ⟨_, _, ⟨left, _, sent⟩, _⟩ | exhausted
  · rw [← sent, add_assoc]
    exact Multiset.le_add_right _ _
  · exact exhausted.stopped.le

/-- At the end of a frame the tasks sent before the notice have been scheduled and
executed, and those that came after it are counted for ever. -/
theorem accounted_terminal {before after : List TileTask} {state : SlaveFrame}
    (accounted : Accounted before after state) (stuck : Terminal SlaveStep state) :
    state.scheduled = before ∧ state.executed = before ∧
      state.slave = { tilesScheduled := after.length, tilesAvailable := false } := by
  obtain ⟨delivered, _, waiting, finishing⟩ := terminal_idle stuck
  rcases accounted.phase with
    ⟨_, _, ⟨left, undelivered, _⟩, _⟩ | ⟨unavailable, stopped, passed, left, whole, undelivered,
      counted⟩
  · rw [delivered] at undelivered
    simp at undelivered
  · rw [delivered] at undelivered
    obtain rfl := List.map_eq_nil_iff.mp undelivered.symm
    refine ⟨stopped, ?_, ?_⟩
    · rw [← stopped, accounted.scheduled, waiting, zero_add]
    · rw [List.append_nil] at whole
      rw [waiting, finishing, ← whole] at counted
      have fields : state.slave = ⟨state.slave.tilesScheduled, state.slave.tilesAvailable⟩ := rfl
      rw [fields, counted, unavailable]
      simp

/-- The answers to a worker are its tasks and one notice, so a delivery order puts
some of the tasks before the notice and some after it. -/
theorem deliveries_split {tasks : List TileTask} {deliveries : List Answer}
    (order : deliveries.Perm (tasks.map .tile ++ [.tilesExhausted])) :
    ∃ before after : List TileTask,
      deliveries = before.map .tile ++ .tilesExhausted :: after.map .tile ∧
        (before ++ after).Perm tasks := by
  have notice : .tilesExhausted ∈ deliveries := order.mem_iff.mpr (by simp)
  obtain ⟨front, back, rfl⟩ := List.append_of_mem notice
  have onlyTiles : ∀ answers : List Answer, .tilesExhausted ∉ answers →
      answers = (tileTasks answers).map .tile := by
    intro answers none
    induction answers with
    | nil => rfl
    | cons answer rest inductionHypothesis =>
      simp only [List.mem_cons, not_or] at none
      cases answer with
      | tilesExhausted => exact absurd rfl none.1
      | tile task => simpa using inductionHypothesis none.2
  have others : (front ++ back).Perm (tasks.map .tile) := by
    have moved := (List.perm_middle.symm.trans order).trans (List.perm_append_singleton _ _)
    exact List.perm_cons _ |>.mp moved
  have noneLeft : .tilesExhausted ∉ front ++ back := by
    rw [others.mem_iff]
    simp
  simp only [List.mem_append, not_or] at noneLeft
  refine ⟨tileTasks front, tileTasks back, ?_, ?_⟩
  · rw [← onlyTiles front noneLeft.1, ← onlyTiles back noneLeft.2]
  · have filtered : (tileTasks (front ++ back)).Perm (tileTasks (tasks.map .tile)) :=
      others.filterMap _
    have sent : tileTasks (tasks.map .tile) = tasks := by
      simpa using tileTasks_map tasks []
    have pieces : tileTasks (front ++ back) = tileTasks front ++ tileTasks back :=
      List.filterMap_append
    rwa [pieces, sent] at filtered

/-- A worker schedules and executes every task it is sent, and waits for all of
them, exactly when the notice that there are no more is delivered last. A task
that is delivered after it is counted and dropped, which the wait never
recovers from. -/
theorem slave_executesAll_iff (tasks : List TileTask) (deliveries : List Answer)
    (order : deliveries.Perm (tasks.map .tile ++ [.tilesExhausted])) :
    ExecutesAll tasks deliveries ↔ deliveries.getLast? = some .tilesExhausted := by
  obtain ⟨before, after, rfl, sent⟩ := deliveries_split order
  constructor
  · intro executes
    obtain ⟨last, run, stuck⟩ := terminal_reachable SlaveFrame.work slaveStep_lowers
      (.renderFrame (before.map .tile ++ .tilesExhausted :: after.map .tile))
    have delivered : DeliveredAs (before.map .tile ++ .tilesExhausted :: after.map .tile) last :=
      reachable_run (reachable_start rfl) run
    have ended := accounted_terminal (delivered_accounted delivered) stuck
    obtain ⟨nothing, idle, _, _⟩ := terminal_idle stuck
    have all := executes.scheduledOnce last delivered idle
    rw [nothing, ended.1] at all
    have none : after = [] := by
      have lengths := congrArg Multiset.card (all.trans (Multiset.coe_eq_coe.mpr sent).symm)
      simp at lengths
      exact lengths
    simp [none]
  · intro last
    have none : after = [] := by
      rcases after.eq_nil_or_concat' with rfl | ⟨front, task, rfl⟩
      · rfl
      · have tail : before.map Answer.tile ++ Answer.tilesExhausted :: (front ++ [task]).map .tile =
            (before.map .tile ++ .tilesExhausted :: front.map .tile) ++ [.tile task] := by simp
        rw [tail, List.getLast?_concat] at last
        cases last
    subst none
    rw [List.append_nil] at sent
    have same : (before : Multiset TileTask) = tasks := Multiset.coe_eq_coe.mpr sent
    rw [← same]
    refine ⟨?_, ?_, ?_, ?_⟩
    · exact fun state delivered => accounted_bounds (delivered_accounted delivered)
    · exact fun state delivered idle => accounted_scheduled (delivered_accounted delivered) idle
    · exact fun state delivered ready => accounted_ready (delivered_accounted delivered) ready
    · intro state delivered
      obtain ⟨last, run, stuck⟩ := terminal_reachable SlaveFrame.work slaveStep_lowers state
      have ended := accounted_terminal
        (delivered_accounted (reachable_run delivered run)) stuck
      refine ⟨last, run, ?_, ended.2.1⟩
      rw [SlaveFrame.Ready, ended.2.2]
      exact ⟨rfl, rfl⟩

/-- One task, and the notice in its place at the end. -/
theorem slave_executesAll_iff_in_order :
    [Answer.tile ⟨⟨0, 0⟩, 0⟩, .tilesExhausted].Perm
        (([⟨⟨0, 0⟩, 0⟩] : List TileTask).map .tile ++ [.tilesExhausted]) ∧
      ExecutesAll ([⟨⟨0, 0⟩, 0⟩] : List TileTask) [.tile ⟨⟨0, 0⟩, 0⟩, .tilesExhausted] :=
  ⟨.refl _, (slave_executesAll_iff [⟨⟨0, 0⟩, 0⟩] [.tile ⟨⟨0, 0⟩, 0⟩, .tilesExhausted]
    (.refl _)).mpr rfl⟩

/-- One task, overtaken by the notice: it is never scheduled. -/
theorem slave_drops_overtaken_task :
    ¬ ExecutesAll ([⟨⟨0, 0⟩, 0⟩] : List TileTask) [.tilesExhausted, .tile ⟨⟨0, 0⟩, 0⟩] := by
  intro executes
  obtain ⟨last, run, stuck⟩ := terminal_reachable SlaveFrame.work slaveStep_lowers
    (.renderFrame [.tilesExhausted, .tile ⟨⟨0, 0⟩, 0⟩])
  have delivered : DeliveredAs (([] : List TileTask).map .tile ++
      .tilesExhausted :: ([⟨⟨0, 0⟩, 0⟩] : List TileTask).map .tile) last :=
    reachable_run (reachable_start rfl) run
  have ended := accounted_terminal (delivered_accounted delivered) stuck
  obtain ⟨further, more, _, executed⟩ := executes.finishes last delivered
  have stay : further = last := by
    rcases more.cases_head with same | ⟨next, moved, _⟩
    · exact same.symm
    · exact absurd moved (stuck next)
  rw [stay, ended.2.1] at executed
  simp at executed

end Ospray
