import Ospray.Library.Runs

/-!
# The background loop and its controller

`AsyncLoop` calls a function over and over on a background thread, which sleeps
on a condition variable while the loop is stopped. One controlling thread starts
and stops it and destroys it at the end. Both sides are given by the point of
their code they are at; a step carries one side over one access to the shared
flags, the mutex or the condition variable, and the steps interleave freely.

`start` notifies without holding the mutex. A notification sent after the loop has
found its predicate false and before it blocks wakes nobody, and the loop sleeps
although it should run. The destructor joins a background thread, but a scheduled
task it does not wait for.
-/

namespace Ospray

open Library.Runs

/-- How the loop was launched; `AUTO` chooses one of the two. -/
inductive LaunchMethod where
  | thread
  | task
  deriving DecidableEq

/-- Who holds `loopRunningMutex`. -/
inductive LoopParty where
  | loop
  | controller
  deriving DecidableEq

/-- Where the main loop is. A notified or spuriously woken loop is at `relock`, so
`blocked` means that no notification is pending. -/
inductive LoopPoint where
  | testAlive
  | lockMutex
  | evaluate
  | block
  | blocked
  | relock
  | testAliveAgain
  | enterBody
  | testRunning
  | callFcn
  | leaveBody
  | unlock
  | unlockReturn
  | ended
  deriving DecidableEq

/-- Whether `start` was called by the application or by the destructor. -/
inductive StartCaller where
  | application
  | destructor
  deriving DecidableEq

/-- Where the controlling thread is. -/
inductive ControllerPoint where
  | idle
  | startTest (caller : StartCaller)
  | startSet (caller : StartCaller)
  | startNotify (caller : StartCaller)
  | stopTest
  | stopClear
  | stopLock
  | stopEvaluate
  | stopBlock
  | stopBlocked
  | stopRelock
  | stopUnlock
  | clearAlive
  | join
  | destroyed
  deriving DecidableEq

/-- The members of `AsyncLoop`, and the two threads. -/
structure AsyncLoop where
  launch : LaunchMethod
  threadShouldBeAlive : Bool
  loopShouldBeRunning : Bool
  insideLoopBody : Bool
  loopRunningMutex : Option LoopParty
  loop : LoopPoint
  controller : ControllerPoint
  deriving DecidableEq

namespace AsyncLoop

/-- The constructor has launched the main loop. -/
def constructed (launch : LaunchMethod) : AsyncLoop :=
  { launch, threadShouldBeAlive := true, loopShouldBeRunning := false, insideLoopBody := false
    loopRunningMutex := none, loop := .testAlive, controller := .idle }

/-- One step of `mainLoop`; `none` where it has to wait or has returned. The mutex
is held from the lock to the end of the iteration, the body included. -/
def mainLoop (self : AsyncLoop) : Option AsyncLoop :=
  match self.loop with
  | .testAlive =>
    some { self with loop := if self.threadShouldBeAlive then .lockMutex else .ended }
  | .lockMutex | .relock =>
    if self.loopRunningMutex = none then
      some { self with loopRunningMutex := some .loop, loop := .evaluate }
    else none
  | .evaluate =>
    some { self with loop := if self.loopShouldBeRunning then .testAliveAgain else .block }
  | .block => some { self with loopRunningMutex := none, loop := .blocked }
  -- a condition variable may wake up without a notification
  | .blocked => some { self with loop := .relock }
  | .testAliveAgain =>
    some { self with loop := if self.threadShouldBeAlive then .enterBody else .unlockReturn }
  | .enterBody => some { self with insideLoopBody := true, loop := .testRunning }
  | .testRunning =>
    some { self with loop := if self.loopShouldBeRunning then .callFcn else .leaveBody }
  | .callFcn => some { self with loop := .leaveBody }
  | .leaveBody => some { self with insideLoopBody := false, loop := .unlock }
  | .unlock => some { self with loopRunningMutex := none, loop := .testAlive }
  | .unlockReturn => some { self with loopRunningMutex := none, loop := .ended }
  | .ended => none

/-- Where `start` returns to. -/
def startReturns : StartCaller → ControllerPoint
  | .application => .idle
  | .destructor => .join

/-- `notify_one` on `loopRunningCond`, called where only the loop can be waiting. -/
def notifyOne (self : AsyncLoop) : AsyncLoop :=
  { self with loop := if self.loop = .blocked then .relock else self.loop }

/-- One step of the call the controlling thread is in. -/
def controllerCall (self : AsyncLoop) : Option AsyncLoop :=
  match self.controller with
  | .idle | .destroyed => none
  | .startTest caller =>
    some { self with controller :=
      if self.loopShouldBeRunning then startReturns caller else .startSet caller }
  | .startSet caller =>
    some { self with loopShouldBeRunning := true, controller := .startNotify caller }
  | .startNotify caller => some { self.notifyOne with controller := startReturns caller }
  | .stopTest =>
    some { self with controller := if self.loopShouldBeRunning then .stopClear else .idle }
  | .stopClear => some { self with loopShouldBeRunning := false, controller := .stopLock }
  | .stopLock | .stopRelock =>
    if self.loopRunningMutex = none then
      some { self with loopRunningMutex := some .controller, controller := .stopEvaluate }
    else none
  | .stopEvaluate =>
    some { self with controller := if self.insideLoopBody then .stopBlock else .stopUnlock }
  | .stopBlock => some { self with loopRunningMutex := none, controller := .stopBlocked }
  | .stopBlocked => some { self with controller := .stopRelock }
  | .stopUnlock => some { self with loopRunningMutex := none, controller := .idle }
  | .clearAlive =>
    some { self with threadShouldBeAlive := false, controller := .startTest .destructor }
  | .join =>
    -- only a background thread is joinable
    if self.launch = .thread ∧ self.loop ≠ .ended then none
    else some { self with controller := .destroyed }

/-- What the controlling thread may call next. -/
inductive Call where
  | start
  | stop
  | destroy
  deriving DecidableEq

/-- The first point of a call. -/
def Call.entry : Call → ControllerPoint
  | .start => .startTest .application
  | .stop => .stopTest
  | .destroy => .clearAlive

/-- What the scheduler may choose. -/
inductive Action where
  | loop
  | call (call : Call)
  | controller
  deriving DecidableEq

/-- One step of the whole. -/
def perform (self : AsyncLoop) : Action → Option AsyncLoop
  | .loop => self.mainLoop
  | .call call =>
    if self.controller = .idle then some { self with controller := call.entry } else none
  | .controller => self.controllerCall

/-- A start has been lost: the loop should be running, the call of `start` that said
so is over, and the loop is blocked without a notification. -/
def LostStart (self : AsyncLoop) : Prop :=
  self.loopShouldBeRunning = true ∧ self.loop = .blocked ∧
    ∀ caller, self.controller ≠ .startNotify caller

/-- The destructor has returned and the main loop has not; each of its further
steps uses the object. -/
def Outlives (self : AsyncLoop) : Prop := self.controller = .destroyed ∧ self.loop ≠ .ended

/-- What users of the loop rely on. -/
structure Reliable (state : AsyncLoop) : Prop where
  noLostStart : ¬ state.LostStart
  noOutliving : ¬ state.Outlives

/-- No notification is sent between the loop's evaluation of its predicate and its
blocking, and no destructor returns past a scheduled task that has not ended. -/
def Admissible (self : AsyncLoop) : Action → Prop
  | .controller =>
    (∀ caller, self.controller = .startNotify caller → self.loop ≠ .block) ∧
      (self.controller = .join → self.launch = .task → self.loop = .ended)
  | _ => True

/-- A step that meets the condition. -/
def AdmissibleStep (self next : AsyncLoop) : Prop :=
  ∃ action, self.Admissible action ∧ self.perform action = some next

/-! ## What one step can do -/

/-- A step of the main loop leaves the flags of the controller alone. It turns to
blocking only when the loop should not be running. -/
theorem mainLoop_frame {self next : AsyncLoop} (moved : self.mainLoop = some next) :
    next.launch = self.launch ∧ next.loopShouldBeRunning = self.loopShouldBeRunning ∧
      next.controller = self.controller ∧ self.loop ≠ .ended ∧
      (next.loop = .block → self.loopShouldBeRunning = false) ∧
      (next.loop = .blocked → self.loop = .block) := by
  cases point : self.loop with
  | lockMutex | relock | ended => grind [mainLoop]
  | _ =>
    simp only [mainLoop, point] at moved
    grind

/-- A step of the controller moves the loop only by waking it. It sets the running
flag only in order to notify next, and destroys a background thread's loop only
after it has ended. -/
theorem controllerCall_frame {self next : AsyncLoop} (moved : self.controllerCall = some next) :
    next.launch = self.launch ∧
      (next.loop = self.loop ∨ self.loop = .blocked ∧ next.loop = .relock) ∧
      (next.loopShouldBeRunning = true → self.loopShouldBeRunning = true ∨
        ∃ caller, next.controller = .startNotify caller) ∧
      (∀ caller, self.controller = .startNotify caller → next.loop ≠ .blocked) ∧
      self.controller ≠ .destroyed ∧
      (next.controller = .destroyed →
        self.controller = .join ∧ (self.launch = .thread → self.loop = .ended)) := by
  cases point : self.controller with
  | startTest caller | startSet caller =>
    simp only [controllerCall, point] at moved
    cases caller <;> grind [startReturns]
  | startNotify caller =>
    simp only [controllerCall, point] at moved
    cases caller <;> grind [startReturns, notifyOne]
  | _ => grind [controllerCall]

/-! ## Runs that meet the condition -/

/-- A loop that found its predicate false is still right to sleep, or the call that
set the flag is about to notify; and a destroyed loop has ended. -/
structure Settled (state : AsyncLoop) : Prop where
  window : state.loopShouldBeRunning = true → state.loop = .block ∨ state.loop = .blocked →
    ∃ caller, state.controller = .startNotify caller
  joined : state.controller = .destroyed → state.loop = .ended

theorem constructed_settled (launch : LaunchMethod) : (constructed launch).Settled := by
  constructor
  · rintro running
    cases running
  · intro destroyed
    cases destroyed

/-- A step of the loop decides to block only while the flag is false, so only a
later step of the controller can make that wrong. -/
theorem mainLoop_settled {self next : AsyncLoop} (settled : self.Settled)
    (moved : self.mainLoop = some next) : next.Settled := by
  obtain ⟨-, running, controller, awake, decides, blocks⟩ := mainLoop_frame moved
  constructor
  · intro nextRunning asleep
    rw [running] at nextRunning
    rw [controller]
    rcases asleep with deciding | blocked
    · rw [decides deciding] at nextRunning
      cases nextRunning
    · exact settled.window nextRunning (Or.inl (blocks blocked))
  · intro destroyed
    rw [controller] at destroyed
    exact absurd (settled.joined destroyed) awake

/-- A step of the controller that meets the condition: setting the flag comes
before notifying, notifying finds the loop awake or wakes it, and the destructor
finds the loop ended. -/
theorem controllerCall_settled {self next : AsyncLoop} (settled : self.Settled)
    (admissible : self.Admissible .controller) (moved : self.controllerCall = some next) :
    next.Settled := by
  obtain ⟨-, woken, sets, notifies, -, destroys⟩ := controllerCall_frame moved
  obtain ⟨noWindow, taskEnded⟩ := admissible
  have sleeps : next.loop = .block ∨ next.loop = .blocked → next.loop = self.loop := by
    intro asleep
    rcases woken with same | ⟨-, relocking⟩
    · exact same
    · rw [relocking] at asleep
      rcases asleep with impossible | impossible <;> cases impossible
  constructor
  · intro running asleep
    rcases sets running with wasRunning | notifying
    · have same := sleeps asleep
      obtain ⟨caller, notify⟩ := settled.window wasRunning (same ▸ asleep)
      rcases asleep with deciding | blocked
      · exact absurd (same.symm.trans deciding) (noWindow caller notify)
      · exact absurd blocked (notifies caller notify)
    · exact notifying
  · intro destroyed
    obtain ⟨joining, joined⟩ := destroys destroyed
    have ended : self.loop = .ended := by
      cases mode : self.launch with
      | thread => exact joined mode
      | task => exact taskEnded joining mode
    rcases woken with same | ⟨blocked, -⟩
    · exact same.trans ended
    · rw [ended] at blocked
      cases blocked

/-- Every step that meets the condition keeps the loop settled. -/
theorem admissibleStep_settled {self next : AsyncLoop} (settled : self.Settled)
    (step : self.AdmissibleStep next) : next.Settled := by
  obtain ⟨action, admissible, moved⟩ := step
  cases action with
  | loop => exact mainLoop_settled settled moved
  | controller => exact controllerCall_settled settled admissible moved
  | call call =>
    simp only [perform] at moved
    split at moved
    · rename_i idle
      obtain rfl := Option.some.inj moved
      constructor
      · intro running asleep
        obtain ⟨caller, notify⟩ := settled.window running asleep
        rw [idle] at notify
        cases notify
      · intro destroyed
        cases call <;> cases destroyed
    · cases moved

/-- In every run in which no notification falls between the evaluation of the
predicate and the blocking, and no destructor returns past a scheduled task that
has not ended, no start is lost and the loop does not outlive its object. -/
theorem admissible_reliable (launch : LaunchMethod) {state : AsyncLoop}
    (reached : Reachable (· = constructed launch) AdmissibleStep state) : state.Reliable := by
  have settled : state.Settled := by
    apply reachable_invariant _ _ reached
    · rintro origin rfl
      exact constructed_settled launch
    · intro before after held step
      exact admissibleStep_settled held step
  constructor
  · rintro ⟨running, blocked, notified⟩
    obtain ⟨caller, notify⟩ := settled.window running (Or.inr blocked)
    exact notified caller notify
  · rintro ⟨destroyed, alive⟩
    exact alive (settled.joined destroyed)

/-- A background thread is started before its loop takes a step. -/
theorem admissible_reliable_started :
    { constructed .thread with loopShouldBeRunning := true }.Reliable := by
  have noWindow : ∀ state : AsyncLoop, state.loop = .testAlive → state.controller ≠ .join →
      state.Admissible .controller := by
    intro state awake working
    refine ⟨?_, fun joining => absurd joining working⟩
    rintro - - deciding
    rw [awake] at deciding
    cases deciding
  have called : AdmissibleStep (constructed .thread)
      { constructed .thread with controller := .startTest .application } :=
    ⟨.call .start, trivial, rfl⟩
  have tested : AdmissibleStep { constructed .thread with controller := .startTest .application }
      { constructed .thread with controller := .startSet .application } :=
    ⟨.controller, noWindow _ rfl (by decide), rfl⟩
  have set_ : AdmissibleStep { constructed .thread with controller := .startSet .application }
      { constructed .thread with
        loopShouldBeRunning := true, controller := .startNotify .application } :=
    ⟨.controller, noWindow _ rfl (by decide), rfl⟩
  have notified : AdmissibleStep
      { constructed .thread with
        loopShouldBeRunning := true, controller := .startNotify .application }
      { constructed .thread with loopShouldBeRunning := true } :=
    ⟨.controller, noWindow _ rfl (by decide), rfl⟩
  exact admissible_reliable .thread
    ⟨_, rfl, (((Relation.ReflTransGen.single called).tail tested).tail set_).tail notified⟩

/-! ## The mutex -/

/-- The main loop holds the mutex. -/
def LoopLocked (self : AsyncLoop) : Prop :=
  match self.loop with
  | .evaluate | .block | .testAliveAgain | .enterBody | .testRunning | .callFcn | .leaveBody
  | .unlock | .unlockReturn => True
  | _ => False

/-- The controlling thread holds the mutex. -/
def ControllerLocked (self : AsyncLoop) : Prop :=
  match self.controller with
  | .stopEvaluate | .stopBlock | .stopUnlock => True
  | _ => False

/-- Who is at a point that holds the mutex does hold it; the body runs under it; and
`stop` has never had to wait for a notification. -/
structure Exclusive (state : AsyncLoop) : Prop where
  loopHolds : state.LoopLocked ↔ state.loopRunningMutex = some .loop
  controllerHolds : state.ControllerLocked ↔ state.loopRunningMutex = some .controller
  inside : state.insideLoopBody = true →
    state.loop = .testRunning ∨ state.loop = .callFcn ∨ state.loop = .leaveBody
  stopped : state.controller = .stopUnlock → state.insideLoopBody = false
  neverWaits : state.controller ≠ .stopBlock ∧ state.controller ≠ .stopBlocked ∧
    state.controller ≠ .stopRelock

/-- A step of the main loop respects the mutex. -/
theorem mainLoop_exclusive {self next : AsyncLoop} (exclusive : self.Exclusive)
    (moved : self.mainLoop = some next) : next.Exclusive := by
  obtain ⟨loopHolds, controllerHolds, inside, stopped, neverWaits⟩ := exclusive
  obtain ⟨launch, shouldBeAlive, shouldBeRunning, insideBody, mutex, loop, controller⟩ := self
  cases loop <;> simp only [mainLoop, Option.ite_none_right_eq_some, reduceCtorEq] at moved
  case lockMutex | relock =>
    obtain ⟨free, moved⟩ := moved
    cases moved
    constructor <;> simp_all [LoopLocked, ControllerLocked]
  case testAlive | evaluate | testAliveAgain | testRunning =>
    cases moved
    constructor <;> (try split) <;> simp_all [LoopLocked, ControllerLocked]
  case enterBody =>
    cases moved
    constructor <;> simp_all [LoopLocked, ControllerLocked]
    -- the loop holds the mutex, so `stop` is not about to unlock it
    rintro rfl
    exact controllerHolds trivial
  all_goals
    cases moved
    constructor <;> simp_all [LoopLocked, ControllerLocked]

/-- A step of the controlling thread respects the mutex: when `stop` has locked it,
the loop is outside its body. -/
theorem controllerCall_exclusive {self next : AsyncLoop} (exclusive : self.Exclusive)
    (moved : self.controllerCall = some next) : next.Exclusive := by
  obtain ⟨loopHolds, controllerHolds, inside, stopped, neverWaits⟩ := exclusive
  obtain ⟨launch, shouldBeAlive, shouldBeRunning, insideBody, mutex, loop, controller⟩ := self
  cases controller <;> simp only [controllerCall, Option.ite_none_right_eq_some,
    Option.ite_none_left_eq_some, reduceCtorEq] at moved
  case startTest caller =>
    cases moved
    cases caller <;> cases shouldBeRunning <;> constructor <;>
      simp_all [LoopLocked, ControllerLocked, startReturns]
  case startNotify caller =>
    cases moved
    by_cases notified : loop = .blocked <;> cases caller <;> constructor <;>
      simp_all [LoopLocked, ControllerLocked, startReturns, notifyOne]
  case stopEvaluate =>
    -- inside its body the loop would hold the mutex that `stop` holds
    have outside : insideBody = false := by
      by_contra running
      obtain rfl | rfl | rfl := inside (by simpa using running) <;>
        simp_all [LoopLocked, ControllerLocked]
    cases moved
    constructor <;> simp_all [LoopLocked, ControllerLocked]
  case stopTest =>
    cases moved
    cases shouldBeRunning <;> constructor <;> simp_all [LoopLocked, ControllerLocked]
  case stopLock | stopRelock | join =>
    obtain ⟨_, moved⟩ := moved
    cases moved
    constructor <;> simp_all [LoopLocked, ControllerLocked]
  all_goals
    cases moved
    constructor <;> simp_all [LoopLocked, ControllerLocked]

/-- In every run, with lost starts or without, `stop` never blocks on the condition
variable, and when it returns the loop is outside its body. -/
theorem stop_never_waits (launch : LaunchMethod) {state : AsyncLoop}
    (reached : Reachable (· = constructed launch) (Performs perform) state) :
    state.Exclusive := by
  apply reachable_invariant _ _ reached
  · rintro origin rfl
    constructor <;> simp [constructed, LoopLocked, ControllerLocked]
  · rintro before after exclusive ⟨action, moved⟩
    cases action with
    | loop => exact mainLoop_exclusive exclusive moved
    | controller => exact controllerCall_exclusive exclusive moved
    | call call =>
      obtain ⟨loopHolds, controllerHolds, inside, stopped, neverWaits⟩ := exclusive
      simp only [perform] at moved
      constructor <;> cases call <;> grind [LoopLocked, ControllerLocked, Call.entry]

/-! ## After `stop` has returned -/

/-- The loop has found its predicate true in this iteration. -/
def Passed (self : AsyncLoop) : Prop :=
  match self.loop with
  | .testAliveAgain | .enterBody | .testRunning | .callFcn | .leaveBody | .unlock
  | .unlockReturn => True
  | _ => False

/-- The loop is outside its body, and has not begun an iteration that leads into it. -/
structure Quiescent (state : AsyncLoop) : Prop where
  outside : state.insideLoopBody = false
  notPassed : ¬ state.Passed

/-- The last step of a call of `stop`, which returns early if the flag is not set. -/
def StopReturns (self next : AsyncLoop) : Prop :=
  (self.controller = .stopTest ∨ self.controller = .stopUnlock) ∧
    self.perform .controller = some next ∧ next.controller = .idle

/-- A step with which no `start` begins. -/
def StepWithoutStart (self next : AsyncLoop) : Prop :=
  Performs perform self next ∧ ∀ caller, next.controller ≠ .startTest caller

/-- While the flag is cleared the loop passes its predicate only before `stop` has
locked the mutex, and from its store on `stop` keeps the flag cleared. -/
structure Resting (state : AsyncLoop) : Prop where
  rests : state.loopShouldBeRunning = false → state.controller ≠ .stopLock → ¬ state.Passed
  cleared : state.controller = .stopLock ∨ state.controller = .stopEvaluate ∨
    state.controller = .stopUnlock → state.loopShouldBeRunning = false

theorem passed_locked {self : AsyncLoop} (passed : self.Passed) : self.LoopLocked := by
  cases point : self.loop <;> simp_all [Passed, LoopLocked]

/-- The main loop passes its predicate only while the flag is set. -/
theorem mainLoop_passes {self next : AsyncLoop} (moved : self.mainLoop = some next)
    (passed : next.Passed) : self.Passed ∨ self.loopShouldBeRunning = true := by
  cases point : self.loop with
  | lockMutex | relock | ended => grind [mainLoop, Passed]
  | evaluate =>
    right
    simp only [mainLoop, point, Option.some.injEq] at moved
    subst moved
    by_contra stopped
    simp [Passed, stopped] at passed
  | testAlive =>
    simp only [mainLoop, point, Option.some.injEq] at moved
    subst moved
    cases alive : self.threadShouldBeAlive <;> simp [Passed, alive] at passed
  | _ =>
    simp only [mainLoop, point, Option.some.injEq] at moved
    subst moved
    simp_all [Passed]

/-- A step of the controller makes no loop pass its predicate. It clears the flag
only in order to lock the mutex next, and locks it only when it is free. -/
theorem controllerCall_clears {self next : AsyncLoop} (moved : self.controllerCall = some next) :
    (next.Passed → self.Passed) ∧
      (next.loopShouldBeRunning = false →
        self.loopShouldBeRunning = false ∨ next.controller = .stopLock) ∧
      (self.controller = .stopLock → self.loopRunningMutex = none) ∧
      (next.controller = .stopLock ∨ next.controller = .stopEvaluate ∨
          next.controller = .stopUnlock → next.loopShouldBeRunning = false ∨
        next.loopShouldBeRunning = self.loopShouldBeRunning ∧ (self.controller = .stopLock ∨
          self.controller = .stopEvaluate ∨ self.controller = .stopRelock)) := by
  obtain ⟨-, woken, -⟩ := controllerCall_frame moved
  refine ⟨?_, ?_⟩
  · intro passed
    rcases woken with same | ⟨-, relocking⟩
    · unfold Passed at passed ⊢
      rwa [same] at passed
    · simp [Passed, relocking] at passed
  · cases point : self.controller with
    | startTest caller | startSet caller | startNotify caller =>
      simp only [controllerCall, point] at moved
      cases caller <;> grind [startReturns, notifyOne]
    | _ => grind [controllerCall]

theorem mainLoop_resting {self next : AsyncLoop} (resting : self.Resting)
    (moved : self.mainLoop = some next) : next.Resting := by
  obtain ⟨-, running, controller, -, -, -⟩ := mainLoop_frame moved
  constructor
  · intro stopped unlocked passed
    rw [running] at stopped
    rw [controller] at unlocked
    rcases mainLoop_passes moved passed with already | started
    · exact resting.rests stopped unlocked already
    · rw [stopped] at started
      cases started
  · intro stopping
    rw [running]
    rw [controller] at stopping
    exact resting.cleared stopping

/-- A step of the controller lets the loop rest: `stop` locks the mutex while the
loop does not hold it. -/
theorem controllerCall_resting {self next : AsyncLoop} (exclusive : self.Exclusive)
    (resting : self.Resting) (moved : self.controllerCall = some next) : next.Resting := by
  obtain ⟨passes, clears, locks, stops⟩ := controllerCall_clears moved
  constructor
  · intro stopped elsewhere passed
    have already := passes passed
    rcases clears stopped with wasStopped | locking
    · by_cases locking : self.controller = .stopLock
      · have holds := exclusive.loopHolds.mp (passed_locked already)
        rw [locks locking] at holds
        cases holds
      · exact resting.rests wasStopped locking already
    · exact elsewhere locking
  · intro stopping
    rcases stops stopping with clear | ⟨same, locking | evaluating | relocking⟩
    · exact clear
    · exact same.trans (resting.cleared (Or.inl locking))
    · exact same.trans (resting.cleared (Or.inr (Or.inl evaluating)))
    · exact absurd relocking exclusive.neverWaits.2.2

/-- Every state of every run rests. -/
theorem reachable_resting (launch : LaunchMethod) {state : AsyncLoop}
    (reached : Reachable (· = constructed launch) (Performs perform) state) :
    state.Exclusive ∧ state.Resting := by
  refine ⟨stop_never_waits launch reached, ?_⟩
  have both : Reachable (· = constructed launch) (Performs perform) state ∧ state.Resting := by
    obtain ⟨origin, rfl, run⟩ := reached
    induction run with
    | refl =>
      refine ⟨reachable_start rfl, ?_, ?_⟩ <;> simp [constructed, Passed]
    | tail _ moved inductionHypothesis =>
      obtain ⟨before, resting⟩ := inductionHypothesis
      refine ⟨reachable_step before moved, ?_⟩
      obtain ⟨action, moved⟩ := moved
      cases action with
      | loop => exact mainLoop_resting resting moved
      | controller =>
        exact controllerCall_resting (stop_never_waits launch before) resting moved
      | call call =>
        simp only [perform, Option.ite_none_right_eq_some, Option.some.injEq] at moved
        obtain ⟨idle, rfl⟩ := moved
        obtain ⟨rests, cleared⟩ := resting
        constructor
        · intro stopped _
          exact rests stopped (by simp [idle])
        · cases call <;> simp [Call.entry]
  exact both.2

/-- Until a `start` begins, the controller can only call `stop` again, which returns
early, or begin to destroy the loop. -/
theorem stepWithoutStart_stopped {self next : AsyncLoop}
    (stopped : self.loopShouldBeRunning = false ∧
      (self.controller = .idle ∨ self.controller = .stopTest ∨ self.controller = .clearAlive))
    (step : self.StepWithoutStart next) :
    next.loopShouldBeRunning = false ∧
      (next.controller = .idle ∨ next.controller = .stopTest ∨ next.controller = .clearAlive) := by
  obtain ⟨⟨action, moved⟩, noStart⟩ := step
  obtain ⟨clear, point⟩ := stopped
  cases action with
  | loop =>
    obtain ⟨-, running, controller, -⟩ := mainLoop_frame moved
    rw [running, controller]
    exact ⟨clear, point⟩
  | call call =>
    simp only [perform, Option.ite_none_right_eq_some, Option.some.injEq] at moved
    obtain ⟨-, rfl⟩ := moved
    refine ⟨clear, ?_⟩
    cases call with
    | start => exact absurd rfl (noStart .application)
    | stop => exact Or.inr (Or.inl rfl)
    | destroy => exact Or.inr (Or.inr rfl)
  | controller =>
    simp only [perform, controllerCall] at moved
    rcases point with idle | testing | destroying
    · simp [idle] at moved
    · simp only [testing, clear, Bool.false_eq_true, if_false, Option.some.injEq] at moved
      subst moved
      exact ⟨rfl, Or.inl rfl⟩
    · simp only [destroying, Option.some.injEq] at moved
      subst moved
      exact absurd rfl (noStart .destructor)

/-- In every run `stop` never blocks on the condition variable; and from the moment
it has returned until a `start` begins, be it in the destructor, the loop is outside
its body and does not enter it. -/
theorem stop_quiesces (launch : LaunchMethod) {state : AsyncLoop}
    (reached : Reachable (· = constructed launch) (Performs perform) state) :
    (state.controller ≠ .stopBlock ∧ state.controller ≠ .stopBlocked) ∧
      ∀ returned later, state.StopReturns returned →
        Relation.ReflTransGen StepWithoutStart returned later → later.Quiescent := by
  obtain ⟨exclusive, resting⟩ := reachable_resting launch reached
  refine ⟨⟨exclusive.neverWaits.1, exclusive.neverWaits.2.1⟩, ?_⟩
  rintro returned later ⟨point, moved, idle⟩ run
  have clear : returned.loopShouldBeRunning = false := by
    rcases point with testing | unlocking
    · simp only [perform, controllerCall, testing, Option.some.injEq] at moved
      cases running : state.loopShouldBeRunning with
      | true =>
        rw [running] at moved
        subst moved
        cases idle
      | false =>
        rw [running] at moved
        subst moved
        rfl
    · have cleared := resting.cleared (Or.inr (Or.inr unlocking))
      simp only [perform, controllerCall, unlocking, Option.some.injEq] at moved
      subst moved
      exact cleared
  have onwards : Reachable (· = constructed launch) (Performs perform) later ∧
      later.loopShouldBeRunning = false ∧ (later.controller = .idle ∨
        later.controller = .stopTest ∨ later.controller = .clearAlive) := by
    induction run with
    | refl => exact ⟨reachable_step reached ⟨.controller, moved⟩, clear, Or.inl idle⟩
    | tail _ step inductionHypothesis =>
      obtain ⟨before, stopped⟩ := inductionHypothesis
      exact ⟨reachable_step before step.1, stepWithoutStart_stopped stopped step⟩
  obtain ⟨reachedLater, stillClear, where_⟩ := onwards
  obtain ⟨exclusiveLater, restingLater⟩ := reachable_resting launch reachedLater
  have passes : ¬ later.Passed := by
    apply restingLater.rests stillClear
    rcases where_ with at_ | at_ | at_ <;> rw [at_] <;> decide
  refine ⟨?_, passes⟩
  by_contra inside
  obtain at_ | at_ | at_ := exclusiveLater.inside (by simpa using inside) <;>
    exact passes (by simp [Passed, at_])

/-- The loop runs its body when `stop` clears the flag; `stop` waits for the mutex
until the body is left, and is about to unlock it. -/
def stopDuringBody : List Action :=
  [.call .start, .controller, .controller, .controller, .loop, .loop, .loop, .loop, .loop, .loop,
    .call .stop, .controller, .controller, .loop, .loop, .loop, .controller, .controller]

/-- After that `stop` the loop evaluates its predicate and sleeps. -/
theorem stop_quiesces_during_body :
    { constructed .thread with loop := .blocked }.Quiescent := by
  have performed : stopDuringBody.foldlM perform (constructed .thread) =
      some { constructed .thread with
        controller := .stopUnlock, loopRunningMutex := some .controller } := by decide
  have step : ∀ before after : AsyncLoop, before.controller = .idle →
      before.perform .loop = some after → before.StepWithoutStart after := by
    intro before after idle moved
    refine ⟨⟨.loop, moved⟩, ?_⟩
    intro caller starting
    rw [(mainLoop_frame moved).2.2.1, idle] at starting
    cases starting
  have locks : (constructed .thread).StepWithoutStart
      { constructed .thread with loop := .lockMutex } := step _ _ rfl rfl
  have evaluates : { constructed .thread with loop := .lockMutex }.StepWithoutStart
      { constructed .thread with loop := .evaluate, loopRunningMutex := some .loop } :=
    step _ _ rfl rfl
  have decides : { constructed .thread with
        loop := .evaluate, loopRunningMutex := some .loop }.StepWithoutStart
      { constructed .thread with loop := .block, loopRunningMutex := some .loop } :=
    step _ _ rfl rfl
  have blocks : { constructed .thread with
        loop := .block, loopRunningMutex := some .loop }.StepWithoutStart
      { constructed .thread with loop := .blocked } :=
    step _ _ rfl rfl
  exact (stop_quiesces .thread ⟨_, rfl, calls_run performed⟩).2 (constructed .thread) _
    ⟨Or.inr rfl, rfl, rfl⟩
    ((((Relation.ReflTransGen.single locks).tail evaluates).tail decides).tail blocks)

/-! ## Runs that do not -/

/-- The loop evaluates its predicate; `start` sets the flag and notifies; the loop blocks. -/
def startInWindow : List Action :=
  [.loop, .loop, .loop, .call .start, .controller, .controller, .controller, .loop]

/-- The destructor of a loop whose task has not taken a step yet. -/
def destroyBeforeTask : List Action :=
  [.call .destroy, .controller, .controller, .controller, .controller, .controller]

/-- A background thread can miss its start, and a scheduled task can outlive its object. -/
theorem start_lost_and_task_outlives :
    (¬ ∀ state, Reachable (· = constructed .thread) (Performs perform) state → ¬ state.LostStart) ∧
      ¬ ∀ state, Reachable (· = constructed .task) (Performs perform) state → ¬ state.Outlives := by
  constructor
  · intro kept
    have performed : startInWindow.foldlM perform (constructed .thread) =
        some { constructed .thread with loopShouldBeRunning := true, loop := .blocked } := by decide
    apply kept _ ⟨_, rfl, calls_run performed⟩
    refine ⟨rfl, rfl, ?_⟩
    intro caller impossible
    cases impossible
  · intro kept
    have performed : destroyBeforeTask.foldlM perform (constructed .task) =
        some { constructed .task with
          threadShouldBeAlive := false, loopShouldBeRunning := true, controller := .destroyed } := by
      decide
    apply kept _ ⟨_, rfl, calls_run performed⟩
    constructor
    · rfl
    · intro impossible
      cases impossible

end AsyncLoop

end Ospray
