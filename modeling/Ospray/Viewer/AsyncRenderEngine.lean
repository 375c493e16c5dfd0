import Ospray.Common.AsyncLoop

/-!
# The asynchronous render engine

The engine renders frames in the body of an `AsyncLoop`, under the loop's mutex, while one
user interface thread starts and stops it and fetches the frames. After a frame the body
spins until the last one has been fetched or the engine is stopped. Both threads store the
engine's state: `stop` stores `STOPPED` before it waits for the mutex, and every execution
of the body begins by storing `RUNNING`. A body that does so after the store of `stop`
takes it back: it may spin for ever, and `stop` leaves an engine that seems to run.

A step of either thread makes one access to what they share. Rendering is one step, after
which there is a frame or not. The frame buffers are not part of the model.
-/

namespace Ospray

open Library.Runs

/-- `ExecState` -/
inductive ExecState where
  | stopped
  | started
  | running
  | invalid
  deriving DecidableEq

/-- Where the loop body is. -/
inductive BodyPoint where
  | setRunning
  | renderFrame
  | testState
  | testPixels
  | copy
  | setPixels
  deriving DecidableEq

/-- Where the user interface thread is. -/
inductive EnginePoint where
  | ready
  | startTest
  | validateTest
  | validateSet
  | invalidTest
  | setStarted
  | awaitRunning
  | restartStop
  | restartStart
  | stopTest
  | setStopped
  | stopping
  | hasNewFrame
  | mapTest
  | mapSet
  deriving DecidableEq

/-- The members of `AsyncRenderEngine`, the body of its loop, and the user interface
thread. -/
structure AsyncRenderEngine where
  backgroundThread : AsyncLoop
  state : ExecState
  newPixels : Bool
  body : BodyPoint
  ui : EnginePoint
  deriving DecidableEq

namespace AsyncRenderEngine

/-- The constructor has launched the background thread. -/
def created : AsyncRenderEngine :=
  { backgroundThread := AsyncLoop.constructed .thread, state := .invalid, newPixels := false
    body := .setRunning, ui := .ready }

/-- One step of the main loop around the body. -/
def loopStep (self : AsyncRenderEngine) : Option AsyncRenderEngine :=
  self.backgroundThread.mainLoop.map fun loop =>
    { self with backgroundThread := loop, body := .setRunning }

/-- One step of the body. The frame may have been cancelled, or there may be none. -/
def bodyStep (self : AsyncRenderEngine) (frame : Bool) : Option AsyncRenderEngine :=
  match self.body with
  | .setRunning => some { self with state := .running, body := .renderFrame }
  | .renderFrame => if frame then some { self with body := .testState } else self.loopStep
  | .testState => some { self with body := if self.state = .running then .testPixels else .copy }
  | .testPixels => some { self with body := if self.newPixels then .testState else .copy }
  | .copy => some { self with body := .setPixels }
  | .setPixels => { self with newPixels := true }.loopStep

/-- One step of the background thread. -/
def background (self : AsyncRenderEngine) (frame : Bool) : Option AsyncRenderEngine :=
  if self.backgroundThread.loop = .callFcn then self.bodyStep frame else self.loopStep

/-- Beginning a call of the `AsyncLoop`. -/
def beginCall (self : AsyncRenderEngine) (call : AsyncLoop.Call) (ui : EnginePoint) :
    Option AsyncRenderEngine :=
  (self.backgroundThread.perform (.call call)).map fun loop => { self with backgroundThread := loop, ui }

/-- One step of a call of the `AsyncLoop`. -/
def proceed (self : AsyncRenderEngine) : Option AsyncRenderEngine :=
  (self.backgroundThread.perform .controller).map fun loop => { self with backgroundThread := loop }

/-- One step of the call the user interface thread is in. -/
def foreground (self : AsyncRenderEngine) : Option AsyncRenderEngine :=
  match self.ui with
  | .ready => none
  | .startTest => some { self with ui := if self.state = .running then .ready else .validateTest }
  | .validateTest => some { self with ui := if self.state = .invalid then .validateSet else .invalidTest }
  | .validateSet => some { self with state := .stopped, ui := .invalidTest }
  -- an engine that is still invalid throws
  | .invalidTest => some { self with ui := if self.state = .invalid then .ready else .setStarted }
  | .setStarted => some { self with state := .started, ui := .awaitRunning }
  | .awaitRunning =>
    if self.state = .running then some { self with ui := .ready } else self.beginCall .stop .restartStop
  | .restartStop =>
    if self.backgroundThread.controller = .idle then self.beginCall .start .restartStart else self.proceed
  | .restartStart =>
    if self.backgroundThread.controller = .idle then some { self with ui := .awaitRunning }
    else self.proceed
  | .stopTest => some { self with ui := if self.state = .running then .setStopped else .ready }
  | .setStopped => { self with state := .stopped }.beginCall .stop .stopping
  | .stopping =>
    if self.backgroundThread.controller = .idle then some { self with ui := .ready } else self.proceed
  | .hasNewFrame => some { self with ui := .ready }
  | .mapTest => some { self with ui := if self.newPixels then .mapSet else .ready }
  | .mapSet => some { self with newPixels := false, ui := .ready }

/-- What the user interface thread may call. -/
inductive Call where
  | start
  | stop
  | hasNewFrame
  | mapFramebuffer
  deriving DecidableEq

/-- The first point of a call. -/
def Call.entry : Call → EnginePoint
  | .start => .startTest
  | .stop => .stopTest
  | .hasNewFrame => .hasNewFrame
  | .mapFramebuffer => .mapTest

/-- What the scheduler may choose, and how rendering ends. -/
inductive Action where
  | background (frame : Bool)
  | call (call : Call)
  | foreground
  deriving DecidableEq

/-- One step of the whole. -/
def perform (self : AsyncRenderEngine) : Action → Option AsyncRenderEngine
  | .background frame => self.background frame
  | .call call => if self.ui = .ready then some { self with ui := call.entry } else none
  | .foreground => self.foreground

/-- The body spins until the frame is fetched. -/
def Spins (self : AsyncRenderEngine) : Prop :=
  self.backgroundThread.loop = .callFcn ∧ (self.body = .testState ∨ self.body = .testPixels)

/-- The user interface thread waits for the mutex, and the background thread, which holds
it, spins with both conditions true. -/
def Hung (self : AsyncRenderEngine) : Prop :=
  (self.backgroundThread.controller = .stopLock ∨ self.backgroundThread.controller = .stopRelock) ∧
    self.Spins ∧ self.state = .running ∧ self.newPixels = true

/-- The last step of a call of `stop` that found the engine running. -/
def StopReturns (self next : AsyncRenderEngine) : Prop :=
  self.ui = .stopping ∧ self.perform .foreground = some next ∧ next.ui = .ready

/-- The last step of a call of `start`. -/
def StartReturns (self next : AsyncRenderEngine) : Prop :=
  (self.ui = .startTest ∨ self.ui = .awaitRunning) ∧ self.perform .foreground = some next ∧
    next.ui = .ready

/-- A step with which no `start` begins. -/
def StepWithoutStart (self next : AsyncRenderEngine) : Prop :=
  Performs perform self next ∧ next.ui ≠ .startTest

/-- The engine does not seem to run, and the loop is outside its body. -/
def Stopped (self : AsyncRenderEngine) : Prop :=
  self.state ≠ .running ∧ self.backgroundThread.Quiescent

/-- No body begins after the store of a `stop` that has not returned, and in the retry of
a `start` none comes to spin for a frame that nobody can fetch. -/
def Admissible (self : AsyncRenderEngine) : Action → Prop
  | .background frame =>
    (self.backgroundThread.loop = .callFcn → self.body = .setRunning → self.ui ≠ .stopping) ∧
      (self.backgroundThread.loop = .callFcn → self.body = .renderFrame → frame = true →
        self.newPixels = true → self.ui ≠ .restartStop)
  | _ => True

/-- A step that meets the condition. -/
def AdmissibleStep (self next : AsyncRenderEngine) : Prop :=
  ∃ action, self.Admissible action ∧ self.perform action = some next

/-! ## What one step can do -/

variable {self next : AsyncRenderEngine}

/-- A step of the background thread is one of the main loop, or one inside its body. -/
theorem background_cases {frame : Bool} (moved : self.background frame = some next) :
    (∃ loop, self.backgroundThread.mainLoop = some loop ∧
        next = { self with backgroundThread := loop, body := .setRunning, newPixels := next.newPixels } ∧
        (self.backgroundThread.loop = .callFcn → self.body ≠ .setRunning) ∧
        (next.newPixels ≠ self.newPixels → self.backgroundThread.loop = .callFcn)) ∨
      self.backgroundThread.loop = .callFcn ∧
        (self.body = .setRunning ∧ next = { self with state := .running, body := .renderFrame } ∨
          self.body ≠ .setRunning ∧ next = { self with body := next.body } ∧ next.body ≠ .setRunning ∧
            (next.Spins → self.Spins ∨ self.body = .renderFrame ∧ frame = true)) := by
  rw [background] at moved
  by_cases inside : self.backgroundThread.loop = .callFcn
  · rw [if_pos inside] at moved
    cases point : self.body with
    | setPixels =>
      simp only [bodyStep, point, loopStep, Option.map_eq_some_iff] at moved
      obtain ⟨loop, ran, rfl⟩ := moved
      exact .inl ⟨loop, ran, rfl, fun _ => by decide, fun _ => inside⟩
    | renderFrame =>
      simp only [bodyStep, point] at moved
      split_ifs at moved with rendered
      · obtain rfl := Option.some.inj moved
        exact .inr ⟨inside, .inr ⟨by decide, rfl, by simp, fun _ => .inr ⟨rfl, rendered⟩⟩⟩
      · simp only [loopStep, Option.map_eq_some_iff] at moved
        obtain ⟨loop, ran, rfl⟩ := moved
        exact .inl ⟨loop, ran, rfl, fun _ => by decide, fun _ => inside⟩
    | setRunning =>
      simp only [bodyStep, point, Option.some.injEq] at moved
      exact .inr ⟨inside, .inl ⟨rfl, moved.symm⟩⟩
    | testState | testPixels | copy =>
      simp only [bodyStep, point, Option.some.injEq] at moved
      subst moved
      refine .inr ⟨inside, .inr ⟨by decide, rfl, ?_, ?_⟩⟩ <;> grind [Spins]
  · rw [if_neg inside] at moved
    simp only [loopStep, Option.map_eq_some_iff] at moved
    obtain ⟨loop, ran, rfl⟩ := moved
    exact .inl ⟨loop, ran, rfl, fun here => absurd here inside, fun differs => absurd rfl differs⟩

/-- A step of the user interface thread leaves the body alone, and takes the `AsyncLoop`
along one step or none. -/
theorem foreground_frame (moved : self.foreground = some next) :
    next.body = self.body ∧
      (next.backgroundThread = self.backgroundThread ∨
        ∃ action, action ≠ .loop ∧ self.backgroundThread.perform action = some next.backgroundThread) := by
  have begins : ∀ {engine : AsyncRenderEngine} {call : AsyncLoop.Call} {ui : EnginePoint},
      engine.beginCall call ui = some next → next.body = engine.body ∧
        engine.backgroundThread.perform (.call call) = some next.backgroundThread := by
    intro engine call ui ran
    obtain ⟨loop, called, rfl⟩ := Option.map_eq_some_iff.mp ran
    exact ⟨rfl, called⟩
  have proceeds : self.proceed = some next → next.body = self.body ∧
      self.backgroundThread.perform .controller = some next.backgroundThread := by
    intro ran
    obtain ⟨loop, called, rfl⟩ := Option.map_eq_some_iff.mp ran
    exact ⟨rfl, called⟩
  cases point : self.ui with
  | awaitRunning | restartStop | restartStart | stopping =>
    simp only [foreground, point] at moved
    split_ifs at moved
    all_goals first
      | (obtain rfl := Option.some.inj moved
         exact ⟨rfl, .inl rfl⟩)
      | (obtain ⟨body, called⟩ := begins moved
         exact ⟨body, .inr ⟨_, by decide, called⟩⟩)
      | (obtain ⟨body, called⟩ := proceeds moved
         exact ⟨body, .inr ⟨_, by decide, called⟩⟩)
  | setStopped =>
    simp only [foreground, point] at moved
    obtain ⟨body, called⟩ := begins moved
    exact ⟨body, .inr ⟨_, by decide, called⟩⟩
  | ready =>
    simp only [foreground, point] at moved
    cases moved
  | _ =>
    simp only [foreground, point, Option.some.injEq] at moved
    subst moved
    exact ⟨rfl, .inl rfl⟩

/-- The `AsyncLoop` of the engine runs as one that is started and stopped. -/
theorem backgroundThread_reached (reached : Reachable (· = created) (Performs perform) self) :
    Reachable (· = AsyncLoop.constructed .thread) (Performs AsyncLoop.perform) self.backgroundThread := by
  apply reachable_invariant _ _ reached
  · rintro origin rfl
    exact reachable_start rfl
  · rintro before after held ⟨action, moved⟩
    cases action with
    | background frame =>
      obtain ⟨loop, ran, rest, -⟩ | ⟨-, ⟨-, rest⟩ | ⟨-, rest, -⟩⟩ := background_cases moved
      · rw [rest]
        exact reachable_step held ⟨.loop, ran⟩
      · rw [rest]
        exact held
      · rw [rest]
        exact held
    | call call =>
      rw [perform] at moved
      split_ifs at moved
      obtain rfl := Option.some.inj moved
      exact held
    | foreground =>
      obtain ⟨-, same | ⟨action, -, called⟩⟩ := foreground_frame moved
      · exact same ▸ held
      · exact reachable_step held ⟨action, called⟩

/-! ## Calls of the loop -/

/-- The points of `AsyncLoop::stop`, or after it. -/
def InStop (controller : ControllerPoint) : Prop :=
  controller = .idle ∨ controller = .stopTest ∨ controller = .stopClear ∨ controller = .stopLock ∨
    controller = .stopEvaluate ∨ controller = .stopUnlock

/-- The points of `AsyncLoop::start`, or after it. -/
def InStart (controller : ControllerPoint) : Prop :=
  controller = .idle ∨ controller = .startTest .application ∨ controller = .startSet .application ∨
    controller = .startNotify .application

/-- The engine calls its loop where it seems to, the calls do what they should with the
flag, and the body waits outside of `fcn`. -/
structure Calling (engine : AsyncRenderEngine) : Prop where
  outside : engine.ui ≠ .restartStop → engine.ui ≠ .restartStart → engine.ui ≠ .stopping →
    engine.backgroundThread.controller = .idle
  stops : engine.ui = .restartStop ∨ engine.ui = .stopping → InStop engine.backgroundThread.controller
  starts : engine.ui = .restartStart → InStart engine.backgroundThread.controller
  cleared : engine.ui = .restartStop ∨ engine.ui = .stopping → engine.backgroundThread.controller = .idle →
    engine.backgroundThread.loopShouldBeRunning = false
  set_ : engine.ui = .restartStart → engine.backgroundThread.controller = .idle ∨
    engine.backgroundThread.controller = .startNotify .application →
      engine.backgroundThread.loopShouldBeRunning = true
  body : engine.backgroundThread.loop ≠ .callFcn → engine.body = .setRunning

/-- A step of the background thread changes no call. -/
theorem calling_background (calling : self.Calling) {frame : Bool}
    (moved : self.background frame = some next) : next.Calling := by
  obtain ⟨outside, stops, starts, cleared, set_, body⟩ := calling
  obtain ⟨loop, ran, rest, -⟩ | ⟨inside, ⟨-, rest⟩ | ⟨-, rest, -⟩⟩ := background_cases moved
  · obtain ⟨-, running, controller, -⟩ := AsyncLoop.mainLoop_frame ran
    have thread : next.backgroundThread = loop := by rw [rest]
    have ui_ : next.ui = self.ui := by rw [rest]
    have body_ : next.body = .setRunning := by rw [rest]
    rw [← thread] at running controller
    constructor
    · rw [ui_, controller]
      exact outside
    · rw [ui_, controller]
      exact stops
    · rw [ui_, controller]
      exact starts
    · rw [ui_, controller, running]
      exact cleared
    · rw [ui_, controller, running]
      exact set_
    · exact fun _ => body_
  · rw [rest]
    exact ⟨outside, stops, starts, cleared, set_, fun elsewhere => absurd inside elsewhere⟩
  · rw [rest]
    exact ⟨outside, stops, starts, cleared, set_, fun elsewhere => absurd inside elsewhere⟩

/-- A step of `AsyncLoop::stop` stays inside, and leaves it with the flag cleared. -/
theorem stop_proceeds {loop after : AsyncLoop} (inside : InStop loop.controller)
    (exclusive : loop.Exclusive) (resting : loop.Resting) (moved : loop.perform .controller = some after) :
    InStop after.controller ∧ (after.controller = .idle → after.loopShouldBeRunning = false) ∧
      after.loop = loop.loop := by
  rw [AsyncLoop.perform] at moved
  obtain point | point | point | point | point | point := inside
  · simp [AsyncLoop.controllerCall, point] at moved
  · simp only [AsyncLoop.controllerCall, point, Option.some.injEq] at moved
    subst moved
    cases loop.loopShouldBeRunning <;> simp [InStop]
  · simp only [AsyncLoop.controllerCall, point, Option.some.injEq] at moved
    subst moved
    simp [InStop]
  · simp only [AsyncLoop.controllerCall, point, Option.ite_none_right_eq_some, Option.some.injEq] at moved
    obtain ⟨-, rfl⟩ := moved
    simp [InStop]
  · -- the loop is outside its body, so `stop` does not wait for it
    simp only [AsyncLoop.controllerCall, point, Option.some.injEq] at moved
    subst moved
    have outside : loop.insideLoopBody = false := by
      by_contra running
      have holds : loop.loopRunningMutex = some .loop := by
        apply exclusive.loopHolds.mp
        obtain at_ | at_ | at_ := exclusive.inside (by simpa using running) <;> simp [AsyncLoop.LoopLocked, at_]
      have held := exclusive.controllerHolds.mp (by simp [AsyncLoop.ControllerLocked, point])
      rw [holds] at held
      cases held
    simp [InStop, outside]
  · have cleared := resting.cleared (.inr (.inr point))
    simp only [AsyncLoop.controllerCall, point, Option.some.injEq] at moved
    subst moved
    simp [InStop, cleared]

/-- A step of `AsyncLoop::start` stays inside, and leaves it with the flag set. -/
theorem start_proceeds {loop after : AsyncLoop} (inside : InStart loop.controller)
    (notifying : loop.controller = .startNotify .application → loop.loopShouldBeRunning = true)
    (moved : loop.perform .controller = some after) :
    InStart after.controller ∧ (after.controller = .idle ∨ after.controller = .startNotify .application →
      after.loopShouldBeRunning = true) ∧ (after.loop = .callFcn ↔ loop.loop = .callFcn) := by
  rw [AsyncLoop.perform] at moved
  obtain point | point | point | point := inside
  · simp [AsyncLoop.controllerCall, point] at moved
  · simp only [AsyncLoop.controllerCall, point, Option.some.injEq] at moved
    subst moved
    cases loop.loopShouldBeRunning <;> simp [InStart, AsyncLoop.startReturns]
  · simp only [AsyncLoop.controllerCall, point, Option.some.injEq] at moved
    subst moved
    simp [InStart]
  · simp only [AsyncLoop.controllerCall, point, Option.some.injEq] at moved
    subst moved
    have woken : loop.notifyOne.loop = .callFcn ↔ loop.loop = .callFcn := by
      unfold AsyncLoop.notifyOne
      split_ifs with blocked
      · simp [blocked]
      · exact Iff.rfl
    exact ⟨.inl rfl, fun _ => notifying point, woken⟩

/-- Nor does one of the user interface thread. -/
theorem calling_foreground (reached : Reachable (· = created) (Performs perform) self) (calling : self.Calling)
    (moved : self.foreground = some next) : next.Calling := by
  obtain ⟨outside, stops, starts, cleared, set_, body⟩ := calling
  obtain ⟨exclusive, resting⟩ := AsyncLoop.reachable_resting .thread (backgroundThread_reached reached)
  cases point : self.ui with
  | startTest | validateTest | validateSet | invalidTest | setStarted | stopTest | hasNewFrame | mapTest | mapSet =>
    simp only [foreground, point, Option.some.injEq] at moved
    subst moved
    constructor <;> grind
  | ready =>
    simp only [foreground, point] at moved
    cases moved
  | awaitRunning | setStopped =>
    simp only [foreground, point, beginCall, AsyncLoop.perform] at moved
    constructor <;> grind [InStop, AsyncLoop.Call.entry]
  | restartStop =>
    simp only [foreground, point] at moved
    split_ifs at moved with idle
    · simp only [beginCall, AsyncLoop.perform] at moved
      constructor <;> grind [InStart, AsyncLoop.Call.entry]
    · obtain ⟨loop, called, rfl⟩ := Option.map_eq_some_iff.mp moved
      obtain ⟨inside, left, same⟩ := stop_proceeds (stops (.inl point)) exclusive resting called
      constructor <;> grind
  | stopping =>
    simp only [foreground, point] at moved
    split_ifs at moved with idle
    · obtain rfl := Option.some.inj moved
      constructor <;> grind
    · obtain ⟨loop, called, rfl⟩ := Option.map_eq_some_iff.mp moved
      obtain ⟨inside, left, same⟩ := stop_proceeds (stops (.inr point)) exclusive resting called
      constructor <;> grind
  | restartStart =>
    simp only [foreground, point] at moved
    split_ifs at moved with idle
    · obtain rfl := Option.some.inj moved
      constructor <;> grind
    · obtain ⟨loop, called, rfl⟩ := Option.map_eq_some_iff.mp moved
      obtain ⟨inside, left, same⟩ := start_proceeds (starts point) (fun at_ => set_ point (.inr at_)) called
      constructor <;> grind

/-- In every run the engine calls its loop where it seems to. -/
theorem reachable_calling (reached : Reachable (· = created) (Performs perform) self) : self.Calling := by
  obtain ⟨origin, rfl, run⟩ := reached
  induction run with
  | refl => constructor <;> simp [created, AsyncLoop.constructed]
  | @tail before after earlier step inductionHypothesis =>
    obtain ⟨action, moved⟩ := step
    cases action with
    | background frame => exact calling_background inductionHypothesis moved
    | foreground => exact calling_foreground ⟨_, rfl, earlier⟩ inductionHypothesis moved
    | call call =>
      rw [perform] at moved
      split_ifs at moved with ready
      obtain rfl := Option.some.inj moved
      obtain ⟨outside, -, -, -, -, body⟩ := inductionHypothesis
      have idle := outside (by simp [ready]) (by simp [ready]) (by simp [ready])
      refine ⟨fun _ _ _ => idle, ?_, ?_, ?_, ?_, body⟩ <;> cases call <;> simp [Call.entry]

end AsyncRenderEngine

end Ospray
