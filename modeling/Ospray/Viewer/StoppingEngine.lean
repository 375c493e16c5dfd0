import Ospray.Viewer.AsyncRenderEngine

/-!
# Stopping the engine

Where no body stores `RUNNING` behind the back of a `stop`, the state of the engine says
between the calls whether the loop is to run, so that `stop` releases the body it waits for,
and a later `start` finds an engine to be started. The two windows in which the other runs go
wrong are a few instructions wide; what has gone wrong in them stays so.
-/

namespace Ospray

open Library.Runs

namespace AsyncRenderEngine

variable {self next : AsyncRenderEngine}

/-! ## Runs that meet the condition -/

/-- Outside of the calls that start and stop the loop, the state says whether it is to
run. -/
def Between (ui : EnginePoint) : Prop :=
  ui = .ready ∨ ui = .startTest ∨ ui = .stopTest ∨ ui = .hasNewFrame ∨ ui = .mapTest ∨ ui = .mapSet

/-- The engine seems to run while the loop is to run: no body has stored `RUNNING` behind
the back of a call. -/
structure Governed (engine : AsyncRenderEngine) : Prop where
  between : Between engine.ui → (engine.state = .running ↔ engine.backgroundThread.loopShouldBeRunning = true)
  starting : engine.ui = .validateTest ∨ engine.ui = .validateSet ∨ engine.ui = .invalidTest ∨ engine.ui = .setStarted →
    engine.state ≠ .running ∧ engine.backgroundThread.loopShouldBeRunning = false
  awaits : engine.ui = .awaitRunning →
    engine.backgroundThread.loopShouldBeRunning = true ∨ engine.state ≠ .running
  inside : engine.ui = .awaitRunning ∨ engine.ui = .restartStop ∨ engine.ui = .restartStart →
    engine.backgroundThread.loop = .callFcn → engine.body ≠ .setRunning → engine.state = .running
  fetched : engine.ui = .restartStop → engine.Spins → engine.newPixels = false
  stopping : engine.ui = .stopping → engine.state ≠ .running

/-- A step of the background thread that meets the condition. -/
theorem governed_background (calling : self.Calling) (resting : self.backgroundThread.Resting)
    (governed : self.Governed) {frame : Bool} (admissible : self.Admissible (.background frame))
    (moved : self.background frame = some next) : next.Governed := by
  obtain ⟨between, starting, awaits, inside, fetched, stopping⟩ := governed
  obtain ⟨stores, spins⟩ := admissible
  obtain ⟨loop, ran, rest, -, published⟩ | ⟨here, ⟨point, rest⟩ | ⟨apart, rest, beyond, spinning⟩⟩ := background_cases moved
  · obtain ⟨-, running, controller, -⟩ := AsyncLoop.mainLoop_frame ran
    have body_ : next.body = .setRunning := by rw [rest]
    have ui_ : next.ui = self.ui := by rw [rest]
    have state_ : next.state = self.state := by rw [rest]
    have thread : next.backgroundThread = loop := by rw [rest]
    rw [← thread] at running
    constructor
    · rw [ui_, state_, running]
      exact between
    · rw [ui_, state_, running]
      exact starting
    · rw [ui_, state_, running]
      exact awaits
    · exact fun _ _ left => absurd body_ left
    · rintro - ⟨-, at_ | at_⟩ <;> rw [body_] at at_ <;> cases at_
    · rw [ui_, state_]
      exact stopping
  · have passed : self.backgroundThread.Passed := by simp [AsyncLoop.Passed, here]
    -- outside of a call the loop is in its body only if it is to run
    have runs : self.ui ≠ .restartStop → self.ui ≠ .stopping → self.backgroundThread.loopShouldBeRunning = true := by
      intro one two
      by_contra stopped
      refine resting.rests (by simpa using stopped) ?_ passed
      by_cases starts : self.ui = .restartStart
      · obtain at_ | at_ | at_ | at_ := calling.starts starts <;> simp [at_]
      · simp [calling.outside one starts two]
    have notStopping := stores here point
    rw [rest]
    constructor
    · intro between_
      have set_ := runs (by rintro at_; simp [Between, at_] at between_) notStopping
      exact ⟨fun _ => set_, fun _ => rfl⟩
    · intro at_
      have cleared := (starting at_).2
      rw [runs (by rintro same; simp [same] at at_) notStopping] at cleared
      cases cleared
    · intro at_
      exact .inl (runs (by simp [show self.ui = .awaitRunning from at_]) notStopping)
    · exact fun _ _ _ => rfl
    · rintro - ⟨-, at_ | at_⟩ <;> cases at_
    · exact fun at_ => absurd at_ notStopping
  · have ui_ : next.ui = self.ui := by rw [rest]
    have state_ : next.state = self.state := by rw [rest]
    have thread : next.backgroundThread = self.backgroundThread := by rw [rest]
    have pixels : next.newPixels = self.newPixels := by rw [rest]
    constructor
    · rw [ui_, state_, thread]
      exact between
    · rw [ui_, state_, thread]
      exact starting
    · rw [ui_, state_, thread]
      exact awaits
    · rw [ui_, state_]
      exact fun at_ _ _ => inside at_ here apart
    · intro at_ spins_
      rw [ui_] at at_
      rw [pixels]
      obtain already | ⟨point, rendered⟩ := spinning spins_
      · exact fetched at_ already
      · by_contra full
        exact spins here point rendered (by simpa using full) at_
    · rw [ui_, state_]
      exact stopping

theorem idle_rests (reached : Reachable (· = created) (Performs perform) self)
    (idle : self.backgroundThread.controller = .idle) (stopped : self.backgroundThread.loopShouldBeRunning = false) :
    self.backgroundThread.loop ≠ .callFcn := by
  intro here
  have resting := (AsyncLoop.reachable_resting .thread (backgroundThread_reached reached)).2
  exact resting.rests stopped (by simp [idle]) (by simp [AsyncLoop.Passed, here])

theorem governed_starting (reached : Reachable (· = created) (Performs perform) self)
    (governed : self.Governed) (moved : self.foreground = some next)
    (at_ : self.ui ∈ [.startTest, .validateTest, .validateSet, .invalidTest, .setStarted]) : next.Governed := by
  obtain ⟨between, starting, awaits, inside, fetched, stopping⟩ := governed
  obtain ⟨outside, stops, starts, cleared, set_, body⟩ := reachable_calling reached
  have rests := idle_rests reached
  cases point : self.ui with
  | startTest | validateTest | validateSet | invalidTest | setStarted =>
    simp only [foreground, point, Option.some.injEq] at moved
    subst moved
    constructor <;> grind [Between]
  | _ => simp [point] at at_

theorem governed_fetching (reached : Reachable (· = created) (Performs perform) self)
    (governed : self.Governed) (moved : self.foreground = some next)
    (at_ : self.ui ∈ [.stopTest, .hasNewFrame, .mapTest, .mapSet]) : next.Governed := by
  obtain ⟨between, starting, awaits, inside, fetched, stopping⟩ := governed
  obtain ⟨outside, stops, starts, cleared, set_, body⟩ := reachable_calling reached
  have rests := idle_rests reached
  cases point : self.ui with
  | stopTest | hasNewFrame | mapTest | mapSet =>
    simp only [foreground, point, Option.some.injEq] at moved
    subst moved
    constructor <;> grind [Between]
  | _ => simp [point] at at_

theorem governed_calls (reached : Reachable (· = created) (Performs perform) self)
    (governed : self.Governed) (moved : self.foreground = some next)
    (at_ : self.ui ∈ [.awaitRunning, .setStopped]) : next.Governed := by
  obtain ⟨between, starting, awaits, inside, fetched, stopping⟩ := governed
  obtain ⟨outside, stops, starts, cleared, set_, body⟩ := reachable_calling reached
  have rests := idle_rests reached
  cases point : self.ui with
  | awaitRunning =>
    simp only [foreground, point, beginCall, AsyncLoop.perform] at moved
    constructor <;> grind [Between, AsyncLoop.Call.entry, Spins]
  | setStopped =>
    simp only [foreground, point, beginCall, AsyncLoop.perform] at moved
    constructor <;> grind [Between, AsyncLoop.Call.entry, Spins]
  | _ => simp [point] at at_

/-- The `stop` of the loop when the engine starts again. -/
theorem governed_restarting (reached : Reachable (· = created) (Performs perform) self)
    (governed : self.Governed) (moved : self.foreground = some next)
    (at_ : self.ui ∈ [.restartStop]) : next.Governed := by
  obtain ⟨between, starting, awaits, inside, fetched, stopping⟩ := governed
  obtain ⟨outside, stops, starts, cleared, set_, body⟩ := reachable_calling reached
  obtain ⟨exclusive, resting⟩ := AsyncLoop.reachable_resting .thread (backgroundThread_reached reached)
  have rests := idle_rests reached
  cases point : self.ui with
  | restartStop =>
    simp only [foreground, point] at moved
    split_ifs at moved with idle
    · simp only [beginCall, AsyncLoop.perform] at moved
      constructor <;> grind [Between, AsyncLoop.Call.entry, Spins]
    · obtain ⟨loop, called, rfl⟩ := Option.map_eq_some_iff.mp moved
      obtain ⟨-, -, same⟩ := stop_proceeds (stops (.inl point)) exclusive resting called
      constructor <;> grind [Between, Spins]
  | _ => simp [point] at at_

/-- A step of the user interface thread. -/
theorem governed_foreground (reached : Reachable (· = created) (Performs perform) self)
    (governed : self.Governed) (moved : self.foreground = some next) : next.Governed := by
  have governed' := governed
  obtain ⟨between, starting, awaits, inside, fetched, stopping⟩ := governed
  obtain ⟨outside, stops, starts, cleared, set_, body⟩ := reachable_calling reached
  obtain ⟨exclusive, resting⟩ := AsyncLoop.reachable_resting .thread (backgroundThread_reached reached)
  have rests := idle_rests reached
  cases point : self.ui with
  | ready =>
    simp only [foreground, point] at moved
    cases moved
  | startTest | validateTest | validateSet | invalidTest | setStarted =>
    exact governed_starting reached governed' moved (by simp [point])
  | stopTest | hasNewFrame | mapTest | mapSet => exact governed_fetching reached governed' moved (by simp [point])
  | awaitRunning | setStopped => exact governed_calls reached governed' moved (by simp [point])
  | restartStop => exact governed_restarting reached governed' moved (by simp [point])
  | stopping =>
    simp only [foreground, point] at moved
    split_ifs at moved with idle
    · obtain rfl := Option.some.inj moved
      constructor <;> grind [Between]
    · obtain ⟨loop, called, rfl⟩ := Option.map_eq_some_iff.mp moved
      constructor <;> grind [Between]
  | restartStart =>
    simp only [foreground, point] at moved
    split_ifs at moved with idle
    · obtain rfl := Option.some.inj moved
      constructor <;> grind [Between]
    · obtain ⟨loop, called, rfl⟩ := Option.map_eq_some_iff.mp moved
      obtain ⟨-, -, same⟩ := start_proceeds (starts point) (fun at_ => set_ point (.inr at_)) called
      constructor <;> grind [Between]

/-- In every run that meets the condition the engine is governed by its calls. -/
theorem admissible_governed (reached : Reachable (· = created) AdmissibleStep self) :
    Reachable (· = created) (Performs perform) self ∧ self.Governed := by
  obtain ⟨origin, rfl, run⟩ := reached
  induction run with
  | refl =>
    refine ⟨reachable_start rfl, ?_⟩
    constructor <;> simp [created, AsyncLoop.constructed]
  | @tail before after _ step inductionHypothesis =>
    obtain ⟨run, governed⟩ := inductionHypothesis
    obtain ⟨action, admissible, moved⟩ := step
    refine ⟨reachable_step run ⟨action, moved⟩, ?_⟩
    have resting := (AsyncLoop.reachable_resting .thread (backgroundThread_reached run)).2
    cases action with
    | background frame => exact governed_background (reachable_calling run) resting governed admissible moved
    | foreground => exact governed_foreground run governed moved
    | call call =>
      rw [perform] at moved
      split_ifs at moved with ready
      obtain rfl := Option.some.inj moved
      have between := governed.between (.inl ready)
      cases call <;> constructor <;> simp_all [Call.entry, Between]

/-! ## Stopping -/

/-- The engine is stopped, and no call starts it. -/
structure Halted (engine : AsyncRenderEngine) : Prop where
  state : engine.state ≠ .running
  flag : engine.backgroundThread.loopShouldBeRunning = false
  between : Between engine.ui
  noStart : engine.ui ≠ .startTest

theorem halted_quiescent (reached : Reachable (· = created) (Performs perform) self) (halted : self.Halted) :
    self.backgroundThread.Quiescent := by
  obtain ⟨exclusive, resting⟩ := AsyncLoop.reachable_resting .thread (backgroundThread_reached reached)
  have idle : self.backgroundThread.controller = .idle := by
    apply (reachable_calling reached).outside <;> intro at_ <;> simpa [Between, at_] using halted.between
  have passes : ¬self.backgroundThread.Passed := resting.rests halted.flag (by simp [idle])
  refine ⟨?_, passes⟩
  by_contra inside
  obtain at_ | at_ | at_ := exclusive.inside (by simpa using inside) <;>
    exact passes (by simp [AsyncLoop.Passed, at_])

/-- Until a `start` begins, an engine that is halted stays so. -/
theorem stepWithoutStart_halted (reached : Reachable (· = created) (Performs perform) self) (halted : self.Halted)
    (step : self.StepWithoutStart next) : next.Halted := by
  have quiescent := halted_quiescent reached halted
  obtain ⟨state, flag, between, noStartYet⟩ := halted
  obtain ⟨⟨action, moved⟩, noStart⟩ := step
  cases action with
  | background frame =>
    obtain ⟨loop, ran, rest, -⟩ | ⟨here, -⟩ := background_cases moved
    · obtain ⟨-, running, -⟩ := AsyncLoop.mainLoop_frame ran
      rw [rest]
      exact ⟨state, running.trans flag, between, noStartYet⟩
    · exact absurd (by simp [AsyncLoop.Passed, here]) quiescent.notPassed
  | call call =>
    rw [perform] at moved
    split_ifs at moved with ready
    obtain rfl := Option.some.inj moved
    refine ⟨state, flag, ?_, noStart⟩
    cases call with
    | start => exact absurd rfl noStart
    | stop | hasNewFrame | mapFramebuffer => simp [Call.entry, Between]
  | foreground =>
    refine ⟨?_, ?_, ?_, noStart⟩ <;> obtain at_ | at_ | at_ | at_ | at_ | at_ := between <;>
      grind [perform, foreground, Between]

/-- In every run that meets the condition the user interface thread never waits for the mutex
while the background thread spins, and from the return of a `stop` to the beginning of the
next `start` the engine is stopped. A `start` that has returned has really started it. -/
theorem stop_cannot_hang (reached : Reachable (· = created) AdmissibleStep self) :
    ¬self.Hung ∧
      (∀ returned later, self.StopReturns returned →
        Relation.ReflTransGen StepWithoutStart returned later → later.Stopped) ∧
      ∀ returned, self.StartReturns returned →
        returned.state = .running ∧ returned.backgroundThread.loopShouldBeRunning = true := by
  obtain ⟨run, governed⟩ := admissible_governed reached
  have calling := reachable_calling run
  refine ⟨?_, ?_, ?_⟩
  · rintro ⟨waits, spins, running, full⟩
    by_cases stopping : self.ui = .stopping
    · exact governed.stopping stopping running
    · by_cases retries : self.ui = .restartStop
      · have fetched := governed.fetched retries spins
        rw [full] at fetched
        cases fetched
      · by_cases starts : self.ui = .restartStart
        · obtain at_ | at_ | at_ | at_ := calling.starts starts <;> simp [at_] at waits
        · simp [calling.outside retries starts stopping] at waits
  · rintro returned later ⟨stopping, moved, ready⟩ onwards
    have first : Reachable (· = created) (Performs perform) returned ∧ returned.Halted := by
      refine ⟨reachable_step run ⟨.foreground, moved⟩, ?_⟩
      simp only [perform, foreground, stopping] at moved
      split_ifs at moved with idle
      · obtain rfl := Option.some.inj moved
        exact ⟨governed.stopping stopping, calling.cleared (.inr stopping) idle, .inl rfl, by simp⟩
      · obtain ⟨loop, -, rfl⟩ := Option.map_eq_some_iff.mp moved
        simp [stopping] at ready
    have last : Reachable (· = created) (Performs perform) later ∧ later.Halted := by
      induction onwards with
      | refl => exact first
      | tail _ step inductionHypothesis =>
        obtain ⟨before, halted⟩ := inductionHypothesis
        exact ⟨reachable_step before step.1, stepWithoutStart_halted before halted step⟩
    exact ⟨last.2.state, halted_quiescent last.1 last.2⟩
  · rintro returned ⟨at_ | at_, moved, ready⟩
    · simp only [perform, foreground, at_, Option.some.injEq] at moved
      subst moved
      have running : self.state = .running := by
        by_contra other
        simp [other] at ready
      exact ⟨running, (governed.between (by simp [Between, at_])).mp running⟩
    · simp only [perform, foreground, at_] at moved
      split_ifs at moved with running
      · obtain rfl := Option.some.inj moved
        exact ⟨running, (governed.awaits at_).resolve_right fun other => other running⟩
      · obtain ⟨loop, -, rfl⟩ := Option.map_eq_some_iff.mp moved
        cases ready

instance : DecidablePred self.Admissible
  | .background _ => inferInstanceAs (Decidable (_ ∧ _))
  | .call _ => .isTrue trivial
  | .foreground => .isTrue trivial

/-- One step, if it meets the condition. -/
def performAdmissible (self : AsyncRenderEngine) (action : Action) : Option AsyncRenderEngine :=
  if self.Admissible action then self.perform action else none

/-- A `start` up to its second test of the state, with the loop on its way into the body. -/
def starting : List Action :=
  [.call .start] ++ List.replicate 12 .foreground ++ List.replicate 6 (.background true)

/-- The body stores `RUNNING`, `start` returns, and there is a frame. -/
def firstFrame : List Action :=
  [.background true, .foreground] ++ List.replicate 5 (.background true)

/-- A `stop` that finds the loop outside its body, up to its return. -/
def stopAfter : List Action :=
  [.call .stop] ++ List.replicate 4 .foreground ++ List.replicate 2 (.background true) ++
    List.replicate 3 .foreground

/-- The engine is stopped after its first frame. -/
theorem stop_cannot_hang_after :
    { created with state := .stopped, newPixels := true }.Stopped := by
  have performed : (starting ++ firstFrame ++ stopAfter).foldlM performAdmissible created =
      some { created with state := .stopped, newPixels := true, ui := .stopping } := by decide
  have reached : Reachable (· = created) AdmissibleStep
      { created with state := .stopped, newPixels := true, ui := .stopping } := by
    refine ⟨created, rfl, Relation.ReflTransGen.mono ?_ _ _ (calls_run performed)⟩
    rintro before after ⟨action, moved⟩
    rw [performAdmissible] at moved
    split_ifs at moved with admissible
    exact ⟨action, admissible, moved⟩
  exact (stop_cannot_hang reached).2.1 _ _ ⟨rfl, rfl, rfl⟩ .refl

/-- The loop goes on to its next execution of the body. -/
def enterAgain : List Action := List.replicate 8 (.background true)

/-- `stop` stores `STOPPED` before the body stores `RUNNING`. -/
def stopInWindow : List Action :=
  [.call .stop, .foreground, .foreground, .background true, .foreground, .foreground]

/-- The `start` looks at the state before the body stores `RUNNING`, and clears the flag after
the first frame. -/
def retryInWindow : List Action :=
  [.foreground] ++ List.replicate 6 (.background true) ++ enterAgain ++
    [.background true, .background true, .foreground, .foreground]

/-- The frame is rendered, and the body begins to spin. -/
def spinNow : List Action := [.background true]

/-- There is no frame, and the `stop` gets the mutex. -/
def leaveWithout : List Action :=
  [.background false, .background true, .background true] ++ List.replicate 3 .foreground

/-- The loop is in its body, and the user interface thread waits for the mutex. -/
def hanging (ui : EnginePoint) : AsyncRenderEngine :=
  { backgroundThread := { AsyncLoop.constructed .thread with
      insideLoopBody := true, loopRunningMutex := some .loop, loop := .callFcn, controller := .stopLock }
    state := .running, newPixels := true, body := .testState, ui }

/-- A `stop`, and the retry of a `start`, can hang; and a `stop` can return and leave an engine
that seems to run. -/
theorem stop_hangs :
    (∃ state, Reachable (· = created) (Performs perform) state ∧ state.ui = .stopping ∧ state.Hung) ∧
      (∃ state, Reachable (· = created) (Performs perform) state ∧ state.ui = .restartStop ∧ state.Hung) ∧
      ∃ state returned, Reachable (· = created) (Performs perform) state ∧ state.StopReturns returned ∧
        ¬returned.Stopped := by
  have hung : ∀ ui, (hanging ui).Hung := fun ui => ⟨.inl rfl, ⟨rfl, .inl rfl⟩, rfl, rfl⟩
  refine ⟨⟨hanging .stopping, ⟨created, rfl, ?_⟩, rfl, hung _⟩, ⟨hanging .restartStop, ⟨created, rfl, ?_⟩, rfl, hung _⟩,
    { created with state := .running, newPixels := true, ui := .stopping }, _, ⟨created, rfl, ?_⟩, ⟨rfl, rfl, rfl⟩, ?_⟩
  · have performed : (starting ++ firstFrame ++ enterAgain ++ stopInWindow ++ spinNow).foldlM perform created =
        some (hanging .stopping) := by decide
    exact calls_run performed
  · have performed : (starting ++ retryInWindow).foldlM perform created = some (hanging .restartStop) := by decide
    exact calls_run performed
  · have performed : (starting ++ firstFrame ++ enterAgain ++ stopInWindow ++ leaveWithout).foldlM perform created =
        some { created with state := .running, newPixels := true, ui := .stopping } := by decide
    exact calls_run performed
  · exact fun stopped => stopped.1 rfl

end AsyncRenderEngine

end Ospray
