import Ospray.Viewer.StoppingEngine

/-!
# What the engine delivers

Frames go from the loop body to the user interface thread through two buffers. The body
writes the back one and then sets `newPixels`, and `mapFramebuffer` swaps the two when it
finds the flag set; nothing else keeps the threads apart. A body that finds the engine
not running does not even wait for the flag, and overwrites a frame that nobody has
fetched.

A buffer is given by what is in it: no frame, a complete frame, told by its number, or one
that is being written.
-/

namespace Ospray

open Library.Runs

namespace AsyncRenderEngine

variable {self next : AsyncRenderEngine}

/-! ## When the body writes -/

/-- The body is past its first store. -/
def Inside (self : AsyncRenderEngine) : Prop :=
  self.backgroundThread.loop = .callFcn ∧ self.body ≠ .setRunning

/-- The body writes the back buffer, or has written it and not said so yet. -/
def Writing (self : AsyncRenderEngine) : Prop :=
  self.backgroundThread.loop = .callFcn ∧ (self.body = .copy ∨ self.body = .setPixels)

/-- The points of `start` before it turns to the loop. -/
def Preparing (ui : EnginePoint) : Prop :=
  ui = .validateTest ∨ ui = .validateSet ∨ ui = .invalidTest ∨ ui = .setStarted

/-- Only a `stop` under way makes a body leave its spin with new pixels there. -/
structure Paced (engine : AsyncRenderEngine) : Prop where
  halted : engine.ui ≠ .awaitRunning → engine.ui ≠ .restartStop → engine.ui ≠ .restartStart →
    engine.ui ≠ .stopping → engine.state ≠ .running → engine.backgroundThread.loopShouldBeRunning = false
  preparing : Preparing engine.ui → engine.state ≠ .running
  inside : engine.Inside → engine.state ≠ .running → engine.ui = .stopping
  writing : engine.Writing → engine.newPixels = true → engine.ui = .stopping
  mapping : engine.ui = .mapSet → engine.newPixels = true

theorem Paced.rests (paced : self.Paced) (reached : Reachable (· = created) (Performs perform) self)
    (elsewhere : self.ui ≠ .awaitRunning ∧ self.ui ≠ .restartStop ∧ self.ui ≠ .restartStart ∧ self.ui ≠ .stopping)
    (stopped : self.state ≠ .running) : self.backgroundThread.loop ≠ .callFcn := by
  have resting := (AsyncLoop.reachable_resting .thread (backgroundThread_reached reached)).2
  obtain ⟨awaiting, stops, starts, stopping⟩ := elsewhere
  have idle := (reachable_calling reached).outside stops starts stopping
  intro here
  exact resting.rests (paced.halted awaiting stops starts stopping stopped) (by simp [idle]) (by simp [AsyncLoop.Passed, here])

/-- A step from outside of the calls of the loop, which may clear the flag. -/
theorem Paced.moves (paced : self.Paced)
    (elsewhere : self.ui ≠ .awaitRunning ∧ self.ui ≠ .restartStop ∧ self.ui ≠ .restartStart ∧ self.ui ≠ .stopping)
    {pixels : Bool} {ui : EnginePoint} (kept : pixels = true → self.newPixels = true)
    (preparing : Preparing ui → self.state ≠ .running) (mapping : ui = .mapSet → pixels = true) :
    { self with newPixels := pixels, ui }.Paced := by
  obtain ⟨awaiting, stops, starts, stopping⟩ := elsewhere
  refine ⟨fun _ _ _ _ => paced.halted awaiting stops starts stopping, preparing, fun inside stopped => ?_,
    fun writes new => ?_, mapping⟩
  · exact absurd (paced.inside inside stopped) stopping
  · exact absurd (paced.writing writes (kept new)) stopping

/-- A step of a call of the loop in `start`. -/
theorem Paced.calls (paced : self.Paced) (elsewhere : self.ui ≠ .stopping) {loop : AsyncLoop} {ui : EnginePoint}
    (within : ui = .awaitRunning ∨ ui = .restartStop ∨ ui = .restartStart)
    (same : loop.loop = .callFcn → self.backgroundThread.loop = .callFcn) :
    { self with backgroundThread := loop, ui }.Paced := by
  have inside (here : Inside { self with backgroundThread := loop, ui }) : self.Inside := ⟨same here.1, here.2⟩
  have writes (here : Writing { self with backgroundThread := loop, ui }) : self.Writing := ⟨same here.1, here.2⟩
  rcases within with rfl | rfl | rfl <;>
    exact ⟨by simp, by simp [Preparing], fun here stopped => absurd (paced.inside (inside here) stopped) elsewhere,
      fun here new => absurd (paced.writing (writes here) new) elsewhere, by simp⟩

end AsyncRenderEngine

/-! ## Two buffers -/

/-- Which of the two `values` is in front and which is back. -/
structure DoubleBufferedValue (T : Type) where
  front_value : Fin 2
  back_value : Fin 2
  values : Fin 2 → T

namespace DoubleBufferedValue

variable {T : Type}

/-- Both values are default constructed. -/
def constructed (value : T) : DoubleBufferedValue T :=
  { front_value := 0, back_value := 1, values := fun _ => value }

/-- `front` -/
def front (self : DoubleBufferedValue T) : T := self.values self.front_value

/-- `back` -/
def back (self : DoubleBufferedValue T) : T := self.values self.back_value

/-- Storing through the reference that `back` returns. -/
def setBack (self : DoubleBufferedValue T) (value : T) : DoubleBufferedValue T :=
  { self with values := Function.update self.values self.back_value value }

/-- `swap` -/
def swap (self : DoubleBufferedValue T) : DoubleBufferedValue T :=
  { self with front_value := self.back_value, back_value := self.front_value }

@[simp] theorem front_swap (self : DoubleBufferedValue T) : self.swap.front = self.back := rfl

@[simp] theorem back_swap (self : DoubleBufferedValue T) : self.swap.back = self.front := rfl

@[simp] theorem back_setBack (self : DoubleBufferedValue T) (value : T) : (self.setBack value).back = value := by
  simp [back, setBack]

end DoubleBufferedValue

/-- What is in a frame buffer. -/
inductive Picture where
  | empty
  | frame (number : Nat)
  | torn
  deriving DecidableEq

/-- The number of the frame, counted from one. -/
def Picture.number : Picture → Nat
  | .frame number => number
  | .empty | .torn => 0

/-- The engine with its buffers: how many frames have been rendered, whether the body has
resized the back buffer and not copied the frame yet, whether `mapFramebuffer` has swapped
and not cleared the flag yet, and what it has returned so far, with whether it swapped. -/
structure FrameDelivery where
  engine : AsyncRenderEngine
  frameBuffers : DoubleBufferedValue Picture
  rendered : Nat
  copying : Bool
  swapped : Bool
  mapped : List (Bool × Picture)

namespace FrameDelivery

open AsyncRenderEngine

/-- The engine with nothing rendered. -/
def created : FrameDelivery :=
  { engine := AsyncRenderEngine.created, frameBuffers := DoubleBufferedValue.constructed .empty, rendered := 0
    copying := false, swapped := false, mapped := [] }

/-- The next frame has been rendered. -/
def renderFrame (self : FrameDelivery) : FrameDelivery := { self with rendered := self.rendered + 1 }

/-- `mapFramebuffer` returns the front buffer. -/
def returnFront (self : FrameDelivery) (swapped : Bool) : FrameDelivery :=
  { self with mapped := self.mapped ++ [(swapped, self.frameBuffers.front)], swapped := false }

/-- One step of the background thread. The copying of a frame takes two of them. -/
def background (self : FrameDelivery) (frame : Bool) : Option FrameDelivery :=
  if self.engine.backgroundThread.loop = .callFcn ∧ self.engine.body = .copy ∧ self.copying = false then
    some { self with frameBuffers := self.frameBuffers.setBack .torn, copying := true }
  else
    (self.engine.background frame).map fun engine =>
      if self.engine.backgroundThread.loop = .callFcn ∧ self.engine.body = .renderFrame ∧ frame = true then
        { self with engine }.renderFrame
      else if self.copying then
        { self with
          engine, copying := false, frameBuffers := self.frameBuffers.setBack (.frame self.rendered) }
      else { self with engine }

/-- One step of the user interface thread. Swapping the buffers is one of its own. -/
def foreground (self : FrameDelivery) : Option FrameDelivery :=
  if self.engine.ui = .mapSet ∧ self.swapped = false then
    some { self with frameBuffers := self.frameBuffers.swap, swapped := true }
  else
    self.engine.foreground.map fun engine =>
      if self.engine.ui = .mapSet then { self with engine }.returnFront true
      else if self.engine.ui = .mapTest ∧ self.engine.newPixels = false then { self with engine }.returnFront false
      else { self with engine }

/-- One step of the whole. -/
def perform (self : FrameDelivery) : Action → Option FrameDelivery
  | .background frame => self.background frame
  | .call call => (self.engine.perform (.call call)).map fun engine => { self with engine }
  | .foreground => self.foreground

/-- There is a rendered frame that the body has not announced. -/
def Pending (engine : AsyncRenderEngine) : Prop :=
  engine.backgroundThread.loop = .callFcn ∧
    (engine.body = .testState ∨ engine.body = .testPixels ∨ engine.body = .copy ∨ engine.body = .setPixels)

variable {self next : FrameDelivery}

end FrameDelivery

end Ospray
