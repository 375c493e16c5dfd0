import Mathlib.Logic.Function.Basic
import Mathlib.Data.List.Induction
import Mathlib.Data.List.Nodup
import Mathlib.Data.UInt
import Ospray.Common.WorkItems

/-!
# The command stream

The device writes every work item as the tag of its type followed by its fields,
and a worker looks the tag up in its registry and deserializes an item of the
type it finds. Tags are handed out in the order in which types are registered,
which is the same on both sides. A worker therefore reconstructs the work items
whose bytes have been broadcast, in order, and then waits for more.
-/

namespace Ospray.Mpi

open Library.Bytes Networking

/-- The state of `translatedHash`: the hashes seen so far. The number of a hash
is its position. -/
structure IdTranslation where
  seen : List UInt64 := []
  deriving DecidableEq

/-- `translatedHash`: a hash that is new gets the next number. -/
def IdTranslation.translatedHash (translation : IdTranslation) (v : UInt64) :
    UInt64 × IdTranslation :=
  if v ∈ translation.seen then
    (UInt64.ofNat (translation.seen.idxOf v), translation)
  else
    (UInt64.ofNat translation.seen.length, { seen := translation.seen ++ [v] })

/-- `WorkTypeRegistry`, from tags to the function that makes an item. -/
abbrev WorkTypeRegistry := UInt64 → Option WorkType

/-- The types in the order of `registerOSPWorkItems`. -/
def registrationOrder : List WorkType :=
  [.setLoadBalancer,
    .newObject .renderer, .newObject .model, .newObject .geometry, .newObject .camera,
    .newObject .volume, .newObject .transferFunction, .newObject .pixelOp,
    .newMaterial, .newMaterial2, .newLight,
    .newData, .newObject .texture,
    .commitObject, .commandRelease,
    .loadModule,
    .editModel .addGeometry, .editModel .addVolume, .editModel .removeGeometry,
    .editModel .removeVolume,
    .createFrameBuffer, .clearFrameBuffer, .renderFrame,
    .setRegion, .setPixelOp,
    .setMaterial, .setParam .object, .setParam .string, .setParam .int, .setParam .bool,
    .setParam .float, .setParam .vec2f, .setParam .vec2i, .setParam .vec3f, .setParam .vec3i,
    .setParam .vec4f,
    .removeParam,
    .commandFinalize, .pick]

section Tags

-- `typeid(T).hash_code()` in one process.
variable (hashCode : WorkType → UInt64)

/-- `registerWorkUnit`. -/
def registerWorkUnit (state : WorkTypeRegistry × IdTranslation) (type : WorkType) :
    WorkTypeRegistry × IdTranslation :=
  let (tag, translation) := state.2.translatedHash (hashCode type)
  (Function.update state.1 tag (some type), translation)

/-- `registerOSPWorkItems` of a process that has not asked for a type's number. -/
def registerOSPWorkItems : WorkTypeRegistry × IdTranslation :=
  registrationOrder.foldl (registerWorkUnit hashCode) (fun _ => none, {})

/-- The tag of a type: its place in the order of registration. -/
def tagOf (type : WorkType) : UInt64 := UInt64.ofNat (registrationOrder.idxOf type)

end Tags

section Master

variable {φ : Type}

/-- The part of `MPIOffloadDevice` that sends work. -/
structure MPIOffloadDevice (φ : Type) where
  translation : IdTranslation
  writeStream : BufferedWriteStream φ

/-- A work item and whether the write stream is flushed after it. -/
structure Command where
  work : Work
  flushWriteStream : Bool := false

/-- `MPIOffloadDevice::processWork`, up to the part that runs on the master. -/
def MPIOffloadDevice.processWork [Fabric φ] (hashCode : WorkType → UInt64)
    (device : MPIOffloadDevice φ) (command : Command) : Except WriteStop (MPIOffloadDevice φ) := do
  let (tag, translation) := device.translation.translatedHash (hashCode command.work.type)
  let tagged ← device.writeStream.write (Raw.toBytes tag)
  let written ← tagged.writeAll command.work.serialize
  let writeStream ← if command.flushWriteStream then written.flush else .ok written
  pure { translation, writeStream }

/-- The work items of an application, one after the other. -/
def MPIOffloadDevice.processWorks [Fabric φ] (hashCode : WorkType → UInt64)
    (device : MPIOffloadDevice φ) (commands : List Command) :
    Except WriteStop (MPIOffloadDevice φ) :=
  commands.foldlM (processWork hashCode) device

/-- A device that has registered the types of work items and opened its stream. -/
def MPIOffloadDevice.initializeDevice (hashCode : WorkType → UInt64) (fabric : φ) (maxBufferSize : Nat) :
    MPIOffloadDevice φ where
  translation := (registerOSPWorkItems hashCode).2
  writeStream := { fabric, maxBufferSize }

/-- `readWork`. -/
def readWork [Fabric φ] (registry : WorkTypeRegistry) : StreamReader φ Work := do
  let tag : UInt64 ← inRaw
  match registry tag with
  | none => throw (.runtimeError ("Invalid work type received - tag #: " ++ toString tag ++ "\n"))
  | some type => type.deserialize

/-- The loop of `runWorker` for a number of work items. -/
def readWorks [Fabric φ] (registry : WorkTypeRegistry) : Nat → StreamReader φ (List Work)
  | 0 => pure []
  | count + 1 => do
    let work ← readWork registry
    let rest ← readWorks registry count
    pure (work :: rest)

/-- The bytes of one work item in the command stream. -/
def Work.wire (work : Work) : List UInt8 := Raw.toBytes (tagOf work.type) ++ work.serialize.flatten

/-- The bytes of a sequence of commands. -/
def wire (commands : List Command) : List UInt8 := commands.flatMap fun command => command.work.wire

end Master

section Worker

variable {φ : Type} [LosslessFabric φ] {hashCode : WorkType → UInt64}

end Worker

section Sent

variable {φ : Type} [LosslessFabric φ] {hashCode : WorkType → UInt64}

/-- What processing commands does to a device. What is in flight includes every
command up to one that was flushed. -/
structure Processed (device : MPIOffloadDevice φ) (commands : List Command)
    (next : MPIOffloadDevice φ) : Prop where
  translation : next.translation = device.translation
  wrote : Wrote device.writeStream (wire commands) next.writeStream
  flushed : ∀ before command after, commands = before ++ command :: after →
    command.flushWriteStream = true →
      device.writeStream.written ++ wire (before ++ [command]) <+:
        LosslessFabric.inFlight next.writeStream.fabric

/-- Processing one command, then others. -/
theorem Processed.trans {device middle next : MPIOffloadDevice φ} {command : Command}
    {rest : List Command} (front : Processed device [command] middle)
    (back : Processed middle rest next) : Processed device (command :: rest) next := by
  have bytes : wire (command :: rest) = wire [command] ++ wire rest := by simp [wire]
  constructor
  · exact back.translation.trans front.translation
  · rw [bytes]
    exact front.wrote.trans back.wrote
  · intro before other after split_ flush
    cases before with
    | nil =>
      obtain ⟨rfl, rfl⟩ := List.cons.inj split_
      exact (front.flushed [] command [] rfl flush).trans back.wrote.sent
    | cons first before =>
      obtain ⟨rfl, rfl⟩ := List.cons.inj split_
      have later := back.flushed before other after rfl flush
      rw [front.wrote.written, List.append_assoc] at later
      have joined : wire (command :: before ++ [other]) = wire [command] ++ wire (before ++ [other]) := by
        simp [wire]
      rw [joined]
      exact later

end Sent

section Delivery

variable {φ : Type} [LosslessFabric φ] {masterHash workerHash : WorkType → UInt64}

end Delivery

section Broadcast

variable {hashCode : WorkType → UInt64}

/-- The device sends all commands, and the loop of a worker reads back every command
up to the last flush at least. Each has the type it was sent with and the same
values of what its `run` uses, and takes the bytes written for it. Then the loop
waits. -/
def RoundTrips (masterHash workerHash : WorkType → UInt64) (maxBufferSize : Nat)
    (commands : List Command) : Prop :=
  ∃ device, (MPIOffloadDevice.initializeDevice masterHash ({} : MPIBcastFabric)
      maxBufferSize).processWorks masterHash commands = .ok device ∧
    device.writeStream.written = wire commands ∧
    ∃ received held, commands = received ++ held ∧
      (∀ command ∈ held, command.flushWriteStream = false) ∧
      (∀ count ≤ received.length, ∃ works stream,
        (readWorks (registerOSPWorkItems workerHash).1 count).run
            { fabric := device.writeStream.fabric } = .ok (works, stream) ∧
        works.map Work.type = (received.take count).map (fun command => command.work.type) ∧
        works.map Work.usedByRun = (received.take count).map (fun command => command.work.usedByRun) ∧
        device.writeStream.fabric.blocks.flatten = wire (received.take count) ++ stream.unread) ∧
      (readWorks (registerOSPWorkItems workerHash).1 (received.length + 1)).run
        { fabric := device.writeStream.fabric } = .error .waiting

end Broadcast

end Ospray.Mpi
