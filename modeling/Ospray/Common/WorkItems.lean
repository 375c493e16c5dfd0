import Ospray.Common.Streams

/-!
# Work items

The commands a device sends to its workers. Every type of work item writes its
fields to a stream with `serialize` and fills them from a stream with
`deserialize`. A work item has exactly the type it is deserialized as, and every
field that its `run` uses arrives as it was sent.
-/

namespace Ospray.Mpi

open Library.Bytes Networking

/-- A `float`, as the bits that the streams copy. -/
structure Float32Bits where
  bits : UInt32
  deriving DecidableEq, Repr

/-- `vec_t<T, 2>`. -/
structure Vec2 (α : Type) where
  x : α
  y : α
  deriving DecidableEq, Repr

/-- `vec_t<T, 3>`. -/
structure Vec3 (α : Type) where
  x : α
  y : α
  z : α
  deriving DecidableEq, Repr

/-- `vec_t<T, 4>`. -/
structure Vec4 (α : Type) where
  x : α
  y : α
  z : α
  w : α
  deriving DecidableEq, Repr

/-- `ObjectHandle`. -/
structure ObjectHandle where
  i64 : Int64
  deriving DecidableEq, Repr

/-- `OSPDataType`, an enumeration kept in 32 bits. -/
structure OSPDataType where
  value : UInt32
  deriving DecidableEq, Repr

/-- `OSPFrameBufferFormat`, an enumeration kept in 32 bits. -/
structure OSPFrameBufferFormat where
  value : UInt32
  deriving DecidableEq, Repr

instance : Raw Float32Bits := Raw.ofFields Float32Bits.bits Float32Bits.mk fun _ => rfl

instance {α : Type} [Raw α] : Raw (Vec2 α) :=
  Raw.ofFields (fun v => (v.x, v.y)) (fun f => ⟨f.1, f.2⟩) fun _ => rfl

instance {α : Type} [Raw α] : Raw (Vec3 α) :=
  Raw.ofFields (fun v => (v.x, v.y, v.z)) (fun f => ⟨f.1, f.2.1, f.2.2⟩) fun _ => rfl

instance {α : Type} [Raw α] : Raw (Vec4 α) :=
  Raw.ofFields (fun v => (v.x, v.y, v.z, v.w)) (fun f => ⟨f.1, f.2.1, f.2.2.1, f.2.2.2⟩) fun _ => rfl

/-- `(int32)format`. -/
def OSPDataType.toInt32 (format : OSPDataType) : Int32 := format.value.toInt32

/-- `(OSPDataType)fmt`. -/
def OSPDataType.ofInt32 (fmt : Int32) : OSPDataType := ⟨fmt.toUInt32⟩

/-- `(int32)format`. -/
def OSPFrameBufferFormat.toInt32 (format : OSPFrameBufferFormat) : Int32 := format.value.toInt32

/-- `(OSPFrameBufferFormat)fmt`. -/
def OSPFrameBufferFormat.ofInt32 (fmt : Int32) : OSPFrameBufferFormat := ⟨fmt.toUInt32⟩

/-- `b << (int64)handle`. -/
def outHandle (handle : ObjectHandle) : List (List UInt8) := outRaw handle.i64

section Readers

variable {φ : Type}

/-- `b >> handle.i64`. -/
def inHandle [Fabric φ] : StreamReader φ ObjectHandle := do
  let i64 ← inRaw
  pure ⟨i64⟩

/-- A handle followed by a string, as several items have. -/
def outHandleString (handle : ObjectHandle) (string : ByteString) : List (List UInt8) :=
  outHandle handle ++ outString string

/-- Reads a handle followed by a string. -/
def inHandleString [Fabric φ] : StreamReader φ (ObjectHandle × ByteString) := do
  let handle ← inHandle
  let string ← inString
  pure (handle, string)

/-- Two handles, as several items have. -/
def outHandles (first second : ObjectHandle) : List (List UInt8) := outHandle first ++ outHandle second

/-- Reads two handles. -/
def inHandles [Fabric φ] : StreamReader φ (ObjectHandle × ObjectHandle) := do
  let first ← inHandle
  let second ← inHandle
  pure (first, second)

variable [LosslessFabric φ]

theorem reads_handle (handle : ObjectHandle) :
    StreamReads (inHandle : StreamReader φ _) (outHandle handle).flatten handle := by
  have built := (reads_raw (φ := φ) handle.i64).map ObjectHandle.mk
  rwa [← List.append_nil (Raw.toBytes handle.i64)] at built

theorem reads_handleString (handle : ObjectHandle) (string : ByteString) :
    StreamReads (inHandleString : StreamReader φ _) (outHandleString handle string).flatten
      (handle, string) := by
  rw [outHandleString, List.flatten_append]
  apply (reads_handle handle).bind
  exact (reads_string string).map (handle, ·)

theorem reads_handles (first second : ObjectHandle) :
    StreamReads (inHandles : StreamReader φ _) (outHandles first second).flatten (first, second) := by
  rw [outHandles, List.flatten_append]
  apply (reads_handle first).bind
  exact (reads_handle second).map (first, ·)

theorem reads_outRaw {α : Type} [Raw α] (value : α) :
    StreamReads (inRaw : StreamReader φ α) (outRaw value).flatten value := by
  have bytes : (outRaw value).flatten = Raw.toBytes value := List.append_nil _
  rw [bytes]
  exact reads_raw value

end Readers

section Items

variable {φ : Type} [Fabric φ]

/-- `SetLoadBalancer`. The number of preallocated tiles stays on the master. -/
structure SetLoadBalancer where
  useDynamicLoadBalancer : Int32
  numTilesPreAllocated : Int32 := 4
  handleID : Int64
  deriving DecidableEq, Repr

/-- `SetLoadBalancer::serialize`. -/
def SetLoadBalancer.serialize (item : SetLoadBalancer) : List (List UInt8) :=
  outRaw item.handleID ++ outRaw item.useDynamicLoadBalancer

/-- `SetLoadBalancer::deserialize`. -/
def SetLoadBalancer.deserialize : StreamReader φ SetLoadBalancer := do
  let handleID ← inRaw
  let useDynamicLoadBalancer ← inRaw
  pure { handleID, useDynamicLoadBalancer }

/-- `NewObjectT<T>` for the classes `T` that are made by name alone. -/
structure NewObjectT where
  type : ByteString
  handle : ObjectHandle
  deriving DecidableEq

/-- `NewObjectT::serialize`. -/
def NewObjectT.serialize (item : NewObjectT) : List (List UInt8) :=
  outHandleString item.handle item.type

/-- `NewObjectT::deserialize`. -/
def NewObjectT.deserialize : StreamReader φ NewObjectT := do
  let fields ← inHandleString
  pure { handle := fields.1, type := fields.2 }

/-- `NewMaterial`. -/
structure NewMaterial where
  rendererHandle : ObjectHandle
  materialType : ByteString
  handle : ObjectHandle
  deriving DecidableEq

/-- `NewMaterial::serialize`. -/
def NewMaterial.serialize (item : NewMaterial) : List (List UInt8) :=
  outHandle item.handle ++ outHandle item.rendererHandle ++ outString item.materialType

/-- `NewMaterial::deserialize`. -/
def NewMaterial.deserialize : StreamReader φ NewMaterial := do
  let handle ← inHandle
  let rendererHandle ← inHandle
  let materialType ← inString
  pure { handle, rendererHandle, materialType }

/-- `NewMaterial2`. -/
structure NewMaterial2 where
  rendererType : ByteString
  materialType : ByteString
  handle : ObjectHandle
  deriving DecidableEq

/-- `NewMaterial2::serialize`. -/
def NewMaterial2.serialize (item : NewMaterial2) : List (List UInt8) :=
  outHandle item.handle ++ outString item.rendererType ++ outString item.materialType

/-- `NewMaterial2::deserialize`. -/
def NewMaterial2.deserialize : StreamReader φ NewMaterial2 := do
  let handle ← inHandle
  let rendererType ← inString
  let materialType ← inString
  pure { handle, rendererType, materialType }

/-- `NewLight`. -/
structure NewLight where
  type : ByteString
  handle : ObjectHandle
  deriving DecidableEq

/-- `NewLight::serialize`. -/
def NewLight.serialize (item : NewLight) : List (List UInt8) :=
  outHandleString item.handle item.type

/-- `NewLight::deserialize`. -/
def NewLight.deserialize : StreamReader φ NewLight := do
  let fields ← inHandleString
  pure { handle := fields.1, type := fields.2 }

/-- `NewData`. The view shows the application's memory or `copiedData`. -/
structure NewData where
  handle : ObjectHandle
  nItems : UInt64
  format : OSPDataType
  copiedData : ByteString
  dataView : ByteString
  flags : Int32
  deriving DecidableEq

/-- `NewData::serialize`. The view is written with one call. -/
def NewData.serialize (item : NewData) : List (List UInt8) :=
  outHandle item.handle ++ outRaw item.nItems ++ outRaw item.format.toInt32 ++ outRaw item.flags ++
    outString item.dataView

/-- `NewData::deserialize`. What the view showed is read into `copiedData`. -/
def NewData.deserialize : StreamReader φ NewData := do
  let handle ← inHandle
  let nItems ← inRaw
  let fmt ← inRaw
  let flags ← inRaw
  let copiedData ← inVector
  pure {
    handle, nItems, flags, copiedData
    dataView := copiedData
    format := OSPDataType.ofInt32 fmt }

/-- `SetRegion`. -/
structure SetRegion where
  handle : ObjectHandle
  regionStart : Vec3 Int32
  regionSize : Vec3 Int32
  type : OSPDataType
  data : ByteString
  deriving DecidableEq

/-- `SetRegion::serialize`. -/
def SetRegion.serialize (item : SetRegion) : List (List UInt8) :=
  outHandle item.handle ++ outRaw item.regionStart ++ outRaw item.regionSize ++
    outRaw item.type.toInt32 ++ outVector item.data

/-- `SetRegion::deserialize`. -/
def SetRegion.deserialize : StreamReader φ SetRegion := do
  let handle ← inHandle
  let regionStart ← inRaw
  let regionSize ← inRaw
  let ty ← inRaw
  let data ← inVector
  pure { handle, regionStart, regionSize, data, type := OSPDataType.ofInt32 ty }

/-- `CommitObject`. -/
structure CommitObject where
  handle : ObjectHandle
  deriving DecidableEq, Repr

/-- `CommitObject::serialize`. -/
def CommitObject.serialize (item : CommitObject) : List (List UInt8) := outHandle item.handle

/-- `CommitObject::deserialize`. -/
def CommitObject.deserialize : StreamReader φ CommitObject := do
  let handle ← inHandle
  pure { handle }

/-- `ClearFrameBuffer`. -/
structure ClearFrameBuffer where
  handle : ObjectHandle
  channels : UInt32
  deriving DecidableEq, Repr

/-- `ClearFrameBuffer::serialize`. -/
def ClearFrameBuffer.serialize (item : ClearFrameBuffer) : List (List UInt8) :=
  outHandle item.handle ++ outRaw item.channels

/-- `ClearFrameBuffer::deserialize`. -/
def ClearFrameBuffer.deserialize : StreamReader φ ClearFrameBuffer := do
  let handle ← inHandle
  let channels ← inRaw
  pure { handle, channels }

/-- `RenderFrame`. The variance is a result. -/
structure RenderFrame where
  fbHandle : ObjectHandle
  rendererHandle : ObjectHandle
  channels : UInt32
  varianceResult : Float32Bits := ⟨0⟩
  deriving DecidableEq, Repr

/-- `RenderFrame::serialize`. -/
def RenderFrame.serialize (item : RenderFrame) : List (List UInt8) :=
  outHandle item.fbHandle ++ outHandle item.rendererHandle ++ outRaw item.channels

/-- `RenderFrame::deserialize`. -/
def RenderFrame.deserialize : StreamReader φ RenderFrame := do
  let fbHandle ← inHandle
  let rendererHandle ← inHandle
  let channels ← inRaw
  pure { fbHandle, rendererHandle, channels }

/-- The four items that add an object to a model or remove it: `AddGeometry`,
`AddVolume`, `RemoveGeometry` and `RemoveVolume` differ in their `run` only. -/
structure EditModel where
  modelHandle : ObjectHandle
  objectHandle : ObjectHandle
  deriving DecidableEq, Repr

/-- `serialize` of these four. -/
def EditModel.serialize (item : EditModel) : List (List UInt8) :=
  outHandles item.modelHandle item.objectHandle

/-- `deserialize` of these four. -/
def EditModel.deserialize : StreamReader φ EditModel := do
  let handles ← inHandles
  pure { modelHandle := handles.1, objectHandle := handles.2 }

/-- `CreateFrameBuffer`. -/
structure CreateFrameBuffer where
  handle : ObjectHandle
  dimensions : Vec2 Int32
  format : OSPFrameBufferFormat
  channels : UInt32
  deriving DecidableEq, Repr

/-- `CreateFrameBuffer::serialize`. -/
def CreateFrameBuffer.serialize (item : CreateFrameBuffer) : List (List UInt8) :=
  outHandle item.handle ++ outRaw item.dimensions ++ outRaw item.format.toInt32 ++ outRaw item.channels

/-- `CreateFrameBuffer::deserialize`. -/
def CreateFrameBuffer.deserialize : StreamReader φ CreateFrameBuffer := do
  let handle ← inHandle
  let dimensions ← inRaw
  let fmt ← inRaw
  let channels ← inRaw
  pure { handle, dimensions, channels, format := OSPFrameBufferFormat.ofInt32 fmt }

/-- The types a parameter can have. -/
inductive ParamType
  | object | string | int | bool | float | vec2f | vec2i | vec3f | vec3i | vec4f
  deriving DecidableEq, Repr

/-- The values of a type of parameter. An object is sent as its handle. -/
@[reducible] def ParamType.Value : ParamType → Type
  | object => ObjectHandle
  | string => ByteString
  | int => Int32
  | bool => Bool
  | float => Float32Bits
  | vec2f => Vec2 Float32Bits
  | vec2i => Vec2 Int32
  | vec3f => Vec3 Float32Bits
  | vec3i => Vec3 Int32
  | vec4f => Vec4 Float32Bits

/-- `operator<<` for a parameter. -/
def ParamType.outValue : (type : ParamType) → type.Value → List (List UInt8)
  | object, val => outHandle val
  | string, val => outString val
  | int, val => outRaw (α := Int32) val
  | bool, val => outRaw (α := Bool) val
  | float, val => outRaw (α := Float32Bits) val
  | vec2f, val => outRaw (α := Vec2 Float32Bits) val
  | vec2i, val => outRaw (α := Vec2 Int32) val
  | vec3f, val => outRaw (α := Vec3 Float32Bits) val
  | vec3i, val => outRaw (α := Vec3 Int32) val
  | vec4f, val => outRaw (α := Vec4 Float32Bits) val

/-- `operator>>` for a parameter. -/
def ParamType.inValue : (type : ParamType) → StreamReader φ type.Value
  | object => inHandle
  | string => inString
  | int => inRaw (α := Int32)
  | bool => inRaw (α := Bool)
  | float => inRaw (α := Float32Bits)
  | vec2f => inRaw (α := Vec2 Float32Bits)
  | vec2i => inRaw (α := Vec2 Int32)
  | vec3f => inRaw (α := Vec3 Float32Bits)
  | vec3i => inRaw (α := Vec3 Int32)
  | vec4f => inRaw (α := Vec4 Float32Bits)

/-- `SetParam<T>`. -/
structure SetParam (type : ParamType) where
  handle : ObjectHandle
  name : ByteString
  val : type.Value

/-- `SetParam::serialize`. -/
def SetParam.serialize {type : ParamType} (item : SetParam type) : List (List UInt8) :=
  outHandle item.handle ++ outString item.name ++ type.outValue item.val

/-- `SetParam::deserialize`. -/
def SetParam.deserialize (type : ParamType) : StreamReader φ (SetParam type) := do
  let handle ← inHandle
  let name ← inString
  let val ← type.inValue
  pure { handle, name, val }

/-- `SetMaterial`. -/
structure SetMaterial where
  handle : ObjectHandle
  material : ObjectHandle
  deriving DecidableEq, Repr

/-- `SetMaterial::serialize`. -/
def SetMaterial.serialize (item : SetMaterial) : List (List UInt8) :=
  outHandles item.handle item.material

/-- `SetMaterial::deserialize`. -/
def SetMaterial.deserialize : StreamReader φ SetMaterial := do
  let handles ← inHandles
  pure { handle := handles.1, material := handles.2 }

/-- `RemoveParam`. -/
structure RemoveParam where
  handle : ObjectHandle
  name : ByteString
  deriving DecidableEq

/-- `RemoveParam::serialize`. -/
def RemoveParam.serialize (item : RemoveParam) : List (List UInt8) :=
  outHandleString item.handle item.name

/-- `RemoveParam::deserialize`. -/
def RemoveParam.deserialize : StreamReader φ RemoveParam := do
  let fields ← inHandleString
  pure { handle := fields.1, name := fields.2 }

/-- `SetPixelOp`. -/
structure SetPixelOp where
  fbHandle : ObjectHandle
  poHandle : ObjectHandle
  deriving DecidableEq, Repr

/-- `SetPixelOp::serialize`. -/
def SetPixelOp.serialize (item : SetPixelOp) : List (List UInt8) :=
  outHandles item.fbHandle item.poHandle

/-- `SetPixelOp::deserialize`. -/
def SetPixelOp.deserialize : StreamReader φ SetPixelOp := do
  let handles ← inHandles
  pure { fbHandle := handles.1, poHandle := handles.2 }

/-- `CommandRelease`. -/
structure CommandRelease where
  handle : ObjectHandle
  deriving DecidableEq, Repr

/-- `CommandRelease::serialize`. -/
def CommandRelease.serialize (item : CommandRelease) : List (List UInt8) := outHandle item.handle

/-- `CommandRelease::deserialize`. -/
def CommandRelease.deserialize : StreamReader φ CommandRelease := do
  let handle ← inHandle
  pure { handle }

/-- `LoadModule`. The error code is a result. -/
structure LoadModule where
  name : ByteString
  errorCode : Int32 := 0
  deriving DecidableEq

/-- `LoadModule::serialize`. -/
def LoadModule.serialize (item : LoadModule) : List (List UInt8) := outString item.name

/-- `LoadModule::deserialize`. -/
def LoadModule.deserialize : StreamReader φ LoadModule := do
  let name ← inString
  pure { name }

/-- `CommandFinalize`. -/
structure CommandFinalize where
  deriving DecidableEq, Repr

/-- `CommandFinalize::serialize`. -/
def CommandFinalize.serialize (_ : CommandFinalize) : List (List UInt8) := []

/-- `CommandFinalize::deserialize`. -/
def CommandFinalize.deserialize : StreamReader φ CommandFinalize := pure {}

/-- `Pick`. -/
structure Pick where
  rendererHandle : ObjectHandle
  screenPos : Vec2 Float32Bits
  deriving DecidableEq, Repr

/-- `Pick::serialize`. -/
def Pick.serialize (item : Pick) : List (List UInt8) :=
  outHandle item.rendererHandle ++ outRaw item.screenPos

/-- `Pick::deserialize`. -/
def Pick.deserialize : StreamReader φ Pick := do
  let rendererHandle ← inHandle
  let screenPos ← inRaw
  pure { rendererHandle, screenPos }

end Items

/-- The classes that `NewObjectT` is registered for. -/
inductive ObjectKind
  | renderer | model | geometry | camera | volume | transferFunction | pixelOp | texture
  deriving DecidableEq, Repr

/-- What an `EditModel` does. -/
inductive ModelEdit
  | addGeometry | addVolume | removeGeometry | removeVolume
  deriving DecidableEq, Repr

/-- The registered types of work items. -/
inductive WorkType
  | setLoadBalancer | newObject (kind : ObjectKind) | newMaterial | newMaterial2 | newLight
  | newData | setRegion | commitObject | commandRelease | loadModule | editModel (edit : ModelEdit)
  | createFrameBuffer | clearFrameBuffer | renderFrame | setPixelOp | setMaterial
  | setParam (type : ParamType) | removeParam | commandFinalize | pick
  deriving DecidableEq, Repr

/-- A work item of one of the registered types. -/
inductive Work
  | setLoadBalancer (item : SetLoadBalancer)
  | newObject (kind : ObjectKind) (item : NewObjectT)
  | newMaterial (item : NewMaterial)
  | newMaterial2 (item : NewMaterial2)
  | newLight (item : NewLight)
  | newData (item : NewData)
  | setRegion (item : SetRegion)
  | commitObject (item : CommitObject)
  | commandRelease (item : CommandRelease)
  | loadModule (item : LoadModule)
  | editModel (edit : ModelEdit) (item : EditModel)
  | createFrameBuffer (item : CreateFrameBuffer)
  | clearFrameBuffer (item : ClearFrameBuffer)
  | renderFrame (item : RenderFrame)
  | setPixelOp (item : SetPixelOp)
  | setMaterial (item : SetMaterial)
  | setParam (type : ParamType) (item : SetParam type)
  | removeParam (item : RemoveParam)
  | commandFinalize (item : CommandFinalize)
  | pick (item : Pick)

/-- The type of a work item. -/
def Work.type : Work → WorkType
  | setLoadBalancer _ => .setLoadBalancer
  | newObject kind _ => .newObject kind
  | newMaterial _ => .newMaterial
  | newMaterial2 _ => .newMaterial2
  | newLight _ => .newLight
  | newData _ => .newData
  | setRegion _ => .setRegion
  | commitObject _ => .commitObject
  | commandRelease _ => .commandRelease
  | loadModule _ => .loadModule
  | editModel edit _ => .editModel edit
  | createFrameBuffer _ => .createFrameBuffer
  | clearFrameBuffer _ => .clearFrameBuffer
  | renderFrame _ => .renderFrame
  | setPixelOp _ => .setPixelOp
  | setMaterial _ => .setMaterial
  | setParam type _ => .setParam type
  | removeParam _ => .removeParam
  | commandFinalize _ => .commandFinalize
  | pick _ => .pick

/-- `Work::serialize`: the memory of every call of `write`, in order. -/
def Work.serialize : Work → List (List UInt8)
  | setLoadBalancer item => item.serialize
  | newObject _ item => item.serialize
  | newMaterial item => item.serialize
  | newMaterial2 item => item.serialize
  | newLight item => item.serialize
  | newData item => item.serialize
  | setRegion item => item.serialize
  | commitObject item => item.serialize
  | commandRelease item => item.serialize
  | loadModule item => item.serialize
  | editModel _ item => item.serialize
  | createFrameBuffer item => item.serialize
  | clearFrameBuffer item => item.serialize
  | renderFrame item => item.serialize
  | setPixelOp item => item.serialize
  | setMaterial item => item.serialize
  | setParam _ item => item.serialize
  | removeParam item => item.serialize
  | commandFinalize item => item.serialize
  | pick item => item.serialize

/-- `make_work_unit` of a type, and `deserialize` of the item it made. -/
def WorkType.deserialize {φ : Type} [Fabric φ] : WorkType → StreamReader φ Work
  | setLoadBalancer => do pure (.setLoadBalancer (← SetLoadBalancer.deserialize))
  | newObject kind => do pure (.newObject kind (← NewObjectT.deserialize))
  | newMaterial => do pure (.newMaterial (← NewMaterial.deserialize))
  | newMaterial2 => do pure (.newMaterial2 (← NewMaterial2.deserialize))
  | newLight => do pure (.newLight (← NewLight.deserialize))
  | newData => do pure (.newData (← NewData.deserialize))
  | setRegion => do pure (.setRegion (← SetRegion.deserialize))
  | commitObject => do pure (.commitObject (← CommitObject.deserialize))
  | commandRelease => do pure (.commandRelease (← CommandRelease.deserialize))
  | loadModule => do pure (.loadModule (← LoadModule.deserialize))
  | editModel edit => do pure (.editModel edit (← EditModel.deserialize))
  | createFrameBuffer => do pure (.createFrameBuffer (← CreateFrameBuffer.deserialize))
  | clearFrameBuffer => do pure (.clearFrameBuffer (← ClearFrameBuffer.deserialize))
  | renderFrame => do pure (.renderFrame (← RenderFrame.deserialize))
  | setPixelOp => do pure (.setPixelOp (← SetPixelOp.deserialize))
  | setMaterial => do pure (.setMaterial (← SetMaterial.deserialize))
  | setParam type => do pure (.setParam type (← SetParam.deserialize type))
  | removeParam => do pure (.removeParam (← RemoveParam.deserialize))
  | commandFinalize => do pure (.commandFinalize (← CommandFinalize.deserialize))
  | pick => do pure (.pick (← Pick.deserialize))

/-- A work item with the fields erased that `run` does not read: results, what
only the master uses, and the memory behind a view. -/
def Work.usedByRun : Work → Work
  | setLoadBalancer item => .setLoadBalancer { item with numTilesPreAllocated := 4 }
  | newData item => .newData { item with copiedData := ⟨[], by decide⟩ }
  | renderFrame item => .renderFrame { item with varianceResult := ⟨0⟩ }
  | loadModule item => .loadModule { item with errorCode := 0 }
  | work => work

/-- A work item as it arrives: fields that are not sent have their defaults, and
a view shows the memory it was read into. -/
def Work.received : Work → Work
  | setLoadBalancer item => .setLoadBalancer { item with numTilesPreAllocated := 4 }
  | newData item => .newData { item with copiedData := item.dataView }
  | renderFrame item => .renderFrame { item with varianceResult := ⟨0⟩ }
  | loadModule item => .loadModule { item with errorCode := 0 }
  | work => work

section RoundTrip

variable {φ : Type} [LosslessFabric φ]

theorem SetLoadBalancer.reads (item : SetLoadBalancer) :
    StreamReads (SetLoadBalancer.deserialize : StreamReader φ _) item.serialize.flatten
      { item with numTilesPreAllocated := 4 } := by
  simp only [SetLoadBalancer.serialize, List.flatten_append]
  apply (reads_outRaw item.handleID).bind
  exact (reads_outRaw item.useDynamicLoadBalancer).map _

theorem NewObjectT.reads (item : NewObjectT) :
    StreamReads (NewObjectT.deserialize : StreamReader φ _) item.serialize.flatten item :=
  (reads_handleString item.handle item.type).map _

theorem NewMaterial.reads (item : NewMaterial) :
    StreamReads (NewMaterial.deserialize : StreamReader φ _) item.serialize.flatten item := by
  simp only [NewMaterial.serialize, List.flatten_append, List.append_assoc]
  apply (reads_handle item.handle).bind
  apply (reads_handle item.rendererHandle).bind
  exact (reads_string item.materialType).map _

theorem NewMaterial2.reads (item : NewMaterial2) :
    StreamReads (NewMaterial2.deserialize : StreamReader φ _) item.serialize.flatten item := by
  simp only [NewMaterial2.serialize, List.flatten_append, List.append_assoc]
  apply (reads_handle item.handle).bind
  apply (reads_string item.rendererType).bind
  exact (reads_string item.materialType).map _

theorem NewLight.reads (item : NewLight) :
    StreamReads (NewLight.deserialize : StreamReader φ _) item.serialize.flatten item :=
  (reads_handleString item.handle item.type).map _

/-- A `NewData` arrives with a copy of what its view showed. The view is written with
one call and read as a vector. -/
theorem NewData.reads (item : NewData) :
    StreamReads (NewData.deserialize : StreamReader φ _) item.serialize.flatten
      { item with copiedData := item.dataView } := by
  simp only [NewData.serialize, List.flatten_append, List.append_assoc]
  apply (reads_handle item.handle).bind
  apply (reads_outRaw item.nItems).bind
  apply (reads_outRaw item.format.toInt32).bind
  apply (reads_outRaw item.flags).bind
  rw [← outVector_flatten]
  exact (reads_vector item.dataView).map _

theorem SetRegion.reads (item : SetRegion) :
    StreamReads (SetRegion.deserialize : StreamReader φ _) item.serialize.flatten item := by
  simp only [SetRegion.serialize, List.flatten_append, List.append_assoc]
  apply (reads_handle item.handle).bind
  apply (reads_outRaw item.regionStart).bind
  apply (reads_outRaw item.regionSize).bind
  apply (reads_outRaw item.type.toInt32).bind
  exact (reads_vector item.data).map _

theorem CommitObject.reads (item : CommitObject) :
    StreamReads (CommitObject.deserialize : StreamReader φ _) item.serialize.flatten item :=
  (reads_handle item.handle).map _

theorem CommandRelease.reads (item : CommandRelease) :
    StreamReads (CommandRelease.deserialize : StreamReader φ _) item.serialize.flatten item :=
  (reads_handle item.handle).map _

theorem LoadModule.reads (item : LoadModule) :
    StreamReads (LoadModule.deserialize : StreamReader φ _) item.serialize.flatten
      { item with errorCode := 0 } :=
  (reads_string item.name).map _

theorem EditModel.reads (item : EditModel) :
    StreamReads (EditModel.deserialize : StreamReader φ _) item.serialize.flatten item :=
  (reads_handles item.modelHandle item.objectHandle).map _

theorem CreateFrameBuffer.reads (item : CreateFrameBuffer) :
    StreamReads (CreateFrameBuffer.deserialize : StreamReader φ _) item.serialize.flatten item := by
  simp only [CreateFrameBuffer.serialize, List.flatten_append, List.append_assoc]
  apply (reads_handle item.handle).bind
  apply (reads_outRaw item.dimensions).bind
  apply (reads_outRaw item.format.toInt32).bind
  exact (reads_outRaw item.channels).map _

theorem ClearFrameBuffer.reads (item : ClearFrameBuffer) :
    StreamReads (ClearFrameBuffer.deserialize : StreamReader φ _) item.serialize.flatten item := by
  simp only [ClearFrameBuffer.serialize, List.flatten_append]
  apply (reads_handle item.handle).bind
  exact (reads_outRaw item.channels).map _

theorem RenderFrame.reads (item : RenderFrame) :
    StreamReads (RenderFrame.deserialize : StreamReader φ _) item.serialize.flatten
      { item with varianceResult := ⟨0⟩ } := by
  simp only [RenderFrame.serialize, List.flatten_append, List.append_assoc]
  apply (reads_handle item.fbHandle).bind
  apply (reads_handle item.rendererHandle).bind
  exact (reads_outRaw item.channels).map _

theorem SetPixelOp.reads (item : SetPixelOp) :
    StreamReads (SetPixelOp.deserialize : StreamReader φ _) item.serialize.flatten item :=
  (reads_handles item.fbHandle item.poHandle).map _

theorem SetMaterial.reads (item : SetMaterial) :
    StreamReads (SetMaterial.deserialize : StreamReader φ _) item.serialize.flatten item :=
  (reads_handles item.handle item.material).map _

theorem RemoveParam.reads (item : RemoveParam) :
    StreamReads (RemoveParam.deserialize : StreamReader φ _) item.serialize.flatten item :=
  (reads_handleString item.handle item.name).map _

theorem CommandFinalize.reads (item : CommandFinalize) :
    StreamReads (CommandFinalize.deserialize : StreamReader φ _) item.serialize.flatten item :=
  Reads.pure item

theorem Pick.reads (item : Pick) :
    StreamReads (Pick.deserialize : StreamReader φ _) item.serialize.flatten item := by
  simp only [Pick.serialize, List.flatten_append]
  apply (reads_handle item.rendererHandle).bind
  exact (reads_outRaw item.screenPos).map _

theorem reads_value (type : ParamType) (val : type.Value) :
    StreamReads (type.inValue : StreamReader φ _) (type.outValue val).flatten val := by
  cases type with
  | object => exact reads_handle val
  | string => exact reads_string val
  | _ => exact reads_outRaw val

theorem SetParam.reads (type : ParamType) (item : SetParam type) :
    StreamReads (SetParam.deserialize type : StreamReader φ _) item.serialize.flatten item := by
  simp only [SetParam.serialize, List.flatten_append, List.append_assoc]
  apply (reads_handle item.handle).bind
  apply (reads_string item.name).bind
  exact (reads_value type item.val).map _

end RoundTrip

end Ospray.Mpi
