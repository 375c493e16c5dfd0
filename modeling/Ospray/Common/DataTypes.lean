import Ospray.Library.Literals

/-!
# Data types

The types of the elements of a data array. There are references to objects, of any kind or of a
particular one, and there are numbers and small vectors.
-/

namespace Ospray

/-- `OSPDataType` -/
inductive DataType where
  | device
  | voidPtr
  | object
  | camera
  | data
  | framebuffer
  | geometry
  | light
  | material
  | model
  | renderer
  | texture
  | transferFunction
  | volume
  | pixelOp
  | string
  | char
  | uchar
  | uchar2
  | uchar3
  | uchar4
  | short
  | ushort
  | int
  | int2
  | int3
  | int4
  | uint
  | uint2
  | uint3
  | uint4
  | long
  | long2
  | long3
  | long4
  | ulong
  | ulong2
  | ulong3
  | ulong4
  | float
  | float2
  | float3
  | float4
  | float3a
  | double
  | unknown
  deriving DecidableEq, Repr

/-- `sizeOf`, which throws for the guard value. -/
def DataType.sizeOf : DataType → Option Nat
  | device | voidPtr | object | camera | data | framebuffer | geometry | light | material | model | renderer | texture
  | transferFunction | volume | pixelOp | string => some 8
  | char | uchar => some 1
  | uchar2 | short | ushort => some 2
  | uchar3 => some 3
  | uchar4 | int | uint | float => some 4
  | int2 | uint2 | float2 | long | ulong | double => some 8
  | int3 | uint3 | float3 => some 12
  | int4 | uint4 | float4 | float3a | long2 | ulong2 => some 16
  | long3 | ulong3 => some 24
  | long4 | ulong4 => some 32
  | unknown => none

end Ospray
