import Ospray.Library.Bytes
import Ospray.Library.Buffers
import Ospray.Fb.TileMessages

/-!
# The bytes of the messages for the master

The messages with the final tiles are laid out by hand: a header, the colors of the
pixels and, where the frame buffer has the channels, their depths, normals and
albedos. Normals or albedos bring room for depths along. A message is built in
memory that nobody has initialized; the parts that are not filled in are not read.
-/

namespace Ospray

open Library.Bytes Library.Buffers

/-- A `float`, as its bits. -/
abbrev FloatBits := UInt32

/-- `vec3f`. -/
abbrev Vec3f := FloatBits × FloatBits × FloatBits

/-- `vec4f`. -/
abbrev Vec4f := FloatBits × FloatBits × FloatBits × FloatBits

/-- `MASTER_WRITE_TILE_I8` and `MASTER_WRITE_TILE_F32`. -/
inductive WriteTag where
  | i8
  | f32
deriving DecidableEq, Repr

/-- The bit of a command. -/
def WriteTag.bit : WriteTag → UInt32
  | .i8 => (1 : UInt32) <<< 2
  | .f32 => (1 : UInt32) <<< 3

/-- `MASTER_TILE_HAS_DEPTH`. -/
def masterTileHasDepth : UInt32 := (1 : UInt32) <<< 4

/-- `MASTER_TILE_HAS_AUX`. -/
def masterTileHasAux : UInt32 := (1 : UInt32) <<< 5

/-- What a color buffer holds for a pixel: an integer for `OSP_FB_RGBA8` and
`OSP_FB_SRGBA`, a vector for `OSP_FB_RGBA32F`. -/
class PixelColor (C : Type) extends Raw C where
  tag : WriteTag

instance : PixelColor UInt32 where
  tag := .i8

instance : PixelColor Vec4f where
  tag := .f32

/-! ## Arrays -/

section Arrays

variable {α : Type} [Raw α]

/-- The bytes of an array. -/
def arrayBytes (values : Nat → α) (count : Nat) : List UInt8 :=
  (List.range count).flatMap fun j => Raw.toBytes (values j)

/-- The entry of an array that begins at an offset. -/
def arrayAt (bytes : List UInt8) (offset j : Nat) : α :=
  Raw.ofBytes (read bytes (offset + j * Raw.size α) (Raw.size α))

@[simp] theorem length_arrayBytes (values : Nat → α) (count : Nat) :
    (arrayBytes values count).length = count * Raw.size α := by
  rw [arrayBytes, length_pieces _ fun _ _ => Raw.length_toBytes _, List.length_range]

theorem arrayAt_of_read {bytes : List UInt8} {values : Nat → α} {offset count j : Nat}
    (stands : read bytes offset (count * Raw.size α) = arrayBytes values count) (inside : j < count) :
    arrayAt bytes offset j = values j := by
  have room : j * Raw.size α + Raw.size α ≤ count * Raw.size α := by
    rw [← Nat.succ_mul]
    exact Nat.mul_le_mul_right _ inside
  have entry : read (arrayBytes values count) (j * Raw.size α) (Raw.size α) =
      Raw.toBytes (values j) :=
    read_piece (List.range count) (fun _ _ => Raw.length_toBytes _)
      (List.getElem?_range inside)
  rw [arrayAt, ← read_read room, stands, entry, Raw.ofBytes_toBytes]

end Arrays

/-! ## Layout -/

/-- `sizeof(MasterTileMessage_NONE)`: command, coordinates and error. -/
def headerSize : Nat := 4 + 2 * 4 + Raw.size FloatBits

section Layout

variable (C : Type) [PixelColor C] (channels : Channels) (tileSize : Nat)

/-- Where the depths begin. -/
def depthOffset : Nat := headerSize + Raw.size C * (tileSize * tileSize)

/-- Where the normals begin. -/
def normalOffset : Nat := depthOffset C tileSize + Raw.size FloatBits * (tileSize * tileSize)

/-- Where the albedos begin. -/
def albedoOffset : Nat := normalOffset C tileSize + Raw.size Vec3f * (tileSize * tileSize)

/-- `masterMsgSize`. Normal and albedo also imply depth. -/
def masterMsgSize : Nat :=
  let msgSize := headerSize + Raw.size C * (tileSize * tileSize)
  let msgSize :=
    if channels.hasDepthBuffer || channels.hasNormalBuffer || channels.hasAlbedoBuffer then
      msgSize + Raw.size FloatBits * (tileSize * tileSize)
    else msgSize
  if channels.hasNormalBuffer || channels.hasAlbedoBuffer then
    msgSize + 2 * Raw.size Vec3f * (tileSize * tileSize)
  else msgSize

theorem depth_fits (present : channels.hasDepthBuffer = true) :
    normalOffset C tileSize ≤ masterMsgSize C channels tileSize := by
  simp only [masterMsgSize, normalOffset, depthOffset, present, Bool.true_or, if_true]
  split <;> omega

theorem normal_fits (present : channels.hasNormalBuffer = true) :
    albedoOffset C tileSize ≤ masterMsgSize C channels tileSize := by
  simp only [masterMsgSize, albedoOffset, normalOffset, depthOffset, present, Bool.or_true,
    Bool.true_or, if_true, Nat.mul_assoc]
  omega

theorem albedo_fits (present : channels.hasAlbedoBuffer = true) :
    albedoOffset C tileSize + Raw.size Vec3f * (tileSize * tileSize) ≤
      masterMsgSize C channels tileSize := by
  simp only [masterMsgSize, albedoOffset, normalOffset, depthOffset, present, Bool.or_true,
    if_true, Nat.mul_assoc]
  omega

theorem color_fits : depthOffset C tileSize ≤ masterMsgSize C channels tileSize := by
  simp only [masterMsgSize, depthOffset]
  split <;> split <;> omega

theorem header_fits : headerSize ≤ masterMsgSize C channels tileSize :=
  (Nat.le_add_right _ _).trans (color_fits C channels tileSize)

end Layout

/-! ## Building and reading -/

variable {C : Type} [PixelColor C]

/-- What `tileIsCompleted` finds in a tile once the colors are converted: the error, the
colors, and the depths, normals and albedos of the final tile. -/
structure FinalTile (C : Type) where
  error : FloatBits
  color : Nat → C
  z : Nat → FloatBits
  normal : Nat → Vec3f
  albedo : Nat → Vec3f

/-- What a final tile leaves at a pixel: its values in the channels that exist. -/
def FinalTile.pixel (channels : Channels) (tile : FinalTile C) (j : Nat)
    (old : BufferPixel C FloatBits Vec3f) : BufferPixel C FloatBits Vec3f :=
  { color := tile.color j
    depth := if channels.hasDepthBuffer then tile.z j else old.depth
    normal := if channels.hasNormalBuffer then tile.normal j else old.normal
    albedo := if channels.hasAlbedoBuffer then tile.albedo j else old.albedo }

/-- The command of a message. -/
def masterCommand (tag : WriteTag) (hasDepth hasAux : Bool) : UInt32 :=
  let command := tag.bit
  let command := if hasDepth then command ||| masterTileHasDepth else command
  if hasAux then command ||| masterTileHasAux else command

/-- `MASTER_WRITE_TILE_I8` is tested first. A command with neither bit makes the gather
throw. -/
def commandTag (command : UInt32) : Option WriteTag :=
  if command &&& WriteTag.i8.bit ≠ 0 then some .i8
  else if command &&& WriteTag.f32.bit ≠ 0 then some .f32
  else none

theorem masterCommand_read (tag : WriteTag) (hasDepth hasAux : Bool) :
    commandTag (masterCommand tag hasDepth hasAux) = some tag ∧
      decide (masterCommand tag hasDepth hasAux &&& masterTileHasDepth ≠ 0) = hasDepth ∧
      decide (masterCommand tag hasDepth hasAux &&& masterTileHasAux ≠ 0) = hasAux := by
  cases tag <;> cases hasDepth <;> cases hasAux <;> decide +kernel

/-- The header, with coordinates that an `int` holds. -/
def headerBytes (command : UInt32) (coords : Vec2i) (error : FloatBits) : List UInt8 :=
  Raw.toBytes command ++ (littleEndian 4 coords.x ++ (littleEndian 4 coords.y ++ Raw.toBytes error))

@[simp] theorem length_headerBytes (command : UInt32) (coords : Vec2i) (error : FloatBits) :
    (headerBytes command coords error).length = headerSize := by
  simp only [headerBytes, List.length_append, Raw.length_toBytes, littleEndian_length]
  rfl

/-- `setDepth`, `setNormal` and `setAlbedo`, which do nothing without the channel. -/
def setArray {α : Type} [Raw α] (present : Bool) (offset count : Nat) (values : Nat → α)
    (message : List UInt8) : Option (List UInt8) :=
  if present then write message offset (arrayBytes values count) else some message

/-- `MasterTileMessageBuilder` in the given memory, with the calls that
`tileIsCompleted` makes. -/
def buildMessage (channels : Channels) (tileSize : Nat) (coords : Vec2i) (tile : FinalTile C)
    (memory : List UInt8) : Option (List UInt8) := do
  let pixels := tileSize * tileSize
  let command := masterCommand (PixelColor.tag C) channels.hasDepthBuffer channels.hasAux
  let message ← write memory 0 (headerBytes command coords tile.error)
  let message ← write message headerSize (arrayBytes tile.color pixels)
  let message ← setArray channels.hasDepthBuffer (depthOffset C tileSize) pixels tile.z message
  let message ← setArray channels.hasNormalBuffer (normalOffset C tileSize) pixels tile.normal message
  setArray channels.hasAlbedoBuffer (albedoOffset C tileSize) pixels tile.albedo message

/-- A message as the master reads it, which throws for a command of no final tile. A tag
of other colors than those of the frame buffer is not a message of its tiles. -/
def readMessage (C : Type) [PixelColor C] (tileSize : Nat) (bytes : List UInt8) :
    Option (MasterTileMessage C FloatBits FloatBits Vec3f) :=
  let command : UInt32 := Raw.ofBytes (read bytes 0 4)
  if commandTag command = some (PixelColor.tag C) then
    some
      { hasDepth := decide (command &&& masterTileHasDepth ≠ 0)
        hasAux := decide (command &&& masterTileHasAux ≠ 0)
        coords := ⟨ofLittleEndian (read bytes 4 4), ofLittleEndian (read bytes 8 4)⟩
        error := Raw.ofBytes (read bytes 12 4)
        color := arrayAt bytes headerSize
        depth := arrayAt bytes (depthOffset C tileSize)
        normal := arrayAt bytes (normalOffset C tileSize)
        albedo := arrayAt bytes (albedoOffset C tileSize) }
  else none

/-! ## What is read of a built message -/

section RoundTrip

/-- An array that is set stands at its offset, and the rest of the message is kept. -/
theorem setArray_frame {α : Type} [Raw α] {present : Bool} {offset count : Nat} {values : Nat → α}
    {message next : List UInt8} (defined : setArray present offset count values message = some next) :
    next.length = message.length ∧
      (∀ place length, place + length ≤ offset ∨ offset + count * Raw.size α ≤ place →
        read next place length = read message place length) ∧
      (present = true → read next offset (count * Raw.size α) = arrayBytes values count) := by
  unfold setArray at defined
  cases present with
  | false =>
    obtain rfl : message = next := Option.some.inj defined
    exact ⟨rfl, fun _ _ _ => rfl, fun absurd_ => by cases absurd_⟩
  | true =>
    have sized := length_arrayBytes values count
    rw [if_pos rfl] at defined
    refine ⟨length_write defined, ?_, ?_⟩
    · intro place length apart
      exact read_write_apart defined (by rw [sized]; exact apart)
    · intro _
      rw [← sized]
      exact read_write_self defined

theorem setArray_defined {α : Type} [Raw α] (present : Bool) (offset count : Nat)
    (values : Nat → α) (message : List UInt8)
    (fits : present = true → offset + count * Raw.size α ≤ message.length) :
    ∃ next, setArray present offset count values message = some next := by
  unfold setArray
  cases present with
  | false => exact ⟨message, rfl⟩
  | true =>
    rw [if_pos rfl]
    refine Option.isSome_iff_exists.mp (write_isSome.mpr ?_)
    rw [length_arrayBytes]
    exact fits rfl

/-- A message can be built in memory of its size. -/
theorem buildMessage_defined (channels : Channels) (tileSize : Nat) (coords : Vec2i)
    (tile : FinalTile C) {memory : List UInt8}
    (sized : memory.length = masterMsgSize C channels tileSize) :
    ∃ bytes, buildMessage channels tileSize coords tile memory = some bytes := by
  have header := header_fits C channels tileSize
  have color := color_fits C channels tileSize
  have depth := depth_fits C channels tileSize
  have normal := normal_fits C channels tileSize
  have albedo := albedo_fits C channels tileSize
  simp only [albedoOffset, normalOffset, depthOffset, Nat.mul_comm _ (tileSize * tileSize)]
    at color depth normal albedo
  obtain ⟨first, headed⟩ := Option.isSome_iff_exists.mp (write_isSome.mpr (show
    0 + (headerBytes (masterCommand (PixelColor.tag C) channels.hasDepthBuffer channels.hasAux)
      coords tile.error).length ≤ memory.length by
    rw [length_headerBytes]
    omega))
  have lengthFirst := length_write headed
  obtain ⟨second, colored⟩ := Option.isSome_iff_exists.mp (write_isSome.mpr (show
    headerSize + (arrayBytes tile.color (tileSize * tileSize)).length ≤ first.length by
    rw [length_arrayBytes]
    omega))
  have lengthSecond := length_write colored
  obtain ⟨third, deepened⟩ := setArray_defined channels.hasDepthBuffer (depthOffset C tileSize)
    (tileSize * tileSize) tile.z second fun present => by
      have room := depth present
      simp only [depthOffset, Nat.mul_comm _ (tileSize * tileSize)]
      omega
  have lengthThird := (setArray_frame deepened).1
  obtain ⟨fourth, normaled⟩ := setArray_defined channels.hasNormalBuffer (normalOffset C tileSize)
    (tileSize * tileSize) tile.normal third fun present => by
      have room := normal present
      simp only [normalOffset, depthOffset, Nat.mul_comm _ (tileSize * tileSize)]
      omega
  have lengthFourth := (setArray_frame normaled).1
  obtain ⟨fifth, last⟩ := setArray_defined channels.hasAlbedoBuffer (albedoOffset C tileSize)
    (tileSize * tileSize) tile.albedo fourth fun present => by
      have room := albedo present
      simp only [albedoOffset, normalOffset, depthOffset, Nat.mul_comm _ (tileSize * tileSize)]
      omega
  refine ⟨fifth, ?_⟩
  simp only [buildMessage, headed, colored, deepened, normaled, last, Option.bind_eq_bind,
    Option.bind_some]

/-- Where the parts of a built message stand. Parts that are written later leave the
earlier ones alone. -/
theorem buildMessage_stands {channels : Channels} {tileSize : Nat} {coords : Vec2i}
    {tile : FinalTile C} {memory bytes : List UInt8}
    (built : buildMessage channels tileSize coords tile memory = some bytes) :
    bytes.length = memory.length ∧
      read bytes 0 headerSize =
        headerBytes (masterCommand (PixelColor.tag C) channels.hasDepthBuffer channels.hasAux)
          coords tile.error ∧
      read bytes headerSize (tileSize * tileSize * Raw.size C) =
        arrayBytes tile.color (tileSize * tileSize) ∧
      (channels.hasDepthBuffer = true →
        read bytes (depthOffset C tileSize) (tileSize * tileSize * Raw.size FloatBits) =
          arrayBytes tile.z (tileSize * tileSize)) ∧
      (channels.hasNormalBuffer = true →
        read bytes (normalOffset C tileSize) (tileSize * tileSize * Raw.size Vec3f) =
          arrayBytes tile.normal (tileSize * tileSize)) ∧
      (channels.hasAlbedoBuffer = true →
        read bytes (albedoOffset C tileSize) (tileSize * tileSize * Raw.size Vec3f) =
          arrayBytes tile.albedo (tileSize * tileSize)) := by
  unfold buildMessage at built
  simp only [Option.bind_eq_bind, Option.bind_eq_some_iff] at built
  obtain ⟨first, headed, second, colored, third, deepened, fourth, normaled, last⟩ := built
  have headerRead := read_write_self headed
  have colorRead := read_write_self colored
  have lengthFirst := length_write headed
  have lengthSecond := length_write colored
  rw [length_headerBytes] at headerRead
  rw [length_arrayBytes] at colorRead
  obtain ⟨lengthThird, thirdKeeps, depthRead⟩ := setArray_frame deepened
  obtain ⟨lengthFourth, fourthKeeps, normalRead⟩ := setArray_frame normaled
  obtain ⟨lengthLast, lastKeeps, albedoRead⟩ := setArray_frame last
  simp only [albedoOffset, normalOffset, depthOffset, Nat.mul_comm _ (tileSize * tileSize)]
    at thirdKeeps fourthKeeps lastKeeps depthRead normalRead albedoRead ⊢
  refine ⟨by omega, ?_, ?_, ?_, ?_, albedoRead⟩
  · rw [lastKeeps _ _ (by omega), fourthKeeps _ _ (by omega), thirdKeeps _ _ (by omega),
      read_write_apart colored (Or.inl (by omega)), headerRead]
  · rw [lastKeeps _ _ (by omega), fourthKeeps _ _ (by omega), thirdKeeps _ _ (by omega), colorRead]
  · intro present
    rw [lastKeeps _ _ (by omega), fourthKeeps _ _ (by omega), depthRead present]
  · intro present
    rw [lastKeeps _ _ (by omega), normalRead present]

/-- The header is read field by field. -/
theorem header_read {bytes : List UInt8} {command : UInt32} {coords : Vec2i} {error : FloatBits}
    (stands : read bytes 0 headerSize = headerBytes command coords error) (column : coords.x < 2 ^ 31)
    (row : coords.y < 2 ^ 31) :
    Raw.ofBytes (read bytes 0 4) = command ∧
      ofLittleEndian (read bytes 4 4) = coords.x ∧ ofLittleEndian (read bytes 8 4) = coords.y ∧
      Raw.ofBytes (read bytes 12 4) = error := by
  have part : ∀ place, place + 4 ≤ headerSize →
      read bytes place 4 = read (headerBytes command coords error) place 4 := by
    intro place inside
    rw [← stands, read_read inside, Nat.zero_add]
  have command_ : (Raw.toBytes command).length = 4 := Raw.length_toBytes command
  have columns : (littleEndian 4 coords.x).length = 4 := littleEndian_length 4 coords.x
  have rows : (littleEndian 4 coords.y).length = 4 := littleEndian_length 4 coords.y
  have error_ : (Raw.toBytes error).length = 4 := Raw.length_toBytes error
  have first := read_append_left (Raw.toBytes command)
    (littleEndian 4 coords.x ++ (littleEndian 4 coords.y ++ Raw.toBytes error))
  have second := read_middle (Raw.toBytes command) (littleEndian 4 coords.x)
    (littleEndian 4 coords.y ++ Raw.toBytes error)
  have third := read_middle (Raw.toBytes command ++ littleEndian 4 coords.x)
    (littleEndian 4 coords.y) (Raw.toBytes error)
  have fourth := read_middle (Raw.toBytes command ++ (littleEndian 4 coords.x ++
    littleEndian 4 coords.y)) (Raw.toBytes error) []
  simp only [List.append_assoc, List.append_nil, List.length_append, command_, columns, rows,
    error_] at first second third fourth
  refine ⟨?_, ?_, ?_, ?_⟩
  · rw [part 0 (by decide), headerBytes, first, Raw.ofBytes_toBytes]
  · rw [part 4 (by decide), headerBytes, second, ofLittleEndian_littleEndian]
    omega
  · rw [part 8 (by decide), headerBytes, third, ofLittleEndian_littleEndian]
    omega
  · rw [part 12 (by decide), headerBytes, fourth, Raw.ofBytes_toBytes]

/-- The master reads of a built message where the tile is, and what it leaves at each of
its pixels. -/
theorem buildMessage_read {channels : Channels} {tileSize : Nat} {coords : Vec2i}
    {tile : FinalTile C} {memory bytes : List UInt8}
    (built : buildMessage channels tileSize coords tile memory = some bytes)
    (column : coords.x < 2 ^ 31) (row : coords.y < 2 ^ 31) :
    ∃ msg, readMessage C tileSize bytes = some msg ∧ msg.coords = coords ∧
      msg.error = tile.error ∧ ∀ j < tileSize * tileSize, ∀ old,
        msg.pixel channels j old = tile.pixel channels j old := by
  obtain ⟨-, header, color, depth, normal, albedo⟩ := buildMessage_stands built
  obtain ⟨command, columns, rows, error⟩ := header_read header column row
  obtain ⟨tagged, hasDepth, hasAux⟩ :=
    masterCommand_read (PixelColor.tag C) channels.hasDepthBuffer channels.hasAux
  have readable : commandTag (Raw.ofBytes (read bytes 0 4)) = some (PixelColor.tag C) := by
    rw [command]
    exact tagged
  refine ⟨_, if_pos readable, ?_, error, ?_⟩
  · simp only [columns, rows]
  · intro j inside old
    simp only [MasterTileMessage.pixel, FinalTile.pixel, command, hasDepth, hasAux,
      BufferPixel.mk.injEq]
    refine ⟨arrayAt_of_read color inside, ?_, ?_, ?_⟩
    · cases present : channels.hasDepthBuffer with
      | false => rfl
      | true => exact arrayAt_of_read (depth present) inside
    · cases present : channels.hasNormalBuffer with
      | false => simp only [Bool.and_false, Bool.false_eq_true, if_false]
      | true =>
        simp only [Channels.hasAux, present, Bool.true_or, Bool.and_self, if_true]
        exact arrayAt_of_read (normal present) inside
    · cases present : channels.hasAlbedoBuffer with
      | false => simp only [Bool.and_false, Bool.false_eq_true, if_false]
      | true =>
        simp only [Channels.hasAux, present, Bool.or_true, Bool.and_self, if_true]
        exact arrayAt_of_read (albedo present) inside

end RoundTrip

end Ospray
