import Mathlib.Logic.Function.Basic
import Ospray.Library.Loops
import Ospray.Fb.TileGrid
import Ospray.Fb.LocalFrameBuffer

/-!
# Messages for the master

The owner of a completed tile sends its colors to the master, with the depths and
with normals and albedos where the frame buffer has these channels. The master
writes them into the local frame buffer that it keeps for mapping, and clips the
tiles at the border of the frame.
-/

namespace Ospray

open Library.Loops

variable {C E D V : Type}

/-- The messages that `MasterTileMessageBuilder` builds, of whatever command. The two
flags are the modifiers in the command. -/
structure MasterTileMessage (C E D V : Type) where
  hasDepth : Bool
  hasAux : Bool
  coords : Vec2i
  error : E
  color : Nat → C
  depth : Nat → D
  normal : Nat → V
  albedo : Nat → V

/-- What the master keeps: the buffers of `localFBonMaster` and the errors of the
tiles. -/
structure MasterFrame (C E D V : Type) extends Buffers C D V where
  tileErrorRegion : Vec2i → E

/-- One pixel of the buffers. -/
structure BufferPixel (C D V : Type) where
  color : C
  depth : D
  normal : V
  albedo : V

/-- The pixel at an index of the buffers. -/
def Buffers.pixel (buffers : Buffers C D V) (i : Nat) : BufferPixel C D V :=
  ⟨buffers.colorBuffer i, buffers.depthBuffer i, buffers.normalBuffer i, buffers.albedoBuffer i⟩

section Process

variable (tileSize : Nat) (size : Vec2i) (channels : Channels)

/-- The innermost statements of `processMessage`, for the pixel `(iy, ix)` of the tile. -/
def MasterTileMessage.writePixel (msg : MasterTileMessage C E D V) (buffers : Buffers C D V)
    (step : Nat × Nat) : Buffers C D V :=
  let iiy := step.1 + msg.coords.y
  let iix := step.2 + msg.coords.x
  if iiy ≥ size.y then buffers
  else if iix ≥ size.x then buffers
  else
    let i := iix + iiy * size.x
    let j := step.2 + step.1 * tileSize
    { colorBuffer := Function.update buffers.colorBuffer i (msg.color j)
      depthBuffer :=
        if channels.hasDepthBuffer && msg.hasDepth then
          Function.update buffers.depthBuffer i (msg.depth j)
        else buffers.depthBuffer
      normalBuffer :=
        if msg.hasAux && channels.hasNormalBuffer then
          Function.update buffers.normalBuffer i (msg.normal j)
        else buffers.normalBuffer
      albedoBuffer :=
        if msg.hasAux && channels.hasAlbedoBuffer then
          Function.update buffers.albedoBuffer i (msg.albedo j)
        else buffers.albedoBuffer }

/-- `DistributedFrameBuffer::processMessage`, on the master. Only an error below
infinity is recorded, which `finite` decides. -/
def processMessage (finite : E → Bool) (master : MasterFrame C E D V)
    (msg : MasterTileMessage C E D V) : MasterFrame C E D V :=
  { toBuffers :=
      (chunkLanes tileSize tileSize).foldl (msg.writePixel tileSize size channels) master.toBuffers
    tileErrorRegion :=
      if channels.hasVarianceBuffer && finite msg.error then
        Function.update master.tileErrorRegion
          ⟨msg.coords.x / tileSize, msg.coords.y / tileSize⟩ msg.error
      else master.tileErrorRegion }

/-- What a message leaves at a pixel it covers. A channel that the frame buffer or the
message lacks is left alone. -/
def MasterTileMessage.pixel (msg : MasterTileMessage C E D V) (j : Nat)
    (old : BufferPixel C D V) : BufferPixel C D V :=
  { color := msg.color j
    depth := if channels.hasDepthBuffer && msg.hasDepth then msg.depth j else old.depth
    normal := if msg.hasAux && channels.hasNormalBuffer then msg.normal j else old.normal
    albedo := if msg.hasAux && channels.hasAlbedoBuffer then msg.albedo j else old.albedo }

/-- A pixel of the frame that the iteration does not address is left alone. -/
theorem writePixel_other (msg : MasterTileMessage C E D V) (buffers : Buffers C D V)
    (step : Nat × Nat) {x y : Nat} (inRow : x < size.x)
    (apart : ¬ (step.2 + msg.coords.x = x ∧ step.1 + msg.coords.y = y)) :
    (msg.writePixel tileSize size channels buffers step).pixel (x + y * size.x) =
      buffers.pixel (x + y * size.x) := by
  by_cases below : step.1 + msg.coords.y ≥ size.y
  · simp only [MasterTileMessage.writePixel, if_pos below]
  · by_cases outside : step.2 + msg.coords.x ≥ size.x
    · simp only [MasterTileMessage.writePixel, if_neg below, if_pos outside]
    · have other : x + y * size.x ≠
          step.2 + msg.coords.x + (step.1 + msg.coords.y) * size.x := by
        intro same
        rw [Nat.add_comm x, Nat.add_comm (step.2 + _)] at same
        obtain ⟨rows, columns⟩ := stride_injective inRow (Nat.lt_of_not_ge outside) same
        exact apart ⟨columns.symm, rows.symm⟩
      simp only [MasterTileMessage.writePixel, if_neg below, if_neg outside, Buffers.pixel,
        BufferPixel.mk.injEq]
      refine ⟨Function.update_of_ne other _ _, ?_, ?_, ?_⟩ <;>
        split <;> first | exact Function.update_of_ne other _ _ | rfl

theorem writePixel_own (msg : MasterTileMessage C E D V) (buffers : Buffers C D V)
    (ix iy : Nat) (inRow : ix + msg.coords.x < size.x) (inColumn : iy + msg.coords.y < size.y) :
    (msg.writePixel tileSize size channels buffers (iy, ix)).pixel
        (ix + msg.coords.x + (iy + msg.coords.y) * size.x) =
      msg.pixel channels (ix + iy * tileSize)
        (buffers.pixel (ix + msg.coords.x + (iy + msg.coords.y) * size.x)) := by
  have above : ¬ iy + msg.coords.y ≥ size.y := Nat.not_le.mpr inColumn
  have inside : ¬ ix + msg.coords.x ≥ size.x := Nat.not_le.mpr inRow
  simp only [MasterTileMessage.writePixel, if_neg above, if_neg inside, Buffers.pixel,
    MasterTileMessage.pixel, BufferPixel.mk.injEq]
  refine ⟨Function.update_self _ _ _, ?_, ?_, ?_⟩ <;>
    split <;> first | exact Function.update_self _ _ _ | rfl

/-- A message rewrites the pixels of the frame that its tile covers. -/
theorem processMessage_pixel (finite : E → Bool) (master : MasterFrame C E D V)
    (msg : MasterTileMessage C E D V) {x y : Nat} (inRow : x < size.x) (inColumn : y < size.y) :
    (processMessage tileSize size channels finite master msg).pixel (x + y * size.x) =
      if (msg.coords.x ≤ x ∧ x < msg.coords.x + tileSize) ∧
          msg.coords.y ≤ y ∧ y < msg.coords.y + tileSize then
        msg.pixel channels (x - msg.coords.x + (y - msg.coords.y) * tileSize)
          (master.pixel (x + y * size.x))
      else master.pixel (x + y * size.x) := by
  have untouched := fun buffers step apart =>
    writePixel_other tileSize size channels msg buffers step (y := y) inRow apart
  split
  · next covers =>
    obtain ⟨⟨left, right⟩, lower, upper⟩ := covers
    have column : x - msg.coords.x + msg.coords.x = x := Nat.sub_add_cancel left
    have row : y - msg.coords.y + msg.coords.y = y := Nat.sub_add_cancel lower
    refine foldl_once (msg.writePixel tileSize size channels)
      (fun buffers => buffers.pixel (x + y * size.x)) (fun _ => True)
      (msg.pixel channels (x - msg.coords.x + (y - msg.coords.y) * tileSize))
      (y - msg.coords.y, x - msg.coords.x) (chunkLanes_nodup tileSize tileSize) ?_
      (fun _ _ _ _ => trivial) ?_ ?_ trivial
    · rw [mem_chunkLanes]
      exact ⟨by omega, by omega⟩
    · rintro buffers ⟨iy, ix⟩ _ apart _
      refine untouched buffers (iy, ix) ?_
      rintro ⟨columns, rows⟩
      exact apart (Prod.ext (by simp only; omega) (by simp only; omega))
    · intro buffers _
      have own := writePixel_own tileSize size channels msg buffers
        (x - msg.coords.x) (y - msg.coords.y) (by omega) (by omega)
      rw [column, row] at own
      exact own
  · next misses =>
    refine foldl_never (msg.writePixel tileSize size channels)
      (fun buffers => buffers.pixel (x + y * size.x)) (fun _ => True) _
      (fun _ _ _ _ => trivial) ?_ trivial
    rintro buffers ⟨iy, ix⟩ member _
    obtain ⟨inTile, inTileRow⟩ := (mem_chunkLanes _ _ _).mp member
    refine untouched buffers (iy, ix) ?_
    rintro ⟨columns, rows⟩
    simp only at columns rows inTile inTileRow
    exact misses ⟨⟨by omega, by omega⟩, by omega, by omega⟩

/-- The message of a tile rewrites the pixels of that tile and no others. -/
theorem processMessage_tile (positive : 0 < tileSize) (finite : E → Bool)
    (master : MasterFrame C E D V) (msg : MasterTileMessage C E D V) (tileID : Nat)
    (begins : msg.coords = tileBegin tileSize size tileID) {x y : Nat} (inRow : x < size.x)
    (inColumn : y < size.y) :
    (processMessage tileSize size channels finite master msg).pixel (x + y * size.x) =
      if tileID = tileIDof tileSize size ⟨x, y⟩ then
        msg.pixel channels (tilePixel tileSize ⟨x, y⟩) (master.pixel (x + y * size.x))
      else master.pixel (x + y * size.x) := by
  have covers := tileBegin_covers_iff positive inRow inColumn tileID
  rw [← begins] at covers
  rw [processMessage_pixel tileSize size channels finite master msg inRow inColumn]
  by_cases own : tileID = tileIDof tileSize size ⟨x, y⟩
  · have place : x - msg.coords.x + (y - msg.coords.y) * tileSize =
        tilePixel tileSize ⟨x, y⟩ := by
      have columns := Nat.div_add_mod x tileSize
      have rows := Nat.div_add_mod y tileSize
      rw [Nat.mul_comm] at columns rows
      rw [begins, own, tileBegin_tileIDof positive inRow inColumn]
      simp only [tilePixel]
      rw [show x - x / tileSize * tileSize = x % tileSize by omega,
        show y - y / tileSize * tileSize = y % tileSize by omega]
    rw [if_pos (covers.mpr own), if_pos own, place]
  · rw [if_neg (fun covered => own (covers.mp covered)), if_neg own]

end Process

/-- `MasterTileMessageBuilder`, with the calls that `tileIsCompleted` makes. Depths are
included for a depth channel, normals and albedos for either of their channels. -/
def makeMasterTileMessage (channels : Channels) (coords : Vec2i) (error : E) (color : Nat → C)
    (depth : Nat → D) (normal albedo : Nat → V) : MasterTileMessage C E D V :=
  { hasDepth := channels.hasDepthBuffer
    hasAux := channels.hasAux
    coords := coords
    error := error
    color := color
    depth := depth
    normal := normal
    albedo := albedo }

end Ospray
