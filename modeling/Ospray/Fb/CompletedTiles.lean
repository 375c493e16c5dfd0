import Mathlib
import Ospray.Fb.FragmentBlending
import Ospray.Fb.WriteMultipleTile

/-!
# The region of a completed tile

Each frame mode has its own kind of tile, and each kind calls `tileIsCompleted` once
its input is complete. The colors of the tile's final pixels are then converted for
the master, as many rows of them as `final.region` has.

Blended tiles set that region before they complete. Tiles rendered several times set
it with the first sample since the last clear only, and composited tiles not at all:
these have the empty region that the constructor gave them. A tile that is not set to
its region keeps the one it had.
-/

namespace Ospray

open Library.Loops

variable {C K D : Type}

/-- `DFB_zComposite`: the nearer fragment of each pixel, normals and albedos apart. -/
def zComposite [LT D] [DecidableLT D] (target : Target) (delta current : Tile K D) : Tile K D :=
  { current with pixel := fun j =>
      if j < target.tileSize * target.tileSize ∧ (delta.pixel j).z < (current.pixel j).z then
        { current.pixel j with color := (delta.pixel j).color, z := (delta.pixel j).z }
      else current.pixel j }

/-- `DFB_writeTile`, for any of the conversions. -/
def writeTile (target : Target) (cvt : Vec4 K → C) (tile : Tile K D) (color : Nat → C) : Nat → C :=
  let maxi := tile.region.size.y * (target.tileSize / target.programCount)
  (chunkLanes maxi target.programCount).foldl (fun color step =>
    let i := step.1 * target.programCount + step.2
    Function.update color i (cvt (tile.pixel i).color)) color

/-- `ZCompositeTile`. -/
structure ZCompositeTile (K D : Type) extends TileData K D where
  numPartsComposited : Nat
  numWorkers : Nat
  compositedTileData : Tile K D

/-- The tile objects of the three frame modes. -/
inductive OwnedTile (K D : Type) where
  | writeMultiple (tile : WriteMultipleTile K D)
  | alphaBlend (tile : AlphaBlendTile K D)
  | zComposite (tile : ZCompositeTile K D)

/-- What every kind of tile has. -/
def OwnedTile.data : OwnedTile K D → TileData K D
  | .writeMultiple tile => tile.toTileData
  | .alphaBlend tile => tile.toTileData
  | .zComposite tile => tile.toTileData

section Process

variable [Field K] [LinearOrder K] [LinearOrder D]
variable (target : Target) (rsqrtf : K → K) (channels : Channels)

omit [Field K] [LinearOrder K] [LinearOrder D] in
/-- `ZCompositeTile::newFrame`. -/
def ZCompositeTile.newFrame (self : ZCompositeTile K D) : ZCompositeTile K D :=
  { self with numPartsComposited := 0 }

/-- `ZCompositeTile::process`, and whether it calls `tileIsCompleted`. -/
def ZCompositeTile.process (self : ZCompositeTile K D) (tile : Tile K D) :
    ZCompositeTile K D × Bool :=
  let composited :=
    if self.numPartsComposited = 0 then tile
    else Ospray.zComposite target tile self.compositedTileData
  let counted :=
    { self with
      numPartsComposited := self.numPartsComposited + 1, compositedTileData := composited }
  if counted.numPartsComposited = self.numWorkers then
    ({ counted with toTileData := self.toTileData.accumulate target rsqrtf channels composited },
      true)
  else (counted, false)

/-- `newFrame`, where `tileInstances` is the number of times the tile was scheduled. -/
def OwnedTile.newFrame (tileInstances : Int) : OwnedTile K D → Option (OwnedTile K D)
  | .writeMultiple tile => some (.writeMultiple (tile.newFrame tileInstances))
  | .alphaBlend tile => tile.newFrame.map .alphaBlend
  | .zComposite tile => some (.zComposite tile.newFrame)

/-- Whether a call of `process` calls `tileIsCompleted`. -/
def BlendEvent.isCompleted : BlendEvent K D → Bool
  | .tileIsCompleted _ => true
  | .negativeMissing _ => false

/-- `TileData::process`, and whether it calls `tileIsCompleted`. -/
def OwnedTile.process (tile : Tile K D) : OwnedTile K D → OwnedTile K D × Bool
  | .writeMultiple self =>
    let call := self.process target rsqrtf channels tile
    (.writeMultiple call.1, call.2)
  | .alphaBlend self =>
    let call := self.process target rsqrtf channels tile
    (.alphaBlend call.1, call.2.any BlendEvent.isCompleted)
  | .zComposite self =>
    let call := self.process target rsqrtf channels tile
    (.zComposite call.1, call.2)

/-- The calls of `process` for several tiles. -/
def OwnedTile.processAll (self : OwnedTile K D) (tiles : List (Tile K D)) : OwnedTile K D :=
  tiles.foldl (fun self tile => (self.process target rsqrtf channels tile).1) self

end Process

section Regions

variable [Field K] [LinearOrder K] [LinearOrder D]
variable (target : Target) (rsqrtf : K → K) (channels : Channels)

end Regions

/-- The region a `range_t` has by default: empty, from the largest integer down. Its
upper end, which is negative, is cut off at zero. -/
def emptyRegion : Region := ⟨⟨2 ^ 31 - 1, 2 ^ 31 - 1⟩, ⟨0, 0⟩⟩

/-- A created tile of one pixel, and the sample of a frame of one pixel. -/
def createdData : TileData ℚ ℚ :=
  let created : Tile ℚ ℚ :=
    { Tile.make 1 ⟨0, 0⟩ ⟨1, 1⟩ 0 (fun _ => ⟨0, 0, 0, 0⟩) with region := emptyRegion }
  { error := 0, accum := created, variance := created, final := created }

/-- The channels of a frame buffer with colors only. -/
def colorsOnly : Channels := ⟨false, false, false, false, false, no_variance⟩

end Ospray
