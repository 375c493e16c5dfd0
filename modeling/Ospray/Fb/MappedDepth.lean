import Mathlib
import Ospray.Fb.Accumulation
import Ospray.Fb.TileMessages

/-!
# The depth an application maps

A local frame buffer writes the depth of every sample, so an application maps the
depths of the last frame. The owner of a distributed tile copies the depth of the
first sample and only accumulates colors afterwards, so the master is sent the
depths of the first frame since the clear. Both are followed here through frames
in which every tile is set once, in any order.
-/

namespace Ospray

open Library.Loops

variable {C K D : Type} [Field K] [LinearOrder K]
variable (target : Target) (rsqrtf : K → K) (cvt : Vec4 K → C)

/-- One frame of a frame buffer with so many tiles: the samples of each tile, the order
in which the tiles are set, and the order in which the master reads their messages. -/
structure Frame (tiles : Nat) (K D : Type) where
  samples : Nat → Nat → Pixel K D
  order : List Nat
  everyTile : order.Perm (List.range tiles)
  gathered : List Nat
  everyMessage : gathered.Perm (List.range tiles)

/-- A distributed frame buffer: the tiles of all owners, and the local copy for mapping,
which the master creates if there is a color format. -/
structure DistributedFrameBuffer (C K D : Type) where
  size : Vec2i
  colorBufferFormat : ColorBufferFormat
  channels : Channels
  tiles : Nat → WriteMultipleTile K D
  localFBonMaster : Option (MasterFrame C (WithTop K) D (Vec3 K))
  mappable : localFBonMaster.isSome = decide (colorBufferFormat ≠ .none)

/-- The sample that a frame sets a tile to. -/
def frameTile {tiles : Nat} (size : Vec2i) (frames : Nat → Frame tiles K D)
    (tileID accumID : Nat) : Tile K D :=
  instanceTile target (tileCoords target.tileSize size tileID) size
    (fun id => (frames id).samples tileID) accumID

/-- One frame of a local frame buffer. -/
def LocalFrameBuffer.renderFrame {tiles : Nat} (size : Vec2i) (frames : Nat → Frame tiles K D)
    (self : LocalFrameBuffer C K D) (accumID : Nat) : LocalFrameBuffer C K D :=
  (frames accumID).order.foldl (fun self tileID =>
    (self.setTile target rsqrtf cvt (frameTile target size frames tileID accumID)).1) self

/-- The owners' side of a frame: every tile starts the frame and is processed. -/
def DistributedFrameBuffer.processTiles {tiles : Nat} (self : DistributedFrameBuffer C K D)
    (frames : Nat → Frame tiles K D) (accumID : Nat) : Nat → WriteMultipleTile K D :=
  (frames accumID).order.foldl (fun owned tileID =>
    Function.update owned tileID ((owned tileID).process target rsqrtf self.channels
      (frameTile target self.size frames tileID accumID)).1)
    (fun tileID => (self.tiles tileID).newFrame 1)

omit [Field K] [LinearOrder K] in
/-- The message of a completed tile. -/
def WriteMultipleTile.message (self : WriteMultipleTile K D) (size : Vec2i) (channels : Channels)
    (tileID : Nat) : MasterTileMessage C (WithTop K) D (Vec3 K) :=
  makeMasterTileMessage channels (tileBegin target.tileSize size tileID) self.error
    (fun j => cvt (self.final.pixel j).color) (fun j => (self.final.pixel j).z)
    (fun j => (self.final.pixel j).normal) (fun j => (self.final.pixel j).albedo)

/-- One frame of a distributed frame buffer. Without a color format only errors are
gathered, which are left out here. -/
def DistributedFrameBuffer.renderFrame {tiles : Nat} (frames : Nat → Frame tiles K D)
    (self : DistributedFrameBuffer C K D) (accumID : Nat) : DistributedFrameBuffer C K D :=
  let owned := self.processTiles target rsqrtf frames accumID
  { self with
    tiles := owned
    localFBonMaster := self.localFBonMaster.map fun master =>
      (frames accumID).gathered.foldl (fun master tileID =>
        processMessage target.tileSize self.size self.channels (fun error => error < ⊤) master
          ((owned tileID).message target cvt self.size self.channels tileID)) master
    mappable := by rw [Option.isSome_map, self.mappable] }

/-- `mapBuffer(OSP_FB_DEPTH)` of a local frame buffer. -/
def LocalFrameBuffer.mapDepth (self : LocalFrameBuffer C K D) : Option (Nat → D) :=
  if self.channels.hasDepthBuffer then some self.depthBuffer else none

/-- `mapBuffer(OSP_FB_DEPTH)` of a distributed frame buffer, which throws if there is
no local copy. -/
def DistributedFrameBuffer.mapDepth (self : DistributedFrameBuffer C K D) : Option (Nat → D) :=
  self.localFBonMaster.bind fun master =>
    if self.channels.hasDepthBuffer then some master.depthBuffer else none

/-- `clear(OSP_FB_ACCUM)` on all owners. -/
def DistributedFrameBuffer.clearAccum (inf : D) (self : DistributedFrameBuffer C K D) :
    DistributedFrameBuffer C K D :=
  { self with tiles := fun tileID => (self.tiles tileID).clearAccum self.channels inf }

section Local

omit [LinearOrder K] in
/-- What writing the buffers leaves in the depth buffer. -/
theorem writeBuffers_depth (self : LocalFrameBuffer C K D) (tile : Tile K D) (tileID : Nat)
    (placed : tile.region =
      tileRegion target.tileSize (tileCoords target.tileSize self.size tileID) self.size)
    {x y : Nat} (inRow : x < self.size.x) (inColumn : y < self.size.y) :
    (self.writeBuffers target cvt tile).depthBuffer (x + y * self.size.x) =
      if tileID = tileIDof target.tileSize self.size ⟨x, y⟩ ∧ self.colorBufferFormat ≠ .none ∧
          self.channels.hasDepthBuffer = true then
        (tile.pixel (tilePixel target.tileSize ⟨x, y⟩)).z
      else self.depthBuffer (x + y * self.size.x) := by
  have narrow : tile.region.size.x ≤ target.tileSize := by
    rw [placed]
    exact tileRegion_width _ _ _
  have fits : ∀ col < tile.region.size.x, tile.region.lower.x + col < self.size.x := by
    rw [placed]
    exact fun col inside => tileRegion_column _ _ _ inside
  have contains := tileRegion_contains_iff target.tileSizePositive ⟨x, y⟩ inRow inColumn
    tileID
  unfold LocalFrameBuffer.writeBuffers
  split
  · next none => rw [if_neg (fun written => written.2.1 none)]
  · next format =>
    rw [Nat.add_comm x]
    by_cases own : tileID = tileIDof target.tileSize self.size ⟨x, y⟩
    · obtain ⟨⟨left, lower⟩, inColumns, inRows⟩ :=
        tileRegion_offset target.tileSizePositive ⟨x, y⟩ inRow inColumn
      rw [← own, ← placed] at left lower inColumns inRows
      have here := (local_pixel target self.size tile.region narrow fits
        (fun (buffers : C × D) (pixel : Pixel K D) =>
          ((cvt pixel.color, if self.channels.hasDepthBuffer then pixel.z else buffers.2), pixel,
            (0 : K)))
        ⟨fun i => (self.colorBuffer i, self.depthBuffer i), tile.pixel, (0 : K)⟩ inRows
        inColumns).1
      rw [left, lower] at here
      refine (congrArg Prod.snd here).trans ?_
      simp [own, format, tilePixel, Nat.add_comm]
    · have outside : ¬ tile.region.Contains ⟨x, y⟩ := by
        rw [placed]
        exact fun inside => own (contains.mp inside)
      rw [if_neg (fun written => own written.1)]
      exact congrArg Prod.snd (local_other target self.size tile.region fits _
        ⟨fun i => (self.colorBuffer i, self.depthBuffer i), tile.pixel, (0 : K)⟩ inRow outside)

/-- One call of `setTile`: the pixels of the tile take the depths of the sample. -/
theorem setTile_depth (self : LocalFrameBuffer C K D) (samples : Nat → Nat → Pixel K D)
    (tileID accumID : Nat) {x y : Nat} (inRow : x < self.size.x) (inColumn : y < self.size.y) :
    (self.setTile target rsqrtf cvt (instanceTile target
        (tileCoords target.tileSize self.size tileID) self.size samples accumID)).1.depthBuffer
        (x + y * self.size.x) =
      if tileID = tileIDof target.tileSize self.size ⟨x, y⟩ ∧ self.colorBufferFormat ≠ .none ∧
          self.channels.hasDepthBuffer = true then
        (samples accumID (tilePixel target.tileSize ⟨x, y⟩)).z
      else self.depthBuffer (x + y * self.size.x) := by
  obtain ⟨⟨channels, size, format⟩, _, _, depth, placed, _⟩ := accumulateTile_keeps target rsqrtf
    self (instanceTile target (tileCoords target.tileSize self.size tileID) self.size samples
      accumID)
  have colors := fun row col
      (inRows : row < (tileRegion target.tileSize
        (tileCoords target.tileSize self.size tileID) self.size).size.y)
      (inColumns : col < (tileRegion target.tileSize
        (tileCoords target.tileSize self.size tileID) self.size).size.x) =>
    accumulateTile_colors target rsqrtf self (tileCoords target.tileSize self.size tileID) samples
      accumID inRows inColumns
  simp only [LocalFrameBuffer.setTile]
  generalize self.accumulateTile target rsqrtf (instanceTile target
    (tileCoords target.tileSize self.size tileID) self.size samples accumID) = result
    at channels size format depth placed colors ⊢
  obtain ⟨accumulated, normalized, err⟩ := result
  simp only at channels size format depth placed colors ⊢
  have written := writeBuffers_depth target cvt
    ((accumulated.updateError target normalized err).accumulateAuxTile target normalized) normalized
    tileID (placed.trans (congrArg (fun s => tileRegion target.tileSize
      (tileCoords target.tileSize s tileID) s) size.symm)) (x := x) (y := y)
    (inRow.trans_eq (congrArg Vec2i.x size.symm)) (inColumn.trans_eq (congrArg Vec2i.y size.symm))
  simp only [LocalFrameBuffer.accumulateAuxTile, LocalFrameBuffer.updateError, channels, size,
    format, depth] at written ⊢
  refine written.trans ?_
  by_cases own : tileID = tileIDof target.tileSize self.size ⟨x, y⟩
  · obtain ⟨_, inColumns, inRows⟩ :=
      tileRegion_offset target.tileSizePositive ⟨x, y⟩ inRow inColumn
    rw [← own] at inColumns inRows
    have sample := congrArg Pixel.z (colors _ _ inRows inColumns).2.2
    have place : tilePixel target.tileSize ⟨x, y⟩ =
        y % target.tileSize * target.tileSize + x % target.tileSize := Nat.add_comm _ _
    rw [place, sample]
  · rw [if_neg (fun written => own written.1), if_neg (fun written => own written.1)]

/-- One frame: every pixel takes the depth of its tile's sample, in whatever order the
tiles are set. -/
theorem localFrame_depth (self : LocalFrameBuffer C K D) {size : Vec2i} (sized : self.size = size)
    (frames : Nat → Frame (totalTiles target.tileSize size) K D) (accumID : Nat) {x y : Nat}
    (inRow : x < size.x) (inColumn : y < size.y) :
    (self.renderFrame target rsqrtf cvt size frames accumID).depthBuffer (x + y * size.x) =
      if self.colorBufferFormat ≠ .none ∧ self.channels.hasDepthBuffer = true then
        ((frames accumID).samples (tileIDof target.tileSize size ⟨x, y⟩)
          (tilePixel target.tileSize ⟨x, y⟩)).z
      else self.depthBuffer (x + y * size.x) := by
  subst sized
  have everyTile := (frames accumID).everyTile
  refine foldl_once _ (fun fb : LocalFrameBuffer C K D => fb.depthBuffer (x + y * self.size.x))
    (fun fb => fb.channels = self.channels ∧ fb.size = self.size ∧
      fb.colorBufferFormat = self.colorBufferFormat)
    (fun old => if self.colorBufferFormat ≠ .none ∧ self.channels.hasDepthBuffer = true then
      ((frames accumID).samples (tileIDof target.tileSize self.size ⟨x, y⟩)
        (tilePixel target.tileSize ⟨x, y⟩)).z else old)
    (tileIDof target.tileSize self.size ⟨x, y⟩) (everyTile.nodup_iff.mpr List.nodup_range)
    (everyTile.mem_iff.mpr (List.mem_range.mpr
      (tileIDof_lt target.tileSizePositive inRow inColumn))) ?_ ?_ ?_ ⟨rfl, rfl, rfl⟩
  · rintro fb tileID _ ⟨channels, size, format⟩
    obtain ⟨channelsAfter, sizeAfter, formatAfter⟩ := setTile_keeps target rsqrtf cvt fb
      (frameTile target self.size frames tileID accumID)
    exact ⟨channelsAfter.trans channels, sizeAfter.trans size, formatAfter.trans format⟩
  · rintro fb tileID _ apart ⟨channels, size, format⟩
    have depth := setTile_depth target rsqrtf cvt fb (fun id => (frames id).samples tileID) tileID
      accumID (x := x) (y := y) (by rwa [size]) (by rwa [size])
    rw [size, if_neg (fun written => apart written.1)] at depth
    exact depth
  · rintro fb ⟨channels, size, format⟩
    have depth := setTile_depth target rsqrtf cvt fb
      (fun id => (frames id).samples (tileIDof target.tileSize self.size ⟨x, y⟩))
      (tileIDof target.tileSize self.size ⟨x, y⟩) accumID (x := x) (y := y) (by rwa [size])
      (by rwa [size])
    rw [size, channels, format] at depth
    simp only [true_and] at depth
    exact depth

end Local

section Distributed

/-- The owner of a tile has accumulated its sample by the end of a frame. -/
theorem processTiles_at (self : DistributedFrameBuffer C K D) {size : Vec2i}
    (sized : self.size = size) (frames : Nat → Frame (totalTiles target.tileSize size) K D)
    (accumID : Nat) {x y : Nat} (inRow : x < size.x) (inColumn : y < size.y) :
    let tileID := tileIDof target.tileSize size ⟨x, y⟩
    let j := tilePixel target.tileSize ⟨x, y⟩
    (self.processTiles target rsqrtf frames accumID tileID).toTileData.at j =
      ((self.tiles tileID).toTileData.at j).accumulate self.channels accumID
        ((frames accumID).samples tileID j) := by
  intro tileID j
  subst sized
  have everyTile := (frames accumID).everyTile
  have processed : self.processTiles target rsqrtf frames accumID tileID =
      (((self.tiles tileID).newFrame 1).process target rsqrtf self.channels
        (frameTile target self.size frames tileID accumID)).1 := by
    refine foldl_once _ (fun owned : Nat → WriteMultipleTile K D => owned tileID) (fun _ => True)
      (fun owner => (owner.process target rsqrtf self.channels
        (frameTile target self.size frames tileID accumID)).1)
      tileID (everyTile.nodup_iff.mpr List.nodup_range)
      (everyTile.mem_iff.mpr (List.mem_range.mpr
        (tileIDof_lt target.tileSizePositive inRow inColumn))) (fun _ _ _ _ => trivial) ?_ ?_ trivial
    · intro owned other _ apart _
      exact Function.update_of_ne apart.symm _ _
    · intro owned _
      exact Function.update_self _ _ _
  obtain ⟨_, inColumns, inRows⟩ :=
    tileRegion_offset target.tileSizePositive ⟨x, y⟩ inRow inColumn
  have inside := tile_covers target inRows inColumns
  have place : j = y % target.tileSize * target.tileSize + x % target.tileSize :=
    Nat.add_comm _ _
  have accumulated := singleFrame_accumulate target rsqrtf self.channels
    (tileCoords target.tileSize self.size tileID) self.size
    (fun id => (frames id).samples tileID) (self.tiles tileID) accumID j
  rw [processed]
  rw [place] at accumulated ⊢
  rw [if_pos inside] at accumulated
  exact accumulated

/-- The master takes the final depth of a pixel from the owner of its tile, in whatever
order the messages are read. -/
theorem distributedFrame_depth (self : DistributedFrameBuffer C K D) {size : Vec2i}
    (sized : self.size = size) (frames : Nat → Frame (totalTiles target.tileSize size) K D)
    (accumID : Nat) (depth : self.channels.hasDepthBuffer = true)
    {master : MasterFrame C (WithTop K) D (Vec3 K)} (mappable : self.localFBonMaster = some master)
    :
    let after := self.renderFrame target rsqrtf cvt frames accumID
    ∃ written, after.localFBonMaster = some written ∧ ∀ x < size.x, ∀ y < size.y,
      written.depthBuffer (x + y * size.x) =
        ((after.tiles (tileIDof target.tileSize size ⟨x, y⟩)).toTileData.at
          (tilePixel target.tileSize ⟨x, y⟩)).final.z := by
  intro after
  subst sized
  have everyMessage := (frames accumID).everyMessage
  refine ⟨_, (congrArg (Option.map _) mappable).trans (Option.map_some ..), ?_⟩
  intro x inRow y inColumn
  have message := fun master tileID => processMessage_tile target.tileSize self.size self.channels
    target.tileSizePositive (fun error : WithTop K => decide (error < ⊤)) master
    ((after.tiles tileID).message target cvt self.size self.channels tileID) tileID rfl inRow inColumn
  refine foldl_once _ (fun master : MasterFrame C (WithTop K) D (Vec3 K) =>
      master.depthBuffer (x + y * self.size.x)) (fun _ => True)
    (fun _ => ((after.tiles (tileIDof target.tileSize self.size ⟨x, y⟩)).toTileData.at
      (tilePixel target.tileSize ⟨x, y⟩)).final.z)
    (tileIDof target.tileSize self.size ⟨x, y⟩) (everyMessage.nodup_iff.mpr List.nodup_range)
    (everyMessage.mem_iff.mpr (List.mem_range.mpr
      (tileIDof_lt target.tileSizePositive inRow inColumn))) (fun _ _ _ _ => trivial) ?_ ?_ trivial
  · intro master tileID _ apart _
    have untouched := message master tileID
    rw [if_neg apart] at untouched
    exact congrArg BufferPixel.depth untouched
  · intro master _
    have updated := message master (tileIDof target.tileSize self.size ⟨x, y⟩)
    rw [if_pos rfl] at updated
    refine (congrArg BufferPixel.depth updated).trans ?_
    simp [MasterTileMessage.pixel, WriteMultipleTile.message, makeMasterTileMessage, depth,
      TileData.at]

end Distributed

/-- The frames with the accumulation numbers from zero on, of a local frame buffer. -/
def LocalFrameBuffer.renderFrames {tiles : Nat} (size : Vec2i) (frames : Nat → Frame tiles K D)
    (self : LocalFrameBuffer C K D) (count : Nat) : LocalFrameBuffer C K D :=
  (List.range count).foldl (LocalFrameBuffer.renderFrame target rsqrtf cvt size frames) self

/-- The same frames of a distributed frame buffer. -/
def DistributedFrameBuffer.renderFrames {tiles : Nat} (frames : Nat → Frame tiles K D)
    (self : DistributedFrameBuffer C K D) (count : Nat) : DistributedFrameBuffer C K D :=
  (List.range count).foldl (DistributedFrameBuffer.renderFrame target rsqrtf cvt frames) self

theorem localFrame_keeps {tiles : Nat} (size : Vec2i) (frames : Nat → Frame tiles K D)
    (self : LocalFrameBuffer C K D) (accumID : Nat) :
    let after := self.renderFrame target rsqrtf cvt size frames accumID
    after.channels = self.channels ∧ after.size = self.size ∧
      after.colorBufferFormat = self.colorBufferFormat := by
  unfold LocalFrameBuffer.renderFrame
  induction (frames accumID).order generalizing self with
  | nil => exact ⟨rfl, rfl, rfl⟩
  | cons tileID rest inductionHypothesis =>
    obtain ⟨channels, size, format⟩ := setTile_keeps target rsqrtf cvt self
      (frameTile target size frames tileID accumID)
    obtain ⟨channelsLater, sizeLater, formatLater⟩ := inductionHypothesis
      (self.setTile target rsqrtf cvt (frameTile target _ frames tileID accumID)).1
    exact ⟨channelsLater.trans channels, sizeLater.trans size, formatLater.trans format⟩

theorem localFrames_keeps {tiles : Nat} (size : Vec2i) (frames : Nat → Frame tiles K D)
    (self : LocalFrameBuffer C K D) (count : Nat) :
    let after := self.renderFrames target rsqrtf cvt size frames count
    after.channels = self.channels ∧ after.size = self.size ∧
      after.colorBufferFormat = self.colorBufferFormat := by
  induction count with
  | zero => exact ⟨rfl, rfl, rfl⟩
  | succ count inductionHypothesis =>
    obtain ⟨channels, sized, format⟩ := inductionHypothesis
    obtain ⟨channelsAfter, sizedAfter, formatAfter⟩ := localFrame_keeps target rsqrtf cvt size
      frames (self.renderFrames target rsqrtf cvt size frames count) count
    simp only [LocalFrameBuffer.renderFrames, List.range_succ, List.foldl_append, List.foldl_cons,
      List.foldl_nil] at channels sized format channelsAfter sizedAfter formatAfter ⊢
    exact ⟨channelsAfter.trans channels, sizedAfter.trans sized, formatAfter.trans format⟩

/-- The depth of a pixel in some frame. -/
def Frame.depth {size : Vec2i} (frame : Frame (totalTiles target.tileSize size) K D) (x y : Nat) :
    D :=
  (frame.samples (tileIDof target.tileSize size ⟨x, y⟩) (tilePixel target.tileSize ⟨x, y⟩)).z

/-- A local frame buffer holds the depths of the last frame. -/
theorem localFrames_depth (self : LocalFrameBuffer C K D) {size : Vec2i} (sized : self.size = size)
    (frames : Nat → Frame (totalTiles target.tileSize size) K D) (last : Nat)
    (format : self.colorBufferFormat ≠ .none) (depth : self.channels.hasDepthBuffer = true)
    {x y : Nat} (inRow : x < size.x) (inColumn : y < size.y) :
    (self.renderFrames target rsqrtf cvt size frames (last + 1)).depthBuffer (x + y * size.x) =
      (frames last).depth target x y := by
  obtain ⟨channels, kept, formatted⟩ := localFrames_keeps target rsqrtf cvt size frames self last
  have frame := localFrame_depth target rsqrtf cvt
    (self.renderFrames target rsqrtf cvt size frames last) (kept.trans sized) frames last inRow
    inColumn
  rw [channels, formatted, if_pos ⟨format, depth⟩] at frame
  have split : self.renderFrames target rsqrtf cvt size frames (last + 1) =
      (self.renderFrames target rsqrtf cvt size frames last).renderFrame target rsqrtf cvt size
        frames last := by
    simp only [LocalFrameBuffer.renderFrames, List.range_succ, List.foldl_append, List.foldl_cons,
      List.foldl_nil]
  rw [split]
  exact frame

/-- A distributed frame buffer after some frames: the owners' tiles hold the depths of
the first frame, and the master has been sent them. -/
structure FirstDepths (channels : Channels) {size : Vec2i}
    (frames : Nat → Frame (totalTiles target.tileSize size) K D)
    (after : DistributedFrameBuffer C K D) : Prop where
  channelled : after.channels = channels
  sized : after.size = size
  owned : ∀ x < size.x, ∀ y < size.y,
    ((after.tiles (tileIDof target.tileSize size ⟨x, y⟩)).toTileData.at
      (tilePixel target.tileSize ⟨x, y⟩)).final.z = (frames 0).depth target x y
  mapped : ∃ master, after.localFBonMaster = some master ∧ ∀ x < size.x, ∀ y < size.y,
    master.depthBuffer (x + y * size.x) = (frames 0).depth target x y

/-- The first frame copies the depths; with an accumulation buffer every further one
leaves them alone, so the master is sent them again. -/
theorem firstDepths_frame {channels : Channels} {size : Vec2i}
    (depth : channels.hasDepthBuffer = true) (accumulates : channels.hasAccumBuffer = true)
    (frames : Nat → Frame (totalTiles target.tileSize size) K D)
    (self : DistributedFrameBuffer C K D) (channelled : self.channels = channels)
    (sized : self.size = size) (mappable : self.localFBonMaster.isSome = true) (accumID : Nat)
    (before : 0 < accumID → FirstDepths target channels frames self) :
    FirstDepths target channels frames (self.renderFrame target rsqrtf cvt frames accumID) := by
  obtain ⟨master, created⟩ := Option.isSome_iff_exists.mp mappable
  obtain ⟨written, sent, depths⟩ := distributedFrame_depth target rsqrtf cvt self sized frames
    accumID (by rwa [channelled]) created
  have owned : ∀ x < size.x, ∀ y < size.y,
      (((self.renderFrame target rsqrtf cvt frames accumID).tiles
        (tileIDof target.tileSize size ⟨x, y⟩)).toTileData.at
        (tilePixel target.tileSize ⟨x, y⟩)).final.z = (frames 0).depth target x y := by
    intro x inRow y inColumn
    have accumulated := processTiles_at target rsqrtf self sized frames accumID inRow inColumn
    refine (congrArg (fun pixel => pixel.final.z) accumulated).trans ?_
    rw [channelled]
    rcases Nat.eq_zero_or_pos accumID with rfl | later
    · cases aux : channels.hasAux <;>
        simp [OwnedPixel.accumulate, OwnedPixel.first, Pixel.withAux, aux, Frame.depth]
    · have notFirst : ¬ accumID < 1 := Nat.not_lt.mpr later
      rw [← (before later).owned x inRow y inColumn]
      cases aux : channels.hasAux <;>
        simp [OwnedPixel.accumulate, OwnedPixel.later, Pixel.mean, Pixel.withAux, aux, accumulates,
          notFirst]
  refine ⟨channelled, sized, owned, written, sent, ?_⟩
  intro x inRow y inColumn
  exact (depths x inRow y inColumn).trans (owned x inRow y inColumn)

/-- After any number of frames the master holds the depths of the first one. -/
theorem firstDepths_frames (created : DistributedFrameBuffer C K D)
    (depth : created.channels.hasDepthBuffer = true)
    (accumulates : created.channels.hasAccumBuffer = true)
    (format : created.colorBufferFormat ≠ .none)
    (frames : Nat → Frame (totalTiles target.tileSize created.size) K D) (last : Nat) :
    FirstDepths target created.channels frames
      (created.renderFrames target rsqrtf cvt frames (last + 1)) := by
  induction last with
  | zero =>
    refine firstDepths_frame target rsqrtf cvt depth accumulates frames created rfl rfl ?_ 0
      (fun none => absurd none (Nat.lt_irrefl 0))
    rw [created.mappable]
    exact decide_eq_true format
  | succ last inductionHypothesis =>
    have split : created.renderFrames target rsqrtf cvt frames (last + 1 + 1) =
        (created.renderFrames target rsqrtf cvt frames (last + 1)).renderFrame target rsqrtf cvt
          frames (last + 1) := by
      simp only [DistributedFrameBuffer.renderFrames, List.range_succ, List.foldl_append,
        List.foldl_cons, List.foldl_nil]
    rw [split]
    obtain ⟨master, sent, _⟩ := inductionHypothesis.mapped
    exact firstDepths_frame target rsqrtf cvt depth accumulates frames _
      inductionHypothesis.channelled inductionHypothesis.sized (by rw [sent]; rfl) (last + 1)
      (fun _ => inductionHypothesis)

omit [Field K] [LinearOrder K] in
theorem mapDepth_of_mapped {self : DistributedFrameBuffer C K D}
    {master : MasterFrame C (WithTop K) D (Vec3 K)} (sent : self.localFBonMaster = some master)
    (depth : self.channels.hasDepthBuffer = true) : self.mapDepth = some master.depthBuffer := by
  unfold DistributedFrameBuffer.mapDepth
  rw [sent, Option.bind_some, if_pos depth]

/-- Without a color format the master never has a copy to map. -/
theorem mapDepth_none (created : DistributedFrameBuffer C K D)
    (format : created.colorBufferFormat = .none) {tiles : Nat} (frames : Nat → Frame tiles K D)
    (count : Nat) : (created.renderFrames target rsqrtf cvt frames count).mapDepth = none := by
  have unmapped : (created.renderFrames target rsqrtf cvt frames count).localFBonMaster = none := by
    induction count with
    | zero =>
      have mappable := created.mappable
      rw [format] at mappable
      have empty : created.localFBonMaster = none := by simpa using mappable
      exact empty
    | succ count inductionHypothesis =>
      simp only [DistributedFrameBuffer.renderFrames, List.range_succ, List.foldl_append,
        List.foldl_cons, List.foldl_nil] at inductionHypothesis ⊢
      simp only [DistributedFrameBuffer.renderFrame, inductionHypothesis, Option.map_none]
  unfold DistributedFrameBuffer.mapDepth
  rw [unmapped]
  rfl

theorem localFrames_map (created : LocalFrameBuffer C K D) {size : Vec2i}
    (sized : created.size = size) (format : created.colorBufferFormat ≠ .none)
    (depth : created.channels.hasDepthBuffer = true)
    (frames : Nat → Frame (totalTiles target.tileSize size) K D) (last : Nat) :
    ∃ depths, (created.clearAccum.renderFrames target rsqrtf cvt size frames (last + 1)).mapDepth =
        some depths ∧
      ∀ x < size.x, ∀ y < size.y, depths (x + y * size.x) = (frames last).depth target x y := by
  obtain ⟨kept, _, _⟩ := localFrames_keeps target rsqrtf cvt size frames created.clearAccum
    (last + 1)
  refine ⟨_, if_pos ((congrArg Channels.hasDepthBuffer kept).trans depth), ?_⟩
  intro x inRow y inColumn
  exact localFrames_depth target rsqrtf cvt created.clearAccum sized frames last format depth inRow
    inColumn

theorem distributedFrames_map (created : DistributedFrameBuffer C K D) (inf : D)
    (format : created.colorBufferFormat ≠ .none) (depth : created.channels.hasDepthBuffer = true)
    (accumulates : created.channels.hasAccumBuffer = true)
    (frames : Nat → Frame (totalTiles target.tileSize created.size) K D) (last : Nat) :
    ∃ mapped, ((created.clearAccum inf).renderFrames target rsqrtf cvt frames (last + 1)).mapDepth =
        some mapped ∧
      ∀ x < created.size.x, ∀ y < created.size.y,
        mapped (x + y * created.size.x) = (frames 0).depth target x y := by
  obtain ⟨channelled, _, _, master, sent, firsts⟩ := firstDepths_frames target rsqrtf cvt
    (created.clearAccum inf) depth accumulates format frames last
  exact ⟨master.depthBuffer, mapDepth_of_mapped sent
    ((congrArg Channels.hasDepthBuffer channelled).trans depth), firsts⟩

/-- The depths that an application maps from the two frame buffers are the same exactly
if there is a color format and every pixel has the same depth in the last frame as in
the first one since the clear. -/
theorem mapDepth_agrees_iff (createdLocal : LocalFrameBuffer C K D)
    (created : DistributedFrameBuffer C K D) (inf : D)
    (sameSize : createdLocal.size = created.size)
    (sameChannels : createdLocal.channels = created.channels)
    (sameFormat : createdLocal.colorBufferFormat = created.colorBufferFormat)
    (depth : created.channels.hasDepthBuffer = true)
    (accumulates : created.channels.hasAccumBuffer = true)
    (frames : Nat → Frame (totalTiles target.tileSize created.size) K D) (last : Nat) :
    let rendered := createdLocal.clearAccum.renderFrames target rsqrtf cvt created.size frames
      (last + 1)
    let distributed := (created.clearAccum inf).renderFrames target rsqrtf cvt frames (last + 1)
    (∃ depths mapped, rendered.mapDepth = some depths ∧ distributed.mapDepth = some mapped ∧
      ∀ x < created.size.x, ∀ y < created.size.y,
        depths (x + y * created.size.x) = mapped (x + y * created.size.x)) ↔
      created.colorBufferFormat ≠ .none ∧ ∀ x < created.size.x, ∀ y < created.size.y,
        (frames last).depth target x y = (frames 0).depth target x y := by
  intro rendered distributed
  by_cases format : created.colorBufferFormat = .none
  · have unmapped : distributed.mapDepth = none := mapDepth_none target rsqrtf cvt
      (created.clearAccum inf) format frames (last + 1)
    simp [unmapped, format]
  · obtain ⟨localDepths, mappedLocally, lasts⟩ := localFrames_map target rsqrtf cvt createdLocal
      sameSize (fun none => format (sameFormat.symm.trans none))
      ((congrArg Channels.hasDepthBuffer sameChannels).trans depth) frames last
    obtain ⟨masterDepths, mappedRemotely, firsts⟩ := distributedFrames_map target rsqrtf cvt created
      inf format depth accumulates frames last
    constructor
    · rintro ⟨depths, mapped, isLocal, isMapped, same⟩
      refine ⟨format, ?_⟩
      intro x inRow y inColumn
      have here := same x inRow y inColumn
      rw [← Option.some.inj (mappedLocally.symm.trans isLocal),
        ← Option.some.inj (mappedRemotely.symm.trans isMapped)] at here
      exact (lasts x inRow y inColumn).symm.trans (here.trans (firsts x inRow y inColumn))
    · rintro ⟨_, same⟩
      refine ⟨localDepths, masterDepths, mappedLocally, mappedRemotely, ?_⟩
      intro x inRow y inColumn
      exact (lasts x inRow y inColumn).trans
        ((same x inRow y inColumn).trans (firsts x inRow y inColumn).symm)

/-- The distributed counterpart of the frame buffer of six by five pixels. -/
def distributedFrameBuffer : DistributedFrameBuffer (Vec4 ℚ) ℚ ℚ :=
  { size := sampledFrameBuffer.size
    colorBufferFormat := .rgba32f
    channels := sampledFrameBuffer.channels
    tiles := fun _ => createdTile
    localFBonMaster := some { toBuffers := sampledFrameBuffer.toBuffers, tileErrorRegion := fun _ => ⊤ }
    mappable := by decide }

/-- Frames whose depths everywhere are the given one. -/
def flatFrames (tiles : Nat) (depths : Nat → ℚ) (accumID : Nat) : Frame tiles ℚ ℚ :=
  { samples := fun _ _ => ⟨0, depths accumID, 0, 0⟩
    order := List.range tiles
    everyTile := List.Perm.refl _
    gathered := List.range tiles
    everyMessage := List.Perm.refl _ }

/-- Three frames of one depth, which are mapped alike. -/
theorem mapDepth_agrees_iff_still :
    let target : Target := ⟨4, 2, by decide, by decide⟩
    let size := distributedFrameBuffer.size
    let frames := flatFrames (totalTiles target.tileSize size) fun _ => 7
    ∃ depths mapped,
      (sampledFrameBuffer.clearAccum.renderFrames target id id size frames (2 + 1)).mapDepth =
        some depths ∧
      ((distributedFrameBuffer.clearAccum 0).renderFrames target id id frames (2 + 1)).mapDepth =
        some mapped ∧
      ∀ x < size.x, ∀ y < size.y, depths (x + y * size.x) = mapped (x + y * size.x) := by
  intro target size frames
  exact (mapDepth_agrees_iff target id id sampledFrameBuffer distributedFrameBuffer 0 rfl rfl rfl rfl
    rfl frames 2).mpr ⟨by decide, fun _ _ _ _ => rfl⟩

/-- Two frames of different depths, of which the second is mapped locally and the first
one from the master. -/
theorem mapDepth_differs :
    let target : Target := ⟨4, 2, by decide, by decide⟩
    let size := distributedFrameBuffer.size
    let frames := flatFrames (totalTiles target.tileSize size) fun id => id
    ¬ ∃ depths mapped,
      (sampledFrameBuffer.clearAccum.renderFrames target id id size frames (1 + 1)).mapDepth =
        some depths ∧
      ((distributedFrameBuffer.clearAccum 0).renderFrames target id id frames (1 + 1)).mapDepth =
        some mapped ∧
      ∀ x < size.x, ∀ y < size.y, depths (x + y * size.x) = mapped (x + y * size.x) := by
  intro target size frames
  rintro ⟨depths, mapped, isLocal, isMapped, same⟩
  obtain ⟨localDepths, mappedLocally, lasts⟩ := localFrames_map target id id sampledFrameBuffer rfl
    (by decide) rfl frames 1
  obtain ⟨masterDepths, mappedRemotely, firsts⟩ := distributedFrames_map target id id
    distributedFrameBuffer 0 (by decide) rfl rfl frames 1
  have inRow : 0 < size.x := by decide
  have inColumn : 0 < size.y := by decide
  have here := same 0 inRow 0 inColumn
  rw [← Option.some.inj (mappedLocally.symm.trans isLocal),
    ← Option.some.inj (mappedRemotely.symm.trans isMapped)] at here
  have last : (frames 1).depth target 0 0 = (1 : ℚ) := Nat.cast_one
  have first : (frames 0).depth target 0 0 = (0 : ℚ) := Nat.cast_zero
  have equal := (lasts 0 inRow 0 inColumn).symm.trans (here.trans (firsts 0 inRow 0 inColumn))
  exact one_ne_zero (last.symm.trans (equal.trans first))

end Ospray
