import Mathlib
import Ospray.Library.Loops
import Ospray.Fb.TileKernels

/-!
# The local frame buffer

`LocalFrameBuffer` keeps its buffers row by row across the whole frame. The
kernels of `LocalFB.ispc` walk over the rows of a tile's region and, within a
row, over chunks of consecutive columns, with the lanes beyond the region's last
column switched off. They read the tile with the index a tile has and the buffers
with the index a frame has.

What the unmasked writes leave in the columns of the tile beyond its region is
not modelled; nothing reads it.
-/

namespace Ospray

open Library.Loops

/-- The buffers of a frame buffer that an application may map. -/
structure Buffers (C D V : Type) where
  colorBuffer : Nat → C
  depthBuffer : Nat → D
  normalBuffer : Nat → V
  albedoBuffer : Nat → V

/-- `LocalFrameBuffer`. A buffer whose channel is missing is never accessed. -/
structure LocalFrameBuffer (C K D : Type) extends Buffers C D (Vec3 K) where
  size : Vec2i
  colorBufferFormat : ColorBufferFormat
  channels : Channels
  accumBuffer : Nat → Vec4 K
  varianceBuffer : Nat → Vec4 K
  tileAccumID : Nat → Nat
  tileErrorRegion : Nat → WithTop K

/-- The iterations of the kernels' loops, as row, chunk within the row, and lane.
Lanes beyond the last column of the region are masked. -/
def localLoop (target : Target) (size : Vec2i) : List (Nat × Nat × Nat) :=
  (List.range size.y).flatMap fun row =>
    ((chunkLanes (divRoundUp size.x target.programCount) target.programCount).filter
      fun step => step.1 * target.programCount + step.2 < size.x).map fun step => (row, step)

/-- The pixel of the tile that a lane addresses through `chunkID`. -/
def tileIndex (target : Target) (step : Nat × Nat × Nat) : Nat :=
  (step.1 * (target.tileSize / target.programCount) + step.2.1) * target.programCount + step.2.2

/-- The pixel of the frame that a lane addresses through `iix`. -/
def frameIndex (target : Target) (fbSize : Vec2i) (region : Region) (step : Nat × Nat × Nat) :
    Nat :=
  (region.lower.y + step.1) * fbSize.x +
    (region.lower.x + (step.2.1 * target.programCount + step.2.2))

/-- Index of the tile a region belongs to. -/
def regionTile (target : Target) (fbSize : Vec2i) (region : Region) : Nat :=
  region.lower.y / target.tileSize * divRoundUp fbSize.x target.tileSize +
    region.lower.x / target.tileSize

section Kernels

variable {C K D : Type} [Field K] [LinearOrder K]
variable (target : Target) (rsqrtf : K → K)

/-- One pixel of `LocalFrameBuffer_accumulateTile`. The buffers start over with the
sample whose ID is zero, the variance with the one whose ID is one. -/
def localSample (accumID : Nat) (accumulateVariance : Bool) (buffers : Vec4 K × Vec4 K)
    (pixel : Pixel K D) : (Vec4 K × Vec4 K) × Pixel K D × K :=
  let acc := (if 0 < accumID then buffers.1 else 0) + pixel.color
  let mean := ((accumID : K) + 1)⁻¹ • acc
  let vari := (if 1 < accumID then buffers.2 else 0) + pixel.color
  ((acc, if accumulateVariance then vari else buffers.2), { pixel with color := mean },
    if accumulateVariance then
      pixelError rsqrtf mean ((((accumID / 2 : Nat) : K) + 1)⁻¹ • vari)
    else 0)

/-- `LocalFrameBuffer_accumulateTile`: accumulate the tile into both the buffers
and itself, and return the error. -/
def LocalFrameBuffer.accumulateTile (self : LocalFrameBuffer C K D) (tile : Tile K D) :
    LocalFrameBuffer C K D × Tile K D × WithTop K :=
  if !self.channels.hasAccumBuffer then (self, tile, ⊤)
  else
    let size := tile.region.size
    let accumulateVariance := self.channels.hasVarianceBuffer && tile.accumID % 2 == 1
    let before : Memory Nat Nat (Vec4 K × Vec4 K) (Pixel K D) K :=
      ⟨fun i => (self.accumBuffer i, self.varianceBuffer i), tile.pixel, 0⟩
    let after := sweep (frameIndex target self.size tile.region) (tileIndex target)
      (fun _ => localSample rsqrtf tile.accumID accumulateVariance) (localLoop target size) before
    let tileId := regionTile target self.size tile.region
    ({ self with
        accumBuffer := fun i => (after.first i).1
        varianceBuffer := fun i => (after.first i).2
        tileAccumID := Function.update self.tileAccumID tileId (self.tileAccumID tileId + 1) },
      { tile with pixel := after.second },
      if accumulateVariance then
        ((after.total * rsqrtf ((size.x : K) * (size.y : K)) : K) : WithTop K)
      else ⊤)

omit [LinearOrder K] in
/-- `LocalFrameBuffer_accumulateAuxTile`, for the normal or the albedo: the buffer
keeps the mean of the samples instead of their sum. -/
def accumulateAux (fbSize : Vec2i) (tile : Tile K D) (component : Pixel K D → Vec3 K)
    (aux : Nat → Vec3 K) : Nat → Vec3 K :=
  let body := fun (acc : Vec3 K) (pixel : Pixel K D) =>
    let acc := if 0 < tile.accumID then acc else 0
    (((tile.accumID : K) + 1)⁻¹ • ((tile.accumID : K) • acc + component pixel), pixel, (0 : K))
  (sweep (frameIndex target fbSize tile.region) (tileIndex target) (fun _ => body)
    (localLoop target tile.region.size) ⟨aux, tile.pixel, 0⟩).first

omit [LinearOrder K] in
/-- `LocalFrameBuffer_writeTile`, for the format whose conversion is `cvt`: the color
of each pixel and, if there is a depth channel, its depth. -/
def LocalFrameBuffer.writeTile (self : LocalFrameBuffer C K D) (cvt : Vec4 K → C)
    (tile : Tile K D) : LocalFrameBuffer C K D :=
  let body := fun (buffers : C × D) (pixel : Pixel K D) =>
    ((cvt pixel.color, if self.channels.hasDepthBuffer then pixel.z else buffers.2), pixel, (0 : K))
  let after := sweep (frameIndex target self.size tile.region) (tileIndex target) (fun _ => body)
    (localLoop target tile.region.size)
    ⟨fun i => (self.colorBuffer i, self.depthBuffer i), tile.pixel, 0⟩
  { self with
    colorBuffer := fun i => (after.first i).1
    depthBuffer := fun i => (after.first i).2 }

omit [Field K] in
/-- `tileErrorRegion.update`, which `setTile` calls for every other sample, and which
does nothing without a variance channel. -/
def LocalFrameBuffer.updateError (self : LocalFrameBuffer C K D) (tile : Tile K D)
    (err : WithTop K) : LocalFrameBuffer C K D :=
  { self with
    tileErrorRegion :=
      if self.channels.hasAccumBuffer && tile.accumID % 2 == 1 &&
          self.channels.hasVarianceBuffer then
        Function.update self.tileErrorRegion (regionTile target self.size tile.region) err
      else self.tileErrorRegion }

omit [LinearOrder K] in
/-- The auxiliary kernels that `setTile` calls for the channels there are. -/
def LocalFrameBuffer.accumulateAuxTile (self : LocalFrameBuffer C K D) (tile : Tile K D) :
    LocalFrameBuffer C K D :=
  { self with
    albedoBuffer :=
      if self.channels.hasAlbedoBuffer then
        accumulateAux target self.size tile Pixel.albedo self.albedoBuffer
      else self.albedoBuffer
    normalBuffer :=
      if self.channels.hasNormalBuffer then
        accumulateAux target self.size tile Pixel.normal self.normalBuffer
      else self.normalBuffer }

omit [LinearOrder K] in
/-- The last step of `setTile`: without a color buffer nothing is written. -/
def LocalFrameBuffer.writeBuffers (self : LocalFrameBuffer C K D) (cvt : Vec4 K → C)
    (tile : Tile K D) : LocalFrameBuffer C K D :=
  if self.colorBufferFormat = .none then self else self.writeTile target cvt tile

/-- `LocalFrameBuffer::setTile`, without pixel operations. The tile is returned
with its normalized colors. -/
def LocalFrameBuffer.setTile (self : LocalFrameBuffer C K D) (cvt : Vec4 K → C)
    (tile : Tile K D) : LocalFrameBuffer C K D × Tile K D :=
  let (accumulated, normalized, err) := self.accumulateTile target rsqrtf tile
  let updated := accumulated.updateError target normalized err
  ((updated.accumulateAuxTile target normalized).writeBuffers target cvt normalized, normalized)

omit [Field K] in
/-- `LocalFrameBuffer::clear(OSP_FB_ACCUM)`: only the counters and the errors. -/
def LocalFrameBuffer.clearAccum (self : LocalFrameBuffer C K D) : LocalFrameBuffer C K D :=
  { self with
    tileAccumID := fun _ => 0
    tileErrorRegion := if self.channels.hasVarianceBuffer then fun _ => ⊤ else self.tileErrorRegion }

omit [Field K] in
/-- `tileError`; without a variance channel there is no error region. -/
def LocalFrameBuffer.tileError (self : LocalFrameBuffer C K D) (tile : Nat) : WithTop K :=
  if self.channels.hasVarianceBuffer then self.tileErrorRegion tile else ⊤

end Kernels

section Loops

variable (target : Target)

/-- The loop visits the pixels of the region row by row. -/
theorem localLoop_pixels (size : Vec2i) :
    (localLoop target size).map
        (fun step => (step.1, step.2.1 * target.programCount + step.2.2)) =
      chunkLanes size.y size.x := by
  have columns : ((chunkLanes (divRoundUp size.x target.programCount) target.programCount).filter
      (fun step => step.1 * target.programCount + step.2 < size.x)).map
        (fun step => step.1 * target.programCount + step.2) = List.range size.x := by
    have enough := le_divRoundUp_mul size.x target.programCount_positive
    obtain ⟨rest, whole⟩ := Nat.exists_eq_add_of_le enough
    have inside : (List.range size.x).filter (fun i => decide (i < size.x)) = List.range size.x :=
      List.filter_eq_self.mpr (by simp)
    have outside : ((List.range rest).map (size.x + ·)).filter (fun i => decide (i < size.x)) =
        [] :=
      List.filter_eq_nil_iff.mpr (by simp)
    have filtered := List.filter_map
      (f := fun step : Nat × Nat => step.1 * target.programCount + step.2)
      (p := fun i => decide (i < size.x))
      (l := chunkLanes (divRoundUp size.x target.programCount) target.programCount)
    rw [chunkLanes_index, whole, List.range_add, List.filter_append, inside, outside,
      List.append_nil] at filtered
    exact filtered.symm
  unfold localLoop
  rw [List.map_flatMap]
  conv_rhs => unfold chunkLanes
  congr 1
  funext row
  rw [← columns, List.map_map, List.map_map]
  rfl

theorem tileIndex_eq (step : Nat × Nat × Nat) :
    tileIndex target step =
      (0 + step.1) * target.tileSize + (0 + (step.2.1 * target.programCount + step.2.2)) := by
  have chunks := target.row_chunks step.1
  unfold tileIndex
  rw [Nat.add_mul, chunks, Nat.zero_add, Nat.zero_add, Nat.add_assoc]

theorem localLoop_tile_nodup (size : Vec2i) (narrow : size.x ≤ target.tileSize) :
    ((localLoop target size).map (tileIndex target)).Nodup := by
  have cells : (localLoop target size).map (tileIndex target) =
      (chunkLanes size.y size.x).map
        (fun step => (0 + step.1) * target.tileSize + (0 + step.2)) := by
    rw [← localLoop_pixels target size, List.map_map]
    exact List.map_congr_left fun step _ => tileIndex_eq target step
  rw [cells]
  exact chunkLanes_cells_nodup fun col inside => by omega

theorem localLoop_frame_nodup (fbSize : Vec2i) (region : Region)
    (fits : ∀ col < region.size.x, region.lower.x + col < fbSize.x) :
    ((localLoop target region.size).map (frameIndex target fbSize region)).Nodup := by
  have cells : (localLoop target region.size).map (frameIndex target fbSize region) =
      (chunkLanes region.size.y region.size.x).map
        (fun step => (region.lower.y + step.1) * fbSize.x + (region.lower.x + step.2)) := by
    rw [← localLoop_pixels target region.size, List.map_map]
    rfl
  rw [cells]
  exact chunkLanes_cells_nodup fits

variable {α β K : Type} [Field K]

/-- A local kernel, at one pixel of the region: the cells of the frame and of the
tile are rewritten from their initial content. -/
theorem local_pixel (fbSize : Vec2i) (region : Region)
    (narrow : region.size.x ≤ target.tileSize)
    (fits : ∀ col < region.size.x, region.lower.x + col < fbSize.x)
    (body : α → β → α × β × K) (memory : Memory Nat Nat α β K) {row col : Nat}
    (inRows : row < region.size.y) (inColumns : col < region.size.x) :
    let i := (region.lower.y + row) * fbSize.x + (region.lower.x + col)
    let j := row * target.tileSize + col
    let after := sweep (frameIndex target fbSize region) (tileIndex target) (fun _ => body)
      (localLoop target region.size) memory
    after.first i = (body (memory.first i) (memory.second j)).1 ∧
      after.second j = (body (memory.first i) (memory.second j)).2.1 := by
  intro i j after
  have visited : (row, col) ∈ (localLoop target region.size).map
      (fun step => (step.1, step.2.1 * target.programCount + step.2.2)) := by
    rw [localLoop_pixels, mem_chunkLanes]
    exact ⟨inRows, inColumns⟩
  obtain ⟨step, member, named⟩ := List.mem_map.mp visited
  obtain ⟨rfl, rfl⟩ := Prod.mk.inj named
  have result := sweep_visited (frameIndex target fbSize region) (tileIndex target)
    (fun _ => body) (localLoop target region.size) memory
    (localLoop_frame_nodup target fbSize region fits)
    (localLoop_tile_nodup target region.size narrow) step member
  simp only [tileIndex_eq, Nat.zero_add] at result
  exact result

/-- A pixel of the frame outside the region is left alone. -/
theorem local_other (fbSize : Vec2i) (region : Region)
    (fits : ∀ col < region.size.x, region.lower.x + col < fbSize.x)
    (body : α → β → α × β × K) (memory : Memory Nat Nat α β K) {x y : Nat} (inRow : x < fbSize.x)
    (outside : ¬ region.Contains ⟨x, y⟩) :
    (sweep (frameIndex target fbSize region) (tileIndex target) (fun _ => body)
      (localLoop target region.size) memory).first (y * fbSize.x + x) =
      memory.first (y * fbSize.x + x) := by
  refine sweep_first_other _ _ _ _ _ _ ?_
  intro named
  obtain ⟨step, visited, same⟩ := List.mem_map.mp named
  have inside : (step.1, step.2.1 * target.programCount + step.2.2) ∈
      chunkLanes region.size.y region.size.x := by
    rw [← localLoop_pixels target]
    exact List.mem_map.mpr ⟨step, visited, rfl⟩
  obtain ⟨inRows, inColumns⟩ := (mem_chunkLanes _ _ _).mp inside
  obtain ⟨row, column⟩ := stride_injective (fits _ inColumns) inRow same
  simp only [Region.size] at inRows inColumns
  exact outside ⟨⟨by simp only; omega, by simp only; omega⟩, by simp only; omega,
    by simp only; omega⟩

/-- The total of a local kernel adds up the pixels of the region. -/
theorem local_total (fbSize : Vec2i) (region : Region)
    (narrow : region.size.x ≤ target.tileSize)
    (fits : ∀ col < region.size.x, region.lower.x + col < fbSize.x)
    (body : α → β → α × β × K) (memory : Memory Nat Nat α β K) :
    (sweep (frameIndex target fbSize region) (tileIndex target) (fun _ => body)
      (localLoop target region.size) memory).total =
      memory.total + ((chunkLanes region.size.y region.size.x).map (fun step =>
        (body
          (memory.first ((region.lower.y + step.1) * fbSize.x + (region.lower.x + step.2)))
          (memory.second (step.1 * target.tileSize + step.2))).2.2)).sum := by
  rw [sweep_total (frameIndex target fbSize region) (tileIndex target) (fun _ => body) _ memory
    (localLoop_frame_nodup target fbSize region fits)
    (localLoop_tile_nodup target region.size narrow), ← localLoop_pixels, List.map_map]
  congr 2
  refine List.map_congr_left ?_
  intro step _
  simp only [tileIndex_eq, Nat.zero_add]
  rfl

end Loops

end Ospray
