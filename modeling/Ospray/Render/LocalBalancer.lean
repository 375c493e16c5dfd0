import Mathlib
import Ospray.Fb.Convergence
import Ospray.Fb.MappedDepth

/-!
# The local load balancer

`LocalTiledLoadBalancer::renderFrame` takes the number of a sample from the counter of
the tile, which only `setTile` raises, and skips the tiles whose error is not above the
threshold. A frame that is cancelled leaves out some of its tasks. Whatever the frames
leave out, the samples of a tile stay numbered in turn, and the buffers hold sums and
means of exactly these.

Tasks of different tiles write different pixels. They are performed one after another
here, in any order.
-/

namespace Ospray

open Library.Loops

variable {C K D : Type} [Field K] [LinearOrder K]

/-- One frame: the threshold, what the renderer makes of each tile for a number of the
sample, and the tasks that are not cancelled, in the order in which they happen to run. -/
structure LocalFrame (tiles : Nat) (K D : Type) where
  errorThreshold : K
  samples : Nat → Nat → Nat → Pixel K D
  tasks : List Nat
  distinct : tasks.Nodup
  inTiles : ∀ taskIndex ∈ tasks, taskIndex < tiles

/-- The frame buffer over several frames, with the regions of its errors. The tiles set
since the clear are remembered. -/
structure LocalRun (C K D : Type) where
  fb : LocalFrameBuffer C K D
  errorRegion : List Region
  rendered : Nat → List (Tile K D)

/-- What an application does with a frame buffer between mapping it. -/
inductive LocalCall (tiles : Nat) (K D : Type) where
  | clear
  | renderFrame (frame : LocalFrame tiles K D)

section Calls

variable (target : Target) (rsqrtf nextafter : K → K) (cvt : Vec4 K → C)
variable {tiles : Nat}

omit [Field K] [LinearOrder K] in
/-- `tileErrorRegion`, which has no tiles without a variance channel. -/
def LocalRun.tileErrors (self : LocalRun C K D) : TileError K :=
  { numTiles :=
      if self.fb.channels.hasVarianceBuffer then numTiles target.tileSize self.fb.size else ⟨0, 0⟩
    tileErrorBuffer := self.fb.tileErrorRegion
    errorRegion := self.errorRegion }

omit [Field K] in
/-- The test that skips a tile. -/
def LocalRun.skips (self : LocalRun C K D) (errorThreshold : K) (taskIndex : Nat) : Prop :=
  (self.tileErrors target).get (tileCoords target.tileSize self.fb.size taskIndex) ≤
    ((errorThreshold : K) : WithTop K)

instance LocalRun.decidableSkips (self : LocalRun C K D) (errorThreshold : K) (taskIndex : Nat) :
    Decidable (self.skips target errorThreshold taskIndex) :=
  inferInstanceAs (Decidable (_ ≤ _))

/-- The iteration of `renderFrame` for one tile. -/
def LocalRun.task (frame : LocalFrame tiles K D) (self : LocalRun C K D) (taskIndex : Nat) :
    LocalRun C K D :=
  let tileID := tileCoords target.tileSize self.fb.size taskIndex
  let accumID := self.fb.tileAccumID
    (tileID.y * (numTiles target.tileSize self.fb.size).x + tileID.x)
  if self.skips target frame.errorThreshold taskIndex then self
  else
    let tile := instanceTile target tileID self.fb.size (frame.samples taskIndex) accumID
    { self with
      fb := (self.fb.setTile target rsqrtf cvt tile).1
      rendered := Function.update self.rendered taskIndex (self.rendered taskIndex ++ [tile]) }

/-- `LocalFrameBuffer::endFrame`. -/
def LocalRun.endFrame (self : LocalRun C K D) (errorThreshold : K) : WithTop K × LocalRun C K D :=
  let (err, errors) := (self.tileErrors target).refine nextafter errorThreshold
  (err, { self with
    fb := { self.fb with tileErrorRegion := errors.tileErrorBuffer }
    errorRegion := errors.errorRegion })

/-- `LocalTiledLoadBalancer::renderFrame`, with the error it returns. -/
def LocalRun.renderFrame (self : LocalRun C K D) (frame : LocalFrame tiles K D) :
    WithTop K × LocalRun C K D :=
  (frame.tasks.foldl (LocalRun.task target rsqrtf cvt frame) self).endFrame target nextafter
    frame.errorThreshold

omit [Field K] in
/-- `clear(OSP_FB_ACCUM)`. -/
def LocalRun.clear (self : LocalRun C K D) : LocalRun C K D :=
  { fb := self.fb.clearAccum
    errorRegion :=
      if self.fb.channels.hasVarianceBuffer then (self.tileErrors target).clear.errorRegion
      else self.errorRegion
    rendered := fun _ => [] }

omit [Field K] [LinearOrder K] in
/-- The constructor, on buffers with any content. -/
def LocalRun.create (fb : LocalFrameBuffer C K D) : LocalRun C K D :=
  { fb := { fb with tileAccumID := fun _ => 0, tileErrorRegion := fun _ => ⊤ }
    errorRegion := (TileError.make (K := K)
      (if fb.channels.hasVarianceBuffer then numTiles target.tileSize fb.size
        else ⟨0, 0⟩)).errorRegion
    rendered := fun _ => [] }

/-- A call of the application. -/
def LocalRun.perform (self : LocalRun C K D) : LocalCall tiles K D → LocalRun C K D
  | .clear => self.clear target
  | .renderFrame frame => (self.renderFrame target rsqrtf nextafter cvt frame).2

end Calls

section Pixels

variable (target : Target) (rsqrtf : K → K) (cvt : Vec4 K → C)

/-- Accumulating a tile leaves the color buffer alone, and counts the sample if there is
an accumulation buffer. -/
theorem accumulateTile_counts (self : LocalFrameBuffer C K D) (tile : Tile K D) :
    let after := (self.accumulateTile target rsqrtf tile).1
    after.colorBuffer = self.colorBuffer ∧
      (self.channels.hasAccumBuffer = true → after.tileAccumID =
        Function.update self.tileAccumID (regionTile target self.size tile.region)
          (self.tileAccumID (regionTile target self.size tile.region) + 1)) := by
  unfold LocalFrameBuffer.accumulateTile
  cases accumulates : self.channels.hasAccumBuffer with
  | false => exact ⟨rfl, fun impossible => absurd impossible Bool.false_ne_true⟩
  | true => exact ⟨rfl, fun _ => rfl⟩

omit [LinearOrder K] in
/-- What writing the buffers leaves in the color buffer. -/
theorem writeBuffers_color (self : LocalFrameBuffer C K D) (tile : Tile K D) (tileID : Nat)
    (placed : tile.region =
      tileRegion target.tileSize (tileCoords target.tileSize self.size tileID) self.size)
    {x y : Nat} (inRow : x < self.size.x) (inColumn : y < self.size.y) :
    (self.writeBuffers target cvt tile).colorBuffer (x + y * self.size.x) =
      if tileID = tileIDof target.tileSize self.size ⟨x, y⟩ ∧ self.colorBufferFormat ≠ .none then
        cvt (tile.pixel (tilePixel target.tileSize ⟨x, y⟩)).color
      else self.colorBuffer (x + y * self.size.x) := by
  have narrow : tile.region.size.x ≤ target.tileSize := by
    rw [placed]
    exact tileRegion_width _ _ _
  have fits : ∀ col < tile.region.size.x, tile.region.lower.x + col < self.size.x := by
    rw [placed]
    exact fun col inside => tileRegion_column _ _ _ inside
  have contains := tileRegion_contains_iff target.tileSizePositive ⟨x, y⟩ inRow inColumn tileID
  unfold LocalFrameBuffer.writeBuffers
  split
  · next none => rw [if_neg (fun written => written.2 none)]
  · next format =>
    rw [Nat.add_comm x]
    by_cases own : tileID = tileIDof target.tileSize self.size ⟨x, y⟩
    · obtain ⟨⟨left, lower⟩, inColumns, inRows⟩ :=
        tileRegion_offset target.tileSizePositive ⟨x, y⟩ inRow inColumn
      rw [← own, ← placed] at left lower inColumns inRows
      have here := (local_pixel target self.size tile.region narrow fits
        (fun (buffers : C × D) (pixel : Pixel K D) =>
          ((cvt pixel.color, if self.channels.hasDepthBuffer then pixel.z else buffers.2), pixel,
            (0 : K)))
        ⟨fun i => (self.colorBuffer i, self.depthBuffer i), tile.pixel, (0 : K)⟩ inRows
        inColumns).1
      rw [left, lower] at here
      refine (congrArg Prod.fst here).trans ?_
      simp [own, format, tilePixel, Nat.add_comm]
    · have outside : ¬ tile.region.Contains ⟨x, y⟩ := by
        rw [placed]
        exact fun inside => own (contains.mp inside)
      rw [if_neg (fun written => own written.1)]
      exact congrArg Prod.fst (local_other target self.size tile.region fits _
        ⟨fun i => (self.colorBuffer i, self.depthBuffer i), tile.pixel, (0 : K)⟩ inRow outside)

/-- One call of `setTile`: the pixels of the tile take the colors it returns. -/
theorem setTile_color (self : LocalFrameBuffer C K D) (tile : Tile K D) (tileID : Nat)
    (placed : tile.region =
      tileRegion target.tileSize (tileCoords target.tileSize self.size tileID) self.size)
    {x y : Nat} (inRow : x < self.size.x) (inColumn : y < self.size.y) :
    (self.setTile target rsqrtf cvt tile).1.colorBuffer (x + y * self.size.x) =
      if tileID = tileIDof target.tileSize self.size ⟨x, y⟩ ∧ self.colorBufferFormat ≠ .none then
        cvt ((self.setTile target rsqrtf cvt tile).2.pixel
          (tilePixel target.tileSize ⟨x, y⟩)).color
      else self.colorBuffer (x + y * self.size.x) := by
  obtain ⟨⟨channels, size, format⟩, _, _, _, region, _⟩ :=
    accumulateTile_keeps target rsqrtf self tile
  obtain ⟨colors, _⟩ := accumulateTile_counts target rsqrtf self tile
  simp only [LocalFrameBuffer.setTile]
  generalize self.accumulateTile target rsqrtf tile = result
    at channels size format region colors ⊢
  obtain ⟨accumulated, normalized, err⟩ := result
  simp only at channels size format region colors ⊢
  have written := writeBuffers_color target cvt
    ((accumulated.updateError target normalized err).accumulateAuxTile target normalized) normalized
    tileID (region.trans (placed.trans (congrArg (fun s => tileRegion target.tileSize
      (tileCoords target.tileSize s tileID) s) size.symm))) (x := x) (y := y)
    (inRow.trans_eq (congrArg Vec2i.x size.symm)) (inColumn.trans_eq (congrArg Vec2i.y size.symm))
  simp only [LocalFrameBuffer.accumulateAuxTile, LocalFrameBuffer.updateError, size, format,
    colors] at written ⊢
  exact written

omit [LinearOrder K] in
theorem accumulateAux_other (fbSize : Vec2i) (tile : Tile K D) (component : Pixel K D → Vec3 K)
    (aux : Nat → Vec3 K)
    (fits : ∀ col < tile.region.size.x, tile.region.lower.x + col < fbSize.x) {x y : Nat}
    (inRow : x < fbSize.x) (outside : ¬ tile.region.Contains ⟨x, y⟩) :
    accumulateAux target fbSize tile component aux (y * fbSize.x + x) = aux (y * fbSize.x + x) :=
  local_other target fbSize tile.region fits _ ⟨aux, tile.pixel, (0 : K)⟩ inRow outside

/-- One call of `setTile` leaves what is accumulated in the pixels of other tiles alone. -/
theorem setTile_other (self : LocalFrameBuffer C K D) (tile : Tile K D) (tileID : Nat)
    (placed : tile.region =
      tileRegion target.tileSize (tileCoords target.tileSize self.size tileID) self.size)
    {x y : Nat} (inRow : x < self.size.x) (inColumn : y < self.size.y)
    (apart : tileID ≠ tileIDof target.tileSize self.size ⟨x, y⟩) :
    (self.setTile target rsqrtf cvt tile).1.at (x + y * self.size.x) =
      self.at (x + y * self.size.x) := by
  have fits : ∀ col < tile.region.size.x, tile.region.lower.x + col < self.size.x := by
    rw [placed]
    exact fun col inside => tileRegion_column _ _ _ inside
  have outside : ¬ tile.region.Contains ⟨x, y⟩ := by
    rw [placed]
    exact fun inside => apart
      ((tileRegion_contains_iff target.tileSizePositive ⟨x, y⟩ inRow inColumn tileID).mp inside)
  rw [Nat.add_comm x]
  obtain ⟨⟨channels, size, _⟩, ⟨normal, albedo⟩, _, _, region, _⟩ :=
    accumulateTile_keeps target rsqrtf self tile
  have sums : (self.accumulateTile target rsqrtf tile).1.accumBuffer (y * self.size.x + x) =
        self.accumBuffer (y * self.size.x + x) ∧
      (self.accumulateTile target rsqrtf tile).1.varianceBuffer (y * self.size.x + x) =
        self.varianceBuffer (y * self.size.x + x) := by
    unfold LocalFrameBuffer.accumulateTile
    split
    · exact ⟨rfl, rfl⟩
    · have untouched := local_other target self.size tile.region fits
        (localSample rsqrtf tile.accumID
          (self.channels.hasVarianceBuffer && tile.accumID % 2 == 1))
        ⟨fun i => (self.accumBuffer i, self.varianceBuffer i), tile.pixel, 0⟩ inRow outside
      exact ⟨congrArg Prod.fst untouched, congrArg Prod.snd untouched⟩
  simp only [LocalFrameBuffer.setTile, writeBuffers_at]
  generalize self.accumulateTile target rsqrtf tile = result
    at channels size normal albedo region sums ⊢
  obtain ⟨accumulated, normalized, err⟩ := result
  simp only at channels size normal albedo region sums ⊢
  have untouched := fun component aux => accumulateAux_other target self.size normalized component
    aux (by rwa [region]) inRow (by rwa [region])
  simp only [LocalFrameBuffer.at, LocalFrameBuffer.accumulateAuxTile, LocalFrameBuffer.updateError,
    channels, size, normal, albedo, sums.1, sums.2]
  congr 1 <;> split <;> simp only [untouched]

end Pixels

/-! ## The samples of a pixel -/

/-- The buffers hold the samples of a pixel: sums of the colors, of all samples and of
every other one, and means of the normals and albedos. -/
structure LocalPixel.Holds (channels : Channels) (samples : List (Pixel K D))
    (pixel : LocalPixel K) : Prop where
  accum : pixel.accum = (samples.map Pixel.color).sum
  variance : channels.hasVarianceBuffer = true → 2 ≤ samples.length → pixel.variance =
    ((samples.zipIdx.filter fun sample => sample.2 % 2 == 1).map fun sample => sample.1.color).sum
  normal : channels.hasNormalBuffer = true →
    pixel.normal = (samples.length : K)⁻¹ • (samples.map Pixel.normal).sum
  albedo : channels.hasAlbedoBuffer = true →
    pixel.albedo = (samples.length : K)⁻¹ • (samples.map Pixel.albedo).sum

omit [LinearOrder K] in
/-- The next sample is taken up under the number of samples so far. -/
theorem holds_accumulate [CharZero K] {channels : Channels}
    (accumulates : channels.hasAccumBuffer = true) {samples : List (Pixel K D)}
    {pixel : LocalPixel K} (holds : samples ≠ [] → pixel.Holds channels samples)
    (sample : Pixel K D) :
    (pixel.accumulate channels samples.length sample).Holds channels (samples ++ [sample]) := by
  by_cases none_ : samples = []
  · subst none_
    refine ⟨?_, ?_, ?_, ?_⟩
    · simp [LocalPixel.accumulate, accumulates]
    · exact fun _ two => absurd two (by simp)
    · intro normals
      simp [LocalPixel.accumulate, normals]
    · intro albedos
      simp [LocalPixel.accumulate, albedos]
  · have positive : 0 < samples.length := List.length_pos_iff.mpr none_
    obtain ⟨accum, variance, normal, albedo⟩ := holds none_
    refine ⟨?_, ?_, ?_, ?_⟩
    · simp [LocalPixel.accumulate, accumulates, positive, accum]
    · intro varies _
      by_cases odd : samples.length % 2 = 1
      · by_cases further : 1 < samples.length
        · simp [LocalPixel.accumulate, varies, odd, further, variance varies further,
            List.zipIdx_append]
        · obtain ⟨first, rfl⟩ := List.length_eq_one_iff.mp (show samples.length = 1 by omega)
          simp [LocalPixel.accumulate, varies]
      · simp [LocalPixel.accumulate, varies, odd, variance varies (by omega), List.zipIdx_append]
    · intro normals
      have updated := mean_update samples.length positive (samples.map Pixel.normal).sum
        sample.normal
      simp [LocalPixel.accumulate, normals, positive, normal normals, updated, -smul_add]
    · intro albedos
      have updated := mean_update samples.length positive (samples.map Pixel.albedo).sum
        sample.albedo
      simp [LocalPixel.accumulate, albedos, positive, albedo albedos, updated, -smul_add]

/-- What the frame buffer shows at a pixel of the frame, if anything has been written
there: the samples it holds, their mean color and the depth of the last one. -/
structure LocalFrameBuffer.Shows (cvt : Vec4 K → C) (fb : LocalFrameBuffer C K D) (x y : Nat)
    (samples : List (Pixel K D)) : Prop where
  pixel : (fb.at (x + y * fb.size.x)).Holds fb.channels samples
  color : fb.colorBufferFormat ≠ .none → fb.colorBuffer (x + y * fb.size.x) =
    cvt ((samples.length : K)⁻¹ • (samples.map Pixel.color).sum)
  depth : fb.colorBufferFormat ≠ .none → fb.channels.hasDepthBuffer = true →
    samples.getLast?.map Pixel.z = some (fb.depthBuffer (x + y * fb.size.x))

section Tasks

variable (target : Target) (rsqrtf : K → K) (cvt : Vec4 K → C)

/-- Setting a tile under the number of its samples so far adds a sample to its pixels. -/
theorem setTile_shows [CharZero K] (fb : LocalFrameBuffer C K D)
    (accumulates : fb.channels.hasAccumBuffer = true) (render : Nat → Nat → Pixel K D) {x y : Nat}
    (inRow : x < fb.size.x) (inColumn : y < fb.size.y) {samples : List (Pixel K D)}
    (shows : samples ≠ [] → fb.Shows cvt x y samples) :
    let tileID := tileIDof target.tileSize fb.size ⟨x, y⟩
    let tile := instanceTile target (tileCoords target.tileSize fb.size tileID) fb.size render
      samples.length
    (fb.setTile target rsqrtf cvt tile).1.Shows cvt x y
      (samples ++ [tile.pixel (tilePixel target.tileSize ⟨x, y⟩)]) := by
  intro tileID tile
  obtain ⟨⟨left, lower⟩, inColumns, inRows⟩ :=
    tileRegion_offset target.tileSizePositive ⟨x, y⟩ inRow inColumn
  obtain ⟨taken, returned⟩ := setTile_at target rsqrtf cvt fb
    (tileCoords target.tileSize fb.size tileID) render samples.length inRows inColumns
  obtain ⟨channels, size, format⟩ := setTile_keeps target rsqrtf cvt fb tile
  have colors := setTile_color target rsqrtf cvt fb tile tileID rfl inRow inColumn
  have depths := setTile_depth target rsqrtf cvt fb render tileID samples.length inRow inColumn
  have place : y % target.tileSize * target.tileSize + x % target.tileSize =
    tilePixel target.tileSize ⟨x, y⟩ := Nat.add_comm _ _
  rw [left, lower, Nat.add_comm (y * fb.size.x), place] at taken
  rw [left, lower, Nat.add_comm (y * fb.size.x), place, if_pos accumulates] at returned
  have holds := holds_accumulate accumulates (fun some_ => (shows some_).pixel)
    (render samples.length (tilePixel target.tileSize ⟨x, y⟩))
  refine ⟨?_, ?_, ?_⟩
  · rw [channels, size]
    exact taken.symm ▸ holds
  · rw [format, size]
    intro written
    rw [if_pos ⟨rfl, written⟩] at colors
    refine colors.trans (congrArg cvt (returned.trans ?_))
    rw [holds.accum, List.length_append, List.length_singleton, Nat.cast_add, Nat.cast_one]
    rfl
  · rw [format, channels, size]
    intro written deep
    rw [if_pos ⟨rfl, written, deep⟩] at depths
    rw [List.getLast?_concat, Option.map_some]
    exact congrArg some depths.symm

omit [LinearOrder K] in
/-- A pixel that no call writes goes on showing what it showed. -/
theorem shows_congr {before after : LocalFrameBuffer C K D} {x y : Nat}
    {samples : List (Pixel K D)} (shows : before.Shows cvt x y samples)
    (created : after.channels = before.channels ∧ after.size = before.size ∧
      after.colorBufferFormat = before.colorBufferFormat)
    (pixel : after.at (x + y * before.size.x) = before.at (x + y * before.size.x))
    (color : after.colorBuffer (x + y * before.size.x) = before.colorBuffer (x + y * before.size.x))
    (depth : after.depthBuffer (x + y * before.size.x) =
      before.depthBuffer (x + y * before.size.x)) : after.Shows cvt x y samples := by
  obtain ⟨channels, size, format⟩ := created
  refine ⟨?_, ?_, ?_⟩
  · rw [channels, size, pixel]
    exact shows.pixel
  · rw [format, size, color]
    exact shows.color
  · rw [format, channels, size, depth]
    exact shows.depth

theorem setTile_still (fb : LocalFrameBuffer C K D) (render : Nat → Nat → Pixel K D)
    (tileID accumID : Nat) {x y : Nat} (inRow : x < fb.size.x) (inColumn : y < fb.size.y)
    (apart : tileID ≠ tileIDof target.tileSize fb.size ⟨x, y⟩) {samples : List (Pixel K D)}
    (shows : fb.Shows cvt x y samples) :
    (fb.setTile target rsqrtf cvt (instanceTile target
      (tileCoords target.tileSize fb.size tileID) fb.size render accumID)).1.Shows cvt x y
        samples := by
  have colors := setTile_color target rsqrtf cvt fb (instanceTile target
    (tileCoords target.tileSize fb.size tileID) fb.size render accumID) tileID rfl inRow inColumn
  have depths := setTile_depth target rsqrtf cvt fb render tileID accumID inRow inColumn
  rw [if_neg fun written => apart written.1] at colors depths
  exact shows_congr cvt shows (setTile_keeps target rsqrtf cvt fb _)
    (setTile_other target rsqrtf cvt fb _ tileID rfl inRow inColumn apart) colors depths

omit [Field K] [LinearOrder K] in
theorem tileCoords_index (tileSize : Nat) (size : Vec2i) (tileID : Nat) :
    (tileCoords tileSize size tileID).y * (numTiles tileSize size).x +
      (tileCoords tileSize size tileID).x = tileID :=
  Nat.add_sub_of_le (Nat.div_mul_le_self tileID _)

omit [Field K] [LinearOrder K] in
theorem regionTile_coords (size : Vec2i) (tileID : Nat) :
    regionTile target size (tileRegion target.tileSize (tileCoords target.tileSize size tileID) size)
      = tileID := by
  unfold regionTile tileRegion
  dsimp only
  rw [Nat.mul_div_cancel _ target.tileSizePositive, Nat.mul_div_cancel _ target.tileSizePositive]
  exact tileCoords_index target.tileSize size tileID

end Tasks

section Counters

variable (target : Target) (rsqrtf : K → K) (cvt : Vec4 K → C)

/-- Setting a tile raises its counter, and leaves the errors of the other tiles alone. -/
theorem setTile_counter (fb : LocalFrameBuffer C K D)
    (accumulates : fb.channels.hasAccumBuffer = true) (render : Nat → Nat → Pixel K D)
    (tileID accumID : Nat) :
    let after := (fb.setTile target rsqrtf cvt (instanceTile target
      (tileCoords target.tileSize fb.size tileID) fb.size render accumID)).1
    after.tileAccumID = Function.update fb.tileAccumID tileID (fb.tileAccumID tileID + 1) ∧
      ∀ other ≠ tileID, after.tileErrorRegion other = fb.tileErrorRegion other := by
  have written : ∀ (self : LocalFrameBuffer C K D) (tile : Tile K D),
      (self.writeBuffers target cvt tile).tileAccumID = self.tileAccumID := by
    intro self tile
    unfold LocalFrameBuffer.writeBuffers
    split <;> rfl
  have index := regionTile_coords target fb.size tileID
  obtain ⟨⟨-, size, -⟩, -, errors, -, placed, -⟩ := accumulateTile_keeps target rsqrtf fb
    (instanceTile target (tileCoords target.tileSize fb.size tileID) fb.size render accumID)
  have counted := (accumulateTile_counts target rsqrtf fb (instanceTile target
    (tileCoords target.tileSize fb.size tileID) fb.size render accumID)).2 accumulates
  have region : (instanceTile target (tileCoords target.tileSize fb.size tileID) fb.size render
    accumID).region = tileRegion target.tileSize (tileCoords target.tileSize fb.size tileID)
      fb.size := rfl
  rw [region, index] at counted
  refine ⟨?_, fun other apart => ?_⟩
  · simp only [LocalFrameBuffer.setTile, written]
    exact counted
  · simp only [LocalFrameBuffer.setTile, (writeBuffers_keeps target cvt _ _).2.2.2,
      LocalFrameBuffer.accumulateAuxTile, LocalFrameBuffer.updateError, size, errors, placed, region,
      index]
    split
    · exact Function.update_of_ne apart _ _
    · rfl

variable {tiles : Nat}

/-- What the samples of a tile are taken for: its counter numbers them, they have been
numbered in turn, and the pixels of the tile show them. -/
structure LocalRun.Accumulates (run : LocalRun C K D) (tileID : Nat) : Prop where
  counter : run.fb.tileAccumID tileID = (run.rendered tileID).length
  numbers : (run.rendered tileID).map Tile.accumID = List.range (run.rendered tileID).length
  shows : ∀ x < run.fb.size.x, ∀ y < run.fb.size.y,
    tileID = tileIDof target.tileSize run.fb.size ⟨x, y⟩ → run.rendered tileID ≠ [] →
      run.fb.Shows cvt x y
        ((run.rendered tileID).map fun tile => tile.pixel (tilePixel target.tileSize ⟨x, y⟩))

/-- The tile a task sets. -/
def LocalRun.tile (self : LocalRun C K D) (frame : LocalFrame tiles K D) (taskIndex : Nat) :
    Tile K D :=
  instanceTile target (tileCoords target.tileSize self.fb.size taskIndex) self.fb.size
    (frame.samples taskIndex) (self.fb.tileAccumID taskIndex)

theorem task_sets (frame : LocalFrame tiles K D) (self : LocalRun C K D) {taskIndex : Nat}
    (renders : ¬ self.skips target frame.errorThreshold taskIndex) :
    self.task target rsqrtf cvt frame taskIndex =
      { self with
        fb := (self.fb.setTile target rsqrtf cvt (self.tile target frame taskIndex)).1
        rendered := Function.update self.rendered taskIndex
          (self.rendered taskIndex ++ [self.tile target frame taskIndex]) } := by
  unfold LocalRun.task LocalRun.tile
  dsimp only
  rw [if_neg renders, tileCoords_index]

theorem task_keeps (frame : LocalFrame tiles K D) (self : LocalRun C K D) (taskIndex : Nat) :
    let after := self.task target rsqrtf cvt frame taskIndex
    after.fb.channels = self.fb.channels ∧ after.fb.size = self.fb.size ∧
      after.fb.colorBufferFormat = self.fb.colorBufferFormat ∧
      after.errorRegion = self.errorRegion := by
  by_cases skipped : self.skips target frame.errorThreshold taskIndex
  · simp only [LocalRun.task, if_pos skipped, and_self]
  · rw [task_sets target rsqrtf cvt frame self skipped]
    obtain ⟨channels, size, format⟩ :=
      setTile_keeps target rsqrtf cvt self.fb (self.tile target frame taskIndex)
    exact ⟨channels, size, format, rfl⟩

/-- A task keeps every tile's samples in order. -/
theorem task_accumulates [CharZero K] (frame : LocalFrame tiles K D) (self : LocalRun C K D)
    (accumulates : self.fb.channels.hasAccumBuffer = true) (taskIndex : Nat) {tileID : Nat}
    (before : self.Accumulates target cvt tileID) :
    (self.task target rsqrtf cvt frame taskIndex).Accumulates target cvt tileID := by
  by_cases skipped : self.skips target frame.errorThreshold taskIndex
  · have unchanged : self.task target rsqrtf cvt frame taskIndex = self := by
      simp only [LocalRun.task, if_pos skipped]
    rw [unchanged]
    exact before
  obtain ⟨counted, -⟩ := setTile_counter target rsqrtf cvt self.fb accumulates
    (frame.samples taskIndex) taskIndex (self.fb.tileAccumID taskIndex)
  obtain ⟨-, size, -⟩ := setTile_keeps target rsqrtf cvt self.fb (self.tile target frame taskIndex)
  rw [task_sets target rsqrtf cvt frame self skipped]
  by_cases own : taskIndex = tileID
  · subst own
    refine ⟨?_, ?_, ?_⟩
    · refine (congrFun counted taskIndex).trans ?_
      dsimp only
      rw [Function.update_self, Function.update_self, before.counter, List.length_append,
        List.length_singleton]
    · simp only [Function.update_self, List.map_append, List.map_singleton, before.numbers,
        List.length_append, List.length_singleton, List.range_succ]
      rw [LocalRun.tile, before.counter]
      rfl
    · intro x inRow y inColumn covers _
      rw [size] at inRow inColumn covers
      have shows : (self.rendered taskIndex).map (fun tile => tile.pixel
          (tilePixel target.tileSize ⟨x, y⟩)) ≠ [] → self.fb.Shows cvt x y
            ((self.rendered taskIndex).map fun tile => tile.pixel
              (tilePixel target.tileSize ⟨x, y⟩)) :=
        fun some_ => before.shows x inRow y inColumn covers (fun none_ => some_ (by simp [none_]))
      have added := setTile_shows target rsqrtf cvt self.fb accumulates (frame.samples taskIndex)
        inRow inColumn shows
      rw [← covers, List.length_map, ← before.counter] at added
      simp only [Function.update_self, List.map_append, List.map_singleton]
      exact added
  · refine ⟨?_, ?_, ?_⟩
    · refine (congrFun counted tileID).trans ?_
      dsimp only
      rw [Function.update_of_ne (Ne.symm own), Function.update_of_ne (Ne.symm own), before.counter]
    · simp only [Function.update_of_ne (Ne.symm own), before.numbers]
    · intro x inRow y inColumn covers some_
      rw [size] at inRow inColumn covers
      simp only [Function.update_of_ne (Ne.symm own)] at some_ ⊢
      exact setTile_still target rsqrtf cvt self.fb (frame.samples taskIndex) taskIndex
        (self.fb.tileAccumID taskIndex) inRow inColumn (fun same => own (same.trans covers.symm))
        (before.shows x inRow y inColumn covers some_)

end Counters

/-! ## Frames -/

section Frames

variable (target : Target) (rsqrtf nextafter : K → K) (cvt : Vec4 K → C)
variable {tiles : Nat}

theorem tasks_keep (frame : LocalFrame tiles K D) (self : LocalRun C K D) (tasks : List Nat) :
    let after := tasks.foldl (LocalRun.task target rsqrtf cvt frame) self
    after.fb.channels = self.fb.channels ∧ after.fb.size = self.fb.size ∧
      after.errorRegion = self.errorRegion := by
  refine List.foldlRecOn tasks _ (motive := fun state : LocalRun C K D =>
    state.fb.channels = self.fb.channels ∧ state.fb.size = self.fb.size ∧
      state.errorRegion = self.errorRegion) ⟨rfl, rfl, rfl⟩ ?_
  rintro state ⟨channels, size, regions⟩ taskIndex -
  obtain ⟨channelsAfter, sizeAfter, -, regionsAfter⟩ :=
    task_keeps target rsqrtf cvt frame state taskIndex
  exact ⟨channelsAfter.trans channels, sizeAfter.trans size, regionsAfter.trans regions⟩

theorem performs_keep (self : LocalRun C K D) (calls : List (LocalCall tiles K D)) :
    let after := calls.foldl (LocalRun.perform target rsqrtf nextafter cvt) self
    after.fb.channels = self.fb.channels ∧ after.fb.size = self.fb.size := by
  refine List.foldlRecOn calls _ (motive := fun state : LocalRun C K D =>
    state.fb.channels = self.fb.channels ∧ state.fb.size = self.fb.size) ⟨rfl, rfl⟩ ?_
  rintro state ⟨channels, size⟩ call -
  cases call with
  | clear => exact ⟨channels, size⟩
  | renderFrame frame =>
    obtain ⟨channelsAfter, sizeAfter, -⟩ := tasks_keep target rsqrtf cvt frame state frame.tasks
    exact ⟨channelsAfter.trans channels, sizeAfter.trans size⟩

/-- The samples of a tile are in order after all calls. -/
theorem performs_accumulate [CharZero K] (fb : LocalFrameBuffer C K D)
    (accumulates : fb.channels.hasAccumBuffer = true) (calls : List (LocalCall tiles K D))
    (tileID : Nat) :
    (calls.foldl (LocalRun.perform target rsqrtf nextafter cvt)
      (LocalRun.create target fb)).Accumulates target cvt tileID := by
  induction calls using List.reverseRecOn with
  | nil => exact ⟨rfl, rfl, fun _ _ _ _ _ some_ => absurd rfl some_⟩
  | append_singleton calls call inductionHypothesis =>
    obtain ⟨channels, -⟩ := performs_keep target rsqrtf nextafter cvt (LocalRun.create target fb)
      calls
    rw [List.foldl_append]
    cases call with
    | clear => exact ⟨rfl, rfl, fun _ _ _ _ _ some_ => absurd rfl some_⟩
    | renderFrame frame =>
      have tasks := List.foldlRecOn frame.tasks (LocalRun.task target rsqrtf cvt frame)
        (motive := fun state : LocalRun C K D =>
          state.fb.channels = fb.channels ∧ state.Accumulates target cvt tileID)
        ⟨channels, inductionHypothesis⟩ fun state before taskIndex _ =>
          ⟨(task_keeps target rsqrtf cvt frame state taskIndex).1.trans before.1,
            task_accumulates target rsqrtf cvt frame state (by rw [before.1, accumulates]) taskIndex
              before.2⟩
      exact ⟨tasks.2.counter, tasks.2.numbers, fun x inRow y inColumn covers some_ =>
        shows_congr cvt (tasks.2.shows x inRow y inColumn covers some_) ⟨rfl, rfl, rfl⟩ rfl rfl rfl⟩

/-- What a task finds of its tile, and what decides it. -/
def LocalRun.observe (self : LocalRun C K D) (tileID : Nat) :
    List (Tile K D) × Nat × WithTop K × Channels × Vec2i :=
  (self.rendered tileID, self.fb.tileAccumID tileID, self.fb.tileErrorRegion tileID,
    self.fb.channels, self.fb.size)

omit [Field K] in
/-- The error of a tile is the one at its number, with a variance channel. -/
theorem skips_iff (self : LocalRun C K D) (errorThreshold : K) (tileID : Nat) :
    self.skips target errorThreshold tileID ↔ self.fb.channels.hasVarianceBuffer = true ∧
      totalTiles target.tileSize self.fb.size ≠ 0 ∧
        self.fb.tileErrorRegion tileID ≤ ((errorThreshold : K) : WithTop K) := by
  have index := tileCoords_index target.tileSize self.fb.size tileID
  unfold LocalRun.skips TileError.get TileError.tiles LocalRun.tileErrors
  cases variance : self.fb.channels.hasVarianceBuffer with
  | false => simp
  | true =>
    by_cases none_ : totalTiles target.tileSize self.fb.size = 0
    · have zero := none_
      unfold totalTiles at zero
      simp [zero, none_]
    · have some_ := none_
      unfold totalTiles at some_
      simp only [if_true, if_neg some_, index, true_and, none_, ne_eq, not_false_eq_true]

theorem task_unobserved (frame : LocalFrame tiles K D) (self : LocalRun C K D)
    (accumulates : self.fb.channels.hasAccumBuffer = true) {taskIndex tileID : Nat}
    (apart : taskIndex ≠ tileID) :
    (self.task target rsqrtf cvt frame taskIndex).observe tileID = self.observe tileID := by
  by_cases skipped : self.skips target frame.errorThreshold taskIndex
  · simp only [LocalRun.task, if_pos skipped]
  · obtain ⟨counted, errors⟩ := setTile_counter target rsqrtf cvt self.fb accumulates
      (frame.samples taskIndex) taskIndex (self.fb.tileAccumID taskIndex)
    obtain ⟨channels, size, -⟩ :=
      setTile_keeps target rsqrtf cvt self.fb (self.tile target frame taskIndex)
    have counter := (congrFun counted tileID).trans (Function.update_of_ne apart.symm _ _)
    have error := errors tileID apart.symm
    rw [task_sets target rsqrtf cvt frame self skipped]
    simp only [LocalRun.observe, Function.update_of_ne apart.symm, channels, size]
    exact congrArg₂ (fun counter error => (self.rendered tileID, counter, error, self.fb.channels,
      self.fb.size)) counter error

/-- A frame adds one sample to every tile whose task is not cancelled and not skipped for
the error before the frame, in whatever order the tasks run. -/
theorem frame_renders (self : LocalRun C K D) (accumulates : self.fb.channels.hasAccumBuffer = true)
    (frame : LocalFrame tiles K D) (tileID : Nat) :
    (self.renderFrame target rsqrtf nextafter cvt frame).2.rendered tileID =
      if tileID ∈ frame.tasks ∧ ¬ self.skips target frame.errorThreshold tileID then
        self.rendered tileID ++ [self.tile target frame tileID]
      else self.rendered tileID := by
  have others : ∀ tasks : List Nat, tileID ∉ tasks → ∀ state : LocalRun C K D,
      state.fb.channels.hasAccumBuffer = true →
      (tasks.foldl (LocalRun.task target rsqrtf cvt frame) state).observe tileID =
        state.observe tileID := by
    intro tasks absent state counts
    refine foldl_never _ (fun state : LocalRun C K D => state.observe tileID)
      (fun state => state.fb.channels.hasAccumBuffer = true) tasks ?_ ?_ counts
    · intro state taskIndex _ counts
      rwa [(task_keeps target rsqrtf cvt frame state taskIndex).1]
    · exact fun state taskIndex member counts =>
        task_unobserved target rsqrtf cvt frame state counts fun same => absent (same ▸ member)
  change (frame.tasks.foldl (LocalRun.task target rsqrtf cvt frame) self).rendered tileID = _
  by_cases member : tileID ∈ frame.tasks
  · obtain ⟨earlier, later, split_⟩ := List.append_of_mem member
    have distinct := frame.distinct
    rw [split_, List.nodup_append, List.nodup_cons] at distinct
    have before := others earlier
      (fun same => distinct.2.2 tileID same tileID List.mem_cons_self rfl) self accumulates
    have channels := (tasks_keep target rsqrtf cvt frame self earlier).1
    rw [split_, List.foldl_append, List.foldl_cons]
    generalize earlier.foldl (LocalRun.task target rsqrtf cvt frame) self = found
      at before channels ⊢
    simp only [LocalRun.observe, Prod.mk.injEq] at before
    obtain ⟨rendered, counter, error, -, size⟩ := before
    have after := others later distinct.2.1.1 (found.task target rsqrtf cvt frame tileID)
      (by rw [(task_keeps target rsqrtf cvt frame found tileID).1, channels, accumulates])
    refine (congrArg Prod.fst after).trans ?_
    have sameTest : found.skips target frame.errorThreshold tileID ↔
        self.skips target frame.errorThreshold tileID := by
      rw [skips_iff, skips_iff, channels, size, error]
    by_cases skipped : self.skips target frame.errorThreshold tileID
    · rw [if_neg (fun renders => renders.2 skipped)]
      simpa only [LocalRun.observe, LocalRun.task, if_pos (sameTest.mpr skipped)] using rendered
    · have sameTile : found.tile target frame tileID = self.tile target frame tileID := by
        rw [LocalRun.tile, LocalRun.tile, size, counter]
      have set_ := task_sets target rsqrtf cvt frame found fun also => skipped (sameTest.mp also)
      rw [if_pos ⟨List.mem_append_right earlier List.mem_cons_self, skipped⟩, ← rendered, ← sameTile]
      simp only [LocalRun.observe, set_, Function.update_self]
  · rw [if_neg (fun renders => member renders.1)]
    exact congrArg Prod.fst (others frame.tasks member self accumulates)

end Frames

section Results

variable (target : Target) (rsqrtf nextafter : K → K) (cvt : Vec4 K → C)
variable {tiles : Nat}

/-- After any frames and clears: the counter of each tile is the number of its samples
since the last clear, these are numbered in turn, and the pixels show them. The next frame
adds one sample to exactly the tiles whose task is not cancelled and whose error before
the frame is above the threshold. -/
theorem localFrames_accumulate [CharZero K] (fb : LocalFrameBuffer C K D)
    (accumulates : fb.channels.hasAccumBuffer = true) (calls : List (LocalCall tiles K D)) :
    let run := calls.foldl (LocalRun.perform target rsqrtf nextafter cvt) (LocalRun.create target fb)
    (∀ tileID, run.Accumulates target cvt tileID) ∧
      ∀ (frame : LocalFrame tiles K D) (tileID : Nat),
        (run.renderFrame target rsqrtf nextafter cvt frame).2.rendered tileID =
          if tileID ∈ frame.tasks ∧ ¬ run.skips target frame.errorThreshold tileID then
            run.rendered tileID ++ [run.tile target frame tileID]
          else run.rendered tileID := by
  intro run
  refine ⟨performs_accumulate target rsqrtf nextafter cvt fb accumulates calls, ?_⟩
  have channels := (performs_keep target rsqrtf nextafter cvt (LocalRun.create target fb) calls).1
  exact frame_renders target rsqrtf nextafter cvt run
    ((congrArg Channels.hasAccumBuffer channels).trans accumulates)

/-- A frame of one tile, with the same color everywhere. -/
def flatFrame (errorThreshold : ℚ) (tasks : List Nat) (distinct : tasks.Nodup)
    (inTiles : ∀ taskIndex ∈ tasks, taskIndex < 1) : LocalFrame 1 ℚ ℚ :=
  { errorThreshold := errorThreshold
    samples := fun _ _ _ => ⟨fun _ => 3, 5, 0, 0⟩
    tasks := tasks
    distinct := distinct
    inTiles := inTiles }

/-- A frame whose only task is cancelled, and one that renders the tile: its sample has the
number zero, and the counter is one. -/
theorem localFrames_accumulate_cancelled :
    let target : Target := ⟨4, 2, by decide, by decide⟩
    let run := (LocalRun.create target { sampledFrameBuffer with size := ⟨1, 1⟩ }).perform target id
      id id (.renderFrame (flatFrame 1 [] (by decide) (by decide)))
    let after := (run.renderFrame target id id id
      (flatFrame 1 [0] (by decide) (by decide))).2
    after.fb.tileAccumID 0 = 1 ∧ (after.rendered 0).map Tile.accumID = [0] := by
  intro target run after
  obtain ⟨-, next⟩ := localFrames_accumulate target id id id
    { sampledFrameBuffer with size := ⟨1, 1⟩ } rfl
    [.renderFrame (flatFrame 1 [] (by decide) (by decide))]
  have rendered := next (flatFrame 1 [0] (by decide) (by decide)) 0
  rw [if_pos ⟨List.mem_singleton_self 0, by decide +kernel⟩] at rendered
  obtain ⟨holds, -⟩ := localFrames_accumulate target id id id
    { sampledFrameBuffer with size := ⟨1, 1⟩ } rfl
    [.renderFrame (flatFrame 1 [] (by decide) (by decide)),
      .renderFrame (flatFrame 1 [0] (by decide) (by decide))]
  have counter : after.fb.tileAccumID 0 = (after.rendered 0).length := (holds 0).counter
  have numbers : (after.rendered 0).map Tile.accumID = List.range (after.rendered 0).length :=
    (holds 0).numbers
  have single : (after.rendered 0).length = 1 := congrArg List.length rendered
  rw [counter, numbers, single]
  exact ⟨rfl, rfl⟩

end Results

/-! ## Converged frames -/

section Regions

variable (target : Target) (rsqrtf nextafter : K → K) (cvt : Vec4 K → C)
variable {tiles : Nat}

variable [IsStrictOrderedRing K]

end Regions

section ConvergedResults

variable (target : Target) (rsqrtf nextafter : K → K) (cvt : Vec4 K → C)
variable {tiles : Nat} [IsStrictOrderedRing K]

end ConvergedResults

end Ospray
