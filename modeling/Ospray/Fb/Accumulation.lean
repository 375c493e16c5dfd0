import Mathlib
import Ospray.Fb.LocalFrameBuffer
import Ospray.Fb.WriteMultipleTile

/-!
# Local and distributed accumulation

A tile set in frame after frame goes through the kernels of the local frame
buffer or, on its owner, through those of the distributed one. The first keep the
sums of colors and the means of normals and albedos across the frame, the second
keep sums in the tile and normalize into another tile. Both are described here at
one pixel of the tile's region, and agree there by induction on the frames.
-/

namespace Ospray

open Library.Loops

variable {C K D : Type} [Field K] [LinearOrder K]
variable (target : Target) (rsqrtf : K → K) (cvt : Vec4 K → C)

/-- What the buffers of a local frame buffer hold at one pixel of the frame. -/
structure LocalPixel (K : Type) where
  accum : Vec4 K
  variance : Vec4 K
  normal : Vec3 K
  albedo : Vec3 K

/-- One pixel of a local frame buffer. -/
def LocalFrameBuffer.at (self : LocalFrameBuffer C K D) (i : Nat) : LocalPixel K :=
  ⟨self.accumBuffer i, self.varianceBuffer i, self.normalBuffer i, self.albedoBuffer i⟩

/-- One sample of a pixel of a local frame buffer. -/
def LocalPixel.accumulate (channels : Channels) (accumID : Nat) (sample : Pixel K D)
    (self : LocalPixel K) : LocalPixel K :=
  let scale : K := ((accumID : K) + 1)⁻¹
  { accum :=
      if channels.hasAccumBuffer then (if 0 < accumID then self.accum else 0) + sample.color
      else self.accum
    variance :=
      if channels.hasVarianceBuffer && accumID % 2 == 1 then
        (if 1 < accumID then self.variance else 0) + sample.color
      else self.variance
    normal :=
      if channels.hasNormalBuffer then
        scale • ((accumID : K) • (if 0 < accumID then self.normal else 0) + sample.normal)
      else self.normal
    albedo :=
      if channels.hasAlbedoBuffer then
        scale • ((accumID : K) • (if 0 < accumID then self.albedo else 0) + sample.albedo)
      else self.albedo }

omit [LinearOrder K] in
@[simp] theorem writeBuffers_at (self : LocalFrameBuffer C K D) (tile : Tile K D) (i : Nat) :
    (self.writeBuffers target cvt tile).at i = self.at i := by
  unfold LocalFrameBuffer.writeBuffers
  split <;> rfl

omit [LinearOrder K] in
@[simp] theorem writeBuffers_keeps (self : LocalFrameBuffer C K D) (tile : Tile K D) :
    (self.writeBuffers target cvt tile).channels = self.channels ∧
      (self.writeBuffers target cvt tile).size = self.size ∧
      (self.writeBuffers target cvt tile).colorBufferFormat = self.colorBufferFormat ∧
      (self.writeBuffers target cvt tile).tileErrorRegion = self.tileErrorRegion := by
  unfold LocalFrameBuffer.writeBuffers
  split <;> exact ⟨rfl, rfl, rfl, rfl⟩

theorem accumulateTile_keeps (self : LocalFrameBuffer C K D) (tile : Tile K D) :
    let after := self.accumulateTile target rsqrtf tile
    (after.1.channels = self.channels ∧ after.1.size = self.size ∧
      after.1.colorBufferFormat = self.colorBufferFormat) ∧
      (after.1.normalBuffer = self.normalBuffer ∧ after.1.albedoBuffer = self.albedoBuffer) ∧
      after.1.tileErrorRegion = self.tileErrorRegion ∧ after.1.depthBuffer = self.depthBuffer ∧
      after.2.1.region = tile.region ∧ after.2.1.accumID = tile.accumID := by
  unfold LocalFrameBuffer.accumulateTile
  split <;> exact ⟨⟨rfl, rfl, rfl⟩, ⟨rfl, rfl⟩, rfl, rfl, rfl, rfl⟩

/-- The colors of a tile, accumulated at one pixel of its region. -/
theorem accumulateTile_colors (self : LocalFrameBuffer C K D) (tile : Vec2i)
    (samples : Nat → Nat → Pixel K D) (id : Nat) {row col : Nat}
    (inRows : row < (tileRegion target.tileSize tile self.size).size.y)
    (inColumns : col < (tileRegion target.tileSize tile self.size).size.x) :
    let region := tileRegion target.tileSize tile self.size
    let i := (region.lower.y + row) * self.size.x + (region.lower.x + col)
    let j := row * target.tileSize + col
    let after := self.accumulateTile target rsqrtf (instanceTile target tile self.size samples id)
    let pixel := (self.at i).accumulate self.channels id (samples id j)
    after.1.accumBuffer i = pixel.accum ∧ after.1.varianceBuffer i = pixel.variance ∧
      after.2.1.pixel j = { samples id j with
        color :=
          if self.channels.hasAccumBuffer then ((id : K) + 1)⁻¹ • pixel.accum
          else (samples id j).color } := by
  intro region i j after pixel
  have number : (instanceTile target tile self.size samples id).accumID = id := rfl
  cases accumulates : self.channels.hasAccumBuffer with
  | false =>
    have novariance : self.channels.hasVarianceBuffer = false := by
      cases variance : self.channels.hasVarianceBuffer with
      | false => rfl
      | true => exact absurd (self.channels.varianceAccumulates variance) (by simp [accumulates])
    simp only [after, pixel, LocalFrameBuffer.accumulateTile, accumulates, novariance,
      LocalPixel.accumulate, Bool.not_false, if_true, Bool.false_and, Bool.false_eq_true, if_false]
    exact ⟨rfl, rfl, rfl⟩
  | true =>
    have result := local_pixel target self.size region (tileRegion_width target.tileSize tile
        self.size) (fun col inside => tileRegion_column target.tileSize tile self.size inside)
      (localSample rsqrtf id (self.channels.hasVarianceBuffer && id % 2 == 1))
      ⟨fun i => (self.accumBuffer i, self.varianceBuffer i), samples id, 0⟩ inRows inColumns
    simp only [after, pixel, LocalFrameBuffer.accumulateTile, accumulates, LocalPixel.accumulate,
      Bool.not_true, if_true, Bool.false_eq_true, if_false]
    obtain ⟨buffers, normalized⟩ := result
    exact ⟨congrArg Prod.fst buffers, congrArg Prod.snd buffers, normalized⟩

omit [LinearOrder K] in
/-- A normal or albedo, accumulated at one pixel of the region. -/
theorem accumulateAux_at (fbSize tileCoord : Vec2i) (tile : Tile K D)
    (component : Pixel K D → Vec3 K) (aux : Nat → Vec3 K)
    (placed : tile.region = tileRegion target.tileSize tileCoord fbSize) {row col : Nat}
    (inRows : row < tile.region.size.y) (inColumns : col < tile.region.size.x) :
    let i := (tile.region.lower.y + row) * fbSize.x + (tile.region.lower.x + col)
    let j := row * target.tileSize + col
    accumulateAux target fbSize tile component aux i =
      ((tile.accumID : K) + 1)⁻¹ •
        ((tile.accumID : K) • (if 0 < tile.accumID then aux i else 0) + component (tile.pixel j)) := by
  have narrow : tile.region.size.x ≤ target.tileSize := by
    rw [placed]
    exact tileRegion_width target.tileSize tileCoord fbSize
  have fits : ∀ col < tile.region.size.x, tile.region.lower.x + col < fbSize.x := by
    rw [placed]
    exact fun col inside => tileRegion_column target.tileSize tileCoord fbSize inside
  exact (local_pixel target fbSize tile.region narrow fits _ ⟨aux, tile.pixel, (0 : K)⟩
    inRows inColumns).1

/-- One call of `setTile`, seen at one pixel of the region: each buffer takes the
sample, and the tile is left with the normalized color. -/
theorem setTile_at (self : LocalFrameBuffer C K D) (tile : Vec2i)
    (samples : Nat → Nat → Pixel K D) (id : Nat) {row col : Nat}
    (inRows : row < (tileRegion target.tileSize tile self.size).size.y)
    (inColumns : col < (tileRegion target.tileSize tile self.size).size.x) :
    let region := tileRegion target.tileSize tile self.size
    let i := (region.lower.y + row) * self.size.x + (region.lower.x + col)
    let j := row * target.tileSize + col
    let after := self.setTile target rsqrtf cvt (instanceTile target tile self.size samples id)
    let pixel := (self.at i).accumulate self.channels id (samples id j)
    after.1.at i = pixel ∧
      (after.2.pixel j).color =
        if self.channels.hasAccumBuffer then ((id : K) + 1)⁻¹ • pixel.accum
        else (samples id j).color := by
  intro region i j after pixel
  obtain ⟨accum, variance, normalized⟩ :=
    accumulateTile_colors target rsqrtf self tile samples id inRows inColumns
  obtain ⟨⟨channels, size, _⟩, ⟨normal, albedo⟩, _, _, placed, number⟩ := accumulateTile_keeps
    target rsqrtf self (instanceTile target tile self.size samples id)
  refine ⟨?_, congrArg Pixel.color normalized⟩
  simp only [after, LocalFrameBuffer.setTile]
  generalize self.accumulateTile target rsqrtf (instanceTile target tile self.size samples id) =
    result at accum variance normalized channels size normal albedo placed number ⊢
  obtain ⟨accumulated, tile', err⟩ := result
  simp only at accum variance normalized channels size normal albedo placed number ⊢
  have inRegion : tile'.region = tileRegion target.tileSize tile self.size := placed
  have here := fun component aux => accumulateAux_at target self.size tile tile' component aux
    inRegion (by rwa [inRegion]) (by rwa [inRegion])
  rw [writeBuffers_at]
  simp only [LocalFrameBuffer.at, LocalFrameBuffer.accumulateAuxTile, LocalFrameBuffer.updateError,
    channels, size, normal, albedo]
  have auxHere : ∀ (component : Pixel K D → Vec3 K) (aux : Nat → Vec3 K),
      component (tile'.pixel j) = component (samples id j) →
      accumulateAux target self.size tile' component aux i = ((id : K) + 1)⁻¹ •
        ((id : K) • (if 0 < id then aux i else 0) + component (samples id j)) := by
    intro component aux same
    have applied := here component aux
    rw [inRegion, number] at applied
    rw [← same]
    exact applied
  have normalHere : (if self.channels.hasNormalBuffer then
      accumulateAux target self.size tile' Pixel.normal self.normalBuffer
      else self.normalBuffer) i = pixel.normal := by
    simp only [pixel, LocalPixel.accumulate]
    split
    · have same := congrArg Pixel.normal normalized
      exact auxHere Pixel.normal self.normalBuffer same
    · rfl
  have albedoHere : (if self.channels.hasAlbedoBuffer then
      accumulateAux target self.size tile' Pixel.albedo self.albedoBuffer
      else self.albedoBuffer) i = pixel.albedo := by
    simp only [pixel, LocalPixel.accumulate]
    split
    · have same := congrArg Pixel.albedo normalized
      exact auxHere Pixel.albedo self.albedoBuffer same
    · rfl
  rw [normalHere, albedoHere, show accumulated.accumBuffer i = pixel.accum from accum,
    show accumulated.varianceBuffer i = pixel.variance from variance]

/-- The error that `setTile` records: with a variance channel, every other sample's
is the scaled sum of what the pixels of the region contribute. -/
theorem setTile_error (self : LocalFrameBuffer C K D) (tile : Vec2i)
    (samples : Nat → Nat → Pixel K D) (id : Nat) :
    let region := tileRegion target.tileSize tile self.size
    let after := self.setTile target rsqrtf cvt (instanceTile target tile self.size samples id)
    after.1.tileError (regionTile target self.size region) =
      if self.channels.hasVarianceBuffer && id % 2 == 1 then
        (((((chunkLanes region.size.y region.size.x).map (fun step =>
          (localSample rsqrtf id true
            (self.accumBuffer ((region.lower.y + step.1) * self.size.x + (region.lower.x + step.2)),
              self.varianceBuffer
                ((region.lower.y + step.1) * self.size.x + (region.lower.x + step.2)))
            (samples id (step.1 * target.tileSize + step.2))).2.2)).sum) *
          rsqrtf ((region.size.x : K) * (region.size.y : K)) : K) : WithTop K)
      else self.tileError (regionTile target self.size region) := by
  intro region after
  have narrow := tileRegion_width target.tileSize tile self.size
  have fits : ∀ col < region.size.x, region.lower.x + col < self.size.x :=
    fun col inside => tileRegion_column target.tileSize tile self.size inside
  have number : (instanceTile target tile self.size samples id).accumID = id := rfl
  obtain ⟨⟨channels, size, _⟩, _, errors, _, placed, numberKept⟩ := accumulateTile_keeps
    target rsqrtf self (instanceTile target tile self.size samples id)
  simp only [after, LocalFrameBuffer.setTile, LocalFrameBuffer.tileError, writeBuffers_keeps,
    LocalFrameBuffer.accumulateAuxTile, LocalFrameBuffer.updateError, channels, size, errors, placed,
    numberKept, number]
  cases variance : self.channels.hasVarianceBuffer with
  | false => simp
  | true =>
    have accumulates := self.channels.varianceAccumulates variance
    have total := local_total target self.size region narrow fits (localSample rsqrtf id true)
      ⟨fun i => (self.accumBuffer i, self.varianceBuffer i), samples id, 0⟩
    cases odd : id % 2 == 1 with
    | false => simp
    | true =>
      have inPlace : (instanceTile target tile self.size samples id).region = region := rfl
      simp only [accumulates, inPlace, Bool.and_self, if_true, Function.update_self]
      simp only [zero_add] at total
      simp only [LocalFrameBuffer.accumulateTile, accumulates, variance, number, odd, inPlace,
        Bool.not_true, Bool.false_eq_true, if_false, Bool.and_self, if_true]
      exact congrArg (fun sum => ((sum * rsqrtf ((region.size.x : K) * (region.size.y : K)) : K) :
        WithTop K)) total

/-- A tile of a distributed frame buffer: what its owner keeps, and the error the
master has recorded. -/
structure DistributedTile (K D : Type) where
  owner : WriteMultipleTile K D
  recorded : WithTop K

/-- The master's side of a completed tile: only a finite error is recorded, and only
with a variance channel. -/
def recordError (channels : Channels) (error recorded : WithTop K) : WithTop K :=
  if channels.hasVarianceBuffer then if error < ⊤ then error else recorded else recorded

omit [Field K] in
/-- `tileError` on the master; without a variance channel there is no error region. -/
def DistributedTile.tileError (channels : Channels) (self : DistributedTile K D) : WithTop K :=
  if channels.hasVarianceBuffer then self.recorded else ⊤

/-- One frame with one instance of the tile. -/
def DistributedTile.setTile (channels : Channels) (self : DistributedTile K D) (tile : Tile K D) :
    DistributedTile K D :=
  let owner := ((self.owner.newFrame 1).process target rsqrtf channels tile).1
  { owner := owner, recorded := recordError channels owner.error self.recorded }

/-- `clear(OSP_FB_ACCUM)` on the owner and on the master. -/
def DistributedTile.clearAccum (channels : Channels) (inf : D) (self : DistributedTile K D) :
    DistributedTile K D :=
  { owner := self.owner.clearAccum channels inf
    recorded := if channels.hasAccumBuffer then ⊤ else self.recorded }

/-- Both frame buffers hold the same at one pixel, after some frames: the sums of
colors, and normals and albedos both as means of the sums and as normalized. The
variance has been restarted when there have been two frames. -/
structure Agrees (channels : Channels) (frames : Nat) (localPixel : LocalPixel K)
    (owned : OwnedPixel K D) : Prop where
  accum : channels.hasAccumBuffer = true → localPixel.accum = owned.accum.color
  variance : channels.hasVarianceBuffer = true → 2 ≤ frames →
    localPixel.variance = owned.variance.color
  normal : channels.hasNormalBuffer = true →
    localPixel.normal = (frames : K)⁻¹ • owned.accum.normal ∧
      localPixel.normal = owned.final.normal
  albedo : channels.hasAlbedoBuffer = true →
    localPixel.albedo = (frames : K)⁻¹ • owned.accum.albedo ∧
      localPixel.albedo = owned.final.albedo

omit [LinearOrder K] in
theorem hasAux_of (channels : Channels)
    (aux : channels.hasNormalBuffer = true ∨ channels.hasAlbedoBuffer = true) :
    channels.hasAux = true := by
  unfold Channels.hasAux
  rcases aux with normal | albedo
  · rw [normal, Bool.true_or]
  · rw [albedo, Bool.or_true]

omit [LinearOrder K] in
/-- The first sample makes the frame buffers agree, whatever they held before. -/
theorem agrees_first (channels : Channels) (localPixel : LocalPixel K) (owned : OwnedPixel K D)
    (sample : Pixel K D) :
    Agrees channels 1 (localPixel.accumulate channels 0 sample)
      (owned.accumulate channels 0 sample) := by
  refine ⟨?_, ?_, ?_, ?_⟩
  · intro accumulates
    cases aux : channels.hasAux <;>
      simp [LocalPixel.accumulate, OwnedPixel.accumulate, OwnedPixel.first, Pixel.withAux,
        accumulates, aux]
  · intro _ two
    omega
  · intro normals
    have aux := hasAux_of channels (.inl normals)
    simp [LocalPixel.accumulate, OwnedPixel.accumulate, OwnedPixel.first, Pixel.withAux, normals,
      aux]
  · intro albedos
    have aux := hasAux_of channels (.inr albedos)
    simp [LocalPixel.accumulate, OwnedPixel.accumulate, OwnedPixel.first, Pixel.withAux, albedos,
      aux]

omit [LinearOrder K] in
theorem mean_update [CharZero K] (frames : Nat) (some : 1 ≤ frames) (sum sample : Vec3 K) :
    (((frames : K) + 1)⁻¹ • ((frames : K) • ((frames : K)⁻¹ • sum) + sample)) =
      ((frames : K) + 1)⁻¹ • (sum + sample) := by
  have notZero : (frames : K) ≠ 0 := Nat.cast_ne_zero.mpr (by omega)
  rw [smul_smul (frames : K), mul_inv_cancel₀ notZero, one_smul]

omit [LinearOrder K] in
/-- Every further sample keeps the frame buffers in agreement. -/
theorem agrees_later [CharZero K] {channels : Channels} {frames : Nat}
    {localPixel : LocalPixel K} {owned : OwnedPixel K D}
    (agrees : Agrees channels frames localPixel owned) (some : 1 ≤ frames) (sample : Pixel K D) :
    Agrees channels (frames + 1) (localPixel.accumulate channels frames sample)
      (owned.accumulate channels frames sample) := by
  have notFirst : ¬ frames < 1 := Nat.not_lt.mpr some
  have positive : 0 < frames := some
  refine ⟨?_, ?_, ?_, ?_⟩
  · intro accumulates
    have before := agrees.accum accumulates
    cases aux : channels.hasAux <;>
      simp [LocalPixel.accumulate, OwnedPixel.accumulate, OwnedPixel.later, Pixel.add,
        Pixel.withAux, accumulates, aux, notFirst, positive, before, add_comm]
  · intro variance _
    have accumulates := channels.varianceAccumulates variance
    by_cases odd : frames % 2 = 1
    · by_cases further : 1 < frames
      · have before := agrees.variance variance further
        simp [LocalPixel.accumulate, OwnedPixel.accumulate, OwnedPixel.later, accumulates,
          variance, notFirst, odd, further, before]
      · simp [LocalPixel.accumulate, OwnedPixel.accumulate, OwnedPixel.later, accumulates,
          variance, notFirst, odd, further]
    · have before := agrees.variance variance (by omega)
      simp [LocalPixel.accumulate, OwnedPixel.accumulate, OwnedPixel.later, accumulates,
        variance, notFirst, odd, before]
  · intro normals
    have aux := hasAux_of channels (.inl normals)
    obtain ⟨before, _⟩ := agrees.normal normals
    have updated := mean_update frames some owned.accum.normal sample.normal
    cases accumulates : channels.hasAccumBuffer <;>
      simp [LocalPixel.accumulate, OwnedPixel.accumulate, OwnedPixel.later, OwnedPixel.copied,
        Pixel.add, Pixel.mean, Pixel.withAux, normals, aux, accumulates, notFirst, positive, before,
        updated, -smul_add]
  · intro albedos
    have aux := hasAux_of channels (.inr albedos)
    obtain ⟨before, _⟩ := agrees.albedo albedos
    have updated := mean_update frames some owned.accum.albedo sample.albedo
    cases accumulates : channels.hasAccumBuffer <;>
      simp [LocalPixel.accumulate, OwnedPixel.accumulate, OwnedPixel.later, OwnedPixel.copied,
        Pixel.add, Pixel.mean, Pixel.withAux, albedos, aux, accumulates, notFirst, positive, before,
        updated, -smul_add]

omit [LinearOrder K] in
/-- With an accumulation buffer, both end the frame with the same normalized color. -/
theorem colors_agree (channels : Channels) (id : Nat) {localPixel : LocalPixel K}
    {owned : OwnedPixel K D} (sample : Pixel K D)
    (agrees : Agrees channels (id + 1) (localPixel.accumulate channels id sample)
      (owned.accumulate channels id sample)) :
    (if channels.hasAccumBuffer then
        ((id : K) + 1)⁻¹ • (localPixel.accumulate channels id sample).accum
      else sample.color) = (owned.accumulate channels id sample).final.color := by
  cases accumulates : channels.hasAccumBuffer with
  | false =>
    cases aux : channels.hasAux <;> by_cases first : id < 1 <;>
      simp [OwnedPixel.accumulate, OwnedPixel.first, OwnedPixel.copied, Pixel.withAux,
        accumulates, aux, first]
  | true =>
    rw [if_pos rfl, agrees.accum accumulates]
    by_cases first : id < 1
    · have zero : id = 0 := by omega
      subst zero
      cases aux : channels.hasAux <;>
        simp [OwnedPixel.accumulate, OwnedPixel.first, Pixel.withAux, aux]
    · cases aux : channels.hasAux <;>
        simp [OwnedPixel.accumulate, OwnedPixel.later, Pixel.mean, Pixel.withAux, accumulates,
          aux, first]

/-- The error of a frame with a single instance is the kernel's. It masks the columns
beyond the region, which leaves the sum over the pixels of the region. -/
theorem singleFrame_error (channels : Channels) (owner : WriteMultipleTile K D)
    (tile fbSize : Vec2i) (samples : Nat → Nat → Pixel K D) (id : Nat) :
    let region := tileRegion target.tileSize tile fbSize
    ((owner.newFrame 1).process target rsqrtf channels
        (instanceTile target tile fbSize samples id)).1.error =
      if channels.hasVarianceBuffer && id % 2 == 1 then
        (((((chunkLanes region.size.y region.size.x).map (fun step =>
          let j := step.1 * target.tileSize + step.2
          (laterSample rsqrtf id true true (samples id j)
            (owner.accum.pixel j, owner.variance.pixel j) (owner.final.pixel j)).2.2)).sum) *
          rsqrtf ((region.size.x : K) * (region.size.y : K)) : K) : WithTop K)
      else ⊤ := by
  intro region
  have narrow : region.size.x ≤ target.tileSize := tileRegion_width target.tileSize tile fbSize
  have kernel : ((owner.newFrame 1).process target rsqrtf channels
      (instanceTile target tile fbSize samples id)).1.error =
      (accumulateTile target rsqrtf (instanceTile target tile fbSize samples id)
        ((owner.newFrame 1).toTileData.setFinalRegion
          (instanceTile target tile fbSize samples id)).final
        owner.accum owner.variance channels.hasAccumBuffer channels.hasVarianceBuffer).error := by
    have once : (owner.newFrame 1).writeOnceTile = true := rfl
    unfold WriteMultipleTile.process
    rw [if_pos once]
    unfold TileData.accumulate
    split <;> rfl
  have inPlace : (instanceTile target tile fbSize samples id).region = region := rfl
  have number : (instanceTile target tile fbSize samples id).accumID = id := rfl
  rw [kernel, accumulateTile_error, inPlace, number]
  cases sampled : channels.hasVarianceBuffer && id % 2 == 1 with
  | false => simp
  | true =>
    obtain ⟨variance, odd⟩ := Bool.and_eq_true_iff.mp sampled
    have accumulates := channels.varianceAccumulates variance
    have notFirst : ¬ id < 1 := by
      intro first
      have zero : id = 0 := by omega
      simp [zero] at odd
    have masked := sum_masked region.size.y region.size.x target.tileSize narrow (fun j =>
      (laterSample rsqrtf id true true (samples id j)
        (owner.accum.pixel j, owner.variance.pixel j) (owner.final.pixel j)).2.2)
    dsimp only
    rw [← masked]
    simp only [accumulates, notFirst, Bool.not_true, decide_false, Bool.or_self,
      Bool.false_eq_true, if_false, if_true]
    congr 3
    refine List.map_congr_left ?_
    intro j _
    simp only [accumulateSample, laterSample, notFirst, variance, odd, inColumns,
      Bool.not_true, decide_false, Bool.or_self, Bool.false_eq_true, if_false, Bool.true_and,
      decide_eq_true_eq]
    rfl

/-- The error the master records after one frame: a frame without a variance sample
leaves the recorded error alone. -/
theorem distributed_error (self : DistributedTile K D) (channels : Channels)
    (tile fbSize : Vec2i) (samples : Nat → Nat → Pixel K D) (id : Nat) :
    let region := tileRegion target.tileSize tile fbSize
    (self.setTile target rsqrtf channels
        (instanceTile target tile fbSize samples id)).tileError channels =
      if channels.hasVarianceBuffer && id % 2 == 1 then
        (((((chunkLanes region.size.y region.size.x).map (fun step =>
          let j := step.1 * target.tileSize + step.2
          (laterSample rsqrtf id true true (samples id j)
            (self.owner.accum.pixel j, self.owner.variance.pixel j)
            (self.owner.final.pixel j)).2.2)).sum) *
          rsqrtf ((region.size.x : K) * (region.size.y : K)) : K) : WithTop K)
      else self.tileError channels := by
  intro region
  have error := singleFrame_error target rsqrtf channels self.owner tile fbSize samples id
  dsimp only at error
  simp only [DistributedTile.setTile, DistributedTile.tileError, recordError, error]
  cases channels.hasVarianceBuffer with
  | false => simp
  | true =>
    cases id % 2 == 1 with
    | false => simp
    | true =>
      simp only [Bool.and_self, if_true]
      rw [if_pos (WithTop.coe_lt_top _)]

/-- The frame buffers agree on a tile after some frames. -/
structure TileAgrees (fb : LocalFrameBuffer C K D) (tile : Vec2i) (frames : Nat)
    (distributed : DistributedTile K D) : Prop where
  pixels : ∀ row < (tileRegion target.tileSize tile fb.size).size.y,
    ∀ col < (tileRegion target.tileSize tile fb.size).size.x,
    let lower := (tileRegion target.tileSize tile fb.size).lower
    Agrees fb.channels frames
      (fb.at ((lower.y + row) * fb.size.x + (lower.x + col)))
      (distributed.owner.toTileData.at (row * target.tileSize + col))
  error : fb.tileError (regionTile target fb.size (tileRegion target.tileSize tile fb.size)) =
    distributed.tileError fb.channels

theorem setTile_keeps (self : LocalFrameBuffer C K D) (tile : Tile K D) :
    (self.setTile target rsqrtf cvt tile).1.channels = self.channels ∧
      (self.setTile target rsqrtf cvt tile).1.size = self.size ∧
      (self.setTile target rsqrtf cvt tile).1.colorBufferFormat = self.colorBufferFormat := by
  obtain ⟨⟨channels, size, format⟩, _⟩ := accumulateTile_keeps target rsqrtf self tile
  have written := fun fb => writeBuffers_keeps target cvt (C := C) (K := K) (D := D) fb
    (self.accumulateTile target rsqrtf tile).2.1
  exact ⟨(written _).1.trans channels, (written _).2.1.trans size,
    (written _).2.2.1.trans format⟩

theorem tile_covers {tile fbSize : Vec2i} {row col : Nat}
    (inRows : row < (tileRegion target.tileSize tile fbSize).size.y)
    (inColumns : col < (tileRegion target.tileSize tile fbSize).size.x) :
    row * target.tileSize + col < tileArea target tile fbSize := by
  have narrow := tileRegion_width target.tileSize tile fbSize
  have next := Nat.mul_le_mul_right target.tileSize (Nat.succ_le_of_lt inRows)
  rw [Nat.succ_mul] at next
  unfold tileArea covered
  omega

/-- One frame, seen at one pixel by both frame buffers. -/
theorem frame_at (self : LocalFrameBuffer C K D) (distributed : DistributedTile K D)
    (tile : Vec2i) (samples : Nat → Nat → Pixel K D) (id : Nat) {row col : Nat}
    (inRows : row < (tileRegion target.tileSize tile self.size).size.y)
    (inColumns : col < (tileRegion target.tileSize tile self.size).size.x) :
    let lower := (tileRegion target.tileSize tile self.size).lower
    let i := (lower.y + row) * self.size.x + (lower.x + col)
    let j := row * target.tileSize + col
    let instance' := instanceTile target tile self.size samples id
    (self.setTile target rsqrtf cvt instance').1.at i =
        (self.at i).accumulate self.channels id (samples id j) ∧
      (distributed.setTile target rsqrtf self.channels instance').owner.toTileData.at j =
        (distributed.owner.toTileData.at j).accumulate self.channels id (samples id j) := by
  intro lower i j instance'
  have inside := tile_covers target inRows inColumns
  have owned := singleFrame_accumulate target rsqrtf self.channels tile self.size samples
    distributed.owner id j
  rw [if_pos inside] at owned
  exact ⟨(setTile_at target rsqrtf cvt self tile samples id inRows inColumns).1, owned⟩

/-- A pixel contributes the same to the error of every other sample. -/
theorem contributions_agree {channels : Channels} {id : Nat} (odd : id % 2 = 1)
    (variance : channels.hasVarianceBuffer = true) {localPixel : LocalPixel K}
    {owned : OwnedPixel K D} (agrees : Agrees channels id localPixel owned)
    (sample : Pixel K D) :
    (localSample rsqrtf id true (localPixel.accum, localPixel.variance) sample).2.2 =
      (laterSample rsqrtf id true true sample (owned.accum, owned.variance) owned.final).2.2 := by
  have later : 0 < id := by omega
  have accum := agrees.accum (channels.varianceAccumulates variance)
  have vari : (if 1 < id then localPixel.variance else 0) =
      if 1 < id then owned.variance.color else 0 := by
    split
    · next further => exact agrees.variance variance further
    · rfl
  simp only [localSample, laterSample, if_pos later, vari, accum, Bool.and_self, if_true,
    add_comm sample.color owned.accum.color]

/-- The errors of one frame are the same if the buffers agreed before it. -/
theorem errors_agree {self : LocalFrameBuffer C K D} {distributed : DistributedTile K D}
    {tile : Vec2i} {id : Nat} (samples : Nat → Nat → Pixel K D)
    (agrees : 0 < id → TileAgrees target self tile id distributed)
    (error : self.tileError
      (regionTile target self.size (tileRegion target.tileSize tile self.size)) =
      distributed.tileError self.channels) :
    (self.setTile target rsqrtf cvt (instanceTile target tile self.size samples id)).1.tileError
        (regionTile target self.size (tileRegion target.tileSize tile self.size)) =
      (distributed.setTile target rsqrtf self.channels
        (instanceTile target tile self.size samples id)).tileError self.channels := by
  have localError := setTile_error target rsqrtf cvt self tile samples id
  have distributedError := distributed_error target rsqrtf distributed self.channels tile self.size
    samples id
  dsimp only at localError distributedError
  rw [localError, distributedError, error]
  cases sampled : self.channels.hasVarianceBuffer && id % 2 == 1 with
  | false => rfl
  | true =>
    obtain ⟨variance, odd⟩ := Bool.and_eq_true_iff.mp sampled
    have accumulates := self.channels.varianceAccumulates variance
    have odd : id % 2 = 1 := beq_iff_eq.mp odd
    have later : 0 < id := by omega
    have contributions := fun step visited =>
      contributions_agree rsqrtf odd variance
        ((agrees later).pixels step.1 ((mem_chunkLanes _ _ step).mp visited).1 step.2
          ((mem_chunkLanes _ _ step).mp visited).2)
        (samples id (step.1 * target.tileSize + step.2))
    exact congrArg (fun sum => ((sum * rsqrtf _ : K) : WithTop K))
      (congrArg List.sum (List.map_congr_left contributions))

/-- One more frame keeps the agreement; the first one establishes it. -/
theorem frame_agrees [CharZero K] {self : LocalFrameBuffer C K D}
    {distributed : DistributedTile K D} {tile : Vec2i} {id : Nat}
    (samples : Nat → Nat → Pixel K D)
    (agrees : 0 < id → TileAgrees target self tile id distributed)
    (error : self.tileError
      (regionTile target self.size (tileRegion target.tileSize tile self.size)) =
      distributed.tileError self.channels) :
    TileAgrees target (self.setTile target rsqrtf cvt
        (instanceTile target tile self.size samples id)).1 tile (id + 1)
      (distributed.setTile target rsqrtf self.channels
        (instanceTile target tile self.size samples id)) := by
  obtain ⟨channels, size, _⟩ := setTile_keeps target rsqrtf cvt self
    (instanceTile target tile self.size samples id)
  refine ⟨?_, ?_⟩
  · rw [channels, size]
    intro row inRows col inColumns lower
    obtain ⟨localAfter, ownedAfter⟩ := frame_at target rsqrtf cvt self distributed tile samples id
      inRows inColumns
    rw [localAfter, ownedAfter]
    rcases Nat.eq_zero_or_pos id with rfl | later
    · exact agrees_first self.channels _ _ _
    · exact agrees_later ((agrees later).pixels row inRows col inColumns) later _
  · rw [channels, size]
    exact errors_agree target rsqrtf cvt samples agrees error

/-- The frames with the given samples, one after another. -/
def LocalFrameBuffer.setFrames (self : LocalFrameBuffer C K D) (tiles : List (Tile K D)) :
    LocalFrameBuffer C K D :=
  tiles.foldl (fun self tile => (self.setTile target rsqrtf cvt tile).1) self

/-- The same frames, each with a single instance of the tile. -/
def DistributedTile.setFrames (channels : Channels) (self : DistributedTile K D)
    (tiles : List (Tile K D)) : DistributedTile K D :=
  tiles.foldl (fun self tile => self.setTile target rsqrtf channels tile) self

theorem setFrames_keeps (self : LocalFrameBuffer C K D) (tiles : List (Tile K D)) :
    (self.setFrames target rsqrtf cvt tiles).channels = self.channels ∧
      (self.setFrames target rsqrtf cvt tiles).size = self.size := by
  induction tiles generalizing self with
  | nil => exact ⟨rfl, rfl⟩
  | cons tile rest inductionHypothesis =>
    obtain ⟨channels, size, _⟩ := setTile_keeps target rsqrtf cvt self tile
    obtain ⟨channelsLater, sizeLater⟩ :=
      inductionHypothesis (self.setTile target rsqrtf cvt tile).1
    exact ⟨channelsLater.trans channels, sizeLater.trans size⟩

theorem setFrames_snoc (self : LocalFrameBuffer C K D) (tiles : List (Tile K D))
    (tile : Tile K D) :
    self.setFrames target rsqrtf cvt (tiles ++ [tile]) =
      ((self.setFrames target rsqrtf cvt tiles).setTile target rsqrtf cvt tile).1 := by
  simp only [LocalFrameBuffer.setFrames, List.foldl_append, List.foldl_cons, List.foldl_nil]

theorem DistributedTile.setFrames_snoc (channels : Channels) (self : DistributedTile K D)
    (tiles : List (Tile K D)) (tile : Tile K D) :
    self.setFrames target rsqrtf channels (tiles ++ [tile]) =
      (self.setFrames target rsqrtf channels tiles).setTile target rsqrtf channels tile := by
  simp only [DistributedTile.setFrames, List.foldl_append, List.foldl_cons, List.foldl_nil]

/-- The agreement after all frames since a clear, by induction on their number. Before
the first one only the errors agree. -/
theorem frames_agree [CharZero K] (inf : D) (created : LocalFrameBuffer C K D)
    (distributed : DistributedTile K D) (tile : Vec2i) (samples : Nat → Nat → Pixel K D)
    (frames : Nat) :
    let tiles := (List.range frames).map (instanceTile target tile created.size samples)
    let self := created.clearAccum.setFrames target rsqrtf cvt tiles
    let owned := (distributed.clearAccum created.channels inf).setFrames target rsqrtf
      created.channels tiles
    (0 < frames → TileAgrees target self tile frames owned) ∧
      self.tileError (regionTile target self.size (tileRegion target.tileSize tile self.size)) =
        owned.tileError self.channels := by
  induction frames with
  | zero =>
    refine ⟨fun none => absurd none (Nat.lt_irrefl 0), ?_⟩
    have accumulates := created.channels.varianceAccumulates
    cases variance : created.channels.hasVarianceBuffer <;>
      simp [LocalFrameBuffer.setFrames, DistributedTile.setFrames, LocalFrameBuffer.tileError,
        DistributedTile.tileError, LocalFrameBuffer.clearAccum, DistributedTile.clearAccum,
        variance, accumulates]
  | succ frames inductionHypothesis =>
    obtain ⟨agrees, error⟩ := inductionHypothesis
    obtain ⟨channels, size⟩ := setFrames_keeps target rsqrtf cvt created.clearAccum
      ((List.range frames).map (instanceTile target tile created.size samples))
    simp only [List.range_succ, List.map_append, List.map_cons, List.map_nil, setFrames_snoc,
      DistributedTile.setFrames_snoc]
    generalize created.clearAccum.setFrames target rsqrtf cvt
      ((List.range frames).map (instanceTile target tile created.size samples)) = before
      at agrees error channels size ⊢
    have sameChannels : before.channels = created.channels := channels
    have sameSize : before.size = created.size := size
    rw [← sameChannels, ← sameSize] at agrees error ⊢
    have next := frame_agrees target rsqrtf cvt samples agrees error
    exact ⟨fun _ => next, by simpa only [setTile_keeps] using next.error⟩

/-- After a clear and the first frame, no variance has been sampled: the local buffer
still holds what it held before, while the owner's has been set to zero. -/
theorem firstFrame_variance (inf : D) (created : LocalFrameBuffer C K D)
    (distributed : DistributedTile K D) (tile : Vec2i) (samples : Nat → Nat → Pixel K D)
    (variance : created.channels.hasVarianceBuffer = true) {row col : Nat}
    (inRows : row < (tileRegion target.tileSize tile created.size).size.y)
    (inColumns : col < (tileRegion target.tileSize tile created.size).size.x) :
    let lower := (tileRegion target.tileSize tile created.size).lower
    let i := (lower.y + row) * created.size.x + (lower.x + col)
    let first := instanceTile target tile created.size samples 0
    (created.clearAccum.setTile target rsqrtf cvt first).1.varianceBuffer i =
        created.varianceBuffer i ∧
      (((distributed.clearAccum created.channels inf).setTile target rsqrtf created.channels
        first).owner.variance.pixel (row * target.tileSize + col)).color = 0 := by
  intro lower i first
  have accumulates := created.channels.varianceAccumulates variance
  obtain ⟨localAfter, ownedAfter⟩ := frame_at target rsqrtf cvt created.clearAccum
    (distributed.clearAccum created.channels inf) tile samples 0 inRows inColumns
  refine ⟨(congrArg LocalPixel.variance localAfter).trans ?_, ?_⟩
  · simp [LocalPixel.accumulate, LocalFrameBuffer.at, LocalFrameBuffer.clearAccum, i, lower]
  refine (congrArg (fun owned => owned.variance.color) ownedAfter).trans ?_
  simp [OwnedPixel.accumulate, OwnedPixel.first, TileData.at, DistributedTile.clearAccum,
    WriteMultipleTile.clearAccum, TileData.clearAccum, accumulates, variance]

/-- The local frame buffer and the owner of a tile accumulate to the same sums, means
and error, whatever they held before the clear. The variance is sampled from the
second frame on. -/
theorem accumulation_agrees [CharZero K] (inf : D) (created : LocalFrameBuffer C K D)
    (distributed : DistributedTile K D) (tile : Vec2i) (samples : Nat → Nat → Pixel K D)
    (earlier : Nat) :
    let channels := created.channels
    let region := tileRegion target.tileSize tile created.size
    let instances := instanceTile target tile created.size samples
    let before := created.clearAccum.setFrames target rsqrtf cvt
      ((List.range earlier).map instances)
    let last := before.setTile target rsqrtf cvt (instances earlier)
    let owned := (distributed.clearAccum channels inf).setFrames target rsqrtf channels
      ((List.range (earlier + 1)).map instances)
    (∀ row < region.size.y, ∀ col < region.size.x,
      let i := (region.lower.y + row) * created.size.x + (region.lower.x + col)
      let j := row * target.tileSize + col
      (channels.hasAccumBuffer = true →
        last.1.accumBuffer i = (owned.owner.accum.pixel j).color) ∧
      (channels.hasVarianceBuffer = true →
        if earlier = 0 then
          last.1.varianceBuffer i = created.varianceBuffer i ∧
            (owned.owner.variance.pixel j).color = 0
        else last.1.varianceBuffer i = (owned.owner.variance.pixel j).color) ∧
      (last.2.pixel j).color = (owned.owner.final.pixel j).color ∧
      (channels.hasNormalBuffer = true →
        last.1.normalBuffer i = (owned.owner.final.pixel j).normal) ∧
      (channels.hasAlbedoBuffer = true →
        last.1.albedoBuffer i = (owned.owner.final.pixel j).albedo)) ∧
    last.1.tileError (regionTile target created.size region) = owned.tileError channels := by
  intro channels region instances before last owned
  obtain ⟨sameChannels, sameSize⟩ := setFrames_keeps target rsqrtf cvt created.clearAccum
    ((List.range earlier).map instances)
  have sameChannels : before.channels = channels := sameChannels
  have sameSize : before.size = created.size := sameSize
  obtain ⟨agrees, error⟩ := frames_agree target rsqrtf cvt inf created distributed tile samples
    (earlier + 1)
  have after : created.clearAccum.setFrames target rsqrtf cvt
      ((List.range (earlier + 1)).map instances) = last.1 := by
    rw [List.range_succ, List.map_append]
    exact setFrames_snoc target rsqrtf cvt created.clearAccum _ _
  obtain ⟨lastChannels, lastSize, _⟩ := setTile_keeps target rsqrtf cvt before (instances earlier)
  have agrees := agrees (Nat.succ_pos earlier)
  rw [after] at agrees error
  have lastChannels : last.1.channels = channels := lastChannels.trans sameChannels
  have lastSize : last.1.size = created.size := lastSize.trans sameSize
  rw [lastSize, lastChannels] at error
  refine ⟨?_, error⟩
  intro row inRows col inColumns i j
  have here := agrees.pixels
  rw [lastChannels, lastSize] at here
  have here := here row inRows col inColumns
  refine ⟨here.accum, ?_, ?_, fun normals => (here.normal normals).2,
    fun albedos => (here.albedo albedos).2⟩
  · intro variance
    split
    · next first =>
      subst first
      exact firstFrame_variance target rsqrtf cvt inf created distributed tile samples variance
        inRows inColumns
    · exact here.variance variance (by omega)
  · have split : owned = ((distributed.clearAccum channels inf).setFrames target rsqrtf channels
        ((List.range earlier).map instances)).setTile target rsqrtf channels
          (instances earlier) := by
      simp only [owned, List.range_succ, List.map_append, List.map_cons, List.map_nil,
        DistributedTile.setFrames_snoc]
    have inRows : row < (tileRegion target.tileSize tile before.size).size.y := by
      rwa [sameSize]
    have inColumns : col < (tileRegion target.tileSize tile before.size).size.x := by
      rwa [sameSize]
    have color := (setTile_at target rsqrtf cvt before tile samples earlier inRows inColumns).2
    obtain ⟨localAfter, ownedAfter⟩ := frame_at target rsqrtf cvt before
      ((distributed.clearAccum channels inf).setFrames target rsqrtf channels
        ((List.range earlier).map instances)) tile samples earlier inRows inColumns
    simp only [sameSize, sameChannels] at color localAfter ownedAfter
    have ownedHere : owned.owner.toTileData.at j = _ :=
      (congrArg (fun state => state.owner.toTileData.at j) split).trans ownedAfter
    have localHere : last.1.at i = _ := localAfter
    have here : Agrees channels (earlier + 1) (last.1.at i) (owned.owner.toTileData.at j) := here
    rw [localHere, ownedHere] at here
    refine (color.trans (colors_agree channels earlier _ here)).trans ?_
    exact (congrArg (fun pixel => pixel.final.color) ownedHere).symm

/-- A frame buffer of six by five pixels whose variance has been sampled before. -/
def sampledFrameBuffer : LocalFrameBuffer (Vec4 ℚ) ℚ ℚ :=
  { colorBuffer := 0, depthBuffer := 0, normalBuffer := 0, albedoBuffer := 0
    size := ⟨6, 5⟩
    colorBufferFormat := .rgba32f
    channels := ⟨true, true, true, true, false, by decide⟩
    accumBuffer := 0, varianceBuffer := 1, tileAccumID := 0, tileErrorRegion := fun _ => ⊤ }

/-- Samples that tell frames and pixels apart. -/
def numberedSamples (id j : Nat) : Pixel ℚ ℚ := ⟨fun _ => (id + j : ℚ), 0, 0, 0⟩

/-- Its upper right tile, which is clipped to two pixels. -/
theorem accumulation_agrees_clipped :
    let target : Target := ⟨4, 2, by decide, by decide⟩
    let channels := sampledFrameBuffer.channels
    let size := sampledFrameBuffer.size
    let region := tileRegion target.tileSize ⟨1, 1⟩ size
    let instances := instanceTile target ⟨1, 1⟩ size numberedSamples
    let last := (sampledFrameBuffer.clearAccum.setFrames target id id
      ((List.range 1).map instances)).setTile target id id (instances 1)
    let owned := ((⟨createdTile, 0⟩ : DistributedTile ℚ ℚ).clearAccum channels 0).setFrames
      target id channels ((List.range (1 + 1)).map instances)
    (∀ row < region.size.y, ∀ col < region.size.x,
      let i := (region.lower.y + row) * size.x + (region.lower.x + col)
      let j := row * target.tileSize + col
      last.1.accumBuffer i = (owned.owner.accum.pixel j).color ∧
        last.1.varianceBuffer i = (owned.owner.variance.pixel j).color ∧
        (last.2.pixel j).color = (owned.owner.final.pixel j).color ∧
        last.1.normalBuffer i = (owned.owner.final.pixel j).normal) ∧
      last.1.tileError (regionTile target size region) = owned.tileError channels := by
  intro target channels size region instances last owned
  obtain ⟨pixels, error⟩ := accumulation_agrees target id id 0 sampledFrameBuffer
    ⟨createdTile, 0⟩ ⟨1, 1⟩ numberedSamples 1
  refine ⟨?_, error⟩
  intro row inRows col inColumns
  obtain ⟨accum, variance, color, normal, _⟩ := pixels row inRows col inColumns
  exact ⟨accum rfl, variance rfl, color, normal rfl⟩

/-- After its first frame the two variances differ. -/
theorem firstFrame_variance_stale :
    let target : Target := ⟨4, 2, by decide, by decide⟩
    let channels := sampledFrameBuffer.channels
    let size := sampledFrameBuffer.size
    let region := tileRegion target.tileSize ⟨1, 1⟩ size
    let first := instanceTile target ⟨1, 1⟩ size numberedSamples 0
    let owned := ((⟨createdTile, 0⟩ : DistributedTile ℚ ℚ).clearAccum channels 0).setTile target id
      channels first
    0 < region.size.y ∧ 0 < region.size.x ∧
      (sampledFrameBuffer.clearAccum.setTile target id id first).1.varianceBuffer
          ((region.lower.y + 0) * size.x + (region.lower.x + 0)) ≠
        (owned.owner.variance.pixel (0 * target.tileSize + 0)).color := by
  intro target channels size region first owned
  have inRows : 0 < region.size.y := by decide
  have inColumns : 0 < region.size.x := by decide
  refine ⟨inRows, inColumns, ?_⟩
  intro same
  obtain ⟨stale, cleared⟩ := firstFrame_variance target id id 0 sampledFrameBuffer
    ⟨createdTile, 0⟩ ⟨1, 1⟩ numberedSamples rfl inRows inColumns
  have equal : (1 : Vec4 ℚ) = 0 := stale.symm.trans (same.trans cleared)
  exact one_ne_zero (congrFun equal 0)

end Ospray
