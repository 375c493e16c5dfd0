import Mathlib
import Ospray.Fb.TileKernels

/-!
# The data of an owned tile

The owner of a tile keeps its accumulation and variance buffers and the final,
normalized pixels that pixel operations and the master see. All kinds of tiles
accumulate in the same way once their input is complete.
-/

namespace Ospray

variable {K D : Type}

/-- `TileData`: what a rank keeps of a tile it owns. -/
structure TileData (K D : Type) where
  error : WithTop K
  accum : Tile K D
  variance : Tile K D
  final : Tile K D

section Accumulation

variable [Field K] [LinearOrder K]

/-- `TileData::accumulate`: accumulate, compute the final normalized colors, and
compute the error. Normals and albedos follow when one of them is present. -/
def TileData.accumulate (target : Target) (rsqrtf : K → K) (channels : Channels)
    (self : TileData K D) (tile : Tile K D) : TileData K D :=
  let colors := accumulateTile target rsqrtf tile self.final self.accum self.variance
    channels.hasAccumBuffer channels.hasVarianceBuffer
  if channels.hasAux then
    let aux := accumulateAuxTile target tile colors.final colors.accum
    { error := colors.error, accum := aux.2, variance := colors.variance, final := aux.1 }
  else
    { error := colors.error, accum := colors.accum, variance := colors.variance,
      final := colors.final }

/-- The assignments to `final` before a tile's pixels are accumulated into it. -/
def TileData.setFinalRegion (self : TileData K D) (tile : Tile K D) : TileData K D :=
  { self with final :=
      { self.final with region := tile.region, fbSize := tile.fbSize, rcpFbSize := tile.rcpFbSize } }

/-- `clear(OSP_FB_ACCUM)` of an owned tile: the accumulated colors and depths, and
the variance with them. Depths are cleared to `inf`. -/
def TileData.clearAccum (channels : Channels) (inf : D) (self : TileData K D) : TileData K D :=
  if channels.hasAccumBuffer then
    { self with
      accum := { self.accum with pixel := fun j =>
        { self.accum.pixel j with color := 0, z := inf } }
      variance :=
        if channels.hasVarianceBuffer then
          { self.variance with pixel := fun j => { self.variance.pixel j with color := 0 } }
        else self.variance }
  else self

/-- What the three tiles of an owned tile hold at one pixel. -/
structure OwnedPixel (K D : Type) where
  accum : Pixel K D
  variance : Pixel K D
  final : Pixel K D

/-- One pixel of an owned tile. -/
def TileData.at (self : TileData K D) (j : Nat) : OwnedPixel K D :=
  ⟨self.accum.pixel j, self.variance.pixel j, self.final.pixel j⟩

/-- A pixel takes over the normal and albedo of another one, if they are kept. -/
def Pixel.withAux (self : Pixel K D) (hasAux : Bool) (normal albedo : Vec3 K) : Pixel K D :=
  if hasAux then { self with normal := normal, albedo := albedo } else self

/-- The first sample of a pixel since the last clear. -/
def OwnedPixel.first (hasAux : Bool) (sample : Pixel K D) (self : OwnedPixel K D) :
    OwnedPixel K D :=
  { self with
    accum := { self.accum with color := sample.color, z := sample.z }.withAux hasAux
      sample.normal sample.albedo
    final := { self.final with color := sample.color, z := sample.z }.withAux hasAux
      sample.normal sample.albedo }

/-- The sums of a pixel after a further sample. -/
def Pixel.add (self : Pixel K D) (hasAux : Bool) (sample : Pixel K D) : Pixel K D :=
  { self with color := sample.color + self.color }.withAux hasAux
    (self.normal + sample.normal) (self.albedo + sample.albedo)

/-- The means of a pixel of which `count` samples have been summed up. -/
def Pixel.mean (self : Pixel K D) (hasAux : Bool) (count : K) (sums : Pixel K D) : Pixel K D :=
  { self with color := count⁻¹ • sums.color }.withAux hasAux
    (count⁻¹ • sums.normal) (count⁻¹ • sums.albedo)

/-- A further sample of a pixel. -/
def OwnedPixel.later (channels : Channels) (accumID : Nat) (sample : Pixel K D)
    (self : OwnedPixel K D) : OwnedPixel K D :=
  { accum := self.accum.add channels.hasAux sample
    variance :=
      if channels.hasVarianceBuffer && accumID % 2 == 1 then
        { self.variance with
          color := (if 1 < accumID then self.variance.color else 0) + sample.color }
      else self.variance
    final := self.final.mean channels.hasAux ((accumID : K) + 1)
      (self.accum.add channels.hasAux sample) }

/-- A further sample of a pixel without an accumulation buffer: colors and depths
are copied, while normals and albedos are still summed up. -/
def OwnedPixel.copied (hasAux : Bool) (accumID : Nat) (sample : Pixel K D)
    (self : OwnedPixel K D) : OwnedPixel K D :=
  { self with
    accum := { self.accum with color := sample.color, z := sample.z }.withAux hasAux
      (self.accum.normal + sample.normal) (self.accum.albedo + sample.albedo)
    final := { self.final with color := sample.color, z := sample.z }.withAux hasAux
      (((accumID : K) + 1)⁻¹ • (self.accum.normal + sample.normal))
      (((accumID : K) + 1)⁻¹ • (self.accum.albedo + sample.albedo)) }

/-- One sample of a pixel, whichever it is. -/
def OwnedPixel.accumulate (channels : Channels) (accumID : Nat) (sample : Pixel K D)
    (self : OwnedPixel K D) : OwnedPixel K D :=
  if accumID < 1 then self.first channels.hasAux sample
  else if channels.hasAccumBuffer then self.later channels accumID sample
  else self.copied channels.hasAux accumID sample

omit [LinearOrder K] in
/-- With an accumulation buffer, a pixel holds the sum and the mean of its colors. The
first sample starts the sum. -/
theorem accumulate_colors (channels : Channels) (accumulates : channels.hasAccumBuffer = true)
    (accumID : Nat) (sample : Pixel K D) (self : OwnedPixel K D) :
    let sum := (if 0 < accumID then self.accum.color else 0) + sample.color
    (self.accumulate channels accumID sample).accum.color = sum ∧
      (self.accumulate channels accumID sample).final.color = ((accumID : K) + 1)⁻¹ • sum := by
  rcases Nat.eq_zero_or_pos accumID with rfl | later
  · cases aux : channels.hasAux <;>
      simp [OwnedPixel.accumulate, OwnedPixel.first, Pixel.withAux, aux]
  · have notFirst : ¬ accumID < 1 := Nat.not_lt.mpr later
    cases aux : channels.hasAux <;>
      simp [OwnedPixel.accumulate, OwnedPixel.later, Pixel.add, Pixel.mean, Pixel.withAux, aux,
        accumulates, notFirst, later, add_comm]

/-- Accumulating a tile, seen at one pixel: the covered pixels take a sample each,
and the others are left alone. The two kernels are put together case by case. -/
theorem accumulate_at (target : Target) (rsqrtf : K → K) (channels : Channels)
    (self : TileData K D) (tile : Tile K D) (j : Nat) :
    (self.accumulate target rsqrtf channels tile).at j =
      if j < covered target tile.region.size then
        (self.at j).accumulate channels tile.accumID (tile.pixel j)
      else self.at j := by
  have colors := accumulateTile_pixel target rsqrtf tile self.final self.accum self.variance
    channels.hasAccumBuffer channels.hasVarianceBuffer j
  have aux := accumulateAuxTile_pixel target tile
    (accumulateTile target rsqrtf tile self.final self.accum self.variance
      channels.hasAccumBuffer channels.hasVarianceBuffer).final
    (accumulateTile target rsqrtf tile self.final self.accum self.variance
      channels.hasAccumBuffer channels.hasVarianceBuffer).accum j
  unfold TileData.accumulate TileData.at OwnedPixel.accumulate OwnedPixel.first OwnedPixel.later
    OwnedPixel.copied Pixel.add Pixel.mean Pixel.withAux
  by_cases inRows : j < covered target tile.region.size
  · by_cases first : tile.accumID < 1
    · simp only [accumulateSample, first, decide_true, Bool.or_true, if_true, firstSample,
        auxSample, if_pos inRows, Prod.mk.injEq] at colors aux ⊢
      obtain ⟨⟨accum, variance⟩, final⟩ := colors
      cases channels.hasAux with
      | false => simp only [Bool.false_eq_true, if_false, accum, variance, final]
      | true => simp only [if_true, aux.1, aux.2, accum, variance, final]
    · cases accumulates : channels.hasAccumBuffer with
      | true =>
        simp only [accumulateSample, first, accumulates, decide_false, Bool.not_true, Bool.or_self,
          Bool.false_eq_true, if_false, if_true, laterSample, auxSample, if_pos inRows,
          Prod.mk.injEq] at colors aux ⊢
        obtain ⟨⟨accum, variance⟩, final⟩ := colors
        cases channels.hasAux with
        | false => simp only [Bool.false_eq_true, if_false, accum, variance, final]
        | true => simp only [if_true, aux.1, aux.2, accum, variance, final]
      | false =>
        simp only [accumulateSample, first, accumulates, Bool.not_false, Bool.true_or, if_true,
          Bool.false_eq_true, firstSample, auxSample, if_false, if_pos inRows,
          Prod.mk.injEq] at colors aux ⊢
        obtain ⟨⟨accum, variance⟩, final⟩ := colors
        cases channels.hasAux with
        | false => simp only [Bool.false_eq_true, if_false, accum, variance, final]
        | true => simp only [if_true, aux.1, aux.2, accum, variance, final]
  · simp only [if_neg inRows, Prod.mk.injEq] at colors aux ⊢
    obtain ⟨⟨accum, variance⟩, final⟩ := colors
    cases channels.hasAux with
    | false => simp only [Bool.false_eq_true, if_false, accum, variance, final]
    | true => simp only [if_true, aux.1, aux.2, accum, variance, final]

theorem accumulate_first (target : Target) (rsqrtf : K → K) (channels : Channels)
    (self : TileData K D) (tile : Tile K D) (first : tile.accumID = 0) (j : Nat) :
    (self.accumulate target rsqrtf channels tile).at j =
      if j < covered target tile.region.size then
        (self.at j).first channels.hasAux (tile.pixel j)
      else self.at j := by
  rw [accumulate_at, first]
  rfl

theorem accumulate_later (target : Target) (rsqrtf : K → K) (channels : Channels)
    (accumulates : channels.hasAccumBuffer = true) (self : TileData K D) (tile : Tile K D)
    (later : 0 < tile.accumID) (j : Nat) :
    (self.accumulate target rsqrtf channels tile).at j =
      if j < covered target tile.region.size then
        (self.at j).later channels tile.accumID (tile.pixel j)
      else self.at j := by
  have notFirst : ¬ tile.accumID < 1 := Nat.not_lt.mpr later
  rw [accumulate_at]
  simp only [OwnedPixel.accumulate, notFirst, accumulates, if_false, if_true]

end Accumulation

end Ospray
