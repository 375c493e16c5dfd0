import Mathlib
import Ospray.Library.Loops
import Ospray.Fb.Tile

/-!
# The distributed frame buffer's tile kernels

These are the kernels of `DistributedFrameBuffer.ispc`. Each is a loop over the
chunks of the tile's rows whose lanes address consecutive pixels. Arithmetic is
exact; `rsqrtf` is a parameter, and `rcpf` is the field's inverse. An infinite
error is the top element.

One kernel call visits each pixel of the covered rows once, so the results below
describe it pixel by pixel. All columns of a covered row are accumulated, also
those a clipped region leaves out; only the error estimate is masked.
-/

namespace Ospray

open Library.Loops

variable {K D : Type}

/-- What an accumulation kernel leaves behind: the three tiles it updates and
the error estimate it returns. -/
structure AccumulateResult (K D : Type) where
  final : Tile K D
  accum : Tile K D
  variance : Tile K D
  error : WithTop K

section Arithmetic

variable [Field K] [LinearOrder K]

/-- One pixel's contribution to the error estimate: the distance between the
mean of all samples and the mean of every other sample, weighted by brightness
with inverted alpha. -/
def pixelError (rsqrtf : K → K) (mean halfMean : Vec4 K) : K :=
  let den2 := mean 0 + mean 1 + mean 2 + (1 - mean 3)
  if 0 < den2 then
    (|mean 0 - halfMean 0| + |mean 1 - halfMean 1| + |mean 2 - halfMean 2| +
      |mean 3 - halfMean 3|) * rsqrtf den2
  else 0

/-- The accumulation of one sample over the accumulated pixel, the variance
pixel and the final pixel. Variance takes every other sample and restarts with
the sample whose ID is one; a pixel outside the region adds no error. -/
def laterSample (rsqrtf : K → K) (accumID : Nat) (accumulateVariance inRegion : Bool)
    (sample : Pixel K D) (buffers : Pixel K D × Pixel K D) (last : Pixel K D) :
    (Pixel K D × Pixel K D) × Pixel K D × K :=
  let acc := sample.color + buffers.1.color
  let mean := ((accumID : K) + 1)⁻¹ • acc
  let vari := (if 1 < accumID then buffers.2.color else 0) + sample.color
  let halfMean := (((accumID / 2 : Nat) : K) + 1)⁻¹ • vari
  (({ buffers.1 with color := acc },
      if accumulateVariance then { buffers.2 with color := vari } else buffers.2),
    { last with color := mean },
    if accumulateVariance && inRegion then pixelError rsqrtf mean halfMean else 0)

/-- The first sample, and every sample of a frame buffer without accumulation:
color and depth are copied. -/
def firstSample (sample : Pixel K D) (buffers : Pixel K D × Pixel K D) (last : Pixel K D) :
    (Pixel K D × Pixel K D) × Pixel K D × K :=
  (({ buffers.1 with color := sample.color, z := sample.z }, buffers.2),
    { last with color := sample.color, z := sample.z }, 0)

/-- One sample of `DFB_accumulateTile`. Without an accumulation buffer every sample
is a first one. -/
def accumulateSample (rsqrtf : K → K) (accumID : Nat)
    (hasAccumBuffer hasVarianceBuffer inRegion : Bool) (sample : Pixel K D)
    (buffers : Pixel K D × Pixel K D) (last : Pixel K D) :
    (Pixel K D × Pixel K D) × Pixel K D × K :=
  if !hasAccumBuffer || accumID < 1 then firstSample sample buffers last
  else laterSample rsqrtf accumID (hasVarianceBuffer && accumID % 2 == 1) inRegion sample
    buffers last

/-- `DFB_accumulateTile`: accumulates the colors of a tile, writes the final
normalized colors into a separate tile, and computes the error. The error is
finite exactly when the variance buffer took this sample. -/
def accumulateTile (target : Target) (rsqrtf : K → K) (tile final accum variance : Tile K D)
    (hasAccumBuffer hasVarianceBuffer : Bool) : AccumulateResult K D :=
  let size := tile.region.size
  let maxi := size.y * (target.tileSize / target.programCount)
  let index := fun step : Nat × Nat => step.1 * target.programCount + step.2
  let accumulateVariance := hasVarianceBuffer && tile.accumID % 2 == 1
  let before : Memory Nat Nat (Pixel K D × Pixel K D) (Pixel K D) K :=
    ⟨fun j => (accum.pixel j, variance.pixel j), final.pixel, 0⟩
  let body := fun (step : Nat × Nat) =>
    accumulateSample rsqrtf tile.accumID hasAccumBuffer hasVarianceBuffer
      (step.1 * target.programCount % target.tileSize + step.2 < size.x)
      (tile.pixel (index step))
  let after := sweep index index body (chunkLanes maxi target.programCount) before
  { final := { final with pixel := after.second }
    accum := { accum with pixel := fun j => (after.first j).1 }
    variance := { variance with pixel := fun j => (after.first j).2 }
    error :=
      if (!hasAccumBuffer || tile.accumID < 1) || !accumulateVariance then ⊤
      else ((after.total * rsqrtf ((size.x : K) * (size.y : K)) : K) : WithTop K) }

/-- `DFB_accumulateTileSimple`: accumulates without normalizing and without
estimating the error. The variance is not restarted here. -/
def accumulateTileSimple (target : Target) (tile accum variance : Tile K D) :
    Tile K D × Tile K D :=
  let maxi := tile.region.size.y * (target.tileSize / target.programCount)
  let index := fun step : Nat × Nat => step.1 * target.programCount + step.2
  let accumulateVariance := tile.accumID % 2 == 1
  let before : Memory Nat Nat (Pixel K D) (Pixel K D) K := ⟨accum.pixel, variance.pixel, 0⟩
  let body := fun (step : Nat × Nat) (total vari : Pixel K D) =>
    let col := (tile.pixel (index step)).color
    ({ total with color := total.color + col },
      if accumulateVariance then { vari with color := vari.color + col } else vari, (0 : K))
  let after := sweep index index body (chunkLanes maxi target.programCount) before
  ({ accum with pixel := after.first }, { variance with pixel := after.second })

/-- The auxiliary accumulation of one pixel: copied for the first sample,
otherwise summed and normalized. -/
def auxSample (accumID : Nat) (sample total last : Pixel K D) : Pixel K D × Pixel K D × K :=
  if accumID < 1 then
    ({ total with normal := sample.normal, albedo := sample.albedo },
      { last with normal := sample.normal, albedo := sample.albedo }, 0)
  else
    let normal := total.normal + sample.normal
    let albedo := total.albedo + sample.albedo
    ({ total with normal := normal, albedo := albedo },
      { last with normal := ((accumID : K) + 1)⁻¹ • normal,
                  albedo := ((accumID : K) + 1)⁻¹ • albedo }, 0)

/-- `DFB_accumulateAuxTile`: accumulates normals and albedos. The final tile
keeps them pixel by pixel, where the sums are kept component by component. -/
def accumulateAuxTile (target : Target) (tile final accum : Tile K D) : Tile K D × Tile K D :=
  let maxi := tile.region.size.y * (target.tileSize / target.programCount)
  let index := fun step : Nat × Nat => step.1 * target.programCount + step.2
  let before : Memory Nat Nat (Pixel K D) (Pixel K D) K := ⟨accum.pixel, final.pixel, 0⟩
  let body := fun step total last => auxSample tile.accumID (tile.pixel (index step)) total last
  let after := sweep index index body (chunkLanes maxi target.programCount) before
  ({ final with pixel := after.second }, { accum with pixel := after.first })

/-- `DFB_computeErrorForTile`: the error estimate of a tile whose buffers are
already accumulated. Here `accumID` is a number the caller may have lowered, and
the variance is normalized by half of the sample count. -/
def computeErrorForTile (target : Target) (rsqrtf : K → K) (size : Vec2i)
    (accum variance : Tile K D) (accumID : K) : K :=
  let maxi := size.y * (target.tileSize / target.programCount)
  let index := fun step : Nat × Nat => step.1 * target.programCount + step.2
  let errors := (chunkLanes maxi target.programCount).map (fun step =>
    let mean := (accumID + 1)⁻¹ • (accum.pixel (index step)).color
    let halfMean := ((accumID + 1) / 2)⁻¹ • (variance.pixel (index step)).color
    if step.1 * target.programCount % target.tileSize + step.2 < size.x then
      pixelError rsqrtf mean halfMean
    else 0)
  errors.sum * rsqrtf ((size.x : K) * (size.y : K))

end Arithmetic

section Blending

variable [Field K] [LT D] [DecidableLT D]

/-- One inner pass of the insertion sort: the fragment moves past its left
neighbours until it is nearer than one. The neighbours are listed from right to
left, and fragments move without their normals and albedos. -/
def siftFragment (fragment : Vec4 K × D) : List (Vec4 K × D) → List (Vec4 K × D)
  | [] => [fragment]
  | neighbour :: rest =>
    if fragment.2 < neighbour.2 then fragment :: neighbour :: rest
    else neighbour :: siftFragment fragment rest

/-- All passes of the sort. The result lists the fragments from the last tile to
the first, the nearest one foremost. -/
def sortFragments (fragments : List (Vec4 K × D)) : List (Vec4 K × D) :=
  fragments.foldl (fun sorted fragment => siftFragment fragment sorted) []

/-- Back-to-front blending of one fragment over what lies behind it. -/
def blendOver (behind front : Vec4 K) : Vec4 K :=
  fun component => front component + (1 - front 3) * behind component

/-- The blended fragment of one pixel: colors composited from the first tile to
the last, the depth of the last tile. No tile at all leaves no fragment. -/
def blendFragments (fragments : List (Vec4 K × D)) : Option (Vec4 K × D) :=
  match sortFragments fragments with
  | [] => none
  | nearest :: behind =>
    some ((nearest :: behind).reverse.foldl (fun acc fragment => blendOver acc fragment.1) 0,
      nearest.2)

/-- Pixel `j` of the tile at `position` once its fragments are sorted and, in the
first tile, blended. -/
def blendedPixel (tiles : List (Tile K D)) (position j : Nat) (old : Pixel K D) : Pixel K D :=
  let column := tiles.map (fun tile => ((tile.pixel j).color, (tile.pixel j).z))
  let fragment :=
    if position = 0 then blendFragments column else (sortFragments column).reverse[position]?
  match fragment with
  | none => old
  | some (color, z) => { old with color := color, z := z }

/-- `DFB_sortAndBlendFragments`: at every pixel the fragments of all tiles are
sorted by depth and composited into the first tile. The fragments left in the
other tiles are those of the sorted order. -/
def sortAndBlendFragments (target : Target) (tiles : List (Tile K D)) : List (Tile K D) :=
  tiles.mapIdx (fun position tile =>
    let pixel := fun j =>
      if j < target.tileSize * target.tileSize then blendedPixel tiles position j (tile.pixel j)
      else tile.pixel j
    { tile with pixel := pixel })

end Blending

theorem kernel_indices (target : Target) (rows : Nat) :
    (chunkLanes (rows * (target.tileSize / target.programCount)) target.programCount).map
      (fun step => step.1 * target.programCount + step.2) =
      List.range (rows * target.tileSize) := by
  rw [chunkLanes_index, target.row_chunks]

theorem kernel_indices_nodup (target : Target) (rows : Nat) :
    ((chunkLanes (rows * (target.tileSize / target.programCount)) target.programCount).map
      (fun step => step.1 * target.programCount + step.2)).Nodup := by
  rw [kernel_indices]
  exact List.nodup_range

theorem kernel_index_iff (target : Target) (rows j : Nat) :
    (∃ step ∈ chunkLanes (rows * (target.tileSize / target.programCount)) target.programCount,
      step.1 * target.programCount + step.2 = j) ↔ j < rows * target.tileSize := by
  rw [← List.mem_range, ← kernel_indices, List.mem_map]

/-- The column a lane computes for its mask is the pixel's column in its row. -/
theorem kernel_column (target : Target) (chunk lane : Nat) (inside : lane < target.programCount) :
    chunk * target.programCount % target.tileSize + lane =
      (chunk * target.programCount + lane) % target.tileSize := by
  obtain ⟨perRow, whole⟩ := target.programCountDivides
  have chunked : chunk * target.programCount % target.tileSize =
      target.programCount * (chunk % perRow) := by
    rw [whole, Nat.mul_comm chunk, Nat.mul_mod_mul_left]
  have inRow : chunk % perRow < perRow := by
    apply Nat.mod_lt
    rcases Nat.eq_zero_or_pos perRow with none | some
    · have positive := target.tileSizePositive
      simp [whole, none] at positive
    · exact some
  have bounded : target.programCount * (chunk % perRow) + lane < target.tileSize := by
    have next : chunk % perRow + 1 ≤ perRow := inRow
    have scaled := Nat.mul_le_mul_left target.programCount next
    rw [whole]
    rw [Nat.mul_add] at scaled
    omega
  rw [← Nat.mod_add_mod, chunked, Nat.mod_eq_of_lt bounded]

section Pixels

variable [Field K]

/-- A kernel's sweep rewrites each pixel of the covered rows from the initial
content of the arrays, and leaves every other pixel alone. -/
theorem kernel_pixel {α β : Type} (target : Target) (rows : Nat) (body : Nat × Nat → α → β → α × β × K)
    (update : Nat → α → β → α × β × K)
    (same : ∀ chunk lane, lane < target.programCount →
      body (chunk, lane) = update (chunk * target.programCount + lane))
    (memory : Memory Nat Nat α β K) (j : Nat) :
    let index := fun step : Nat × Nat => step.1 * target.programCount + step.2
    let after := sweep index index body
      (chunkLanes (rows * (target.tileSize / target.programCount)) target.programCount) memory
    (after.first j, after.second j) =
      if j < rows * target.tileSize then
        ((update j (memory.first j) (memory.second j)).1,
          (update j (memory.first j) (memory.second j)).2.1)
      else (memory.first j, memory.second j) := by
  intro index after
  have distinct := kernel_indices_nodup target rows
  by_cases covered : j < rows * target.tileSize
  · obtain ⟨⟨chunk, lane⟩, visited, rfl⟩ := (kernel_index_iff target rows j).mpr covered
    have inLane := ((mem_chunkLanes _ _ _).mp visited).2
    have result := sweep_visited index index body _ memory distinct distinct (chunk, lane) visited
    rw [same chunk lane inLane] at result
    rw [if_pos covered]
    exact Prod.ext result.1 result.2
  · have unnamed : j ∉ (chunkLanes (rows * (target.tileSize / target.programCount))
        target.programCount).map index := by
      intro named
      exact covered ((kernel_index_iff target rows j).mp (List.mem_map.mp named))
    rw [if_neg covered]
    exact Prod.ext (sweep_first_other index index body _ memory j unnamed)
      (sweep_second_other index index body _ memory j unnamed)

/-- The total of a kernel's sweep adds up the covered pixels, row by row. -/
theorem kernel_total {α β : Type} (target : Target) (rows : Nat)
    (body : Nat × Nat → α → β → α × β × K) (update : Nat → α → β → α × β × K)
    (same : ∀ chunk lane, lane < target.programCount →
      body (chunk, lane) = update (chunk * target.programCount + lane))
    (memory : Memory Nat Nat α β K) :
    let index := fun step : Nat × Nat => step.1 * target.programCount + step.2
    (sweep index index body
      (chunkLanes (rows * (target.tileSize / target.programCount)) target.programCount)
      memory).total = memory.total + ((List.range (rows * target.tileSize)).map (fun j =>
        (update j (memory.first j) (memory.second j)).2.2)).sum := by
  intro index
  have distinct := kernel_indices_nodup target rows
  rw [sweep_total index index body _ memory distinct distinct, ← kernel_indices, List.map_map]
  congr 2
  refine List.map_congr_left ?_
  rintro ⟨chunk, lane⟩ visited
  rw [same chunk lane ((mem_chunkLanes _ _ _).mp visited).2]
  rfl

end Pixels

section KernelSpecs

variable [Field K] [LinearOrder K]

/-- Whether pixel `j` of a tile lies inside a region of this width. -/
def inColumns (target : Target) (size : Vec2i) (j : Nat) : Bool :=
  j % target.tileSize < size.x

/-- Pixels of the rows of a region, across the whole width of a tile. -/
def covered (target : Target) (size : Vec2i) : Nat := size.y * target.tileSize

theorem accumulateTile_pixel (target : Target) (rsqrtf : K → K)
    (tile final accum variance : Tile K D) (hasAccumBuffer hasVarianceBuffer : Bool) (j : Nat) :
    let after := accumulateTile target rsqrtf tile final accum variance hasAccumBuffer
      hasVarianceBuffer
    let sample := accumulateSample rsqrtf tile.accumID hasAccumBuffer hasVarianceBuffer
      (inColumns target tile.region.size j) (tile.pixel j) (accum.pixel j, variance.pixel j)
      (final.pixel j)
    ((after.accum.pixel j, after.variance.pixel j), after.final.pixel j) =
      if j < covered target tile.region.size then (sample.1, sample.2.1)
      else ((accum.pixel j, variance.pixel j), final.pixel j) := by
  intro after sample
  refine (kernel_pixel target tile.region.size.y _ (fun j => accumulateSample rsqrtf tile.accumID
    hasAccumBuffer hasVarianceBuffer (inColumns target tile.region.size j) (tile.pixel j)) ?_
    ⟨fun j => (accum.pixel j, variance.pixel j), final.pixel, 0⟩ j).trans rfl
  intro chunk lane inside
  simp only [inColumns, kernel_column target chunk lane inside]

/-- The error of `DFB_accumulateTile`: finite when the variance took this sample,
and then the scaled sum of the contributions of all pixels in the region. -/
theorem accumulateTile_error (target : Target) (rsqrtf : K → K)
    (tile final accum variance : Tile K D) (hasAccumBuffer hasVarianceBuffer : Bool) :
    (accumulateTile target rsqrtf tile final accum variance hasAccumBuffer
      hasVarianceBuffer).error =
      if (!hasAccumBuffer || tile.accumID < 1) || !(hasVarianceBuffer && tile.accumID % 2 == 1) then ⊤
      else ((((List.range (covered target tile.region.size)).map (fun j =>
        (accumulateSample rsqrtf tile.accumID hasAccumBuffer hasVarianceBuffer
          (inColumns target tile.region.size j) (tile.pixel j) (accum.pixel j, variance.pixel j)
          (final.pixel j)).2.2)).sum *
        rsqrtf ((tile.region.size.x : K) * (tile.region.size.y : K)) : K) : WithTop K) := by
  have total := kernel_total target tile.region.size.y (fun step =>
      accumulateSample rsqrtf tile.accumID hasAccumBuffer hasVarianceBuffer
        (step.1 * target.programCount % target.tileSize + step.2 < tile.region.size.x)
        (tile.pixel (step.1 * target.programCount + step.2)))
    (fun j => accumulateSample rsqrtf tile.accumID hasAccumBuffer hasVarianceBuffer
      (inColumns target tile.region.size j) (tile.pixel j))
    (fun chunk lane inside => by simp only [inColumns, kernel_column target chunk lane inside])
    ⟨fun j => (accum.pixel j, variance.pixel j), final.pixel, 0⟩
  unfold accumulateTile
  simp only [total, zero_add]
  rfl

omit [LinearOrder K] in
theorem accumulateTileSimple_pixel (target : Target) (tile accum variance : Tile K D) (j : Nat) :
    let after := accumulateTileSimple target tile accum variance
    (after.1.pixel j, after.2.pixel j) =
      if j < covered target tile.region.size then
        ({ accum.pixel j with color := (accum.pixel j).color + (tile.pixel j).color },
          if tile.accumID % 2 == 1 then
            { variance.pixel j with color := (variance.pixel j).color + (tile.pixel j).color }
          else variance.pixel j)
      else (accum.pixel j, variance.pixel j) := by
  intro after
  exact (kernel_pixel target tile.region.size.y _ (fun j total vari =>
    ({ total with color := total.color + (tile.pixel j).color },
      if tile.accumID % 2 == 1 then { vari with color := vari.color + (tile.pixel j).color }
      else vari, (0 : K))) (fun _ _ _ => rfl) ⟨accum.pixel, variance.pixel, 0⟩ j).trans rfl

omit [LinearOrder K] in
theorem accumulateAuxTile_pixel (target : Target) (tile final accum : Tile K D) (j : Nat) :
    let after := accumulateAuxTile target tile final accum
    let sample := auxSample tile.accumID (tile.pixel j) (accum.pixel j) (final.pixel j)
    (after.2.pixel j, after.1.pixel j) =
      if j < covered target tile.region.size then (sample.1, sample.2.1)
      else (accum.pixel j, final.pixel j) := by
  intro after sample
  exact (kernel_pixel target tile.region.size.y _ (fun j => auxSample tile.accumID (tile.pixel j))
    (fun _ _ _ => rfl) ⟨accum.pixel, final.pixel, 0⟩ j).trans rfl

end KernelSpecs

end Ospray
