import Mathlib.Algebra.Group.Pi.Basic
import Mathlib.Data.Fin.VecNotation
import Mathlib.Order.Lattice
import Ospray.Fb.TileGrid
import Ospray.Library.Loops
import Ospray.Library.Strides
import Ospray.Render.ZOrder

/-!
# Rendering the pixels of a tile

The jobs of a tile take `RENDERTILE_PIXELS_PER_JOB` places each of the z-order. A job renders
the pixels at its places that lie in the image, and stores them in the tile. In the default
renderer the lanes of a SIMD program share the counter of the loop, in the path tracer each lane
has its own. What camera and renderer return for a sample is left open.
-/

namespace Ospray.RenderTile

open Library.Strides

variable {K D : Type}

/-- What the build fixes, by the rule of its options. The tile has arrays with an entry for each
pixel, whose size is a constant of type `int`. -/
structure TileBuild extends Target where
  exponent : Nat
  powerOfTwo : tileSize = 2 ^ exponent
  pixelsPerJob : Nat
  pixelsPerJobPositive : 0 < pixelsPerJob
  multipleOfWidth : programCount ∣ pixelsPerJob
  atMostTileSize : pixelsPerJob ≤ tileSize
  arraySize : tileSize * tileSize < 2 ^ 31

/-- `TiledLoadBalancer::numJobs`. -/
def numJobs (build : TileBuild) (spp accumID : Int) : Nat :=
  let blocks := if accumID > 0 ∨ spp > 0 then 1
    else min (2 ^ (-2 * spp).toNat) (build.tileSize * build.tileSize)
  divRoundUp (build.tileSize * build.tileSize / build.pixelsPerJob) blocks

/-- `sampleID` of a `ScreenSample`: the pixel and the number of the sample. -/
structure SampleID where
  x : Nat
  y : Nat
  z : BitVec 32
deriving DecidableEq

/-- The values that `renderSample` returns in a `ScreenSample`. -/
structure ScreenSample (K D : Type) where
  rgb : Vec3 K
  alpha : K
  z : D
  normal : Vec3 K
  albedo : Vec3 K

/-- A tile, with the samples that have been rendered for it and the entries written, each with the pixel it is for. -/
structure Rendering (K D : Type) where
  samples : List SampleID
  writes : List (Vec2i × Nat)
  pixel : Nat → Pixel K D

/-- The entry of the tile that holds the values. -/
def ScreenSample.toPixel (screenSample : ScreenSample K D) : Pixel K D :=
  { color := ![screenSample.rgb 0, screenSample.rgb 1, screenSample.rgb 2, screenSample.alpha]
    z := screenSample.z
    normal := screenSample.normal
    albedo := screenSample.albedo }

/-- `setTile`. -/
def setTile (tile : Nat → Pixel K D) (pixel : Nat) (screenSample : ScreenSample K D) : Nat → Pixel K D :=
  Function.update tile pixel screenSample.toPixel

/-- The body of the loops, for one lane: `ids` are the samples of a pixel, `screenSample` is what they add up to. -/
def renderPixel (build : TileBuild) (fbSize lower : Vec2i) (ids : Nat → Nat → List SampleID)
    (screenSample : List SampleID → ScreenSample K D) (tile : Rendering K D) (index : Nat) : Rendering K D :=
  let ix := lower.x + zOrderXs index
  let iy := lower.y + zOrderYs index
  if ix ≥ fbSize.x ∨ iy ≥ fbSize.y then tile
  else
    let pixel := zOrderXs index + zOrderYs index * build.tileSize
    { samples := tile.samples ++ ids ix iy
      writes := tile.writes ++ [(⟨ix, iy⟩, pixel)]
      pixel := setTile tile.pixel pixel (screenSample (ids ix iy)) }

section Renderers

variable [Field K]

/-- The samples of a pixel, numbered from the given one on. -/
def sampleIDs (spp : Int) (startSampleID : BitVec 32) (ix iy : Nat) : List SampleID :=
  (List.range spp.toNat).map fun s => ⟨ix, iy, startSampleID + BitVec.ofNat 32 s⟩

/-- The sum of samples is divided by their number. -/
def scale (rspp : K) (screenSample : ScreenSample K D) : ScreenSample K D :=
  { screenSample with
    rgb := fun c => screenSample.rgb c * rspp
    alpha := screenSample.alpha * rspp
    normal := fun c => screenSample.normal c * rspp
    albedo := fun c => screenSample.albedo c * rspp }

/-- A sample that is not rendered yet. -/
def clear (inf : D) : ScreenSample K D :=
  { rgb := 0, alpha := 0, z := inf, normal := 0, albedo := 0 }

/-- How the default renderer adds a sample: the depth is that of the last one. -/
def add (sum screenSample : ScreenSample K D) : ScreenSample K D :=
  { rgb := sum.rgb + screenSample.rgb
    alpha := sum.alpha + screenSample.alpha
    z := screenSample.z
    normal := sum.normal + screenSample.normal
    albedo := sum.albedo + screenSample.albedo }

/-- What the default renderer makes of the samples of a pixel. -/
def defaultScreenSample (inf : D) (spp : Int) (renderSample : SampleID → ScreenSample K D) (ids : List SampleID) :
    ScreenSample K D :=
  scale ((spp : K)⁻¹) ((ids.map renderSample).foldl add (clear inf))

/-- The samples that the default renderer takes of a pixel. -/
def defaultIDs (spp accumID : Int) : Nat → Nat → List SampleID :=
  sampleIDs spp (BitVec.ofInt 32 (max accumID 0 * spp))

/-- `Renderer_default_renderTile`. -/
def defaultRenderTile (build : TileBuild) (fbSize lower : Vec2i) (inf : D) (spp accumID : Int)
    (renderSample : SampleID → ScreenSample K D) (tile : Rendering K D) (taskIndex : Nat) : Rendering K D :=
  let first := taskIndex * build.pixelsPerJob
  let stop := first + build.pixelsPerJob
  (chunked first stop build.programCount).foldl
    (renderPixel build fbSize lower (defaultIDs spp accumID) (defaultScreenSample inf spp renderSample)) tile

/-- How the path tracer adds a sample: the radiance is limited, the depth is the least one. -/
def addLimited [Min K] [Min D] (maxRadiance : K) (sum screenSample : ScreenSample K D) : ScreenSample K D :=
  { rgb := sum.rgb + fun c => min (screenSample.rgb c) maxRadiance
    alpha := sum.alpha + screenSample.alpha
    z := min sum.z screenSample.z
    normal := sum.normal + screenSample.normal
    albedo := sum.albedo + screenSample.albedo }

/-- What `PathTracer_renderPixel` makes of the samples of a pixel. -/
def pathTracerScreenSample [Min K] [Min D] (inf : D) (maxRadiance : K) (spp : Int)
    (renderSample : SampleID → ScreenSample K D) (ids : List SampleID) : ScreenSample K D :=
  scale (((max 1 spp : Int) : K)⁻¹) ((ids.map renderSample).foldl (addLimited maxRadiance) (clear inf))

/-- The samples that `PathTracer_renderPixel` takes of a pixel. -/
def pathTracerIDs (spp accumID : Int) : Nat → Nat → List SampleID :=
  sampleIDs (max 1 spp) (BitVec.ofInt 32 (accumID * max 1 spp))

/-- `PathTracer_renderTileJob`. -/
def pathTracerRenderTileJob [Min K] [Min D] (build : TileBuild) (fbSize lower : Vec2i) (inf : D) (maxRadiance : K)
    (spp accumID : Int) (renderSample : SampleID → ScreenSample K D) (tile : Rendering K D) (taskIndex : Nat) :
    Rendering K D :=
  let first := taskIndex * build.pixelsPerJob
  let stop := min (first + build.pixelsPerJob) (build.tileSize * build.tileSize)
  (interleaved first stop build.programCount).foldl (renderPixel build fbSize lower (pathTracerIDs spp accumID)
    (pathTracerScreenSample inf maxRadiance spp renderSample)) tile

end Renderers

/-- The pixel at a place of the z-order. -/
def pixelAt (lower : Vec2i) (index : Nat) : Vec2i :=
  ⟨lower.x + zOrderXs index, lower.y + zOrderYs index⟩

/-- The image has the pixel. -/
def InImage (fbSize pixel : Vec2i) : Prop :=
  pixel.x < fbSize.x ∧ pixel.y < fbSize.y

instance (fbSize pixel : Vec2i) : Decidable (InImage fbSize pixel) :=
  inferInstanceAs (Decidable (_ ∧ _))

/-- Every pixel of the tile that lies in the image is rendered once for each of its samples. Its entry is written,
with what the samples add up to, and no other entry is. -/
structure RendersOnce (build : TileBuild) (tile fbSize : Vec2i) (spp : Int) (startSampleID : BitVec 32)
    (screenSample : List SampleID → ScreenSample K D) (before : Nat → Pixel K D) (after : Rendering K D) : Prop where
  once : ∀ pixel, (tileRegion build.tileSize tile fbSize).Contains pixel → ∀ s < spp.toNat,
    after.samples.count ⟨pixel.x, pixel.y, startSampleID + BitVec.ofNat 32 s⟩ = 1
  own : ∀ write ∈ after.writes, (tileRegion build.tileSize tile fbSize).Contains write.1 ∧
    write.2 = tilePixel build.tileSize write.1
  entries : ∀ pixel, (tileRegion build.tileSize tile fbSize).Contains pixel →
    after.pixel (tilePixel build.tileSize pixel) = (screenSample (sampleIDs spp startSampleID pixel.x pixel.y)).toPixel
  others : ∀ entry, (∀ pixel, (tileRegion build.tileSize tile fbSize).Contains pixel →
    tilePixel build.tileSize pixel ≠ entry) → after.pixel entry = before entry

variable {build : TileBuild} {tile fbSize lower : Vec2i} {index other : Nat}

theorem TileBuild.places (build : TileBuild) : build.tileSize * build.tileSize = 2 ^ (2 * build.exponent) := by
  rw [build.powerOfTwo, ← Nat.pow_add, Nat.two_mul]

theorem splits_of_lt (build : TileBuild) (inside : index < build.tileSize * build.tileSize) :
    Library.SplitBits.Splits index (zOrderXs index) (zOrderYs index) :=
  zOrder_splits (inside.trans (build.arraySize.trans (by decide)))

theorem zOrder_lt (inside : index < build.tileSize * build.tileSize) :
    zOrderXs index < build.tileSize ∧ zOrderYs index < build.tileSize := by
  have split := splits_of_lt build inside
  rw [build.places] at inside
  rw [build.powerOfTwo]
  exact split.lt inside

theorem pixelAt_injective (inside : index < build.tileSize * build.tileSize)
    (inside' : other < build.tileSize * build.tileSize) (columns : (pixelAt lower index).x = (pixelAt lower other).x)
    (rows : (pixelAt lower index).y = (pixelAt lower other).y) : index = other := by
  have split := splits_of_lt build inside
  rw [Nat.add_left_cancel columns, Nat.add_left_cancel rows] at split
  exact split.unique (splits_of_lt build inside')

theorem exists_pixelAt {pixel : Vec2i} (contains : (tileRegion build.tileSize tile fbSize).Contains pixel) :
    ∃ index < build.tileSize * build.tileSize,
      pixelAt (tileRegion build.tileSize tile fbSize).lower index = pixel := by
  obtain ⟨⟨left, right⟩, below, above⟩ := contains
  dsimp only [tileRegion] at left right below above
  have column : pixel.x - tile.x * build.tileSize < 2 ^ build.exponent := by rw [← build.powerOfTwo]; omega
  have row : pixel.y - tile.y * build.tileSize < 2 ^ build.exponent := by rw [← build.powerOfTwo]; omega
  obtain ⟨index, inside, columns, rows⟩ := Library.SplitBits.exists_of_splits
    (fun number short => splits_of_lt build (build.places ▸ short)) column row
  refine ⟨index, build.places ▸ inside, ?_⟩
  rw [pixelAt, columns, rows]
  dsimp only [tileRegion]
  rw [Nat.add_sub_cancel' left, Nat.add_sub_cancel' below]

theorem contains_pixelAt (inside : index < build.tileSize * build.tileSize) :
    (tileRegion build.tileSize tile fbSize).Contains (pixelAt (tileRegion build.tileSize tile fbSize).lower index) ↔
      InImage fbSize (pixelAt (tileRegion build.tileSize tile fbSize).lower index) := by
  obtain ⟨column, row⟩ := zOrder_lt inside
  simp only [Region.Contains, InImage, tileRegion, pixelAt]
  omega

theorem tilePixel_pixelAt (inside : index < build.tileSize * build.tileSize) :
    tilePixel build.tileSize (pixelAt (tileRegion build.tileSize tile fbSize).lower index) =
      zOrderXs index + zOrderYs index * build.tileSize := by
  obtain ⟨column, row⟩ := zOrder_lt inside
  simp only [tilePixel, pixelAt, tileRegion]
  rw [Nat.add_comm, Nat.mul_add_mod', Nat.mul_add_mod', Nat.mod_eq_of_lt column, Nat.mod_eq_of_lt row, Nat.add_comm]

theorem entry_injective (inside : index < build.tileSize * build.tileSize)
    (inside' : other < build.tileSize * build.tileSize) (same : zOrderXs index + zOrderYs index * build.tileSize =
      zOrderXs other + zOrderYs other * build.tileSize) : index = other := by
  rw [Nat.add_comm, Nat.add_comm (zOrderXs other)] at same
  obtain ⟨rows, columns⟩ := Library.Loops.stride_injective (zOrder_lt inside).1 (zOrder_lt inside').1 same
  have split := splits_of_lt build inside
  rw [columns, rows] at split
  exact split.unique (splits_of_lt build inside')

section Places

variable {spp : Int} {startSampleID : BitVec 32} {ids : Nat → Nat → List SampleID}
  {screenSample : List SampleID → ScreenSample K D} {before : Nat → Pixel K D} {indices : List Nat} {bound : Nat}

theorem renderPixel_eq (rendering : Rendering K D) : renderPixel build fbSize lower ids screenSample rendering index =
    if InImage fbSize (pixelAt lower index) then
      { samples := rendering.samples ++ ids (pixelAt lower index).x (pixelAt lower index).y
        writes := rendering.writes ++ [(pixelAt lower index, zOrderXs index + zOrderYs index * build.tileSize)]
        pixel := setTile rendering.pixel (zOrderXs index + zOrderYs index * build.tileSize)
          (screenSample (ids (pixelAt lower index).x (pixelAt lower index).y)) }
    else rendering := by
  by_cases image : InImage fbSize (pixelAt lower index)
  · rw [if_pos image]
    exact if_neg (not_or.mpr ⟨Nat.not_le.mpr image.1, Nat.not_le.mpr image.2⟩)
  · rw [if_neg image]
    refine if_pos ?_
    rw [ge_iff_le, ge_iff_le, ← Nat.not_lt, ← Nat.not_lt, ← not_and_or]
    exact image

/-- The places whose pixels are rendered. -/
def visible (fbSize lower : Vec2i) (indices : List Nat) : List Nat :=
  indices.filter fun index => InImage fbSize (pixelAt lower index)

/-- The samples that are rendered and the entries that are written are those of the pixels at the places. -/
theorem foldl_renderPixel (build : TileBuild) (fbSize lower : Vec2i) (ids : Nat → Nat → List SampleID)
    (screenSample : List SampleID → ScreenSample K D) (indices : List Nat) (rendering : Rendering K D) :
    let after := indices.foldl (renderPixel build fbSize lower ids screenSample) rendering
    after.samples = rendering.samples ++ (visible fbSize lower indices).flatMap
        (fun index => ids (pixelAt lower index).x (pixelAt lower index).y) ∧
      after.writes = rendering.writes ++ (visible fbSize lower indices).map
        fun index => (pixelAt lower index, zOrderXs index + zOrderYs index * build.tileSize) := by
  induction indices generalizing rendering with
  | nil => simp [visible]
  | cons index rest inductionHypothesis =>
    obtain ⟨samples, writes⟩ := inductionHypothesis (renderPixel build fbSize lower ids screenSample rendering index)
    rw [List.foldl_cons]
    dsimp only at samples writes ⊢
    rw [samples, writes, renderPixel_eq]
    by_cases image : InImage fbSize (pixelAt lower index)
    · simp [visible, image]
    · simp [visible, image]

/-- A place that is visited has its entry written. -/
theorem foldl_renderPixel_entry (distinct : indices.Nodup)
    (places : ∀ index ∈ indices, index < build.tileSize * build.tileSize) (visited : index ∈ indices)
    (image : InImage fbSize (pixelAt lower index)) (rendering : Rendering K D) :
    (indices.foldl (renderPixel build fbSize lower ids screenSample) rendering).pixel
        (zOrderXs index + zOrderYs index * build.tileSize) =
      (screenSample (ids (pixelAt lower index).x (pixelAt lower index).y)).toPixel := by
  refine Library.Loops.foldl_once (renderPixel build fbSize lower ids screenSample)
    (fun rendering => rendering.pixel (zOrderXs index + zOrderYs index * build.tileSize)) (fun _ => True)
    (fun _ => (screenSample (ids (pixelAt lower index).x (pixelAt lower index).y)).toPixel) index distinct visited
    (fun _ _ _ _ => trivial) ?_ ?_ trivial
  · intro rendering other visited' apart _
    rw [renderPixel_eq]
    split_ifs
    · refine Function.update_of_ne (fun same => apart ?_) ..
      exact (entry_injective (places index visited) (places other visited') same).symm
    · rfl
  · intro rendering _
    rw [renderPixel_eq, if_pos image]
    exact Function.update_self ..

theorem foldl_renderPixel_others {entry : Nat} (apart : ∀ index ∈ indices, InImage fbSize (pixelAt lower index) →
      zOrderXs index + zOrderYs index * build.tileSize ≠ entry) (rendering : Rendering K D) :
    (indices.foldl (renderPixel build fbSize lower ids screenSample) rendering).pixel entry =
      rendering.pixel entry := by
  refine Library.Loops.foldl_never (renderPixel build fbSize lower ids screenSample)
    (fun rendering => rendering.pixel entry) (fun _ => True) indices (fun _ _ _ _ => trivial) ?_ trivial
  intro rendering index visited _
  rw [renderPixel_eq]
  split_ifs with image
  · exact Function.update_of_ne (apart index visited image).symm ..
  · rfl

theorem sampleIDs_nodup (fits : spp < 2 ^ 31) (ix iy : Nat) : (sampleIDs spp startSampleID ix iy).Nodup := by
  refine List.nodup_range.map_on fun s inside s' inside' same => ?_
  have numbers := (BitVec.add_right_inj startSampleID).mp (SampleID.mk.inj same).2.2
  have less := List.mem_range.mp inside
  have less' := List.mem_range.mp inside'
  have equal := congrArg BitVec.toNat numbers
  rw [BitVec.toNat_ofNat, BitVec.toNat_ofNat, Nat.mod_eq_of_lt (by omega), Nat.mod_eq_of_lt (by omega)] at equal
  exact equal

theorem flatMap_sampleIDs_nodup (fits : spp < 2 ^ 31) (distinct : indices.Nodup)
    (places : ∀ index ∈ indices, index < build.tileSize * build.tileSize) :
    (indices.flatMap fun index =>
      sampleIDs spp startSampleID (pixelAt lower index).x (pixelAt lower index).y).Nodup := by
  refine List.nodup_flatMap.mpr ⟨fun index _ => sampleIDs_nodup fits _ _, ?_⟩
  refine distinct.imp_of_mem fun {index other} visited visited' apart => ?_
  intro id here there
  obtain ⟨s, -, rfl⟩ := List.mem_map.mp here
  obtain ⟨s', -, same⟩ := List.mem_map.mp there
  obtain ⟨columns, rows, -⟩ := SampleID.mk.inj same
  exact apart (pixelAt_injective (places index visited) (places other visited')
    columns.symm rows.symm)

/-- Visiting the first places of the z-order renders the tile if the image has no pixels at the other places. -/
theorem rendersOnce_iff (positive : 1 ≤ spp) (fits : spp < 2 ^ 31) (distinct : indices.Nodup)
    (first : ∀ index, index ∈ indices ↔ index < bound) (places : bound ≤ build.tileSize * build.tileSize) :
    RendersOnce build tile fbSize spp startSampleID screenSample before
        (indices.foldl (renderPixel build fbSize (tileRegion build.tileSize tile fbSize).lower
          (sampleIDs spp startSampleID) screenSample) ⟨[], [], before⟩) ↔
      ∀ index, bound ≤ index → index < build.tileSize * build.tileSize →
        ¬InImage fbSize (pixelAt (tileRegion build.tileSize tile fbSize).lower index) := by
  have inTile : ∀ index ∈ indices, index < build.tileSize * build.tileSize := fun index visited =>
    ((first index).mp visited).trans_le places
  obtain ⟨samples, writes⟩ := foldl_renderPixel build fbSize (tileRegion build.tileSize tile fbSize).lower
    (sampleIDs spp startSampleID) screenSample indices ⟨[], [], before⟩
  rw [List.nil_append] at samples writes
  constructor
  · intro renders index behind inside image
    have once := renders.once _ ((contains_pixelAt inside).mpr image) 0 (by omega)
    have rendered := List.count_pos_iff.mp (once ▸ Nat.one_pos)
    rw [samples] at rendered
    obtain ⟨other, visited, sample⟩ := List.mem_flatMap.mp rendered
    obtain ⟨s, -, same⟩ := List.mem_map.mp sample
    obtain ⟨columns, rows, -⟩ := SampleID.mk.inj same
    have visited' := List.mem_of_mem_filter visited
    have equal := pixelAt_injective (inTile other visited') inside columns rows
    have before := (first other).mp visited'
    omega
  · intro skipped
    have place : ∀ pixel, (tileRegion build.tileSize tile fbSize).Contains pixel → ∃ index ∈ indices,
        pixelAt (tileRegion build.tileSize tile fbSize).lower index = pixel ∧ InImage fbSize pixel := by
      intro pixel contains
      obtain ⟨index, inside, rfl⟩ := exists_pixelAt contains
      have image := (contains_pixelAt inside).mp contains
      refine ⟨index, (first index).mpr (Nat.lt_of_not_le fun behind => skipped index behind inside image), rfl, image⟩
    refine ⟨fun pixel contains s less => ?_, fun write written => ?_, fun pixel contains => ?_, fun entry apart => ?_⟩
    · obtain ⟨index, visited, rfl, image⟩ := place pixel contains
      rw [samples]
      refine List.count_eq_one_of_mem (flatMap_sampleIDs_nodup fits (distinct.filter _) fun index visited =>
        inTile index (List.mem_of_mem_filter visited)) ?_
      refine List.mem_flatMap.mpr ⟨index, List.mem_filter.mpr ⟨visited, decide_eq_true image⟩, ?_⟩
      exact List.mem_map.mpr ⟨s, List.mem_range.mpr less, rfl⟩
    · rw [writes] at written
      obtain ⟨index, visited, rfl⟩ := List.mem_map.mp written
      obtain ⟨visited, image⟩ := List.mem_filter.mp visited
      have inside := inTile index visited
      exact ⟨(contains_pixelAt inside).mpr (of_decide_eq_true image), (tilePixel_pixelAt inside).symm⟩
    · obtain ⟨index, visited, rfl, image⟩ := place pixel contains
      rw [tilePixel_pixelAt (inTile index visited)]
      exact foldl_renderPixel_entry distinct inTile visited image _
    · refine foldl_renderPixel_others (fun index visited image => ?_) _
      rw [← tilePixel_pixelAt (inTile index visited)]
      exact apart _ ((contains_pixelAt (inTile index visited)).mpr image)

theorem numJobs_eq (positive : 1 ≤ spp) (accumID : Int) :
    numJobs build spp accumID = build.tileSize * build.tileSize / build.pixelsPerJob := by
  have one : accumID > 0 ∨ spp > 0 := Or.inr (by omega)
  simp only [numJobs, if_pos one, divRoundUp, Nat.add_sub_cancel, Nat.div_one]

/-- The image has no pixel at the places that are left over when the tile is cut into jobs. -/
def RemainderOutside (build : TileBuild) (tile fbSize : Vec2i) : Prop :=
  ∀ index, build.tileSize * build.tileSize - build.tileSize * build.tileSize % build.pixelsPerJob ≤ index →
    index < build.tileSize * build.tileSize →
    ¬InImage fbSize (pixelAt (tileRegion build.tileSize tile fbSize).lower index)

theorem remainderOutside_of_dvd (divides : build.pixelsPerJob ∣ build.tileSize * build.tileSize) :
    RemainderOutside build tile fbSize := by
  intro index behind inside
  rw [Nat.mod_eq_zero_of_dvd divides] at behind
  omega

/-- Running the jobs in any order renders the tile if the image has no pixel at the places left over. -/
theorem jobs_iff {places : Nat → List Nat} {order : List Nat} {accumID : Int} (positive : 1 ≤ spp)
    (fits : spp < 2 ^ 31) (any : order.Perm (List.range (numJobs build spp accumID)))
    (distinct : ∀ job, (places job).Nodup)
    (block : ∀ job < build.tileSize * build.tileSize / build.pixelsPerJob, ∀ index, index ∈ places job ↔
      job * build.pixelsPerJob ≤ index ∧ index < job * build.pixelsPerJob + build.pixelsPerJob) :
    RendersOnce build tile fbSize spp startSampleID screenSample before
        (order.foldl (fun rendering job => (places job).foldl (renderPixel build fbSize
          (tileRegion build.tileSize tile fbSize).lower (sampleIDs spp startSampleID) screenSample) rendering)
          ⟨[], [], before⟩) ↔ RemainderOutside build tile fbSize := by
  rw [numJobs_eq positive] at any
  obtain ⟨nodup, first⟩ := Library.Strides.flatMap_blocks any build.pixelsPerJobPositive distinct block
  have whole : build.tileSize * build.tileSize - build.tileSize * build.tileSize % build.pixelsPerJob =
      build.tileSize * build.tileSize / build.pixelsPerJob * build.pixelsPerJob := by
    rw [Nat.mul_comm (_ / _), Nat.mul_div_self_eq_mod_sub_self]
  rw [← List.foldl_flatMap, RemainderOutside, whole]
  exact rendersOnce_iff positive fits nodup first (Nat.div_mul_le_self _ _)

end Places

section Renderers

variable [Field K] {inf : D} {spp accumID : Int} {renderSample : SampleID → ScreenSample K D}
  {before : Nat → Pixel K D} {order : List Nat}

theorem default_iff (positive : 1 ≤ spp) (fits : spp < 2 ^ 31)
    (any : order.Perm (List.range (numJobs build spp accumID))) :
    RendersOnce build tile fbSize spp (BitVec.ofInt 32 (max accumID 0 * spp))
        (defaultScreenSample inf spp renderSample) before
        (order.foldl (defaultRenderTile build fbSize (tileRegion build.tileSize tile fbSize).lower inf spp accumID
          renderSample) ⟨[], [], before⟩) ↔ RemainderOutside build tile fbSize := by
  refine jobs_iff positive fits any (fun job => chunked_nodup build.programCount_positive) fun job _ index => ?_
  refine mem_chunked build.programCount_positive ?_
  rw [Nat.add_sub_cancel_left]
  exact build.multipleOfWidth

theorem pathTracer_iff [Min K] [Min D] {maxRadiance : K} (positive : 1 ≤ spp) (fits : spp < 2 ^ 31)
    (any : order.Perm (List.range (numJobs build spp accumID))) :
    RendersOnce build tile fbSize spp (BitVec.ofInt 32 (accumID * spp))
        (pathTracerScreenSample inf maxRadiance spp renderSample) before
        (order.foldl (pathTracerRenderTileJob build fbSize (tileRegion build.tileSize tile fbSize).lower inf
          maxRadiance spp accumID renderSample) ⟨[], [], before⟩) ↔ RemainderOutside build tile fbSize := by
  have ids : pathTracerIDs spp accumID = sampleIDs spp (BitVec.ofInt 32 (accumID * spp)) := by
    rw [pathTracerIDs, max_eq_right positive]
  unfold pathTracerRenderTileJob
  rw [ids]
  refine jobs_iff positive fits any (fun job => interleaved_nodup build.programCount_positive) fun job less index => ?_
  rw [mem_interleaved build.programCount_positive, min_eq_left]
  calc job * build.pixelsPerJob + build.pixelsPerJob
    _ = (job + 1) * build.pixelsPerJob := (Nat.succ_mul _ _).symm
    _ ≤ build.tileSize * build.tileSize / build.pixelsPerJob * build.pixelsPerJob := Nat.mul_le_mul_right _ less
    _ ≤ build.tileSize * build.tileSize := Nat.div_mul_le_self _ _

/-- Every pixel of a tile that lies in the image is rendered exactly once, in the default renderer and in the path
tracer, if and only if the image has none of the pixels that are left over. -/
theorem renders_once_iff [Min K] [Min D] (build : TileBuild) (tile fbSize : Vec2i) (inf : D) (maxRadiance : K)
    (spp accumID : Int) (positive : 1 ≤ spp) (fits : spp < 2 ^ 31) (renderSample : SampleID → ScreenSample K D)
    (before : Nat → Pixel K D) (order : List Nat) (any : order.Perm (List.range (numJobs build spp accumID))) :
    (RendersOnce build tile fbSize spp (BitVec.ofInt 32 (max accumID 0 * spp))
      (defaultScreenSample inf spp renderSample) before
      (order.foldl (defaultRenderTile build fbSize (tileRegion build.tileSize tile fbSize).lower inf spp accumID
        renderSample) ⟨[], [], before⟩) ↔ RemainderOutside build tile fbSize) ∧
    (RendersOnce build tile fbSize spp (BitVec.ofInt 32 (accumID * spp))
      (pathTracerScreenSample inf maxRadiance spp renderSample) before
      (order.foldl (pathTracerRenderTileJob build fbSize (tileRegion build.tileSize tile fbSize).lower inf
        maxRadiance spp accumID renderSample) ⟨[], [], before⟩) ↔ RemainderOutside build tile fbSize) :=
  ⟨default_iff positive fits any, pathTracer_iff positive fits any⟩

end Renderers

/-- Jobs of 48 pixels, for a width of 16 lanes. -/
def build48 : TileBuild where
  tileSize := 64
  programCount := 16
  tileSizePositive := tile_size_pos
  programCountDivides := by decide
  exponent := 6
  powerOfTwo := by decide
  pixelsPerJob := 48
  pixelsPerJobPositive := by decide
  multipleOfWidth := by decide
  atMostTileSize := by decide
  arraySize := by decide

theorem remainder_inside : ¬RemainderOutside build48 ⟨0, 0⟩ ⟨64, 64⟩ := fun outside =>
  outside 4095 (by decide) (by decide) (by decide)

/-- A renderer that sees nothing. -/
def nothing (_ : SampleID) : ScreenSample ℚ ℚ := clear 0

/-- A tile before it is rendered. -/
def blank (_ : Nat) : Pixel ℚ ℚ := (clear 0).toPixel

/-- The build without options of its own. -/
def build64 : TileBuild :=
  { build48 with
    pixelsPerJob := 64
    pixelsPerJobPositive := tile_size_pos
    multipleOfWidth := by decide
    atMostTileSize := by decide }

/-- The tile at the left of the second row of an image. -/
theorem renders_once_iff_default :
    RendersOnce build64 ⟨0, 1⟩ ⟨100, 70⟩ 2 (BitVec.ofInt 32 (max 0 0 * 2)) (defaultScreenSample 0 2 nothing) blank
      ((List.range 64).foldl (defaultRenderTile build64 ⟨100, 70⟩ (tileRegion 64 ⟨0, 1⟩ ⟨100, 70⟩).lower 0 2 0 nothing)
        ⟨[], [], blank⟩) :=
  (renders_once_iff build64 ⟨0, 1⟩ ⟨100, 70⟩ 0 0 2 0 (by decide) (by decide) nothing blank _
    (List.Perm.refl (List.range 64))).1.mpr (remainderOutside_of_dvd (by decide))

/-- An image of one tile, with one sample in each pixel. -/
theorem pixels_left_over :
    ¬RendersOnce build48 ⟨0, 0⟩ ⟨64, 64⟩ 1 (BitVec.ofInt 32 (max 0 0 * 1)) (defaultScreenSample 0 1 nothing) blank
      ((List.range 85).foldl (defaultRenderTile build48 ⟨64, 64⟩ (tileRegion 64 ⟨0, 0⟩ ⟨64, 64⟩).lower 0 1 0 nothing)
        ⟨[], [], blank⟩) ∧
    ¬RendersOnce build48 ⟨0, 0⟩ ⟨64, 64⟩ 1 (BitVec.ofInt 32 (0 * 1)) (pathTracerScreenSample 0 1 1 nothing) blank
      ((List.range 85).foldl (pathTracerRenderTileJob build48 ⟨64, 64⟩ (tileRegion 64 ⟨0, 0⟩ ⟨64, 64⟩).lower 0 1 1 0
        nothing) ⟨[], [], blank⟩) :=
  ⟨(default_iff (by decide) (by decide) (List.Perm.refl _)).not.mpr remainder_inside,
    (pathTracer_iff (by decide) (by decide) (List.Perm.refl _)).not.mpr remainder_inside⟩

end Ospray.RenderTile
