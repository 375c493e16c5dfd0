import Mathlib.Algebra.Field.Basic
import Mathlib.Algebra.Order.Group.Nat
import Ospray.Library.Literals

/-!
# Tiles of the frame buffer

A frame is split into square tiles of `TILE_SIZE` pixels a side. A tile carries
its screen region and one record per pixel, addressed row by row with a stride
of `TILE_SIZE` whatever the width of the region is: border tiles are clipped by
the frame, not repacked. The source keeps one array per component; here pixel
`j` is the record of the components the arrays hold at `j`.

Components are elements of a field `K` (arithmetic on them is exact) and depths
are elements of a type `D` that is only ever compared.
-/

namespace Ospray

/-- `vec2i`, for the non-negative coordinates of pixels and tiles. -/
structure Vec2i where
  x : Nat
  y : Nat
deriving DecidableEq, Repr

/-- `region2i`: the pixels from `lower` up to, but excluding, `upper`. -/
structure Region where
  lower : Vec2i
  upper : Vec2i
deriving DecidableEq, Repr

/-- `box_size`: width and height in pixels. -/
def Region.size (region : Region) : Vec2i :=
  ⟨region.upper.x - region.lower.x, region.upper.y - region.lower.y⟩

/-- A pixel lies in a region when both coordinates do. -/
def Region.Contains (region : Region) (pixel : Vec2i) : Prop :=
  (region.lower.x ≤ pixel.x ∧ pixel.x < region.upper.x) ∧
    region.lower.y ≤ pixel.y ∧ pixel.y < region.upper.y

/-- `vec3f` with exact components. -/
abbrev Vec3 (K : Type) := Fin 3 → K

/-- `vec4f` with exact components: red, green, blue and alpha. -/
abbrev Vec4 (K : Type) := Fin 4 → K

/-- What the component arrays of a tile hold at one index. -/
structure Pixel (K D : Type) where
  /-- `r`, `g`, `b`, `a` -/
  color : Vec4 K
  z : D
  /-- `nx`, `ny`, `nz` -/
  normal : Vec3 K
  /-- `ar`, `ag`, `ab` -/
  albedo : Vec3 K

/-- `ospray::Tile`. Generations count from zero; `accumID` tells how often the
tile has been accumulated before. -/
structure Tile (K D : Type) where
  region : Region
  fbSize : Vec2i
  rcpFbSize : Fin 2 → K
  generation : Nat
  children : Int
  sortOrder : Int
  accumID : Nat
  pixel : Nat → Pixel K D

/-- What the build fixes for the vectorised kernels: the side of a tile and the
number of lanes of a SIMD program, which divides it. -/
structure Target where
  tileSize : Nat
  programCount : Nat
  tileSizePositive : 0 < tileSize
  programCountDivides : programCount ∣ tileSize

theorem Target.programCount_positive (target : Target) : 0 < target.programCount :=
  Nat.pos_of_dvd_of_pos target.programCountDivides target.tileSizePositive

theorem Target.row_chunks (target : Target) (rows : Nat) :
    rows * (target.tileSize / target.programCount) * target.programCount =
      rows * target.tileSize := by
  rw [Nat.mul_assoc, Nat.div_mul_cancel target.programCountDivides]

/-- The region of tile `tile` of a frame: `TILE_SIZE` pixels a side, clipped at
the upper border of the frame. -/
def tileRegion (tileSize : Nat) (tile fbSize : Vec2i) : Region :=
  { lower := ⟨tile.x * tileSize, tile.y * tileSize⟩
    upper := ⟨min (tile.x * tileSize + tileSize) fbSize.x,
      min (tile.y * tileSize + tileSize) fbSize.y⟩ }

/-- The constructor `Tile(tile, fbsize, accumId)`, applied to the pixels that
rendering then fills in. -/
def Tile.make {K D : Type} [Field K] (tileSize : Nat) (tile fbSize : Vec2i) (accumId : Nat)
    (pixel : Nat → Pixel K D) : Tile K D :=
  { region := tileRegion tileSize tile fbSize
    fbSize := fbSize
    rcpFbSize := fun axis => if axis = 0 then ((fbSize.x : K))⁻¹ else ((fbSize.y : K))⁻¹
    generation := 0
    children := 0
    sortOrder := 0
    accumID := accumId
    pixel := pixel }

theorem tileRegion_width (tileSize : Nat) (tile fbSize : Vec2i) :
    (tileRegion tileSize tile fbSize).size.x ≤ tileSize := by
  simp only [tileRegion, Region.size]
  omega

/-- `divRoundUp`, for a positive divisor. -/
def divRoundUp (a b : Nat) : Nat := (a + b - 1) / b

theorem le_divRoundUp_mul (a : Nat) {b : Nat} (positive : 0 < b) : a ≤ divRoundUp a b * b := by
  have split := Nat.div_add_mod (a + b - 1) b
  have rest := Nat.mod_lt (a + b - 1) positive
  unfold divRoundUp
  rw [Nat.mul_comm]
  omega

theorem tileRegion_column (tileSize : Nat) (tile fbSize : Vec2i) {col : Nat}
    (inside : col < (tileRegion tileSize tile fbSize).size.x) :
    (tileRegion tileSize tile fbSize).lower.x + col < fbSize.x := by
  simp only [tileRegion, Region.size] at inside ⊢
  omega

/-- `ColorBufferFormat`. -/
inductive ColorBufferFormat where
  | none
  | rgba8
  | srgba
  | rgba32f
deriving DecidableEq, Repr

/-- The channels a frame buffer was created with. The constructor grants a
variance buffer only next to an accumulation buffer. -/
structure Channels where
  hasDepthBuffer : Bool
  hasAccumBuffer : Bool
  hasVarianceBuffer : Bool
  hasNormalBuffer : Bool
  hasAlbedoBuffer : Bool
  varianceAccumulates : hasVarianceBuffer = true → hasAccumBuffer = true

theorem no_variance {accum : Bool} : false = true → accum = true := fun variance => by cases variance

/-- `hasNormalBuffer || hasAlbedoBuffer`, the test before every auxiliary kernel. -/
def Channels.hasAux (channels : Channels) : Bool :=
  channels.hasNormalBuffer || channels.hasAlbedoBuffer

end Ospray
