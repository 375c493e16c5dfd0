import Ospray.Library.MachineIntegers
import Ospray.Texture.SmallerSizes

/-!
# Textures

A texture repeats: the fraction of a coordinate is scaled by the size, and its integer part is the
texel. The fraction may be one, so what it is scaled by is meant to be a little smaller than the
size. It is not for sizes of which every other integer has no single-precision value. The texels
lie row by row in memory, and are found by an index of 32 bits.
-/

namespace Ospray.Textures

open Library.MachineIntegers
open Library.SinglePrecision
open Ospray.Amr (nextafter)

/-! ## Textures and their parameters -/

/-- `vec2i` and `vec2f` -/
structure Vec2 (α : Type) where
  x : α
  y : α
  deriving DecidableEq

/-- `OSPTextureFormat`, without `OSP_TEXTURE_FORMAT_INVALID`. -/
inductive TextureFormat where
  | RGBA8
  | SRGBA
  | RGBA32F
  | RGB8
  | SRGB
  | RGB32F
  | R8
  | R32F
  | L8
  | RA8
  | LA8
  deriving DecidableEq

/-- The format that an integer stands for. -/
def TextureFormat.ofCode (type : BitVec 32) : Option TextureFormat :=
  match type.toNat with
  | 0 => some .RGBA8
  | 1 => some .SRGBA
  | 2 => some .RGBA32F
  | 3 => some .RGB8
  | 4 => some .SRGB
  | 5 => some .RGB32F
  | 6 => some .R8
  | 7 => some .R32F
  | 8 => some .L8
  | 9 => some .RA8
  | 10 => some .LA8
  | _ => none

/-- `OSP_TEXTURE_FORMAT_INVALID` -/
def OSP_TEXTURE_FORMAT_INVALID : BitVec 32 := 0xff

/-- `OSP_TEXTURE_FILTER_NEAREST` -/
def OSP_TEXTURE_FILTER_NEAREST : BitVec 32 := 1 <<< 1

/-- `sizeOf(OSPTextureFormat)` -/
def TextureFormat.sizeOf : TextureFormat → Nat
  | RGBA8 | SRGBA => 4
  | RGBA32F => 16
  | RGB8 | SRGB => 3
  | RGB32F => 12
  | R8 | L8 => 1
  | RA8 | LA8 => 2
  | R32F => 4

/-- The exceptions of a commit. The place in the source that the third one begins with is left out. -/
inductive Error where
  | negativeSize (size : Vec2 (BitVec 32))
  | noTexels
  | unknownFormat (type : BitVec 32)
  | memorySize (expected given : BitVec 64)

/-- Their texts. -/
def Error.what : Error → String
  | negativeSize size =>
    "'size' param on Texture2D must be positive! got (" ++ toString size.x.toInt ++ "," ++ toString size.y.toInt ++ ")"
  | noTexels => "no texel data provided to Texture2D"
  | unknownFormat type => "unknown OSPTextureFormat " ++ toString type.toInt
  | memorySize expected given =>
    "'size' and 'data' parameters disagree on memory size!\n" ++ "expected #bytes: " ++ toString expected.toNat ++
      "   given #bytes: " ++ toString given.toNat

/-- What a commit reads of a `Data`: whether it points to memory, and `numBytes`. -/
structure TexData where
  data : Bool
  numBytes : BitVec 64

/-- The parameters of a texture. -/
structure Params where
  size : Option (Vec2 (BitVec 32))
  data : Option TexData
  type : Option (BitVec 32)
  flags : Option (BitVec 32)

/-- `Texture2D`, with the format and the filter that `get` was chosen by and the size of `data`. -/
structure Texture2D where
  size : Vec2 (BitVec 32)
  sizef : Vec2 Single
  halfTexel : Vec2 Single
  format : TextureFormat
  filterNearest : Bool
  numBytes : BitVec 64

/-- The size in one direction as a number that is a little smaller. -/
def sizefOf (size : BitVec 32) : Single := .ofExact (nextafter (toNearest size.toInt) (-1))

/-- `0.5f/size` -/
def halfTexelOf (size : BitVec 32) : Single :=
  if size.toInt = 0 then .infinite false else .ofExact (1 / 2 / toNearest size.toInt)

/-- `Texture2D_create` -/
def Texture2D_create (size : Vec2 (BitVec 32)) (format : TextureFormat) (flags : BitVec 32) (numBytes : BitVec 64) :
    Texture2D where
  size := size
  sizef := ⟨sizefOf size.x, sizefOf size.y⟩
  halfTexel := ⟨halfTexelOf size.x, halfTexelOf size.y⟩
  format := format
  filterNearest := flags &&& OSP_TEXTURE_FILTER_NEAREST != 0
  numBytes := numBytes

/-- `Texture2D::commit`. It is undefined without data. -/
def commit (params : Params) : Option (Except Error Texture2D) :=
  let size := params.size.getD ⟨-1, -1⟩
  if size.x.toInt < 0 ∨ size.y.toInt < 0 then some (.error (.negativeSize size))
  else
    match params.data with
    | none => none
    | some texData =>
      if !texData.data then some (.error .noTexels)
      else
        let type := params.type.getD OSP_TEXTURE_FORMAT_INVALID
        let flags := params.flags.getD 0
        match TextureFormat.ofCode type with
        | none => some (.error (.unknownFormat type))
        | some format =>
          let numBytesExpected :=
            BitVec.ofNat 64 format.sizeOf * size.x.signExtend 64 * size.y.signExtend 64
          if numBytesExpected ≠ texData.numBytes then
            some (.error (.memorySize numBytesExpected texData.numBytes))
          else some (.ok (Texture2D_create size format flags texData.numBytes))

/-! ## Fetches -/

/-- `frac` -/
def frac (x : Single) : Single := x.sub x.floor

/-- The fraction of a coordinate, or zero. -/
def repeated (p : Single) : Single := (frac p).max (.ofNat 0 zero_small)

/-- `nearest_coords` -/
def nearest_coords (self : Texture2D) (p : Vec2 Single) : Option (Vec2 (BitVec 32)) := do
  let tc : Vec2 Single := ⟨repeated p.x, repeated p.y⟩
  let x ← (tc.x.mul self.sizef.x).toInt32
  let y ← (tc.y.mul self.sizef.y).toInt32
  return ⟨x, y⟩

/-- `BilinCoords` -/
structure BilinCoords where
  st0 : Vec2 (BitVec 32)
  st1 : Vec2 (BitVec 32)
  frac : Vec2 Single

/-- The texel after another one, in a texture that repeats. -/
def nextTexel (size texel : BitVec 32) : BitVec 32 :=
  if size.toInt ≤ (texel + 1).toInt then 0 else texel + 1

/-- `bilinear_coords` -/
def bilinear_coords (self : Texture2D) (p : Vec2 Single) : Option BilinCoords := do
  let tc : Vec2 Single := ⟨repeated (p.x.sub self.halfTexel.x), repeated (p.y.sub self.halfTexel.y)⟩
  let tc : Vec2 Single := ⟨tc.x.mul self.sizef.x, tc.y.mul self.sizef.y⟩
  let x ← tc.x.toInt32
  let y ← tc.y.toInt32
  return ⟨⟨x, y⟩, ⟨nextTexel self.size.x x, nextTexel self.size.y y⟩, ⟨frac tc.x, frac tc.y⟩⟩

/-- The elements that `getTexel_*` reads. The formats with three or two channels of a byte read
the bytes one by one, the others read a texel at once. -/
def getTexel (self : Texture2D) (i : Vec2 (BitVec 32)) : List Int :=
  let index := i.y * self.size.x + i.x
  match self.format with
  | .RGB8 | .SRGB =>
    let texelOfs := 3 * index
    [texelOfs.toNat, (texelOfs + 1).toNat, (texelOfs + 2).toNat]
  | .RA8 | .LA8 =>
    let texelOfs := 2 * index
    [texelOfs.toNat, (texelOfs + 1).toNat]
  | .RGBA8 | .SRGBA | .RGBA32F | .RGB32F | .R8 | .R32F | .L8 => [index.toInt]

/-- The texels whose values a fetch combines. -/
def texels (self : Texture2D) (st : Vec2 Single) : Option (List (Vec2 (BitVec 32))) :=
  if self.filterNearest then (nearest_coords self st).map fun i => [i]
  else (bilinear_coords self st).map fun cs =>
    [⟨cs.st0.x, cs.st0.y⟩, ⟨cs.st1.x, cs.st0.y⟩, ⟨cs.st0.x, cs.st1.y⟩, ⟨cs.st1.x, cs.st1.y⟩]

/-! ## Texels -/

/-- The texel is one of the texture. -/
def InTexture (self : Texture2D) (i : Vec2 (BitVec 32)) : Prop :=
  (0 ≤ i.x.toInt ∧ i.x.toInt < self.size.x.toInt) ∧ 0 ≤ i.y.toInt ∧ i.y.toInt < self.size.y.toInt

/-- The elements that a texel is made of. -/
def TextureFormat.channels : TextureFormat → Nat
  | RGB8 | SRGB => 3
  | RA8 | LA8 => 2
  | RGBA8 | SRGBA | RGBA32F | RGB32F | R8 | R32F | L8 => 1

/-- The bytes of an element. -/
def TextureFormat.elementSize : TextureFormat → Nat
  | RGB8 | SRGB | RA8 | LA8 | R8 | L8 => 1
  | RGBA8 | SRGBA | R32F => 4
  | RGBA32F => 16
  | RGB32F => 12

theorem sizeOf_eq (format : TextureFormat) : format.sizeOf = format.channels * format.elementSize := by
  cases format <;> rfl

/-- Fetches stay inside the texture: the texels that are formed are texels of it, the weights are
fractions, and the offset of a texel is the one of its place, with all its elements in the data. -/
structure FetchesInside (texture : Texture2D) : Prop where
  nearest : ∀ p, ∃ i, nearest_coords texture p = some i ∧ InTexture texture i
  bilinear : ∀ p, ∃ cs, bilinear_coords texture p = some cs ∧ InTexture texture cs.st0 ∧ InTexture texture cs.st1 ∧
    cs.frac.x.Between 0 1 ∧ cs.frac.y.Between 0 1
  offset : ∀ i, InTexture texture i → ∃ texelOfs,
    (getTexel texture i).head? = some texelOfs ∧
      texelOfs = texture.format.channels * (i.y.toInt * texture.size.x.toInt + i.x.toInt) ∧
      (texelOfs + texture.format.channels) * texture.format.elementSize ≤ texture.numBytes.toNat

/-- The offsets of the texels have 32 bits: the signed ones, and the unsigned ones of the formats
whose channels are read one by one. -/
def OffsetsFit (self : Texture2D) : Prop :=
  let texels := self.size.x.toNat * self.size.y.toNat
  if self.format.channels = 1 then texels ≤ 2 ^ 31 else self.format.channels * (texels - 1) < 2 ^ 32

/-! ## Coordinates -/

theorem between_repeated (p : Single) : (repeated p).Between 0 1 :=
  between_max_zero zero_le_one (sub_floor p)

variable {size : BitVec 32}

theorem texel_spec (fits : SizeFits size.toInt) {tc : Single} (fraction : tc.Between 0 1) :
    ∃ texel, (tc.mul (sizefOf size)).toInt32 = some texel ∧ (0 ≤ texel.toInt ∧ texel.toInt < size.toInt) ∧
      (frac (tc.mul (sizefOf size))).Between 0 1 := by
  have range : size.toInt < 2 ^ 31 := BitVec.toInt_lt
  obtain ⟨⟨single, value⟩, nonnegative⟩ := ofExact_nextafter fits.1 range
  have scale : (sizefOf size).Between 0 (nextafter (toNearest size.toInt) (-1)) := by
    rw [sizefOf, value]
    exact ⟨nonnegative, le_rfl⟩
  have scaled : (tc.mul (sizefOf size)).Between 0 (nextafter (toNearest size.toInt) (-1)) :=
    between_mul single.1 ((le_abs_self _).trans_lt single.2) fraction scale
  obtain ⟨texel, whole, inside⟩ := toInt32_spec scaled (nextafter_lt_of_fits fits) range.le
  exact ⟨texel, whole, inside, between_sub_floor scaled⟩

theorem nextTexel_inside {texel : BitVec 32} (inside : 0 ≤ texel.toInt ∧ texel.toInt < size.toInt) :
    0 ≤ (nextTexel size texel).toInt ∧ (nextTexel size texel).toInt < size.toInt := by
  have range : size.toInt < 2 ^ 31 := BitVec.toInt_lt
  have next : (texel + 1).toInt = texel.toInt + 1 := by
    rw [BitVec.toInt_add, Int.bmod_def]
    have one : (1 : BitVec 32).toInt = 1 := rfl
    rw [one]
    omega
  unfold nextTexel
  split
  · have zero : (0 : BitVec 32).toInt = 0 := rfl
    rw [zero]
    omega
  · rw [next] at *
    omega

theorem isSingle_tiny : IsSingle (-1 / 2 ^ 30) := by
  refine ⟨⟨-1, -30, by decide, by decide, by norm_num⟩, ?_⟩
  rw [abs_lt]
  constructor <;> norm_num

/-- A coordinate right below zero. -/
def tiny : Single := .finite (-1 / 2 ^ 30) isSingle_tiny

/-- Its fraction is one. -/
theorem repeated_tiny : ∃ single, repeated tiny = .finite 1 single := by
  have floor : ⌊(-1 / 2 ^ 30 : ℚ)⌋ = -1 := by
    rw [Int.floor_eq_iff]
    constructor <;> norm_num
  have rounded : toNearest (-1 / 2 ^ 30 - ⌊(-1 / 2 ^ 30 : ℚ)⌋) = 1 := by
    rw [floor]
    apply le_antisymm
    · have below : toNearest (-1 / 2 ^ 30 - ((-1 : ℤ) : ℚ)) ≤ toNearest 1 :=
        nearest_mono (by norm_num) (by norm_num)
      rwa [nearest_one] at below
    · apply le_nearest_of_near nearest_one (by norm_num) (by norm_num)
      have place : -24 ≤ unit (-1 / 2 ^ 30 - ((-1 : ℤ) : ℚ)) := by
        have low : (2 : ℚ) ^ (-1 : ℤ) ≤ |-1 / 2 ^ 30 - ((-1 : ℤ) : ℚ)| := by
          rw [abs_of_pos (by norm_num)]
          norm_num
        have bound := le_unit (by norm_num : -1 / 2 ^ 30 - ((-1 : ℤ) : ℚ) ≠ 0) low
        omega
      have unit_ : (2 : ℚ) ^ (-24 : ℤ) ≤ 2 ^ unit (-1 / 2 ^ 30 - ((-1 : ℤ) : ℚ)) :=
        zpow_le_zpow_right₀ (by norm_num) place
      norm_num at unit_ ⊢
      linarith
  obtain ⟨single, value⟩ := ofExact_of_nearest rounded (by norm_num)
  refine ⟨single, ?_⟩
  have fraction : frac tiny = .finite 1 single := value
  rw [repeated, fraction]
  exact if_pos (by simp [Single.ofNat, Single.lt])

/-! ## Offsets -/

variable {self : Texture2D} {i : Vec2 (BitVec 32)}

/-- The place of a texel, row by row. -/
def place (self : Texture2D) (i : Vec2 (BitVec 32)) : Nat := i.y.toNat * self.size.x.toNat + i.x.toNat

theorem index_eq (self : Texture2D) (i : Vec2 (BitVec 32)) :
    i.y * self.size.x + i.x = BitVec.ofNat 32 (place self i) := by
  rw [place, BitVec.ofNat_add, BitVec.ofNat_mul, BitVec.ofNat_toNat, BitVec.ofNat_toNat, BitVec.ofNat_toNat,
    BitVec.setWidth_eq, BitVec.setWidth_eq, BitVec.setWidth_eq]

theorem place_cast (inside : InTexture self i) :
    (place self i : Int) = i.y.toInt * self.size.x.toInt + i.x.toInt := by
  obtain ⟨⟨xLow, xHigh⟩, yLow, yHigh⟩ := inside
  have width : (self.size.x.toNat : Int) = self.size.x.toInt := toNat_of_nonneg (by omega)
  rw [place, Nat.cast_add, Nat.cast_mul, toNat_of_nonneg yLow, toNat_of_nonneg xLow, width]

/-- The places of the texels are below their number. -/
theorem place_lt (inside : InTexture self i) : place self i < self.size.x.toNat * self.size.y.toNat := by
  obtain ⟨⟨xLow, xHigh⟩, yLow, yHigh⟩ := inside
  have width : (self.size.x.toNat : Int) = self.size.x.toInt := toNat_of_nonneg (by omega)
  have height : (self.size.y.toNat : Int) = self.size.y.toInt := toNat_of_nonneg (by omega)
  have column := toNat_of_nonneg xLow
  have row := toNat_of_nonneg yLow
  have before : (i.y.toNat + 1) * self.size.x.toNat ≤ self.size.y.toNat * self.size.x.toNat :=
    Nat.mul_le_mul_right _ (by omega)
  calc place self i < (i.y.toNat + 1) * self.size.x.toNat := by
        rw [place, Nat.succ_mul]
        omega
    _ ≤ self.size.x.toNat * self.size.y.toNat := by rwa [Nat.mul_comm (self.size.x.toNat)]

/-- The last texel has the last place. -/
theorem exists_last (width : 1 ≤ self.size.x.toInt) (height : 1 ≤ self.size.y.toInt) :
    ∃ i, InTexture self i ∧ place self i = self.size.x.toNat * self.size.y.toNat - 1 := by
  have last {size : BitVec 32} (positive : 1 ≤ size.toInt) :
      (size - 1).toInt = size.toInt - 1 ∧ (size - 1).toNat = size.toNat - 1 := by
    have range : size.toInt < 2 ^ 31 := BitVec.toInt_lt
    have whole := toNat_of_nonneg (zero_le_one.trans positive)
    have value : (size - 1).toInt = size.toInt - 1 := by
      have one : (1 : BitVec 32).toInt = 1 := rfl
      rw [BitVec.toInt_sub, Int.bmod_def, one]
      omega
    have number : ((size - 1).toNat : Int) = (size - 1).toInt := toNat_of_nonneg (by omega)
    omega
  obtain ⟨column, columnNat⟩ := last width
  obtain ⟨row, rowNat⟩ := last height
  have widthNat := toNat_of_nonneg (zero_le_one.trans width)
  have heightNat := toNat_of_nonneg (zero_le_one.trans height)
  refine ⟨⟨self.size.x - 1, self.size.y - 1⟩, ?_, ?_⟩
  · simp only [InTexture, column, row]
    omega
  obtain ⟨above, rows⟩ : ∃ above, self.size.y.toNat = above + 1 := Nat.exists_eq_add_one.mpr (by omega)
  rw [place, columnNat, rowNat, rows, Nat.add_sub_cancel, Nat.mul_succ, Nat.mul_comm above]
  omega

theorem head_getTexel (self : Texture2D) (i : Vec2 (BitVec 32)) :
    (getTexel self i).head? = some
      (if self.format.channels = 1 then Int.bmod (place self i) (2 ^ 32)
      else ((self.format.channels * place self i % 2 ^ 32 : Nat) : Int)) := by
  have whole : (BitVec.ofNat 32 (place self i)).toInt = Int.bmod (place self i) (2 ^ 32) := BitVec.toInt_ofNat ..
  have bytes (channels : Nat) : (BitVec.ofNat 32 channels * BitVec.ofNat 32 (place self i)).toNat =
      channels * place self i % 2 ^ 32 := by
    rw [← BitVec.ofNat_mul, BitVec.toNat_ofNat]
  have three : (3 * BitVec.ofNat 32 (place self i)).toNat = 3 * place self i % 2 ^ 32 := bytes 3
  have two : (2 * BitVec.ofNat 32 (place self i)).toNat = 2 * place self i % 2 ^ 32 := bytes 2
  unfold getTexel
  rw [index_eq]
  cases self.format <;>
    simp only [TextureFormat.channels, List.head?_cons, whole, three, two, if_true, Nat.reduceEqDiff, if_false]

/-! ## Accepted textures -/

theorem commit_spec {params : Params} (accepted : commit params = some (.ok self)) :
    (0 ≤ self.size.x.toInt ∧ 0 ≤ self.size.y.toInt) ∧
      self.sizef = ⟨sizefOf self.size.x, sizefOf self.size.y⟩ ∧
      self.numBytes = BitVec.ofNat 64 self.format.sizeOf * self.size.x.signExtend 64 * self.size.y.signExtend 64 := by
  simp only [commit] at accepted
  split at accepted
  · nomatch accepted
  · next positive =>
    split at accepted
    · nomatch accepted
    · split at accepted
      · nomatch accepted
      · split at accepted
        · nomatch accepted
        · split at accepted
          · nomatch accepted
          · next agree =>
            cases accepted
            obtain ⟨width, height⟩ := not_or.mp positive
            exact ⟨⟨not_lt.mp width, not_lt.mp height⟩, rfl, (not_not.mp agree).symm⟩

theorem numBytes_eq {params : Params} (accepted : commit params = some (.ok self)) :
    self.numBytes.toNat = self.format.sizeOf * (self.size.x.toNat * self.size.y.toNat) % 2 ^ 64 := by
  obtain ⟨⟨width, height⟩, -, numBytes⟩ := commit_spec accepted
  have extended {size : BitVec 32} (nonnegative : 0 ≤ size.toInt) : (size.signExtend 64).toNat = size.toNat :=
    toNat_signExtend (by decide) nonnegative
  have bytes : BitVec.ofNat 64 self.format.sizeOf * self.size.x.signExtend 64 * self.size.y.signExtend 64 =
      BitVec.ofNat 64 (self.format.sizeOf * (self.size.x.toNat * self.size.y.toNat)) := by
    rw [← Nat.mul_assoc, BitVec.ofNat_mul, BitVec.ofNat_mul, ← extended width, ← extended height,
      BitVec.ofNat_toNat, BitVec.ofNat_toNat, BitVec.setWidth_eq, BitVec.setWidth_eq]
  rw [numBytes, bytes, BitVec.toNat_ofNat]

/-- The texel of the coordinate right below zero shows that the size fits. -/
theorem fits_of_texel {texel : BitVec 32} (formed : ((repeated tiny).mul (sizefOf size)).toInt32 = some texel)
    (inside : 0 ≤ texel.toInt ∧ texel.toInt < size.toInt) : SizeFits size.toInt := by
  have positive : 1 ≤ size.toInt := by omega
  obtain ⟨⟨single, value⟩, nonnegative⟩ := ofExact_nextafter positive BitVec.toInt_lt
  obtain ⟨one, fraction⟩ := repeated_tiny
  have scaled : toNearest (1 * nextafter (toNearest size.toInt) (-1)) = nextafter (toNearest size.toInt) (-1) := by
    rw [one_mul, nearest_eq_self single.1]
  obtain ⟨again, product⟩ := ofExact_of_nearest scaled single.2
  apply fits_of_nextafter_lt positive
  rw [fraction, sizefOf, value, Single.mul, product, Single.toInt32, if_pos nonnegative] at formed
  split at formed
  · next range =>
    have same := Option.some.inj formed
    rw [← Int.floor_lt]
    rw [← same, BitVec.toInt_ofInt, Int.bmod_def] at inside
    omega
  · cases formed

theorem nearest_inside (sizef : self.sizef = ⟨sizefOf self.size.x, sizefOf self.size.y⟩)
    (fitsX : SizeFits self.size.x.toInt) (fitsY : SizeFits self.size.y.toInt) (p : Vec2 Single) :
    ∃ i, nearest_coords self p = some i ∧ InTexture self i := by
  obtain ⟨x, formedX, insideX, -⟩ := texel_spec fitsX (between_repeated p.x)
  obtain ⟨y, formedY, insideY, -⟩ := texel_spec fitsY (between_repeated p.y)
  refine ⟨⟨x, y⟩, ?_, insideX, insideY⟩
  simp only [nearest_coords, sizef, formedX, formedY, Option.bind_eq_bind, Option.bind_some, Option.pure_def]

theorem bilinear_inside (sizef : self.sizef = ⟨sizefOf self.size.x, sizefOf self.size.y⟩)
    (fitsX : SizeFits self.size.x.toInt) (fitsY : SizeFits self.size.y.toInt) (p : Vec2 Single) :
    ∃ cs, bilinear_coords self p = some cs ∧ InTexture self cs.st0 ∧ InTexture self cs.st1 ∧
      cs.frac.x.Between 0 1 ∧ cs.frac.y.Between 0 1 := by
  obtain ⟨x, formedX, insideX, weightX⟩ := texel_spec fitsX (between_repeated (p.x.sub self.halfTexel.x))
  obtain ⟨y, formedY, insideY, weightY⟩ := texel_spec fitsY (between_repeated (p.y.sub self.halfTexel.y))
  let weight : Vec2 Single :=
    ⟨frac ((repeated (p.x.sub self.halfTexel.x)).mul (sizefOf self.size.x)),
      frac ((repeated (p.y.sub self.halfTexel.y)).mul (sizefOf self.size.y))⟩
  refine ⟨⟨⟨x, y⟩, ⟨nextTexel self.size.x x, nextTexel self.size.y y⟩, weight⟩, ?_, ⟨insideX, insideY⟩,
    ⟨nextTexel_inside insideX, nextTexel_inside insideY⟩, weightX, weightY⟩
  simp only [bilinear_coords, sizef, formedX, formedY, Option.bind_eq_bind, Option.bind_some, Option.pure_def]
  rfl

/-- The offset of a texel is the one of its place if it has 32 bits. -/
theorem head_getTexel_of_fits (fits : OffsetsFit self) (inside : InTexture self i) :
    (getTexel self i).head? = some ((self.format.channels * place self i : Nat) : Int) := by
  have below := place_lt inside
  rw [head_getTexel]
  unfold OffsetsFit at fits
  split
  · next one =>
    rw [if_pos one] at fits
    have small : (place self i : Int) < 2 ^ 31 := by exact_mod_cast below.trans_le fits
    have same : Int.bmod (place self i) (2 ^ 32) = place self i := by
      rw [Int.bmod_def]
      omega
    rw [same, one, Nat.one_mul]
  · next several =>
    rw [if_neg several] at fits
    have before : self.format.channels * place self i ≤
        self.format.channels * (self.size.x.toNat * self.size.y.toNat - 1) :=
      Nat.mul_le_mul_left _ (by omega)
    rw [Nat.mod_eq_of_lt (before.trans_lt fits)]

theorem numBytes_of_fits {params : Params} (accepted : commit params = some (.ok self)) (fits : OffsetsFit self) :
    self.numBytes.toNat = self.format.sizeOf * (self.size.x.toNat * self.size.y.toNat) := by
  rw [numBytes_eq accepted]
  apply Nat.mod_eq_of_lt
  have texels : self.size.x.toNat * self.size.y.toNat ≤ 2 ^ 32 := by
    unfold OffsetsFit at fits
    split at fits
    · omega
    · next several =>
      have two : 2 ≤ self.format.channels := by
        cases format : self.format <;> simp [format, TextureFormat.channels] at several ⊢
      have double := Nat.mul_le_mul_right (self.size.x.toNat * self.size.y.toNat - 1) two
      omega
  have bytes : self.format.sizeOf ≤ 16 := by
    cases self.format <;> decide
  calc self.format.sizeOf * (self.size.x.toNat * self.size.y.toNat) ≤ 16 * 2 ^ 32 := Nat.mul_le_mul bytes texels
    _ < 2 ^ 64 := by decide

theorem offset_inside {params : Params} (accepted : commit params = some (.ok self)) (fits : OffsetsFit self)
    (inside : InTexture self i) :
    (self.format.channels * place self i + self.format.channels) * self.format.elementSize ≤
      self.numBytes.toNat := by
  rw [numBytes_of_fits accepted fits, sizeOf_eq]
  calc (self.format.channels * place self i + self.format.channels) * self.format.elementSize
      = self.format.channels * self.format.elementSize * (place self i + 1) := by
        rw [← Nat.mul_succ, Nat.mul_right_comm]
    _ ≤ self.format.channels * self.format.elementSize * (self.size.x.toNat * self.size.y.toNat) :=
        Nat.mul_le_mul_left _ (place_lt inside)

/-- The offset of the last texel shows that the offsets have 32 bits. -/
theorem fits_of_last (last : place self i = self.size.x.toNat * self.size.y.toNat - 1)
    (offset : (getTexel self i).head? = some ((self.format.channels * place self i : Nat) : Int)) :
    OffsetsFit self := by
  rw [head_getTexel] at offset
  have same := Option.some.inj offset
  unfold OffsetsFit
  split at same
  · next one =>
    rw [if_pos one]
    rw [one, Nat.one_mul, Int.bmod_def] at same
    have whole : place self i < 2 ^ 31 := by
      generalize place self i = place at same
      omega
    omega
  · next several =>
    rw [if_neg several, ← last]
    have small := Nat.mod_lt (self.format.channels * place self i) (by decide : 0 < 2 ^ 32)
    rwa [Int.ofNat_inj.mp same] at small

/-- Fetches from an accepted texture stay inside it if and only if its sizes have smaller values
and its offsets have 32 bits. -/
theorem fetches_iff {params : Params} (accepted : commit params = some (.ok self)) :
    FetchesInside self ↔ SizeFits self.size.x.toInt ∧ SizeFits self.size.y.toInt ∧ OffsetsFit self := by
  obtain ⟨⟨width, height⟩, sizef, -⟩ := commit_spec accepted
  constructor
  · intro fetches
    obtain ⟨i, formed, inside⟩ := fetches.nearest ⟨tiny, tiny⟩
    simp only [nearest_coords, sizef, Option.bind_eq_bind, Option.bind_eq_some_iff, Option.pure_def] at formed
    obtain ⟨x, formedX, y, formedY, same⟩ := formed
    cases same
    have fitX : SizeFits self.size.x.toInt := fits_of_texel formedX inside.1
    have fitY : SizeFits self.size.y.toInt := fits_of_texel formedY inside.2
    refine ⟨fitX, fitY, ?_⟩
    obtain ⟨last, insideLast, placeLast⟩ := exists_last fitX.1 fitY.1
    obtain ⟨texelOfs, head, offset, -⟩ := fetches.offset last insideLast
    apply fits_of_last placeLast
    rw [head, offset, ← place_cast insideLast, Nat.cast_mul]
  · intro ⟨fitsX, fitsY, fitOffsets⟩
    constructor
    · exact nearest_inside sizef fitsX fitsY
    · exact bilinear_inside sizef fitsX fitsY
    · intro i inside
      refine ⟨_, head_getTexel_of_fits fitOffsets inside, ?_, ?_⟩
      · rw [← place_cast inside, Nat.cast_mul]
      · exact_mod_cast offset_inside accepted fitOffsets inside

/-- A texture of two by three texels. -/
theorem fetches_iff_small : FetchesInside (Texture2D_create ⟨2, 3⟩ .RGB8 0 18) := by
  have accepted : commit ⟨some ⟨2, 3⟩, some ⟨true, 18⟩, some 3, none⟩ =
      some (.ok (Texture2D_create ⟨2, 3⟩ .RGB8 0 18)) := rfl
  apply (fetches_iff accepted).mpr
  refine ⟨⟨by decide, .inl (by decide)⟩, ⟨by decide, .inl (by decide)⟩, ?_⟩
  unfold OffsetsFit
  decide

/-- Of a texture of `2 ^ 24 + 4` by one texels, a coordinate right below zero gets the texel after
the last one. -/
theorem texel_after_last :
    ∃ self, commit ⟨some ⟨16777220, 1⟩, some ⟨true, 16777220⟩, some 6, none⟩ = some (.ok self) ∧
      (∃ i, nearest_coords self ⟨tiny, tiny⟩ = some i ∧ i.x = self.size.x) ∧ ¬ FetchesInside self := by
  have accepted : commit ⟨some ⟨16777220, 1⟩, some ⟨true, 16777220⟩, some 6, none⟩ =
      some (.ok (Texture2D_create ⟨16777220, 1⟩ .R8 0 16777220)) := rfl
  obtain ⟨one, fraction⟩ := repeated_tiny
  have whole : ((2 ^ 24 + 4 : ℤ) : ℚ) = 2 ^ 24 + 4 := by norm_cast
  have bits : HasBits (2 ^ 24 + 4) := ⟨2 ^ 23 + 2, 1, by norm_num, by decide, by norm_num⟩
  have size : (16777220 : BitVec 32).toInt = 2 ^ 24 + 4 := by decide
  obtain ⟨single, value⟩ := ofExact_of_nearest (nearest_eq_self bits) (by norm_num)
  have scale : sizefOf 16777220 = .finite (2 ^ 24 + 4) single := by
    rw [sizefOf, size, whole, nearest_eq_self bits, Amr.nextafter_same, value]
  have formedX : ((repeated tiny).mul (sizefOf 16777220)).toInt32 = some 16777220 := by
    rw [fraction, scale, Single.mul, one_mul, value, Single.toInt32, if_pos (by norm_num), ← whole, Int.floor_intCast]
    rfl
  have fitsY : SizeFits (1 : BitVec 32).toInt := ⟨by decide, .inl (by decide)⟩
  obtain ⟨y, formedY, -⟩ := texel_spec fitsY (between_repeated tiny)
  have formed : nearest_coords (Texture2D_create ⟨16777220, 1⟩ .R8 0 16777220) ⟨tiny, tiny⟩ = some ⟨16777220, y⟩ := by
    simp only [nearest_coords, Texture2D_create, formedX, formedY, Option.bind_eq_bind, Option.bind_some,
      Option.pure_def]
  refine ⟨_, accepted, ⟨_, formed, rfl⟩, ?_⟩
  intro fetches
  obtain ⟨i, found, inside⟩ := fetches.nearest ⟨tiny, tiny⟩
  cases formed.symm.trans found
  exact absurd inside.1.2 (lt_irrefl _)

end Ospray.Textures
