import Mathlib
import Ospray.Library.Loops
import Ospray.Fb.Tile

/-!
# Tile errors

`TileError` keeps the error of every tile and a list of regions of tiles. Between
frames the regions are refined: as long as one tile of a region is above the
threshold, all of them are raised above it, so that they are rendered as a group;
a region whose mean error has dropped far enough is split, or given up.

Errors are exact and may be infinite, which is the top element. The next floating
point number after a threshold is a parameter.
-/

namespace Ospray

open Library.Loops

variable {K : Type}

/-- `TileError`. The regions are boxes of tiles. -/
structure TileError (K : Type) where
  numTiles : Vec2i
  tileErrorBuffer : Nat → WithTop K
  errorRegion : List Region

/-- The number of tiles; it is zero without a variance channel. -/
def TileError.tiles (self : TileError K) : Nat := self.numTiles.x * self.numTiles.y

/-- `clear`: every error is infinite, and one region covers the complete image. -/
def TileError.clear (self : TileError K) : TileError K :=
  { self with tileErrorBuffer := fun _ => ⊤, errorRegion := [⟨⟨0, 0⟩, self.numTiles⟩] }

/-- The constructor, which clears. -/
def TileError.make (numTiles : Vec2i) : TileError K :=
  { numTiles := numTiles, tileErrorBuffer := fun _ => ⊤, errorRegion := [⟨⟨0, 0⟩, numTiles⟩] }

/-- `operator[]`. -/
def TileError.get (self : TileError K) (tile : Vec2i) : WithTop K :=
  if self.tiles = 0 then ⊤ else self.tileErrorBuffer (tile.y * self.numTiles.x + tile.x)

/-- `update`. -/
def TileError.update (self : TileError K) (tile : Vec2i) (err : WithTop K) : TileError K :=
  if 0 < self.tiles then
    { self with
      tileErrorBuffer :=
        Function.update self.tileErrorBuffer (tile.y * self.numTiles.x + tile.x) err }
  else self

/-- The tiles of a region, in the order of its loops. -/
def TileError.indices (self : TileError K) (region : Region) : List Nat :=
  (chunkLanes region.size.y region.size.x).map fun step =>
    (region.lower.y + step.1) * self.numTiles.x + (region.lower.x + step.2)

/-- `split`: the two halves of a region, across its longer side. -/
def splitRegion (region : Region) : Region × Region :=
  let split : Vec2i :=
    ⟨region.lower.x + region.size.x / 2, region.lower.y + region.size.y / 2⟩
  if region.size.x > region.size.y then
    ({ region with upper := ⟨split.x, region.upper.y⟩ },
      { region with lower := ⟨split.x, region.lower.y⟩ })
  else
    ({ region with upper := ⟨region.upper.x, split.y⟩ },
      { region with lower := ⟨region.lower.x, split.y⟩ })

/-- Gives up region `i` of those before `regions`: the last of these takes its place,
and a region split off in this call takes the place of that one. -/
def removeRegion (errorRegion : List Region) (i regions : Nat) : List Region :=
  let moved := errorRegion.set i (errorRegion.getD regions ⟨⟨0, 0⟩, ⟨0, 0⟩⟩)
  (moved.set regions (moved.getLastD ⟨⟨0, 0⟩, ⟨0, 0⟩⟩)).dropLast

section Refine

variable [Field K] [LinearOrder K] (nextafter : K → K)

/-- Raises all tiles of a region above the threshold. -/
def TileError.raise (self : TileError K) (region : Region) (errorThreshold : K) : TileError K :=
  { self with
    tileErrorBuffer := fun tile =>
      if tile ∈ self.indices region then
        max (self.tileErrorBuffer tile) ((nextafter errorThreshold : K) : WithTop K)
      else self.tileErrorBuffer tile }

/-- The loop of `refine` over the regions from `i` on, of which so many remain. -/
def TileError.refineRegions (errorThreshold : K) (self : TileError K) (i : Nat) :
    Nat → TileError K
  | 0 => self
  | remaining + 1 =>
    let region := self.errorRegion.getD i ⟨⟨0, 0⟩, ⟨0, 0⟩⟩
    let errors := (self.indices region).map self.tileErrorBuffer
    let maxErr := errors.foldl max 0
    let raised :=
      if ((errorThreshold : K) : WithTop K) < maxErr then
        self.raise nextafter region errorThreshold
      else self
    let area := region.size.x * region.size.y
    let err := errors.sum.map (· / (area : K))
    if err ≤ ((4 * errorThreshold : K) : WithTop K) then
      if area ≤ 2 ∨ maxErr ≤ ((errorThreshold : K) : WithTop K) then
        TileError.refineRegions errorThreshold
          { raised with errorRegion := removeRegion raised.errorRegion i (i + remaining) }
          i remaining
      else
        let halves := splitRegion region
        TileError.refineRegions errorThreshold
          { raised with errorRegion := raised.errorRegion.set i halves.1 ++ [halves.2] }
          (i + 1) remaining
    else TileError.refineRegions errorThreshold raised (i + 1) remaining

/-- The value `refine` returns: the mean error of the tiles above the threshold, or else
the largest error. -/
def TileError.meanError (self : TileError K) (errorThreshold : K) : WithTop K :=
  let errors := (List.range self.tiles).map self.tileErrorBuffer
  let active := errors.filter fun err => ((errorThreshold : K) : WithTop K) < err
  if active = [] then errors.foldl max 0 else active.sum.map (· / (active.length : K))

/-- `refine`. Nothing is refined for a threshold of zero. -/
def TileError.refine (self : TileError K) (errorThreshold : K) : WithTop K × TileError K :=
  if self.tiles = 0 then (⊤, self)
  else
    (self.meanError errorThreshold,
      self.refineRegions nextafter errorThreshold 0
        (if 0 < errorThreshold then self.errorRegion.length else 0))

omit [Field K] in
theorem raise_le (self : TileError K) (region : Region) (errorThreshold : K) (tile : Nat) :
    self.tileErrorBuffer tile ≤
      (self.raise nextafter region errorThreshold).tileErrorBuffer tile := by
  unfold TileError.raise
  dsimp only
  split
  · exact le_max_left _ _
  · exact le_rfl

/-- Refinement keeps the tiles and lowers no error. -/
theorem refineRegions_le (errorThreshold : K) (self : TileError K) (i remaining : Nat) :
    (self.refineRegions nextafter errorThreshold i remaining).numTiles = self.numTiles ∧
      ∀ tile, self.tileErrorBuffer tile ≤
        (self.refineRegions nextafter errorThreshold i remaining).tileErrorBuffer tile := by
  induction remaining generalizing self i with
  | zero => exact ⟨rfl, fun _ => le_rfl⟩
  | succ remaining inductionHypothesis =>
    have raised : ∀ region regions, ∀ (condition : Prop) [Decidable condition] next,
        let raised := if condition then self.raise nextafter region errorThreshold else self
        (({ raised with errorRegion := regions } : TileError K).refineRegions nextafter
            errorThreshold next remaining).numTiles = self.numTiles ∧
          ∀ tile, self.tileErrorBuffer tile ≤
            (({ raised with errorRegion := regions } : TileError K).refineRegions nextafter
              errorThreshold next remaining).tileErrorBuffer tile := by
      intro region regions condition _ next raised
      obtain ⟨tiles, above⟩ := inductionHypothesis { raised with errorRegion := regions } next
      refine ⟨tiles.trans ?_, fun tile => le_trans ?_ (above tile)⟩
      · simp only [raised]
        split <;> rfl
      · simp only [raised]
        split
        · exact raise_le nextafter self region errorThreshold tile
        · exact le_rfl
    unfold TileError.refineRegions
    dsimp only
    split
    · split
      · exact raised _ _ _ i
      · exact raised _ _ _ (i + 1)
    · exact raised _ _ _ (i + 1)

omit [Field K] in
theorem get_le {self other : TileError K} (tiles : other.numTiles = self.numTiles)
    (above : ∀ tile, self.tileErrorBuffer tile ≤ other.tileErrorBuffer tile) (tile : Vec2i) :
    self.get tile ≤ other.get tile := by
  unfold TileError.get TileError.tiles
  rw [tiles]
  split
  · exact le_rfl
  · exact above _

theorem refine_le (self : TileError K) (errorThreshold : K) :
    (self.refine nextafter errorThreshold).2.numTiles = self.numTiles ∧
      ∀ tile, self.get tile ≤ (self.refine nextafter errorThreshold).2.get tile := by
  unfold TileError.refine
  split
  · exact ⟨rfl, fun _ => le_rfl⟩
  · obtain ⟨tiles, above⟩ := refineRegions_le nextafter errorThreshold self 0
      (if 0 < errorThreshold then self.errorRegion.length else 0)
    exact ⟨tiles, get_le tiles above⟩

end Refine

end Ospray
