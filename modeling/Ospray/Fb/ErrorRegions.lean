import Mathlib
import Ospray.Library.Loops
import Ospray.Library.Subdivisions
import Ospray.Fb.TileError

/-!
# The adaptive regions

`refine` goes over the regions there are when it starts. A region it gives up is
replaced by the last one not yet visited, and this one by the last of the list, which
a split has put there, so the list consists of regions that were visited and kept, of
those still to be visited, and of split-off halves that are not visited. What an
iteration does is a change of the subdivision of the image: a region is dropped, or one
of more than two tiles is cut. A region of three tiles or more counts twice its tiles
and a smaller one three, so that no cut raises the count.
-/

namespace Ospray

open Library.Loops Library.Subdivisions

variable {K : Type}

/-! ## Regions of tiles -/

/-- The tiles of a region. -/
def Region.cells (region : Region) : Set Vec2i := {tile | region.Contains tile}

/-- The number of tiles, `reduce_mul(region.size())`. -/
def Region.area (region : Region) : Nat := region.size.x * region.size.y

/-- What `refine` cuts a region into. -/
def RegionCut (region first second : Region) : Prop :=
  2 < region.area ∧ splitRegion region = (first, second)

/-- How much of the capacity a region of so many tiles may use, in thirds. -/
def capacityThirds (area : Nat) : Nat := if area ≤ 2 then 3 else 2 * area

theorem region_nonempty (region : Region) : region.cells.Nonempty ↔
    region.lower.x < region.upper.x ∧ region.lower.y < region.upper.y := by
  constructor
  · rintro ⟨tile, ⟨left, right⟩, bottom, top⟩
    exact ⟨left.trans_lt right, bottom.trans_lt top⟩
  · rintro ⟨wide, high⟩
    exact ⟨region.lower, ⟨le_rfl, wide⟩, le_rfl, high⟩

/-- Halving the longer side of a region with more than two tiles: neither half is empty,
and both together use no more of the capacity. -/
theorem half_capacity {long short : Nat} (large : 2 < long * short) (longer : short ≤ long) :
    (0 < long / 2 ∧ long / 2 < long) ∧
      capacityThirds (long / 2 * short) + capacityThirds ((long - long / 2) * short) ≤
        capacityThirds (long * short) := by
  have nonzero : short ≠ 0 := by
    rintro rfl
    simp at large
  have two : 2 ≤ long := by
    by_contra small
    obtain rfl : long = 1 := by omega
    omega
  refine ⟨by omega, ?_⟩
  have together : long / 2 * short + (long - long / 2) * short = long * short := by
    rw [← Nat.add_mul]
    congr 1
    omega
  by_cases thin : short = 1
  · subst thin
    simp only [Nat.mul_one, capacityThirds] at large ⊢
    split_ifs <;> omega
  · have first : 1 * 2 ≤ long / 2 * short := Nat.mul_le_mul (by omega) (by omega)
    have second : 1 * 2 ≤ (long - long / 2) * short := Nat.mul_le_mul (by omega) (by omega)
    unfold capacityThirds
    split_ifs <;> omega

theorem halves_column {region : Region} {column : Nat} (left : region.lower.x < column)
    (right : column < region.upper.x) (high : region.lower.y < region.upper.y) :
    Halves Region.cells region { region with upper := ⟨column, region.upper.y⟩ }
      { region with lower := ⟨column, region.lower.y⟩ } where
  firstNonempty := (region_nonempty _).mpr ⟨left, high⟩
  secondNonempty := (region_nonempty _).mpr ⟨right, high⟩
  firstWithin := fun _ inside => ⟨⟨inside.1.1, inside.1.2.trans right⟩, inside.2⟩
  secondWithin := fun _ inside => ⟨⟨left.le.trans inside.1.1, inside.1.2⟩, inside.2⟩
  apart := Set.disjoint_left.mpr fun _ inFirst inSecond =>
    absurd inFirst.1.2 (not_lt.mpr inSecond.1.1)

theorem halves_row {region : Region} {row : Nat} (bottom : region.lower.y < row)
    (top : row < region.upper.y) (wide : region.lower.x < region.upper.x) :
    Halves Region.cells region { region with upper := ⟨region.upper.x, row⟩ }
      { region with lower := ⟨region.lower.x, row⟩ } where
  firstNonempty := (region_nonempty _).mpr ⟨wide, bottom⟩
  secondNonempty := (region_nonempty _).mpr ⟨wide, top⟩
  firstWithin := fun _ inside => ⟨inside.1, ⟨inside.2.1, inside.2.2.trans top⟩⟩
  secondWithin := fun _ inside => ⟨inside.1, ⟨bottom.le.trans inside.2.1, inside.2.2⟩⟩
  apart := Set.disjoint_left.mpr fun _ inFirst inSecond =>
    absurd inFirst.2.2 (not_lt.mpr inSecond.2.1)

/-- A cut leaves two separate regions with tiles, which use no more of the capacity. -/
theorem regionCut_halves {region first second : Region} (halves : RegionCut region first second) :
    Halves Region.cells region first second ∧
      capacityThirds first.area + capacityThirds second.area ≤ capacityThirds region.area := by
  obtain ⟨large, parts⟩ := halves
  unfold Region.area at large
  unfold splitRegion at parts
  dsimp only at parts
  have sizes : region.size.x = region.upper.x - region.lower.x ∧
      region.size.y = region.upper.y - region.lower.y := ⟨rfl, rfl⟩
  have some_ : region.size.x ≠ 0 ∧ region.size.y ≠ 0 := by
    constructor <;> intro none_ <;> simp [none_] at large
  by_cases wide : region.size.x > region.size.y
  · obtain ⟨⟨positive, less⟩, light⟩ := half_capacity large wide.le
    rw [if_pos wide] at parts
    obtain ⟨rfl, rfl⟩ := Prod.mk.inj parts
    refine ⟨halves_column (by omega) (by omega) (by omega), ?_⟩
    simp only [Region.area, Region.size] at light ⊢
    rwa [Nat.add_sub_cancel_left, ← Nat.sub_sub]
  · rw [Nat.mul_comm] at large
    obtain ⟨⟨positive, less⟩, light⟩ := half_capacity large (not_lt.mp wide)
    rw [if_neg wide] at parts
    obtain ⟨rfl, rfl⟩ := Prod.mk.inj parts
    refine ⟨halves_row (by omega) (by omega) (by omega), ?_⟩
    simp only [Region.area, Region.size, Nat.mul_comm (region.upper.x - region.lower.x)] at light ⊢
    rwa [Nat.add_sub_cancel_left, ← Nat.sub_sub]

/-! ## The iterations of `refine` -/

/-- Giving up the region that is visited leaves the kept regions where they are, and
permutes those still to be visited and those split off. -/
theorem removeRegion_perm (kept pending fresh : List Region) (region : Region) :
    ∃ pending' fresh', removeRegion (kept ++ (region :: pending ++ fresh)) kept.length
        (kept.length + pending.length) = kept ++ (pending' ++ fresh') ∧
      pending'.Perm pending ∧ fresh'.Perm fresh := by
  have moved : ∀ last, (kept ++ (region :: pending ++ fresh)).set kept.length last =
      kept ++ (last :: pending ++ fresh) := by
    intro last
    rw [List.set_append_right _ _ le_rfl, Nat.sub_self]
    rfl
  -- The place of the region goes to the last pending one, whose place goes to the last of all.
  rcases List.eq_nil_or_concat' pending with rfl | ⟨before, last, rfl⟩
  · refine ⟨[], ?_⟩
    rcases List.eq_nil_or_concat' fresh with rfl | ⟨before, last, rfl⟩
    · refine ⟨[], ?_, .refl _, .refl _⟩
      unfold removeRegion
      dsimp only
      rw [moved]
      simp [List.getLast?_cons, List.dropLast_append_of_ne_nil]
    · refine ⟨last :: before, ?_, .refl _, (List.perm_append_singleton last before).symm⟩
      unfold removeRegion
      dsimp only
      rw [moved]
      simp [List.getLast?_cons, List.dropLast_cons_of_ne_nil, List.dropLast_append_of_ne_nil]
  · refine ⟨last :: before, ?_⟩
    rcases List.eq_nil_or_concat' fresh with rfl | ⟨others, final, rfl⟩
    · refine ⟨[], ?_, (List.perm_append_singleton last before).symm, .refl _⟩
      unfold removeRegion
      dsimp only
      rw [moved]
      simp [List.getLast?_cons, List.dropLast_cons_of_ne_nil, List.dropLast_append_of_ne_nil]
    · refine ⟨final :: others, ?_, (List.perm_append_singleton last before).symm,
        (List.perm_append_singleton final others).symm⟩
      unfold removeRegion
      dsimp only
      rw [moved]
      simp [List.getLast?_cons, List.dropLast_cons_of_ne_nil, List.dropLast_append_of_ne_nil]
section Iterations

variable [Field K] [LinearOrder K] (nextafter : K → K)

/-- One iteration of `refine`, for the region at `i`, after which so many remain: what it
leaves, and the index of the next one. -/
def TileError.refineStep (errorThreshold : K) (self : TileError K) (i remaining : Nat) :
    TileError K × Nat :=
  let region := self.errorRegion.getD i ⟨⟨0, 0⟩, ⟨0, 0⟩⟩
  let errors := (self.indices region).map self.tileErrorBuffer
  let maxErr := errors.foldl max 0
  let raised :=
    if ((errorThreshold : K) : WithTop K) < maxErr then
      self.raise nextafter region errorThreshold
    else self
  let area := region.size.x * region.size.y
  let err := errors.sum.map (· / (area : K))
  if err ≤ ((4 * errorThreshold : K) : WithTop K) then
    if area ≤ 2 ∨ maxErr ≤ ((errorThreshold : K) : WithTop K) then
      ({ raised with errorRegion := removeRegion raised.errorRegion i (i + remaining) }, i)
    else
      let halves := splitRegion region
      ({ raised with errorRegion := raised.errorRegion.set i halves.1 ++ [halves.2] }, i + 1)
  else (raised, i + 1)

/-- The iterations from `i` on: the state each of them finds, and the region it examines. -/
def TileError.iterations (errorThreshold : K) (self : TileError K) (i : Nat) :
    Nat → List (TileError K × Region)
  | 0 => []
  | remaining + 1 =>
    let step := self.refineStep nextafter errorThreshold i remaining
    (self, self.errorRegion.getD i ⟨⟨0, 0⟩, ⟨0, 0⟩⟩) ::
      step.1.iterations errorThreshold step.2 remaining

/-- The iterations of a call of `refine`. -/
def TileError.refineIterations (errorThreshold : K) (self : TileError K) :
    List (TileError K × Region) :=
  if self.tiles = 0 then []
  else
    self.iterations nextafter errorThreshold 0
      (if 0 < errorThreshold then self.errorRegion.length else 0)

theorem refineRegions_succ (errorThreshold : K) (self : TileError K) (i remaining : Nat) :
    self.refineRegions nextafter errorThreshold i (remaining + 1) =
      (self.refineStep nextafter errorThreshold i remaining).1.refineRegions nextafter
        errorThreshold (self.refineStep nextafter errorThreshold i remaining).2 remaining := by
  rw [TileError.refineRegions]
  unfold TileError.refineStep
  dsimp only
  split_ifs <;> rfl

/-- What an iteration does to the errors: they are raised when one of them is above the
threshold. -/
theorem refineStep_errors (errorThreshold : K) (self : TileError K) (i remaining : Nat) :
    let region := self.errorRegion.getD i ⟨⟨0, 0⟩, ⟨0, 0⟩⟩
    let next := (self.refineStep nextafter errorThreshold i remaining).1
    next.numTiles = self.numTiles ∧
      next.tileErrorBuffer =
        if (errorThreshold : WithTop K) < ((self.indices region).map self.tileErrorBuffer).foldl max 0
        then (self.raise nextafter region errorThreshold).tileErrorBuffer
        else self.tileErrorBuffer := by
  unfold TileError.refineStep
  dsimp only
  split_ifs <;> exact ⟨rfl, rfl⟩

/-- What an iteration does to the list of regions. -/
theorem refineStep_cases (errorThreshold : K) (self : TileError K) (i remaining : Nat) :
    let region := self.errorRegion.getD i ⟨⟨0, 0⟩, ⟨0, 0⟩⟩
    let next := self.refineStep nextafter errorThreshold i remaining
    (next.1.errorRegion = removeRegion self.errorRegion i (i + remaining) ∧ next.2 = i) ∨
      (2 < region.area ∧ next.1.errorRegion =
        self.errorRegion.set i (splitRegion region).1 ++ [(splitRegion region).2] ∧
          next.2 = i + 1) ∨
      (next.1.errorRegion = self.errorRegion ∧ next.2 = i + 1) := by
  intro region next
  have same : ∀ (condition : Prop) [Decidable condition], (if condition then
      self.raise nextafter region errorThreshold else self).errorRegion = self.errorRegion := by
    intro condition _
    split <;> rfl
  simp only [next, TileError.refineStep]
  by_cases low : ((self.indices region).map self.tileErrorBuffer).sum.map
      (· / ((region.size.x * region.size.y : Nat) : K)) ≤ ((4 * errorThreshold : K) : WithTop K)
  · rw [if_pos low]
    split
    · left
      exact ⟨by dsimp only; rw [same], rfl⟩
    · next large =>
      right
      left
      refine ⟨?_, by dsimp only; rw [same], rfl⟩
      exact not_le.mp fun small => large (Or.inl small)
  · rw [if_neg low]
    right
    right
    exact ⟨same _, rfl⟩

/-- Of the remaining regions an iteration only changes the order, and what it does to all
of them is a change of the subdivision, or nothing. -/
theorem refineStep_regions (errorThreshold : K) (self : TileError K)
    {kept pending fresh : List Region} {region : Region}
    (regions : self.errorRegion = kept ++ (region :: pending ++ fresh)) :
    let next := self.refineStep nextafter errorThreshold kept.length pending.length
    ∃ kept' pending' fresh', next.1.errorRegion = kept' ++ (pending' ++ fresh') ∧
      next.2 = kept'.length ∧ pending'.Perm pending ∧
      Changes RegionCut self.errorRegion next.1.errorRegion := by
  have current : self.errorRegion.getD kept.length ⟨⟨0, 0⟩, ⟨0, 0⟩⟩ = region := by
    rw [regions]
    simp
  have taken : self.errorRegion.Perm (region :: (kept ++ (pending ++ fresh))) := by
    rw [regions]
    exact List.perm_middle
  intro next
  rcases refineStep_cases nextafter errorThreshold self kept.length pending.length with
    ⟨removed, index⟩ | ⟨large, cut, index⟩ | ⟨unchanged, index⟩
  · obtain ⟨pending', fresh', rest, samePending, sameFresh⟩ :=
      removeRegion_perm kept pending fresh region
    rw [regions, rest] at removed
    refine ⟨kept, pending', fresh', removed, index, samePending, .single ?_⟩
    exact .drop region _ taken (removed ▸ (samePending.append sameFresh).append_left kept)
  · rw [current] at large cut
    have placed : next.1.errorRegion = (kept ++ [(splitRegion region).1]) ++
        (pending ++ (fresh ++ [(splitRegion region).2])) := by
      rw [cut, regions, List.set_append_right _ _ le_rfl, Nat.sub_self]
      simp
    refine ⟨_, _, _, placed, ?_, .refl _, .single ?_⟩
    · rw [List.length_append, List.length_singleton]
      exact index
    · refine .cut region _ _ _ taken ⟨large, rfl⟩ ?_
      rw [placed]
      calc
        _ = kept ++ ((splitRegion region).1 :: ((pending ++ fresh) ++ [(splitRegion region).2])) := by
          simp
        _ |>.Perm ((splitRegion region).1 :: (kept ++ ((pending ++ fresh) ++
            [(splitRegion region).2]))) := List.perm_middle
        _ |>.Perm _ := by
          rw [← List.append_assoc]
          exact (List.perm_append_singleton _ _).cons _
  · refine ⟨kept ++ [region], pending, fresh, ?_, ?_, .refl _, ?_⟩
    · rw [unchanged, regions]
      simp
    · rw [List.length_append, List.length_singleton]
      exact index
    · rw [unchanged]
      exact .refl

/-- The iterations examine the regions that remain, each once, and change the subdivision
step by step. The induction is on the number of remaining regions. -/
theorem iterations_regions (errorThreshold : K) (pending : List Region) (self : TileError K)
    {kept fresh : List Region} (regions : self.errorRegion = kept ++ (pending ++ fresh)) :
    ((self.iterations nextafter errorThreshold kept.length pending.length).map Prod.snd).Perm
        pending ∧
      (∀ iteration ∈ self.iterations nextafter errorThreshold kept.length pending.length,
        Changes RegionCut self.errorRegion iteration.1.errorRegion) ∧
      Changes RegionCut self.errorRegion
        (self.refineRegions nextafter errorThreshold kept.length pending.length).errorRegion := by
  induction size : pending.length generalizing self kept pending fresh with
  | zero =>
    obtain rfl := List.length_eq_zero_iff.mp size
    exact ⟨.refl _, by simp [TileError.iterations], .refl⟩
  | succ remaining inductionHypothesis =>
    obtain ⟨region, others, rfl⟩ := List.exists_cons_of_length_eq_add_one size
    obtain rfl : others.length = remaining := Nat.succ.inj size
    obtain ⟨kept', pending', fresh', next, index, same, changed⟩ :=
      refineStep_regions nextafter errorThreshold self regions
    obtain ⟨examined, passed, final⟩ := inductionHypothesis pending' _ next same.length_eq
    rw [← index] at examined passed final
    have current : self.errorRegion.getD kept.length ⟨⟨0, 0⟩, ⟨0, 0⟩⟩ = region := by
      rw [regions]
      simp
    rw [refineRegions_succ, TileError.iterations]
    refine ⟨?_, ?_, changed.trans final⟩
    · rw [List.map_cons, current]
      exact (examined.trans same).cons region
    · simp only [List.mem_cons, forall_eq_or_imp]
      exact ⟨.refl, fun iteration member => changed.trans (passed iteration member)⟩

/-- The regions after a call of `refine`, and those the iterations find. -/
theorem refine_regions (errorThreshold : K) (self : TileError K) :
    (∀ iteration ∈ self.refineIterations nextafter errorThreshold,
        Changes RegionCut self.errorRegion iteration.1.errorRegion) ∧
      Changes RegionCut self.errorRegion (self.refine nextafter errorThreshold).2.errorRegion := by
  unfold TileError.refineIterations TileError.refine
  split
  · exact ⟨by simp, .refl⟩
  · by_cases positive : 0 < errorThreshold
    · have whole : self.errorRegion = [] ++ (self.errorRegion ++ []) := by simp
      obtain ⟨-, passed, final⟩ :=
        iterations_regions nextafter errorThreshold self.errorRegion self whole
      rw [if_pos positive]
      exact ⟨passed, final⟩
    · rw [if_neg positive]
      exact ⟨by simp [TileError.iterations], .refl⟩

end Iterations

/-! ## Runs of calls -/

/-- The calls that change a `TileError`. -/
inductive TileErrorCall (K : Type) where
  | clear
  | update (tile : Vec2i) (err : WithTop K)
  | refine (errorThreshold : K)

/-- The regions of an image with tiles: none of them is empty, no two of them share a tile,
and all of them lie within the image. -/
structure TileError.RegionInvariant (state : TileError K) : Prop where
  positive : 0 < state.tiles
  proper : ∀ region ∈ state.errorRegion,
    region.lower.x < region.upper.x ∧ region.lower.y < region.upper.y
  inside : ∀ region ∈ state.errorRegion,
    region.upper.x ≤ state.numTiles.x ∧ region.upper.y ≤ state.numTiles.y
  apart : state.errorRegion.Pairwise fun first second =>
    ∀ tile, ¬ (first.Contains tile ∧ second.Contains tile)

/-- A tile that some region contains. -/
def TileError.Covered (self : TileError K) (tile : Vec2i) : Prop :=
  ∃ region ∈ self.errorRegion, region.Contains tile

/-- The capacity the constructor reserves for the regions. -/
def TileError.reserved (self : TileError K) : Nat := divRoundUp (self.tiles * 2) 3

/-- The regions subdivide the image. -/
theorem regionInvariant_iff (self : TileError K) : self.RegionInvariant ↔ 0 < self.tiles ∧
    Subdivision Region.cells (Region.cells ⟨⟨0, 0⟩, self.numTiles⟩) self.errorRegion := by
  constructor
  · rintro ⟨positive, proper, inside, apart⟩
    refine ⟨positive, fun region member => (region_nonempty region).mpr (proper region member),
      ?_, apart.imp fun separate => Set.disjoint_left.mpr fun tile inFirst inSecond =>
        separate tile ⟨inFirst, inSecond⟩⟩
    rintro region member tile ⟨⟨-, right⟩, -, top⟩
    obtain ⟨columns, rows⟩ := inside region member
    exact ⟨⟨Nat.zero_le _, right.trans_le columns⟩, Nat.zero_le _, top.trans_le rows⟩
  · rintro ⟨positive, nonempty, within, apart⟩
    have proper : ∀ region ∈ self.errorRegion,
        region.lower.x < region.upper.x ∧ region.lower.y < region.upper.y :=
      fun region member => (region_nonempty region).mp (nonempty region member)
    refine ⟨positive, proper, ?_, apart.imp fun separate tile inBoth =>
      Set.disjoint_left.mp separate inBoth.1 inBoth.2⟩
    intro region member
    obtain ⟨wide, high⟩ := proper region member
    -- The upper right tile of the region is one of the image.
    have corner : (⟨region.upper.x - 1, region.upper.y - 1⟩ : Vec2i) ∈ region.cells :=
      ⟨⟨Nat.le_sub_one_of_lt wide, Nat.sub_one_lt_of_lt wide⟩,
        Nat.le_sub_one_of_lt high, Nat.sub_one_lt_of_lt high⟩
    obtain ⟨⟨-, right⟩, -, top⟩ := within region member corner
    exact ⟨Nat.le_of_pred_lt right, Nat.le_of_pred_lt top⟩

theorem regionInvariant_changes {self next : TileError K} (tiles : next.numTiles = self.numTiles)
    (changes : Changes RegionCut self.errorRegion next.errorRegion)
    (invariant : self.RegionInvariant) : next.RegionInvariant := by
  rw [regionInvariant_iff] at invariant ⊢
  unfold TileError.tiles at invariant ⊢
  rw [tiles]
  exact ⟨invariant.1,
    invariant.2.changes (fun _ _ _ cut => (regionCut_halves cut).1) changes⟩

/-- The regions use no more of the capacity than one region of all tiles. -/
def TileError.Fits (self : TileError K) : Prop :=
  partsWeight (fun region => capacityThirds region.area) self.errorRegion ≤
    capacityThirds self.tiles

theorem fits_changes {self next : TileError K} (tiles : next.numTiles = self.numTiles)
    (changes : Changes RegionCut self.errorRegion next.errorRegion) (fits : self.Fits) :
    next.Fits := by
  have cutsLight : ∀ region first second, RegionCut region first second →
      capacityThirds first.area + capacityThirds second.area ≤ capacityThirds region.area :=
    fun _ _ _ cut => (regionCut_halves cut).2
  unfold TileError.Fits TileError.tiles at fits ⊢
  rw [tiles]
  exact (partsWeight_changes cutsLight changes).trans fits

theorem length_le_reserved {self : TileError K} (positive : 0 < self.tiles) (fits : self.Fits) :
    self.errorRegion.length ≤ self.reserved := by
  have heavy : ∀ region ∈ self.errorRegion, 3 ≤ capacityThirds region.area := by
    intro region _
    unfold capacityThirds
    split <;> omega
  have bound := (length_mul_le heavy).trans fits
  unfold capacityThirds at bound
  unfold TileError.reserved divRoundUp
  split at bound <;> omega

section Runs

variable [Field K] [LinearOrder K] (nextafter : K → K)

/-- A call of `clear`, `update` or `refine`. -/
def TileError.perform (self : TileError K) : TileErrorCall K → TileError K
  | .clear => self.clear
  | .update tile err => self.update tile err
  | .refine errorThreshold => (self.refine nextafter errorThreshold).2

omit [Field K] [LinearOrder K] in
theorem clear_regions (self : TileError K) (positive : 0 < self.tiles) :
    self.clear.RegionInvariant ∧ self.clear.Fits := by
  have extent : 0 < self.numTiles.x ∧ 0 < self.numTiles.y :=
    ⟨Nat.pos_of_mul_pos_right positive, Nat.pos_of_mul_pos_left positive⟩
  rw [regionInvariant_iff]
  refine ⟨⟨positive, subdivision_singleton ((region_nonempty _).mpr extent)⟩, ?_⟩
  simp [TileError.Fits, partsWeight, TileError.clear, TileError.tiles, Region.area, Region.size]

theorem iterations_tiles (errorThreshold : K) (remaining : Nat) (self : TileError K) (i : Nat) :
    ∀ iteration ∈ self.iterations nextafter errorThreshold i remaining,
      iteration.1.numTiles = self.numTiles := by
  induction remaining generalizing self i with
  | zero => simp [TileError.iterations]
  | succ remaining inductionHypothesis =>
    simp only [TileError.iterations, List.mem_cons, forall_eq_or_imp, true_and]
    intro iteration member
    exact (inductionHypothesis _ _ iteration member).trans
      (refineStep_errors nextafter errorThreshold self i remaining).1

/-- What any call but `clear` does to the regions is a change of the subdivision. -/
theorem perform_changes (self : TileError K) (call : TileErrorCall K) (kept : call ≠ .clear) :
    (self.perform nextafter call).numTiles = self.numTiles ∧
      Changes RegionCut self.errorRegion (self.perform nextafter call).errorRegion := by
  cases call with
  | clear => exact absurd rfl kept
  | update tile err =>
    have unchanged : (self.update tile err).numTiles = self.numTiles ∧
        (self.update tile err).errorRegion = self.errorRegion := by
      unfold TileError.update
      split <;> exact ⟨rfl, rfl⟩
    refine ⟨unchanged.1, ?_⟩
    rw [TileError.perform, unchanged.2]
    exact .refl
  | refine errorThreshold =>
    exact ⟨(refine_le nextafter self errorThreshold).1,
      (refine_regions nextafter errorThreshold self).2⟩

/-- The invariant of all runs. The induction is on the calls, from the last one backwards. -/
theorem performs_regions {numTiles : Vec2i} (positive : 0 < numTiles.x * numTiles.y)
    (calls : List (TileErrorCall K)) :
    let self := calls.foldl (TileError.perform nextafter) (TileError.make numTiles)
    self.numTiles = numTiles ∧ self.RegionInvariant ∧ self.Fits := by
  induction calls using List.reverseRecOn with
  | nil => exact ⟨rfl, clear_regions (TileError.make numTiles) positive⟩
  | append_singleton calls call inductionHypothesis =>
    obtain ⟨tiles, invariant, fits⟩ := inductionHypothesis
    rw [List.foldl_append]
    by_cases cleared : call = .clear
    · subst cleared
      exact ⟨tiles, clear_regions _ invariant.positive⟩
    · obtain ⟨same, changes⟩ := perform_changes nextafter _ call cleared
      exact ⟨same.trans tiles, regionInvariant_changes same changes invariant,
        fits_changes same changes fits⟩

theorem performs_covered (self : TileError K) (later : List (TileErrorCall K))
    (kept : ∀ call ∈ later, call ≠ .clear) (tile : Vec2i)
    (covers : (later.foldl (TileError.perform nextafter) self).Covered tile) :
    self.Covered tile := by
  induction later generalizing self with
  | nil => exact covers
  | cons call rest inductionHypothesis =>
    have between := inductionHypothesis (self.perform nextafter call)
      (fun call member => kept call (List.mem_cons_of_mem _ member)) covers
    obtain ⟨-, changes⟩ := perform_changes nextafter self call (kept call List.mem_cons_self)
    exact covered_changes (fun _ _ _ cut => (regionCut_halves cut).1) changes between

/-- After all calls of `clear`, `update` and `refine` on an image with tiles: the regions
are non-empty, separate and inside the image, and there is capacity for them, also between
the iterations of the next call. A `refine` with a positive threshold examines each region
once, and any other one none; what no region covers stays so until the next `clear`. -/
theorem errorRegions_subdivide {numTiles : Vec2i} (positive : 0 < numTiles.x * numTiles.y)
    (calls : List (TileErrorCall K)) :
    let self := calls.foldl (TileError.perform nextafter) (TileError.make numTiles)
    (self.RegionInvariant ∧ self.errorRegion.length ≤ divRoundUp (numTiles.x * numTiles.y * 2) 3) ∧
      (∀ errorThreshold, ∀ iteration ∈ self.refineIterations nextafter errorThreshold,
        iteration.1.RegionInvariant ∧
          iteration.1.errorRegion.length ≤ divRoundUp (numTiles.x * numTiles.y * 2) 3) ∧
      (∀ errorThreshold, 0 < errorThreshold →
        ((self.refineIterations nextafter errorThreshold).map Prod.snd).Perm self.errorRegion) ∧
      (∀ errorThreshold, errorThreshold ≤ 0 →
        self.refineIterations nextafter errorThreshold = [] ∧
          (self.refine nextafter errorThreshold).2 = self) ∧
      ∀ later : List (TileErrorCall K), (∀ call ∈ later, call ≠ .clear) →
        ∀ tile, ¬ self.Covered tile →
          ¬ (later.foldl (TileError.perform nextafter) self).Covered tile := by
  intro self
  obtain ⟨tiles, invariant, fits⟩ := performs_regions nextafter positive calls
  have some_ : self.tiles ≠ 0 := invariant.positive.ne'
  have capacity : ∀ other : TileError K, other.numTiles = self.numTiles →
      Changes RegionCut self.errorRegion other.errorRegion → other.RegionInvariant ∧
        other.errorRegion.length ≤ divRoundUp (numTiles.x * numTiles.y * 2) 3 := by
    intro other same changes
    have divided := regionInvariant_changes same changes invariant
    have few := length_le_reserved divided.positive (fits_changes same changes fits)
    rw [TileError.reserved, TileError.tiles, same, tiles] at few
    exact ⟨divided, few⟩
  refine ⟨capacity self rfl .refl, ?_, ?_, ?_, ?_⟩
  · intro errorThreshold iteration member
    refine capacity iteration.1 ?_ ((refine_regions nextafter errorThreshold self).1 _ member)
    rw [TileError.refineIterations, if_neg some_] at member
    exact iterations_tiles nextafter errorThreshold _ self 0 iteration member
  · intro errorThreshold above
    rw [TileError.refineIterations, if_neg some_, if_pos above]
    have whole : self.errorRegion = [] ++ (self.errorRegion ++ []) := by simp
    exact (iterations_regions nextafter errorThreshold self.errorRegion self whole).1
  · intro errorThreshold below
    rw [TileError.refineIterations, TileError.refine, if_neg some_, if_neg some_,
      if_neg (not_lt.mpr below)]
    exact ⟨rfl, rfl⟩
  · intro later kept tile uncovered covers
    exact uncovered (performs_covered nextafter self later kept tile covers)

/-- Three tiles that are all done after the first frame: the only region is given up. -/
theorem errorRegions_subdivide_three :
    let done := fun tile : Nat => TileErrorCall.update (K := ℚ) ⟨tile, 0⟩ 1
    let self := [done 0, done 1, done 2, .refine 1].foldl (TileError.perform id)
      (TileError.make ⟨3, 1⟩)
    self.errorRegion = [] ∧ ∀ tile,
      ¬ ([done 0, .refine 2].foldl (TileError.perform id) self).Covered tile := by
  intro done self
  have none_ : self.errorRegion = [] := by decide +kernel
  have later := (@errorRegions_subdivide ℚ _ _ id ⟨3, 1⟩ (by decide)
    [done 0, done 1, done 2, .refine 1]).2.2.2.2 [done 0, .refine 2] (by simp [done])
  refine ⟨none_, fun tile => later tile ?_⟩
  rintro ⟨region, member, -⟩
  change region ∈ self.errorRegion at member
  rw [none_] at member
  exact List.not_mem_nil member

end Runs

/-- With a threshold of zero, as it is when none is set, the region that covers the image
is not examined. -/
theorem refine_zero_examines_none :
    ¬ ∀ (numTiles : Vec2i), 0 < numTiles.x * numTiles.y →
      ∀ (calls : List (TileErrorCall ℚ)) (errorThreshold : ℚ),
        let self := calls.foldl (TileError.perform id) (TileError.make numTiles)
        ((self.refineIterations id errorThreshold).map Prod.snd).Perm self.errorRegion := by
  intro always
  have examined := (always ⟨1, 1⟩ (by decide) [] 0).length_eq
  exact absurd examined (by decide)

end Ospray
