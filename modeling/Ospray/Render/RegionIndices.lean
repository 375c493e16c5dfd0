import Ospray.Render.RegionOwners

/-!
# Region numbers as indices

`renderFrame` keeps three arrays with one entry for each region of the sorted
list of all regions: where the region projects to, whether it is visible in a
tile, and its place in the depth order. They are filled by position and read by
region number. The two agree on all ranks exactly when the numbers the ranks
supply are `0, 1, …, k - 1`; the documentation asks only that a number identifies
its data.

The camera, the rays and the errors of tiles are the functions of a `RegionFrame`; the
arrays, the tiles a rank works on and the accesses it makes are those of the code.
-/

namespace Ospray

open Library.SortedSets

universe u
variable {β : Type u}

/-- What camera, rays and accumulated errors decide in one frame. -/
structure RegionFrame (β : Type u) where
  totalTiles : Nat
  numGlobalRanks : Nat
  /-- The tiles of a projected region, none if it is empty or behind the camera. -/
  projectedTiles : β → List Nat
  /-- The depth of a projected region, infinite if it is empty. -/
  depth : β → WithTop ℚ
  /-- Whether some ray of a tile meets the bounds. -/
  touches : Nat → β → Bool
  /-- Whether a tile's error is above the threshold. -/
  unfinished : Nat → Bool

/-- The arrays that `renderFrame` reads by region number. -/
inductive RegionArray where
  | projectedRegions
  | regionVisible
  | sortOrder
  deriving DecidableEq

/-- One read of an array through a region number. -/
structure RegionAccess where
  array : RegionArray
  id : Int
  deriving DecidableEq

/-- Reading a vector through an `int`; a negative one is no index. -/
def readAt {α : Type*} (entries : List α) (id : Int) : Option α :=
  if 0 ≤ id then entries[id.toNat]? else none

namespace DistributedRaycastRenderer

/-- The prepass: the tiles each region of the world projects to, by position. -/
def projectedRegions (self : DistributedRaycastRenderer β) (frame : RegionFrame β) : List (List Nat) :=
  self.allRegions.map fun region => frame.projectedTiles region.bounds

/-- The positions of the regions in the depth order, by position. -/
def sortOrder (self : DistributedRaycastRenderer β) (frame : RegionFrame β) : List Nat :=
  let regionOrdering := ((self.allRegions.map fun region => frame.depth region.bounds).zipIdx).mergeSort
    (fun first second => first.1 ≤ second.1)
  (List.range self.allRegions.length).map fun i => (regionOrdering.map Prod.snd).idxOf i

/-- What the first `renderTile` finds visible in a tile, by position. -/
def regionVisible (self : DistributedRaycastRenderer β) (frame : RegionFrame β) (tileIndex : Nat) :
    List Bool :=
  self.allRegions.map fun region => frame.touches tileIndex region.bounds

/-- The tiles a rank works on: those of its regions it is responsible for and those
it owns, sorted, without duplicates and without the finished ones. -/
def tilesForFrame (self : DistributedRaycastRenderer β) (frame : RegionFrame β) (globalRank : Nat) :
    List Nat :=
  let projected := self.regions.flatMap fun region =>
    ((readAt (self.projectedRegions frame) region.id).getD []).filter fun tileIndex =>
      self.regionTileOwner globalRank region.id tileIndex
  let owned := (List.range frame.totalTiles).filter fun tileIndex =>
    tileIndex % frame.numGlobalRanks == globalRank
  (((projected ++ owned).mergeSort (· ≤ ·)).destutter (· ≠ ·)).filter frame.unfinished

/-- The accesses of the task that renders one tile. -/
def tileAccesses (self : DistributedRaycastRenderer β) (frame : RegionFrame β) (globalRank : Nat)
    (tileIndex : Nat) : List RegionAccess :=
  let myVisibleRegions := self.regions.filter fun region =>
    (readAt (self.regionVisible frame tileIndex) region.id).getD false
  let tileOwned := myVisibleRegions.filter fun region =>
    self.regionTileOwner globalRank region.id tileIndex
  self.regions.map (fun region => ⟨.regionVisible, region.id⟩) ++
    tileOwned.map (fun region => ⟨.sortOrder, region.id⟩)

/-- Every access of `renderFrame` through a region number. A rank without regions
renders without the distributed path. -/
def renderFrameAccesses (self : DistributedRaycastRenderer β) (frame : RegionFrame β)
    (globalRank : Nat) : List RegionAccess :=
  if self.regions.isEmpty then []
  else self.regions.map (fun region => ⟨.projectedRegions, region.id⟩) ++
    (self.tilesForFrame frame globalRank).flatMap (self.tileAccesses frame globalRank)

/-- The number of entries of an array. -/
def arraySize (self : DistributedRaycastRenderer β) (frame : RegionFrame β) : RegionArray → Nat
  | .projectedRegions => (self.projectedRegions frame).length
  | .regionVisible => (self.regionVisible frame 0).length
  | .sortOrder => (self.sortOrder frame).length

/-- An access is within its array and reads the entry of the region it names. -/
structure SoundAccess (renderer : DistributedRaycastRenderer β) (frame : RegionFrame β)
    (access : RegionAccess) : Prop where
  natural : 0 ≤ access.id
  inBounds : access.id < renderer.arraySize frame access.array
  ownEntry : ∃ region, renderer.allRegions[access.id.toNat]? = some region ∧ region.id = access.id

theorem arraySize_eq (self : DistributedRaycastRenderer β) (frame : RegionFrame β)
    (array : RegionArray) : self.arraySize frame array = self.allRegions.length := by
  cases array with
  | projectedRegions => exact List.length_map _
  | regionVisible => exact List.length_map _
  | sortOrder =>
    rw [arraySize, sortOrder, List.length_map, List.length_range]

/-- The arrays do not matter for soundness: an access is sound when the number is
its own position among the numbers of all regions. -/
theorem soundAccess_iff (self : DistributedRaycastRenderer β) (frame : RegionFrame β)
    (access : RegionAccess) :
    self.SoundAccess frame access ↔ 0 ≤ access.id ∧
      (self.allRegions.map DistributedRegion.id)[access.id.toNat]? = some access.id := by
  rw [List.getElem?_map, Option.map_eq_some_iff]
  constructor
  · intro sound
    exact ⟨sound.natural, sound.ownEntry⟩
  · rintro ⟨natural, region, found, same⟩
    obtain ⟨inside, _⟩ := List.getElem?_eq_some_iff.mp found
    constructor
    · exact natural
    · rw [arraySize_eq]
      omega
    · exact ⟨region, found, same⟩

theorem access_own (self : DistributedRaycastRenderer β) (frame : RegionFrame β) (globalRank : Nat)
    {access : RegionAccess} (made : access ∈ self.renderFrameAccesses frame globalRank) :
    ∃ region ∈ self.regions, region.id = access.id := by
  rw [renderFrameAccesses] at made
  split at made
  · cases made
  · rcases List.mem_append.mp made with prepass | perTile
    · obtain ⟨region, own, rfl⟩ := List.mem_map.mp prepass
      exact ⟨region, own, rfl⟩
    · obtain ⟨tileIndex, -, inTile⟩ := List.mem_flatMap.mp perTile
      rcases List.mem_append.mp inTile with visible | sorted
      · obtain ⟨region, own, rfl⟩ := List.mem_map.mp visible
        exact ⟨region, own, rfl⟩
      · obtain ⟨region, owned, rfl⟩ := List.mem_map.mp sorted
        exact ⟨region, (List.mem_filter.mp (List.mem_filter.mp owned).1).1, rfl⟩

theorem prepass_access (self : DistributedRaycastRenderer β) (frame : RegionFrame β) (globalRank : Nat)
    {region : DistributedRegion β} (own : region ∈ self.regions) :
    ⟨.projectedRegions, region.id⟩ ∈ self.renderFrameAccesses frame globalRank := by
  have some_ : self.regions.isEmpty = false := by
    rw [List.isEmpty_eq_false_iff]
    exact List.ne_nil_of_mem own
  rw [renderFrameAccesses, some_]
  exact List.mem_append_left _ (List.mem_map.mpr ⟨region, own, rfl⟩)

end DistributedRaycastRenderer

/-! ## The numbers of all regions -/

theorem pruneRegions_ids (regions : List (DistributedRegion β)) :
    (pruneRegions regions).map DistributedRegion.id =
      (regions.map DistributedRegion.id).destutter (· ≠ ·) :=
  List.map_destutter fun _ _ _ _ => Iff.rfl

/-- After a commit a rank knows its own regions, and the numbers of all regions
are strictly increasing and those that the ranks supplied. -/
theorem commit_ids {n : Nat} (globalRank : Fin n) (supplied : Commit n β)
    (previous : DistributedRaycastRenderer β) :
    let self := previous.commit globalRank supplied
    self.regions = supplied globalRank ∧
      (self.allRegions.map DistributedRegion.id).Pairwise (· < ·) ∧
      ∀ id, id ∈ self.allRegions.map DistributedRegion.id ↔ ∃ rank, supplied.Holds rank id := by
  obtain ⟨collected, -⟩ := rounds_collect globalRank supplied (List.finRange n)
    { previous with regions := supplied globalRank, allRegions := [] } rfl
  have listed : (previous.commit globalRank supplied).allRegions =
      pruneRegions (((List.finRange n).flatMap supplied).mergeSort (fun a b => a.id ≤ b.id)) :=
    congrArg (fun all : List (DistributedRegion β) =>
      pruneRegions (all.mergeSort (fun a b => a.id ≤ b.id))) collected
  refine ⟨rounds_regions globalRank supplied _ _, ?_, ?_⟩
  · rw [listed, pruneRegions_ids]
    apply destutter_increasing
    rw [List.pairwise_map]
    apply List.Pairwise.imp (fun {_ _} relation => of_decide_eq_true relation)
    apply List.pairwise_mergeSort
    · intro a b c first second
      simp only [decide_eq_true_eq] at *
      omega
    · intro a b
      simp only [Bool.or_eq_true, decide_eq_true_eq]
      omega
  · intro id
    rw [listed, pruneRegions_ids, mem_destutter_ne, List.mem_map]
    constructor
    · rintro ⟨region, member, same⟩
      rw [List.mem_mergeSort, List.mem_flatMap] at member
      obtain ⟨rank, -, sent⟩ := member
      exact ⟨rank, region, sent, same⟩
    · rintro ⟨rank, region, sent, same⟩
      refine ⟨region, ?_, same⟩
      rw [List.mem_mergeSort, List.mem_flatMap]
      exact ⟨rank, List.mem_finRange rank, sent⟩

/-- All accesses of one rank are sound exactly when each of its numbers is its own
position among the numbers of all regions. -/
theorem rank_accesses_sound_iff {n : Nat} (globalRank : Fin n) (supplied : Commit n β)
    (previous : DistributedRaycastRenderer β) (frame : RegionFrame β) :
    let self := previous.commit globalRank supplied
    (∀ access ∈ self.renderFrameAccesses frame globalRank.val, self.SoundAccess frame access) ↔
      ∀ id, supplied.Holds globalRank id → 0 ≤ id ∧
        (self.allRegions.map DistributedRegion.id)[id.toNat]? = some id := by
  obtain ⟨own, -, -⟩ := commit_ids globalRank supplied previous
  intro self
  constructor
  · rintro sound id ⟨region, held, rfl⟩
    have made := self.prepass_access frame globalRank.val (own ▸ held)
    exact (self.soundAccess_iff frame _).mp (sound _ made)
  · intro positions access made
    obtain ⟨region, ownRegion, same⟩ := self.access_own frame globalRank.val made
    apply (self.soundAccess_iff frame access).mpr
    exact positions access.id ⟨region, own ▸ ownRegion, same⟩

/-- All accesses that `renderFrame` makes through region numbers, on every rank,
are within bounds and read the entry of the named region exactly when the numbers
the ranks supply together are the integers from zero up to some count. -/
theorem regionAccesses_sound_iff {n : Nat} (supplied : Commit n β)
    (previous : Fin n → DistributedRaycastRenderer β) (frame : Fin n → RegionFrame β) :
    (∀ rank, ∀ access ∈
        ((previous rank).commit rank supplied).renderFrameAccesses (frame rank) rank.val,
      ((previous rank).commit rank supplied).SoundAccess (frame rank) access) ↔
    ∃ count : Nat, ∀ id : Int, (∃ rank, supplied.Holds rank id) ↔ 0 ≤ id ∧ id < count := by
  simp only [rank_accesses_sound_iff]
  constructor
  · intro positions
    by_cases anyRank : Nonempty (Fin n)
    · obtain ⟨observer⟩ := anyRank
      obtain ⟨-, increasing, members⟩ := commit_ids observer supplied (previous observer)
      simp only [← members]
      apply (entries_are_positions_iff increasing).mp
      intro id listed
      obtain ⟨rank, holds⟩ := (members id).mp listed
      obtain ⟨-, othersIncreasing, others⟩ := commit_ids rank supplied (previous rank)
      have shared := increasing.eq_of_mem_iff othersIncreasing
        (fun id => (members id).trans (others id).symm)
      rw [shared]
      exact positions rank id holds
    · refine ⟨0, ?_⟩
      intro id
      constructor
      · rintro ⟨rank, -⟩
        exact absurd ⟨rank⟩ anyRank
      · rintro ⟨natural, negative⟩
        omega
  · rintro ⟨count, counted⟩ rank id holds
    obtain ⟨-, increasing, members⟩ := commit_ids rank supplied (previous rank)
    simp only [← members] at counted
    exact (entries_are_positions_iff increasing).mpr ⟨count, counted⟩ id
      ((members id).mpr ⟨rank, holds⟩)

/-- Two ranks with the regions 10 and 20: rank 0 reads the projection of region 10
from an array with two entries. -/
theorem labels_are_not_indices :
    ¬ ∀ (supplied : Commit 2 Unit) (frame : RegionFrame Unit),
      (∀ first second id, supplied.Holds first id → supplied.Holds second id → first = second) →
      ∀ rank, ∀ access ∈
        (DistributedRaycastRenderer.initial.commit rank supplied).renderFrameAccesses frame rank.val,
      (DistributedRaycastRenderer.initial.commit rank supplied).SoundAccess frame access := by
  intro sound
  let supplied : Commit 2 Unit := fun rank => [⟨(), if rank = 0 then 10 else 20⟩]
  let frame : RegionFrame Unit :=
    { totalTiles := 1, numGlobalRanks := 2, projectedTiles := fun _ => [0], depth := fun _ => 1,
      touches := fun _ _ => true, unfinished := fun _ => true }
  have distinct : ∀ first second id, supplied.Holds first id → supplied.Holds second id →
      first = second := by
    rintro first second id ⟨region, held, same⟩ ⟨other, otherHeld, otherSame⟩
    rw [List.mem_singleton.mp held] at same
    rw [List.mem_singleton.mp otherHeld, ← same] at otherSame
    have labels : ∀ first second : Fin 2, (if second = 0 then (10 : Int) else 20) =
        (if first = 0 then 10 else 20) → first = second := by decide
    exact labels first second otherSame
  have positions :=
    (rank_accesses_sound_iff 0 supplied .initial frame).mp (sound supplied frame distinct 0)
  obtain ⟨-, found⟩ := positions 10 ⟨⟨(), 10⟩, List.mem_singleton_self _, rfl⟩
  obtain ⟨-, increasing, members⟩ := commit_ids 0 supplied .initial
  obtain ⟨inside, -⟩ := List.getElem?_eq_some_iff.mp found
  have few : (((DistributedRaycastRenderer.initial.commit 0 supplied).allRegions.map
      DistributedRegion.id)).length ≤ [(10 : Int), 20].length := by
    apply List.Subperm.length_le
    apply List.subperm_of_subset (increasing.imp ne_of_lt)
    intro id listed
    obtain ⟨rank, region, held, same⟩ := (members id).mp listed
    rw [List.mem_singleton.mp held] at same
    by_cases first : rank = 0
    · simp [← same, first]
    · simp [← same, first]
  have small : (10 : Int).toNat < 2 := Nat.lt_of_lt_of_le inside few
  exact absurd small (by decide)

end Ospray
