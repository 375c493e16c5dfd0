import Mathlib
import Ospray.Fb.AlphaBlendTile

/-!
# The loops that sort and blend fragments

`sortAndBlendFragments` of `DistributedFrameBuffer.ispc` works in place: an
insertion sort swaps the fragments of neighbouring tiles, and the composited
fragment is written into the first tile, which holds an input. A SIMD program
does so for the fragments of several pixels at once. A lane that breaks out of the
inner loop is masked off until the loop ends, so no lane depends on another.

The sort swaps fragments of equal depth. The order it leaves is one by decreasing
depth all the same, and the only one if the depths are distinct; then the order of
the tiles does not matter.
-/

namespace Ospray

variable {K D : Type}

/-- The fragments of all tiles at one pixel. -/
def fragmentsAt (tiles : List (Tile K D)) (j : Nat) : List (Vec4 K × D) :=
  tiles.map fun tile => ((tile.pixel j).color, (tile.pixel j).z)

/-- `swapFragments`, for the tiles at `j + 1` and `j`. -/
def swapFragments (fragments : List (Vec4 K × D)) (j : Nat) : List (Vec4 K × D) :=
  match fragments[j + 1]?, fragments[j]? with
  | some ta, some tb => (fragments.set (j + 1) tb).set j ta
  | _, _ => fragments

section Loops

variable [LT D] [DecidableLT D]

/-- The test that ends the inner loop at `j + 1`. -/
def inOrder (fragments : List (Vec4 K × D)) (j : Nat) : Bool :=
  match fragments[j + 1]?, fragments[j]? with
  | some ta, some tb => ta.2 < tb.2
  | _, _ => true

/-- The inner loop of the sort, from some index down, for a gang of lanes of which
some are active. -/
def siftGang (active : Nat → Bool) (gang : Nat → List (Vec4 K × D)) :
    Nat → Nat → List (Vec4 K × D)
  | 0 => gang
  | j + 1 =>
    let going := fun lane => active lane && !inOrder (gang lane) j
    siftGang going (fun lane => if going lane then swapFragments (gang lane) j else gang lane) j

/-- The outer loop of the sort, in which every lane takes part. -/
def sortGang (numTiles : Nat) (gang : Nat → List (Vec4 K × D)) : Nat → List (Vec4 K × D) :=
  (List.range' 1 (numTiles - 1)).foldl (fun gang i => siftGang (fun _ => true) gang i) gang

/-- The inner loop for one lane, which ends with its `break`. -/
def siftLoop (fragments : List (Vec4 K × D)) : Nat → List (Vec4 K × D)
  | 0 => fragments
  | j + 1 =>
    if inOrder fragments j then fragments else siftLoop (swapFragments fragments j) j

/-- Both loops for one lane. -/
def sortLoop (fragments : List (Vec4 K × D)) : List (Vec4 K × D) :=
  (List.range' 1 (fragments.length - 1)).foldl siftLoop fragments

end Loops

section Blend

variable [Field K]

/-- The back-to-front composite of fragments, the farthest of which comes first. -/
def composite (fragments : List (Vec4 K × D)) : Vec4 K :=
  fragments.foldl (fun acc fragment => blendOver acc fragment.1) 0

/-- What the rest of the kernel leaves of sorted fragments: the first tile holds the
composite, at the depth of the last tile. -/
def writeBlended (fragments : List (Vec4 K × D)) : List (Vec4 K × D) :=
  match fragments.getLast? with
  | some nearest => fragments.set 0 (composite fragments, nearest.2)
  | none => fragments

/-- A pixel with another fragment in it. -/
def Pixel.withFragment (self : Pixel K D) : Option (Vec4 K × D) → Pixel K D
  | some (color, z) => { self with color := color, z := z }
  | none => self

variable [LT D] [DecidableLT D]

/-- One iteration of the loop over `frag`. -/
def blendChunk (target : Target) (tiles : List (Tile K D)) (frag : Nat) : List (Tile K D) :=
  let gang := fun lane => fragmentsAt tiles (frag * target.programCount + lane)
  let sorted := sortGang tiles.length gang
  tiles.mapIdx fun position tile =>
    { tile with pixel := fun j =>
        if j / target.programCount = frag then
          (tile.pixel j).withFragment (writeBlended (sorted (j % target.programCount)))[position]?
        else tile.pixel j }

/-- `DFB_sortAndBlendFragments`, as its loops compute it. -/
def sortAndBlendLoop (target : Target) (tiles : List (Tile K D)) : List (Tile K D) :=
  (List.range (target.tileSize * target.tileSize / target.programCount)).foldl
    (blendChunk target) tiles

/-- What `AlphaBlendTile_simple::process` accumulates: the buffered tiles are sorted by
`sortOrder` and blended into the first one. -/
def blendBuffer (target : Target) (bufferedTile : List (Tile K D)) : Option (Tile K D) :=
  (sortAndBlendFragments target
    (bufferedTile.mergeSort fun a b => b.sortOrder ≤ a.sortOrder)).head?

end Blend

/-! ## The sort -/

theorem swapFragments_middle (front rest : List (Vec4 K × D)) (left right : Vec4 K × D) :
    swapFragments (front ++ left :: right :: rest) front.length = front ++ right :: left :: rest := by
  simp [swapFragments]

section Sorting

variable [LT D] [DecidableLT D]

theorem siftGang_lane (active : Nat → Bool) (gang : Nat → List (Vec4 K × D)) (i lane : Nat) :
    siftGang active gang i lane = if active lane then siftLoop (gang lane) i else gang lane := by
  induction i generalizing active gang with
  | zero => simp [siftGang, siftLoop]
  | succ j inductionHypothesis =>
    unfold siftGang siftLoop
    rw [inductionHypothesis]
    cases on : active lane <;> cases done : inOrder (gang lane) j <;> simp [on, done]

theorem sortGang_lane (numTiles : Nat) (gang : Nat → List (Vec4 K × D)) (lane : Nat)
    (tall : (gang lane).length = numTiles) :
    sortGang numTiles gang lane = sortLoop (gang lane) := by
  unfold sortGang sortLoop
  rw [tall]
  clear tall
  generalize List.range' 1 (numTiles - 1) = indices
  induction indices generalizing gang with
  | nil => rfl
  | cons i rest inductionHypothesis =>
    have now : siftGang (fun _ => true) gang i lane = siftLoop (gang lane) i := by
      rw [siftGang_lane, if_pos rfl]
    rw [List.foldl_cons, List.foldl_cons, inductionHypothesis, now]

/-- The inner loop moves a fragment past its left neighbours until it is nearer than
one. The induction is on the fragments to its left, from the right end. -/
theorem siftLoop_eq (front rest : List (Vec4 K × D)) (fragment : Vec4 K × D) :
    siftLoop (front ++ fragment :: rest) front.length =
      (siftFragment fragment front.reverse).reverse ++ rest := by
  induction front using List.reverseRecOn generalizing rest with
  | nil => rfl
  | append_singleton front neighbour inductionHypothesis =>
    have tested : inOrder (front ++ neighbour :: fragment :: rest) front.length =
        decide (fragment.2 < neighbour.2) := by
      simp [inOrder]
    have swapped := swapFragments_middle front rest neighbour fragment
    rw [List.length_append, List.length_singleton, List.append_assoc, List.singleton_append,
      siftLoop, tested, swapped, inductionHypothesis, List.reverse_append,
      List.reverse_singleton, List.singleton_append, siftFragment]
    by_cases nearer : fragment.2 < neighbour.2
    · simp [nearer]
    · simp [nearer]

theorem siftFragment_perm (fragment : Vec4 K × D) (others : List (Vec4 K × D)) :
    (siftFragment fragment others).Perm (fragment :: others) := by
  induction others with
  | nil => rfl
  | cons neighbour others inductionHypothesis =>
    unfold siftFragment
    split
    · rfl
    · exact (inductionHypothesis.cons neighbour).trans (List.Perm.swap _ _ _)

theorem sortFragments_snoc (fragments : List (Vec4 K × D)) (fragment : Vec4 K × D) :
    sortFragments (fragments ++ [fragment]) = siftFragment fragment (sortFragments fragments) := by
  simp [sortFragments]

theorem sortFragments_perm (fragments : List (Vec4 K × D)) :
    (sortFragments fragments).Perm fragments := by
  induction fragments using List.reverseRecOn with
  | nil => rfl
  | append_singleton fragments fragment inductionHypothesis =>
    rw [sortFragments_snoc]
    exact (siftFragment_perm _ _).trans
      ((inductionHypothesis.cons fragment).trans (List.perm_append_singleton _ _).symm)

/-- The loops sort the fragments as `sortFragments` lists them. After the passes up to
some index, the fragments before it are sorted. -/
theorem sortLoop_eq (fragments : List (Vec4 K × D)) :
    sortLoop fragments = (sortFragments fragments).reverse := by
  have passes : ∀ first rest : List (Vec4 K × D),
      (List.range' first.length rest.length).foldl siftLoop
          ((sortFragments first).reverse ++ rest) =
        (sortFragments (first ++ rest)).reverse := by
    intro first rest
    induction rest generalizing first with
    | nil => simp
    | cons fragment rest inductionHypothesis =>
      have pass := siftLoop_eq (sortFragments first).reverse rest fragment
      rw [List.length_reverse, (sortFragments_perm first).length_eq, List.reverse_reverse,
        ← sortFragments_snoc] at pass
      have onwards := inductionHypothesis (first ++ [fragment])
      rw [List.length_append, List.length_singleton] at onwards
      rw [List.length_cons, List.range'_succ, List.foldl_cons, pass, onwards, List.append_assoc,
        List.singleton_append]
  cases fragments with
  | nil => rfl
  | cons first rest =>
    have whole := passes [first] rest
    simpa [sortLoop, sortFragments, siftFragment] using whole

end Sorting

/-! ## The kernel -/

section Kernel

variable [Field K] [LT D] [DecidableLT D]

/-- At each position the blended fragments of a pixel are those the tiles are left with. -/
theorem blendedPixel_eq (tiles : List (Tile K D)) (position j : Nat)
    (inside : position < tiles.length) (old : Pixel K D) :
    blendedPixel tiles position j old =
      old.withFragment (writeBlended (sortLoop (fragmentsAt tiles j)))[position]? := by
  have column : tiles.map (fun tile => ((tile.pixel j).color, (tile.pixel j).z)) =
      fragmentsAt tiles j := rfl
  have lengths : (sortFragments (fragmentsAt tiles j)).length = tiles.length := by
    rw [(sortFragments_perm _).length_eq, fragmentsAt, List.length_map]
  unfold blendedPixel
  rw [column, sortLoop_eq]
  unfold blendFragments writeBlended
  rw [List.getLast?_reverse]
  cases sorted : sortFragments (fragmentsAt tiles j) with
  | nil =>
    rw [sorted, List.length_nil] at lengths
    omega
  | cons nearest behind =>
    rw [sorted] at lengths
    have placed : position < (nearest :: behind).reverse.length := by
      rw [List.length_reverse, lengths]
      exact inside
    by_cases first : position = 0
    · subst first
      simp only [if_true, sorted, List.head?_cons, List.getElem?_set_self placed]
      rfl
    · simp only [first, if_false, sorted, List.head?_cons, List.getElem?_set_ne (Ne.symm first)]
      rw [List.getElem?_eq_getElem placed]
      rfl

/-- The tiles with the pixels before some index blended. -/
def blendedBefore (tiles : List (Tile K D)) (pixels : Nat) : List (Tile K D) :=
  tiles.mapIdx fun position tile =>
    { tile with pixel := fun j =>
        if j < pixels then
          (tile.pixel j).withFragment (writeBlended (sortLoop (fragmentsAt tiles j)))[position]?
        else tile.pixel j }

theorem fragmentsAt_blendedBefore (tiles : List (Tile K D)) {pixels j : Nat}
    (later : pixels ≤ j) : fragmentsAt (blendedBefore tiles pixels) j = fragmentsAt tiles j := by
  have notYet : ¬ j < pixels := Nat.not_lt.mpr later
  refine List.ext_getElem? ?_
  intro position
  cases found : tiles[position]? <;> simp [fragmentsAt, blendedBefore, found, notYet]

/-- One chunk more is blended. -/
theorem blendChunk_eq (target : Target) (tiles : List (Tile K D)) (chunks : Nat) :
    blendChunk target (blendedBefore tiles (chunks * target.programCount)) chunks =
      blendedBefore tiles ((chunks + 1) * target.programCount) := by
  have positive := target.programCount_positive
  refine List.ext_getElem? ?_
  intro position
  cases found : tiles[position]? with
  | none => simp [blendChunk, blendedBefore, found]
  | some tile =>
    simp only [blendChunk, List.getElem?_mapIdx, blendedBefore, found, Option.map_some,
      Option.some.injEq, Tile.mk.injEq, true_and, List.length_mapIdx]
    funext j
    by_cases visited : j / target.programCount = chunks
    · have split : chunks * target.programCount + j % target.programCount = j := by
        rw [← visited, Nat.mul_comm]
        exact Nat.div_add_mod j target.programCount
      have lane := Nat.mod_lt j positive
      have notYet : ¬ j < chunks * target.programCount := by omega
      have now : j < (chunks + 1) * target.programCount := by
        rw [Nat.succ_mul]
        omega
      have still := fragmentsAt_blendedBefore tiles (Nat.not_lt.mp notYet)
      have sorted := sortGang_lane tiles.length (fun lane => fragmentsAt
        (blendedBefore tiles (chunks * target.programCount)) (chunks * target.programCount + lane))
        (j % target.programCount) (by simp [fragmentsAt, blendedBefore])
      simp only [split, still] at sorted
      rw [if_pos visited, if_pos now, if_neg notYet]
      exact congrArg (fun fragments => (tile.pixel j).withFragment (writeBlended fragments)[position]?)
        sorted
    · have same : j < chunks * target.programCount ↔ j < (chunks + 1) * target.programCount := by
        rw [← Nat.div_lt_iff_lt_mul positive, ← Nat.div_lt_iff_lt_mul positive]
        omega
      rw [if_neg visited]
      simp only [same]

/-- The loops of the kernel blend the fragments of every pixel of a tile. -/
theorem sortAndBlendLoop_eq (target : Target) (tiles : List (Tile K D)) :
    sortAndBlendLoop target tiles = sortAndBlendFragments target tiles := by
  have chunks : ∀ count, (List.range count).foldl (blendChunk target) tiles =
      blendedBefore tiles (count * target.programCount) := by
    intro count
    induction count with
    | zero =>
      refine List.ext_getElem? ?_
      intro position
      cases found : tiles[position]? <;> simp [blendedBefore, found]
    | succ count inductionHypothesis =>
      rw [List.range_succ, List.foldl_append, List.foldl_cons, List.foldl_nil,
        inductionHypothesis, blendChunk_eq]
  have whole : target.tileSize * target.tileSize / target.programCount * target.programCount =
      target.tileSize * target.tileSize :=
    Nat.div_mul_cancel (Dvd.dvd.mul_right target.programCountDivides _)
  unfold sortAndBlendLoop
  rw [chunks, whole]
  unfold blendedBefore sortAndBlendFragments
  refine List.ext_getElem? ?_
  intro position
  cases found : tiles[position]? with
  | none => simp [found]
  | some tile =>
    have inside : position < tiles.length := (List.getElem?_eq_some_iff.mp found).1
    simp only [List.getElem?_mapIdx, found, Option.map_some, blendedPixel_eq tiles position _ inside]

end Kernel

/-! ## What is left in the first tile -/

section First

variable [Field K] [LinearOrder D]

omit [Field K] in
/-- A pass keeps fragments that are listed from the nearest on in that order. -/
theorem siftFragment_sorted (fragment : Vec4 K × D) {others : List (Vec4 K × D)}
    (sorted : others.Pairwise fun near far => near.2 ≤ far.2) :
    (siftFragment fragment others).Pairwise fun near far => near.2 ≤ far.2 := by
  induction others with
  | nil => exact List.pairwise_singleton _ _
  | cons neighbour others inductionHypothesis =>
    obtain ⟨nearest, behind⟩ := List.pairwise_cons.mp sorted
    unfold siftFragment
    split
    · next nearer =>
      refine List.pairwise_cons.mpr ⟨?_, sorted⟩
      intro other member
      rcases List.mem_cons.mp member with rfl | later
      · exact nearer.le
      · exact nearer.le.trans (nearest other later)
    · next farther =>
      refine List.pairwise_cons.mpr ⟨?_, inductionHypothesis behind⟩
      intro other member
      rcases List.mem_cons.mp ((siftFragment_perm fragment others).mem_iff.mp member) with rfl | later
      · exact not_lt.mp farther
      · exact nearest other later

omit [Field K] in
theorem sortFragments_sorted (fragments : List (Vec4 K × D)) :
    (sortFragments fragments).Pairwise fun near far => near.2 ≤ far.2 := by
  induction fragments using List.reverseRecOn with
  | nil => exact List.Pairwise.nil
  | append_singleton fragments fragment inductionHypothesis =>
    rw [sortFragments_snoc]
    exact siftFragment_sorted fragment inductionHypothesis

omit [Field K] in
theorem sortFragments_unique {fragments others : List (Vec4 K × D)}
    (same : others.Perm fragments) (distinct : (fragments.map Prod.snd).Nodup) :
    sortFragments others = sortFragments fragments := by
  have sorted := sortFragments_sorted fragments
  have perm := ((sortFragments_perm others).trans same).trans (sortFragments_perm fragments).symm
  refine List.Perm.eq_of_pairwise ?_ (sortFragments_sorted others) sorted perm
  intro first second member member' le ge
  have inFirst := (sortFragments_perm fragments).mem_iff.mp (perm.mem_iff.mp member)
  have inSecond := (sortFragments_perm fragments).mem_iff.mp member'
  exact List.inj_on_of_nodup_map distinct inFirst inSecond (le_antisymm le ge)

/-- The first tile is left with the composite of all fragments from the farthest to the
nearest, at the depth of the nearest. -/
theorem blendFragments_eq {fragments : List (Vec4 K × D)} (some_ : fragments ≠ []) :
    ∃ nearest ∈ fragments, (∀ fragment ∈ fragments, nearest.2 ≤ fragment.2) ∧
      blendFragments fragments =
        some (composite (sortFragments fragments).reverse, nearest.2) := by
  have perm := sortFragments_perm fragments
  have sorted := sortFragments_sorted fragments
  cases order : sortFragments fragments with
  | nil =>
    rw [order] at perm
    exact absurd perm.nil_eq.symm some_
  | cons nearest behind =>
    rw [order] at perm sorted
    refine ⟨nearest, perm.mem_iff.mp List.mem_cons_self, ?_, ?_⟩
    · intro fragment member
      rcases List.mem_cons.mp (perm.mem_iff.mpr member) with rfl | later
      · exact le_rfl
      · exact (List.pairwise_cons.mp sorted).1 fragment later
    · simp only [blendFragments, order]
      rfl

theorem first_fragment (target : Target) {tiles : List (Tile K D)} {first : Tile K D}
    (blended : (sortAndBlendLoop target tiles).head? = some first) {j : Nat}
    (inside : j < target.tileSize * target.tileSize) :
    some ((first.pixel j).color, (first.pixel j).z) = blendFragments (fragmentsAt tiles j) := by
  rw [sortAndBlendLoop_eq] at blended
  cases tiles with
  | nil => cases blended
  | cons tile rest =>
    have some_ : fragmentsAt (tile :: rest) j ≠ [] := by simp [fragmentsAt]
    obtain ⟨nearest, -, -, result⟩ := blendFragments_eq some_
    have column : (tile :: rest).map (fun tile => ((tile.pixel j).color, (tile.pixel j).z)) =
        fragmentsAt (tile :: rest) j := rfl
    simp only [sortAndBlendFragments, List.mapIdx_cons, List.head?_cons, Option.some.injEq] at blended
    subst blended
    simp only [if_pos inside, blendedPixel, if_true, column, result]

theorem sortAndBlendLoop_head (target : Target) {tiles : List (Tile K D)} (some_ : tiles ≠ []) :
    ∃ first, (sortAndBlendLoop target tiles).head? = some first := by
  rw [sortAndBlendLoop_eq]
  cases tiles with
  | nil => exact absurd rfl some_
  | cons tile rest => exact ⟨_, by rw [sortAndBlendFragments, List.mapIdx_cons, List.head?_cons]⟩

/-- Tiles with the same fragments of distinct depths, in whatever order, blend to the
same fragment. -/
theorem first_fragment_agrees (target : Target) {tiles others : List (Tile K D)}
    {first : Tile K D} (blended : (sortAndBlendLoop target tiles).head? = some first) {j : Nat}
    (inside : j < target.tileSize * target.tileSize) (some_ : tiles ≠ [])
    (distinct : (tiles.map fun tile => (tile.pixel j).z).Nodup)
    (same : (fragmentsAt others j).Perm (fragmentsAt tiles j)) :
    ∃ other, (sortAndBlendLoop target others).head? = some other ∧
      (other.pixel j).color = (first.pixel j).color ∧ (other.pixel j).z = (first.pixel j).z := by
  have depths : ((fragmentsAt tiles j).map Prod.snd).Nodup := by
    rw [fragmentsAt, List.map_map]
    exact distinct
  have others_ : others ≠ [] := by
    rintro rfl
    have short := same.length_eq
    simp only [fragmentsAt, List.map_nil, List.length_nil, List.length_map] at short
    exact some_ (List.length_eq_zero_iff.mp short.symm)
  obtain ⟨other, blendedOther⟩ := sortAndBlendLoop_head target others_
  have fragment := first_fragment target blended inside
  have fragmentOther := first_fragment target blendedOther inside
  have agree : blendFragments (fragmentsAt others j) = blendFragments (fragmentsAt tiles j) := by
    unfold blendFragments
    rw [sortFragments_unique same depths]
  rw [agree, ← fragment, Option.some.injEq, Prod.mk.injEq] at fragmentOther
  exact ⟨other, blendedOther, fragmentOther⟩

/-- The kernel leaves in the first tile the composite of all fragments in an order by
decreasing depth, and the least depth. With distinct depths the result is the same for
every order of the tiles, and so for every order in which the tiles of a buffer arrive
and every `sortOrder` they have. -/
theorem sortAndBlend_composites (target : Target) (tiles : List (Tile K D)) (some_ : tiles ≠ []) :
    ∃ first, (sortAndBlendLoop target tiles).head? = some first ∧
      ∀ j < target.tileSize * target.tileSize,
        (∃ order : List (Vec4 K × D), order.Perm (fragmentsAt tiles j) ∧
          (order.Pairwise fun far near => near.2 ≤ far.2) ∧
          (first.pixel j).color = composite order) ∧
        IsLeast {z | ∃ tile ∈ tiles, (tile.pixel j).z = z} (first.pixel j).z ∧
        ((tiles.map fun tile => (tile.pixel j).z).Nodup →
          ∀ others, (fragmentsAt others j).Perm (fragmentsAt tiles j) →
            (∃ other, (sortAndBlendLoop target others).head? = some other ∧
              (other.pixel j).color = (first.pixel j).color ∧
              (other.pixel j).z = (first.pixel j).z) ∧
            ∃ other, blendBuffer target others = some other ∧
              (other.pixel j).color = (first.pixel j).color ∧
              (other.pixel j).z = (first.pixel j).z) := by
  obtain ⟨first, blended⟩ := sortAndBlendLoop_head target some_
  refine ⟨first, blended, ?_⟩
  intro j inside
  have column : fragmentsAt tiles j ≠ [] := by simpa [fragmentsAt] using some_
  obtain ⟨nearest, member, least, result⟩ := blendFragments_eq column
  have fragment := first_fragment target blended inside
  rw [result, Option.some.injEq, Prod.mk.injEq] at fragment
  obtain ⟨color, depth⟩ := fragment
  refine ⟨⟨(sortFragments (fragmentsAt tiles j)).reverse, ?_, ?_, color⟩, ⟨?_, ?_⟩, ?_⟩
  · exact (List.reverse_perm _).trans (sortFragments_perm _)
  · exact List.pairwise_reverse.mpr (sortFragments_sorted _)
  · obtain ⟨tile, held, same⟩ := List.mem_map.mp member
    refine ⟨tile, held, ?_⟩
    rw [depth, ← same]
  · rintro z ⟨tile, held, rfl⟩
    rw [depth]
    exact least _ (List.mem_map.mpr ⟨tile, held, rfl⟩)
  · intro distinct others same
    have sorted : (fragmentsAt (others.mergeSort fun a b => b.sortOrder ≤ a.sortOrder) j).Perm
        (fragmentsAt tiles j) := ((List.mergeSort_perm _ _).map _).trans same
    have buffered := first_fragment_agrees target blended inside some_ distinct sorted
    rw [sortAndBlendLoop_eq] at buffered
    exact ⟨first_fragment_agrees target blended inside some_ distinct same, buffered⟩

end First

/-- A tile of one half-transparent color and depth. -/
def glassTile (color z : ℚ) : Tile ℚ ℚ :=
  Tile.make 1 ⟨0, 0⟩ ⟨1, 1⟩ 0 fun _ => ⟨fun component => if component = 3 then 1 / 2 else color, z, 0, 0⟩

/-- Two fragments, the nearer of which comes first, and then last. -/
theorem sortAndBlend_composites_two :
    ∃ first, (sortAndBlendLoop ⟨1, 1, by decide, by decide⟩ [glassTile 1 2, glassTile 4 3]).head? =
        some first ∧
      IsLeast {z : ℚ | ∃ tile ∈ [glassTile 1 2, glassTile 4 3], (tile.pixel 0).z = z}
        (first.pixel 0).z ∧
      ∃ other, blendBuffer ⟨1, 1, by decide, by decide⟩ [glassTile 4 3, glassTile 1 2] = some other ∧
        (other.pixel 0).color = (first.pixel 0).color := by
  obtain ⟨first, blended, pixels⟩ := sortAndBlend_composites ⟨1, 1, by decide, by decide⟩
    [glassTile 1 2, glassTile 4 3] (by simp)
  obtain ⟨-, least, agrees⟩ := pixels 0 (by decide)
  have swapped : (fragmentsAt [glassTile 4 3, glassTile 1 2] 0).Perm
      (fragmentsAt [glassTile 1 2, glassTile 4 3] 0) := List.Perm.swap _ _ _
  obtain ⟨-, other, buffered, color, -⟩ :=
    agrees (by simp [glassTile, Tile.make]) [glassTile 4 3, glassTile 1 2] swapped
  exact ⟨first, blended, least, other, buffered, color⟩

end Ospray
