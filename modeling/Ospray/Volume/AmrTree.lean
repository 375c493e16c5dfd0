import Mathlib.Data.Finset.Card
import Ospray.Volume.AmrAccel

/-!
# The kd-tree partitions the bounding box

The planes that `buildRec` may choose are faces of bricks strictly inside the region,
and every plane strictly inside a part was strictly inside the whole, the chosen one
excepted. So the faces inside a region are a measure for the recursion. The bricks
handed to a region are at every stage those that overlap it; where no face is left
inside, each of them covers the region.
-/

namespace Ospray.Amr

open Library.BoxTrees Library.SortedSets

variable {data : List Brick} {bounds : Box3} {brick : List (BrickPointer data)} {dim : Fin 3}
  {pos : ℚ}

/-! ## The choice of a plane -/

/-- A face of a brick clipped to the region that is not a face of the region. -/
def NewFace (bounds : Box3) (b : BrickPointer data) (dim : Fin 3) (split : ℚ) : Prop :=
  let clipped := intersectionOf bounds (data.get b).worldBounds
  clipped.lower dim ≠ bounds.lower dim ∧ split = clipped.lower dim ∨
    clipped.upper dim ≠ bounds.upper dim ∧ split = clipped.upper dim

/-- The possible splits are the new faces of the bricks. -/
theorem mem_possibleSplits (split : ℚ) :
    split ∈ possibleSplits bounds brick dim ↔ ∃ b ∈ brick, NewFace bounds b dim split := by
  let step := fun (splits : SortedSet ℚ) (b : BrickPointer data) =>
    let clipped := intersectionOf bounds (data.get b).worldBounds
    let splits := if clipped.lower dim ≠ bounds.lower dim then splits.insert (clipped.lower dim)
      else splits
    if clipped.upper dim ≠ bounds.upper dim then splits.insert (clipped.upper dim) else splits
  have one : ∀ splits b, split ∈ step splits b ↔ split ∈ splits ∨ NewFace bounds b dim split := by
    intro splits b
    simp only [step, NewFace]
    split_ifs with upper lower lower <;>
      simp only [mem_insert, ne_eq, upper, lower, not_false_eq_true, true_and,
        false_and, or_false, false_or] <;> tauto
  have all : ∀ (brick : List (BrickPointer data)) (splits : SortedSet ℚ),
      split ∈ brick.foldl step splits ↔
        split ∈ splits ∨ ∃ b ∈ brick, NewFace bounds b dim split := by
    intro brick
    induction brick with
    | nil => simp
    | cons b rest inductionHypothesis =>
      intro splits
      simp only [List.foldl_cons, inductionHypothesis, one, List.mem_cons, exists_eq_or_imp,
        or_assoc]
  have start := all brick SortedSet.empty
  rwa [or_iff_right (not_mem_empty split)] at start

/-- For a brick that overlaps the region these are faces of the brick inside the region. -/
theorem split_cuts (overlap : ∀ b ∈ brick, (data.get b).worldBounds.Overlaps bounds) {split : ℚ}
    (member : split ∈ possibleSplits bounds brick dim) :
    bounds.Cuts dim split ∧ ∃ b ∈ brick,
      split = (data.get b).worldBounds.lower dim ∨ split = (data.get b).worldBounds.upper dim := by
  obtain ⟨b, present, face⟩ := (mem_possibleSplits split).mp member
  have meets := overlap b present dim
  simp only [NewFace, intersectionOf] at face
  obtain ⟨inside, rfl⟩ | ⟨inside, rfl⟩ := face
  · have beyond : bounds.lower dim < (data.get b).worldBounds.lower dim := by
      by_contra before
      exact inside (max_eq_left (not_lt.mp before))
    rw [max_eq_right beyond.le]
    exact ⟨⟨beyond, meets.1⟩, b, present, Or.inl rfl⟩
  · have before : (data.get b).worldBounds.upper dim < bounds.upper dim := by
      by_contra beyond
      exact inside (min_eq_left (not_lt.mp beyond))
    rw [min_eq_right before.le]
    exact ⟨⟨meets.2, before⟩, b, present, Or.inr rfl⟩

/-- Where there is no possible split, every brick that overlaps the region covers it. -/
theorem covers_of_no_split (none_ : ∀ dim, (possibleSplits bounds brick dim).elements = [])
    {b : BrickPointer data} (member : b ∈ brick) : bounds.Within (data.get b).worldBounds := by
  intro dim
  have absent : ∀ split, split ∉ possibleSplits bounds brick dim := by
    intro split present
    rw [← mem_elements, none_ dim] at present
    cases present
  have lower : (intersectionOf bounds (data.get b).worldBounds).lower dim = bounds.lower dim := by
    by_contra inside
    exact absent _ ((mem_possibleSplits _).mpr ⟨b, member, Or.inl ⟨inside, rfl⟩⟩)
  have upper : (intersectionOf bounds (data.get b).worldBounds).upper dim = bounds.upper dim := by
    by_contra inside
    exact absent _ ((mem_possibleSplits _).mpr ⟨b, member, Or.inr ⟨inside, rfl⟩⟩)
  exact ⟨max_eq_left_iff.mp lower, min_eq_left_iff.mp upper⟩

theorem bestDim_chooses (splits : Fin 3 → SortedSet ℚ) :
    ∃ step, Chooses (fun dim => (splits dim).elements ≠ []) step ∧
      bestDim bounds splits = (List.finRange 3).foldl step none := by
  refine ⟨_, ⟨fun best dim absent => ?_, fun best dim present => ?_⟩, rfl⟩
  · exact if_pos (not_not.mp absent)
  · rw [if_neg present]
    cases best with
    | none => exact ⟨dim, rfl, Or.inr rfl⟩
    | some best =>
      dsimp only
      split_ifs
      · exact ⟨dim, rfl, Or.inr rfl⟩
      · exact ⟨best, rfl, Or.inl rfl⟩

/-- A dimension is chosen exactly when one has a possible split, and then it has one. -/
theorem bestDim_spec (splits : Fin 3 → SortedSet ℚ) :
    (bestDim bounds splits = none → ∀ dim, (splits dim).elements = []) ∧
      ∀ dim, bestDim bounds splits = some dim → (splits dim).elements ≠ [] := by
  obtain ⟨step, chooses, fold⟩ := @bestDim_chooses bounds splits
  obtain ⟨none_, some_⟩ := chooses.foldl (List.finRange 3) none
  rw [fold]
  constructor
  · intro result dim
    exact not_not.mp ((none_ result).2 dim (List.mem_finRange dim))
  · intro dim chosen
    obtain before | ⟨-, split⟩ := some_ dim chosen
    · cases before
    · exact split

theorem bestPos_chooses (mid : ℚ) (splits : List ℚ) :
    ∃ step, Chooses (fun _ => True) step ∧ bestPos mid splits = splits.foldl step none := by
  refine ⟨_, ⟨fun best split never => absurd trivial never, fun best split _ => ?_⟩, rfl⟩
  cases best with
  | none => exact ⟨split, rfl, Or.inr rfl⟩
  | some best =>
    dsimp only
    split_ifs
    · exact ⟨split, rfl, Or.inr rfl⟩
    · exact ⟨best, rfl, Or.inl rfl⟩

theorem bestPos_spec (mid : ℚ) (splits : List ℚ) :
    (bestPos mid splits = none → splits = []) ∧
      ∀ pos, bestPos mid splits = some pos → pos ∈ splits := by
  obtain ⟨step, chooses, fold⟩ := bestPos_chooses mid splits
  obtain ⟨none_, some_⟩ := chooses.foldl splits none
  rw [fold]
  constructor
  · intro result
    exact List.eq_nil_iff_forall_not_mem.mpr fun split member => (none_ result).2 split member trivial
  · intro pos chosen
    obtain before | ⟨member, -⟩ := some_ pos chosen
    · cases before
    · exact member

/-- A plane is chosen exactly when there is one to choose. -/
theorem bestSplit_spec :
    (bestSplit bounds brick = none → ∀ dim, (possibleSplits bounds brick dim).elements = []) ∧
      ∀ dim pos, bestSplit bounds brick = some (dim, pos) →
        pos ∈ possibleSplits bounds brick dim := by
  have dimension := @bestDim_spec bounds (possibleSplits bounds brick)
  unfold bestSplit
  cases chosen : bestDim bounds (possibleSplits bounds brick) with
  | none => exact ⟨fun _ => dimension.1 chosen, nofun⟩
  | some dim =>
    have position := bestPos_spec ((bounds.lower dim + bounds.upper dim) / 2)
      (possibleSplits bounds brick dim).elements
    simp only [Option.bind_eq_bind, Option.bind_some]
    cases placed : bestPos ((bounds.lower dim + bounds.upper dim) / 2)
      (possibleSplits bounds brick dim).elements with
    | none => exact absurd (position.1 placed) (dimension.2 dim chosen)
    | some pos =>
      refine ⟨nofun, ?_⟩
      rintro _ _ ⟨⟩
      exact (mem_elements _ _).mp (position.2 pos placed)

/-! ## Dividing the bricks -/

/-- A brick has at least one cell along every axis, and cells have a width. -/
structure Brick.Valid (b : Brick) : Prop where
  cellWidth : 0 < b.cellWidth
  box : ∀ axis, b.box.lower axis ≤ b.box.upper axis

theorem Brick.Valid.proper {b : Brick} (valid : b.Valid) : b.worldBounds.Proper := by
  intro axis
  refine mul_lt_mul_of_pos_right ?_ valid.cellWidth
  exact_mod_cast Int.lt_add_one_of_le (valid.box axis)

theorem isEmpty_intersectionOf {first second : Box3} (firstProper : first.Proper)
    (secondProper : second.Proper) (overlap : first.Overlaps second) :
    isEmpty (intersectionOf first second) = false := by
  rw [isEmpty, decide_eq_false_iff_not]
  rintro ⟨axis, crossed⟩
  refine absurd crossed (not_lt.mpr (max_le (le_min ?_ ?_) (le_min ?_ ?_)))
  · exact (firstProper axis).le
  · exact (overlap axis).1.le
  · exact (overlap axis).2.le
  · exact (secondProper axis).le

/-- Bricks that overlap a region are divided without an error: left go those that begin
before the plane, right those that end after it. -/
theorem distribute_spec (cuts : bounds.Cuts dim pos) (proper : bounds.Proper)
    (valid : ∀ b ∈ data, b.Valid)
    (overlap : ∀ b ∈ brick, (data.get b).worldBounds.Overlaps bounds) :
    distribute bounds dim pos brick = .ok
      (brick.filter fun b => decide ((data.get b).worldBounds.lower dim < pos),
        brick.filter fun b => decide (pos < (data.get b).worldBounds.upper dim)) := by
  let step := fun (sides : List (BrickPointer data) × List (BrickPointer data))
      (b : BrickPointer data) =>
    let wb := intersectionOf (data.get b).worldBounds bounds
    if isEmpty wb then (.error .emptyBox : Except BuildError _)
    else if wb.lower dim ≥ pos then .ok (sides.1, sides.2 ++ [b])
    else if wb.upper dim ≤ pos then .ok (sides.1 ++ [b], sides.2)
    else .ok (sides.1 ++ [b], sides.2 ++ [b])
  have one : ∀ sides b, (data.get b).worldBounds.Overlaps bounds → step sides b = .ok
      (sides.1 ++ [b].filter fun b => decide ((data.get b).worldBounds.lower dim < pos),
        sides.2 ++ [b].filter fun b => decide (pos < (data.get b).worldBounds.upper dim)) := by
    intro sides b meets
    have brickProper := (valid _ (List.get_mem data b)).proper
    have extent := brickProper dim
    have begins : (intersectionOf (data.get b).worldBounds bounds).lower dim ≥ pos ↔
        pos ≤ (data.get b).worldBounds.lower dim := by
      simp only [intersectionOf, ge_iff_le, le_max_iff, or_iff_left (not_le.mpr cuts.1)]
    have stops : (intersectionOf (data.get b).worldBounds bounds).upper dim ≤ pos ↔
        (data.get b).worldBounds.upper dim ≤ pos := by
      simp only [intersectionOf, min_le_iff, or_iff_left (not_le.mpr cuts.2)]
    simp only [step, isEmpty_intersectionOf brickProper proper meets, begins, stops,
      Bool.false_eq_true, if_false]
    split_ifs with right left
    · have after : pos < (data.get b).worldBounds.upper dim := right.trans_lt extent
      simp [-List.get_eq_getElem, not_lt.mpr right, after]
    · have before : (data.get b).worldBounds.lower dim < pos := not_le.mp right
      simp [-List.get_eq_getElem, before, not_lt.mpr left]
    · simp [-List.get_eq_getElem, not_le.mp right, not_le.mp left]
  have all : ∀ (brick : List (BrickPointer data)) sides,
      (∀ b ∈ brick, (data.get b).worldBounds.Overlaps bounds) →
      brick.foldlM step sides = .ok
        (sides.1 ++ brick.filter fun b => decide ((data.get b).worldBounds.lower dim < pos),
          sides.2 ++ brick.filter fun b => decide (pos < (data.get b).worldBounds.upper dim)) := by
    intro brick
    induction brick with
    | nil =>
      intro sides _
      simp [pure, Except.pure]
    | cons b rest inductionHypothesis =>
      intro sides overlap
      rw [List.foldlM_cons, one sides b (overlap b List.mem_cons_self)]
      refine (inductionHypothesis _ fun later member =>
        overlap later (List.mem_cons_of_mem _ member)).trans ?_
      rw [List.append_assoc, List.append_assoc, ← List.filter_append, ← List.filter_append]
      rfl
  exact all brick ([], []) overlap

/-- The bricks of a region are those that overlap it, each once. -/
structure Present (bounds : Box3) (brick : List (BrickPointer data)) : Prop where
  nodup : brick.Nodup
  overlaps : ∀ b, b ∈ brick ↔ (data.get b).worldBounds.Overlaps bounds

theorem Present.below (present : Present bounds brick) (cuts : bounds.Cuts dim pos) :
    Present (bounds.below dim pos)
      (brick.filter fun b => decide ((data.get b).worldBounds.lower dim < pos)) where
  nodup := present.nodup.filter _
  overlaps b := by
    rw [List.mem_filter, present.overlaps b, decide_eq_true_eq, Box.overlaps_below cuts]

theorem Present.above (present : Present bounds brick) (cuts : bounds.Cuts dim pos) :
    Present (bounds.above dim pos)
      (brick.filter fun b => decide (pos < (data.get b).worldBounds.upper dim)) where
  nodup := present.nodup.filter _
  overlaps b := by
    rw [List.mem_filter, present.overlaps b, decide_eq_true_eq, Box.overlaps_above cuts]

/-! ## The measure of the recursion -/

/-- All faces of bricks. -/
def faces (data : List Brick) : Finset (Fin 3 × ℚ) :=
  (data.flatMap fun b => (List.finRange 3).flatMap fun dim =>
    [(dim, b.worldBounds.lower dim), (dim, b.worldBounds.upper dim)]).toFinset

/-- The faces strictly inside a region. -/
def planes (data : List Brick) (bounds : Box3) : Nat :=
  ((faces data).filter fun face => bounds.Cuts face.1 face.2).card

theorem planes_le (bounds : Box3) : planes data bounds ≤ 6 * data.length := by
  refine (Finset.card_filter_le _ _).trans ((List.toFinset_card_le _).trans ?_)
  induction data with
  | nil => rfl
  | cons b rest inductionHypothesis =>
    rw [List.flatMap_cons, List.length_append, List.length_cons]
    have six : ((List.finRange 3).flatMap fun dim =>
        [(dim, b.worldBounds.lower dim), (dim, b.worldBounds.upper dim)]).length = 6 := rfl
    omega

theorem face_mem (b : BrickPointer data) {split : ℚ}
    (face : split = (data.get b).worldBounds.lower dim ∨ split = (data.get b).worldBounds.upper dim) :
    (dim, split) ∈ faces data := by
  rw [faces, List.mem_toFinset, List.mem_flatMap]
  refine ⟨data.get b, List.get_mem data b, List.mem_flatMap.mpr ⟨dim, List.mem_finRange dim, ?_⟩⟩
  obtain rfl | rfl := face
  · exact List.mem_cons_self
  · exact List.mem_cons_of_mem _ List.mem_cons_self

theorem planes_lt {part : Box3} (cuts : bounds.Cuts dim pos) (face : (dim, pos) ∈ faces data)
    (others : ∀ along plane, part.Cuts along plane →
      bounds.Cuts along plane ∧ (along, plane) ≠ (dim, pos)) :
    planes data part < planes data bounds := by
  refine Finset.card_lt_card ((Finset.ssubset_iff_of_subset ?_).mpr ⟨(dim, pos), ?_, ?_⟩)
  · intro other member
    obtain ⟨present, inside⟩ := Finset.mem_filter.mp member
    exact Finset.mem_filter.mpr ⟨present, (others _ _ inside).1⟩
  · exact Finset.mem_filter.mpr ⟨face, cuts⟩
  · intro member
    exact (others _ _ (Finset.mem_filter.mp member).2).2 rfl

end Ospray.Amr
