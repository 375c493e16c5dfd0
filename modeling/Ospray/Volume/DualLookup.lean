import Ospray.Volume.DualCell
import Ospray.Volume.LastValidPos

/-!
# Dual cells and single points

What one traversal and the passes over the leaves write to the dual cells of all lanes is what
a descent for each corner on its own finds, for the corners in the bounding box. The others
are in no leaf and are not written.
-/

namespace Ospray.Amr

open Library.AxisChoices Library.BoxTrees Library.Whiles

variable {data : List Brick} {V ι : Type} {amr : AMR data V} {sorting : LevelSort data} {lanes : Finset ι}
  {cellID : ι → DualCellID} {corner : ι → Fin 3 → Bool → ℚ} {width : ℚ} {steps : Nat}
  {tree : SplitTree (List (BrickPointer data)) amr.worldBounds}

/-! ## Single points -/

/-- The brick loop says whether the brick that it takes is the first one. -/
theorem selectBrick_isLeaf {bricks : List (Option (BrickPointer data))} {brick : BrickPointer data} {isLeaf : Bool}
    (taken : selectBrick width true bricks = some (brick, isLeaf)) :
    isLeaf = true ↔ bricks.head? = some (some brick) := by
  have later : ∀ rest : List (Option (BrickPointer data)), ∀ brick isLeaf,
      selectBrick width false rest = some (brick, isLeaf) → isLeaf = false ∧ width ≤ (data.get brick).cellWidth := by
    intro rest
    induction rest with
    | nil =>
      intro brick isLeaf taken
      cases taken
    | cons first rest inductionHypothesis =>
      intro brick isLeaf taken
      cases first with
      | none => cases taken
      | some b =>
        rw [selectBrick] at taken
        split at taken
        · exact inductionHypothesis brick isLeaf taken
        · cases taken
          exact ⟨rfl, not_lt.mp ‹_›⟩
  cases bricks with
  | nil => cases taken
  | cons first rest =>
    cases first with
    | none => cases taken
    | some b =>
      rw [selectBrick] at taken
      rw [List.head?_cons, Option.some.injEq, Option.some.injEq]
      split at taken
      · next narrow =>
        obtain ⟨isLater, wide⟩ := later rest brick isLeaf taken
        constructor
        · intro leaf
          rw [isLater] at leaf
          cases leaf
        · rintro rfl
          exact absurd narrow (not_lt.mpr wide)
      · cases taken
        exact iff_of_true rfl rfl

/-- The brick of a single descent. -/
def AMR.brickAt (amr : AMR data V) (steps : Nat) (point : Vec3) (width : ℚ) : Option (BrickPointer data) := do
  let leaf ← amr.leafAt steps point
  firstBrick width leaf.brickList

theorem lookupCorner_map {point : Vec3} : (amr.lookupCorner steps point width).map CornerValue.value =
    (amr.brickAt steps point width).map fun b => amr.value b ((data.get b).index ((data.get b).cellAt point)) := by
  rw [AMR.lookupCorner, AMR.brickAt]
  cases led : amr.leafAt steps point with
  | none => rfl
  | some leaf =>
    simp only [Option.bind_eq_bind, Option.bind_some, ← selectBrick_map width true]
    cases selectBrick width true leaf.brickList <;> rfl

theorem lookupCorner_spec {point : Vec3} {b : BrickPointer data} (taken : amr.brickAt steps point width = some b) :
    ∃ found, amr.lookupCorner steps point width = some found ∧
      found.value = amr.value b ((data.get b).index ((data.get b).cellAt point)) ∧
      found.actualWidth = (data.get b).cellWidth ∧
      (found.isLeaf = true ↔ ∃ leaf, amr.leafAt steps point = some leaf ∧ finestBrick leaf = some b) := by
  rw [AMR.lookupCorner]
  rw [AMR.brickAt] at taken
  cases led : amr.leafAt steps point with
  | none => simp [led] at taken
  | some leaf =>
    simp only [led, Option.bind_eq_bind, Option.bind_some] at taken ⊢
    obtain ⟨⟨brick, isLeaf⟩, selected, rfl⟩ :=
      Option.map_eq_some_iff.mp ((selectBrick_map width true leaf.brickList).trans taken)
    rw [selected, Option.bind_some]
    refine ⟨_, rfl, rfl, rfl, ?_⟩
    simp only [selectBrick_isLeaf selected, Option.some.injEq, exists_eq_left', finestBrick, Option.join_eq_some_iff]

theorem lookupCorner_none_iff {point : Vec3} :
    amr.lookupCorner steps point width = none ↔ amr.brickAt steps point width = none := by
  rw [← Option.map_eq_none_iff, lookupCorner_map, Option.map_eq_none_iff]

/-- Some corner in the bounding box has no brick that is wide enough. -/
def AMR.Unserved (amr : AMR data V) (steps : Nat) (lanes : Finset ι) (cellID : ι → DualCellID)
    (corner : ι → Fin 3 → Bool → ℚ) : Prop :=
  ∃ lane ∈ lanes, ∃ c, amr.worldBounds.Contains (cornerPoint corner lane c) ∧
    amr.lookupCorner steps (cornerPoint corner lane c) (cellID lane).width = none

theorem mirrored_point (mirror : ι → Corner) (lane : ι) (c : Corner) :
    cornerPoint (amr.mirroredCorner cellID mirror) lane c =
      cornerPoint (amr.dualCorner cellID) lane fun axis => c axis ^^ mirror lane axis := by
  funext axis
  rw [cornerPoint, cornerPoint, AMR.mirroredCorner, AMR.dualCorner]
  cases mirror lane axis <;> simp

variable [DecidableEq ι]

/-- The lookup fails exactly there, and else writes the corners in the bounding box, with what is found for their
points. -/
theorem findCorners_spec (overTree : amr.Over sorting tree) (widths : UniqueWidths lanes cellID)
    (corner : ι → Fin 3 → Bool → ℚ) {fuel steps : Nat} (ends : amr.accel.node.length ≤ fuel)
    (enough : amr.accel.node.length ≤ steps) :
      (amr.findCorners fuel cellID corner widths = none ↔ amr.Unserved steps lanes cellID corner) ∧
      ∀ dual, amr.findCorners fuel cellID corner widths = some dual → ∀ lane c,
        (lane ∈ lanes ∧ amr.worldBounds.Contains (cornerPoint corner lane c) →
          dual lane c = amr.lookupCorner steps (cornerPoint corner lane c) (cellID lane).width) ∧
        (¬(lane ∈ lanes ∧ amr.worldBounds.Contains (cornerPoint corner lane c)) → dual lane c = none) := by
  obtain ⟨last, ended, within, collected⟩ := traversal_collects overTree lanes corner ends
  have count : amr.accel.leaf.length = tree.leaves.length := by rw [overTree.leaf, List.length_map]
  have all := foldlM_writes fun width (_ : width ∈ widths.order) =>
    foldlM_writes fun ofs (member : ofs ∈ last.leafList) =>
      @processLeaf_writes _ _ _ amr lanes cellID corner sorting tree steps ofs width _ overTree enough
        (count ▸ within ofs member)
  -- Each corner in the bounding box is in a leaf that was collected, and its lane has one of the widths.
  have reached : ∀ lane c, (∃ width ∈ widths.order, ∃ ofs ∈ last.leafList,
      lane ∈ lanes ∧ (cellID lane).width = width ∧ amr.HoldsCorner corner ofs lane c) ↔
        lane ∈ lanes ∧ amr.worldBounds.Contains (cornerPoint corner lane c) := by
    intro lane c
    constructor
    · rintro ⟨_, _, ofs, _, member, _, holds⟩
      exact ⟨member, (holds.spec overTree enough).2⟩
    · rintro ⟨member, contained⟩
      exact ⟨_, (widths.mem_order _).mpr ⟨lane, member, rfl⟩, _, collected lane member c, member, rfl,
        holdsCorner_findIndex overTree contained⟩
  have unserved : (∃ width ∈ widths.order, ∃ ofs ∈ last.leafList, ∃ lane ∈ lanes, (cellID lane).width = width ∧
      ∃ c, amr.HoldsCorner corner ofs lane c ∧
        amr.lookupCorner steps (cornerPoint corner lane c) (cellID lane).width = none) ↔
      amr.Unserved steps lanes cellID corner := by
    constructor
    · rintro ⟨_, _, ofs, _, lane, member, _, c, holds, nothing⟩
      exact ⟨lane, member, c, (holds.spec overTree enough).2, nothing⟩
    · rintro ⟨lane, member, c, contained, nothing⟩
      obtain ⟨width, taken, ofs, listed, _, own, holds⟩ := (reached lane c).mpr ⟨member, contained⟩
      exact ⟨width, taken, ofs, listed, lane, member, own, c, holds, nothing⟩
  obtain ⟨fails, writes⟩ := all fun _ _ => none
  simp only [reached, unserved] at fails writes
  simp only [AMR.findCorners, ended, Option.bind_eq_bind, Option.bind_some]
  by_cases nothing : amr.Unserved steps lanes cellID corner
  · rw [fails nothing]
    exact ⟨iff_of_true rfl nothing, fun dual found => nomatch found⟩
  · obtain ⟨written, run, content⟩ := writes nothing
    rw [run]
    refine ⟨iff_of_false (Option.some_ne_none _) nothing, fun dual found => ?_⟩
    obtain rfl := Option.some.inj found
    exact content

/-- A brick of one cell, with a width for which the last valid position is not before its end. -/
def far : List Brick :=
  [{ box := { lower := fun _ => 0, upper := fun _ => 0 }, level := 0, cellWidth := 2 ^ 24 + 4 }]

/-- The dual cell between the faces of that brick, for one lane. -/
def farCell : Unit → DualCellID := fun _ => ⟨fun _ => 0, 2 ^ 24 + 4⟩

/-- The widths of one lane. -/
def oneWidth (cellID : Unit → DualCellID) : UniqueWidths {()} cellID where
  order := [(cellID ()).width]
  nodup := List.nodup_singleton _
  mem_order width := by
    rw [List.mem_singleton]
    exact ⟨fun same => ⟨(), Finset.mem_singleton_self _, same.symm⟩, fun ⟨_, _, same⟩ => same.symm⟩

end Ospray.Amr
