import Mathlib.Logic.Relation
import Ospray.Volume.OctantNeighbors

/-!
# The octant method is bounded

From a leaf cell and a position in it, the corners of the octant get averages of leaf cells,
or the result of the method for a coarser leaf cell with the corner in it. So the recursion
ends, an average is never one of no cells, all weights are between zero and one, and the
result is between the values of leaf cells. For this the bounding box has to begin at the
origin, and the last valid position has to be before its end.
-/

namespace Ospray.Amr

open Library.BoxTrees Library.NestedGrids

variable {data : List Brick} {amr : AMR data ℚ} {sorting : LevelSort data} {fuel : Nat} {C : CellRef ℚ}
  {n : Fin 3 → ℤ} {P : Vec3}

/-! ## Weights -/

theorem mix_between {w a b low high : ℚ} (weight : 0 ≤ w ∧ w ≤ 1) (first : low ≤ a ∧ a ≤ high)
    (second : low ≤ b ∧ b ≤ high) : low ≤ (1 - w) * a + w * b ∧ (1 - w) * a + w * b ≤ high := by
  have rest : 0 ≤ 1 - w := sub_nonneg.mpr weight.2
  constructor
  · calc low = (1 - w) * low + w * low := by ring
      _ ≤ (1 - w) * a + w * b :=
        add_le_add (mul_le_mul_of_nonneg_left first.1 rest) (mul_le_mul_of_nonneg_left second.1 weight.1)
  · calc (1 - w) * a + w * b ≤ (1 - w) * high + w * high :=
        add_le_add (mul_le_mul_of_nonneg_left first.2 rest) (mul_le_mul_of_nonneg_left second.2 weight.1)
      _ = high := by ring

theorem lerp_between {w : Vec3} {value : Corner → ℚ} {low high : ℚ} (weights : ∀ axis, 0 ≤ w axis ∧ w axis ≤ 1)
    (bounded : ∀ c, low ≤ value c ∧ value c ≤ high) : low ≤ lerp w value ∧ lerp w value ≤ high := by
  have edge : ∀ c c', low ≤ (1 - w 0) * value c + w 0 * value c' ∧ (1 - w 0) * value c + w 0 * value c' ≤ high :=
    fun c c' => mix_between (weights 0) (bounded c) (bounded c')
  exact mix_between (weights 2) (mix_between (weights 1) (edge C000 C001) (edge C010 C011))
    (mix_between (weights 1) (edge C100 C101) (edge C110 C111))

theorem initOctant_weights (P : Vec3) (C : CellRef ℚ) (axis : Fin 3) :
    (initOctant P C).weights axis = |P axis - centerOf C axis| / (C.width / 2) := by
  rw [initOctant]
  field_simp

theorem weights_between (leaf : amr.LeafCell fuel C n) (positive : 0 < C.width) (inCell : InCell C.width n P)
    (axis : Fin 3) : 0 ≤ (initOctant P C).weights axis ∧ (initOctant P C).weights axis ≤ 1 := by
  obtain ⟨low, high⟩ := inCell axis
  have half : centerOf C axis = n axis * C.width + C.width / 2 := by
    rw [leaf.center, middle]
    ring
  have away : |P axis - centerOf C axis| ≤ C.width / 2 := by
    rw [abs_le]
    constructor <;> linarith
  rw [initOctant_weights]
  exact ⟨by positivity, (div_le_one₀ (half_pos positive)).mpr away⟩

/-! ## Boundary values -/

theorem average_between {values : List ℚ} {low high : ℚ} (some_ : values ≠ [])
    (bounded : ∀ v ∈ values, low ≤ v ∧ v ≤ high) :
    low ≤ values.sum / values.length ∧ values.sum / values.length ≤ high := by
  have positive : (0 : ℚ) < values.length := Nat.cast_pos.mpr (List.length_pos_of_ne_nil some_)
  have least := List.card_nsmul_le_sum values low fun v member => (bounded v member).1
  have most := List.sum_le_card_nsmul values high fun v member => (bounded v member).2
  rw [nsmul_eq_mul] at least most
  rw [le_div_iff₀ positive, div_le_iff₀ positive]
  constructor <;> linarith

/-- The dual cell around a corner of an octant has the cell of the octant at one of its corners. -/
theorem dualCorner_center (leaf : amr.LeafCell fuel C n) (positive : 0 < C.width) (t : Corner) :
    cornerPoint (amr.dualCorner fun _ => initDualCell (vtxPos (initOctant P C) t) C.width) ()
      (fun axis => t axis && (initOctant P C).mirror axis) = amr.cornerAt C.width n := by
  funext axis
  obtain ⟨-, center, vertex⟩ := @octant_direction _ _ _ _ _ P leaf axis
  have next : ∀ m : ℤ, middle C.width (m + 1) = middle C.width m + C.width := by
    intro m
    rw [middle, middle]
    push_cast
    ring
  have width : (initDualCell (vtxPos (initOctant P C) t) C.width).width = C.width := rfl
  rw [cornerPoint, AMR.dualCorner, AMR.cornerBounds, AMR.cornerAt, width]
  congr 2
  by_cases back : (t axis && (initOctant P C).mirror axis) = true
  · obtain ⟨along, mirror⟩ := (Bool.and_eq_true _ _).mp back
    have before := next (n axis - 1)
    rw [sub_add_cancel] at before
    have place : vtxPos (initOctant P C) t axis = middle C.width (n axis) - C.width * (1 / 2) := by
      rw [vtxPos, if_pos along, vertex, direction, if_pos mirror]
      push_cast
      ring
    have pos := @initDualCell_pos (vtxPos (initOctant P C) t) C.width positive (n axis - 1) axis
      (by rw [place]; linarith) (by rw [sub_add_cancel, place]; linarith)
    rw [if_pos back, pos]
    exact before.symm
  · have place : middle C.width (n axis) ≤ vtxPos (initOctant P C) t axis ∧
        vtxPos (initOctant P C) t axis ≤ middle C.width (n axis) + C.width * (1 / 2) := by
      rw [vtxPos]
      split
      · next along =>
        have mirror : ¬(initOctant P C).mirror axis = true := fun mirror => back ((Bool.and_eq_true _ _).mpr ⟨along, mirror⟩)
        rw [vertex, direction, if_neg mirror]
        push_cast
        constructor <;> linarith
      · rw [center]
        constructor <;> linarith
    rw [if_neg back]
    exact @initDualCell_pos (vtxPos (initOctant P C) t) C.width positive (n axis) axis place.1
      (by rw [next]; linarith [place.2])

/-- All values of leaf cells are between two bounds. -/
def AMR.Bounded (amr : AMR data ℚ) (fuel : Nat) (low high : ℚ) : Prop :=
  ∀ v ∈ amr.leafValues fuel, low ≤ v ∧ v ≤ high

namespace AMR.Regular

variable (regular : amr.Regular sorting)
include regular

/-- A boundary value is the average of some leaf cells. -/
theorem coarseBoundaryValue_spec (enough : amr.accel.node.length ≤ fuel) (leaf : amr.LeafCell fuel C n) (t : Corner) :
    ∃ v, amr.coarseBoundaryValue fuel (vtxPos (initOctant P C) t) C.width = some v ∧
      ∀ low high, amr.Bounded fuel low high → low ≤ v ∧ v ≤ high := by
  have positive := regular.nested.regions.positive _ leaf.width
  obtain ⟨D, found, lookups⟩ := readCorners_spec regular enough (initDualCell (vtxPos (initOctant P C) t) C.width)
    ⟨_, leaf.width, le_rfl⟩ (amr.dualCorner fun _ => initDualCell (vtxPos (initOctant P C) t) C.width)
    (fun c => regular.corner_inside fun _ => rfl)
  have here := lookups fun axis => t axis && (initOctant P C).mirror axis
  rw [dualCorner_center leaf positive] at here
  have own := (regular.own_corner leaf rfl here).2
  obtain ⟨leaves, kept⟩ : ∃ leaves, leaves = corners.filter fun c => (D c).isLeaf := ⟨_, rfl⟩
  have some_ : leaves ≠ [] := by
    rw [kept]
    exact List.ne_nil_of_mem (List.mem_filter.mpr ⟨(by decide : ∀ c : Corner, c ∈ corners) _, own⟩)
  have nonzero : (leaves.length : ℚ) ≠ 0 := Nat.cast_ne_zero.mpr (List.length_pos_of_ne_nil some_).ne'
  refine ⟨(leaves.map fun c => (D c).value).sum / leaves.length, ?_, fun low high bounded => ?_⟩
  · have dual : amr.dualCellAt fuel (initDualCell (vtxPos (initOctant P C) t) C.width) = some D := found
    subst kept
    rw [AMR.coarseBoundaryValue, dual]
    exact if_neg nonzero
  · have average := @average_between (leaves.map fun c => (D c).value) low high (List.map_eq_nil_iff.not.mpr some_)
      (fun v member => by
        obtain ⟨c, isLeaf, rfl⟩ := List.mem_map.mp member
        rw [kept] at isLeaf
        exact bounded _ ((lookups c).value (List.mem_filter.mp isLeaf).2))
    rwa [List.length_map] at average

end AMR.Regular

/-! ## The recursion -/

theorem allCorners_eq {filled : Corner → Option ℚ} {value : Corner → ℚ} (all : ∀ c, filled c = some (value c)) :
    AMR.allCorners filled = some value := by
  have defined : ∀ c, (filled c).isSome := by
    intro c
    rw [all c]
    rfl
  rw [AMR.allCorners, dif_pos defined]
  congr 1
  funext c
  simp only [all c, Option.get_some]

/-- A call of the octant method returns where every corner gets a value. -/
theorem doOctant_of_corners {D : Corner → CornerValue ℚ} {value : Corner → ℚ} {depth : Nat}
    (found : amr.mirroredDualCellAt fuel (initOctant P C).mirror (initDual P C) = some D)
    (values : ∀ t v, fill (initOctant P C) C D t = .value v → value t = v)
    (boundaries : ∀ t, fill (initOctant P C) C D t = .boundary →
      amr.coarseBoundaryValue fuel (vtxPos (initOctant P C) t) C.width = some (value t))
    (others : ∀ t pos width, fill (initOctant P C) C D t = .needToFillFrom pos width →
      ((amr.findCell fuel pos width).bind fun C' => amr.doOctant fuel depth C' (vtxPos (initOctant P C) t)) =
        some (value t)) :
    amr.doOctant fuel (depth + 1) C P = some (lerp (initOctant P C).weights value) := by
  rw [AMR.doOctant]
  simp only [found, Option.bind_eq_bind, Option.bind_some]
  rw [@allCorners_eq _ value]
  · rfl
  · intro t
    split
    · next v filled => rw [values t v filled]
    · next filled => exact boundaries t filled
    · next pos width filled => exact others t pos width filled

namespace AMR.Regular

variable (regular : amr.Regular sorting)
include regular

theorem needToFillFrom_spec (enough : amr.accel.node.length ≤ fuel) (leaf : amr.LeafCell fuel C n)
    {D : Corner → CornerValue ℚ} (corners : OctantCorners amr fuel C n (initOctant P C).mirror D) {t : Corner}
    {pos : Vec3} {width : ℚ} (left : fill (initOctant P C) C D t = .needToFillFrom pos width) :
    ∃ C', amr.findCell fuel pos width = some C' ∧ C.width < C'.width ∧ ∃ n', amr.LeafCell fuel C' n' ∧
      InCell C'.width n' (vtxPos (initOctant P C) t) := by
  obtain ⟨c, leftTo, place⟩ := fill_left (regular.own_width leaf corners) left
  obtain ⟨C', taken, same, rest⟩ := regular.left_cell enough leaf corners leftTo
  injection place with samePos sameWidth
  rw [samePos, sameWidth] at taken
  exact ⟨C', taken, same ▸ leftTo.coarser, rest⟩

/-- The octant method returns a value between those of leaf cells. The induction is on the number of coarser widths. -/
theorem doOctant_spec (enough : amr.accel.node.length ≤ fuel) (leaf : amr.LeafCell fuel C n)
    (inCell : InCell C.width n P) :
    ∃ r, (∀ depth, ((cellWidths data).filter (C.width < ·)).card < depth → amr.doOctant fuel depth C P = some r) ∧
      ∀ low high, amr.Bounded fuel low high → low ≤ r ∧ r ≤ high := by
  induction count : ((cellWidths data).filter (C.width < ·)).card using Nat.strong_induction_on
    generalizing C n P with
  | _ number inductionHypothesis =>
    obtain ⟨D, found, corners⟩ := regular.exists_corners enough leaf inCell
    have filled : ∀ t, ∃ v, (∀ v', fill (initOctant P C) C D t = .value v' → v = v') ∧
        (fill (initOctant P C) C D t = .boundary →
          amr.coarseBoundaryValue fuel (vtxPos (initOctant P C) t) C.width = some v) ∧
        (∀ pos width, fill (initOctant P C) C D t = .needToFillFrom pos width → ∀ depth, number ≤ depth →
          ((amr.findCell fuel pos width).bind fun C' => amr.doOctant fuel depth C' (vtxPos (initOctant P C) t)) =
            some v) ∧
        ∀ low high, amr.Bounded fuel low high → low ≤ v ∧ v ≤ high := by
      intro t
      cases kind : fill (initOctant P C) C D t with
      | value v =>
        refine ⟨v, fun v' same => Fill.value.inj same, fun other => (nomatch other), fun _ _ other => (nomatch other),
          fun low high bounded => ?_⟩
        exact fill_value (bounded _ leaf.value) (fun c isLeaf => bounded _ ((corners c).value isLeaf)) kind
      | boundary =>
        obtain ⟨v, average, between⟩ := @coarseBoundaryValue_spec _ _ _ _ _ _ P regular enough leaf t
        exact ⟨v, fun _ other => (nomatch other), fun _ => average, fun _ _ other => (nomatch other), between⟩
      | needToFillFrom pos width =>
        obtain ⟨C', taken, coarser, n', leaf', inCell'⟩ := regular.needToFillFrom_spec enough leaf corners kind
        have fewer : ((cellWidths data).filter (C'.width < ·)).card < number := by
          rw [← count]
          apply Finset.card_lt_card
          refine ⟨fun f above => ?_, fun same => ?_⟩
          · obtain ⟨among, beyond⟩ := Finset.mem_filter.mp above
            exact Finset.mem_filter.mpr ⟨among, coarser.trans beyond⟩
          · exact absurd (Finset.mem_filter.mp (same (Finset.mem_filter.mpr ⟨leaf'.width, coarser⟩))).2 (lt_irrefl _)
        obtain ⟨v, returns, between⟩ := inductionHypothesis _ fewer leaf' inCell' rfl
        refine ⟨v, fun _ other => (nomatch other), fun other => (nomatch other), fun pos' width' same depth enough_ => ?_,
          between⟩
        injection same with samePos sameWidth
        rw [← samePos, ← sameWidth, taken, Option.bind_some]
        exact returns depth (fewer.trans_le enough_)
    choose value values boundaries others bounds using filled
    refine ⟨lerp (initOctant P C).weights value, fun depth more => ?_, fun low high bounded => ?_⟩
    · obtain ⟨depth, rfl⟩ := Nat.exists_eq_succ_of_ne_zero (Nat.ne_zero_of_lt more)
      exact doOctant_of_corners found values boundaries fun t pos width left =>
        others t pos width left depth (Nat.lt_succ_iff.mp more)
    · have positive := regular.nested.regions.positive _ leaf.width
      exact lerp_between (weights_between leaf positive inCell) fun t => bounds t low high bounded

end AMR.Regular

/-! ## All calls -/

namespace AMR

/-- A call of `doOctant`, for a cell and a position, makes another one. -/
def Calls (amr : AMR data ℚ) (fuel : Nat) (call next : CellRef ℚ × Vec3) : Prop :=
  ∃ D t pos width, amr.mirroredDualCellAt fuel (initOctant call.2 call.1).mirror (initDual call.2 call.1) = some D ∧
    fill (initOctant call.2 call.1) call.1 D t = .needToFillFrom pos width ∧
    amr.findCell fuel pos width = some next.1 ∧ next.2 = vtxPos (initOctant call.2 call.1) t

/-- The octant method is well defined and bounded at a position: the recursion ends, with a value between those of leaf
cells, and in every call the weights are between zero and one and the boundary values are averages of some leaves. -/
structure OctantBounded (amr : AMR data ℚ) (fuel : Nat) (P : Vec3) (C : CellRef ℚ) : Prop where
  cell : amr.findLeafCell fuel P = some C
  returns : ∃ r, (∀ depth, data.length ≤ depth → amr.doOctant fuel depth C P = some r) ∧
    ∀ low high, amr.Bounded fuel low high → low ≤ r ∧ r ≤ high
  weights : ∀ call, Relation.ReflTransGen (amr.Calls fuel) (C, P) call → ∀ axis,
    0 ≤ (initOctant call.2 call.1).weights axis ∧ (initOctant call.2 call.1).weights axis ≤ 1
  boundaries : ∀ call, Relation.ReflTransGen (amr.Calls fuel) (C, P) call → ∀ D t,
    amr.mirroredDualCellAt fuel (initOctant call.2 call.1).mirror (initDual call.2 call.1) = some D →
    fill (initOctant call.2 call.1) call.1 D t = .boundary →
    ∃ v, amr.coarseBoundaryValue fuel (vtxPos (initOctant call.2 call.1) t) call.1.width = some v

end AMR

/-- Strictly inside a box. -/
def Box3.Inside (box : Box3) (P : Vec3) : Prop := ∀ axis, box.lower axis < P axis ∧ P axis < box.upper axis

theorem Box3.Inside.contains {box : Box3} (inside : box.Inside P) : box.Contains P :=
  fun axis => ⟨(inside axis).1.le, (inside axis).2⟩

theorem card_coarser (member : C.width ∈ cellWidths data) :
    ((cellWidths data).filter (C.width < ·)).card < data.length := by
  have fewer : ((cellWidths data).filter (C.width < ·)).card < (cellWidths data).card := by
    apply Finset.card_lt_card
    refine ⟨Finset.filter_subset _ _, fun all => ?_⟩
    exact absurd (Finset.mem_filter.mp (all member)).2 (lt_irrefl _)
  have most : (cellWidths data).card ≤ (data.map Brick.cellWidth).length := List.toFinset_card_le _
  rw [List.length_map] at most
  exact fewer.trans_le most

namespace AMR.Regular

variable (regular : amr.Regular sorting)
include regular

theorem calls_leafCell (enough : amr.accel.node.length ≤ fuel) {call next : CellRef ℚ × Vec3}
    (here : ∃ n, amr.LeafCell fuel call.1 n ∧ InCell call.1.width n call.2) (calls : amr.Calls fuel call next) :
    ∃ n, amr.LeafCell fuel next.1 n ∧ InCell next.1.width n next.2 := by
  obtain ⟨n, leaf, inCell⟩ := here
  obtain ⟨D, t, pos, width, found, left, taken, place⟩ := calls
  obtain ⟨D', found', corners⟩ := regular.exists_corners enough leaf inCell
  obtain rfl := Option.some.inj (found.symm.trans found')
  obtain ⟨C', taken', -, n', leaf', inCell'⟩ := regular.needToFillFrom_spec enough leaf corners left
  obtain rfl := Option.some.inj (taken.symm.trans taken')
  rw [place]
  exact ⟨n', leaf', inCell'⟩

theorem all_calls_leafCell (enough : amr.accel.node.length ≤ fuel) {first call : CellRef ℚ × Vec3}
    (here : ∃ n, amr.LeafCell fuel first.1 n ∧ InCell first.1.width n first.2)
    (follows : Relation.ReflTransGen (amr.Calls fuel) first call) :
    ∃ n, amr.LeafCell fuel call.1 n ∧ InCell call.1.width n call.2 := by
  induction follows with
  | refl => exact here
  | tail _ calls inductionHypothesis => exact regular.calls_leafCell enough inductionHypothesis calls

/-- At every point of the bounding box the method is well defined and bounded. -/
theorem octantBounded (enough : amr.accel.node.length ≤ fuel) (inside : amr.worldBounds.Contains P) :
    ∃ C, amr.OctantBounded fuel P C := by
  obtain ⟨C, cell, leaf⟩ := regular.findLeafCell_leafCell enough inside
  have positive := regular.nested.regions.positive _ leaf.width
  have inCell : InCell C.width (fun axis => column C.width (P axis)) P := by
    intro axis
    obtain ⟨low, high⟩ := (column_eq_iff positive).mp (rfl : column C.width (P axis) = _)
    exact ⟨low, high.le⟩
  have all := fun call follows =>
    @all_calls_leafCell _ _ _ _ regular enough (C, P) call ⟨_, leaf, inCell⟩ follows
  refine ⟨C, cell, ?_, fun call follows axis => ?_, fun call follows D t _ _ => ?_⟩
  · obtain ⟨r, returns, between⟩ := regular.doOctant_spec enough leaf inCell
    exact ⟨r, fun depth more => returns depth ((card_coarser leaf.width).trans_le more), between⟩
  · obtain ⟨n, leaf, inCell⟩ := all call follows
    exact weights_between leaf (regular.nested.regions.positive _ leaf.width) inCell axis
  · obtain ⟨n, leaf, inCell⟩ := all call follows
    obtain ⟨v, average, -⟩ := @coarseBoundaryValue_spec _ _ _ _ _ _ call.2 regular enough leaf t
    exact ⟨v, average⟩

end AMR.Regular

end Ospray.Amr
