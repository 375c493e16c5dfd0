import Mathlib.Algebra.Group.Action.Defs
import Mathlib.Algebra.Order.BigOperators.Group.Finset
import Mathlib.Algebra.Order.BigOperators.Group.List
import Ospray.Library.AxisChoices
import Ospray.Library.Whiles
import Ospray.Volume.AmrAccel

/-!
# The stacks of the lookups

The lanes of a packet descend together. At an inner node the lanes of `findCell` that go right
and those that go left are pushed as two entries, a branch that no lane takes being skipped,
so that the entries hold disjoint sets of lanes. `findDualCell` descends with eight corners
for each lane: along each axis, flags say whether the lower and the upper coordinate are
still active, and the active corners are the selections of active coordinates. An entry is
pushed only where corners go both ways.

A coordinate is compared with the position of a plane in two ways, and may fail both tests.
The nodes are read from memory, as the references lead, and need not be a tree.
-/

namespace Ospray.Amr

open Library.AxisChoices Library.Whiles

/-- How a coordinate compares with the position of a plane. -/
structure Comparison (α : Type) where
  less : α → ℚ → Bool
  atLeast : α → ℚ → Bool
  exclusive : ∀ x pos, ¬(less x pos = true ∧ atLeast x pos = true)

/-- The comparison of numbers. -/
def Comparison.exact : Comparison ℚ where
  less x pos := decide (x < pos)
  atLeast x pos := decide (x ≥ pos)
  exclusive := by
    intro x pos both
    rw [decide_eq_true_eq, decide_eq_true_eq] at both
    exact absurd both.1 (not_lt.mpr both.2)

/-- The comparison of numbers and of what is no number. -/
def Comparison.float : Comparison (Option ℚ) where
  less x pos := x.any fun x => decide (x < pos)
  atLeast x pos := x.any fun x => decide (x ≥ pos)
  exclusive := by
    rintro (_ | x) pos both
    · exact absurd both.1 Bool.false_ne_true
    · exact Comparison.exact.exclusive x pos both

variable {ι α : Type}

/-! ## The stack of `findCell` -/

/-- `FindStack` -/
structure FindStack (ι : Type) where
  active : Finset ι
  nodeID : Nat

/-- The state of the loop of `findCell` and `findLeafCell`: the entries, the last one first, and the leaves that
lanes have come to. -/
structure FindState (ι : Type) where
  stack : List (FindStack ι)
  leaf : ι → Option Nat

section FindCell

variable [DecidableEq ι]

/-- `pushStack`, in a branch that some lanes take -/
def pushStack (stack : List (FindStack ι)) (nodeID : Nat) (active : Finset ι) : List (FindStack ι) :=
  if active = ∅ then stack else ⟨active, nodeID⟩ :: stack

variable (node : Nat → Node) (compare : Comparison α) (samplePos : ι → Fin 3 → α)

/-- The loop starts with the root for all lanes. -/
def FindState.start (lanes : Finset ι) : FindState ι := ⟨[⟨lanes, 0⟩], fun _ => none⟩

/-- One pass of the loop. A lane that comes to a leaf returns. -/
def FindState.pass (state : FindState ι) : Pass (FindState ι) :=
  match state.stack with
  | [] => .leave state
  | entry :: stack =>
    if entry.active = ∅ then .again { state with stack := stack }
    else
      let read := node entry.nodeID
      let childID := read.ofs.val
      if inner : read.dim.val < 3 then
        let right := entry.active.filter fun lane => compare.atLeast (samplePos lane ⟨read.dim.val, inner⟩) read.pos
        .again { state with stack := pushStack (pushStack stack (childID + 1) right) childID (entry.active \ right) }
      else
        .again { stack := stack, leaf := fun lane => if lane ∈ entry.active then some childID else state.leaf lane }

variable {node compare samplePos} {state next : FindState ι} {lanes : Finset ι}

/-- An entry counts for its lanes, and at least for one. -/
def FindStack.weight (entry : FindStack ι) : Nat := max 1 entry.active.card

theorem pushStack_weight (stack : List (FindStack ι)) (nodeID : Nat) (active : Finset ι) :
    ((pushStack stack nodeID active).map FindStack.weight).sum ≤
      active.card + (stack.map FindStack.weight).sum := by
  rw [pushStack]
  split
  · exact Nat.le_add_left _ _
  · next some_ =>
    have one : 1 ≤ active.card := Finset.card_pos.mpr (Finset.nonempty_iff_ne_empty.mpr some_)
    rw [List.map_cons, List.sum_cons]
    exact Nat.add_le_add_right (max_le one le_rfl) _

/-- A pass divides the lanes of an entry, so the stack counts for no more after it. -/
theorem pass_weight (passed : state.pass node compare samplePos = .again next) :
    (next.stack.map FindStack.weight).sum ≤ (state.stack.map FindStack.weight).sum := by
  rw [FindState.pass] at passed
  split at passed
  · cases passed
  · next entry stack shape =>
    have popped : (state.stack.map FindStack.weight).sum = entry.weight + (stack.map FindStack.weight).sum := by
      rw [shape, List.map_cons, List.sum_cons]
    split at passed
    · obtain rfl := Pass.again.inj passed
      dsimp only
      omega
    · dsimp only at passed
      split at passed
      · next inner =>
        obtain rfl := Pass.again.inj passed
        dsimp only
        generalize divided : entry.active.filter (fun lane =>
          compare.atLeast (samplePos lane ⟨(node entry.nodeID).dim.val, inner⟩) (node entry.nodeID).pos) = right
        have part : right ⊆ entry.active := divided ▸ Finset.filter_subset _ _
        have count := Finset.card_sdiff_add_card_eq_card part
        have left := pushStack_weight (pushStack stack ((node entry.nodeID).ofs.val + 1) right)
          (node entry.nodeID).ofs.val (entry.active \ right)
        have first := pushStack_weight stack ((node entry.nodeID).ofs.val + 1) right
        have own : entry.active.card ≤ entry.weight := le_max_right _ _
        omega
      · obtain rfl := Pass.again.inj passed
        dsimp only
        omega

theorem findStack_length (reached : Reaches (FindState.pass node compare samplePos) (.start lanes) state) :
    state.stack.length ≤ max 1 lanes.card := by
  have bounded : (state.stack.map FindStack.weight).sum ≤ max 1 lanes.card := by
    apply @Reaches.keeps _ _ _ _ (fun state => (state.stack.map FindStack.weight).sum ≤ max 1 lanes.card) reached
    · intro state next kept passed
      exact (pass_weight passed).trans kept
    · exact (Nat.add_zero _).le
  have each := List.length_le_sum_of_one_le (state.stack.map FindStack.weight) fun weight member => by
    obtain ⟨entry, -, rfl⟩ := List.mem_map.mp member
    exact le_max_left _ _
  rw [List.length_map] at each
  exact each.trans bounded

end FindCell

/-! ## The stack of `findDualCell` -/

/-- `FindEightStack`. For each lane, the flags of an axis are `act_lo` and `act_hi`. -/
structure FindEightStack (ι : Type) where
  act : ι → Flags (Fin 3)
  nodeID : Nat

/-- The state of the loop of `findDualCell` and `findMirroredDualCell`: the entries, the last one first, the leaves in
the order in which they were met, and the node that the loop is at. -/
structure EightState (ι : Type) where
  stack : List (FindEightStack ι)
  leafList : List Nat
  act : ι → Flags (Fin 3)
  nodeID : Nat

section FindDualCell

variable (node : Nat → Node) (compare : Comparison α) (lanes : Finset ι) (corner : ι → Fin 3 → Bool → α)

/-- The loop starts with the root, for all corners. -/
def EightState.start : EightState ι := ⟨[], [], fun _ => Flags.all, 0⟩

/-- Take the last entry. -/
def EightState.pop (state : EightState ι) : Pass (EightState ι) :=
  match state.stack with
  | [] => .leave state
  | entry :: stack => .again { state with stack := stack, act := entry.act, nodeID := entry.nodeID }

/-- `go_left` and `go_right`, by the test that a coordinate must pass -/
def goes (act : Flags (Fin 3)) (dim : Fin 3) (test : Bool → Bool) : Bool :=
  ((act dim false && test false) || (act dim true && test true)) && act.live

/-- One pass of the loop. -/
def EightState.pass (state : EightState ι) : Pass (EightState ι) :=
  if lanes.Nonempty then
    let read := node state.nodeID
    let childID := read.ofs.val
    if inner : read.dim.val < 3 then
      let dim : Fin 3 := ⟨read.dim.val, inner⟩
      let below := fun lane side => compare.less (corner lane dim side) read.pos
      let beyond := fun lane side => compare.atLeast (corner lane dim side) read.pos
      if ¬∃ lane ∈ lanes, goes (state.act lane) dim (beyond lane) = true then .again { state with nodeID := childID }
      else if ¬∃ lane ∈ lanes, goes (state.act lane) dim (below lane) = true then
        .again { state with nodeID := childID + 1 }
      else
        .again
          { state with
            stack := ⟨fun lane => (state.act lane).narrow dim (beyond lane), childID + 1⟩ :: state.stack
            act := fun lane => (state.act lane).narrow dim (below lane)
            nodeID := childID }
    else EightState.pop { state with leafList := state.leafList ++ [childID] }
  else .leave state

/-- How much may still be pushed for some flags. -/
def pushWeight (act : ι → Flags (Fin 3)) : Nat := ∑ lane ∈ lanes, (act lane).weight

/-- The number of active corners. -/
def cornerCount (act : ι → Flags (Fin 3)) : Nat := ∑ lane ∈ lanes, (act lane).selections.card

/-- Entries that leave room for what may be pushed for them. -/
def Roomy : List (FindEightStack ι) → Prop
  | [] => True
  | entry :: below =>
    0 < pushWeight lanes entry.act ∧ pushWeight lanes entry.act + below.length ≤ 4 * lanes.card ∧ Roomy below

/-- What holds between passes: there is room for what may be pushed, and each leaf has taken a corner. -/
structure EightState.Accounted (state : EightState ι) : Prop where
  some_ : 0 < pushWeight lanes state.act
  room : pushWeight lanes state.act + state.stack.length ≤ 4 * lanes.card
  below : Roomy lanes state.stack
  leaves : state.leafList.length + cornerCount lanes state.act +
    (state.stack.map fun entry => cornerCount lanes entry.act).sum ≤ 8 * lanes.card

variable {node compare lanes corner} {state next : EightState ι} {act : ι → Flags (Fin 3)} {dim : Fin 3}
  {test : ι → Bool → Bool}

theorem goes_iff {act : Flags (Fin 3)} {test : Bool → Bool} :
    goes act dim test = true ↔ act.live = true ∧ ∃ side, act dim side = true ∧ test side = true := by
  rw [goes, Bool.and_eq_true, Bool.or_eq_true, Bool.and_eq_true, Bool.and_eq_true, and_comm, Bool.exists_bool]

theorem pushWeight_pos : 0 < pushWeight lanes act ↔ ∃ lane ∈ lanes, (act lane).live = true := by
  simp only [pushWeight, Finset.sum_pos_iff, Flags.weight_pos]

theorem cornerCount_pos : 0 < cornerCount lanes act ↔ ∃ lane ∈ lanes, (act lane).live = true := by
  simp only [cornerCount, Finset.sum_pos_iff, Finset.card_pos, Flags.selections_nonempty]

/-- With corners that pass a test, something may still be pushed, -/
theorem pushWeight_narrow_pos (some_ : ∃ lane ∈ lanes, goes (act lane) dim (test lane) = true) :
    0 < pushWeight lanes fun lane => (act lane).narrow dim (test lane) := by
  obtain ⟨lane, member, go⟩ := some_
  exact pushWeight_pos.mpr ⟨lane, member, Flags.live_narrow.mpr (goes_iff.mp go)⟩

/-- and no more than before. -/
theorem pushWeight_narrow_le :
    pushWeight lanes (fun lane => (act lane).narrow dim (test lane)) ≤ pushWeight lanes act :=
  Finset.sum_le_sum fun _ _ => Flags.weight_narrow_le

theorem pushWeight_narrow_lt {other : ι → Bool → Bool}
    (exclusive : ∀ lane side, ¬(test lane side = true ∧ other lane side = true))
    (some_ : ∃ lane ∈ lanes, goes (act lane) dim (other lane) = true) :
    pushWeight lanes (fun lane => (act lane).narrow dim (test lane)) < pushWeight lanes act := by
  obtain ⟨lane, member, go⟩ := some_
  obtain ⟨live, side, opened, away⟩ := goes_iff.mp go
  refine Finset.sum_lt_sum (fun _ _ => Flags.weight_narrow_le) ⟨lane, member, ?_⟩
  exact Flags.weight_narrow_lt live opened (Bool.eq_false_iff.mpr fun stays => exclusive lane side ⟨stays, away⟩)

theorem cornerCount_narrow_add {other : ι → Bool → Bool}
    (exclusive : ∀ lane side, ¬(test lane side = true ∧ other lane side = true)) :
    cornerCount lanes (fun lane => (act lane).narrow dim (test lane)) +
        cornerCount lanes (fun lane => (act lane).narrow dim (other lane)) ≤ cornerCount lanes act := by
  rw [cornerCount, cornerCount, ← Finset.sum_add_distrib]
  exact Finset.sum_le_sum fun lane _ => Flags.card_narrow_add (exclusive lane)

theorem accounted_start (some_ : lanes.Nonempty) : (EightState.start : EightState ι).Accounted lanes where
  some_ := pushWeight_pos.mpr (some_.imp fun _ member => ⟨member, Flags.live_all⟩)
  room := by
    have each : pushWeight lanes (fun _ => Flags.all) ≤ lanes.card • 4 :=
      Finset.sum_le_card_nsmul lanes _ 4 fun _ _ => Flags.weight_le _
    rw [smul_eq_mul] at each
    change pushWeight lanes (fun _ => Flags.all) + 0 ≤ _
    omega
  below := trivial
  leaves := by
    have each : cornerCount lanes (fun _ => Flags.all) ≤ lanes.card • 8 :=
      Finset.sum_le_card_nsmul lanes _ 8 fun _ _ => Flags.card_selections_le _
    rw [smul_eq_mul] at each
    change 0 + cornerCount lanes (fun _ => Flags.all) + 0 ≤ _
    omega

theorem leaf_room (accounted : state.Accounted lanes) : state.leafList.length + 1 ≤ 8 * lanes.card := by
  have leaves := accounted.leaves
  have one := cornerCount_pos.mpr (pushWeight_pos.mp accounted.some_)
  omega

theorem accounted_pop {childID : Nat} (accounted : state.Accounted lanes)
    (popped : EightState.pop { state with leafList := state.leafList ++ [childID] } = .again next) :
    next.Accounted lanes := by
  have leaves := accounted.leaves
  have one := cornerCount_pos.mpr (pushWeight_pos.mp accounted.some_)
  rw [EightState.pop] at popped
  cases shape : state.stack with
  | nil =>
    simp only [shape] at popped
    cases popped
  | cons entry stack =>
    simp only [shape] at popped
    obtain rfl := Pass.again.inj popped
    obtain ⟨some_, room, below⟩ : Roomy lanes (entry :: stack) := shape ▸ accounted.below
    rw [shape, List.map_cons, List.sum_cons] at leaves
    refine ⟨some_, room, below, ?_⟩
    simp only [List.length_append, List.length_singleton]
    omega

/-- A pass keeps the account. Where an entry is pushed, the part that is gone to weighs less. -/
theorem accounted_pass (accounted : state.Accounted lanes)
    (passed : state.pass node compare lanes corner = .again next) : next.Accounted lanes := by
  rw [EightState.pass] at passed
  split at passed
  · dsimp only at passed
    split at passed
    · next inner =>
      split at passed
      · obtain rfl := Pass.again.inj passed
        exact ⟨accounted.some_, accounted.room, accounted.below, accounted.leaves⟩
      · next right =>
        split at passed
        · obtain rfl := Pass.again.inj passed
          exact ⟨accounted.some_, accounted.room, accounted.below, accounted.leaves⟩
        · next left =>
          obtain rfl := Pass.again.inj passed
          rw [not_not] at left right
          have exclusive := fun lane side => compare.exclusive
            (corner lane ⟨(node state.nodeID).dim.val, inner⟩ side) (node state.nodeID).pos
          have less := pushWeight_narrow_lt exclusive right
          have beyond := @pushWeight_narrow_le _ lanes state.act ⟨(node state.nodeID).dim.val, inner⟩
            fun lane side => compare.atLeast (corner lane ⟨(node state.nodeID).dim.val, inner⟩ side)
              (node state.nodeID).pos
          have parts := @cornerCount_narrow_add _ lanes state.act ⟨(node state.nodeID).dim.val, inner⟩ _ _ exclusive
          have room := accounted.room
          have leaves := accounted.leaves
          refine ⟨pushWeight_narrow_pos left, ?_, ⟨pushWeight_narrow_pos right, ?_, accounted.below⟩, ?_⟩
          · rw [List.length_cons]
            dsimp only at less ⊢
            omega
          · exact (Nat.add_le_add_right beyond _).trans room
          · rw [List.map_cons, List.sum_cons]
            dsimp only at parts ⊢
            omega
    · exact accounted_pop accounted passed
  · cases passed

/-- So there is always something that may still be pushed, -/
theorem accounted_reached (some_ : lanes.Nonempty)
    (reached : Reaches (EightState.pass node compare lanes corner) .start state) : state.Accounted lanes :=
  reached.keeps (fun _ _ kept passed => accounted_pass kept passed) (accounted_start some_)

/-- and the stack does not fill, nor does the list of leaves. -/
theorem eightStack_length (reached : Reaches (EightState.pass node compare lanes corner) .start state) :
    state.stack.length ≤ 4 * lanes.card - 1 ∧ state.leafList.length ≤ 8 * lanes.card := by
  by_cases some_ : lanes.Nonempty
  · have accounted := accounted_reached some_ reached
    have one := accounted.some_
    have room := accounted.room
    have leaves := accounted.leaves
    omega
  · have still : state = .start := by
      induction reached with
      | refl => rfl
      | tail _ passed same =>
        rw [EightState.pass, if_neg some_] at passed
        cases passed
    rw [still]
    exact ⟨Nat.zero_le _, Nat.zero_le _⟩

/-- The last pass adds a leaf that there is room for. -/
theorem leafList_length (reached : Reaches (EightState.pass node compare lanes corner) .start state)
    (left : state.pass node compare lanes corner = .leave next) : next.leafList.length ≤ 8 * lanes.card := by
  rw [EightState.pass] at left
  split at left
  · next some_ =>
    have accounted := accounted_reached some_ reached
    dsimp only at left
    split at left
    · split at left
      · cases left
      · split at left <;> cases left
    · rw [EightState.pop] at left
      split at left
      · obtain rfl := Pass.leave.inj left
        rw [List.length_append]
        exact leaf_room accounted
      · cases left
  · obtain rfl := Pass.leave.inj left
    exact (eightStack_length reached).2

end FindDualCell

/-- **The buffers suffice.** For nodes of any kind, lanes with any coordinates, and no more lanes than a packet has, the
stack of the cell lookups never holds more than 16 entries, that of the dual cell lookups never more than 63, and the
leaves never more than eight for each lane of a packet. -/
theorem buffers_suffice [DecidableEq ι] (node : Nat → Node) (compare : Comparison α) (lanes : Finset ι)
    {programCount : Nat} (active : lanes.card ≤ programCount) (packet : programCount ≤ 16) :
    (∀ (samplePos : ι → Fin 3 → α) (state : FindState ι),
      Reaches (FindState.pass node compare samplePos) (.start lanes) state → state.stack.length ≤ 16) ∧
    ∀ (corner : ι → Fin 3 → Bool → α) (state : EightState ι),
      Reaches (EightState.pass node compare lanes corner) .start state →
        state.stack.length ≤ 63 ∧ state.leafList.length ≤ 8 * programCount ∧
          ∀ last, state.pass node compare lanes corner = .leave last → last.leafList.length ≤ 8 * programCount := by
  have corners : 8 * lanes.card ≤ 8 * programCount := Nat.mul_le_mul_left 8 active
  constructor
  · intro samplePos state reached
    have length := findStack_length reached
    omega
  · intro corner state reached
    obtain ⟨stack, leaves⟩ := eightStack_length reached
    refine ⟨by omega, leaves.trans corners, fun last left => (leafList_length reached left).trans corners⟩

/-- Nodes that all lead to themselves and to one other. -/
def endless : Nat → Node := fun _ => { ofs := 0, dim := 0, pos := 0, numItems := 0 }

/-- A packet of sixteen lanes with such nodes, at its start. -/
theorem buffers_suffice_endless :
    (EightState.start : EightState (Fin 16)).stack.length ≤ 63 ∧
      (EightState.start : EightState (Fin 16)).leafList.length ≤ 8 * 16 := by
  have corner : Fin 16 → Fin 3 → Bool → Option ℚ := fun _ _ _ => some 0
  have suffice := (buffers_suffice endless .float (Finset.univ : Finset (Fin 16)) (by decide) (le_refl 16)).2 corner
    .start .refl
  exact ⟨suffice.1, suffice.2.1⟩

end Ospray.Amr
