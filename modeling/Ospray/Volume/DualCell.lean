import Ospray.Volume.AmrLookup
import Ospray.Volume.FindStack

/-!
# The lookup of dual cells

A dual cell has its eight corners at the centers of cells of one width. `findDualCell` moves
its lower and its upper corner into a box, collects the leaves that any corner of any lane
leads to, and then, for one width after the other, writes from each of these leaves the
corners that it holds. The mirrored lookup takes lower for upper coordinates along some axes.
-/

namespace Ospray.Amr

open Library.AxisChoices Library.BoxTrees Library.Whiles

/-! ## The lookup -/

/-- `DualCellID` -/
structure DualCellID where
  pos : Vec3
  width : ℚ

/-- What a dual cell has at one of its corners. -/
structure CornerValue (V : Type) where
  value : V
  actualWidth : ℚ
  isLeaf : Bool

/-- A corner of a dual cell: on each axis the lower or the upper side. -/
abbrev Corner := Fin 3 → Bool

/-- What was written to the dual cells of some lanes. -/
abbrev DualCells (ι V : Type) := ι → Corner → Option (CornerValue V)

/-- The widths of some lanes, each once, in the order in which `foreach_unique` takes them. -/
structure UniqueWidths {ι : Type} (lanes : Finset ι) (cellID : ι → DualCellID) where
  order : List ℚ
  nodup : order.Nodup
  mem_order : ∀ width, width ∈ order ↔ ∃ lane ∈ lanes, (cellID lane).width = width

variable {data : List Brick} {V ι : Type}

/-- The brick loop: the first brick that is wide enough, and whether it is the first of the list. -/
def selectBrick (desired_width : ℚ) :
    Bool → List (Option (BrickPointer data)) → Option (BrickPointer data × Bool)
  | isLeaf, some brick :: rest =>
    if (data.get brick).cellWidth < desired_width then selectBrick desired_width false rest else some (brick, isLeaf)
  | _, _ => none

namespace AMR

variable (amr : AMR data V) (fuel : Nat) {lanes : Finset ι} (cellID : ι → DualCellID)

/-- `_P0` and `_P1` of a dual cell, one for each side -/
def cornerBounds (id : DualCellID) (side : Bool) (axis : Fin 3) : ℚ :=
  max 0 (min (if side then id.pos axis + id.width else id.pos axis) (amr.maxValidPos axis))

/-- `lo` and `hi` for all lanes -/
def dualCorner (lane : ι) (axis : Fin 3) (side : Bool) : ℚ := amr.cornerBounds (cellID lane) side axis

/-- `lo` and `hi` of the mirrored lookup -/
def mirroredCorner (mirror : ι → Corner) (lane : ι) (axis : Fin 3) (side : Bool) : ℚ :=
  if mirror lane axis then amr.cornerBounds (cellID lane) (!side) axis else amr.cornerBounds (cellID lane) side axis

section Leaves

variable (corner : ι → Fin 3 → Bool → ℚ)

/-- `valid_x0`, `valid_x1` and so on -/
def validIn (leaf : Leaf data) (lane : ι) : Flags (Fin 3) := fun axis side =>
  match leaf.bounds with
  | none => false
  | some bounds => decide (corner lane axis side ≥ bounds.lower axis) && decide (corner lane axis side < bounds.upper axis)

/-- `idx` of a corner -/
def cornerIndex (brick : Brick) (lane : ι) (c : Corner) : Int :=
  let f_bc := fun side axis => brick.cellAt (fun axis => corner lane axis side) axis
  f_bc (c 0) 0 + f_bc (c 1) 1 * brick.dims 0 + f_bc (c 2) 2 * brick.dims 0 * brick.dims 1

/-- The pass over one leaf for the lanes of one width. It fails where the end of the list of bricks is read. -/
def processLeaf [DecidableEq ι] (lanes : Finset ι) (desired_width : ℚ) (ofs : Nat) (dual : DualCells ι V) :
    Option (DualCells ι V) := do
  let leaf ← amr.accel.leaf[ofs]?
  let valid := validIn corner leaf
  let active := lanes.filter fun lane => (cellID lane).width = desired_width ∧ (valid lane).live = true
  if active.Nonempty then
    let (brick, isLeaf) ← selectBrick desired_width true leaf.brickList
    some fun lane c =>
      if (lane ∈ lanes ∧ (cellID lane).width = desired_width ∧ (valid lane).live = true) ∧ c ∈ (valid lane).selections then
        some ⟨amr.value brick (cornerIndex corner (data.get brick) lane c), (data.get brick).cellWidth, isLeaf⟩
      else dual lane c
  else some dual

/-- The nodes in memory. -/
def readNode (nodeID : Nat) : Node := amr.accel.node.getD nodeID Node.zero

/-- The lookup for corners with some coordinates: the traversal, and the passes over the leaves. -/
def findCorners [DecidableEq ι] (widths : UniqueWidths lanes cellID) : Option (DualCells ι V) := do
  let last ← loop (EightState.pass amr.readNode .exact lanes corner) fuel .start
  widths.order.foldlM (fun dual width =>
    last.leafList.foldlM (fun dual ofs => amr.processLeaf cellID corner lanes width ofs dual) dual) fun _ _ => none

end Leaves

/-- `findDualCell` -/
def findDualCell [DecidableEq ι] (widths : UniqueWidths lanes cellID) : Option (DualCells ι V) :=
  amr.findCorners fuel cellID (amr.dualCorner cellID) widths

/-- `findMirroredDualCell` -/
def findMirroredDualCell [DecidableEq ι] (mirror : ι → Corner) (widths : UniqueWidths lanes cellID) : Option (DualCells ι V) :=
  amr.findCorners fuel cellID (amr.mirroredCorner cellID mirror) widths

/-- What a descent for a single point finds: the first brick that is wide enough in the leaf there. -/
def lookupCorner (steps : Nat) (point : Vec3) (width : ℚ) : Option (CornerValue V) := do
  let leaf ← amr.leafAt steps point
  let (brick, isLeaf) ← selectBrick width true leaf.brickList
  some ⟨amr.value brick ((data.get brick).index ((data.get brick).cellAt point)), (data.get brick).cellWidth, isLeaf⟩

end AMR

/-! ## The leaves that are collected -/

section Visited

variable {amr : AMR data V} {lanes : Finset ι} {corner : ι → Fin 3 → Bool → ℚ} {sorting : LevelSort data}

/-- The coordinates of a corner. -/
def cornerPoint (corner : ι → Fin 3 → Bool → ℚ) (lane : ι) (c : Corner) : Vec3 := fun axis => corner lane axis (c axis)

variable (lanes corner) in
/-- The leaves that the traversal of a tree collects for some flags, its own numbered from a first one on. -/
def visited {bounds : Box3} : SplitTree (List (BrickPointer data)) bounds → (ι → Flags (Fin 3)) → Nat → List Nat
  | .leaf _ _, _, first => [first]
  | .split _ dim pos _ left right, act, first =>
    let below := fun lane side => Comparison.exact.less (corner lane dim side) pos
    let beyond := fun lane side => Comparison.exact.atLeast (corner lane dim side) pos
    if ¬∃ lane ∈ lanes, goes (act lane) dim (beyond lane) = true then visited left act first
    else if ¬∃ lane ∈ lanes, goes (act lane) dim (below lane) = true then visited right act (first + left.leaves.length)
    else
      visited left (fun lane => (act lane).narrow dim (below lane)) first ++
        visited right (fun lane => (act lane).narrow dim (beyond lane)) (first + left.leaves.length)

/-- The loop ends with a list of leaves, after some number of passes at most. -/
def CollectsAll (node : Nat → Node) (lanes : Finset ι) (corner : ι → Fin 3 → Bool → ℚ) (passes : Nat)
    (state : EightState ι) (leaves : List Nat) : Prop :=
  ∃ last, (∀ fuel, passes ≤ fuel → loop (EightState.pass node .exact lanes corner) fuel state = some last) ∧
    last.leafList = leaves

/-- A pass that ends the loop, or goes on, leads to a list of leaves. -/
def LeadsToAll (node : Nat → Node) (lanes : Finset ι) (corner : ι → Fin 3 → Bool → ℚ) (passes : Nat)
    (leaves : List Nat) : Pass (EightState ι) → Prop
  | .leave last => last.leafList = leaves
  | .again next => CollectsAll node lanes corner passes next leaves

theorem collects_of_pass {node : Nat → Node} {passes more : Nat} {state : EightState ι} {leaves : List Nat}
    {pass : Pass (EightState ι)} (first : state.pass node .exact lanes corner = pass) (one : passes < more)
    (leads : LeadsToAll node lanes corner passes leaves pass) : CollectsAll node lanes corner more state leaves := by
  cases pass with
  | leave last =>
    refine ⟨last, fun fuel enough => ?_, leads⟩
    obtain ⟨rest, rfl⟩ := Nat.exists_eq_add_of_lt (one.trans_le enough)
    rw [loop, first]
  | again next =>
    obtain ⟨last, runs, same⟩ := leads
    refine ⟨last, fun fuel enough => ?_, same⟩
    obtain ⟨rest, rfl⟩ := Nat.exists_eq_add_of_lt (one.trans_le enough)
    rw [loop, first]
    exact runs _ (Nat.le_add_right _ _)

/-- A pass at a node that is cut along an axis. -/
theorem pass_inner {node : Nat → Node} {state : EightState ι} {dim : Fin 3} (some_ : lanes.Nonempty)
    (inner : (node state.nodeID).dim = dim.castSucc) :
    state.pass node .exact lanes corner =
      let read := node state.nodeID
      let below := fun lane side => Comparison.exact.less (corner lane dim side) read.pos
      let beyond := fun lane side => Comparison.exact.atLeast (corner lane dim side) read.pos
      if ¬∃ lane ∈ lanes, goes (state.act lane) dim (beyond lane) = true then
        .again { state with nodeID := read.ofs.val }
      else if ¬∃ lane ∈ lanes, goes (state.act lane) dim (below lane) = true then
        .again { state with nodeID := read.ofs.val + 1 }
      else
        .again
          { state with
            stack := ⟨fun lane => (state.act lane).narrow dim (beyond lane), read.ofs.val + 1⟩ :: state.stack
            act := fun lane => (state.act lane).narrow dim (below lane)
            nodeID := read.ofs.val } := by
  have axis : (node state.nodeID).dim.val = dim.val := by rw [inner, Fin.val_castSucc]
  have isInner : (node state.nodeID).dim.val < 3 := axis ▸ dim.isLt
  have same : (⟨(node state.nodeID).dim.val, isInner⟩ : Fin 3) = dim := Fin.ext axis
  rw [EightState.pass, if_pos some_]
  simp only [dif_pos isInner, same]

/-- From a node that stands for a tree, the loop collects its leaves, and goes on with the stack. The induction is on
the tree, for every stack. -/
theorem collects_visited (some_ : lanes.Nonempty) {bounds : Box3}
    {tree : SplitTree (List (BrickPointer data)) bounds} {nodeID first : Nat} {ids leaves : List Nat}
    (stands : Stands amr.accel.node tree nodeID first ids) (stack : List (FindEightStack ι)) (leafList : List Nat)
    (act : ι → Flags (Fin 3)) (passes : Nat)
    (resumes : ∀ after nodeID, LeadsToAll amr.readNode lanes corner passes leaves
      (EightState.pop ⟨stack, leafList ++ visited lanes corner tree act first, after, nodeID⟩)) :
    CollectsAll amr.readNode lanes corner (tree.size + passes) ⟨stack, leafList, act, nodeID⟩ leaves := by
  induction tree generalizing nodeID first ids stack leafList act passes with
  | leaf bounds brick =>
    obtain ⟨-, n, found, isLeaf, number⟩ := stands
    have read : amr.readNode nodeID = n := by rw [AMR.readNode, List.getD_eq_getElem?_getD, found, Option.getD_some]
    have notInner : ¬ n.dim.val < 3 := by omega
    apply collects_of_pass _ (Nat.lt_add_of_pos_left Nat.one_pos) (resumes act nodeID)
    rw [EightState.pass, if_pos some_]
    simp only [read, dif_neg notInner, number, visited]
  | split bounds dim pos cuts left right leftHypothesis rightHypothesis =>
    obtain ⟨n, leftIds, rightIds, found, inner, plane, -, standsLeft, standsRight⟩ := stands
    have read : amr.readNode nodeID = n := by rw [AMR.readNode, List.getD_eq_getElem?_getD, found, Option.getD_some]
    rw [visited] at resumes
    rw [SplitTree.size]
    have onlyLeft : left.size + passes < left.size + right.size + 1 + passes := by omega
    have onlyRight : right.size + passes < left.size + right.size + 1 + passes := by omega
    have both : left.size + (right.size + passes) < left.size + right.size + 1 + passes := by omega
    have passed := @pass_inner _ lanes corner amr.readNode ⟨stack, leafList, act, nodeID⟩ dim some_
      (by rw [read]; exact inner)
    simp only [read, plane] at resumes passed
    by_cases noRight : ¬∃ lane ∈ lanes,
        goes (act lane) dim (fun side => Comparison.exact.atLeast (corner lane dim side) pos) = true
    · rw [if_pos noRight] at resumes passed
      exact collects_of_pass passed onlyLeft (leftHypothesis standsLeft stack leafList act passes resumes)
    · rw [if_neg noRight] at resumes passed
      by_cases noLeft : ¬∃ lane ∈ lanes,
          goes (act lane) dim (fun side => Comparison.exact.less (corner lane dim side) pos) = true
      · rw [if_pos noLeft] at resumes passed
        exact collects_of_pass passed onlyRight (rightHypothesis standsRight stack leafList act passes resumes)
      · rw [if_neg noLeft] at resumes passed
        apply collects_of_pass passed both
        apply leftHypothesis standsLeft
        intro after nodeID
        apply rightHypothesis standsRight
        intro after nodeID
        rw [List.append_assoc]
        exact resumes after nodeID

theorem goes_of_selection {act : Flags (Fin 3)} {c : Corner} {dim : Fin 3} {test : Bool → Bool}
    (active : c ∈ act.selections) (passes : test (c dim) = true) : goes act dim test = true :=
  goes_iff.mpr ⟨Flags.selections_nonempty.mp ⟨c, active⟩, c dim, Flags.mem_selections.mp active dim, passes⟩

/-- The leaf of every active corner is collected. -/
theorem mem_visited {bounds : Box3} (tree : SplitTree (List (BrickPointer data)) bounds) (act : ι → Flags (Fin 3))
    (first : Nat) {lane : ι} (member : lane ∈ lanes) {c : Corner} (active : c ∈ (act lane).selections) :
    first + tree.findIndex (cornerPoint corner lane c) ∈ visited lanes corner tree act first := by
  induction tree generalizing act first with
  | leaf bounds brick => exact List.mem_singleton_self _
  | split bounds dim pos cuts left right leftHypothesis rightHypothesis =>
    rw [visited, SplitTree.findIndex]
    by_cases beyond : pos ≤ cornerPoint corner lane c dim
    · have test : Comparison.exact.atLeast (corner lane dim (c dim)) pos = true := decide_eq_true beyond
      have right_ : ¬¬∃ lane ∈ lanes,
          goes (act lane) dim (fun side => Comparison.exact.atLeast (corner lane dim side) pos) = true :=
        not_not_intro ⟨lane, member, goes_of_selection active test⟩
      rw [if_pos beyond, ← Nat.add_assoc]
      simp only [right_, if_false]
      split
      · exact rightHypothesis act _ active
      · exact List.mem_append_right _ (rightHypothesis _ _ (Flags.mem_selections_narrow.mpr ⟨active, test⟩))
    · have test : Comparison.exact.less (corner lane dim (c dim)) pos = true := decide_eq_true (not_le.mp beyond)
      have left_ : ¬¬∃ lane ∈ lanes,
          goes (act lane) dim (fun side => Comparison.exact.less (corner lane dim side) pos) = true :=
        not_not_intro ⟨lane, member, goes_of_selection active test⟩
      rw [if_neg beyond]
      simp only [left_, if_false]
      split
      · exact leftHypothesis act _ active
      · exact List.mem_append_left _ (leftHypothesis _ _ (Flags.mem_selections_narrow.mpr ⟨active, test⟩))

/-- The leaves that are collected are those of the tree. -/
theorem visited_lt {bounds : Box3} (tree : SplitTree (List (BrickPointer data)) bounds) (act : ι → Flags (Fin 3))
    (first : Nat) {ofs : Nat} (member : ofs ∈ visited lanes corner tree act first) :
    ofs < first + tree.leaves.length := by
  induction tree generalizing act first with
  | leaf bounds brick =>
    rw [visited, List.mem_singleton] at member
    rw [member, SplitTree.leaves, List.length_singleton]
    exact Nat.lt_succ_self _
  | split bounds dim pos cuts left right leftHypothesis rightHypothesis =>
    rw [SplitTree.leaves, List.length_append]
    have right_ : ∀ act, ofs ∈ visited lanes corner right act (first + left.leaves.length) →
        ofs < first + (left.leaves.length + right.leaves.length) := by
      intro act member
      rw [← Nat.add_assoc]
      exact rightHypothesis act _ member
    have left_ : ∀ act, ofs ∈ visited lanes corner left act first →
        ofs < first + (left.leaves.length + right.leaves.length) := by
      intro act member
      have below := leftHypothesis act _ member
      omega
    rw [visited] at member
    dsimp only at member
    split at member
    · exact left_ _ member
    · split at member
      · exact right_ _ member
      · exact (List.mem_append.mp member).elim (left_ _) (right_ _)

/-- The traversal of a built tree ends with leaves of it, among them those of all corners. There is a pass for each
node at most. -/
theorem traversal_collects {tree : SplitTree (List (BrickPointer data)) amr.worldBounds} (overTree : amr.Over sorting tree)
    (lanes : Finset ι) (corner : ι → Fin 3 → Bool → ℚ) {fuel : Nat} (enough : amr.accel.node.length ≤ fuel) :
    ∃ last, loop (EightState.pass amr.readNode .exact lanes corner) fuel .start = some last ∧
      (∀ ofs ∈ last.leafList, ofs < tree.leaves.length) ∧
      ∀ lane ∈ lanes, ∀ c, tree.findIndex (cornerPoint corner lane c) ∈ last.leafList := by
  rw [← overTree.size] at enough
  by_cases some_ : lanes.Nonempty
  · obtain ⟨ids, stands⟩ := overTree.stands
    obtain ⟨last, returns, leaves⟩ :=
      collects_visited some_ stands [] [] (fun _ => Flags.all) 0 fun after nodeID => rfl
    refine ⟨last, returns fuel enough, fun ofs member => ?_, fun lane member c => ?_⟩
    · rw [leaves] at member
      have below := visited_lt tree _ 0 member
      rwa [Nat.zero_add] at below
    · have active : c ∈ (Flags.all : Flags (Fin 3)).selections := Flags.mem_selections.mpr fun _ => rfl
      have collected := @mem_visited _ _ lanes corner _ tree (fun _ => Flags.all) 0 lane member c active
      rw [Nat.zero_add] at collected
      exact leaves ▸ collected
  · obtain ⟨rest, rfl⟩ := Nat.exists_eq_add_of_lt (tree.size_pos.trans_le enough)
    refine ⟨.start, ?_, fun ofs member => absurd member List.not_mem_nil, fun lane member => ?_⟩
    · rw [loop, EightState.pass, if_neg some_]
    · exact absurd ⟨lane, member⟩ some_

end Visited

/-! ## The passes over the leaves -/

theorem selectBrick_map (width : ℚ) (isLeaf : Bool) (bricks : List (Option (BrickPointer data))) :
    (selectBrick width isLeaf bricks).map Prod.fst = firstBrick width bricks := by
  induction bricks generalizing isLeaf with
  | nil => rfl
  | cons first rest inductionHypothesis =>
    cases first with
    | none => rfl
    | some b =>
      rw [selectBrick, firstBrick]
      split
      · next narrow => rw [if_neg (not_le.mpr narrow), inductionHypothesis]
      · next wide => rw [if_pos (not_lt.mp wide), Option.map_some]

/-- A call that may fail, and else writes some corners, each with its own content. -/
def Writes {X : Type} (perform : (ι → Corner → X) → Option (ι → Corner → X)) (fails : Prop)
    (writes : ι → Corner → Prop) (content : ι → Corner → X) : Prop :=
  ∀ dual, (fails → perform dual = none) ∧ (¬fails → ∃ next, perform dual = some next ∧ ∀ lane c,
    (writes lane c → next lane c = content lane c) ∧ (¬writes lane c → next lane c = dual lane c))

/-- Calls in a row write what any of them does, and fail with any of them. -/
theorem foldlM_writes {κ X : Type} {perform : (ι → Corner → X) → κ → Option (ι → Corner → X)} {fails : κ → Prop}
    {writes : κ → ι → Corner → Prop} {content : ι → Corner → X} {calls : List κ}
    (each : ∀ call ∈ calls, Writes (fun dual => perform dual call) (fails call) (writes call) content) :
    Writes (fun dual => calls.foldlM perform dual) (∃ call ∈ calls, fails call)
      (fun lane c => ∃ call ∈ calls, writes call lane c) content := by
  induction calls with
  | nil =>
    intro dual
    refine ⟨fun ⟨_, member, _⟩ => absurd member List.not_mem_nil, fun _ => ⟨dual, rfl, fun lane c => ?_⟩⟩
    exact ⟨fun ⟨_, member, _⟩ => absurd member List.not_mem_nil, fun _ => rfl⟩
  | cons call rest inductionHypothesis =>
    intro dual
    have later := inductionHypothesis fun call member => each call (List.mem_cons_of_mem _ member)
    obtain ⟨failed, performed⟩ : (_ → perform dual call = none) ∧ (_ → ∃ next, perform dual call = some next ∧ _) :=
      each call List.mem_cons_self dual
    simp only [List.foldlM_cons, List.exists_mem_cons_iff, not_or, Option.bind_eq_bind]
    by_cases first : fails call
    · rw [failed first]
      exact ⟨fun _ => rfl, fun ⟨none_, _⟩ => absurd first none_⟩
    · obtain ⟨next, done, own⟩ := performed first
      obtain ⟨laterFails, laterWrites⟩ := later next
      rw [done, Option.bind_some]
      refine ⟨fun fail => laterFails (fail.resolve_left first), fun ⟨_, none_⟩ => ?_⟩
      obtain ⟨last, run, kept⟩ := laterWrites none_
      refine ⟨last, run, fun lane c => ⟨fun written => ?_, fun ⟨unwritten, untouched⟩ => ?_⟩⟩
      · by_cases again : ∃ call ∈ rest, writes call lane c
        · exact (kept lane c).1 again
        · rw [(kept lane c).2 again]
          exact (own lane c).1 (written.resolve_right again)
      · rw [(kept lane c).2 untouched]
        exact (own lane c).2 unwritten

section Passes

variable {amr : AMR data V} {lanes : Finset ι} {cellID : ι → DualCellID} {corner : ι → Fin 3 → Bool → ℚ}
  {sorting : LevelSort data}

theorem mem_validIn {leaf : Leaf data} {lane : ι} {c : Corner} : c ∈ (AMR.validIn corner leaf lane).selections ↔
    ∃ region, leaf.bounds = some region ∧ region.Contains (cornerPoint corner lane c) := by
  rw [Flags.mem_selections]
  cases bounds : leaf.bounds with
  | none => simp [AMR.validIn, bounds]
  | some region =>
    simp only [AMR.validIn, bounds, Bool.and_eq_true, decide_eq_true_eq, Option.some.injEq, exists_eq_left']
    rfl

theorem cornerIndex_eq (brick : Brick) (lane : ι) (c : Corner) :
    AMR.cornerIndex corner brick lane c = brick.index (brick.cellAt (cornerPoint corner lane c)) := by
  simp only [AMR.cornerIndex, Brick.index, Brick.cellAt, cornerPoint]
  ring

/-- The leaf that holds a point is that which the descent ends at. -/
theorem leafAt_of_contains {tree : SplitTree (List (BrickPointer data)) amr.worldBounds} (overTree : amr.Over sorting tree)
    {ofs steps : Nat} (enough : amr.accel.node.length ≤ steps) {leaf : Leaf data} {region : Box3} {point : Vec3}
    (found : amr.accel.leaf[ofs]? = some leaf) (bounds : leaf.bounds = some region)
    (contained : region.Contains point) : amr.leafAt steps point = some leaf := by
  rw [overTree.leaf, List.getElem?_map, Option.map_eq_some_iff] at found
  obtain ⟨held, found, rfl⟩ := found
  obtain rfl := Option.some.inj bounds
  have root := (tree.leaves_within overTree.proper held (List.mem_of_getElem? found)).1
  have led := tree.leaves_findIndex point
  have here := tree.find_contains (root.contains contained)
  have apart := List.pairwise_iff_getElem.mp (tree.leaves_disjoint overTree.proper)
  obtain ⟨bound, shape⟩ := List.getElem?_eq_some_iff.mp found
  obtain ⟨bound', shape'⟩ := List.getElem?_eq_some_iff.mp led
  have same : ofs = tree.findIndex point := by
    obtain less | same | more := Nat.lt_trichotomy ofs (tree.findIndex point)
    · exact absurd ⟨shape ▸ contained, shape' ▸ here⟩ (apart _ _ bound bound' less point)
    · exact same
    · exact absurd ⟨shape' ▸ here, shape ▸ contained⟩ (apart _ _ bound' bound more point)
  rw [overTree.leafAt point enough]
  rw [same, led] at found
  rw [Option.some.inj found]

/-- A leaf holds a corner. -/
def AMR.HoldsCorner (amr : AMR data V) (corner : ι → Fin 3 → Bool → ℚ) (ofs : Nat) (lane : ι) (c : Corner) : Prop :=
  ∃ leaf, amr.accel.leaf[ofs]? = some leaf ∧ c ∈ (AMR.validIn corner leaf lane).selections

variable {tree : SplitTree (List (BrickPointer data)) amr.worldBounds} {steps ofs : Nat} {width : ℚ} {lane : ι}
  {c : Corner}

/-- A leaf that holds a corner is the one for its point, and the point is in the bounding box. -/
theorem AMR.HoldsCorner.spec (overTree : amr.Over sorting tree) (enough : amr.accel.node.length ≤ steps)
    (holds : amr.HoldsCorner corner ofs lane c) :
    amr.leafAt steps (cornerPoint corner lane c) = amr.accel.leaf[ofs]? ∧
      amr.worldBounds.Contains (cornerPoint corner lane c) := by
  obtain ⟨leaf, found, held⟩ := holds
  obtain ⟨region, bounds, contained⟩ := mem_validIn.mp held
  refine ⟨(leafAt_of_contains overTree enough found bounds contained).trans found.symm, ?_⟩
  rw [overTree.leaf, List.getElem?_map, Option.map_eq_some_iff] at found
  obtain ⟨part, member, rfl⟩ := found
  obtain rfl := Option.some.inj bounds
  exact (tree.leaves_within overTree.proper part (List.mem_of_getElem? member)).1.contains contained

theorem holdsCorner_findIndex (overTree : amr.Over sorting tree)
    (contained : amr.worldBounds.Contains (cornerPoint corner lane c)) :
    amr.HoldsCorner corner (tree.findIndex (cornerPoint corner lane c)) lane c := by
  refine ⟨leafOf sorting (tree.find (cornerPoint corner lane c)), ?_, ?_⟩
  · rw [overTree.leaf, List.getElem?_map, tree.leaves_findIndex]
    rfl
  · exact mem_validIn.mpr ⟨_, rfl, tree.find_contains contained⟩

theorem lookupCorner_eq_none {point : Vec3} {leaf : Leaf data} (led : amr.leafAt steps point = some leaf) :
    amr.lookupCorner steps point width = none ↔ selectBrick width true leaf.brickList = none := by
  rw [AMR.lookupCorner, led]
  cases taken : selectBrick width true leaf.brickList <;> simp [taken]

variable [DecidableEq ι]

/-- The pass over a leaf fails where it has no brick wide enough for a corner that it holds, and else writes the
corners that it holds, with what is found for their points. -/
theorem processLeaf_writes (overTree : amr.Over sorting tree) (enough : amr.accel.node.length ≤ steps)
    (present : ofs < amr.accel.leaf.length) :
    Writes (fun dual => amr.processLeaf cellID corner lanes width ofs dual)
      (∃ lane ∈ lanes, (cellID lane).width = width ∧ ∃ c, amr.HoldsCorner corner ofs lane c ∧
        amr.lookupCorner steps (cornerPoint corner lane c) (cellID lane).width = none)
      (fun lane c => lane ∈ lanes ∧ (cellID lane).width = width ∧ amr.HoldsCorner corner ofs lane c)
      fun lane c => amr.lookupCorner steps (cornerPoint corner lane c) (cellID lane).width := by
  intro dual
  obtain ⟨leaf, found⟩ : ∃ leaf, amr.accel.leaf[ofs]? = some leaf := ⟨_, List.getElem?_eq_getElem present⟩
  have holds : ∀ lane c, amr.HoldsCorner corner ofs lane c ↔ c ∈ (AMR.validIn corner leaf lane).selections := by
    intro lane c
    rw [AMR.HoldsCorner, found]
    simp only [Option.some.injEq, exists_eq_left']
  have single : ∀ lane c, c ∈ (AMR.validIn corner leaf lane).selections →
      amr.leafAt steps (cornerPoint corner lane c) = some leaf := by
    intro lane c held
    rw [(((holds lane c).mpr held).spec overTree enough).1, found]
  simp only [holds]
  constructor
  · rintro ⟨lane, member, own, c, held, nothing⟩
    have active : (lanes.filter fun lane => (cellID lane).width = width ∧
        (AMR.validIn corner leaf lane).live = true).Nonempty :=
      ⟨lane, Finset.mem_filter.mpr ⟨member, own, Flags.selections_nonempty.mp ⟨c, held⟩⟩⟩
    rw [lookupCorner_eq_none (single lane c held), own] at nothing
    simp only [AMR.processLeaf, found, Option.bind_eq_bind, Option.bind_some, active, if_true, nothing,
      Option.bind_none]
  · intro served
    by_cases active : (lanes.filter fun lane => (cellID lane).width = width ∧
        (AMR.validIn corner leaf lane).live = true).Nonempty
    · have ⟨first, member⟩ := active
      obtain ⟨member, own, live⟩ := Finset.mem_filter.mp member
      obtain ⟨c, held⟩ := Flags.selections_nonempty.mpr live
      have present : selectBrick width true leaf.brickList ≠ none := fun nothing =>
        served ⟨first, member, own, c, held, (lookupCorner_eq_none (single first c held)).mpr (own ▸ nothing)⟩
      obtain ⟨⟨brick, isLeaf⟩, taken⟩ := Option.ne_none_iff_exists'.mp present
      have performed : amr.processLeaf cellID corner lanes width ofs dual = some fun lane c =>
          if (lane ∈ lanes ∧ (cellID lane).width = width ∧ (AMR.validIn corner leaf lane).live = true) ∧
              c ∈ (AMR.validIn corner leaf lane).selections then
            some ⟨amr.value brick (AMR.cornerIndex corner (data.get brick) lane c),
              (data.get brick).cellWidth, isLeaf⟩
          else dual lane c := by
        simp only [AMR.processLeaf, found, Option.bind_eq_bind, Option.bind_some, active, if_true, taken]
      refine ⟨_, performed, fun lane c => ⟨?_, fun apart => ?_⟩⟩
      · rintro ⟨member, own, held⟩
        have live := Flags.selections_nonempty.mp ⟨c, held⟩
        rw [if_pos ⟨⟨member, own, live⟩, held⟩]
        simp only [AMR.lookupCorner, single lane c held, own, Option.bind_eq_bind, Option.bind_some, taken,
          cornerIndex_eq]
      · exact if_neg fun ⟨⟨member, own, _⟩, held⟩ => apart ⟨member, own, held⟩
    · refine ⟨dual, ?_, fun lane c => ⟨?_, fun _ => rfl⟩⟩
      · simp only [AMR.processLeaf, found, Option.bind_eq_bind, Option.bind_some, active, if_false]
      · rintro ⟨member, own, held⟩
        have live := Flags.selections_nonempty.mp ⟨c, held⟩
        exact absurd ⟨lane, Finset.mem_filter.mpr ⟨member, own, live⟩⟩ active

end Passes

end Ospray.Amr
