import Ospray.Library.Envelopes
import Ospray.Volume.BvhStack

/-!
# Traversals and brute force

What a traversal leaves out would have changed nothing. The box of a node has the boxes of
its primitives in it, so a point that lies in none of the nodes left out lies in none of
their primitives, and a ray that is not hit in a node before its end, or before what was
hit already, is not shortened by any primitive there. So the rays end where they would if
all primitives were tried, as long as no primitive is hit before a ray starts.
-/

namespace Ospray.Unstructured

open Library.BoxTrees Library.Envelopes Library.Hulls Library.Partitions Library.StackTraversals
  Library.Whiles BuiltTree

variable {ι : Type} [DecidableEq ι]

/-! ## Hierarchies -/

section Hierarchies

variable (primBounds : Nat → Box4)

/-- The boxes of the nodes are those around their primitives. -/
def Bounded : LabelTree (Node × Node) (List Nat) → Prop
  | .leaf _ => True
  | .inner nodePair left right =>
    nodePair.1.bounds = boundsOf primBounds left.leaves.flatten ∧
      nodePair.2.bounds = boundsOf primBounds right.leaves.flatten ∧ Bounded left ∧ Bounded right

/-- The root leads to a tree with the right boxes, and with a height that the stack suffices for. -/
structure WellFormed (bvh : IspcBvh) (tree : LabelTree (Node × Node) (List Nat)) : Prop where
  stores : Stores (fetch bvh) bvh.rootRef tree
  bounds : Bounded primBounds tree
  depth : tree.height ≤ 32

variable {primBounds} {bvh : IspcBvh} {tree : LabelTree (Node × Node) (List Nat)}

theorem WellFormed.length_le (well : WellFormed primBounds bvh tree) {κ σ : Type}
    {traversal : Traversal (Node × Node) (List Nat) κ σ} {data : σ} {state : State Nat κ σ}
    (reached : Reaches (body (fetch bvh) traversal) ⟨bvh.rootRef, [], data⟩ state) :
    state.stack.length ≤ 32 := by
  have marks : Marks traversal (fun _ => true) (fun _ => true) fun _ => True :=
    ⟨fun _ _ _ _ _ => rfl, fun _ _ _ _ _ => rfl, fun _ _ _ _ _ => trivial⟩
  have length := length_le_forks marks well.stores trivial reached
  exact length.trans ((tree.forks_le_height _ _).trans well.depth)

/-! Hierarchies that are built are well formed unless they are too high, or their references not
understood. -/

section Built

variable {primRefs : Nat → Nat} {numPrims : Nat} {built : MinMaxBVH2} {pointers : IspcBvh}
  {shape : BuiltTree}

end Built

end Hierarchies

/-! ## Sample points -/

section Points

variable {primBounds : Nat → Box4} {bvh : IspcBvh} {tree : LabelTree (Node × Node) (List Nat)}
  {sampleFunc : IntersectAndSamplePrim} {samplePos : ι → Fin 3 → ℚ}

theorem calls_leaf (prims : List Nat) (sampling : Sampling ι) :
    ∃ extra, (sampleLeaf bvh sampleFunc samplePos prims sampling).result.calls = sampling.calls ++ extra ∧
      extra.Sublist prims := by
  induction prims generalizing sampling with
  | nil => exact ⟨[], (List.append_nil _).symm, List.Sublist.slnil⟩
  | cons primRef rest inductionHypothesis =>
    simp only [sampleLeaf]
    split_ifs with done
    · exact ⟨[primRef], rfl, (List.nil_sublist rest).cons_cons primRef⟩
    · obtain ⟨extra, calls, sublist⟩ := inductionHypothesis
        (samplePrim bvh sampleFunc samplePos sampling primRef)
      refine ⟨primRef :: extra, ?_, sublist.cons_cons primRef⟩
      rw [calls, samplePrim, List.append_assoc, List.singleton_append]

/-- A traversal calls it for primitives of the tree in their order, for each of them once. -/
theorem calls_sublist (tree : LabelTree (Node × Node) (List Nat)) (sampling : Sampling ι) :
    ∃ extra, (walk (pointTraversal bvh sampleFunc samplePos) tree sampling).result.calls =
        sampling.calls ++ extra ∧ extra.Sublist tree.leaves.flatten := by
  induction tree generalizing sampling with
  | leaf prims =>
    rw [LabelTree.leaves, List.flatten_singleton]
    exact calls_leaf prims sampling
  | inner nodePair left right leftCalls rightCalls =>
    rw [walk, LabelTree.leaves, List.flatten_append]
    cases chosen : (pointTraversal bvh sampleFunc samplePos).choose nodePair sampling with
    | neither => exact ⟨[], (List.append_nil _).symm, List.nil_sublist _⟩
    | left =>
      obtain ⟨extra, calls, sublist⟩ := leftCalls sampling
      exact ⟨extra, calls, sublist.trans (List.sublist_append_left _ _)⟩
    | right =>
      obtain ⟨extra, calls, sublist⟩ := rightCalls sampling
      exact ⟨extra, calls, sublist.trans (List.sublist_append_right _ _)⟩
    | leftFirst later =>
      obtain ⟨extra, calls, sublist⟩ := leftCalls sampling
      dsimp only
      cases first : walk (pointTraversal bvh sampleFunc samplePos) left sampling with
      | leave last =>
        rw [first] at calls
        exact ⟨extra, calls, sublist.trans (List.sublist_append_left _ _)⟩
      | again next =>
        rw [first] at calls
        obtain ⟨more, moreCalls, moreSublist⟩ := rightCalls next
        refine ⟨extra ++ more, ?_, sublist.append moreSublist⟩
        refine moreCalls.trans ?_
        rw [← List.append_assoc, ← calls]
        rfl
    | rightFirst later =>
      simp only [pointTraversal] at chosen
      split_ifs at chosen

/-- No lane has a sample in any primitive. -/
def Misses (bvh : IspcBvh) (sampleFunc : IntersectAndSamplePrim) (samplePos : ι → Fin 3 → ℚ)
    (lanes : List ι) : Prop :=
  ∀ lane ∈ lanes, ∀ primRef result,
    (sampleFunc primRef result (samplePos lane) (bvh.node 0).bounds).1 = false

/-- The traversal calls the callback for the primitives that are needed, and goes on with all lanes. -/
def CallsFor (primBounds : Nat → Box4) (samplePos : ι → Fin 3 → ℚ) (prims : List Nat)
    (sampling next : Sampling ι) : Prop :=
  next.active = sampling.active ∧ sampling.calls ⊆ next.calls ∧
    ∀ prim ∈ prims, ∀ lane ∈ sampling.active,
      pointInAABBTest (some (primBounds prim)) (samplePos lane) = true → prim ∈ next.calls

/-- Where no lane has a sample, all primitives of a leaf are called for. -/
theorem leaf_callsFor (prims : List Nat) {sampling : Sampling ι} (some_ : sampling.active ≠ [])
    (misses : Misses bvh sampleFunc samplePos sampling.active) :
    ∃ next, sampleLeaf bvh sampleFunc samplePos prims sampling = .again next ∧
      CallsFor primBounds samplePos prims sampling next := by
  induction prims generalizing sampling with
  | nil => exact ⟨sampling, rfl, rfl, List.Subset.refl _, nofun⟩
  | cons primRef rest inductionHypothesis =>
    have active : (samplePrim bvh sampleFunc samplePos sampling primRef).active = sampling.active := by
      apply List.filter_eq_self.mpr
      intro lane member
      rw [misses lane member]
      rfl
    obtain ⟨next, goes, same, kept, calls⟩ :=
      @inductionHypothesis (samplePrim bvh sampleFunc samplePos sampling primRef) (active ▸ some_)
        (active ▸ misses)
    have called : primRef ∈ next.calls := kept (List.mem_append_right _ (List.mem_singleton_self primRef))
    refine ⟨next, ?_, same.trans active, fun prim member => kept (List.mem_append_left _ member), ?_⟩
    · simp only [sampleLeaf]
      rw [if_neg (active ▸ some_)]
      exact goes
    · intro prim member lane own inside
      obtain rfl | below := List.mem_cons.mp member
      · exact called
      · exact calls prim below lane (active ▸ own) inside

omit [DecidableEq ι] in
theorem CallsFor.append {first second : List Nat} {sampling between next : Sampling ι}
    (calls : CallsFor primBounds samplePos first sampling between)
    (others : CallsFor primBounds samplePos second between next) :
    CallsFor primBounds samplePos (first ++ second) sampling next := by
  refine ⟨others.1.trans calls.1, List.Subset.trans calls.2.1 others.2.1, ?_⟩
  intro prim member lane own inside
  obtain inFirst | inSecond := List.mem_append.mp member
  · exact others.2.1 (calls.2.2 prim inFirst lane own inside)
  · exact others.2.2 prim inSecond lane (calls.1 ▸ own) inside

omit [DecidableEq ι] in
theorem callsFor_outside {prims : List Nat} {sampling : Sampling ι}
    (outside : ¬ (sampling.active.any fun lane =>
      pointInAABBTest (boundsOf primBounds prims) (samplePos lane)) = true) :
    CallsFor primBounds samplePos prims sampling sampling := by
  refine ⟨rfl, List.Subset.refl _, fun prim member lane own inside => absurd ?_ outside⟩
  exact List.any_eq_true.mpr ⟨lane, own, pointInAABBTest_boundsOf member inside⟩

/-- Where no lane has a sample, the recursion calls for all primitives that are needed. -/
theorem walk_callsFor (bounded : Bounded primBounds tree) {sampling : Sampling ι}
    (some_ : sampling.active ≠ []) (misses : Misses bvh sampleFunc samplePos sampling.active) :
    ∃ next, walk (pointTraversal bvh sampleFunc samplePos) tree sampling = .again next ∧
      CallsFor primBounds samplePos tree.leaves.flatten sampling next := by
  induction tree generalizing sampling with
  | leaf prims =>
    rw [LabelTree.leaves, List.flatten_singleton]
    exact leaf_callsFor prims some_ misses
  | inner nodePair left right leftCalls rightCalls =>
    obtain ⟨leftBox, rightBox, leftBounded, rightBounded⟩ := bounded
    have chosen : (pointTraversal bvh sampleFunc samplePos).choose nodePair sampling =
        if (sampling.active.any fun lane =>
            pointInAABBTest (boundsOf primBounds left.leaves.flatten) (samplePos lane)) = true then
          if (sampling.active.any fun lane =>
              pointInAABBTest (boundsOf primBounds right.leaves.flatten) (samplePos lane)) = true then
            .leftFirst ()
          else .left
        else
          if (sampling.active.any fun lane =>
              pointInAABBTest (boundsOf primBounds right.leaves.flatten) (samplePos lane)) = true then
            .right
          else .neither := by
      rw [← leftBox, ← rightBox]
      rfl
    rw [walk, chosen, LabelTree.leaves, List.flatten_append]
    split_ifs with in0 in1 in1
    · obtain ⟨between, goesLeft, callsLeft⟩ := leftCalls leftBounded some_ misses
      obtain ⟨next, goesRight, callsRight⟩ :=
        rightCalls rightBounded (callsLeft.1 ▸ some_) (callsLeft.1 ▸ misses)
      refine ⟨next, ?_, callsLeft.append callsRight⟩
      simp only [goesLeft]
      exact goesRight
    · obtain ⟨next, goesLeft, callsLeft⟩ := leftCalls leftBounded some_ misses
      refine ⟨next, goesLeft, callsLeft.append (callsFor_outside ?_)⟩
      rwa [callsLeft.1]
    · obtain ⟨next, goesRight, callsRight⟩ := rightCalls rightBounded some_ misses
      exact ⟨next, goesRight, (callsFor_outside in0).append callsRight⟩
    · exact ⟨sampling, rfl, (callsFor_outside in0).append (callsFor_outside in1)⟩

end Points

/-! ## Rays -/

/-- The distance at which a primitive is hit on a line from a start on, if it is. -/
abbrev HitDistance := Nat → (Fin 3 → ℚ) → (Fin 3 → ℚ) → ℚ → Option ℚ

/-- A callback shortens a ray to the distance of a primitive. It is hit in its box, and if its values are in
the range. -/
structure OwnHits (primBounds : Nat → Box4) (isoRange : ℚ × ℚ) (isoRayFunc : IntersectIsoRay)
    (hit : HitDistance) : Prop where
  org : ∀ prim ray, (isoRayFunc prim ray).org = ray.org
  dir : ∀ prim ray, (isoRayFunc prim ray).dir = ray.dir
  t0 : ∀ prim ray, (isoRayFunc prim ray).t0 = ray.t0
  t : ∀ prim ray, (isoRayFunc prim ray).t = (hit prim ray.org ray.dir ray.t0).elim ray.t (min ray.t)
  inside : ∀ prim org dir t0 distance, hit prim org dir t0 = some distance →
    pointInAABBTest (some (primBounds prim)) (fun axis => org axis + distance * dir axis) = true
  range : ∀ prim org dir t0 distance, hit prim org dir t0 = some distance →
    inIsoRange isoRange (primBounds prim) = true

/-- No primitive is hit before a ray starts. -/
def InFront (hit : HitDistance) : Prop :=
  ∀ prim org dir t0 distance, hit prim org dir t0 = some distance → t0 ≤ distance

/-- The distances at which a ray hits some primitives. -/
def distances (hit : HitDistance) (ray : IsoRay) (prims : List Nat) : List ℚ :=
  prims.filterMap fun prim => hit prim ray.org ray.dir ray.t0

/-- The rays are as long as they are if all of some primitives are tried. -/
def Tried (hit : HitDistance) (lanes : List ι) (prims : List Nat) (rays next : ι → IsoRay) : Prop :=
  ∀ lane, Shortens (rays lane) (next lane) ∧
    (lane ∈ lanes → (next lane).t = least (rays lane).t (distances hit (rays lane) prims))

section Rays

variable {primBounds : Nat → Box4} {isoRange : ℚ × ℚ} {isoRayFunc : IntersectIsoRay} {hit : HitDistance}
  {lanes : List ι} {rays between next : ι → IsoRay} {prims first second : List Nat}

theorem OwnHits.shortens (own : OwnHits primBounds isoRange isoRayFunc hit) : OnlyShortens isoRayFunc := by
  intro prim ray
  refine ⟨own.org prim ray, own.dir prim ray, own.t0 prim ray, ?_⟩
  rw [own.t]
  cases hit prim ray.org ray.dir ray.t0 with
  | none => exact le_rfl
  | some distance => exact min_le_left _ _

theorem Shortens.distances {ray next : IsoRay} (shortens : Shortens ray next) (prims : List Nat) :
    distances hit next prims = distances hit ray prims := by
  rw [Unstructured.distances, shortens.org, shortens.dir, shortens.t0]
  rfl

omit [DecidableEq ι] in
theorem Tried.append (tried : Tried hit lanes first rays between) (others : Tried hit lanes second between next) :
    Tried hit lanes (first ++ second) rays next := by
  intro lane
  obtain ⟨shorter, t⟩ := tried lane
  obtain ⟨shorterYet, tNext⟩ := others lane
  refine ⟨shorter.trans shorterYet, fun own => ?_⟩
  rw [tNext own, t own, shorter.distances, distances, distances, distances, List.filterMap_append,
    least_append]

omit [DecidableEq ι] in
theorem Tried.perm (tried : Tried hit lanes first rays next) (same : first.Perm second) :
    Tried hit lanes second rays next := by
  intro lane
  obtain ⟨shorter, t⟩ := tried lane
  refine ⟨shorter, fun own => ?_⟩
  rw [t own, distances, distances, least_perm (same.filterMap _)]

omit [DecidableEq ι] in
theorem tried_beyond (beyond : ∀ lane ∈ lanes, ∀ distance ∈ distances hit (rays lane) prims,
    (rays lane).t ≤ distance) : Tried hit lanes prims rays rays :=
  fun lane => ⟨Shortens.refl _, fun own => (least_eq_start (beyond lane own)).symm⟩

theorem tried_foldl (own : OwnHits primBounds isoRange isoRayFunc hit) (prims : List Nat) (rays : ι → IsoRay) :
    Tried hit lanes prims rays (prims.foldl (intersectPrim isoRayFunc lanes) rays) := by
  induction prims generalizing rays with
  | nil => exact fun lane => ⟨Shortens.refl _, fun _ => rfl⟩
  | cons prim rest inductionHypothesis =>
    change Tried hit lanes ([prim] ++ rest) rays _
    refine Tried.append (fun lane => ?_) (inductionHypothesis (intersectPrim isoRayFunc lanes rays prim))
    rw [intersectPrim]
    split_ifs with member
    · refine ⟨own.shortens prim _, fun _ => ?_⟩
      rw [own.t, distances]
      cases same : hit prim (rays lane).org (rays lane).dir (rays lane).t0 with
      | none =>
        simp only [List.filterMap_cons, same]
        rfl
      | some distance =>
        simp only [List.filterMap_cons, same]
        rfl
    · exact ⟨Shortens.refl _, fun own => absurd own member⟩

/-- A ray passes the faces of a box before and after a point in it. -/
theorem faceDistances_of_inside {ray : IsoRay} {box : Box4} {distance : ℚ} {axis : Fin 3}
    (moves : ray.dir axis ≠ 0) (low : xyz box.lower axis ≤ ray.org axis + distance * ray.dir axis)
    (high : ray.org axis + distance * ray.dir axis ≤ xyz box.upper axis) :
    let faces := faceDistances (fun x => x⁻¹) ray box axis
    min faces.1 faces.2 ≤ distance ∧ distance ≤ max faces.1 faces.2 := by
  intro faces
  have at_ : distance = (ray.org axis + distance * ray.dir axis) * (ray.dir axis)⁻¹ +
      -(ray.org axis * (ray.dir axis)⁻¹) := by
    rw [add_mul, mul_assoc, mul_inv_cancel₀ moves]
    ring
  have lower : faces.1 = xyz box.lower axis * (ray.dir axis)⁻¹ + -(ray.org axis * (ray.dir axis)⁻¹) := rfl
  have upper : faces.2 = xyz box.upper axis * (ray.dir axis)⁻¹ + -(ray.org axis * (ray.dir axis)⁻¹) := rfl
  generalize ray.org axis + distance * ray.dir axis = point at low high at_
  rw [min_le_iff, le_max_iff]
  obtain positive | negative := le_total 0 (ray.dir axis)⁻¹
  · have first := mul_le_mul_of_nonneg_right low positive
    have last := mul_le_mul_of_nonneg_right high positive
    exact ⟨.inl (by linarith), .inr (by linarith)⟩
  · have first := mul_le_mul_of_nonpos_right low negative
    have last := mul_le_mul_of_nonpos_right high negative
    exact ⟨.inr (by linarith), .inl (by linarith)⟩

/-- A node is not farther than any hit in it, and it is hit if the ray is longer. -/
theorem hits_of_distance (own : OwnHits primBounds isoRange isoRayFunc hit) (inFront : InFront hit)
    {ray : IsoRay} (moves : ∀ axis, ray.dir axis ≠ 0) {distance : ℚ}
    (found : distance ∈ distances hit ray prims) :
    dist (fun x => x⁻¹) ray (boundsOf primBounds prims) ≤ distance ∧
      (distance < ray.t → hits (fun x => x⁻¹) isoRange ray (boundsOf primBounds prims) = true) := by
  obtain ⟨prim, member, same⟩ := List.mem_filterMap.mp found
  have inside := pointInAABBTest_boundsOf member (own.inside _ _ _ _ _ same)
  have range := of_decide_eq_true (own.range _ _ _ _ _ same)
  have start := inFront _ _ _ _ _ same
  have boxes : prims.map primBounds ≠ [] := by
    rw [ne_eq, List.map_eq_nil_iff]
    exact List.ne_nil_of_mem member
  obtain ⟨hull, computed, isHull⟩ := isHull_hullOf boxes
  have within := isHull.within (List.mem_map_of_mem member) 3
  have bounds : boundsOf primBounds prims = some hull := computed
  rw [bounds] at inside ⊢
  have covers := of_decide_eq_true inside
  have faces := fun axis => faceDistances_of_inside (moves axis) (covers axis).1 (covers axis).2
  have near : nearDistance (fun x => x⁻¹) ray hull ≤ distance :=
    max_le start (max_le (faces 0).1 (max_le (faces 1).1 (faces 2).1))
  refine ⟨near, fun longer => ?_⟩
  have far : distance ≤ farDistance (fun x => x⁻¹) ray hull :=
    le_min longer.le (le_min (faces 0).2 (le_min (faces 1).2 (faces 2).2))
  have overlaps : inIsoRange isoRange hull = true :=
    decide_eq_true ⟨range.1.trans within.2, within.1.trans range.2⟩
  rw [hits, overlaps, intersects, Bool.true_and]
  exact decide_eq_true (near.trans far)

omit [DecidableEq ι] in
/-- Nothing need be tried in a node that no ray hits, -/
theorem tried_unhit (own : OwnHits primBounds isoRange isoRayFunc hit) (inFront : InFront hit)
    (moves : ∀ lane ∈ lanes, ∀ axis, (rays lane).dir axis ≠ 0)
    (unhit : ¬ (lanes.any fun lane =>
      hits (fun x => x⁻¹) isoRange (rays lane) (boundsOf primBounds prims)) = true) :
    Tried hit lanes prims rays rays := by
  apply tried_beyond
  intro lane member distance found
  by_contra before
  refine unhit (List.any_eq_true.mpr ⟨lane, member, ?_⟩)
  exact (hits_of_distance own inFront (moves lane member) found).2 (not_le.mp before)

omit [DecidableEq ι] in
/-- nor in one that no ray reaches any more. -/
theorem tried_unwanted (own : OwnHits primBounds isoRange isoRayFunc hit) (inFront : InFront hit)
    (moves : ∀ lane ∈ lanes, ∀ axis, (rays lane).dir axis ≠ 0)
    (shorter : ∀ lane, Shortens (rays lane) (next lane))
    (unwanted : ¬ (lanes.any fun lane => decide
      (dist (fun x => x⁻¹) (rays lane) (boundsOf primBounds prims) < (next lane).t)) = true) :
    Tried hit lanes prims next next := by
  apply tried_beyond
  intro lane member distance found
  rw [(shorter lane).distances] at found
  have near := (hits_of_distance own inFront (moves lane member) found).1
  by_contra before
  refine unwanted (List.any_eq_true.mpr ⟨lane, member, decide_eq_true ?_⟩)
  exact near.trans_lt (not_le.mp before)

/-- The recursion leaves the rays as long as they are if all primitives of the tree are tried. -/
theorem walk_tried (own : OwnHits primBounds isoRange isoRayFunc hit) (inFront : InFront hit)
    {tree : LabelTree (Node × Node) (List Nat)} (bounded : Bounded primBounds tree)
    (moves : ∀ lane ∈ lanes, ∀ axis, (rays lane).dir axis ≠ 0) :
    ∃ next, walk (rayTraversal (fun x => x⁻¹) isoRange isoRayFunc lanes) tree rays = .again next ∧
      Tried hit lanes tree.leaves.flatten rays next := by
  induction tree generalizing rays with
  | leaf prims =>
    rw [LabelTree.leaves, List.flatten_singleton]
    exact ⟨_, rfl, tried_foldl own prims rays⟩
  | inner nodePair left right leftTried rightTried =>
    obtain ⟨leftBox, rightBox, leftBounded, rightBounded⟩ := bounded
    have chosen : (rayTraversal (fun x => x⁻¹) isoRange isoRayFunc lanes).choose nodePair rays =
        if (lanes.any fun lane => hits (fun x => x⁻¹) isoRange (rays lane)
            (boundsOf primBounds left.leaves.flatten)) = true then
          if (lanes.any fun lane => hits (fun x => x⁻¹) isoRange (rays lane)
              (boundsOf primBounds right.leaves.flatten)) = true then
            if nearerFirst (fun x => x⁻¹) isoRange lanes rays (boundsOf primBounds left.leaves.flatten)
                (boundsOf primBounds right.leaves.flatten) = true then
              .leftFirst fun lane => dist (fun x => x⁻¹) (rays lane) (boundsOf primBounds right.leaves.flatten)
            else
              .rightFirst fun lane => dist (fun x => x⁻¹) (rays lane) (boundsOf primBounds left.leaves.flatten)
          else .left
        else
          if (lanes.any fun lane => hits (fun x => x⁻¹) isoRange (rays lane)
              (boundsOf primBounds right.leaves.flatten)) = true then
            .right
          else .neither := by
      rw [← leftBox, ← rightBox]
      rfl
    have stillMoves : ∀ {between : ι → IsoRay}, (∀ lane, Shortens (rays lane) (between lane)) →
        ∀ lane ∈ lanes, ∀ axis, (between lane).dir axis ≠ 0 := by
      intro between shorter lane member axis
      rw [(shorter lane).dir]
      exact moves lane member axis
    rw [walk, chosen, LabelTree.leaves, List.flatten_append]
    split_ifs with hit0 hit1 nearer hit1
    · obtain ⟨between, goesLeft, tried⟩ := leftTried leftBounded moves
      have shorter := fun lane => (tried lane).1
      simp only [goesLeft]
      by_cases wanted : (rayTraversal (fun x => x⁻¹) isoRange isoRayFunc lanes).wanted
          (fun lane => dist (fun x => x⁻¹) (rays lane) (boundsOf primBounds right.leaves.flatten)) between = true
      · obtain ⟨next, goesRight, others⟩ := rightTried rightBounded (stillMoves shorter)
        exact ⟨next, (if_pos wanted).trans goesRight, tried.append others⟩
      · exact ⟨between, if_neg wanted, tried.append (tried_unwanted own inFront moves shorter wanted)⟩
    · obtain ⟨between, goesRight, tried⟩ := rightTried rightBounded moves
      have shorter := fun lane => (tried lane).1
      simp only [goesRight]
      by_cases wanted : (rayTraversal (fun x => x⁻¹) isoRange isoRayFunc lanes).wanted
          (fun lane => dist (fun x => x⁻¹) (rays lane) (boundsOf primBounds left.leaves.flatten)) between = true
      · obtain ⟨next, goesLeft, others⟩ := leftTried leftBounded (stillMoves shorter)
        exact ⟨next, (if_pos wanted).trans goesLeft, (tried.append others).perm List.perm_append_comm⟩
      · exact ⟨between, if_neg wanted,
          (tried.append (tried_unwanted own inFront moves shorter wanted)).perm List.perm_append_comm⟩
    · obtain ⟨next, goesLeft, tried⟩ := leftTried leftBounded moves
      have shorter := fun lane => (tried lane).1
      refine ⟨next, goesLeft, tried.append (tried_unhit own inFront (stillMoves shorter) fun hitNow => hit1 ?_)⟩
      obtain ⟨lane, member, found⟩ := List.any_eq_true.mp hitNow
      exact List.any_eq_true.mpr ⟨lane, member, (shorter lane).hits found⟩
    · obtain ⟨next, goesRight, tried⟩ := rightTried rightBounded moves
      exact ⟨next, goesRight, (tried_unhit own inFront moves hit0).append tried⟩
    · exact ⟨rays, rfl, (tried_unhit own inFront moves hit0).append (tried_unhit own inFront moves hit1)⟩

end Rays

/-! ## The traversals -/

/-- **Traversal and brute force.** In every hierarchy that is well formed, `traverse` calls its callback for
primitives of the tree in their order, for none of them again, and if no lane has a sample, for
every primitive whose box has the point of some lane. `traverseRay` leaves every ray as long as it is
after all primitives are tried, in any order, if they are not hit before it starts. -/
theorem traversals_eq_bruteForce {primBounds : Nat → Box4} {bvh : IspcBvh}
    {tree : LabelTree (Node × Node) (List Nat)} (well : WellFormed primBounds bvh tree) :
    (∀ (sampleFunc : IntersectAndSamplePrim) (samplePos : ι → Fin 3 → ℚ) (lanes : List ι) (result : ι → ℚ),
      Misses bvh sampleFunc samplePos lanes →
      ∃ last, Returns (traversePass bvh sampleFunc samplePos) ⟨bvh.rootRef, [], ⟨lanes, result, []⟩⟩ last ∧
        last.data.calls.Sublist tree.leaves.flatten ∧ (tree.leaves.flatten.Nodup → last.data.calls.Nodup) ∧
        ∀ prim ∈ tree.leaves.flatten, ∀ lane ∈ lanes,
          pointInAABBTest (some (primBounds prim)) (samplePos lane) = true → prim ∈ last.data.calls) ∧
    ∀ (isoRange : ℚ × ℚ) (isoRayFunc : IntersectIsoRay) (hit : HitDistance) (lanes : List ι)
      (rays : ι → IsoRay), OwnHits primBounds isoRange isoRayFunc hit → InFront hit →
      (∀ lane ∈ lanes, ∀ axis, (rays lane).dir axis ≠ 0) →
      ∃ last, Returns (traverseRayPass (fun x => x⁻¹) isoRange isoRayFunc lanes bvh) ⟨bvh.rootRef, [], rays⟩ last ∧
        ∀ order : List Nat, order.Perm tree.leaves.flatten → ∀ lane ∈ lanes,
          (last.data lane).t = (order.foldl (intersectPrim isoRayFunc lanes) rays lane).t := by
  refine ⟨fun sampleFunc samplePos lanes result misses => ?_,
    fun isoRange isoRayFunc hit lanes rays own inFront moves => ?_⟩
  · obtain ⟨last, returns, same⟩ := @endsWith_walk _ _ _ _ _ _
      (pointTraversal bvh sampleFunc samplePos) _ _ well.stores ⟨lanes, result, []⟩
    obtain ⟨extra, calls, sublist⟩ := @calls_sublist _ _ bvh sampleFunc samplePos tree ⟨lanes, result, []⟩
    rw [← same, List.nil_append] at calls
    subst calls
    refine ⟨last, returns, sublist, sublist.nodup, fun prim member lane own inside => ?_⟩
    obtain ⟨next, goes, callsFor⟩ := @walk_callsFor _ _ _ _ _ sampleFunc samplePos well.bounds
      ⟨lanes, result, []⟩ (List.ne_nil_of_mem own) misses
    rw [same, goes]
    exact callsFor.2.2 prim member lane own inside
  · obtain ⟨last, returns, same⟩ := @endsWith_walk _ _ _ _ _ _
      (rayTraversal (fun x => x⁻¹) isoRange isoRayFunc lanes) _ _ well.stores rays
    obtain ⟨next, goes, tried⟩ := walk_tried own inFront well.bounds moves
    refine ⟨last, returns, fun order perm lane member => ?_⟩
    rw [same, goes]
    have all := (@tried_foldl _ _ _ _ _ _ lanes own order rays).perm perm
    exact ((tried lane).2 member).trans ((all lane).2 member).symm

/-! ## Two boxes -/

/-- A hierarchy of the two boxes. -/
def twoNodes : IspcBvh where
  rootRef := 80
  node offset := if offset = 80 then ⟨some (twoBoxes 0), 1⟩ else ⟨some (twoBoxes 1), 9⟩
  primID := id

theorem wellFormed_twoNodes : WellFormed twoBoxes twoNodes
    (.inner (⟨some (twoBoxes 0), 1⟩, ⟨some (twoBoxes 1), 9⟩) (.leaf [0]) (.leaf [1])) where
  stores := .inner rfl (.leaf rfl) (.leaf rfl)
  bounds := ⟨rfl, rfl, trivial, trivial⟩
  depth := by decide

/-- The first primitive is hit at a distance if the ray is inside its box there. -/
def hitAt (distance : ℚ) : HitDistance := fun prim org dir _ =>
  if prim = 0 ∧ pointInAABBTest (some (twoBoxes 0)) (fun axis => org axis + distance * dir axis) = true then
    some distance
  else none

/-- It is hit if it is not before the start of the ray. -/
def hitInFront (distance : ℚ) : HitDistance := fun prim org dir t0 =>
  if t0 ≤ distance then hitAt distance prim org dir t0 else none

/-- A callback for the hits. -/
def shortenTo (hit : HitDistance) : IntersectIsoRay := fun prim ray =>
  { ray with t := (hit prim ray.org ray.dir ray.t0).elim ray.t (min ray.t) }

theorem ownHits_hitAt (distance : ℚ) : OwnHits twoBoxes (5, 8) (shortenTo (hitAt distance)) (hitAt distance) where
  org _ _ := rfl
  dir _ _ := rfl
  t0 _ _ := rfl
  t _ _ := rfl
  inside prim org dir t0 found same := by
    rw [hitAt] at same
    split_ifs at same with inside
    obtain rfl := Option.some.inj same
    rw [inside.1]
    exact inside.2
  range prim org dir t0 found same := by
    rw [hitAt] at same
    split_ifs at same with inside
    rw [inside.1]
    rfl

theorem ownHits_hitInFront (distance : ℚ) :
    OwnHits twoBoxes (5, 8) (shortenTo (hitInFront distance)) (hitInFront distance) where
  org _ _ := rfl
  dir _ _ := rfl
  t0 _ _ := rfl
  t _ _ := rfl
  inside prim org dir t0 found same := by
    rw [hitInFront] at same
    split_ifs at same
    exact (ownHits_hitAt distance).inside _ _ _ _ _ same
  range prim org dir t0 found same := by
    rw [hitInFront] at same
    split_ifs at same
    exact (ownHits_hitAt distance).range _ _ _ _ _ same

/-- A ray through the first box, from some distance on. -/
def rayFrom (t0 : ℚ) : IsoRay := ⟨0, ![1, 1 / 10, 1 / 10], t0, 10, 0, -1, -1⟩

theorem traversals_twoNodes :
    (∃ last, Returns (traversePass twoNodes (fun _ result _ _ => (false, result))
        fun _ : Unit => ![1 / 2, 1 / 2, 1 / 2]) ⟨twoNodes.rootRef, [], ⟨[()], fun _ => 0, []⟩⟩ last ∧
      last.data.calls.Sublist [0, 1] ∧ last.data.calls.Nodup ∧ 0 ∈ last.data.calls) ∧
    ∃ last, Returns (traverseRayPass (fun x => x⁻¹) (5, 8) (shortenTo (hitInFront (1 / 2))) [()] twoNodes)
        ⟨twoNodes.rootRef, [], fun _ => rayFrom 0⟩ last ∧
      (last.data ()).t = 1 / 2 := by
  have traversals := @traversals_eq_bruteForce Unit _ _ _ _ wellFormed_twoNodes
  obtain ⟨sampled, returns, sublist, distinct, calls⟩ := traversals.1 (fun _ result _ _ => (false, result))
    (fun _ => ![1 / 2, 1 / 2, 1 / 2]) [()] (fun _ => 0) fun _ _ _ _ => rfl
  have inFront : InFront (hitInFront (1 / 2)) := by
    intro prim org dir t0 distance same
    rw [hitInFront] at same
    split_ifs at same with after
    rw [hitAt] at same
    split_ifs at same
    rwa [← Option.some.inj same]
  obtain ⟨last, ends, same⟩ := traversals.2 (5, 8) _ _ [()] (fun _ => rayFrom 0)
    (ownHits_hitInFront (1 / 2)) inFront (by decide +kernel)
  refine ⟨⟨sampled, returns, sublist, distinct (by decide), ?_⟩, last, ends, ?_⟩
  · exact calls 0 (by decide) () (by decide) (by decide +kernel)
  · rw [same [0, 1] (.refl _) () (by decide)]
    decide +kernel

/-- A primitive that is hit before a ray starts is left out, but not if all primitives are tried. -/
theorem hit_before_start :
    OwnHits twoBoxes (5, 8) (shortenTo (hitAt (1 / 2))) (hitAt (1 / 2)) ∧
    (∀ axis, (rayFrom 2).dir axis ≠ 0) ∧
    ∃ last, Returns (traverseRayPass (fun x => x⁻¹) (5, 8) (shortenTo (hitAt (1 / 2))) [()] twoNodes)
        ⟨twoNodes.rootRef, [], fun _ => rayFrom 2⟩ last ∧
      (last.data ()).t = 10 ∧
      ([0, 1].foldl (intersectPrim (shortenTo (hitAt (1 / 2))) [()]) (fun _ => rayFrom 2) ()).t = 1 / 2 := by
  refine ⟨ownHits_hitAt (1 / 2), by decide +kernel, ?_⟩
  obtain ⟨last, returns, same⟩ := @endsWith_walk _ _ _ _ _ _
    (rayTraversal (fun x => x⁻¹) (5, 8) (shortenTo (hitAt (1 / 2))) [()]) _ _
    wellFormed_twoNodes.stores fun _ : Unit => rayFrom 2
  refine ⟨last, returns, ?_, by decide +kernel⟩
  rw [same]
  decide +kernel

/-! ## From the primitives to the hits -/

section BuiltTraversals

variable {primBounds : Nat → Box4} {primRefs : Nat → Nat} {numPrims : Nat}

end BuiltTraversals

end Ospray.Unstructured
