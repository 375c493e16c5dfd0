import Ospray.Sg.Verification

/-!
# The traversal of a verification

A node is stale if its children would be left out although the flag of a node below it is
wrong. A verification of a node above no stale one stores the right flags for all nodes at or
below it, and leaves the others alone.
-/

namespace Ospray.Sg

open Library.Forests Relation

variable {V : Type}

namespace Verification

/-! ## What a verification leaves -/

section Left

variable [BEq V]

/-- The stored flag of a node is right. -/
def Current (state : Verification V) (checks : Nat → Checks V) (id : Nat) : Prop :=
  state.valid id = true ↔ state.scene.Valid checks id

/-- A verification would not traverse the children of the node. -/
def Skipped (state : Verification V) (id : Nat) : Prop :=
  state.valid id = true ∧ (state.scene.nodes id).childrenMTime < state.lastVerified id

/-- The children of the node would not be traversed, although the flag of a node below is
wrong. -/
def Stale (state : Verification V) (checks : Nat → Checks V) (id : Nat) : Prop :=
  state.Skipped id ∧ ∃ node, TransGen state.scene.Child id node ∧ ¬state.Current checks node

/-- A node is at or below one of the nodes. -/
def Under (state : Verification V) (starts : List Nat) (id : Nat) : Prop :=
  ∃ start ∈ starts, state.scene.Below start id

/-- The nodes below some nodes have been verified, and nothing else has changed. -/
structure Verified (checks : Nat → Checks V) (state : Verification V) (starts : List Nat)
    (next : Verification V) : Prop where
  nodes : next.scene.nodes = state.scene.nodes
  size : next.scene.size = state.scene.size
  global : state.scene.global ≤ next.scene.global
  stamps : (∀ id, id < state.scene.size → state.lastVerified id < state.scene.global) →
    ∀ id, id < state.scene.size → next.lastVerified id < next.scene.global
  kept : ∀ id, ¬state.Under starts id →
    next.valid id = state.valid id ∧ next.lastVerified id = state.lastVerified id
  right : (∀ id, state.Under starts id → ¬state.Stale checks id) →
    ∀ id, state.Under starts id → next.Current checks id

variable {checks : Nat → Checks V} {state middle next : Verification V} {id : Nat} {starts : List Nat}

theorem verified_child (left : Verified checks state starts next) :
    next.scene.Child = state.scene.Child := child_eq fun node => by rw [left.nodes]

theorem verified_current (left : Verified checks state starts next) (kept : next.valid id = state.valid id) :
    next.Current checks id ↔ state.Current checks id := by
  rw [Current, Current, valid_nodes left.nodes, kept]

theorem verified_under {more : List Nat} (left : Verified checks state starts next) :
    next.Under more id ↔ state.Under more id := by
  unfold Under Scene.Below
  rw [verified_child left]

theorem verified_nil : Verified checks state [] state where
  nodes := rfl
  size := rfl
  global := le_rfl
  stamps past := past
  kept _ _ := ⟨rfl, rfl⟩
  right _ _ := fun ⟨_, absent, _⟩ => absurd absent List.not_mem_nil

/-- What has been verified is not stale, and what was not stale elsewhere is not now. -/
theorem verified_fresh (left : Verified checks state starts next)
    (fresh : ∀ id, state.Under starts id → ¬state.Stale checks id) (before : ¬state.Stale checks id) :
    ¬next.Stale checks id := by
  rintro ⟨⟨valid, older⟩, node, path, wrong⟩
  have beneath : ∀ one, state.Under starts one → next.Current checks one := left.right fresh
  rw [verified_child left] at path
  by_cases under : state.Under starts id
  · obtain ⟨start, listed, below⟩ := under
    exact wrong (beneath node ⟨start, listed, below.trans path.to_reflTransGen⟩)
  · obtain ⟨sameFlag, sameStamp⟩ := left.kept id under
    rw [left.nodes, sameStamp] at older
    refine before ⟨⟨sameFlag ▸ valid, older⟩, node, path, fun right => ?_⟩
    by_cases inside : state.Under starts node
    · exact wrong (beneath node inside)
    · exact wrong ((verified_current left (left.kept node inside).1).mpr right)

/-- Two verifications in turn. -/
theorem verified_append {more : List Nat} (first : Verified checks state starts middle)
    (second : Verified checks middle more next) : Verified checks state (starts ++ more) next := by
  have split : ∀ id, state.Under (starts ++ more) id ↔ state.Under starts id ∨ middle.Under more id := by
    intro id
    rw [verified_under first]
    simp only [Under, List.mem_append, or_and_right, exists_or]
  refine ⟨second.nodes.trans first.nodes, second.size.trans first.size, first.global.trans second.global, ?_, ?_, ?_⟩
  · intro past id within
    exact second.stamps (fun one inside => first.stamps past one (first.size ▸ inside)) id (first.size ▸ within)
  · intro id apart
    obtain ⟨notFirst, notSecond⟩ := not_or.mp (mt (split id).mpr apart)
    obtain ⟨flagFirst, stampFirst⟩ := first.kept id notFirst
    obtain ⟨flagSecond, stampSecond⟩ := second.kept id notSecond
    exact ⟨flagSecond.trans flagFirst, stampSecond.trans stampFirst⟩
  · intro fresh id under
    have freshFirst : ∀ one, state.Under starts one → ¬state.Stale checks one :=
      fun one inside => fresh one ((split one).mpr (.inl inside))
    have freshSecond : ∀ one, middle.Under more one → ¬middle.Stale checks one :=
      fun one inside => verified_fresh first freshFirst (fresh one ((split one).mpr (.inr inside)))
    by_cases later : middle.Under more id
    · exact second.right freshSecond id later
    · have early := ((split id).mp under).resolve_right later
      exact (verified_current second (second.kept id later).1).mpr (first.right freshFirst id early)

end Left

/-! ## The traversal verifies -/

section Traversal

variable [BEq V] {checks : Nat → Checks V} {state middle next : Verification V} {id node root : Nat}

omit [BEq V] in
/-- The loop over the children combines the flags of the required ones with that of the
node. -/
theorem foldl_combine {children : List (String × Nat)} (apart : ∀ child ∈ children, child.2 ≠ id)
    (valid : Nat → Bool) :
    (∀ other, other ≠ id → children.foldl (combine checks id) valid other = valid other) ∧
      (children.foldl (combine checks id) valid id = true ↔ valid id = true ∧
        ∀ child ∈ children, (checks child.2).has NodeFlags.required → valid child.2 = true) := by
  induction children generalizing valid with
  | nil => simp
  | cons child rest inductionHypothesis =>
    obtain ⟨childApart, restApart⟩ := List.forall_mem_cons.mp apart
    rw [List.foldl_cons, List.forall_mem_cons]
    obtain ⟨others, own⟩ := inductionHypothesis restApart (combine checks id valid child)
    by_cases required : (checks child.2).has NodeFlags.required
    · have updated : combine checks id valid child = Function.update valid id (valid id && valid child.2) :=
        if_pos required
      rw [updated] at others own ⊢
      constructor
      · intro other different
        rw [others other different, Function.update_of_ne different]
      · rw [own, Function.update_self, Bool.and_eq_true, and_assoc]
        refine and_congr_right' (and_congr (by simp [required]) ?_)
        refine forall₂_congr fun one member => ?_
        rw [Function.update_of_ne (restApart one member)]
    · have same : combine checks id valid child = valid := if_neg required
      rw [same] at others own ⊢
      exact ⟨others, by simp [own, required]⟩

theorem visit_other (other : node ≠ id) :
    (state.visit checks id).2.valid node = state.valid node ∧
      (state.visit checks id).2.lastVerified node = state.lastVerified node :=
  ⟨Function.update_of_ne other _ _, Function.update_of_ne other _ _⟩

theorem visit_stamps (past : ∀ id, id < state.scene.size → state.lastVerified id < state.scene.global) :
    ∀ one, one < state.scene.size → (state.visit checks id).2.lastVerified one < state.scene.global + 1 := by
  intro one within
  by_cases same : one = id
  · have own : (state.visit checks id).2.lastVerified id = state.scene.global := Function.update_self _ _ _
    rw [same, own]
    exact Nat.lt_succ_self _
  · rw [(visit_other same).2]
    exact Nat.lt_succ_of_lt (past one within)

theorem visit_skips : (state.visit checks id).1 = false ↔ state.Skipped id := by
  change (!(_ && decide _)) = false ↔ _
  rw [Bool.not_eq_false', Bool.and_eq_true, decide_eq_true_eq]
  rfl

/-- What the traversal of a node does before it combines the flags: the children have been
verified, or else what is stored for them is right. -/
structure Prepared (checks : Nat → Checks V) (state : Verification V) (id : Nat) (middle : Verification V) : Prop where
  nodes : middle.scene.nodes = state.scene.nodes
  size : middle.scene.size = state.scene.size
  global : state.scene.global ≤ middle.scene.global
  stamps : (∀ id, id < state.scene.size → state.lastVerified id < state.scene.global) →
    ∀ id, id < state.scene.size → middle.lastVerified id < middle.scene.global
  kept : ∀ one, ¬state.scene.Below id one →
    middle.valid one = state.valid one ∧ middle.lastVerified one = state.lastVerified one
  own : middle.valid id = state.scene.computeValid checks id
  right : (∀ one, state.scene.Below id one → ¬state.Stale checks one) →
    ∀ one, TransGen state.scene.Child id one → middle.Current checks one

theorem prepared_child (prepared : Prepared checks state id middle) :
    middle.scene.Child = state.scene.Child := child_eq fun node => by rw [prepared.nodes]

/-- The last part of the traversal. -/
theorem verified_postChildren (acyclic : Acyclic state.scene.Child) (prepared : Prepared checks state id middle) :
    Verified checks state [id] (middle.postChildren checks id) := by
  have apart : ∀ child ∈ (middle.scene.nodes id).children, child.2 ≠ id := by
    intro child member same
    have edge : state.scene.Child id id := by
      rw [← prepared_child prepared]
      exact List.mem_map.mpr ⟨child, member, same⟩
    exact acyclic id (.single edge)
  obtain ⟨others, own⟩ := @foldl_combine V checks id _ apart middle.valid
  have under : ∀ one, state.Under [id] one ↔ state.scene.Below id one := by simp [Under]
  refine ⟨prepared.nodes, prepared.size, prepared.global, prepared.stamps, ?_, ?_⟩
  · intro one absent
    rw [under] at absent
    obtain ⟨sameFlag, sameStamp⟩ := prepared.kept one absent
    have other : one ≠ id := fun same => absent (same ▸ .refl)
    exact ⟨(others one other).trans sameFlag, sameStamp⟩
  · intro fresh one below
    rw [under] at below
    have beneath := prepared.right fun one inside => fresh one ((under one).mpr inside)
    obtain same | path := reflTransGen_iff_eq_or_transGen.mp below
    · have children : ∀ child ∈ (middle.scene.nodes id).children,
          (middle.valid child.2 = true ↔ middle.scene.Valid checks child.2) := by
        intro child member
        have edge : middle.scene.Child id child.2 := List.mem_map.mpr ⟨child, member, rfl⟩
        exact beneath child.2 (.single (prepared_child prepared ▸ edge))
      have ownBefore : middle.scene.computeValid checks id = state.scene.computeValid checks id :=
        computeValid_eq (by rw [prepared.nodes]) (by rw [prepared.nodes]) fun _ _ => by rw [prepared.nodes]
      rw [same, Current]
      refine own.trans (Iff.trans ?_ valid_iff.symm)
      rw [prepared.own]
      change _ ↔ middle.scene.computeValid checks id = true ∧ _
      rw [ownBefore]
      refine and_congr_right' ?_
      constructor
      · intro flags child edge required
        obtain ⟨entry, member, rfl⟩ := List.mem_map.mp edge
        exact (children entry member).mp (flags entry member required)
      · intro valid child member required
        exact (children child member).mpr (valid child.2 (List.mem_map.mpr ⟨child, member, rfl⟩) required)
    · have other : one ≠ id := by
        rintro rfl
        exact acyclic one path
      have flag : (middle.postChildren checks id).valid one = middle.valid one := others one other
      rw [Current, flag]
      exact beneath one path

/-- The loop over children, where each call does what the traversal should. -/
theorem verified_children {bound : Nat}
    (visits : ∀ (state : Verification V) (id : Nat), Acyclic state.scene.Child →
      Shallow state.scene.Child bound id →
        ∃ next, state.traverse checks bound id = some next ∧ Verified checks state [id] next)
    (acyclic : Acyclic state.scene.Child) {entries : List (String × Nat)}
    (shallow : ∀ entry ∈ entries, Shallow state.scene.Child bound entry.2)
    {starts : List Nat} (first : Verified checks state starts middle) :
    ∃ next, entries.foldlM (fun state (_, child) => traverse checks bound state child) middle = some next ∧
      Verified checks state (starts ++ entries.map Prod.snd) next := by
  induction entries generalizing middle starts with
  | nil =>
    refine ⟨middle, rfl, ?_⟩
    rw [List.map_nil, List.append_nil]
    exact first
  | cons entry rest inductionHypothesis =>
    obtain ⟨shallowEntry, shallowRest⟩ := List.forall_mem_cons.mp shallow
    have edges := verified_child first
    obtain ⟨after, ran, second⟩ := visits middle entry.2 (edges ▸ acyclic) (edges ▸ shallowEntry)
    obtain ⟨next, loop, left⟩ := inductionHypothesis shallowRest (verified_append first second)
    refine ⟨next, ?_, ?_⟩
    · rw [List.foldlM_cons]
      dsimp only
      rw [ran]
      exact loop
    · rw [List.map_cons, List.append_cons]
      exact left

theorem visit_stale (acyclic : Acyclic state.scene.Child) (path : TransGen state.scene.Child id node) :
    (state.visit checks id).2.Stale checks node ↔ state.Stale checks node := by
  have apart : ∀ one, TransGen state.scene.Child id one → one ≠ id := by
    rintro one path rfl
    exact acyclic one path
  have current : ∀ one, TransGen state.scene.Child id one →
      ((state.visit checks id).2.Current checks one ↔ state.Current checks one) := by
    intro one path
    have valid : (state.visit checks id).2.scene.Valid checks one ↔ state.scene.Valid checks one :=
      valid_nodes rfl
    rw [Current, Current, valid, (visit_other (apart one path)).1]
  obtain ⟨sameFlag, sameStamp⟩ := @visit_other V _ checks state id node (apart node path)
  rw [Stale, Stale, Skipped, Skipped, sameFlag, sameStamp]
  refine and_congr_right' (exists_congr fun one => and_congr_right fun further => ?_)
  rw [current one (path.trans further)]

/-- The first part of the traversal, if the children are traversed. -/
theorem prepared_children (acyclic : Acyclic state.scene.Child)
    (left : Verified checks (state.visit checks id).2 ((state.scene.nodes id).children.map Prod.snd) middle) :
    Prepared checks state id middle := by
  have under : ∀ one, (state.visit checks id).2.Under ((state.scene.nodes id).children.map Prod.snd) one ↔
      TransGen state.scene.Child id one := by
    intro one
    rw [TransGen.head'_iff]
    rfl
  refine ⟨left.nodes, left.size, (Nat.le_succ _).trans left.global, ?_, ?_, ?_, ?_⟩
  · exact fun past => left.stamps (visit_stamps past)
  · intro one apart
    have other : one ≠ id := fun same => apart (same ▸ .refl)
    obtain ⟨sameFlag, sameStamp⟩ := left.kept one fun below => apart ((under one).mp below).to_reflTransGen
    obtain ⟨flagBefore, stampBefore⟩ := @visit_other V _ checks state id one other
    exact ⟨sameFlag.trans flagBefore, sameStamp.trans stampBefore⟩
  · rw [(left.kept id fun below => acyclic id ((under id).mp below)).1]
    exact Function.update_self _ _ _
  · intro fresh one path
    refine left.right (fun other below => ?_) one ((under one).mpr path)
    have further := (under other).mp below
    rw [visit_stale acyclic further]
    exact fresh other further.to_reflTransGen

theorem prepared_skipped (acyclic : Acyclic state.scene.Child) (skipped : state.Skipped id) :
    Prepared checks state id (state.visit checks id).2 := by
  refine ⟨rfl, rfl, Nat.le_succ _, ?_, ?_, Function.update_self _ _ _, ?_⟩
  · exact visit_stamps
  · intro one apart
    exact visit_other fun same => apart (same ▸ .refl)
  · intro fresh one path
    have right : state.Current checks one := by
      by_contra wrong
      exact fresh id .refl ⟨skipped, one, path, wrong⟩
    have valid : (state.visit checks id).2.scene.Valid checks one ↔ state.scene.Valid checks one :=
      valid_nodes rfl
    have other : one ≠ id := by
      rintro rfl
      exact acyclic one path
    rw [Current, valid, (visit_other other).1]
    exact right

/-- The traversal of a node verifies what is below it, once the bound covers the depth. The
induction is on the bound. -/
theorem traverse_verifies (bound : Nat) (state : Verification V) (id : Nat) (acyclic : Acyclic state.scene.Child)
    (shallow : Shallow state.scene.Child bound id) :
    ∃ next, state.traverse checks bound id = some next ∧ Verified checks state [id] next := by
  induction bound generalizing state id with
  | zero => exact shallow.elim
  | succ bound inductionHypothesis =>
    obtain ⟨middle, ran, prepared⟩ : ∃ middle,
        (if (state.visit checks id).1 then
          ((state.visit checks id).2.scene.nodes id).children.foldlM
            (fun state (_, child) => traverse checks bound state child) (state.visit checks id).2
        else some (state.visit checks id).2) = some middle ∧ Prepared checks state id middle := by
      cases skips : (state.visit checks id).1 with
      | false => exact ⟨_, rfl, prepared_skipped acyclic (visit_skips.mp skips)⟩
      | true =>
        obtain ⟨middle, loop, left⟩ := @verified_children V _ checks (state.visit checks id).2 _ bound
          inductionHypothesis acyclic (state.scene.nodes id).children
          (fun entry member => shallow entry.2 (List.mem_map.mpr ⟨entry, member, rfl⟩)) [] verified_nil
        exact ⟨middle, loop, prepared_children acyclic left⟩
    refine ⟨middle.postChildren checks id, ?_, verified_postChildren acyclic prepared⟩
    rw [traverse]
    cases skips : (state.visit checks id).1 with
    | false =>
      rw [skips] at ran
      obtain rfl := Option.some.inj ran
      simp only [skips]
      rfl
    | true =>
      rw [skips, if_pos rfl] at ran
      simp only [skips, if_true]
      rw [ran]
      rfl

theorem verify_spec (forest : state.scene.Forest) :
    ∃ next, state.verify checks root = some next ∧ Verified checks state [root] next := by
  refine traverse_verifies (state.scene.size + 1) state root forest.acyclic ?_
  have within : ∀ parent child, state.scene.Child parent child → parent ∈ Finset.range state.scene.size :=
    fun parent child edge => Finset.mem_range.mpr (forest.inside parent child edge).1
  have shallow := shallow_of_acyclic forest.acyclic within root
  rwa [Finset.card_range] at shallow

end Traversal

end Verification

end Ospray.Sg
