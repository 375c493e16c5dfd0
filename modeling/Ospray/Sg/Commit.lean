import Ospray.Sg.Updates

/-!
# Commits

A commit of a node visits the dirty nodes below it. If every parent of a dirty
node is dirty too, it misses none of them; each is committed once, children
before their parents, with a stamp that is later than all modifications.
-/

namespace Ospray.Sg

open Library.Forests Relation

variable {V : Type} {scene middle next : Scene V} {id root : Nat}

/-- Below a node, the parent of a dirty node is dirty. -/
def Scene.Marked (scene : Scene V) (root : Nat) : Prop :=
  ∀ parent, scene.Below root parent → ∀ child, scene.Child parent child → scene.Dirty child →
    scene.Dirty parent

/-- The dirty nodes below some nodes have been committed, and nothing else changed. -/
structure Scene.Committed (scene : Scene V) (starts : List Nat) (next : Scene V)
    (committed : List Nat) : Prop where
  global : scene.global ≤ next.global
  size : next.size = scene.size
  children : ∀ id, (next.nodes id).children = (scene.nodes id).children
  parent : next.parentOf = scene.parentOf
  lastModified : ∀ id, (next.nodes id).lastModified = (scene.nodes id).lastModified
  childrenMTime : ∀ id, (next.nodes id).childrenMTime = (scene.nodes id).childrenMTime
  members : ∀ id, id ∈ committed ↔ (∃ start ∈ starts, scene.Below start id) ∧ scene.Dirty id
  fresh : ∀ id ∈ committed, scene.global ≤ (next.nodes id).lastCommitted ∧
    (next.nodes id).lastCommitted < next.global
  kept : ∀ id, id ∉ committed → (next.nodes id).lastCommitted = (scene.nodes id).lastCommitted
  once : committed.Nodup

/-! ## What a commit leaves -/

section Left

variable {starts : List Nat} {committed : List Nat}

theorem committed_child (left : scene.Committed starts next committed) :
    next.Child = scene.Child := child_eq left.children

/-- A commit keeps the forest. -/
theorem forest_committed (forest : scene.Forest) (left : scene.Committed starts next committed) : next.Forest := by
  refine ⟨?_, ?_, ?_, ?_, ?_, ?_, ?_, ?_⟩
  · rw [committed_child left, left.parent]
    exact forest.links
  · rw [committed_child left, left.size]
    exact forest.inside
  · rw [left.parent, left.size]
    exact forest.parents
  · rw [committed_child left]
    exact forest.acyclic
  · intro node within
    rw [left.lastModified]
    exact (forest.lastModified node (left.size ▸ within)).trans_le left.global
  · intro node within
    rw [left.childrenMTime]
    exact (forest.childrenMTime node (left.size ▸ within)).trans_le left.global
  · intro node within
    by_cases member : node ∈ committed
    · exact (left.fresh node member).2
    · rw [left.kept node member]
      exact (forest.lastCommitted node (left.size ▸ within)).trans_le left.global
  · intro node within
    rw [left.lastModified]
    by_cases member : node ∈ committed
    · have modified := forest.lastModified node (left.size ▸ within)
      have stamp := (left.fresh node member).1
      omega
    · rw [left.kept node member]
      exact forest.distinct node (left.size ▸ within)

variable (forest : scene.Forest) (inside : ∀ start ∈ starts, start < scene.size)
include forest inside

theorem committed_inside (left : scene.Committed starts next committed) (member : id ∈ committed) :
    id < scene.size := by
  obtain ⟨⟨start, listed, below⟩, -⟩ := (left.members id).mp member
  exact below_inside forest (inside start listed) below

theorem committed_dirty (left : scene.Committed starts next committed) :
    next.Dirty id ↔ scene.Dirty id ∧ id ∉ committed := by
  rw [dirty_iff, dirty_iff, left.lastModified, left.childrenMTime]
  by_cases member : id ∈ committed
  · have within := committed_inside forest inside left member
    have modified := forest.lastModified id within
    have below := forest.childrenMTime id within
    have stamp := (left.fresh id member).1
    constructor
    · omega
    · exact fun ⟨_, absent⟩ => absurd member absent
  · rw [left.kept id member]
    exact ⟨fun dirty => ⟨dirty, member⟩, And.left⟩

/-- Parents of dirty nodes stay dirty: a parent that is committed has had its dirty
children committed. -/
theorem marked_committed (marked : scene.Marked root)
    (left : scene.Committed starts next committed) : next.Marked root := by
  intro parent below child edge dirty
  rw [committed_child left] at edge
  have belowBefore : scene.Below root parent := by
    unfold Scene.Below at below
    rwa [committed_child left] at below
  obtain ⟨wasDirty, notCommitted⟩ := (committed_dirty forest inside left).mp dirty
  refine (committed_dirty forest inside left).mpr ⟨marked parent belowBefore child edge wasDirty, ?_⟩
  intro member
  obtain ⟨⟨start, listed, above⟩, -⟩ := (left.members parent).mp member
  exact notCommitted ((left.members child).mpr ⟨⟨start, listed, above.tail edge⟩, wasDirty⟩)

/-- Two commits in turn: the second one finds what the first one left dirty. -/
theorem committed_append {more laterCommitted : List Nat}
    (first : scene.Committed starts middle committed)
    (second : middle.Committed more next laterCommitted) :
    scene.Committed (starts ++ more) next (committed ++ laterCommitted) := by
  have later : ∀ node, node ∈ laterCommitted ↔
      (∃ start ∈ more, scene.Below start node) ∧ scene.Dirty node ∧ node ∉ committed := by
    intro node
    rw [second.members, committed_dirty forest inside first]
    unfold Scene.Below
    rw [committed_child first]
  refine ⟨first.global.trans second.global, second.size.trans first.size,
    fun node => (second.children node).trans (first.children node),
    second.parent.trans first.parent,
    fun node => (second.lastModified node).trans (first.lastModified node),
    fun node => (second.childrenMTime node).trans (first.childrenMTime node), ?_, ?_, ?_, ?_⟩
  · intro node
    rw [List.mem_append, first.members, later]
    constructor
    · rintro (⟨⟨start, listed, below⟩, dirty⟩ | ⟨⟨start, listed, below⟩, dirty, -⟩)
      · exact ⟨⟨start, List.mem_append_left _ listed, below⟩, dirty⟩
      · exact ⟨⟨start, List.mem_append_right _ listed, below⟩, dirty⟩
    · rintro ⟨⟨start, listed, below⟩, dirty⟩
      obtain early | late := List.mem_append.mp listed
      · exact .inl ⟨⟨start, early, below⟩, dirty⟩
      · by_cases member : node ∈ committed
        · exact .inl ((first.members node).mp member)
        · exact .inr ⟨⟨start, late, below⟩, dirty, member⟩
  · intro node member
    obtain early | late := List.mem_append.mp member
    · have stamp := first.fresh node early
      have unchanged := second.kept node fun late => ((later node).mp late).2.2 early
      rw [unchanged]
      exact ⟨stamp.1, stamp.2.trans_le second.global⟩
    · have stamp := second.fresh node late
      exact ⟨first.global.trans stamp.1, stamp.2⟩
  · intro node absent
    obtain ⟨notEarly, notLate⟩ := not_or.mp (mt List.mem_append.mpr absent)
    exact (second.kept node notLate).trans (first.kept node notEarly)
  · refine List.nodup_append.mpr ⟨first.once, second.once, ?_⟩
    rintro node early _ late rfl
    exact ((later node).mp late).2.2 early

end Left

/-! ## The traversal -/

theorem committed_nil : scene.Committed [] scene [] where
  global := le_rfl
  size := rfl
  children _ := rfl
  parent := rfl
  lastModified _ := rfl
  childrenMTime _ := rfl
  members _ := by simp
  fresh _ absent := nomatch absent
  kept _ _ := rfl
  once := List.nodup_nil

/-- Below a node that is not dirty there is nothing to commit. -/
theorem committed_clean (marked : scene.Marked id) (clean : ¬ scene.Dirty id) :
    scene.Committed [id] scene [] where
  global := le_rfl
  size := rfl
  children _ := rfl
  parent := rfl
  lastModified _ := rfl
  childrenMTime _ := rfl
  members node := by
    refine iff_of_false List.not_mem_nil ?_
    rintro ⟨⟨start, listed, below⟩, dirty⟩
    rw [List.mem_singleton.mp listed] at below
    exact clean (reach_climbs below marked dirty)
  fresh _ absent := nomatch absent
  kept _ _ := rfl
  once := List.nodup_nil

theorem markAsCommitted_field {β : Type} (field : Node V → β) {node : Nat}
    (kept : ∀ (self : Node V) (stamp : Nat), field { self with lastCommitted := stamp } = field self) :
    field ((scene.markAsCommitted id).nodes node) = field (scene.nodes node) := by
  unfold Scene.markAsCommitted Scene.timeStamp
  exact modify_field field (kept _ _)

/-- After its children a dirty node is committed itself. -/
theorem committed_self (forest : scene.Forest) (dirty : scene.Dirty id) {committed : List Nat}
    (first : scene.Committed ((scene.nodes id).children.map Prod.snd) middle committed) :
    id ∉ committed ∧ scene.Committed [id] (middle.markAsCommitted id) (committed ++ [id]) := by
  have absent : id ∉ committed := by
    intro member
    obtain ⟨⟨child, edge, below⟩, -⟩ := (first.members id).mp member
    exact forest.acyclic id (TransGen.head' edge below)
  have global : (middle.markAsCommitted id).global = middle.global + 1 := rfl
  have own : ((middle.markAsCommitted id).nodes id).lastCommitted = middle.global := by
    unfold Scene.markAsCommitted Scene.timeStamp
    rw [modify_self]
  have other : ∀ node, node ≠ id →
      ((middle.markAsCommitted id).nodes node).lastCommitted = (middle.nodes node).lastCommitted := by
    intro node apart
    unfold Scene.markAsCommitted Scene.timeStamp
    rw [modify_other _ apart]
  refine ⟨absent, ?_, first.size, ?_, ?_, ?_, ?_, ?_, ?_, ?_, ?_⟩
  · rw [global]
    exact first.global.trans (Nat.le_succ _)
  · exact fun node =>
      (markAsCommitted_field Node.children fun _ _ => rfl).trans (first.children node)
  · exact (funext fun _ => markAsCommitted_field Node.parent fun _ _ => rfl).trans first.parent
  · exact fun node =>
      (markAsCommitted_field Node.lastModified fun _ _ => rfl).trans (first.lastModified node)
  · exact fun node =>
      (markAsCommitted_field Node.childrenMTime fun _ _ => rfl).trans (first.childrenMTime node)
  · intro node
    rw [List.mem_append, List.mem_singleton, first.members]
    constructor
    · rintro (⟨⟨child, edge, below⟩, dirtyNode⟩ | rfl)
      · exact ⟨⟨id, List.mem_singleton_self id, below.head edge⟩, dirtyNode⟩
      · exact ⟨⟨node, List.mem_singleton_self node, .refl⟩, dirty⟩
    · rintro ⟨⟨start, listed, below⟩, dirtyNode⟩
      rw [List.mem_singleton.mp listed] at below
      obtain rfl | ⟨child, edge, further⟩ := below.cases_head
      · exact .inr rfl
      · exact .inl ⟨⟨child, edge, further⟩, dirtyNode⟩
  · intro node member
    rw [global]
    by_cases same : node = id
    · rw [same, own]
      exact ⟨first.global, Nat.lt_succ_self _⟩
    · rw [other node same]
      have early : node ∈ committed :=
        (List.mem_append.mp member).resolve_right fun last => same (List.mem_singleton.mp last)
      have stamp := first.fresh node early
      exact ⟨stamp.1, Nat.lt_succ_of_lt stamp.2⟩
  · intro node notMember
    obtain ⟨notEarly, notLast⟩ := not_or.mp (mt List.mem_append.mpr notMember)
    rw [other node fun same => notLast (List.mem_singleton.mpr same)]
    exact first.kept node notEarly
  · refine List.nodup_append.mpr ⟨first.once, List.nodup_singleton id, ?_⟩
    rintro node early _ last rfl
    exact absent (List.mem_singleton.mp last ▸ early)

/-- The loop over children, where each call does what the traversal should: the
children up to here have been committed, and the remaining ones are. -/
theorem children_spec {bound : Nat}
    (visit : ∀ (scene : Scene V) (id : Nat), scene.Forest → id < scene.size → scene.Marked id →
      Shallow scene.Child bound id → ∃ next committed,
        scene.traverse bound id = some (next, committed) ∧ scene.Committed [id] next committed)
    (forest : scene.Forest) (marked : scene.Marked root) {entries : List (String × Nat)}
    (below : ∀ entry ∈ entries, scene.Below root entry.2 ∧ entry.2 < scene.size ∧
      Shallow scene.Child bound entry.2)
    {starts : List Nat} (inside : ∀ start ∈ starts, start < scene.size) {done : List Nat}
    (first : scene.Committed starts middle done) :
    ∃ next committed, entries.foldlM (fun (scene, committed) (_, child) => do
        let (scene, more) ← Scene.traverse bound scene child
        return (scene, committed ++ more)) (middle, done) = some (next, committed) ∧
      scene.Committed (starts ++ entries.map Prod.snd) next committed := by
  induction entries generalizing middle starts done with
  | nil =>
    refine ⟨middle, done, rfl, ?_⟩
    rw [List.map_nil, List.append_nil]
    exact first
  | cons entry rest inductionHypothesis =>
    obtain ⟨⟨belowRoot, entryInside, shallow⟩, belowRest⟩ := List.forall_mem_cons.mp below
    have markedHere : middle.Marked entry.2 :=
      marked_committed forest inside
        (fun parent further => marked parent (belowRoot.trans further)) first
    obtain ⟨after, more, ran, second⟩ := visit middle entry.2 (forest_committed forest first)
      (first.size ▸ entryInside) markedHere (committed_child first ▸ shallow)
    have both := committed_append forest inside first second
    have insideBoth : ∀ start ∈ starts ++ [entry.2], start < scene.size := by
      intro start listed
      obtain early | last := List.mem_append.mp listed
      · exact inside start early
      · exact List.mem_singleton.mp last ▸ entryInside
    obtain ⟨next, committed, loop, left⟩ := inductionHypothesis belowRest insideBoth both
    refine ⟨next, committed, ?_, ?_⟩
    · rw [List.foldlM_cons]
      dsimp only
      rw [ran]
      exact loop
    · rw [List.map_cons, List.append_cons]
      exact left

/-- The traversal of a node commits what is dirty below it, once the bound covers
the depth. The induction is on the bound. -/
theorem traverse_spec (bound : Nat) (scene : Scene V) (id : Nat) (forest : scene.Forest)
    (inside : id < scene.size) (marked : scene.Marked id) (shallow : Shallow scene.Child bound id) :
    ∃ next committed, scene.traverse bound id = some (next, committed) ∧
      scene.Committed [id] next committed := by
  induction bound generalizing scene id with
  | zero => exact shallow.elim
  | succ bound inductionHypothesis =>
    rw [Scene.traverse]
    by_cases dirty : scene.Dirty id
    · have below : ∀ entry ∈ (scene.nodes id).children, scene.Below id entry.2 ∧
          entry.2 < scene.size ∧ Shallow scene.Child bound entry.2 := by
        intro entry member
        have edge : scene.Child id entry.2 := List.mem_map.mpr ⟨entry, member, rfl⟩
        exact ⟨.single edge, (forest.inside id entry.2 edge).2, shallow entry.2 edge⟩
      obtain ⟨middle, committed, loop, first⟩ := children_spec inductionHypothesis forest marked below
        (fun _ absent => absurd absent List.not_mem_nil) committed_nil
      rw [List.nil_append] at first
      obtain ⟨absent, left⟩ := committed_self forest dirty first
      have insideChildren : ∀ start ∈ (scene.nodes id).children.map Prod.snd, start < scene.size :=
        fun start edge => (forest.inside id start edge).2
      have still : middle.Dirty id :=
        (committed_dirty forest insideChildren first).mpr ⟨dirty, absent⟩
      refine ⟨middle.markAsCommitted id, committed ++ [id], ?_, left⟩
      rw [Scene.Dirty] at dirty still
      rw [if_pos dirty, loop]
      exact if_pos still
    · refine ⟨scene, [], ?_, committed_clean marked dirty⟩
      rw [Scene.Dirty] at dirty
      rw [if_neg dirty]
      exact if_neg dirty

theorem commit_spec (forest : scene.Forest) (inside : root < scene.size)
    (marked : scene.Marked root) :
    ∃ next committed, scene.commit root = some (next, committed) ∧
      scene.Committed [root] next committed := by
  refine traverse_spec (scene.size + 1) scene root forest inside marked ?_
  have within : ∀ parent child, scene.Child parent child → parent ∈ Finset.range scene.size :=
    fun parent child edge => Finset.mem_range.mpr (forest.inside parent child edge).1
  have shallow := shallow_of_acyclic forest.acyclic within root
  rwa [Finset.card_range] at shallow

end Ospray.Sg
