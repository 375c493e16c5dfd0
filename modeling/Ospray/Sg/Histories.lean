import Ospray.Library.Runs
import Ospray.Sg.Commit

/-!
# Histories of a scene graph

A node is settled if the test for updates tells the truth about it: it finds the
node dirty exactly if something below it was modified since its commit, or one
of its children is dirty. Modifications settle all nodes above them. Attaching a
subtree pushes no stamp, so it can unsettle the nodes above; so can detaching
one, which leaves the stamps that it pushed, and a modification below a replaced
child, which still points to its old parent.

A history keeps account of the nodes that are not settled. A commit of a node
below which there are none misses no modification and commits nothing else.
-/

namespace Ospray.Sg

open Library.Forests Library.Runs Relation

variable {V : Type} {scene next : Scene V} {id node above root : Nat}

/-! ## Settled nodes -/

/-- The test for updates finds the node dirty exactly if something below it was
modified since its commit, and finds it dirty if it finds a child dirty. -/
def Scene.Settled (scene : Scene V) (id : Nat) : Prop :=
  (scene.HasModified id ↔ scene.Dirty id) ∧
    ∀ child, scene.Child id child → scene.Dirty child → scene.Dirty id

/-- Attaching a node is missed by a clean node above the new parent, if the attached
node is dirty and the parent is not, or something attached was modified since the
clean node's commit. -/
def Scene.Missed (scene : Scene V) (id node above : Nat) : Prop :=
  scene.Below above id ∧ ¬ scene.Dirty above ∧ ((above = id ∧ scene.Dirty node) ∨
    ∃ below, scene.Below node below ∧
      (scene.nodes above).lastCommitted < (scene.nodes below).lastModified)

/-- A dirty node above the parent of a child that goes has lost everything below it
that was modified since its commit. -/
def Scene.Lost (scene : Scene V) (id : Nat) (next : Scene V) (above : Nat) : Prop :=
  scene.Below above id ∧ scene.Dirty above ∧ ¬ next.HasModified above

/-- A modification settles the nodes above: they are dirty, and should be. -/
theorem settled_above (forest : scene.Forest) (inside : above < scene.size)
    (modified : scene.Modified id next) (below : scene.Below above id) : next.Settled above := by
  have edges : next.Child = scene.Child := child_eq modified.children
  have committed : (next.nodes above).lastCommitted < scene.global := by
    rw [modified.lastCommitted]
    exact forest.lastCommitted above inside
  have dirty : next.Dirty above := by
    rw [dirty_iff]
    by_cases same : above = id
    · rw [same, modified.own]
      exact .inl (same ▸ committed)
    · have pushed := modified.pushed above (pushed_of_below forest below fun equal => same equal.symm)
      rw [pushed]
      exact .inr committed
  have found : next.HasModified above := by
    refine ⟨id, ?_, modified.own ▸ committed⟩
    unfold Scene.Below
    rwa [edges]
  exact ⟨iff_of_true found dirty, fun _ _ _ => dirty⟩

/-- A modification leaves settled the nodes that are not above and that its stamp
does not reach. -/
theorem settled_apart (forest : scene.Forest) (modified : scene.Modified id next)
    (settled : scene.Settled above) (apart : ¬ scene.Below above id)
    (unpushed : ¬ scene.Pushed id above) : next.Settled above := by
  have edges : next.Child = scene.Child := child_eq modified.children
  have other : above ≠ id := by
    rintro rfl
    exact apart .refl
  have dirty : next.Dirty above ↔ scene.Dirty above := by
    rw [dirty_iff, dirty_iff, modified.lastCommitted, modified.other above other,
      modified.kept above unpushed]
  have found : next.HasModified above ↔ scene.HasModified above := by
    unfold Scene.HasModified Scene.Below
    rw [edges, modified.lastCommitted]
    refine exists_congr fun node => and_congr_right fun below => ?_
    rw [modified.other node]
    rintro rfl
    exact apart below
  refine ⟨by rw [found, dirty]; exact settled.1, ?_⟩
  intro child edge childDirty
  rw [edges] at edge
  have childOther : child ≠ id := by
    rintro rfl
    exact apart (.single edge)
  have childUnpushed : ¬ scene.Pushed id child := by
    intro pushed
    exact unpushed (Library.Chains.linked_next pushed (forest.links above child edge))
  rw [dirty_iff, modified.lastCommitted, modified.other child childOther,
    modified.kept child childUnpushed, ← dirty_iff] at childDirty
  exact dirty.mpr (settled.2 child edge childDirty)

theorem settled_created (forest : scene.Forest) (created : scene.Created next)
    (inside : id < scene.size) (settled : scene.Settled id) : next.Settled id := by
  have edges : next.Child = scene.Child := created_child forest created
  have same : ∀ node, scene.Below id node → next.nodes node = scene.nodes node :=
    fun node below => created.old node (below_inside forest inside below).ne
  have dirty : ∀ node, scene.Below id node → (next.Dirty node ↔ scene.Dirty node) := by
    intro node below
    rw [Scene.Dirty, Scene.Dirty, same node below]
  have found : next.HasModified id ↔ scene.HasModified id := by
    unfold Scene.HasModified
    rw [same id .refl]
    unfold Scene.Below
    rw [edges]
    exact exists_congr fun node => and_congr_right fun below => by rw [same node below]
  refine ⟨by rw [found, dirty id .refl]; exact settled.1, ?_⟩
  intro child edge childDirty
  rw [edges] at edge
  exact (dirty id .refl).mpr (settled.2 child edge ((dirty child (.single edge)).mp childDirty))

theorem settled_new (created : scene.Created next) : next.Settled scene.size := by
  have dirty : next.Dirty scene.size := dirty_iff.mpr (.inl created.dirty)
  exact ⟨iff_of_true ⟨scene.size, .refl, created.dirty⟩ dirty, fun _ _ _ => dirty⟩

theorem relinked_dirty (relinked : scene.Relinked id next) :
    next.Dirty node ↔ scene.Dirty node := by
  rw [dirty_iff, dirty_iff, relinked.lastCommitted, relinked.lastModified, relinked.childrenMTime]

/-- Relinking the children of a node leaves settled the nodes that are not above it. -/
theorem settled_elsewhere (relinked : scene.Relinked id next) (settled : scene.Settled above)
    (apart : ¬ scene.Below above id) : next.Settled above := by
  have other : above ≠ id := by
    rintro rfl
    exact apart .refl
  have found : next.HasModified above ↔ scene.HasModified above := by
    unfold Scene.HasModified
    refine exists_congr fun node => ?_
    rw [relinked.lastCommitted, relinked.lastModified]
    exact and_congr_left' (reach_elsewhere relinked.elsewhere apart)
  refine ⟨by rw [found, relinked_dirty relinked]; exact settled.1, ?_⟩
  intro child edge childDirty
  exact (relinked_dirty relinked).mpr (settled.2 child ((relinked.elsewhere above other child).mp edge)
    ((relinked_dirty relinked).mp childDirty))

/-- Attaching leaves settled the nodes that miss and lose nothing. -/
theorem settled_attached (attached : scene.Attached id node next) (settled : scene.Settled above)
    (noticed : ¬ scene.Missed id node above) (kept : ¬ scene.Lost id next above) :
    next.Settled above := by
  by_cases below : scene.Below above id
  · have dirty : next.Dirty above ↔ scene.Dirty above := relinked_dirty attached.toRelinked
    refine ⟨⟨?_, ?_⟩, ?_⟩
    · rintro ⟨found, further, later⟩
      rw [attached.lastCommitted, attached.lastModified] at later
      rw [dirty]
      obtain before | ⟨-, beneath⟩ := reach_grown attached.grown further
      · exact settled.1.mp ⟨found, before, later⟩
      · by_contra clean
        exact noticed ⟨below, clean, .inr ⟨found, beneath, later⟩⟩
    · intro dirtyAfter
      by_contra nothing
      exact kept ⟨below, dirty.mp dirtyAfter, nothing⟩
    · intro child edge childDirty
      have childBefore := (relinked_dirty attached.toRelinked).mp childDirty
      rw [dirty]
      obtain before | ⟨rfl, rfl⟩ := attached.grown above child edge
      · exact settled.2 child before childBefore
      · by_contra clean
        exact noticed ⟨below, clean, .inl ⟨rfl, childBefore⟩⟩
  · exact settled_elsewhere attached.toRelinked settled below

/-- Detaching leaves settled the nodes that lose nothing. -/
theorem settled_detached (detached : scene.Detached id node next) (settled : scene.Settled above)
    (kept : ¬ scene.Lost id next above) : next.Settled above := by
  by_cases below : scene.Below above id
  · have dirty : next.Dirty above ↔ scene.Dirty above := relinked_dirty detached.toRelinked
    refine ⟨⟨?_, ?_⟩, ?_⟩
    · rintro ⟨found, further, later⟩
      rw [detached.lastCommitted, detached.lastModified] at later
      rw [dirty]
      exact settled.1.mp ⟨found, ReflTransGen.mono detached.fewer _ _ further, later⟩
    · intro dirtyAfter
      by_contra nothing
      exact kept ⟨below, dirty.mp dirtyAfter, nothing⟩
    · intro child edge childDirty
      rw [dirty]
      exact settled.2 child (detached.fewer above child edge)
        ((relinked_dirty detached.toRelinked).mp childDirty)
  · exact settled_elsewhere detached.toRelinked settled below

theorem marked_of_settled (settled : ∀ node, scene.Below root node → scene.Settled node) :
    scene.Marked root :=
  fun parent below child edge dirty => (settled parent below).2 child edge dirty

/-- A commit leaves nothing below it that is dirty or should be. -/
theorem clean_committed (forest : scene.Forest) (inside : root < scene.size) {committed : List Nat}
    (left : scene.Committed [root] next committed)
    (settled : ∀ node, scene.Below root node → scene.Settled node)
    (below : scene.Below root node) : ¬ next.Dirty node ∧ ¬ next.HasModified node := by
  have insideStarts : ∀ start ∈ [root], start < scene.size :=
    fun start listed => List.mem_singleton.mp listed ▸ inside
  have clean : ¬ next.Dirty node := by
    intro dirty
    obtain ⟨wasDirty, absent⟩ := (committed_dirty forest insideStarts left).mp dirty
    exact absent ((left.members node).mpr ⟨⟨root, List.mem_singleton_self root, below⟩, wasDirty⟩)
  refine ⟨clean, ?_⟩
  rintro ⟨found, further, later⟩
  rw [left.lastModified] at later
  unfold Scene.Below at further
  rw [committed_child left] at further
  by_cases member : node ∈ committed
  · have past := forest.lastModified found
      (below_inside forest inside (below.trans further))
    have stamp := (left.fresh node member).1
    omega
  · rw [left.kept node member] at later
    have wasDirty : scene.Dirty node := (settled node below).1.mp ⟨found, further, later⟩
    exact clean ((committed_dirty forest insideStarts left).mpr ⟨wasDirty, member⟩)

/-- A commit settles what is below it, and leaves the other nodes settled. -/
theorem settled_committed (forest : scene.Forest) (inside : root < scene.size)
    {committed : List Nat} (left : scene.Committed [root] next committed)
    (all : ∀ node, scene.Below root node → scene.Settled node)
    (settled : ¬ scene.Below root above → scene.Settled above) : next.Settled above := by
  have insideStarts : ∀ start ∈ [root], start < scene.size :=
    fun start listed => List.mem_singleton.mp listed ▸ inside
  have edges : next.Child = scene.Child := committed_child left
  by_cases below : scene.Below root above
  · obtain ⟨clean, nothing⟩ := clean_committed forest inside left all below
    refine ⟨iff_of_false nothing clean, ?_⟩
    intro child edge dirty
    rw [edges] at edge
    exact absurd dirty (clean_committed forest inside left all (below.tail edge)).1
  · have absent : above ∉ committed := by
      intro member
      obtain ⟨⟨start, listed, under⟩, -⟩ := (left.members above).mp member
      exact below (List.mem_singleton.mp listed ▸ under)
    have dirty : next.Dirty above ↔ scene.Dirty above := by
      rw [committed_dirty forest insideStarts left]
      exact and_iff_left absent
    have found : next.HasModified above ↔ scene.HasModified above := by
      unfold Scene.HasModified Scene.Below
      rw [edges, left.kept above absent]
      exact exists_congr fun node => by rw [left.lastModified]
    refine ⟨by rw [found, dirty]; exact (settled below).1, ?_⟩
    intro child edge childDirty
    rw [edges] at edge
    rw [dirty]
    exact (settled below).2 child edge ((committed_dirty forest insideStarts left).mp childDirty).1

/-! ## Histories -/

/-- A node may be put below a parent if both exist, it is below no other parent, and
it is not above its new one. -/
def Scene.Attachable (scene : Scene V) (id node : Nat) : Prop :=
  id < scene.size ∧ node < scene.size ∧ (∀ parent, scene.Child parent node → parent = id) ∧
    ¬ scene.Below node id

/-- Calls on existing nodes that keep a forest. -/
def Allowed (scene : Scene V) : Call V → Prop
  | .createNode _ _ => True
  | .createChild id _ _ => id < scene.size
  | .add id node => scene.Attachable id node
  | .addAs id node _ => scene.Attachable id node
  | .setChild id _ node => scene.Attachable id node
  | .remove id _ => id < scene.size
  | .setValue id _ => id < scene.size
  | .markAsModified id => id < scene.size
  | .commit root => root < scene.size

/-- A scene and the nodes in it that may not be settled. -/
structure Ledger (V : Type) where
  scene : Scene V
  unsettled : Nat → Prop

/-- Attaching a node unsettles those above that miss or lose something. -/
def attachUnsettled (unsettled : Nat → Prop) (scene : Scene V) (id node : Nat) (next : Scene V)
    (above : Nat) : Prop :=
  unsettled above ∨ scene.Missed id node above ∨ scene.Lost id next above

/-- A modification settles the nodes above, and unsettles others that its stamp
reaches. -/
def modifyUnsettled (unsettled : Nat → Prop) (scene : Scene V) (id above : Nat) : Prop :=
  ¬ scene.Below above id ∧ (unsettled above ∨ scene.Pushed id above)

/-- The nodes that may not be settled after a call. -/
def unsettledAfter [BEq V] (before : Ledger V) (next : Scene V) : Call V → Nat → Prop
  | .createNode _ _ => before.unsettled
  | .createChild id name value => fun above =>
    ∃ created, before.scene.createNode name value = some created ∧
      attachUnsettled before.unsettled created id before.scene.size next above
  | .add id node => attachUnsettled before.unsettled before.scene id node next
  | .addAs id node _ => attachUnsettled before.unsettled before.scene id node next
  | .setChild id _ node => attachUnsettled before.unsettled before.scene id node next
  | .remove id _ => fun above => before.unsettled above ∨ before.scene.Lost id next above
  | .setValue id value =>
    if (before.scene.nodes id).value.any (value == ·) then before.unsettled
    else modifyUnsettled before.unsettled before.scene id
  | .markAsModified id => modifyUnsettled before.unsettled before.scene id
  | .commit root => fun above => before.unsettled above ∧ ¬ before.scene.Below root above

/-- The condition on a call: a removed child has no other entry than the one with
the given name, and there is no unsettled node below a committed one. -/
def Admissible (before : Ledger V) : Call V → Prop
  | .remove id name => ∀ key child, (before.scene.nodes id).child? name = some (key, child) →
    ∀ other, (other, child) ∈ (before.scene.nodes id).children → other = name
  | .commit root => ∀ node, before.scene.Below root node → ¬ before.unsettled node
  | _ => True

/-- Before the first call there are no nodes. -/
def Initial (ledger : Ledger V) : Prop :=
  ledger.scene.size = 0 ∧ (∀ id, (ledger.scene.nodes id).children = []) ∧
    ∀ id, ¬ ledger.unsettled id

/-- One call that is allowed and meets the condition. -/
def Step [BEq V] (before after : Ledger V) : Prop :=
  ∃ call, Allowed before.scene call ∧ Admissible before call ∧
    perform before.scene call = some after.scene ∧
      after.unsettled = unsettledAfter before after.scene call

/-- The scene is a forest, and the nodes not accounted for are settled. -/
structure Accounted (ledger : Ledger V) : Prop where
  forest : ledger.scene.Forest
  settled : ∀ id, id < ledger.scene.size → ¬ ledger.unsettled id → ledger.scene.Settled id

theorem accounted_initial {ledger : Ledger V} (initial : Initial ledger) : Accounted ledger := by
  obtain ⟨empty, childless, -⟩ := initial
  have none : ∀ parent child, ¬ ledger.scene.Child parent child := by
    intro parent child edge
    rw [Scene.Child, childless] at edge
    cases edge
  have absent : ∀ id, ¬ id < ledger.scene.size := fun id inside => by omega
  refine ⟨⟨fun parent child edge => absurd edge (none parent child),
    fun parent child edge => absurd edge (none parent child),
    fun id _ inside => absurd inside (absent id), ?_, fun id inside => absurd inside (absent id),
    fun id inside => absurd inside (absent id), fun id inside => absurd inside (absent id),
    fun id inside => absurd inside (absent id)⟩, fun id inside => absurd inside (absent id)⟩
  intro node cycle
  obtain ⟨next, edge, -⟩ := TransGen.head'_iff.mp cycle
  exact none node next edge

theorem accounted_modified {unsettled : Nat → Prop} (before : Accounted ⟨scene, unsettled⟩)
    (modified : scene.Modified id next) :
    Accounted ⟨next, modifyUnsettled unsettled scene id⟩ := by
  refine ⟨forest_modified before.forest modified, ?_⟩
  intro above inside accounted
  have within : above < scene.size := modified.size ▸ inside
  by_cases below : scene.Below above id
  · exact settled_above before.forest within modified below
  · have spared : ¬ (unsettled above ∨ scene.Pushed id above) := fun either => accounted ⟨below, either⟩
    obtain ⟨known, unpushed⟩ := not_or.mp spared
    exact settled_apart before.forest modified (before.settled above within known) below unpushed

theorem accounted_attached {unsettled : Nat → Prop} (before : Accounted ⟨scene, unsettled⟩)
    (attachable : scene.Attachable id node) (attached : scene.Attached id node next) :
    Accounted ⟨next, attachUnsettled unsettled scene id node next⟩ := by
  obtain ⟨inside, nodeInside, only, apart⟩ := attachable
  refine ⟨forest_attached before.forest attached ⟨inside, nodeInside⟩ only apart, ?_⟩
  intro above within accounted
  obtain ⟨known, kept⟩ := not_or.mp accounted
  obtain ⟨noticed, notLost⟩ := not_or.mp kept
  exact settled_attached attached (before.settled above (attached.size ▸ within) known) noticed
    notLost

theorem accounted_created {unsettled : Nat → Prop} (before : Accounted ⟨scene, unsettled⟩)
    (created : scene.Created next) : Accounted ⟨next, unsettled⟩ := by
  refine ⟨forest_created before.forest created, ?_⟩
  intro id inside known
  by_cases same : id = scene.size
  · rw [same]
    exact settled_new created
  · have within : id < scene.size := by
      have bound : id < scene.size + 1 := created.size ▸ inside
      omega
    exact settled_created before.forest created within (before.settled id within known)

theorem attachable_created (forest : scene.Forest) (created : scene.Created next)
    (inside : id < scene.size) : next.Attachable id scene.size := by
  have edges : next.Child = scene.Child := created_child forest created
  refine ⟨?_, ?_, ?_, ?_⟩
  · rw [created.size]
    exact Nat.lt_succ_of_lt inside
  · rw [created.size]
    exact Nat.lt_succ_self _
  · intro parent edge
    rw [edges] at edge
    exact absurd (forest.inside parent _ edge).2 (Nat.lt_irrefl _)
  · intro below
    obtain same | ⟨child, edge, -⟩ := below.cases_head
    · exact absurd same.symm inside.ne
    · rw [Scene.Child, created.children] at edge
      cases edge

/-- Removing a child whose only entry has the given name is accounted for. -/
theorem accounted_removed {unsettled : Nat → Prop} (before : Accounted ⟨scene, unsettled⟩)
    {name : String} (single : ∀ key child, (scene.nodes id).child? name = some (key, child) →
      ∀ other, (other, child) ∈ (scene.nodes id).children → other = name) :
    Accounted ⟨scene.remove id name,
      fun above => unsettled above ∨ scene.Lost id (scene.remove id name) above⟩ := by
  cases found : (scene.nodes id).child? name with
  | none =>
    rw [remove_none found]
    exact ⟨before.forest, fun above inside known =>
      before.settled above inside fun unknown => known (.inl unknown)⟩
  | some entry =>
    obtain ⟨key, child⟩ := entry
    obtain ⟨detached, left⟩ := remove_spec found
    have edge : scene.Child id child := List.mem_map.mpr ⟨(key, child), child?_mem found, rfl⟩
    have gone : ¬ (scene.remove id name).Child id child := by
      intro still
      obtain ⟨other, apart, member⟩ := (left child).mp still
      exact apart (single key child found other member)
    refine ⟨forest_detached before.forest detached edge gone, ?_⟩
    intro above inside accounted
    obtain ⟨known, kept⟩ := not_or.mp accounted
    exact settled_detached detached (before.settled above (detached.size ▸ inside) known) kept

theorem accounted_committed {unsettled : Nat → Prop} (before : Accounted ⟨scene, unsettled⟩)
    (inside : root < scene.size) (settled : ∀ node, scene.Below root node → ¬ unsettled node)
    {committed : List Nat} (left : scene.Committed [root] next committed) :
    Accounted ⟨next, fun above => unsettled above ∧ ¬ scene.Below root above⟩ := by
  have all : ∀ node, scene.Below root node → scene.Settled node := fun node below =>
    before.settled node (below_inside before.forest inside below) (settled node below)
  refine ⟨forest_committed before.forest left, ?_⟩
  intro above within accounted
  refine settled_committed before.forest inside left all ?_
  intro apart
  exact before.settled above (left.size ▸ within) fun unknown => accounted ⟨unknown, apart⟩

section Runs

variable [BEq V]

/-- Every call that is allowed and meets the condition keeps the account. -/
theorem accounted_step {before after : Ledger V} (accounted : Accounted before)
    (step : Step before after) : Accounted after := by
  obtain ⟨scene, unsettled⟩ := before
  obtain ⟨next, unsettledNext⟩ := after
  obtain ⟨call, allowed, admissible, performed, account⟩ := step
  dsimp only at allowed performed account
  subst account
  cases call with
  | createNode name value =>
    obtain ⟨created, ran, spec⟩ := createNode_spec scene name value
    obtain rfl : created = next := Option.some.inj (ran.symm.trans performed)
    exact accounted_created accounted spec
  | createChild id name value =>
    obtain ⟨created, ran, spec⟩ := createNode_spec scene name value
    have child : scene.createChild id name value =
        some (created.add id scene.size (created.nodes scene.size).name) := by
      rw [Scene.createChild, ran]
      rfl
    obtain rfl := Option.some.inj (child.symm.trans performed)
    have known := accounted_attached (accounted_created accounted spec)
      (attachable_created accounted.forest spec allowed) (add_spec (created.nodes scene.size).name)
    refine ⟨known.forest, fun above inside settled => known.settled above inside ?_⟩
    exact fun unknown => settled ⟨created, ran, unknown⟩
  | add id node =>
    obtain rfl := Option.some.inj performed
    exact accounted_attached accounted allowed (add_spec _)
  | addAs id node name =>
    obtain rfl := Option.some.inj performed
    exact accounted_attached accounted allowed (add_spec _)
  | setChild id name node =>
    obtain rfl := Option.some.inj performed
    exact accounted_attached accounted allowed (setChild_spec _)
  | remove id name =>
    obtain rfl := Option.some.inj performed
    exact accounted_removed accounted admissible
  | setValue id value =>
    by_cases same : (scene.nodes id).value.any (value == ·)
    · obtain rfl : scene = next := Option.some.inj ((setValue_same same).symm.trans performed)
      rw [unsettledAfter, if_pos same]
      exact accounted
    · obtain ⟨modified, ran, spec⟩ := setValue_other accounted.forest allowed same
      obtain rfl : modified = next := Option.some.inj (ran.symm.trans performed)
      rw [unsettledAfter, if_neg same]
      exact accounted_modified accounted spec
  | markAsModified id =>
    obtain ⟨marked, ran, spec⟩ := markAsModified_spec accounted.forest allowed
    obtain rfl : marked = next := Option.some.inj (ran.symm.trans performed)
    exact accounted_modified accounted spec
  | commit root =>
    have marked := marked_of_settled fun node below => accounted.settled node
      (below_inside accounted.forest allowed below) (admissible node below)
    obtain ⟨after, committed, ran, left⟩ := commit_spec accounted.forest allowed marked
    rw [perform, ran] at performed
    obtain rfl : after = next := Option.some.inj performed
    exact accounted_committed accounted allowed admissible left

/-- A commit of the node misses nothing: it returns; afterwards every node below was
committed after it was modified; and `postCommit` ran once on each node below
which something was modified since the node's own commit, and on no other. -/
def Scene.CommitsModified (scene : Scene V) (root : Nat) : Prop :=
  ∃ next committed, scene.commit root = some (next, committed) ∧
    (∀ node, next.Below root node →
      (next.nodes node).lastModified < (next.nodes node).lastCommitted) ∧
    (∀ node, node ∈ committed ↔ scene.Below root node ∧ scene.HasModified node) ∧
    committed.Nodup

/-- In every history whose calls meet the condition, a commit misses nothing if no
node below it is on account. -/
theorem commit_misses_nothing {ledger : Ledger V} (reached : Reachable Initial Step ledger)
    (inside : root < ledger.scene.size)
    (settled : ∀ node, ledger.scene.Below root node → ¬ ledger.unsettled node) :
    ledger.scene.CommitsModified root := by
  have accounted : Accounted ledger := @reachable_invariant _ Initial Step Accounted
    (fun _ initial => accounted_initial initial) (fun _ _ kept step => accounted_step kept step)
    ledger reached
  have all : ∀ node, ledger.scene.Below root node → ledger.scene.Settled node := fun node below =>
    accounted.settled node (below_inside accounted.forest inside below) (settled node below)
  obtain ⟨next, committed, ran, left⟩ :=
    commit_spec accounted.forest inside (marked_of_settled all)
  refine ⟨next, committed, ran, ?_, ?_, left.once⟩
  · intro node below
    unfold Scene.Below at below
    rw [committed_child left] at below
    have within := below_inside accounted.forest inside below
    have clean := (clean_committed accounted.forest inside left all below).1
    have distinct := (forest_committed accounted.forest left).distinct node (left.size ▸ within)
    rw [dirty_iff] at clean
    omega
  · intro node
    rw [left.members]
    constructor
    · rintro ⟨⟨start, listed, below⟩, dirty⟩
      rw [List.mem_singleton.mp listed] at below
      exact ⟨below, (all node below).1.mpr dirty⟩
    · rintro ⟨below, found⟩
      exact ⟨⟨root, List.mem_singleton_self root, below⟩, (all node below).1.mp found⟩

end Runs

/-- No nodes. -/
def emptyScene : Scene Nat := ⟨0, 0, fun _ => ⟨"", none, [], none, 0, 0, 0⟩⟩

/-- A root that has been created. -/
def rootScene : Scene Nat := (perform emptyScene (.createNode "root" none)).get rfl

/-- A root with a child, neither of them committed. -/
def familyScene : Scene Nat := (perform rootScene (.createChild 0 "child" none)).get rfl

/-- Creating a child below a root that has not been committed is not missed, so a
commit of the root commits both. -/
theorem commit_misses_nothing_family : familyScene.CommitsModified 0 := by
  have one : Step (⟨emptyScene, fun _ => False⟩ : Ledger Nat) ⟨rootScene, fun _ => False⟩ :=
    ⟨.createNode "root" none, trivial, trivial, rfl, rfl⟩
  have two : Step (⟨rootScene, fun _ => False⟩ : Ledger Nat) ⟨familyScene,
      unsettledAfter ⟨rootScene, fun _ => False⟩ familyScene (.createChild 0 "child" none)⟩ :=
    ⟨.createChild 0 "child" none, Nat.zero_lt_one, trivial, rfl, rfl⟩
  have start : Initial (⟨emptyScene, fun _ => False⟩ : Ledger Nat) := ⟨rfl, fun _ => rfl, fun _ => id⟩
  have reached := reachable_step (reachable_step (reachable_start start) one) two
  refine commit_misses_nothing reached (by decide) ?_
  rintro node - ⟨created, ran, absurdity | ⟨below, clean, -⟩ | ⟨below, -, nothing⟩⟩
  · exact absurdity
  all_goals
    obtain rfl := Option.some.inj ran
    obtain rfl : node = 0 := by
      obtain same | ⟨parent, -, edge⟩ := below.cases_tail
      · exact same.symm
      · match parent, edge with
        | 0, edge => cases edge
        | 1, edge => cases edge
        | _ + 2, edge => cases edge
  · exact clean rfl
  · exact nothing ⟨0, .refl, by decide⟩

/-! ## A child that is missed -/

/-- One allowed call. -/
def AllowedStep [BEq V] (before after : Scene V) : Prop :=
  ∃ call, Allowed before call ∧ perform before call = some after

/-- A root that has been committed. -/
def committedScene : Scene Nat := (perform rootScene (.commit 0)).get rfl

/-- A committed root with a new child. -/
def grownScene : Scene Nat := (perform committedScene (.createChild 0 "child" none)).get rfl

/-- Creating a child below a committed root marks nothing above the child as modified,
so that the next commit of the root visits neither. -/
theorem new_child_missed :
    ¬ ∀ scene : Scene Nat, Reachable (· = emptyScene) AllowedStep scene →
      ∀ root, root < scene.size → scene.CommitsModified root := by
  intro claim
  have one : AllowedStep emptyScene rootScene := ⟨.createNode "root" none, trivial, rfl⟩
  have two : AllowedStep rootScene committedScene := ⟨.commit 0, Nat.zero_lt_one, rfl⟩
  have three : AllowedStep committedScene grownScene :=
    ⟨.createChild 0 "child" none, Nat.zero_lt_one, rfl⟩
  have reached : Reachable (· = emptyScene) AllowedStep grownScene :=
    reachable_step (reachable_step (reachable_step (reachable_start rfl) one) two) three
  obtain ⟨next, committed, ran, all, -⟩ := claim grownScene reached 0 (by decide)
  have result : grownScene.commit 0 = some (grownScene, []) := rfl
  obtain ⟨rfl, rfl⟩ := Prod.mk.inj (Option.some.inj (result.symm.trans ran))
  have below : grownScene.Below 0 1 := .single (List.mem_singleton_self 1)
  exact absurd (all 1 below) (by decide)

end Ospray.Sg
