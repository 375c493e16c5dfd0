import Ospray.Sg.VerifyTraversal

/-!
# Histories of verifications

Setting a value tells all nodes above it, so that none of them is stale. Attaching a node
tells none: a node above that would be skipped becomes stale, unless the flags of what is
attached are right already and the new parent stays as valid as it was.
-/

namespace Ospray.Sg

open Library.Forests Library.Runs Relation

variable {V : Type}

/-! ## Values -/

section Values

variable {scene next : Scene V} {id : Nat}

/-- Modifications keep the values. -/
theorem markAsModified_value (ran : scene.markAsModified id = some next) (node : Nat) :
    (next.nodes node).value = (scene.nodes node).value := by
  have stamped : ∀ node, ((({ scene with global := scene.global + 1 } : Scene V).modify id
      ({ · with lastModified := scene.global })).nodes node).value = (scene.nodes node).value :=
    fun node => modify_field Node.value rfl
  generalize touched : ({ scene with global := scene.global + 1 } : Scene V).modify id
    ({ · with lastModified := scene.global }) = middle at stamped
  rw [markAsModified_eq touched] at ran
  cases pointer : middle.parentOf id with
  | none =>
    rw [pointer] at ran
    obtain rfl := Option.some.inj ran
    exact stamped node
  | some parent =>
    rw [pointer] at ran
    have run : middle.setChildrenModified (middle.size + 1) scene.global parent =
        (Library.Chains.markChain middle.parentOf scene.global (middle.size + 1)
          (fun node => (middle.nodes node).childrenMTime) parent).map middle.withChildrenMTime :=
      setChildrenModified_eq _ _ _
    obtain ⟨marked, -, rfl⟩ := Option.map_eq_some_iff.mp (run.symm.trans ran)
    exact stamped node

theorem setValue_value [BEq V] {value : V} (ran : scene.setValue id value = some next) {node : Nat}
    (other : node ≠ id) : (next.nodes node).value = (scene.nodes node).value := by
  rw [Scene.setValue] at ran
  split_ifs at ran with same
  · obtain rfl := Option.some.inj ran
    rfl
  · rw [markAsModified_value ran, modify_other _ other]

theorem setChild_value {parent node other : Nat} {name : String} :
    ((scene.setChild parent name node).nodes other).value = (scene.nodes other).value := by
  have call : scene.setChild parent name node = (scene.modify parent fun self =>
      { self with children := insertChild self.children name node }).modify node
        ({ · with parent := some parent }) := rfl
  rw [call, modify_field Node.value rfl, modify_field Node.value rfl]

end Values

namespace Verification

variable [BEq V] (checks : Nat → Checks V)

/-! ## The condition -/

/-- Putting a node below a parent, under a name, is timely if no node above would be skipped
wrongly: where one is skipped, the flags below the new child are right, and the parent stays
as valid as it was unless it is visited itself. -/
def TimelyChild (state : Verification V) (id : Nat) (name : String) (node : Nat) : Prop :=
  ∀ above, state.scene.Below above id → state.Skipped above →
    (∀ below, state.scene.Below node below → state.Current checks below) ∧
      (above = id ∨
        ((state.scene.setChild id name node).Valid checks id ↔ state.scene.Valid checks id))

/-- The condition on a request. -/
def Timely (state : Verification V) : Request V → Prop
  | .createChild id name value => ∀ created, state.createNode name value = some created →
    TimelyChild checks created id name state.scene.size
  | .add id node => TimelyChild checks state id (state.scene.nodes node).name node
  | .addAs id node name => TimelyChild checks state id name node
  | _ => True

/-- Before the first request there are no nodes. -/
def Initial (state : Verification V) : Prop :=
  state.scene.size = 0 ∧ ∀ id, (state.scene.nodes id).children = []

/-- One request that is allowed. -/
def Step (before after : Verification V) : Prop :=
  ∃ request, before.Allowed request ∧ before.perform checks request = some after

/-- One that meets the condition, too. -/
def TimelyStep (before after : Verification V) : Prop :=
  ∃ request, before.Allowed request ∧ before.Timely checks request ∧ before.perform checks request = some after

/-- The verification of a node returns, and then the flags at and below it are those that a
full verification gives. -/
def VerifiesAll (state : Verification V) (root : Nat) : Prop :=
  ∃ next, state.verify checks root = some next ∧
    ∀ node, next.scene.Below root node → (next.valid node = true ↔ next.scene.Valid checks node)

variable {checks}

/-- The scene is a forest, and nodes have been verified in the past. -/
structure Stamped (state : Verification V) : Prop where
  forest : state.scene.Forest
  past : ∀ id, id < state.scene.size → state.lastVerified id < state.scene.global

variable {state next : Verification V} {id node root : Nat} {name : String}

/-! ## What is missed -/

theorem verify_skipped (forest : state.scene.Forest) (skipped : state.Skipped id) :
    ∃ next, state.verify checks id = some next ∧ next.scene.nodes = state.scene.nodes ∧
      ∀ other, other ≠ id → next.valid other = state.valid other := by
  refine ⟨(state.visit checks id).2.postChildren checks id, ?_, rfl, ?_⟩
  · have skips := (@visit_skips V _ checks state id).mpr skipped
    rw [verify, traverse]
    simp only [skips]
    rfl
  · intro other different
    have apart : ∀ child ∈ (state.scene.nodes id).children, child.2 ≠ id := by
      intro child member same
      exact forest.acyclic id (.single (List.mem_map.mpr ⟨child, member, same⟩))
    have kept := (@foldl_combine V checks id _ apart (state.visit checks id).2.valid).1 other different
    exact kept.trans (visit_other different).1

/-- All nodes are verified if none is stale; a stale one is missed by its own
verification. -/
theorem verifiesAll_iff (forest : state.scene.Forest) :
    (∀ root < state.scene.size, state.VerifiesAll checks root) ↔ ∀ id, ¬state.Stale checks id := by
  constructor
  · rintro verifies id ⟨skipped, node, path, wrong⟩
    obtain ⟨child, edge, -⟩ := TransGen.head'_iff.mp path
    obtain ⟨next, ran, right⟩ := verifies id (forest.inside id child edge).1
    obtain ⟨again, ranAgain, nodes, kept⟩ := verify_skipped forest skipped
    obtain rfl := Option.some.inj (ran.symm.trans ranAgain)
    have edges : next.scene.Child = state.scene.Child := child_eq fun one => by rw [nodes]
    have other : node ≠ id := by
      rintro rfl
      exact forest.acyclic node path
    have below : next.scene.Below id node := by
      unfold Scene.Below
      rw [edges]
      exact path.to_reflTransGen
    apply wrong
    rw [Current, ← kept node other, ← valid_nodes nodes]
    exact right node below
  · intro fresh root _
    obtain ⟨next, ran, left⟩ := @verify_spec V _ checks state root forest
    refine ⟨next, ran, fun node below => ?_⟩
    unfold Scene.Below at below
    rw [verified_child left] at below
    exact left.right (fun one _ => fresh one) node ⟨root, List.mem_singleton_self root, below⟩

/-! ## Creating nodes and setting values -/

/-- `createNode` returns, and the new node is not valid. -/
theorem createNode_created (state : Verification V) (name : String) (value : Option V) :
    ∃ created, state.createNode name value = some created ∧ state.scene.Created created.scene ∧
      created.valid = Function.update state.valid state.scene.size false ∧
      created.lastVerified = Function.update state.lastVerified state.scene.size state.scene.global ∧
      state.scene.global < created.scene.global ∧ (created.scene.nodes state.scene.size).name = name := by
  obtain ⟨scene, ran, spec⟩ := createNode_spec ({ state.scene with global := state.scene.global + 1 } : Scene V)
    name value
  have later : state.scene.global < scene.global := spec.global
  have created : state.scene.Created scene := { spec with global := later.le }
  have named : (scene.nodes state.scene.size).name = name :=
    @createNode_name V _ ({ state.scene with global := state.scene.global + 1 } : Scene V) scene name value ran
  refine ⟨⟨scene, _, _⟩, ?_, created, rfl, rfl, later, named⟩
  rw [createNode]
  unfold Scene.timeStamp
  dsimp only
  rw [ran]
  rfl

/-- Creating a node makes none stale. -/
theorem created_fresh (stamped : state.Stamped) (fresh : ∀ id, ¬state.Stale checks id)
    {value : Option V} (ran : state.createNode name value = some next) :
    next.Stamped ∧ ∀ id, ¬next.Stale checks id := by
  obtain ⟨created, ranAgain, spec, valid, lastVerified, later, -⟩ := createNode_created state name value
  obtain rfl := Option.some.inj (ranAgain.symm.trans ran)
  have forest := stamped.forest
  have edges : created.scene.Child = state.scene.Child := created_child forest spec
  refine ⟨⟨forest_created forest spec, fun id within => ?_⟩, ?_⟩
  · rw [lastVerified]
    by_cases new : id = state.scene.size
    · rw [new, Function.update_self]
      exact later
    · rw [Function.update_of_ne new]
      have before : id < state.scene.size := by
        rw [spec.size] at within
        omega
      exact (stamped.past id before).trans_le spec.global
  · rintro id ⟨⟨flag, older⟩, node, path, wrong⟩
    have old : id ≠ state.scene.size := by
      rintro rfl
      rw [valid, Function.update_self] at flag
      cases flag
    rw [valid, Function.update_of_ne old] at flag
    rw [lastVerified, Function.update_of_ne old, spec.old id old] at older
    rw [edges] at path
    have inside : node < state.scene.size := by
      obtain ⟨parent, -, edge⟩ := TransGen.tail'_iff.mp path
      exact (forest.inside parent node edge).2
    have same : created.scene.Valid checks node ↔ state.scene.Valid checks node := by
      apply @valid_agree V _ checks state.scene created.scene node (· < state.scene.size)
        (fun one _ child edge => (forest.inside one child edge).2) _ inside
      intro one within
      refine ⟨computeValid_eq ?_ ?_ ?_, fun child => by rw [edges]⟩
      · rw [spec.old one within.ne]
      · rw [spec.old one within.ne]
      · intro child edge
        rw [spec.old child (forest.inside one child edge).2.ne]
    refine fresh id ⟨⟨flag, older⟩, node, path, fun right => wrong ?_⟩
    rw [Current, same, valid, Function.update_of_ne inside.ne]
    exact right

/-- Setting a value makes none stale: the nodes above are told. -/
theorem setValue_fresh (stamped : state.Stamped) (fresh : ∀ id, ¬state.Stale checks id) (inside : id < state.scene.size)
    (value : V) : ∃ scene, state.scene.setValue id value = some scene ∧
      Stamped { state with scene } ∧ ∀ id, ¬Stale { state with scene } checks id := by
  have forest := stamped.forest
  by_cases same : (state.scene.nodes id).value.any (value == ·)
  · exact ⟨state.scene, setValue_same same, stamped, fresh⟩
  · obtain ⟨scene, ran, modified⟩ := setValue_other forest inside same
    have edges : scene.Child = state.scene.Child := child_eq modified.children
    refine ⟨scene, ran, ⟨forest_modified forest modified, fun one within => ?_⟩, ?_⟩
    · dsimp only at within ⊢
      rw [modified.global]
      exact Nat.lt_succ_of_lt (stamped.past one (modified.size ▸ within))
    · rintro above ⟨⟨flag, older⟩, node, path, wrong⟩
      dsimp only at flag older path
      rw [edges] at path
      have aboveInside : above < state.scene.size := by
        obtain ⟨child, edge, -⟩ := TransGen.head'_iff.mp path
        exact (forest.inside above child edge).1
      -- where the stamp arrives, it is later than the verification
      have unpushed : ¬state.scene.Pushed id above := by
        intro pushed
        rw [modified.pushed above pushed] at older
        exact older.asymm (stamped.past above aboveInside)
      rw [modified.kept above unpushed] at older
      have apart : ¬state.scene.Below node id := by
        intro below
        have further := path.trans_left below
        refine unpushed (pushed_of_below forest further.to_reflTransGen ?_)
        rintro rfl
        exact forest.acyclic _ further
      have valid : scene.Valid checks node ↔ state.scene.Valid checks node := by
        refine valid_elsewhere (fun one apart => ?_) apart
        have other : one ≠ id := fun same => apart (same ▸ .refl)
        refine ⟨computeValid_eq (setValue_value ran other) (modified.children one) fun child edge => ?_,
          fun child => by rw [edges]⟩
        exact setValue_value ran fun same => apart (same ▸ .single edge)
      refine fresh above ⟨⟨flag, older⟩, node, path, fun right => wrong ?_⟩
      exact right.trans valid.symm

/-! ## Attaching nodes -/

theorem insertChild_self (children : List (String × Nat)) (name : String) (node : Nat) :
    (name, node) ∈ insertChild children name node := by
  induction children with
  | nil => exact List.mem_singleton_self _
  | cons entry rest inductionHypothesis =>
    obtain ⟨key, child⟩ := entry
    rw [insertChild]
    split_ifs with same less
    · exact same ▸ List.mem_cons_self
    · exact List.mem_cons_self
    · exact List.mem_cons_of_mem _ inductionHypothesis

/-- Attaching a node, with the values that validity depends on. -/
structure Attaches (checks : Nat → Checks V) (state : Verification V) (id node : Nat) (scene : Scene V) : Prop
    extends state.scene.Attached id node scene where
  before : state.scene.Forest
  after : scene.Forest
  edge : scene.Child id node
  apart : ¬state.scene.Below node id
  checked : ∀ one, one ≠ id → scene.computeValid checks one = state.scene.computeValid checks one

theorem setChild_attaches (forest : state.scene.Forest) (attachable : state.scene.Attachable id node) :
    Attaches checks state id node (state.scene.setChild id name node) := by
  obtain ⟨idInside, nodeInside, only, apart⟩ := attachable
  have attached := @setChild_spec V state.scene id node name
  refine ⟨attached, forest, forest_attached forest attached ⟨idInside, nodeInside⟩ only apart, ?_, apart, ?_⟩
  · rw [Scene.Child, setChild_children, if_pos rfl]
    exact List.mem_map.mpr ⟨_, insertChild_self _ name node, rfl⟩
  · intro one other
    have children : ((state.scene.setChild id name node).nodes one).children = (state.scene.nodes one).children := by
      rw [setChild_children, if_neg other]
    exact computeValid_eq setChild_value children fun _ _ => setChild_value

section Attaching

variable {scene : Scene V} (attaches : Attaches checks state id node scene)
include attaches

/-- Nodes that are not above stay as valid as they were, -/
theorem attaches_elsewhere {one : Nat} (apart : ¬state.scene.Below one id) :
    scene.Valid checks one ↔ state.scene.Valid checks one :=
  valid_elsewhere (fun other far =>
    have different : other ≠ id := fun same => far (same ▸ .refl)
    ⟨attaches.checked other different, attaches.elsewhere other different⟩) apart

/-- and all others too if the new parent does. -/
theorem attaches_everywhere (here : scene.Valid checks id ↔ state.scene.Valid checks id) (one : Nat) :
    scene.Valid checks one ↔ state.scene.Valid checks one :=
  valid_everywhere (fun other different => ⟨attaches.checked other different, attaches.elsewhere other different⟩) here

theorem attaches_above {above : Nat} (below : state.scene.Below above id) : scene.Below above id := by
  induction below using ReflTransGen.head_induction_on with
  | refl => exact .refl
  | @head above next edge below inductionHypothesis =>
    have other : above ≠ id := by
      rintro rfl
      exact attaches.before.acyclic _ (TransGen.head' edge below)
    exact inductionHypothesis.head ((attaches.elsewhere above other next).mpr edge)

theorem attaches_beneath {one : Nat} (below : state.scene.Below node one) : ¬state.scene.Below one id :=
  fun further => attaches.apart (below.trans further)

/-- A timely attachment makes no node stale. -/
theorem fresh_of_timely (fresh : ∀ id, ¬state.Stale checks id)
    (timely : ∀ above, state.scene.Below above id → state.Skipped above →
      (∀ below, state.scene.Below node below → state.Current checks below) ∧
        (above = id ∨ (scene.Valid checks id ↔ state.scene.Valid checks id)))
    (above : Nat) : ¬Stale { state with scene } checks above := by
  rintro ⟨⟨flag, older⟩, one, path, wrong⟩
  rw [attaches.childrenMTime] at older
  have other : one ≠ above := by
    rintro rfl
    exact attaches.after.acyclic _ path
  -- what was below before has the right flag, because no node was stale
  have current : state.scene.Below above one → state.Current checks one := by
    intro below
    by_contra wrongBefore
    obtain same | path := reflTransGen_iff_eq_or_transGen.mp below
    · exact other same
    · exact fresh above ⟨⟨flag, older⟩, one, path, wrongBefore⟩
  by_cases reaches : state.scene.Below above id
  · obtain ⟨beneath, visited⟩ := timely above reaches ⟨flag, older⟩
    have grown := reach_grown attaches.grown path.to_reflTransGen
    have right : state.Current checks one := grown.elim current fun further => beneath one further.2
    refine wrong (right.trans (Iff.symm ?_))
    obtain rfl | here := visited
    · refine attaches_elsewhere attaches fun back => ?_
      obtain below | ⟨-, below⟩ := grown
      · obtain same | further := reflTransGen_iff_eq_or_transGen.mp below
        · exact other same
        · exact attaches.before.acyclic _ (further.trans_left back)
      · exact attaches_beneath attaches below back
    · exact attaches_everywhere attaches here one
  · have below : state.scene.Below above one :=
      (reach_elsewhere attaches.elsewhere reaches).mp path.to_reflTransGen
    refine wrong ((current below).trans (Iff.symm ?_))
    exact attaches_elsewhere attaches fun back => reaches (below.trans back)

/-- An attachment that makes no node stale is timely. -/
theorem timely_of_fresh (fresh : ∀ id, ¬state.Stale checks id)
    (after : ∀ above, ¬Stale { state with scene } checks above) {above : Nat}
    (reaches : state.scene.Below above id) (skipped : state.Skipped above) :
    (∀ below, state.scene.Below node below → state.Current checks below) ∧
      (above = id ∨ (scene.Valid checks id ↔ state.scene.Valid checks id)) := by
  have still : Skipped { state with scene } above := by
    refine ⟨skipped.1, ?_⟩
    dsimp only
    rw [attaches.childrenMTime]
    exact skipped.2
  have right : ∀ one, TransGen scene.Child above one → (state.valid one = true ↔ scene.Valid checks one) := by
    intro one path
    by_contra wrong
    exact after above ⟨still, one, path, wrong⟩
  have aboveAfter := attaches_above attaches reaches
  constructor
  · intro below beneath
    have apart : ¬state.scene.Below node id := attaches.apart
    have beneathAfter : scene.Below node below := (reach_elsewhere attaches.elsewhere apart).mpr beneath
    have path : TransGen scene.Child above below := (TransGen.tail' aboveAfter attaches.edge).trans_left beneathAfter
    exact (right below path).trans (attaches_elsewhere attaches (attaches_beneath attaches beneath))
  · by_cases same : above = id
    · exact .inl same
    · have path : TransGen state.scene.Child above id :=
        (reflTransGen_iff_eq_or_transGen.mp reaches).resolve_left fun equal => same equal.symm
      have pathAfter : TransGen scene.Child above id :=
        (reflTransGen_iff_eq_or_transGen.mp aboveAfter).resolve_left fun equal => same equal.symm
      have before : state.Current checks id := by
        by_contra wrong
        exact fresh above ⟨skipped, id, path, wrong⟩
      exact .inr ((right id pathAfter).symm.trans before)

end Attaching

theorem setChild_fresh (stamped : state.Stamped) (fresh : ∀ id, ¬state.Stale checks id)
    (attachable : state.scene.Attachable id node) (name : String) :
    Stamped { state with scene := state.scene.setChild id name node } ∧
      ((∀ above, ¬Stale { state with scene := state.scene.setChild id name node } checks above) ↔
        TimelyChild checks state id name node) := by
  have attaches : Attaches checks state id node (state.scene.setChild id name node) :=
    setChild_attaches stamped.forest attachable
  refine ⟨⟨attaches.after, ?_⟩, ?_⟩
  · intro one within
    dsimp only at within ⊢
    rw [attaches.size] at within
    rw [attaches.global]
    exact stamped.past one within
  · exact ⟨fun after above reaches skipped => timely_of_fresh attaches fresh after reaches skipped,
      fun timely above => fresh_of_timely attaches fresh timely above⟩

/-! ## Every step -/

/-- No node is stale, and stamps are from the past. -/
structure Sound (checks : Nat → Checks V) (state : Verification V) : Prop extends Stamped state where
  fresh : ∀ id, ¬state.Stale checks id

/-- An empty scene is a forest, and in it no node is stale. -/
theorem sound_initial (initial : state.Initial) : state.Sound checks := by
  obtain ⟨empty, childless⟩ := initial
  have none : ∀ parent child, ¬state.scene.Child parent child := by
    intro parent child edge
    rw [Scene.Child, childless] at edge
    cases edge
  have nothing : ∀ id, ¬id < state.scene.size := by
    intro id
    rw [empty]
    exact Nat.not_lt_zero id
  refine ⟨⟨⟨?_, ?_, ?_, ?_, ?_, ?_, ?_, ?_⟩, ?_⟩, ?_⟩
  · exact fun parent child edge => absurd edge (none parent child)
  · exact fun parent child edge => absurd edge (none parent child)
  · exact fun id _ within => absurd within (nothing id)
  · intro id cycle
    obtain ⟨child, edge, -⟩ := TransGen.head'_iff.mp cycle
    exact none id child edge
  · exact fun id within => absurd within (nothing id)
  · exact fun id within => absurd within (nothing id)
  · exact fun id within => absurd within (nothing id)
  · exact fun id within => absurd within (nothing id)
  · exact fun id within => absurd within (nothing id)
  · rintro id ⟨-, node, path, -⟩
    obtain ⟨child, edge, -⟩ := TransGen.head'_iff.mp path
    exact none id child edge

/-- A verification only draws stamps from the scene. -/
theorem stamped_verified {starts : List Nat} (stamped : state.Stamped)
    (left : Verified checks state starts next) : next.Stamped := by
  have forest := stamped.forest
  have edges := verified_child left
  have pointers : next.scene.parentOf = state.scene.parentOf := by
    funext id
    rw [Scene.parentOf, Scene.parentOf, left.nodes]
  refine ⟨⟨?_, ?_, ?_, ?_, ?_, ?_, ?_, ?_⟩, ?_⟩
  · rw [edges, pointers]
    exact forest.links
  · rw [edges, left.size]
    exact forest.inside
  · rw [pointers, left.size]
    exact forest.parents
  · rw [edges]
    exact forest.acyclic
  · rw [left.nodes, left.size]
    exact fun id within => (forest.lastModified id within).trans_le left.global
  · rw [left.nodes, left.size]
    exact fun id within => (forest.childrenMTime id within).trans_le left.global
  · rw [left.nodes, left.size]
    exact fun id within => (forest.lastCommitted id within).trans_le left.global
  · rw [left.nodes, left.size]
    exact forest.distinct
  · rw [left.size]
    exact left.stamps stamped.past

/-- Every allowed request returns, and afterwards no node is stale exactly if the request
was timely. -/
theorem perform_fresh (sound : state.Sound checks) {request : Request V} (allowed : state.Allowed request) :
    ∃ next, state.perform checks request = some next ∧ next.Stamped ∧
      ((∀ id, ¬next.Stale checks id) ↔ state.Timely checks request) := by
  have stamped := sound.toStamped
  cases request with
  | createNode name value =>
    obtain ⟨created, ran, -⟩ := createNode_created state name value
    obtain ⟨after, fresh⟩ := created_fresh stamped sound.fresh ran
    exact ⟨created, ran, after, iff_of_true fresh trivial⟩
  | createChild id name value =>
    obtain ⟨created, ran, spec, -, -, -, named⟩ := createNode_created state name value
    obtain ⟨after, fresh⟩ := created_fresh stamped sound.fresh ran
    have edges : created.scene.Child = state.scene.Child := created_child stamped.forest spec
    have attachable : created.scene.Attachable id state.scene.size := by
      refine ⟨spec.size ▸ Nat.lt_succ_of_lt allowed, spec.size ▸ Nat.lt_succ_self _, ?_, ?_⟩
      · intro parent edge
        rw [edges] at edge
        exact absurd (stamped.forest.inside parent _ edge).2 (Nat.lt_irrefl _)
      · intro below
        unfold Scene.Below at below
        rw [edges] at below
        obtain same | ⟨child, edge, -⟩ := below.cases_head
        · exact absurd allowed (same ▸ Nat.lt_irrefl _)
        · exact absurd (stamped.forest.inside _ child edge).1 (Nat.lt_irrefl _)
    obtain ⟨attached, iff_⟩ := setChild_fresh after fresh attachable name
    refine ⟨_, ?_, attached, iff_.trans ?_⟩
    · rw [perform, createChild, ran, Option.bind_eq_bind, Option.bind_some, named, add_eq]
      rfl
    · constructor
      · intro timely created_ ran_
        obtain rfl := Option.some.inj (ran.symm.trans ran_)
        exact timely
      · exact fun timely => timely created ran
  | add id node =>
    obtain ⟨attached, iff_⟩ := setChild_fresh stamped sound.fresh allowed (state.scene.nodes node).name
    exact ⟨_, by rw [perform, add_eq], attached, iff_⟩
  | addAs id node name =>
    obtain ⟨attached, iff_⟩ := setChild_fresh stamped sound.fresh allowed name
    exact ⟨_, by rw [perform, add_eq], attached, iff_⟩
  | setValue id value =>
    obtain ⟨scene, ran, after, fresh⟩ := setValue_fresh stamped sound.fresh allowed value
    exact ⟨_, by rw [perform, ran, Option.map_some], after, iff_of_true fresh trivial⟩
  | verify root =>
    obtain ⟨next, ran, left⟩ := @verify_spec V _ checks state root stamped.forest
    refine ⟨next, ran, stamped_verified stamped left, iff_of_true (fun id => ?_) trivial⟩
    exact verified_fresh left (fun one _ => sound.fresh one) (sound.fresh id)

theorem sound_of_timely (reached : Reachable Initial (TimelyStep checks) state) : state.Sound checks := by
  refine reachable_invariant (fun origin start => @sound_initial V _ checks origin start) ?_ reached
  rintro before after sound ⟨request, allowed, timely, ran⟩
  obtain ⟨next, ranAgain, stamped, iff_⟩ := perform_fresh sound allowed
  obtain rfl := Option.some.inj (ran.symm.trans ranAgain)
  exact ⟨stamped, iff_.mpr timely⟩

/-- In every history of timely requests, each verification gives the flags of a full one; and
after a further request, all verifications do exactly if it was timely. -/
theorem verification_complete (reached : Reachable Initial (TimelyStep checks) state) :
    (∀ root < state.scene.size, state.VerifiesAll checks root) ∧
      ∀ request, state.Allowed request → ∃ next, state.perform checks request = some next ∧
        ((∀ root < next.scene.size, next.VerifiesAll checks root) ↔ state.Timely checks request) := by
  have sound := sound_of_timely reached
  refine ⟨(verifiesAll_iff sound.forest).mpr sound.fresh, fun request allowed => ?_⟩
  obtain ⟨next, ran, stamped, iff_⟩ := perform_fresh sound allowed
  exact ⟨next, ran, (verifiesAll_iff stamped.forest).trans iff_⟩

/-! ## Small histories -/

/-- Nodes without flags. -/
def unchecked (_ : Nat) : Checks Nat := ⟨NodeFlags.required, [], [], [], fun _ _ _ => true, none⟩

/-- Before the first request. -/
def blank : Verification Nat := { scene := emptyScene, lastVerified := fun _ => 0, valid := fun _ => false }

/-- A root. -/
def rooted : Verification Nat := (perform unchecked blank (.createNode "root" none)).get rfl

/-- A root with a child. -/
def family : Verification Nat := (perform unchecked rooted (.createChild 0 "child" none)).get rfl

/-- A root and a child that have been verified. -/
def verifiedFamily : Verification Nat := (perform unchecked family (.verify 0)).get rfl

/-- They are verified, and again after each further request that is timely. -/
theorem verification_complete_family : verifiedFamily.VerifiesAll unchecked 0 := by
  have one : TimelyStep unchecked blank rooted := ⟨.createNode "root" none, trivial, trivial, rfl⟩
  have two : TimelyStep unchecked rooted family := by
    refine ⟨.createChild 0 "child" none, Nat.zero_lt_one, ?_, rfl⟩
    intro created ran above below skipped
    obtain rfl := Option.some.inj ran
    obtain same | ⟨parent, -, edge⟩ := below.cases_tail
    · subst same
      exact absurd skipped.1 (by decide)
    · match parent, edge with
      | 0, edge => cases edge
      | 1, edge => cases edge
      | _ + 2, edge => cases edge
  have three : TimelyStep unchecked family verifiedFamily :=
    ⟨.verify 0, Nat.zero_lt_two, trivial, rfl⟩
  have reached : Reachable Initial (TimelyStep unchecked) verifiedFamily :=
    reachable_step (reachable_step (reachable_step (reachable_start ⟨rfl, fun _ => rfl⟩) one) two) three
  exact (verification_complete reached).1 0 (by decide)

/-- A root that has been verified. -/
def verifiedRoot : Verification Nat := (perform unchecked rooted (.verify 0)).get rfl

/-- A verified root with a new child. -/
def grown : Verification Nat := (perform unchecked verifiedRoot (.createChild 0 "child" none)).get rfl

/-- A child that is created below a verified root is never verified from there, and stays
invalid. -/
theorem child_not_verified :
    ¬∀ state : Verification Nat, Reachable Initial (Step unchecked) state →
      ∀ root < state.scene.size, state.VerifiesAll unchecked root := by
  intro claim
  have one : Step unchecked blank rooted := ⟨.createNode "root" none, trivial, rfl⟩
  have two : Step unchecked rooted verifiedRoot := ⟨.verify 0, Nat.zero_lt_one, rfl⟩
  have three : Step unchecked verifiedRoot grown := ⟨.createChild 0 "child" none, Nat.zero_lt_one, rfl⟩
  have reached : Reachable Initial (Step unchecked) grown :=
    reachable_step (reachable_step (reachable_step (reachable_start ⟨rfl, fun _ => rfl⟩) one) two) three
  obtain ⟨next, ran, right⟩ := claim grown reached 0 (by decide)
  obtain ⟨again, ranAgain, flag, nodes⟩ : ∃ again, grown.verify unchecked 0 = some again ∧
      again.valid 1 = false ∧ again.scene.nodes = grown.scene.nodes := ⟨_, rfl, by decide, rfl⟩
  obtain rfl := Option.some.inj (ranAgain.symm.trans ran)
  have child : again.scene.Child 0 1 := by
    rw [Scene.Child, nodes]
    exact List.mem_singleton_self 1
  have valid : again.scene.Valid unchecked 1 := by
    refine (valid_nodes nodes).mpr (.intro 1 (by decide) fun child edge => ?_)
    cases edge
  have claimed := (right 1 (.single child)).mpr valid
  rw [flag] at claimed
  cases claimed

end Verification

end Ospray.Sg
