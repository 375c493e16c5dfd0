import Ospray.Sg.Node
import Mathlib.Data.Finset.Card

/-!
# Pushing modifications upwards

What the calls other than a commit do to the structure of the scene and to its
time stamps. Along the parent pointers of child maps, the stamp of a
modification reaches every node above the modified one; it also reaches the
nodes behind a pointer that a replaced child has kept.
-/

namespace Ospray.Sg

open Library.Chains Library.Forests Relation

variable {V : Type}

/-! ## The structure of a scene -/

/-- A node is in the child map of another. -/
def Scene.Child (scene : Scene V) (parent child : Nat) : Prop :=
  child ∈ (scene.nodes parent).children.map Prod.snd

/-- The second node is the first one or one of its descendants. -/
abbrev Scene.Below (scene : Scene V) : Nat → Nat → Prop := ReflTransGen scene.Child

/-- The parent pointer of a node. -/
def Scene.parentOf (scene : Scene V) (id : Nat) : Option Nat := (scene.nodes id).parent

/-- Following the parent pointers of the first node meets the second. -/
def Scene.Pushed (scene : Scene V) (id above : Nat) : Prop :=
  Linked scene.parentOf (scene.parentOf id) above

/-- The node has to be committed, as the code sees it. -/
def Scene.Dirty (scene : Scene V) (id : Nat) : Prop :=
  (scene.nodes id).subtreeModifiedButNotCommitted = true

/-- The node or one of its descendants was modified since the node's own commit. -/
def Scene.HasModified (scene : Scene V) (id : Nat) : Prop :=
  ∃ node, scene.Below id node ∧ (scene.nodes id).lastCommitted < (scene.nodes node).lastModified

/-- The nodes form a forest in which children know their parents, and stamps are
from the past; a node was not modified and committed at the same time. -/
structure Scene.Forest (scene : Scene V) : Prop where
  links : ∀ parent child, scene.Child parent child → scene.parentOf child = some parent
  inside : ∀ parent child, scene.Child parent child → parent < scene.size ∧ child < scene.size
  parents : ∀ id parent, id < scene.size → scene.parentOf id = some parent → parent < scene.size
  acyclic : Acyclic scene.Child
  lastModified : ∀ id, id < scene.size → (scene.nodes id).lastModified < scene.global
  childrenMTime : ∀ id, id < scene.size → (scene.nodes id).childrenMTime < scene.global
  lastCommitted : ∀ id, id < scene.size → (scene.nodes id).lastCommitted < scene.global
  distinct : ∀ id, id < scene.size → (scene.nodes id).lastModified ≠ (scene.nodes id).lastCommitted

variable {scene next : Scene V} {id node : Nat}

/-- A node is dirty if it, or its children according to its stamp, were modified
after its commit. -/
theorem dirty_iff : scene.Dirty id ↔
    (scene.nodes id).lastCommitted < (scene.nodes id).lastModified ∨
      (scene.nodes id).lastCommitted < (scene.nodes id).childrenMTime := by
  simp [Scene.Dirty, Node.subtreeModifiedButNotCommitted]

theorem below_inside (forest : scene.Forest) (inside : id < scene.size)
    (below : scene.Below id node) : node < scene.size := by
  induction below with
  | refl => exact inside
  | tail _ step _ => exact (forest.inside _ _ step).2

theorem pushed_of_below (forest : scene.Forest) (below : scene.Below id node)
    (other : node ≠ id) : scene.Pushed node id := by
  induction below with
  | refl => exact absurd rfl other
  | @tail between node before step inductionHypothesis =>
    unfold Scene.Pushed
    rw [forest.links between node step]
    by_cases same : between = id
    · rw [same]
      exact .first id
    · exact .onwards between id (inductionHypothesis same)

/-! ## Changing a node -/

@[simp] theorem modify_global (change : Node V → Node V) :
    (scene.modify id change).global = scene.global := rfl

@[simp] theorem modify_size (change : Node V → Node V) :
    (scene.modify id change).size = scene.size := rfl

@[simp] theorem modify_self (change : Node V → Node V) :
    (scene.modify id change).nodes id = change (scene.nodes id) := Function.update_self _ _ _

theorem modify_other (change : Node V → Node V) (other : node ≠ id) :
    (scene.modify id change).nodes node = scene.nodes node := Function.update_of_ne other _ _

theorem modify_field {β : Type} (field : Node V → β) {change : Node V → Node V}
    (kept : field (change (scene.nodes id)) = field (scene.nodes id)) :
    field ((scene.modify id change).nodes node) = field (scene.nodes node) := by
  by_cases same : node = id
  · rw [same, modify_self, kept]
  · rw [modify_other _ same]

/-! ## Modifications -/

/-- The scene with other stamps for the modifications of children. -/
def Scene.withChildrenMTime (scene : Scene V) (stamps : Nat → Nat) : Scene V :=
  { scene with nodes := fun id => { scene.nodes id with childrenMTime := stamps id } }

/-- Pushing a stamp marks the chain of parents with it. -/
theorem setChildrenModified_eq (bound t : Nat) (stamps : Nat → Nat) :
    (scene.withChildrenMTime stamps).setChildrenModified bound t id =
      (markChain scene.parentOf t bound stamps id).map scene.withChildrenMTime := by
  induction bound generalizing id stamps with
  | zero => rfl
  | succ bound inductionHypothesis =>
    have stamped : (scene.withChildrenMTime stamps).modify id ({ · with childrenMTime := t }) =
        scene.withChildrenMTime (Function.update stamps id t) := by
      unfold Scene.modify Scene.withChildrenMTime
      congr 1
      funext node
      by_cases same : node = id
      · rw [same, Function.update_self, Function.update_self]
      · rw [Function.update_of_ne same, Function.update_of_ne same]
    rw [Scene.setChildrenModified, markChain, stamped]
    change (if stamps id < t then _ else _) = _
    by_cases unmarked : stamps id < t
    · rw [if_pos unmarked, if_pos unmarked]
      have pointer : ((scene.withChildrenMTime (Function.update stamps id t)).nodes id).parent = scene.parentOf id := rfl
      dsimp only
      rw [pointer]
      cases scene.parentOf id with
      | none => rfl
      | some parent => exact inductionHypothesis _
    · rw [if_neg unmarked, if_neg unmarked]
      rfl

theorem markAsModified_eq {middle : Scene V}
    (touched : ({ scene with global := scene.global + 1 } : Scene V).modify id
      ({ · with lastModified := scene.global }) = middle) :
    scene.markAsModified id = (middle.parentOf id).elim (some middle) fun parent =>
      middle.setChildrenModified (middle.size + 1) scene.global parent := by
  rw [← touched, Scene.markAsModified]
  dsimp only [Scene.timeStamp, Scene.parentOf]
  cases ((({ scene with global := scene.global + 1 } : Scene V).modify id
    ({ · with lastModified := scene.global })).nodes id).parent <;> rfl

/-- What a modification of a node changes. -/
structure Scene.Modified (scene : Scene V) (id : Nat) (next : Scene V) : Prop where
  global : next.global = scene.global + 1
  size : next.size = scene.size
  children : ∀ node, (next.nodes node).children = (scene.nodes node).children
  parent : next.parentOf = scene.parentOf
  lastCommitted : ∀ node, (next.nodes node).lastCommitted = (scene.nodes node).lastCommitted
  own : (next.nodes id).lastModified = scene.global
  other : ∀ node, node ≠ id → (next.nodes node).lastModified = (scene.nodes node).lastModified
  pushed : ∀ node, scene.Pushed id node → (next.nodes node).childrenMTime = scene.global
  kept : ∀ node, ¬ scene.Pushed id node →
    (next.nodes node).childrenMTime = (scene.nodes node).childrenMTime

/-- Marking a node as modified returns, and stamps the node and the chain of its
parents. -/
theorem markAsModified_spec (forest : scene.Forest) (inside : id < scene.size) :
    ∃ next, scene.markAsModified id = some next ∧ scene.Modified id next := by
  generalize touched : ({ scene with global := scene.global + 1 } : Scene V).modify id
    ({ · with lastModified := scene.global }) = middle
  have global : middle.global = scene.global + 1 := by rw [← touched, modify_global]
  have size : middle.size = scene.size := by rw [← touched, modify_size]
  have children : ∀ node, (middle.nodes node).children = (scene.nodes node).children := by
    intro node
    rw [← touched]
    exact modify_field Node.children rfl
  have parent : middle.parentOf = scene.parentOf := by
    funext node
    rw [← touched]
    exact modify_field Node.parent rfl
  have lastCommitted :
      ∀ node, (middle.nodes node).lastCommitted = (scene.nodes node).lastCommitted := by
    intro node
    rw [← touched]
    exact modify_field Node.lastCommitted rfl
  have childrenMTime :
      ∀ node, (middle.nodes node).childrenMTime = (scene.nodes node).childrenMTime := by
    intro node
    rw [← touched]
    exact modify_field Node.childrenMTime rfl
  have own : (middle.nodes id).lastModified = scene.global := by rw [← touched, modify_self]
  have other : ∀ node, node ≠ id →
      (middle.nodes node).lastModified = (scene.nodes node).lastModified := by
    intro node apart
    rw [← touched, modify_other _ apart]
  rw [markAsModified_eq touched, parent]
  cases present : scene.parentOf id with
  | none =>
    refine ⟨middle, rfl, global, size, children, parent, lastCommitted, own, other, ?_, ?_⟩
    · intro node pushed
      rw [Scene.Pushed, present] at pushed
      exact absurd pushed not_linked_none
    · exact fun node _ => childrenMTime node
  | some above =>
    have past : ∀ node ∈ Finset.range scene.size,
        (middle.nodes node).childrenMTime < scene.global := by
      intro node member
      rw [childrenMTime]
      exact forest.childrenMTime node (Finset.mem_range.mp member)
    have within : ∀ one other, one ∈ Finset.range scene.size → middle.parentOf one = some other →
        other ∈ Finset.range scene.size := by
      intro one other member pointer
      rw [parent] at pointer
      exact Finset.mem_range.mpr (forest.parents one other (Finset.mem_range.mp member) pointer)
    have enough : ((Finset.range scene.size).filter
        fun node => (middle.nodes node).childrenMTime < scene.global).card < middle.size + 1 := by
      rw [size]
      calc _ ≤ (Finset.range scene.size).card := Finset.card_filter_le _ _
        _ = scene.size := Finset.card_range scene.size
        _ < scene.size + 1 := Nat.lt_succ_self _
    obtain ⟨marked, ran, pushed, kept⟩ := markChain_spec (middle.size + 1)
      (Finset.mem_range.mpr (forest.parents id above inside present)) within
      (fun one member => (past one member).le)
      (fun one _ member stamped _ => absurd stamped (Nat.not_le.mpr (past one member))) enough
    have run : middle.setChildrenModified (middle.size + 1) scene.global above =
        some (middle.withChildrenMTime marked) :=
      calc _ = (markChain middle.parentOf scene.global (middle.size + 1)
            (fun node => (middle.nodes node).childrenMTime) above).map middle.withChildrenMTime :=
          setChildrenModified_eq _ _ _
        _ = _ := by rw [ran, Option.map_some]
    rw [parent] at pushed kept
    refine ⟨middle.withChildrenMTime marked, run, global, size, children, parent, lastCommitted,
      own, other, ?_, ?_⟩
    · intro node linked
      rw [Scene.Pushed, present] at linked
      exact pushed node linked
    · intro node apart
      rw [Scene.Pushed, present] at apart
      exact (kept node apart).trans (childrenMTime node)

theorem markAsModified_root (root : (scene.nodes id).parent = none) :
    scene.markAsModified id = some (({ scene with global := scene.global + 1 } : Scene V).modify id
      ({ · with lastModified := scene.global })) := by
  have up : ((({ scene with global := scene.global + 1 } : Scene V).modify id
      ({ · with lastModified := scene.global })).nodes id).parent = none := by
    rw [modify_self]
    exact root
  unfold Scene.markAsModified Scene.timeStamp
  dsimp only
  rw [up]

/-- Modifications depend only on what the skeleton of a scene keeps: everything
but names and values. -/
def Scene.skeleton (scene : Scene V) : Scene Unit :=
  { scene with nodes := fun id => { scene.nodes id with name := "", value := none } }

theorem forest_skeleton : scene.Forest ↔ scene.skeleton.Forest :=
  ⟨fun forest => ⟨forest.links, forest.inside, forest.parents, forest.acyclic, forest.lastModified,
      forest.childrenMTime, forest.lastCommitted, forest.distinct⟩,
    fun forest => ⟨forest.links, forest.inside, forest.parents, forest.acyclic, forest.lastModified,
      forest.childrenMTime, forest.lastCommitted, forest.distinct⟩⟩

theorem modified_skeleton : scene.Modified id next ↔ scene.skeleton.Modified id next.skeleton :=
  ⟨fun step => ⟨step.global, step.size, step.children, step.parent, step.lastCommitted, step.own,
      step.other, step.pushed, step.kept⟩,
    fun step => ⟨step.global, step.size, step.children, step.parent, step.lastCommitted, step.own,
      step.other, step.pushed, step.kept⟩⟩

theorem setValue_same [BEq V] {value : V} (same : (scene.nodes id).value.any (value == ·)) :
    scene.setValue id value = some scene := if_pos same

/-- Setting another value returns, and modifies the node. -/
theorem setValue_other [BEq V] (forest : scene.Forest) (inside : id < scene.size) {value : V}
    (other : ¬ (scene.nodes id).value.any (value == ·)) :
    ∃ next, scene.setValue id value = some next ∧ scene.Modified id next := by
  have same : (scene.modify id ({ · with value := some value })).skeleton = scene.skeleton := by
    unfold Scene.skeleton Scene.modify
    congr 1
    funext node
    by_cases here : node = id
    · simp [here]
    · simp [Function.update_of_ne here]
  have forestAgain := forest_skeleton.mpr (same ▸ forest_skeleton.mp forest)
  obtain ⟨next, ran, modified⟩ := markAsModified_spec forestAgain inside
  refine ⟨next, ?_, modified_skeleton.mpr ?_⟩
  · rw [Scene.setValue, if_neg other]
    exact ran
  · rw [← same]
    exact modified_skeleton.mp modified

/-! ## New nodes -/

/-- What creating a node changes: it is apart from all others and dirty. -/
structure Scene.Created (scene next : Scene V) : Prop where
  size : next.size = scene.size + 1
  global : scene.global ≤ next.global
  old : ∀ node, node ≠ scene.size → next.nodes node = scene.nodes node
  children : (next.nodes scene.size).children = []
  parent : (next.nodes scene.size).parent = none
  dirty : (next.nodes scene.size).lastCommitted < (next.nodes scene.size).lastModified
  lastModified : (next.nodes scene.size).lastModified < next.global
  childrenMTime : (next.nodes scene.size).childrenMTime < next.global

theorem created_of_store {node : Node V} {later : Nat} (global : scene.global ≤ later)
    (children : node.children = []) (parent : node.parent = none)
    (dirty : node.lastCommitted < node.lastModified) (lastModified : node.lastModified < later)
    (childrenMTime : node.childrenMTime < later) :
    scene.Created ⟨later, scene.size + 1, Function.update scene.nodes scene.size node⟩ := by
  refine ⟨rfl, global, fun other apart => Function.update_of_ne apart _ _, ?_, ?_, ?_, ?_, ?_⟩ <;>
    simpa only [Function.update_self]

theorem newNode_eq : scene.newNode = some ⟨scene.global + 4, scene.size + 1,
    Function.update scene.nodes scene.size
      ⟨"NULL", none, [], none, scene.global + 3, scene.global + 1, scene.global + 2⟩⟩ := by
  unfold Scene.newNode Scene.timeStamp
  dsimp only
  rw [markAsModified_root]
  · simp [Scene.modify]
  · simp

theorem createNode_spec [BEq V] (scene : Scene V) (name : String) (value : Option V) :
    ∃ next, scene.createNode name value = some next ∧ scene.Created next := by
  unfold Scene.createNode
  rw [newNode_eq]
  cases value with
  | none =>
    refine ⟨_, rfl, ?_⟩
    simp only [Scene.modify, Function.update_self, Function.update_idem]
    exact created_of_store (by omega) rfl rfl (by simp) (by simp) (by simp)
  | some value =>
    simp only [Scene.modify, Function.update_self, Function.update_idem, Option.bind_eq_bind,
      Option.bind_some, Scene.setValue, Option.any_none, Bool.false_eq_true, if_false]
    rw [markAsModified_root]
    · refine ⟨_, rfl, ?_⟩
      simp only [Scene.modify, Function.update_self, Function.update_idem]
      exact created_of_store (by omega) rfl rfl (by simp) (by simp) (by simp)
    · simp

/-! ## Attaching and detaching -/

theorem mem_insertChild {children : List (String × Nat)} {name : String} {child : Nat}
    (member : child ∈ (insertChild children name node).map Prod.snd) :
    child = node ∨ child ∈ children.map Prod.snd := by
  induction children with
  | nil => exact .inl (List.mem_singleton.mp member)
  | cons entry rest inductionHypothesis =>
    obtain ⟨key, old⟩ := entry
    rw [insertChild] at member
    split at member
    · obtain rfl | later := List.mem_cons.mp member
      · exact .inl rfl
      · exact .inr (List.mem_cons_of_mem _ later)
    · split at member
      · exact List.mem_cons.mp member
      · obtain rfl | later := List.mem_cons.mp member
        · exact .inr List.mem_cons_self
        · exact (inductionHypothesis later).imp_right (List.mem_cons_of_mem _)

/-- What changing the children of one node leaves alone. -/
structure Scene.Relinked (scene : Scene V) (id : Nat) (next : Scene V) : Prop where
  global : next.global = scene.global
  size : next.size = scene.size
  lastModified : ∀ node, (next.nodes node).lastModified = (scene.nodes node).lastModified
  childrenMTime : ∀ node, (next.nodes node).childrenMTime = (scene.nodes node).childrenMTime
  lastCommitted : ∀ node, (next.nodes node).lastCommitted = (scene.nodes node).lastCommitted
  elsewhere : ∀ parent, parent ≠ id → ∀ child, next.Child parent child ↔ scene.Child parent child

/-- Attaching a node: at most one edge is new, and the node points to its parent. -/
structure Scene.Attached (scene : Scene V) (id node : Nat) (next : Scene V) : Prop
    extends scene.Relinked id next where
  grown : ∀ parent child, next.Child parent child →
    scene.Child parent child ∨ (parent = id ∧ child = node)
  pointer : next.parentOf node = some id
  pointers : ∀ other, other ≠ node → next.parentOf other = scene.parentOf other

/-- Detaching a node: edges only go, and the node points to no parent. -/
structure Scene.Detached (scene : Scene V) (id node : Nat) (next : Scene V) : Prop
    extends scene.Relinked id next where
  fewer : ∀ parent child, next.Child parent child → scene.Child parent child
  pointer : next.parentOf node = none
  pointers : ∀ other, other ≠ node → next.parentOf other = scene.parentOf other

/-- Two changes that keep all stamps relink what they do to children of one node. -/
theorem relinked_of_modify {one other : Nat} {first second : Node V → Node V}
    (firstKeeps : ∀ node, (first node).lastModified = node.lastModified ∧
      (first node).childrenMTime = node.childrenMTime ∧
      (first node).lastCommitted = node.lastCommitted)
    (secondKeeps : ∀ node, (second node).lastModified = node.lastModified ∧
      (second node).childrenMTime = node.childrenMTime ∧
      (second node).lastCommitted = node.lastCommitted)
    (children : ∀ parent, parent ≠ id →
      (((scene.modify one first).modify other second).nodes parent).children =
        (scene.nodes parent).children) :
    scene.Relinked id ((scene.modify one first).modify other second) where
  global := rfl
  size := rfl
  lastModified _ := (modify_field Node.lastModified (secondKeeps _).1).trans
    (modify_field Node.lastModified (firstKeeps _).1)
  childrenMTime _ := (modify_field Node.childrenMTime (secondKeeps _).2.1).trans
    (modify_field Node.childrenMTime (firstKeeps _).2.1)
  lastCommitted _ := (modify_field Node.lastCommitted (secondKeeps _).2.2).trans
    (modify_field Node.lastCommitted (firstKeeps _).2.2)
  elsewhere parent apart child := by rw [Scene.Child, Scene.Child, children parent apart]

/-- `setChild` attaches the node. -/
theorem setChild_spec (name : String) : scene.Attached id node (scene.setChild id name node) := by
  have call : scene.setChild id name node = (scene.modify id fun self =>
      { self with children := insertChild self.children name node }).modify node
        ({ · with parent := some id }) := rfl
  have children : ∀ other, ((scene.setChild id name node).nodes other).children =
      ((scene.modify id fun self =>
        { self with children := insertChild self.children name node }).nodes other).children := by
    intro other
    rw [call]
    exact modify_field Node.children rfl
  have elsewhere : ∀ parent, parent ≠ id →
      ((scene.setChild id name node).nodes parent).children = (scene.nodes parent).children := by
    intro parent other
    rw [children, modify_other _ other]
  have relinked : scene.Relinked id (scene.setChild id name node) := by
    rw [call] at elsewhere ⊢
    exact relinked_of_modify (fun _ => ⟨rfl, rfl, rfl⟩) (fun _ => ⟨rfl, rfl, rfl⟩) elsewhere
  refine ⟨relinked, ?_, ?_, ?_⟩
  · intro parent child edge
    by_cases here : parent = id
    · rw [Scene.Child, children, here, modify_self] at edge
      obtain new | old := mem_insertChild edge
      · exact .inr ⟨here, new⟩
      · exact .inl (here ▸ old)
    · rw [Scene.Child, elsewhere parent here] at edge
      exact .inl edge
  · rw [call, Scene.parentOf, modify_self]
  · intro other apart
    rw [call, Scene.parentOf, modify_other _ apart]
    exact modify_field Node.parent rfl

theorem setParent_twice (parent : Nat) :
    (scene.setParent node parent).setParent node parent = scene.setParent node parent := by
  unfold Scene.setParent Scene.modify
  simp only [Function.update_self, Function.update_idem]

theorem add_spec (name : String) : scene.Attached id node (scene.add id node name) := by
  have same : scene.add id node name = scene.setChild id name node := setParent_twice id
  rw [same]
  exact setChild_spec name

theorem child?_mem {self : Node V} {name key : String} {child : Nat}
    (found : self.child? name = some (key, child)) : (key, child) ∈ self.children := by
  unfold Node.child? at found
  obtain here | ⟨-, here⟩ := Option.or_eq_some_iff.mp found
  · exact List.mem_of_find?_eq_some here
  · exact List.mem_of_find?_eq_some here

/-- `remove` detaches the child it finds; the entry that it erases is that of the
given name. -/
theorem remove_spec {name key : String} {child : Nat}
    (found : (scene.nodes id).child? name = some (key, child)) :
    scene.Detached id child (scene.remove id name) ∧
      ∀ other, (scene.remove id name).Child id other ↔
        ∃ key, key ≠ name ∧ (key, other) ∈ (scene.nodes id).children := by
  have call : scene.remove id name = (scene.modify child ({ · with parent := none })).modify id
      fun self => { self with children := eraseChild self.children name } := by
    rw [Scene.remove, found]
  rw [call]
  have before : ∀ other, ((scene.modify child ({ · with parent := none })).nodes other).children =
      (scene.nodes other).children := fun other => modify_field Node.children rfl
  have elsewhere : ∀ parent, parent ≠ id →
      (((scene.modify child ({ · with parent := none })).modify id fun self =>
        { self with children := eraseChild self.children name }).nodes parent).children =
          (scene.nodes parent).children := by
    intro parent apart
    rw [modify_other _ apart, before]
  have here : ∀ other, ((scene.modify child ({ · with parent := none })).modify id fun self =>
      { self with children := eraseChild self.children name }).Child id other ↔
        ∃ key, key ≠ name ∧ (key, other) ∈ (scene.nodes id).children := by
    intro other
    rw [Scene.Child, modify_self, before, eraseChild]
    simp [and_comm]
  refine ⟨⟨relinked_of_modify (fun _ => ⟨rfl, rfl, rfl⟩) (fun _ => ⟨rfl, rfl, rfl⟩) elsewhere,
    ?_, ?_, ?_⟩, here⟩
  · intro parent other edge
    by_cases same : parent = id
    · rw [same] at edge ⊢
      obtain ⟨key, -, member⟩ := (here other).mp edge
      exact List.mem_map.mpr ⟨(key, other), member, rfl⟩
    · rw [Scene.Child, elsewhere parent same] at edge
      exact edge
  · calc _ = (scene.modify child ({ · with parent := none })).parentOf child :=
        modify_field Node.parent rfl
      _ = none := by rw [Scene.parentOf, modify_self]
  · intro other apart
    calc _ = (scene.modify child ({ · with parent := none })).parentOf other :=
        modify_field Node.parent rfl
      _ = _ := by rw [Scene.parentOf, modify_other _ apart, Scene.parentOf]

theorem remove_none {name : String} (found : (scene.nodes id).child? name = none) :
    scene.remove id name = scene := by
  rw [Scene.remove, found]

/-! ## Forests stay forests -/

theorem child_eq (children : ∀ node, (next.nodes node).children = (scene.nodes node).children) :
    next.Child = scene.Child := by
  funext parent child
  rw [Scene.Child, Scene.Child, children]

/-- Modifications keep the structure, and their stamp is the latest. -/
theorem forest_modified (forest : scene.Forest) (modified : scene.Modified id next) :
    next.Forest := by
  have edges : next.Child = scene.Child := child_eq modified.children
  refine ⟨?_, ?_, ?_, ?_, ?_, ?_, ?_, ?_⟩
  · rw [edges, modified.parent]
    exact forest.links
  · rw [edges, modified.size]
    exact forest.inside
  · rw [modified.size, modified.parent]
    exact forest.parents
  · rw [edges]
    exact forest.acyclic
  · intro node inside
    rw [modified.global]
    by_cases same : node = id
    · rw [same, modified.own]
      exact Nat.lt_succ_self _
    · rw [modified.other node same]
      exact Nat.lt_succ_of_lt (forest.lastModified node (modified.size ▸ inside))
  · intro node inside
    rw [modified.global]
    by_cases pushed : scene.Pushed id node
    · rw [modified.pushed node pushed]
      exact Nat.lt_succ_self _
    · rw [modified.kept node pushed]
      exact Nat.lt_succ_of_lt (forest.childrenMTime node (modified.size ▸ inside))
  · intro node inside
    rw [modified.global, modified.lastCommitted]
    exact Nat.lt_succ_of_lt (forest.lastCommitted node (modified.size ▸ inside))
  · intro node inside
    have within : node < scene.size := modified.size ▸ inside
    rw [modified.lastCommitted]
    by_cases same : node = id
    · rw [same, modified.own]
      exact (forest.lastCommitted id (same ▸ within)).ne'
    · rw [modified.other node same]
      exact forest.distinct node within

theorem created_child (forest : scene.Forest) (created : scene.Created next) :
    next.Child = scene.Child := by
  funext parent child
  by_cases same : parent = scene.size
  · apply propext
    constructor
    · intro edge
      rw [Scene.Child, same, created.children] at edge
      cases edge
    · intro edge
      exact absurd (same ▸ (forest.inside parent child edge).1) (Nat.lt_irrefl _)
  · rw [Scene.Child, Scene.Child, created.old parent same]

/-- A new node stands alone. -/
theorem forest_created (forest : scene.Forest) (created : scene.Created next) : next.Forest := by
  have edges : next.Child = scene.Child := created_child forest created
  have old : ∀ node, node < next.size → node ≠ scene.size → node < scene.size := by
    intro node inside other
    rw [created.size] at inside
    omega
  refine ⟨?_, ?_, ?_, ?_, ?_, ?_, ?_, ?_⟩
  · intro parent child edge
    rw [edges] at edge
    rw [Scene.parentOf, created.old child (forest.inside parent child edge).2.ne]
    exact forest.links parent child edge
  · intro parent child edge
    rw [edges] at edge
    obtain ⟨parentInside, childInside⟩ := forest.inside parent child edge
    rw [created.size]
    exact ⟨Nat.lt_succ_of_lt parentInside, Nat.lt_succ_of_lt childInside⟩
  · intro node parent inside pointer
    by_cases same : node = scene.size
    · rw [Scene.parentOf, same, created.parent] at pointer
      cases pointer
    · rw [Scene.parentOf, created.old node same] at pointer
      rw [created.size]
      exact Nat.lt_succ_of_lt (forest.parents node parent (old node inside same) pointer)
  · rw [edges]
    exact forest.acyclic
  · intro node inside
    by_cases same : node = scene.size
    · rw [same]
      exact created.lastModified
    · rw [created.old node same]
      exact (forest.lastModified node (old node inside same)).trans_le created.global
  · intro node inside
    by_cases same : node = scene.size
    · rw [same]
      exact created.childrenMTime
    · rw [created.old node same]
      exact (forest.childrenMTime node (old node inside same)).trans_le created.global
  · intro node inside
    by_cases same : node = scene.size
    · rw [same]
      exact created.dirty.trans created.lastModified
    · rw [created.old node same]
      exact (forest.lastCommitted node (old node inside same)).trans_le created.global
  · intro node inside
    by_cases same : node = scene.size
    · rw [same]
      exact created.dirty.ne'
    · rw [created.old node same]
      exact forest.distinct node (old node inside same)

/-- Relinking leaves the stamps, so only the structure is in question. -/
theorem forest_relinked (forest : scene.Forest) (relinked : scene.Relinked id next)
    (links : ∀ parent child, next.Child parent child → next.parentOf child = some parent)
    (inside : ∀ parent child, next.Child parent child → parent < next.size ∧ child < next.size)
    (parents : ∀ node parent, node < next.size → next.parentOf node = some parent →
      parent < next.size)
    (acyclic : Acyclic next.Child) : next.Forest := by
  refine ⟨links, inside, parents, acyclic, ?_, ?_, ?_, ?_⟩ <;> intro node within <;>
    rw [relinked.size] at within
  · rw [relinked.global, relinked.lastModified]
    exact forest.lastModified node within
  · rw [relinked.global, relinked.childrenMTime]
    exact forest.childrenMTime node within
  · rw [relinked.global, relinked.lastCommitted]
    exact forest.lastCommitted node within
  · rw [relinked.lastModified, relinked.lastCommitted]
    exact forest.distinct node within

/-- Attaching a node that is below no other parent and not above its new one. -/
theorem forest_attached (forest : scene.Forest) (attached : scene.Attached id node next)
    (inside : id < scene.size ∧ node < scene.size)
    (only : ∀ parent, scene.Child parent node → parent = id) (apart : ¬ scene.Below node id) :
    next.Forest := by
  refine forest_relinked forest attached.toRelinked ?_ ?_ ?_
    (acyclic_grown attached.grown forest.acyclic apart)
  · intro parent child edge
    by_cases same : child = node
    · have owner : parent = id := by
        obtain before | ⟨here, -⟩ := attached.grown parent child edge
        · exact only parent (same ▸ before)
        · exact here
      rw [same, owner]
      exact attached.pointer
    · rw [attached.pointers child same]
      exact forest.links parent child
        ((attached.grown parent child edge).resolve_right fun new => same new.2)
  · intro parent child edge
    rw [attached.size]
    obtain before | ⟨rfl, rfl⟩ := attached.grown parent child edge
    · exact forest.inside parent child before
    · exact inside
  · intro other parent within pointer
    rw [attached.size] at within ⊢
    by_cases same : other = node
    · rw [same, attached.pointer] at pointer
      exact Option.some.inj pointer ▸ inside.1
    · rw [attached.pointers other same] at pointer
      exact forest.parents other parent within pointer

/-- Detaching a child from the map it was in, all of it. -/
theorem forest_detached (forest : scene.Forest) (detached : scene.Detached id node next)
    (before : scene.Child id node) (gone : ¬ next.Child id node) : next.Forest := by
  refine forest_relinked forest detached.toRelinked ?_ ?_ ?_
    (acyclic_of_subset forest.acyclic detached.fewer)
  · intro parent child edge
    have was := detached.fewer parent child edge
    by_cases same : child = node
    · have owner : some parent = some id := by
        rw [← forest.links id node before, ← forest.links parent child was, same]
      exact absurd (Option.some.inj owner ▸ same ▸ edge) gone
    · rw [detached.pointers child same]
      exact forest.links parent child was
  · intro parent child edge
    rw [detached.size]
    exact forest.inside parent child (detached.fewer parent child edge)
  · intro other parent within pointer
    rw [detached.size] at within ⊢
    by_cases same : other = node
    · rw [same, detached.pointer] at pointer
      cases pointer
    · rw [detached.pointers other same] at pointer
      exact forest.parents other parent within pointer

end Ospray.Sg
