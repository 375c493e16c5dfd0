import Ospray.Sg.Ownership

/-!
# Relinking

Actions create a node, write an entry of a map and set the pointer of its node, or erase an
entry and clear a pointer. All else about links stays as it is, also when a modification is
pushed upwards. Every action on living nodes returns.
-/

namespace Ospray.Sg

open Library.Ownership Library.Runs

variable {V : Type}

/-! ## Maps of children -/

/-- The keys of a map are in order. -/
abbrev Sorted (children : List (String × Nat)) : Prop := children.Pairwise fun first second => first.1 < second.1

section Maps

variable {children : List (String × Nat)} {name : String} {node : Nat} {entry : String × Nat}

/-- Inserting replaces the entry with the name. -/
theorem mem_insertChild_iff (sorted : Sorted children) :
    entry ∈ insertChild children name node ↔ entry = (name, node) ∨ entry ∈ children ∧ entry.1 ≠ name := by
  induction children with
  | nil => simp [insertChild]
  | cons first rest inductionHypothesis =>
    obtain ⟨key, child⟩ := first
    obtain ⟨before, sorted⟩ := List.pairwise_cons.mp sorted
    rw [insertChild]
    split_ifs with same less
    · subst same
      have others : entry ∈ rest → entry.1 ≠ name := fun later => (before entry later).ne'
      simp only [List.mem_cons]
      constructor
      · rintro (rfl | later)
        · exact .inl rfl
        · exact .inr ⟨.inr later, others later⟩
      · rintro (rfl | ⟨rfl | later, other⟩)
        · exact .inl rfl
        · exact absurd rfl other
        · exact .inr later
    · have others : entry ∈ (key, child) :: rest → entry.1 ≠ name := by
        intro member
        obtain rfl | later := List.mem_cons.mp member
        · exact less.ne'
        · exact (less.trans (before entry later)).ne'
      rw [List.mem_cons]
      exact or_congr_right ⟨fun member => ⟨member, others member⟩, fun kept => kept.1⟩
    · rw [List.mem_cons, inductionHypothesis sorted, List.mem_cons]
      constructor
      · rintro (rfl | rfl | ⟨later, other⟩)
        · exact .inr ⟨.inl rfl, fun equal => same equal.symm⟩
        · exact .inl rfl
        · exact .inr ⟨.inr later, other⟩
      · rintro (rfl | ⟨rfl | later, other⟩)
        · exact .inr (.inl rfl)
        · exact .inl rfl
        · exact .inr (.inr ⟨later, other⟩)

theorem sorted_insertChild (sorted : Sorted children) : Sorted (insertChild children name node) := by
  induction children with
  | nil => exact List.pairwise_singleton _ _
  | cons first rest inductionHypothesis =>
    obtain ⟨key, child⟩ := first
    obtain ⟨before, later⟩ := List.pairwise_cons.mp sorted
    rw [insertChild]
    split_ifs with same less
    · exact List.pairwise_cons.mpr ⟨before, later⟩
    · refine List.pairwise_cons.mpr ⟨fun entry member => ?_, sorted⟩
      obtain rfl | after := List.mem_cons.mp member
      · exact less
      · exact less.trans (before entry after)
    · refine List.pairwise_cons.mpr ⟨fun entry member => ?_, inductionHypothesis later⟩
      obtain rfl | ⟨after, -⟩ := (mem_insertChild_iff later).mp member
      · exact lt_of_le_of_ne (not_lt.mp less) fun equal => same equal.symm
      · exact before entry after

theorem sorted_eraseChild (sorted : Sorted children) : Sorted (eraseChild children name) :=
  sorted.sublist List.filter_sublist

theorem eq_of_key (sorted : Sorted children) {one other : Nat} (first : (name, one) ∈ children)
    (second : (name, other) ∈ children) : one = other := by
  induction children with
  | nil => cases first
  | cons head rest inductionHypothesis =>
    obtain ⟨before, later⟩ := List.pairwise_cons.mp sorted
    obtain rfl | firstLater := List.mem_cons.mp first
    · obtain same | secondLater := List.mem_cons.mp second
      · exact (congrArg Prod.snd same).symm
      · exact absurd (before _ secondLater) (lt_irrefl _)
    · obtain rfl | secondLater := List.mem_cons.mp second
      · exact absurd (before _ firstLater) (lt_irrefl _)
      · exact inductionHypothesis later firstLater secondLater

end Maps

/-! ## Scenes that are relinked -/

section Scenes

variable {scene : Scene V} {id node other : Nat} {name : String}

/-- `setChild` inserts into one map, -/
theorem setChild_children : ((scene.setChild id name node).nodes other).children =
    if other = id then insertChild (scene.nodes id).children name node else (scene.nodes other).children := by
  have call : scene.setChild id name node = (scene.modify id fun self =>
      { self with children := insertChild self.children name node }).modify node
        ({ · with parent := some id }) := rfl
  rw [call, modify_field Node.children rfl]
  split_ifs with here
  · rw [here, modify_self]
  · rw [modify_other _ here]

/-- and sets one pointer. -/
theorem setChild_parentOf : (scene.setChild id name node).parentOf other =
    if other = node then some id else scene.parentOf other := by
  have attached := @setChild_spec _ scene id node name
  split_ifs with here
  · rw [here, attached.pointer]
  · exact attached.pointers other here

theorem add_eq : scene.add id node name = scene.setChild id name node := setParent_twice id

theorem remove_children {entry : String × Nat} (found : (scene.nodes id).child? name = some entry) :
    ((scene.remove id name).nodes other).children =
      if other = id then eraseChild (scene.nodes id).children name else (scene.nodes other).children := by
  have before : ∀ other, ((scene.modify entry.2 ({ · with parent := none })).nodes other).children =
      (scene.nodes other).children := fun other => modify_field Node.children rfl
  rw [Scene.remove, found]
  split_ifs with here
  · rw [here, modify_self, before]
  · rw [modify_other _ here, before]

/-- Two scenes have the same maps and pointers. -/
structure SameLinks (scene next : Scene V) : Prop where
  size : next.size = scene.size
  children : ∀ other, (next.nodes other).children = (scene.nodes other).children
  parents : next.parentOf = scene.parentOf

theorem SameLinks.trans {last : Scene V} {next : Scene V} (first : SameLinks scene next) (second : SameLinks next last) :
    SameLinks scene last where
  size := second.size.trans first.size
  children other := (second.children other).trans (first.children other)
  parents := second.parents.trans first.parents

theorem sameLinks_modify {change : Node V → Node V} (children : ∀ node, (change node).children = node.children)
    (parent : ∀ node, (change node).parent = node.parent) : SameLinks scene (scene.modify id change) where
  size := rfl
  children _ := modify_field Node.children (children _)
  parents := funext fun _ => modify_field Node.parent (parent _)

variable {next : Scene V}

/-- `setChildrenModified` changes no links. -/
theorem setChildrenModified_links {bound t : Nat} (ran : scene.setChildrenModified bound t id = some next) :
    SameLinks scene next := by
  induction bound generalizing scene id with
  | zero => cases ran
  | succ bound inductionHypothesis =>
    have stamped : SameLinks scene (scene.modify id ({ · with childrenMTime := t })) :=
      sameLinks_modify (fun _ => rfl) fun _ => rfl
    rw [Scene.setChildrenModified] at ran
    split_ifs at ran with older
    · dsimp only at ran
      split at ran
      · exact stamped.trans (inductionHypothesis ran)
      · obtain rfl := Option.some.inj ran
        exact stamped
    · obtain rfl := Option.some.inj ran
      exact ⟨rfl, fun _ => rfl, rfl⟩

/-- Nor does `markAsModified`, -/
theorem markAsModified_links (ran : scene.markAsModified id = some next) : SameLinks scene next := by
  have stamped : SameLinks scene (({ scene with global := scene.global + 1 } : Scene V).modify id
      ({ · with lastModified := scene.global })) := by
    have drawn : SameLinks scene ({ scene with global := scene.global + 1 } : Scene V) := ⟨rfl, fun _ => rfl, rfl⟩
    exact drawn.trans (sameLinks_modify (fun _ => rfl) fun _ => rfl)
  unfold Scene.markAsModified Scene.timeStamp at ran
  dsimp only at ran
  split at ran
  · exact stamped.trans (setChildrenModified_links ran)
  · obtain rfl := Option.some.inj ran
    exact stamped

/-- or `setValue`. -/
theorem setValue_links [BEq V] {value : V} (ran : scene.setValue id value = some next) : SameLinks scene next := by
  rw [Scene.setValue] at ran
  split_ifs at ran with same
  · obtain rfl := Option.some.inj ran
    exact ⟨rfl, fun _ => rfl, rfl⟩
  · have stored : SameLinks scene (scene.modify id ({ · with value := some value })) :=
      sameLinks_modify (fun _ => rfl) fun _ => rfl
    exact stored.trans (markAsModified_links ran)

section Returns

variable {nodes : List Nat} (before : ∀ one ∈ nodes, one < scene.size)
  (within : ∀ one ∈ nodes, ∀ parent, scene.parentOf one = some parent → parent ∈ nodes)
include before within

/-- `setChildrenModified` returns where pointers stay among some nodes. -/
theorem setChildrenModified_isSome {t : Nat} (inside : id ∈ nodes) :
    ∃ next, scene.setChildrenModified (scene.size + 1) t id = some next := by
  have cells : ∀ one, one ∈ (Finset.range scene.size).filter (· ∈ nodes) ↔ one ∈ nodes := by
    intro one
    rw [Finset.mem_filter, Finset.mem_range]
    exact and_iff_right_of_imp (before one)
  have enough : (((Finset.range scene.size).filter (· ∈ nodes)).filter
      fun node => (scene.nodes node).childrenMTime < t).card < scene.size + 1 := by
    calc _ ≤ ((Finset.range scene.size).filter (· ∈ nodes)).card := Finset.card_filter_le _ _
      _ ≤ (Finset.range scene.size).card := Finset.card_filter_le _ _
      _ = scene.size := Finset.card_range scene.size
      _ < scene.size + 1 := Nat.lt_succ_self _
  have marked := Library.Chains.markChain_isSome (scene.size + 1) ((cells id).mpr inside)
    (fun one other member pointer => (cells other).mpr (within one ((cells one).mp member) other pointer)) enough
  obtain ⟨marks, ran⟩ := Option.isSome_iff_exists.mp marked
  refine ⟨scene.withChildrenMTime marks, ?_⟩
  calc _ = (Library.Chains.markChain scene.parentOf t (scene.size + 1)
        (fun node => (scene.nodes node).childrenMTime) id).map scene.withChildrenMTime :=
      setChildrenModified_eq _ _ _
    _ = _ := by rw [ran, Option.map_some]

/-- So does `markAsModified`, -/
theorem markAsModified_isSome (inside : id ∈ nodes) : ∃ next, scene.markAsModified id = some next := by
  generalize touched : ({ scene with global := scene.global + 1 } : Scene V).modify id
    ({ · with lastModified := scene.global }) = middle
  have links : SameLinks scene middle := by
    have drawn : SameLinks scene ({ scene with global := scene.global + 1 } : Scene V) := ⟨rfl, fun _ => rfl, rfl⟩
    exact touched ▸ drawn.trans (sameLinks_modify (fun _ => rfl) fun _ => rfl)
  rw [markAsModified_eq touched]
  cases pointer : middle.parentOf id with
  | none => exact ⟨middle, rfl⟩
  | some parent =>
    rw [links.parents] at pointer
    exact setChildrenModified_isSome (links.size.symm ▸ before) (links.parents.symm ▸ within)
      (within id inside parent pointer)

/-- and `setValue`. -/
theorem setValue_isSome [BEq V] {value : V} (inside : id ∈ nodes) :
    ∃ next, scene.setValue id value = some next := by
  have stored : SameLinks scene (scene.modify id ({ · with value := some value })) :=
    sameLinks_modify (fun _ => rfl) fun _ => rfl
  rw [Scene.setValue]
  split_ifs with same
  · exact ⟨scene, rfl⟩
  · exact markAsModified_isSome before (stored.parents.symm ▸ within) inside

end Returns

end Scenes

theorem createNode_name [BEq V] {scene next : Scene V} {name : String} {value : Option V}
    (ran : scene.createNode name value = some next) : (next.nodes scene.size).name = name := by
  unfold Scene.createNode at ran
  rw [newNode_eq] at ran
  cases value with
  | none =>
    obtain rfl := Option.some.inj ran
    simp only [Scene.modify, Function.update_self]
  | some value =>
    simp only [Scene.modify, Function.update_self, Function.update_idem, Option.bind_eq_bind,
      Option.bind_some, Scene.setValue, Option.any_none, Bool.false_eq_true, if_false] at ran
    rw [markAsModified_root (by simp)] at ran
    obtain rfl := Option.some.inj ran
    simp only [Scene.modify, Function.update_self]

/-! ## What actions do to links -/

namespace Heap

variable {heap next : Heap V} {action : Action V} {id : Nat}

/-- The node that an action creates. -/
def creates (heap : Heap V) : Action V → Option Nat
  | .createNode _ _ => some heap.scene.size
  | .createChild _ _ _ => some heap.scene.size
  | .createChildWithValue id name _ =>
    if ((heap.scene.nodes id).child? name).isSome then none else some heap.scene.size
  | _ => none

/-- The map, the name and the node of the entry that an action writes. -/
def attaches (heap : Heap V) : Action V → Option (Nat × String × Nat)
  | .createChild id name _ => some (id, name, heap.scene.size)
  | .createChildWithValue id name _ =>
    if ((heap.scene.nodes id).child? name).isSome then none else some (id, name, heap.scene.size)
  | .add id node => some (id, (heap.scene.nodes node).name, node)
  | .addAs id node name => some (id, name, node)
  | .setChild id name node => some (id, name, node)
  | _ => none

/-- The node whose pointer an action clears. -/
def detaches (heap : Heap V) : Action V → Option Nat
  | .remove id name => ((heap.scene.nodes id).child? name).map Prod.snd
  | _ => none

/-- An action overwrites or erases the entry under a name. -/
def Takes (heap : Heap V) (action : Action V) (id : Nat) (name : String) : Prop :=
  (∃ node, heap.attaches action = some (id, name, node)) ∨
    ∃ entry, action = .remove id name ∧ (heap.scene.nodes id).child? name = some entry

/-- The application has a pointer to a node after an action. -/
def HeldAfter (heap : Heap V) (action : Action V) (id : Nat) : Prop :=
  (action = .hold id ∨ 0 < heap.handles id) ∧ (action = .drop id → 1 < heap.handles id)

/-- A node has another one in its map after an action. -/
def OwnsAfter (heap : Heap V) (action : Action V) (id child : Nat) : Prop :=
  (∃ name, heap.attaches action = some (id, name, child)) ∨
    ∃ name, (name, child) ∈ (heap.scene.nodes id).children ∧ ¬heap.Takes action id name

/-- A node loses its last owner by an action. -/
def Loses (heap : Heap V) (action : Action V) : Nat → Prop :=
  Dies (heap.HeldAfter action) (heap.OwnsAfter action) (· ∈ heap.live)

/-- The parent pointer of a node after an action. -/
def pointsAfter (heap : Heap V) (action : Action V) (id : Nat) : Option Nat :=
  match heap.attaches action with
  | some (parent, _, node) => if id = node then some parent else heap.scene.parentOf id
  | none => if heap.detaches action = some id then none else heap.scene.parentOf id

/-- What an action does, before nodes are destroyed. -/
structure Relinks (heap : Heap V) (action : Action V) (next : Heap V) : Prop where
  size : heap.scene.size ≤ next.scene.size
  live : ∀ id, id ∈ next.live ↔ id ∈ heap.live ∨ heap.creates action = some id
  held : ∀ id ∈ heap.live, 0 < next.handles id ↔ heap.HeldAfter action id
  owns : ∀ id ∈ heap.live, ∀ child, next.scene.Child id child ↔ heap.OwnsAfter action id child
  points : ∀ id ∈ heap.live, next.scene.parentOf id = heap.pointsAfter action id
  sorted : ∀ id ∈ next.live, Sorted (next.scene.nodes id).children
  created : ∀ id, heap.creates action = some id → id ∉ heap.live ∧ id < next.scene.size ∧
    (next.scene.nodes id).children = [] ∧ next.scene.parentOf id = (heap.attaches action).map Prod.fst ∧
    (heap.attaches action ≠ none → next.handles id = 0)

/-- The maps are in order and hold living nodes, and no node is without an owner. -/
structure Sound (heap : Heap V) : Prop where
  inside : ∀ id ∈ heap.live, id < heap.scene.size
  closed : ∀ id ∈ heap.live, ∀ child, heap.scene.Child id child → child ∈ heap.live
  sorted : ∀ id ∈ heap.live, Sorted (heap.scene.nodes id).children
  rest : ∀ id, ¬Dies (0 < heap.handles ·) heap.scene.Child (· ∈ heap.live) id

theorem child_iff {scene : Scene V} {child : Nat} :
    scene.Child id child ↔ ∃ name, (name, child) ∈ (scene.nodes id).children := by
  rw [Scene.Child, List.mem_map]
  constructor
  · rintro ⟨⟨name, _⟩, member, rfl⟩
    exact ⟨name, member⟩
  · rintro ⟨name, member⟩
    exact ⟨_, member, rfl⟩

/-- After `setChild` a map has the new entry and those under other names. -/
theorem child_setChild {scene : Scene V} {parent node child : Nat} {name : String}
    (sorted : Sorted (scene.nodes parent).children) : (scene.setChild parent name node).Child id child ↔
      (id = parent ∧ child = node) ∨
        ∃ key, (key, child) ∈ (scene.nodes id).children ∧ ¬(id = parent ∧ key = name) := by
  rw [child_iff, setChild_children]
  by_cases here : id = parent
  · rw [if_pos here, here]
    simp only [mem_insertChild_iff sorted, Prod.mk.injEq, true_and, ne_eq]
    constructor
    · rintro ⟨key, ⟨-, same⟩ | kept⟩
      · exact .inl same
      · exact .inr ⟨key, kept⟩
    · rintro (same | ⟨key, kept⟩)
      · exact ⟨name, .inl ⟨rfl, same⟩⟩
      · exact ⟨key, .inr kept⟩
  · rw [if_neg here]
    simp only [here, false_and, false_or, not_false_eq_true, and_true]

theorem child_remove {scene : Scene V} {parent child : Nat} {name : String} {entry : String × Nat}
    (found : (scene.nodes parent).child? name = some entry) : (scene.remove parent name).Child id child ↔
      ∃ key, (key, child) ∈ (scene.nodes id).children ∧ ¬(id = parent ∧ key = name) := by
  rw [child_iff, remove_children found]
  by_cases here : id = parent
  · rw [if_pos here, here]
    simp only [eraseChild, List.mem_filter, decide_eq_true_eq, ne_eq, true_and]
  · rw [if_neg here]
    simp only [here, false_and, not_false_eq_true, and_true]

theorem takes_iff {parent node : Nat} {name key : String} (attaches : heap.attaches action = some (parent, name, node)) :
    heap.Takes action id key ↔ id = parent ∧ key = name := by
  constructor
  · rintro (⟨other, written⟩ | ⟨entry, rfl, -⟩)
    · obtain ⟨rfl, rfl, -⟩ := Option.some.inj (attaches.symm.trans written)
      exact ⟨rfl, rfl⟩
    · cases attaches
  · rintro ⟨rfl, rfl⟩
    exact .inl ⟨node, attaches⟩

theorem not_takes {key : String} (attaches : heap.attaches action = none) (detaches : heap.detaches action = none) :
    ¬heap.Takes action id key := by
  rintro (⟨other, written⟩ | ⟨entry, rfl, found⟩)
  · exact absurd (attaches.symm.trans written) (Option.some_ne_none _).symm
  · rw [Heap.detaches, found] at detaches
    cases detaches

theorem relinks_same (sound : heap.Sound) (attaches : heap.attaches action = none)
    (detaches : heap.detaches action = none) (creates : heap.creates action = none) (live : next.live = heap.live)
    (links : SameLinks heap.scene next.scene)
    (held : ∀ id ∈ heap.live, 0 < next.handles id ↔ heap.HeldAfter action id) : heap.Relinks action next where
  size := links.size.ge
  live id := by rw [live, creates]; exact (or_iff_left (Option.some_ne_none _).symm).symm
  held := held
  owns id _ child := by
    rw [child_iff, links.children, OwnsAfter, attaches]
    have kept := fun name => @not_takes _ heap action id name attaches detaches
    simp only [kept, not_false_eq_true, and_true, reduceCtorEq, exists_const, false_or]
  points id _ := by
    rw [links.parents, pointsAfter, attaches, detaches]
    exact (if_neg (Option.some_ne_none _).symm).symm
  sorted id member := by rw [links.children]; exact sound.sorted id (live ▸ member)
  created id creation := absurd (creates.symm.trans creation) (Option.some_ne_none _).symm

/-- Actions that write an entry for a node there is. -/
theorem relinks_attach (sound : heap.Sound) {parent node : Nat} {name : String}
    (attaches : heap.attaches action = some (parent, name, node)) (creates : heap.creates action = none)
    (inside : parent ∈ heap.live) (held : ∀ id, heap.HeldAfter action id ↔ 0 < heap.handles id) :
    heap.Relinks action { heap with scene := heap.scene.setChild parent name node } where
  size := le_rfl
  live id := by rw [creates]; exact (or_iff_left (Option.some_ne_none _).symm).symm
  held id _ := (held id).symm
  owns id _ child := by
    rw [child_setChild (sound.sorted parent inside), OwnsAfter]
    simp only [takes_iff attaches, attaches, Option.some.injEq, Prod.mk.injEq, exists_and_left, exists_eq_left',
      eq_comm]
  points id _ := by rw [pointsAfter, attaches]; exact setChild_parentOf
  sorted id member := by
    rw [setChild_children]
    split_ifs with here
    · exact sorted_insertChild (sound.sorted parent inside)
    · exact sound.sorted id member
  created id creation := absurd (creates.symm.trans creation) (Option.some_ne_none _).symm

/-- An action that creates a node apart from the others. -/
theorem relinks_create (sound : heap.Sound) {created : Scene V} (spec : heap.scene.Created created)
    (attaches : heap.attaches action = none) (detaches : heap.detaches action = none)
    (creates : heap.creates action = some heap.scene.size) (held : ∀ id, heap.HeldAfter action id ↔ 0 < heap.handles id)
    (count : Nat) : heap.Relinks action
      ⟨created, heap.scene.size :: heap.live, Function.update heap.handles heap.scene.size count⟩ where
  size := spec.size.symm ▸ Nat.le_succ _
  live id := by rw [List.mem_cons, creates, Option.some.injEq, or_comm, eq_comm]
  held id member := by
    dsimp only
    rw [held, Function.update_of_ne (sound.inside id member).ne]
  owns id member child := by
    have kept := fun name => @not_takes _ heap action id name attaches detaches
    rw [child_iff, spec.old id (sound.inside id member).ne, OwnsAfter, attaches]
    simp only [kept, not_false_eq_true, and_true, reduceCtorEq, exists_const, false_or]
  points id member := by
    rw [pointsAfter, attaches, detaches, Scene.parentOf, spec.old id (sound.inside id member).ne]
    exact (if_neg (Option.some_ne_none _).symm).symm
  sorted id member := by
    obtain rfl | member := List.mem_cons.mp member
    · rw [spec.children]
      exact List.Pairwise.nil
    · rw [spec.old id (sound.inside id member).ne]
      exact sound.sorted id member
  created id creation := by
    obtain rfl := Option.some.inj (creates.symm.trans creation)
    refine ⟨fun member => (sound.inside _ member).ne rfl, spec.size.symm ▸ Nat.lt_succ_self _, spec.children, ?_,
      fun written => absurd attaches written⟩
    rw [attaches]
    exact spec.parent

/-- An action that creates a node and writes an entry for it. -/
theorem relinks_createChild (sound : heap.Sound) {created : Scene V} (spec : heap.scene.Created created)
    {parent : Nat} {name : String} (attaches : heap.attaches action = some (parent, name, heap.scene.size))
    (creates : heap.creates action = some heap.scene.size) (inside : parent ∈ heap.live)
    (held : ∀ id, heap.HeldAfter action id ↔ 0 < heap.handles id) : heap.Relinks action
      ⟨created.setChild parent name heap.scene.size, heap.scene.size :: heap.live,
        Function.update heap.handles heap.scene.size 0⟩ := by
  have other : ∀ id ∈ heap.live, id ≠ heap.scene.size := fun id member => (sound.inside id member).ne
  have sorted : Sorted (created.nodes parent).children := by
    rw [spec.old parent (other parent inside)]
    exact sound.sorted parent inside
  refine ⟨spec.size.symm ▸ Nat.le_succ _, fun id => ?_, fun id member => ?_, fun id member child => ?_,
    fun id member => ?_, fun id member => ?_, fun id creation => ?_⟩
  · rw [List.mem_cons, creates, Option.some.injEq, or_comm, eq_comm]
  · dsimp only
    rw [held, Function.update_of_ne (other id member)]
  · rw [child_setChild sorted, OwnsAfter, spec.old id (other id member)]
    simp only [takes_iff attaches, attaches, Option.some.injEq, Prod.mk.injEq, exists_and_left, exists_eq_left',
      eq_comm]
  · rw [pointsAfter, attaches, setChild_parentOf, Scene.parentOf, spec.old id (other id member)]
    rfl
  · rw [setChild_children]
    split_ifs with here
    · exact sorted_insertChild sorted
    · obtain rfl | member := List.mem_cons.mp member
      · rw [spec.children]
        exact List.Pairwise.nil
      · rw [spec.old id (other id member)]
        exact sound.sorted id member
  · obtain rfl := Option.some.inj (creates.symm.trans creation)
    refine ⟨fun member => other _ member rfl, spec.size.symm ▸ Nat.lt_succ_self _, ?_, ?_,
      fun _ => Function.update_self _ _ _⟩
    · rw [setChild_children, if_neg (other parent inside).symm, spec.children]
    · rw [attaches, setChild_parentOf, if_pos rfl]
      rfl

/-- `remove`, where it finds a child. -/
theorem relinks_remove (sound : heap.Sound) {parent : Nat} {name : String} {entry : String × Nat}
    (inside : parent ∈ heap.live) (found : (heap.scene.nodes parent).child? name = some entry) :
    heap.Relinks (.remove parent name) { heap with scene := heap.scene.remove parent name } := by
  have attaches : heap.attaches (.remove parent name) = none := rfl
  have detaches : heap.detaches (.remove parent name) = some entry.2 := by
    rw [Heap.detaches, found]
    rfl
  have taken : ∀ id key, heap.Takes (.remove parent name) id key ↔ id = parent ∧ key = name := by
    intro id key
    constructor
    · rintro (⟨_, written⟩ | ⟨_, same, -⟩)
      · cases written
      · injection same with sameParent sameName
        exact ⟨sameParent.symm, sameName.symm⟩
    · rintro ⟨rfl, rfl⟩
      exact .inr ⟨entry, rfl, found⟩
  refine ⟨?_, fun id => (or_iff_left (Option.some_ne_none _).symm).symm, fun id _ => ?_, fun id _ child => ?_,
    fun id _ => ?_, fun id member => ?_, fun id creation => nomatch creation⟩
  · rw [Scene.remove, found]
    exact le_rfl
  · simp [HeldAfter]
  · rw [child_remove found, OwnsAfter]
    simp only [taken, attaches, reduceCtorEq, exists_const, false_or]
  · have detached := (remove_spec found).1
    rw [pointsAfter, attaches, detaches]
    dsimp only
    split_ifs with here
    · rw [← Option.some.inj here]
      exact detached.pointer
    · exact detached.pointers id fun same => here (congrArg some same.symm)
  · rw [remove_children found]
    split_ifs with here
    · exact sorted_eraseChild (sound.sorted parent inside)
    · exact sound.sorted id member

section Specs

variable [BEq V]

theorem createChild_relinks (sound : heap.Sound) {parent : Nat} {name : String} (value : Option V)
    (attaches : heap.attaches action = some (parent, name, heap.scene.size))
    (creates : heap.creates action = some heap.scene.size) (inside : parent ∈ heap.live)
    (held : ∀ id, heap.HeldAfter action id ↔ 0 < heap.handles id) :
    ∃ next, heap.createChild parent name value = some next ∧ heap.Relinks action next := by
  obtain ⟨created, ran, spec⟩ := createNode_spec heap.scene name value
  have child : heap.scene.createChild parent name value = some (created.setChild parent name heap.scene.size) := by
    rw [Scene.createChild, ran, Option.bind_eq_bind, Option.bind_some, createNode_name ran, add_eq]
    rfl
  refine ⟨_, ?_, relinks_createChild sound spec attaches creates inside held⟩
  rw [Heap.createChild, child]
  rfl

/-- Every action that is allowed returns. -/
theorem relink_spec (sound : heap.Sound) (linked : heap.Linked) (allowed : heap.Allowed action) :
    ∃ next, heap.relink action = some next ∧ heap.Relinks action next := by
  cases action with
  | createNode name value =>
    obtain ⟨created, ran, spec⟩ := createNode_spec heap.scene name value
    refine ⟨_, ?_, relinks_create sound spec rfl rfl rfl (fun _ => by simp [HeldAfter]) 1⟩
    rw [relink, Heap.createNode, ran]
    rfl
  | createChild id name value =>
    exact createChild_relinks sound value rfl rfl allowed fun _ => by simp [HeldAfter]
  | createChildWithValue id name value =>
    rw [relink, Heap.createChildWithValue]
    cases found : (heap.scene.nodes id).child? name with
    | none =>
      apply createChild_relinks sound (some value) _ _ allowed fun _ => by simp [HeldAfter]
      · rw [Heap.attaches, found]
        rfl
      · rw [Heap.creates, found]
        rfl
    | some entry =>
      have member := sound.closed id allowed entry.2 (child_iff.mpr ⟨entry.1, child?_mem found⟩)
      obtain ⟨scene, ran⟩ := @setValue_isSome _ heap.scene _ heap.live sound.inside
        (fun one living parent pointer => (linked one living parent pointer).1) _ value member
      refine ⟨{ heap with scene }, ?_, relinks_same sound ?_ rfl ?_ rfl (setValue_links ran) ?_⟩
      · dsimp only
        rw [ran]
        rfl
      · rw [Heap.attaches, found]
        rfl
      · rw [Heap.creates, found]
        rfl
      · exact fun _ _ => by simp [HeldAfter]
  | add id node =>
    refine ⟨_, rfl, ?_⟩
    rw [add_eq]
    exact relinks_attach sound rfl rfl allowed.1 fun _ => by simp [HeldAfter]
  | addAs id node name =>
    refine ⟨_, rfl, ?_⟩
    rw [add_eq]
    exact relinks_attach sound rfl rfl allowed.1 fun _ => by simp [HeldAfter]
  | setChild id name node =>
    exact ⟨_, rfl, relinks_attach sound rfl rfl allowed.1 fun _ => by simp [HeldAfter]⟩
  | remove id name =>
    refine ⟨_, rfl, ?_⟩
    cases found : (heap.scene.nodes id).child? name with
    | none =>
      rw [remove_none found]
      have detaches : heap.detaches (.remove id name) = none := by
        rw [Heap.detaches, found]
        rfl
      exact relinks_same sound rfl detaches rfl rfl ⟨rfl, fun _ => rfl, rfl⟩ fun _ _ => by simp [HeldAfter]
    | some entry => exact relinks_remove sound allowed found
  | hold id =>
    refine ⟨_, rfl, relinks_same sound rfl rfl rfl rfl ⟨rfl, fun _ => rfl, rfl⟩ fun other _ => ?_⟩
    by_cases same : other = id
    · simp [HeldAfter, same]
    · simp [HeldAfter, Function.update_of_ne same, Ne.symm same]
  | drop id =>
    refine ⟨_, rfl, relinks_same sound rfl rfl rfl rfl ⟨rfl, fun _ => rfl, rfl⟩ fun other _ => ?_⟩
    by_cases same : other = id
    · simp only [HeldAfter, same, Function.update_self, reduceCtorEq, false_or, true_imp_iff]
      omega
    · simp [HeldAfter, Function.update_of_ne same, Ne.symm same]

end Specs

end Heap

end Ospray.Sg
