import Ospray.Sg.Histories
import Ospray.Sg.Relinking

/-!
# Parent links

A parent pointer goes wrong where a child is replaced and lives on, and where a node loses
its last owner before the children that point to it. An erased name that differs in case
removes nothing. In all other runs every pointer is to a living node with the child in its
map.
-/

namespace Ospray.Sg

open Library.Ownership Library.Runs

variable {V : Type}

namespace Heap

variable {heap next : Heap V} {action : Action V} {id : Nat}

/-! ## Nodes that lose their last owner -/

/-- A node of the heap loses its last owner. -/
abbrev Perishes (heap : Heap V) : Nat → Prop :=
  Dies (0 < heap.handles ·) heap.scene.Child (· ∈ heap.live)

theorem mem_release : id ∈ heap.release.live ↔ id ∈ heap.live ∧ ¬heap.Perishes id := mem_sweep_iff le_rfl

theorem perishes_iff (relinks : heap.Relinks action next) (living : id ∈ heap.live) :
    next.Perishes id ↔ heap.Loses action id := by
  constructor
  · intro dies
    induction dies with
    | intro _ loose _ inductionHypothesis =>
      refine .intro living (fun still => loose ((relinks.held _ living).mpr still)) fun owner among owns => ?_
      exact inductionHypothesis owner ((relinks.live owner).mpr (.inl among)) ((relinks.owns owner among _).mpr owns) among
  · refine Dies.congr (fun id among => (relinks.live id).mpr (.inl among))
      (fun id among still => (relinks.held id among).mp still) fun id owner _ there owns => ?_
    obtain among | new := (relinks.live owner).mp there
    · exact ⟨among, (relinks.owns owner among id).mp owns⟩
    · rw [Scene.Child, (relinks.created owner new).2.2.1] at owns
      cases owns

theorem perishes_created (sound : heap.Sound) (relinks : heap.Relinks action next) {parent : Nat} {name : String}
    (creates : heap.creates action = some id) (attaches : heap.attaches action = some (parent, name, id))
    (loses : heap.Loses action parent) : next.Perishes id := by
  obtain ⟨fresh, -, -, -, handles⟩ := relinks.created id creates
  have unheld := handles (by rw [attaches]; exact Option.some_ne_none _)
  refine .intro ((relinks.live id).mpr (.inr creates)) (fun still => by omega) fun owner there owns => ?_
  obtain among | new := (relinks.live owner).mp there
  · refine (perishes_iff relinks among).mpr ?_
    obtain ⟨other, written⟩ | ⟨key, member, -⟩ := (relinks.owns owner among id).mp owns
    · obtain ⟨rfl, -⟩ := Prod.mk.inj (Option.some.inj (attaches.symm.trans written))
      exact loses
    · exact absurd (sound.closed owner among id (child_iff.mpr ⟨key, member⟩)) fresh
  · rw [Scene.Child, (relinks.created owner new).2.2.1] at owns
    cases owns

/-! ## The condition -/

/-- An action replaces the only entry of a node in the map that its pointer leads to. -/
def Replaces (heap : Heap V) (action : Action V) (old : Nat) : Prop :=
  ∃ id name node, heap.attaches action = some (id, name, node) ∧ old ≠ node ∧ heap.scene.parentOf old = some id ∧
    ∀ key, (key, old) ∈ (heap.scene.nodes id).children → key = name

/-- The condition on an action: nodes that point to one that loses its last owner lose theirs, and so do nodes whose
entry is replaced; the name for `remove` is exactly that of the child. -/
structure Careful (heap : Heap V) (action : Action V) : Prop where
  carries : ∀ id ∈ heap.live, ∀ parent, heap.pointsAfter action id = some parent →
    heap.Loses action parent → heap.Loses action id
  replaced : ∀ id ∈ heap.live, heap.Replaces action id → heap.Loses action id
  exact_ : ∀ id name key child, action = .remove id name →
    (heap.scene.nodes id).child? name = some (key, child) → key = name

theorem attaches_live (allowed : heap.Allowed action) {parent node : Nat} {name : String}
    (attaches : heap.attaches action = some (parent, name, node)) : parent ∈ heap.live := by
  cases action with
  | createNode _ _ | remove _ _ | hold _ | drop _ => cases attaches
  | createChild _ _ _ =>
    obtain ⟨rfl, -⟩ := Prod.mk.inj (Option.some.inj attaches)
    exact allowed
  | createChildWithValue _ _ _ =>
    rw [Heap.attaches] at attaches
    split_ifs at attaches
    obtain ⟨rfl, -⟩ := Prod.mk.inj (Option.some.inj attaches)
    exact allowed
  | add _ _ | addAs _ _ _ | setChild _ _ _ =>
    obtain ⟨rfl, -⟩ := Prod.mk.inj (Option.some.inj attaches)
    exact allowed.1

theorem attaches_created (creates : heap.creates action = some id) {parent node : Nat} {name : String}
    (attaches : heap.attaches action = some (parent, name, node)) : node = id := by
  cases action with
  | createNode _ _ => cases attaches
  | add _ _ | addAs _ _ _ | setChild _ _ _ | remove _ _ | hold _ | drop _ => cases creates
  | createChild _ _ _ =>
    obtain ⟨-, -, rfl⟩ := Option.some.inj attaches
    exact Option.some.inj creates
  | createChildWithValue _ _ _ =>
    rw [Heap.attaches] at attaches
    rw [Heap.creates] at creates
    split_ifs at attaches creates
    obtain ⟨-, -, rfl⟩ := Option.some.inj attaches
    exact Option.some.inj creates

/-- After an action that is careful, a node is in the map of the one that it points to, unless it has lost its last
owner. -/
theorem ownsAfter_of_points (sound : heap.Sound) (linked : heap.Linked) (allowed : heap.Allowed action)
    (careful : heap.Careful action) (living : id ∈ heap.live) (survives : ¬heap.Loses action id) {parent : Nat}
    (points : heap.pointsAfter action id = some parent) :
    parent ∈ heap.live ∧ heap.OwnsAfter action parent id := by
  rw [pointsAfter] at points
  cases attaches : heap.attaches action with
  | some entry =>
    obtain ⟨above, name, node⟩ := entry
    rw [attaches] at points
    dsimp only at points
    split_ifs at points with same
    · obtain rfl := Option.some.inj points
      exact ⟨attaches_live allowed attaches, .inl ⟨name, same ▸ attaches⟩⟩
    · obtain ⟨among, child⟩ := linked id living parent points
      refine ⟨among, .inr ?_⟩
      by_contra none_
      push Not at none_
      obtain ⟨key, member⟩ := child_iff.mp child
      have only : ∀ key, (key, id) ∈ (heap.scene.nodes parent).children → parent = above ∧ key = name :=
        fun key member => (takes_iff attaches).mp (none_ key member)
      obtain ⟨rfl, -⟩ := only key member
      exact survives (careful.replaced id living
        ⟨parent, name, node, attaches, same, points, fun key member => (only key member).2⟩)
  | none =>
    rw [attaches] at points
    dsimp only at points
    split_ifs at points with cleared
    obtain ⟨among, child⟩ := linked id living parent points
    obtain ⟨key, member⟩ := child_iff.mp child
    refine ⟨among, .inr ⟨key, member, ?_⟩⟩
    rintro (⟨node, written⟩ | ⟨⟨found, other⟩, rfl, entry⟩)
    · exact absurd (attaches.symm.trans written) (Option.some_ne_none _).symm
    · obtain rfl := careful.exact_ parent key found other rfl entry
      obtain rfl := eq_of_key (sound.sorted parent among) (child?_mem entry) member
      apply cleared
      rw [Heap.detaches, entry]
      rfl

theorem linked_release (sound : heap.Sound) (linked : heap.Linked) (allowed : heap.Allowed action)
    (careful : heap.Careful action) (relinks : heap.Relinks action next) : next.release.Linked := by
  intro id left parent pointer
  obtain ⟨there, survives⟩ := mem_release.mp left
  change next.scene.parentOf id = some parent at pointer
  obtain living | new := (relinks.live id).mp there
  · have stays := (perishes_iff relinks living).not.mp survives
    rw [relinks.points id living] at pointer
    obtain ⟨among, owns⟩ := ownsAfter_of_points sound linked allowed careful living stays pointer
    have kept : ¬heap.Loses action parent := fun loses => stays (careful.carries id living parent pointer loses)
    exact ⟨mem_release.mpr ⟨(relinks.live parent).mpr (.inl among), (perishes_iff relinks among).not.mpr kept⟩,
      (relinks.owns parent among id).mpr owns⟩
  · rw [(relinks.created id new).2.2.2.1, Option.map_eq_some_iff] at pointer
    obtain ⟨⟨above, name, node⟩, attaches, rfl⟩ := pointer
    obtain rfl := attaches_created new attaches
    have among := attaches_live allowed attaches
    have kept : ¬heap.Loses action above := fun loses => survives (perishes_created sound relinks new attaches loses)
    exact ⟨mem_release.mpr ⟨(relinks.live above).mpr (.inl among), (perishes_iff relinks among).not.mpr kept⟩,
      (relinks.owns above among node).mpr (.inl ⟨name, attaches⟩)⟩

/-- Where links match after an action, it was careful about owners. -/
theorem careful_of_linked (linked : heap.Linked) (relinks : heap.Relinks action next)
    (after : next.release.Linked) : (∀ id ∈ heap.live, ∀ parent, heap.pointsAfter action id = some parent →
      heap.Loses action parent → heap.Loses action id) ∧ ∀ id ∈ heap.live, heap.Replaces action id →
      heap.Loses action id := by
  have lives : ∀ id ∈ heap.live, ¬heap.Loses action id → ∀ parent, heap.pointsAfter action id = some parent →
      parent ∈ next.release.live ∧ next.scene.Child parent id := by
    intro id living survives parent points
    have left := mem_release.mpr ⟨(relinks.live id).mpr (.inl living), (perishes_iff relinks living).not.mpr survives⟩
    exact after id left parent ((relinks.points id living).trans points)
  constructor
  · intro id living parent points loses
    by_contra survives
    obtain ⟨left, -⟩ := lives id living survives parent points
    exact (mem_release.mp left).2 ((perishes_iff relinks loses.alive).mpr loses)
  · rintro id living ⟨parent, name, node, attaches, other, pointer, only⟩
    by_contra survives
    have points : heap.pointsAfter action id = some parent := by
      rw [pointsAfter, attaches]
      dsimp only
      rw [if_neg other, pointer]
    obtain ⟨-, child⟩ := lives id living survives parent points
    have among := (linked id living parent pointer).1
    obtain ⟨key, written⟩ | ⟨key, member, kept⟩ := (relinks.owns parent among id).mp child
    · obtain ⟨-, -, rfl⟩ := Option.some.inj (attaches.symm.trans written)
      exact other rfl
    · exact kept ((takes_iff attaches).mpr ⟨rfl, only key member⟩)

section Actions

variable [BEq V]

/-- `remove` does what is expected exactly if it is called with the key of the child. -/
theorem removes_iff (sound : heap.Sound) (living : id ∈ heap.live) {name : String}
    (ran : heap.relink (.remove id name) = some next) : heap.Removes id name next.release ↔
      ∀ key child, (heap.scene.nodes id).child? name = some (key, child) → key = name := by
  obtain rfl := Option.some.inj ran
  cases found : (heap.scene.nodes id).child? name with
  | none =>
    refine iff_of_true ?_ fun _ _ other => nomatch other
    have same : ({ heap with scene := heap.scene.remove id name } : Heap V) = heap := by rw [remove_none found]
    rw [Removes, found, same]
    exact congrArg (fun live => { heap with live }) (sweep_eq_self sound.rest)
  | some entry =>
    obtain ⟨key, child⟩ := entry
    have children : ∀ other, ((heap.scene.remove id name).nodes other).children = _ :=
      fun other => remove_children found
    have member := child?_mem found
    rw [Removes, found]
    constructor
    · rintro ⟨own, -⟩ _ _ ⟨⟩
      by_contra differs
      have erased := own.symm.trans ((children id).trans (if_pos rfl))
      have still : (key, child) ∈ eraseChild (heap.scene.nodes id).children name :=
        List.mem_filter.mpr ⟨member, decide_eq_true differs⟩
      rw [← erased, List.mem_filter] at still
      exact of_decide_eq_true still.2 rfl
    · intro exact_
      obtain rfl := exact_ key child rfl
      refine ⟨((children id).trans (if_pos rfl)).trans (List.filter_congr fun entry among => ?_),
        fun other apart => (children other).trans (if_neg apart)⟩
      rw [decide_eq_decide, not_iff_not]
      constructor
      · rintro rfl
        exact Prod.ext rfl (eq_of_key (sound.sorted id living) among member)
      · rintro rfl
        rfl

theorem keeps_iff (sound : heap.Sound) (linked : heap.Linked) (allowed : heap.Allowed action)
    (ran : heap.relink action = some next) (relinks : heap.Relinks action next) :
    heap.Keeps action next.release ↔ heap.Careful action := by
  constructor
  · intro keeps
    obtain ⟨carries, replaced⟩ := careful_of_linked linked relinks keeps.linked
    refine ⟨carries, replaced, ?_⟩
    rintro id name key child rfl found
    exact (removes_iff sound allowed ran).mp (keeps.removes id name rfl) key child found
  · intro careful
    refine ⟨linked_release sound linked allowed careful relinks, ?_⟩
    rintro id name rfl
    exact (removes_iff sound allowed ran).mpr fun key child found => careful.exact_ id name key child rfl found

end Actions

/-! ## Runs -/

/-- Entries are written for nodes that live, or for the new one. -/
theorem attaches_node (allowed : heap.Allowed action) {parent node : Nat} {name : String}
    (attaches : heap.attaches action = some (parent, name, node)) :
    node ∈ heap.live ∨ heap.creates action = some node := by
  cases action with
  | createNode _ _ | remove _ _ | hold _ | drop _ => cases attaches
  | createChild _ _ _ =>
    obtain ⟨-, -, rfl⟩ := Option.some.inj attaches
    exact .inr rfl
  | createChildWithValue _ _ _ =>
    rw [Heap.attaches] at attaches
    rw [Heap.creates]
    split_ifs at attaches ⊢
    obtain ⟨-, -, rfl⟩ := Option.some.inj attaches
    exact .inr rfl
  | add _ _ | addAs _ _ _ | setChild _ _ _ =>
    obtain ⟨-, -, rfl⟩ := Option.some.inj attaches
    exact .inl allowed.2

/-- Actions keep the maps in order and the nodes in them alive. -/
theorem sound_release (sound : heap.Sound) (allowed : heap.Allowed action) (relinks : heap.Relinks action next) :
    next.release.Sound where
  inside id left := by
    obtain living | new := (relinks.live id).mp (mem_release.mp left).1
    · exact (sound.inside id living).trans_le relinks.size
    · exact (relinks.created id new).2.1
  closed id left child owns := by
    obtain ⟨there, survives⟩ := mem_release.mp left
    change next.scene.Child id child at owns
    have among : child ∈ next.live := by
      rw [relinks.live]
      obtain living | new := (relinks.live id).mp there
      · obtain ⟨name, attaches⟩ | ⟨name, member, -⟩ := (relinks.owns id living child).mp owns
        · exact attaches_node allowed attaches
        · exact .inl (sound.closed id living child (child_iff.mpr ⟨name, member⟩))
      · rw [Scene.Child, (relinks.created id new).2.2.1] at owns
        cases owns
    exact mem_release.mpr ⟨among, fun dies => survives (dies.owner there owns)⟩
  sorted id left := relinks.sorted id (mem_release.mp left).1
  rest _ := not_dies_sweep le_rfl

section Runs

variable [BEq V]

omit [BEq V] in
/-- Before the first action no node lives. -/
def Initial (heap : Heap V) : Prop := heap.live = [] ∧ ∀ id, heap.handles id = 0

/-- One action that is allowed. -/
def Step (heap next : Heap V) : Prop := ∃ action, heap.Allowed action ∧ heap.perform action = some next

/-- One that is careful, too. -/
def CarefulStep (heap next : Heap V) : Prop :=
  ∃ action, heap.Allowed action ∧ heap.Careful action ∧ heap.perform action = some next

theorem linked_of_careful (reached : Reachable Initial CarefulStep heap) : heap.Sound ∧ heap.Linked := by
  refine @reachable_invariant _ Initial CarefulStep (fun heap => heap.Sound ∧ heap.Linked) ?_ ?_ heap reached
  · rintro heap ⟨none_, -⟩
    have empty : ∀ id, id ∉ heap.live := by
      intro id
      rw [none_]
      exact List.not_mem_nil
    exact ⟨⟨fun id living => absurd living (empty id), fun id living => absurd living (empty id),
      fun id living => absurd living (empty id), fun id dies => empty id dies.alive⟩,
      fun id living => absurd living (empty id)⟩
  · rintro heap after ⟨sound, linked⟩ ⟨action, allowed, careful, performed⟩
    obtain ⟨next, ran, relinks⟩ := relink_spec sound linked allowed
    rw [perform, ran, Option.map_some] at performed
    obtain rfl := Option.some.inj performed
    exact ⟨sound_release sound allowed relinks, linked_release sound linked allowed careful relinks⟩

/-- **Parent links match the child maps in careful runs.** In every state that careful actions reach, each parent
pointer is to a living node with the child in its map; and every further action returns, and does what is expected
exactly if it is careful. -/
theorem parent_links_match (reached : Reachable Initial CarefulStep heap) :
    heap.Linked ∧ ∀ action, heap.Allowed action →
      ∃ next, heap.perform action = some next ∧ (heap.Keeps action next ↔ heap.Careful action) := by
  obtain ⟨sound, linked⟩ := linked_of_careful reached
  refine ⟨linked, fun action allowed => ?_⟩
  obtain ⟨next, ran, relinks⟩ := relink_spec sound linked allowed
  refine ⟨next.release, ?_, keeps_iff sound linked allowed ran relinks⟩
  rw [perform, ran, Option.map_some]

end Runs

/-! ## Small heaps -/

/-- No nodes. -/
def empty : Heap Nat := ⟨emptyScene, [], fun _ => 0⟩

/-- A node that the application has. -/
def root : Heap Nat := (empty.perform (.createNode "root" none)).get rfl

/-- It has a child. -/
def family : Heap Nat := (root.perform (.createChild 0 "child" none)).get rfl

/-- The application has the child, too. -/
def sharedFamily : Heap Nat := (family.perform (.hold 1)).get rfl

/-- Another child has replaced it. -/
def replacedFamily : Heap Nat := (sharedFamily.perform (.createChild 0 "child" none)).get rfl

/-- The application has given up the parent. -/
def orphan : Heap Nat := (sharedFamily.perform (.drop 0)).get rfl

/-- The links of the small family match. -/
theorem parent_links_match_family : family.Linked := by
  have one : CarefulStep empty root :=
    ⟨.createNode "root" none, trivial, ⟨fun _ living => (nomatch living), fun _ living => (nomatch living),
      fun _ _ _ _ other => (nomatch other)⟩, rfl⟩
  have two : CarefulStep root family := by
    refine ⟨.createChild 0 "child" none, List.mem_singleton_self 0,
      ⟨fun id living parent points => ?_, ?_, fun _ _ _ _ other => (nomatch other)⟩, rfl⟩
    · rw [show id = 0 from List.mem_singleton.mp living] at points
      cases points
    · rintro id living ⟨above, name, node, -, -, pointer, -⟩
      rw [show id = 0 from List.mem_singleton.mp living] at pointer
      cases pointer
  exact (parent_links_match (reachable_step (reachable_step (reachable_start ⟨rfl, fun _ => rfl⟩) one) two)).1

/-- A child that is replaced keeps its pointer to a node that does not have it. A child keeps its pointer to a node that
has been destroyed. A name in another case removes no child. -/
theorem links_mismatch :
    (∃ heap : Heap Nat, Reachable Initial Step heap ∧ 1 ∈ heap.live ∧ heap.scene.parentOf 1 = some 0 ∧
      0 ∈ heap.live ∧ ¬heap.scene.Child 0 1) ∧
    (∃ heap : Heap Nat, Reachable Initial Step heap ∧ 1 ∈ heap.live ∧ heap.scene.parentOf 1 = some 0 ∧
      0 ∉ heap.live) ∧
    ∃ heap next : Heap Nat, Reachable Initial Step heap ∧ 0 ∈ heap.live ∧
      heap.perform (.remove 0 "CHILD") = some next ∧ ¬heap.Removes 0 "CHILD" next := by
  have one : Step empty root := ⟨.createNode "root" none, trivial, rfl⟩
  have two : Step root family := ⟨.createChild 0 "child" none, List.mem_singleton_self 0, rfl⟩
  have three : Step family sharedFamily := ⟨.hold 1, List.mem_cons_self, rfl⟩
  have four : Step sharedFamily replacedFamily :=
    ⟨.createChild 0 "child" none, List.mem_cons_of_mem _ List.mem_cons_self, rfl⟩
  have last : Step sharedFamily orphan := ⟨.drop 0, Nat.zero_lt_one, rfl⟩
  have reached : Reachable Initial Step family :=
    reachable_step (reachable_step (reachable_start ⟨rfl, fun _ => rfl⟩) one) two
  have shared := reachable_step reached three
  have children : (family.scene.nodes 0).children = [("child", 1)] := rfl
  have found : (family.scene.nodes 0).child? "CHILD" = some ("child", 1) := by
    have lower : "CHILD".toLower = "child" := by decide +kernel
    have same : "child".toLower = "child" := by decide +kernel
    have other : ([("child", 1)] : List (String × Nat)).find? (·.1 = "CHILD") = none := by decide +kernel
    rw [Node.child?, children, other, Option.none_or]
    exact List.find?_cons_of_pos (decide_eq_true (same.trans lower.symm))
  have kept : ((family.scene.remove 0 "CHILD").nodes 0).children = [("child", 1)] := by
    rw [remove_children found, if_pos rfl, children]
    decide +kernel
  have released : ∀ scene : Scene Nat, (({ family with scene } : Heap Nat).release.scene.nodes 0).children =
      (scene.nodes 0).children := fun _ => rfl
  have missed : ∀ next : Heap Nat, (next.scene.nodes 0).children = [("child", 1)] →
      ¬family.Removes 0 "CHILD" next := by
    intro next still
    rw [Removes, found]
    rintro ⟨own, -⟩
    rw [still, children, List.filter_cons_of_neg (by simp), List.filter_nil] at own
    cases own
  refine ⟨⟨replacedFamily, reachable_step shared four, by decide, by decide, by decide, by decide⟩,
    ⟨orphan, reachable_step shared last, by decide, by decide, by decide⟩,
    family, ({ family with scene := family.scene.remove 0 "CHILD" } : Heap Nat).release, reached, by decide, rfl, ?_⟩
  exact missed _ ((released _).trans kept)

end Heap

end Ospray.Sg
