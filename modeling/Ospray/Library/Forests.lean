import Mathlib.Data.Finset.Card
import Mathlib.Logic.Relation
import Ospray.Library.Literals

/-!
# Graphs without cycles

A relation between nodes and their children is acyclic if no node is below
itself. Over finitely many nodes, the depth of such a graph is bounded by their
number. The rest says how reachability changes when the children of one node do:
what a new edge makes reachable passes through it, a new edge closes no cycle
unless the child reaches the parent, and nodes that do not reach the changed one
reach the same nodes as before.
-/

namespace Library.Forests

open Relation

universe u
variable {α : Type u} {edge changed : α → α → Prop}

/-- No node is below itself. -/
def Acyclic (edge : α → α → Prop) : Prop := ∀ node, ¬ TransGen edge node node

/-- All paths from a node have fewer edges than a bound. -/
def Shallow (edge : α → α → Prop) : Nat → α → Prop
  | 0, _ => False
  | bound + 1, node => ∀ child, edge node child → Shallow edge bound child

/-- The path on which a node was reached takes its length from the bound: its
nodes are distinct, so it has at most as many as there are. -/
theorem shallow_behind (acyclic : Acyclic edge) {nodes : Finset α}
    (inside : ∀ node child, edge node child → node ∈ nodes) (bound : Nat) :
    ∀ (path : Finset α) (node : α), path ⊆ nodes → (∀ earlier ∈ path, TransGen edge earlier node) →
      nodes.card < bound + path.card → Shallow edge bound node := by
  classical
  induction bound with
  | zero =>
    intro path node within _ enough
    have few := Finset.card_le_card within
    omega
  | succ bound inductionHypothesis =>
    intro path node within before enough child below
    have fresh : node ∉ path := fun member => acyclic node (before node member)
    refine inductionHypothesis (insert node path) child
      (Finset.insert_subset (inside node child below) within) ?_ ?_
    · intro earlier member
      obtain rfl | member := Finset.mem_insert.mp member
      · exact .single below
      · exact (before earlier member).tail below
    · rw [Finset.card_insert_of_notMem fresh]
      omega

theorem shallow_of_acyclic (acyclic : Acyclic edge) {nodes : Finset α}
    (inside : ∀ node child, edge node child → node ∈ nodes) (node : α) :
    Shallow edge (nodes.card + 1) node :=
  shallow_behind acyclic inside _ ∅ node (Finset.empty_subset nodes)
    (fun _ absent => absurd absent (Finset.notMem_empty _)) (Nat.lt_succ_self _)

theorem reach_climbs {holds : α → Prop} {top bottom : α} (path : ReflTransGen edge top bottom)
    (climbs : ∀ node, ReflTransGen edge top node → ∀ child, edge node child → holds child → holds node)
    (held : holds bottom) : holds top := by
  induction path with
  | refl => exact held
  | tail before step inductionHypothesis => exact inductionHypothesis (climbs _ before _ step held)

section Grown

variable {parent child : α}
variable (grown : ∀ node below, changed node below → edge node below ∨ (node = parent ∧ below = child))
include grown

/-- With one more edge, a path either was there before, or leads to the parent,
over the edge, and on from the child. -/
theorem reach_grown {top bottom : α} (path : ReflTransGen changed top bottom) :
    ReflTransGen edge top bottom ∨
      (ReflTransGen edge top parent ∧ ReflTransGen edge child bottom) := by
  induction path with
  | refl => exact .inl .refl
  | tail _ step inductionHypothesis =>
    obtain old | ⟨rfl, rfl⟩ := grown _ _ step
    · obtain before | ⟨above, beneath⟩ := inductionHypothesis
      · exact .inl (before.tail old)
      · exact .inr ⟨above, beneath.tail old⟩
    · obtain before | ⟨above, -⟩ := inductionHypothesis
      · exact .inr ⟨before, .refl⟩
      · exact .inr ⟨above, .refl⟩

theorem acyclic_grown (acyclic : Acyclic edge) (apart : ¬ ReflTransGen edge child parent) :
    Acyclic changed := by
  intro node cycle
  obtain ⟨next, step, path⟩ := TransGen.head'_iff.mp cycle
  obtain old | ⟨rfl, rfl⟩ := grown _ _ step
  · obtain before | ⟨above, beneath⟩ := reach_grown grown path
    · exact acyclic node (TransGen.head' old before)
    · exact apart (beneath.trans (above.head old))
  · obtain before | ⟨above, -⟩ := reach_grown grown path
    · exact apart before
    · exact apart above

end Grown

theorem acyclic_of_subset (acyclic : Acyclic edge)
    (fewer : ∀ node below, changed node below → edge node below) : Acyclic changed :=
  fun node cycle => acyclic node (TransGen.mono fewer _ _ cycle)

/-- A node that does not reach the changed one reaches what it did. -/
theorem reach_elsewhere {touched top bottom : α}
    (agree : ∀ node, node ≠ touched → ∀ below, changed node below ↔ edge node below)
    (apart : ¬ ReflTransGen edge top touched) :
    ReflTransGen changed top bottom ↔ ReflTransGen edge top bottom := by
  constructor
  · intro path
    induction path with
    | refl => exact .refl
    | tail _ step inductionHypothesis =>
      refine inductionHypothesis.tail ((agree _ ?_ _).mp step)
      rintro rfl
      exact apart inductionHypothesis
  · intro path
    induction path with
    | refl => exact .refl
    | tail before step inductionHypothesis =>
      refine inductionHypothesis.tail ((agree _ ?_ _).mpr step)
      rintro rfl
      exact apart before

end Library.Forests
