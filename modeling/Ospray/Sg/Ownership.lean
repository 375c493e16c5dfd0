import Mathlib.Data.String.Basic
import Ospray.Library.Ownership
import Ospray.Library.Runs
import Ospray.Sg.Updates

/-!
# Ownership of nodes

Child maps and the application share the ownership of nodes, and parent pointers are raw. A
node is destroyed when its last owner goes, and its map with it. The pointers of its
children that live on are not visited, and neither is that of a child that is replaced in a
map.
-/

namespace Ospray.Sg

open Library.Ownership

variable {V : Type}

/-! ## Nodes and their owners -/

/-- The nodes that live, and the number of shared pointers that the application has to each. -/
structure Heap (V : Type) where
  scene : Scene V
  live : List Nat
  handles : Nat → Nat

instance Scene.Child.decidable (scene : Scene V) : DecidableRel scene.Child :=
  fun parent child => inferInstanceAs (Decidable (child ∈ (scene.nodes parent).children.map Prod.snd))

namespace Heap

/-- `Node::~Node`, for all nodes without an owner, and for those that have none then. -/
def release (heap : Heap V) : Heap V :=
  { heap with live := sweep (0 < heap.handles ·) heap.scene.Child heap.live.length heap.live }

section Calls

variable [BEq V]

/-- `createNode`: the application has the new node. -/
def createNode (heap : Heap V) (name : String) (value : Option V) : Option (Heap V) := do
  let scene ← heap.scene.createNode name value
  return { scene, live := heap.scene.size :: heap.live, handles := Function.update heap.handles heap.scene.size 1 }

/-- `Node::createChild`. Its own pointer to the new node is gone when it returns. -/
def createChild (heap : Heap V) (id : Nat) (name : String) (value : Option V) : Option (Heap V) := do
  let scene ← heap.scene.createChild id name value
  return { scene, live := heap.scene.size :: heap.live, handles := Function.update heap.handles heap.scene.size 0 }

/-- `Node::createChildWithValue` -/
def createChildWithValue (heap : Heap V) (id : Nat) (name : String) (value : V) : Option (Heap V) :=
  match (heap.scene.nodes id).child? name with
  | some (_, child) => do
    let scene ← heap.scene.setValue child value
    return { heap with scene }
  | none => heap.createChild id name (some value)

end Calls

end Heap

/-- What is done to nodes and to the application's pointers to them. -/
inductive Action (V : Type) where
  | createNode (name : String) (value : Option V)
  | createChild (id : Nat) (name : String) (value : Option V)
  | createChildWithValue (id : Nat) (name : String) (value : V)
  | add (id node : Nat)
  | addAs (id node : Nat) (name : String)
  | setChild (id : Nat) (name : String) (node : Nat)
  | remove (id : Nat) (name : String)
  | hold (id : Nat)
  | drop (id : Nat)

namespace Heap

variable [BEq V]

/-- An action, before nodes that have lost their last owner are destroyed. -/
def relink (heap : Heap V) : Action V → Option (Heap V)
  | .createNode name value => heap.createNode name value
  | .createChild id name value => heap.createChild id name value
  | .createChildWithValue id name value => heap.createChildWithValue id name value
  | .add id node => some { heap with scene := heap.scene.add id node (heap.scene.nodes node).name }
  | .addAs id node name => some { heap with scene := heap.scene.add id node name }
  | .setChild id name node => some { heap with scene := heap.scene.setChild id name node }
  | .remove id name => some { heap with scene := heap.scene.remove id name }
  | .hold id => some { heap with handles := Function.update heap.handles id (heap.handles id + 1) }
  | .drop id => some { heap with handles := Function.update heap.handles id (heap.handles id - 1) }

/-- The nodes after an action. -/
def perform (heap : Heap V) (action : Action V) : Option (Heap V) := (heap.relink action).map release

omit [BEq V] in
/-- Actions on nodes that live, and on pointers that the application has. -/
def Allowed (heap : Heap V) : Action V → Prop
  | .createNode _ _ => True
  | .createChild id _ _ => id ∈ heap.live
  | .createChildWithValue id _ _ => id ∈ heap.live
  | .add id node => id ∈ heap.live ∧ node ∈ heap.live
  | .addAs id node _ => id ∈ heap.live ∧ node ∈ heap.live
  | .setChild id _ node => id ∈ heap.live ∧ node ∈ heap.live
  | .remove id _ => id ∈ heap.live
  | .hold id => id ∈ heap.live
  | .drop id => 0 < heap.handles id

/-! ## What is expected -/

/-- The parent pointer of every node that lives points to one that lives and has the node in its map. -/
def Linked (heap : Heap V) : Prop :=
  ∀ id ∈ heap.live, ∀ parent, heap.scene.parentOf id = some parent →
    parent ∈ heap.live ∧ heap.scene.Child parent id

/-- `remove` removes exactly the child that `child` returns, or changes nothing. -/
def Removes (heap : Heap V) (id : Nat) (name : String) (next : Heap V) : Prop :=
  match (heap.scene.nodes id).child? name with
  | some (key, child) =>
    (next.scene.nodes id).children = (heap.scene.nodes id).children.filter (· ≠ (key, child)) ∧
      ∀ other, other ≠ id → (next.scene.nodes other).children = (heap.scene.nodes other).children
  | none => next = heap

/-- An action does what is expected. -/
structure Keeps (heap : Heap V) (action : Action V) (next : Heap V) : Prop where
  linked : next.Linked
  removes : ∀ id name, action = .remove id name → heap.Removes id name next

end Heap

end Ospray.Sg
