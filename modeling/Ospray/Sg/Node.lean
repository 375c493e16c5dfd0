import Ospray.Library.Chains
import Ospray.Library.Forests

/-!
# Nodes of the scene graph

Nodes live on a heap and know their children by name, as a sorted map, and their
parent by a pointer. Three time stamps tell whether a node has to be committed:
when it was modified, when a node below it was, and when it was committed. A
modification is pushed upwards along the parent pointers; a commit walks down
and skips every node that has been committed since anything changed below it.

The counter behind the time stamps is the number of stamps handed out. Stamps
that these functions never compare are left out: `whenCreated`, `lastVerified`,
those of a context, and the values that copies of a stamp draw and overwrite.
Nodes are never freed: who works with a node keeps it alive.
-/

namespace Ospray.Sg

/-- `sg::Node`: the properties that updates and commits use. -/
structure Node (V : Type) where
  name : String
  /-- none for an `Any` that is not valid -/
  value : Option V
  children : List (String × Nat)
  parent : Option Nat
  lastModified : Nat
  childrenMTime : Nat
  lastCommitted : Nat

/-- The nodes that have been created, and `TimeStamp::global`. -/
structure Scene (V : Type) where
  global : Nat
  size : Nat
  nodes : Nat → Node V

variable {V : Type}

/-! ## The map of children -/

/-- `children[name] = node` -/
def insertChild : List (String × Nat) → String → Nat → List (String × Nat)
  | [], name, node => [(name, node)]
  | (key, child) :: rest, name, node =>
    if name = key then (key, node) :: rest
    else if name < key then (name, node) :: (key, child) :: rest
    else (key, child) :: insertChild rest name node

/-- `children.erase(name)` -/
def eraseChild (children : List (String × Nat)) (name : String) : List (String × Nat) :=
  children.filter (·.1 ≠ name)

/-- `hasChild` and `child`: the entry with the name, or else the first one whose
name differs only in case. -/
def Node.child? (node : Node V) (name : String) : Option (String × Nat) :=
  (node.children.find? (·.1 = name)).or
    (node.children.find? (·.1.toLower = name.toLower))

/-! ## Detecting updates -/

/-- `Node::subtreeModifiedButNotCommitted` -/
def Node.subtreeModifiedButNotCommitted (node : Node V) : Bool :=
  node.lastCommitted < node.lastModified || node.lastCommitted < node.childrenMTime

/-- A fresh `TimeStamp()`. -/
def Scene.timeStamp (scene : Scene V) : Nat × Scene V :=
  (scene.global, { scene with global := scene.global + 1 })

/-- Changing one node. -/
def Scene.modify (scene : Scene V) (id : Nat) (change : Node V → Node V) : Scene V :=
  { scene with nodes := Function.update scene.nodes id (change (scene.nodes id)) }

/-- `Node::markAsCommitted` -/
def Scene.markAsCommitted (scene : Scene V) (id : Nat) : Scene V :=
  let (stamp, scene) := scene.timeStamp
  scene.modify id ({ · with lastCommitted := stamp })

/-- `Node::setChildrenModified`, with a bound on the number of calls. -/
def Scene.setChildrenModified : Nat → Scene V → Nat → Nat → Option (Scene V)
  | 0, _, _, _ => none
  | bound + 1, scene, t, id =>
    if (scene.nodes id).childrenMTime < t then
      let scene := scene.modify id ({ · with childrenMTime := t })
      match (scene.nodes id).parent with
      | some parent => scene.setChildrenModified bound t parent
      | none => some scene
    else some scene

/-- `Node::markAsModified`. One call more than there are nodes is enough. -/
def Scene.markAsModified (scene : Scene V) (id : Nat) : Option (Scene V) :=
  let (stamp, scene) := scene.timeStamp
  let scene := scene.modify id ({ · with lastModified := stamp })
  match (scene.nodes id).parent with
  | some parent => scene.setChildrenModified (scene.size + 1) stamp parent
  | none => some scene

section Values

variable [BEq V]

/-- `Node::setValue` -/
def Scene.setValue (scene : Scene V) (id : Nat) (value : V) : Option (Scene V) :=
  if (scene.nodes id).value.any (value == ·) then some scene
  else (scene.modify id ({ · with value := some value })).markAsModified id

/-- `Node::Node`: the stamps are drawn in the order of the members. -/
def Scene.newNode (scene : Scene V) : Option (Scene V) :=
  let id := scene.size
  let (lastModified, scene) := scene.timeStamp
  let (childrenMTime, scene) := scene.timeStamp
  let (lastCommitted, scene) := scene.timeStamp
  let node : Node V := ⟨"NULL", none, [], none, lastModified, childrenMTime, lastCommitted⟩
  Scene.markAsModified
    { scene with size := id + 1, nodes := Function.update scene.nodes id node } id

/-- `createNode`. The new node has the next free number. -/
def Scene.createNode (scene : Scene V) (name : String) (value : Option V) : Option (Scene V) := do
  let id := scene.size
  let scene ← scene.newNode
  let scene := scene.modify id ({ · with name := name })
  match value with
  | some value => scene.setValue id value
  | none => return scene

end Values

/-! ## Children and parents -/

/-- `Node::setParent` -/
def Scene.setParent (scene : Scene V) (id parent : Nat) : Scene V :=
  scene.modify id ({ · with parent := some parent })

/-- `Node::setChild` -/
def Scene.setChild (scene : Scene V) (id : Nat) (name : String) (node : Nat) : Scene V :=
  (scene.modify id fun self => { self with children := insertChild self.children name node }).setParent
    node id

/-- `Node::add` under a given name. -/
def Scene.add (scene : Scene V) (id node : Nat) (name : String) : Scene V :=
  (scene.setChild id name node).setParent node id

/-- `Node::remove` -/
def Scene.remove (scene : Scene V) (id : Nat) (name : String) : Scene V :=
  match (scene.nodes id).child? name with
  | some (_, child) =>
    (scene.modify child ({ · with parent := none })).modify id fun self =>
      { self with children := eraseChild self.children name }
  | none => scene

/-- `Node::createChild` -/
def Scene.createChild [BEq V] (scene : Scene V) (id : Nat) (name : String) (value : Option V) :
    Option (Scene V) := do
  let child := scene.size
  let scene ← scene.createNode name value
  return scene.add id child (scene.nodes child).name

/-! ## Committing -/

/-- `Node::traverse` for the operation `commit`, with a bound on the depth: the
scene afterwards and the nodes whose `postCommit` ran, in this order. -/
def Scene.traverse : Nat → Scene V → Nat → Option (Scene V × List Nat)
  | 0, _, _ => none
  | bound + 1, scene, id => do
    let (scene, committed) ←
      if (scene.nodes id).subtreeModifiedButNotCommitted then
        (scene.nodes id).children.foldlM (fun (scene, committed) (_, child) => do
          let (scene, more) ← scene.traverse bound child
          return (scene, committed ++ more)) (scene, [])
      else some (scene, [])
    if (scene.nodes id).subtreeModifiedButNotCommitted then
      return (scene.markAsCommitted id, committed ++ [id])
    else return (scene, committed)

/-- `Node::commit`. One level more than there are nodes is enough. -/
def Scene.commit (scene : Scene V) (root : Nat) : Option (Scene V × List Nat) :=
  scene.traverse (scene.size + 1) root

/-! ## Histories -/

/-- What is done to the nodes. -/
inductive Call (V : Type) where
  | createNode (name : String) (value : Option V)
  | createChild (id : Nat) (name : String) (value : Option V)
  | add (id node : Nat)
  | addAs (id node : Nat) (name : String)
  | setChild (id : Nat) (name : String) (node : Nat)
  | remove (id : Nat) (name : String)
  | setValue (id : Nat) (value : V)
  | markAsModified (id : Nat)
  | commit (root : Nat)

/-- The scene after a call. -/
def perform [BEq V] (scene : Scene V) : Call V → Option (Scene V)
  | .createNode name value => scene.createNode name value
  | .createChild id name value => scene.createChild id name value
  | .add id node => some (scene.add id node (scene.nodes node).name)
  | .addAs id node name => some (scene.add id node name)
  | .setChild id name node => some (scene.setChild id name node)
  | .remove id name => some (scene.remove id name)
  | .setValue id value => scene.setValue id value
  | .markAsModified id => scene.markAsModified id
  | .commit root => (scene.commit root).map (·.1)

end Ospray.Sg
