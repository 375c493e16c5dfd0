import Ospray.Sg.Histories
import Ospray.Sg.Relinking

/-!
# Verification

A verification stores in each node whether the node and its required children are
valid. It leaves out the children of a node that was found valid and has had no
modification below it since, and takes what is stored for them.

Flags and lists of a node are set before its first verification and only read here,
so they are given for all nodes at once. Exceptions for invalid nodes are switched
off.
-/

namespace Ospray.Sg

open Library.Forests Relation

variable {V : Type}

/-! ## The verification of a node -/

def NodeFlags.required : Nat := 1 <<< 1

def NodeFlags.valid_min_max : Nat := 1 <<< 2

def NodeFlags.valid_whitelist : Nat := 1 <<< 3

def NodeFlags.valid_blacklist : Nat := 1 <<< 4

/-- What `computeValid` reads of a node besides its value. -/
structure Checks (V : Type) where
  flags : Nat
  minmax : List V
  whitelist : List V
  blacklist : List V
  /-- the virtual function, on the minimum, the maximum and the value -/
  computeValidMinMax : V → V → Option V → Bool
  /-- for an `HDRILight`: the value of its map is an object other than null -/
  isObject : Option (Option V → Bool)

/-- The flag is set. -/
def Checks.has (checks : Checks V) (flag : Nat) : Bool := checks.flags &&& flag != 0

section Computed

variable [BEq V]

/-- The value is in the list. -/
def listed (values : List V) (value : Option V) : Bool :=
  values.any fun element => value.any (element == ·)

/-- `Node::computeValid` -/
def Checks.computeValid (checks : Checks V) (value : Option V) : Bool :=
  let valid := true
  let valid := if checks.has NodeFlags.valid_min_max then
      match checks.minmax with
      | min :: max :: _ => if !checks.computeValidMinMax min max value then false else valid
      | _ => valid
    else valid
  let valid := if checks.has NodeFlags.valid_blacklist then
    valid && !listed checks.blacklist value else valid
  let valid := if checks.has NodeFlags.valid_whitelist then
    valid && listed checks.whitelist value else valid
  valid

/-- `computeValid` of a node, which `HDRILight` overrides. -/
def Scene.computeValid (scene : Scene V) (checks : Nat → Checks V) (id : Nat) : Bool :=
  match (checks id).isObject with
  | some isObject =>
    match (scene.nodes id).child? "map" with
    | some (_, child) =>
      if isObject (scene.nodes child).value then (checks id).computeValid (scene.nodes id).value else false
    | none => false
  | none => (checks id).computeValid (scene.nodes id).value

end Computed

/-! ## The traversal -/

/-- A scene, and the properties of its nodes that verifications use. -/
structure Verification (V : Type) where
  scene : Scene V
  lastVerified : Nat → Nat
  valid : Nat → Bool

namespace Verification

/-- One round of the loop in `postChildren`. -/
def combine (checks : Nat → Checks V) (id : Nat) (valid : Nat → Bool) (child : String × Nat) : Nat → Bool :=
  if (checks child.2).has NodeFlags.required then Function.update valid id (valid id && valid child.2)
  else valid

section Visitor

variable [BEq V] (checks : Nat → Checks V)

/-- `VerifyNodes::operator()`: whether to traverse the children. -/
def visit (state : Verification V) (id : Nat) : Bool × Verification V :=
  let traverseChildren :=
    !(state.valid id && decide ((state.scene.nodes id).childrenMTime < state.lastVerified id))
  let valid := Function.update state.valid id (state.scene.computeValid checks id)
  let (stamp, scene) := state.scene.timeStamp
  let lastVerified := Function.update state.lastVerified id stamp
  (traverseChildren, { scene, lastVerified, valid })

/-- `VerifyNodes::postChildren` -/
def postChildren (state : Verification V) (id : Nat) : Verification V :=
  { state with valid := (state.scene.nodes id).children.foldl (combine checks id) state.valid }

/-- `Node::traverse` with a `VerifyNodes`, with a bound on the depth. -/
def traverse : Nat → Verification V → Nat → Option (Verification V)
  | 0, _, _ => none
  | bound + 1, state, id => do
    let (traverseChildren, state) := state.visit checks id
    let state ←
      if traverseChildren then
        (state.scene.nodes id).children.foldlM (fun state (_, child) => traverse bound state child) state
      else some state
    return state.postChildren checks id

/-- `Node::verify`. One level more than there are nodes is enough. -/
def verify (state : Verification V) (root : Nat) : Option (Verification V) :=
  state.traverse checks (state.scene.size + 1) root

/-! ## Histories -/

/-- `createNode`. A node that has not been verified is not valid. -/
def createNode (state : Verification V) (name : String) (value : Option V) : Option (Verification V) := do
  let id := state.scene.size
  let (stamp, scene) := state.scene.timeStamp
  let scene ← scene.createNode name value
  return ⟨scene, Function.update state.lastVerified id stamp, Function.update state.valid id false⟩

/-- `Node::createChild` -/
def createChild (state : Verification V) (id : Nat) (name : String) (value : Option V) :
    Option (Verification V) := do
  let child := state.scene.size
  let state ← state.createNode name value
  return { state with scene := state.scene.add id child (state.scene.nodes child).name }

/-- What an application does between verifications, and the verifications. -/
inductive Request (V : Type) where
  | createNode (name : String) (value : Option V)
  | createChild (id : Nat) (name : String) (value : Option V)
  | add (id node : Nat)
  | addAs (id node : Nat) (name : String)
  | setValue (id : Nat) (value : V)
  | verify (root : Nat)

/-- The state after a request. -/
def perform (state : Verification V) : Request V → Option (Verification V)
  | .createNode name value => state.createNode name value
  | .createChild id name value => state.createChild id name value
  | .add id node => some { state with scene := state.scene.add id node (state.scene.nodes node).name }
  | .addAs id node name => some { state with scene := state.scene.add id node name }
  | .setValue id value => (state.scene.setValue id value).map fun scene => { state with scene }
  | .verify root => state.verify checks root

end Visitor

/-- Requests for existing nodes that keep a forest. -/
def Allowed (state : Verification V) : Request V → Prop
  | .createNode _ _ => True
  | .createChild id _ _ => id < state.scene.size
  | .add id node => state.scene.Attachable id node
  | .addAs id node _ => state.scene.Attachable id node
  | .setValue id _ => id < state.scene.size
  | .verify root => root < state.scene.size

end Verification

/-! ## Full verification -/

section Full

variable [BEq V] {checks : Nat → Checks V} {scene next : Scene V} {id node : Nat}

/-- A node is valid if it passes its own checks and all its required children are
valid. -/
inductive Scene.Valid (scene : Scene V) (checks : Nat → Checks V) : Nat → Prop
  | intro (id : Nat) (own : scene.computeValid checks id = true)
      (children : ∀ child, scene.Child id child → (checks child).has NodeFlags.required →
        scene.Valid checks child) : scene.Valid checks id

theorem valid_iff : scene.Valid checks id ↔ scene.computeValid checks id = true ∧
    ∀ child, scene.Child id child → (checks child).has NodeFlags.required → scene.Valid checks child :=
  ⟨fun ⟨_, own, children⟩ => ⟨own, children⟩, fun ⟨own, children⟩ => .intro id own children⟩

/-- The checks of a node read its value, its map and the values of its children. -/
theorem computeValid_eq (value : (next.nodes id).value = (scene.nodes id).value)
    (children : (next.nodes id).children = (scene.nodes id).children)
    (values : ∀ child, scene.Child id child → (next.nodes child).value = (scene.nodes child).value) :
    next.computeValid checks id = scene.computeValid checks id := by
  have found : (next.nodes id).child? "map" = (scene.nodes id).child? "map" := by
    rw [Node.child?, Node.child?, children]
  rw [Scene.computeValid, Scene.computeValid, found, value]
  cases (checks id).isObject with
  | none => rfl
  | some isObject =>
    cases entry : (scene.nodes id).child? "map" with
    | none => rfl
    | some entry_ =>
      have child : scene.Child id entry_.2 := List.mem_map.mpr ⟨entry_, child?_mem entry, rfl⟩
      dsimp only
      rw [values entry_.2 child]

/-- Nodes that pass the same checks and have the same children, also further below, are
equally valid. -/
theorem valid_agree {within : Nat → Prop}
    (closed : ∀ one, within one → ∀ child, scene.Child one child → within child)
    (agree : ∀ one, within one → next.computeValid checks one = scene.computeValid checks one ∧
      ∀ child, next.Child one child ↔ scene.Child one child)
    (member : within id) : next.Valid checks id ↔ scene.Valid checks id := by
  constructor
  · intro valid
    induction valid with
    | intro id own children inductionHypothesis =>
      obtain ⟨same, edges⟩ := agree id member
      refine .intro id (same ▸ own) fun child edge required => ?_
      exact inductionHypothesis child ((edges child).mpr edge) required (closed id member child edge)
  · intro valid
    induction valid with
    | intro id own children inductionHypothesis =>
      obtain ⟨same, edges⟩ := agree id member
      refine .intro id (same.symm ▸ own) fun child edge required => ?_
      have before := (edges child).mp edge
      exact inductionHypothesis child before required (closed id member child before)

theorem valid_elsewhere {touched : Nat}
    (agree : ∀ one, ¬scene.Below one touched →
      next.computeValid checks one = scene.computeValid checks one ∧
        ∀ child, next.Child one child ↔ scene.Child one child)
    (apart : ¬scene.Below id touched) : next.Valid checks id ↔ scene.Valid checks id :=
  valid_agree (fun _ apart _ edge below => apart (below.head edge)) agree apart

theorem valid_nodes (nodes : next.nodes = scene.nodes) : next.Valid checks id ↔ scene.Valid checks id := by
  apply @valid_agree V _ checks scene next id (fun _ => True) (fun _ _ _ _ => trivial) _ trivial
  intro one _
  refine ⟨computeValid_eq ?_ ?_ ?_, fun child => ?_⟩
  · rw [nodes]
  · rw [nodes]
  · intro child _
    rw [nodes]
  · rw [Scene.Child, Scene.Child, nodes]

/-- If the changed node stays as valid as it was, so do all. -/
theorem valid_everywhere {touched : Nat}
    (agree : ∀ one, one ≠ touched →
      next.computeValid checks one = scene.computeValid checks one ∧
        ∀ child, next.Child one child ↔ scene.Child one child)
    (here : next.Valid checks touched ↔ scene.Valid checks touched) :
    next.Valid checks id ↔ scene.Valid checks id := by
  constructor
  · intro valid
    induction valid with
    | intro id own children inductionHypothesis =>
      by_cases changed : id = touched
      · exact changed ▸ here.mp (changed ▸ .intro id own children)
      · obtain ⟨same, edges⟩ := agree id changed
        refine .intro id (same ▸ own) fun child edge required => ?_
        exact inductionHypothesis child ((edges child).mpr edge) required
  · intro valid
    induction valid with
    | intro id own children inductionHypothesis =>
      by_cases changed : id = touched
      · exact changed ▸ here.mpr (changed ▸ .intro id own children)
      · obtain ⟨same, edges⟩ := agree id changed
        refine .intro id (same.symm ▸ own) fun child edge required => ?_
        exact inductionHypothesis child ((edges child).mp edge) required

end Full

end Ospray.Sg
