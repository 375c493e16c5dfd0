import Mathlib.Logic.Relation
import Mathlib.Order.MinMax
import Ospray.Library.Whiles

/-!
# Traversals with an explicit stack

A tree is stored by references: a reference leads to a leaf, or to a label and to the
references of two children. A traversal goes down from a reference, and keeps the child
that it comes back to on a stack, with a key that says later whether the child is still
wanted. Over a finite tree such a loop ends, and its result is that of the recursion over
the tree. At no time does the stack hold more entries than there are nodes on a way down
from which it comes back to a child.
-/

namespace Library.StackTraversals

open Library.Whiles Relation

universe u v w x y
variable {ρ : Type u} {ν : Type v} {β : Type w} {κ : Type x} {σ : Type y}

/-- What a reference leads to. -/
inductive Cell (ρ : Type u) (ν : Type v) (β : Type w) where
  | leaf (item : β)
  | inner (label : ν) (left right : ρ)

/-- A binary tree with labels at the inner nodes. -/
inductive LabelTree (ν : Type v) (β : Type w) where
  | leaf (item : β)
  | inner (label : ν) (left right : LabelTree ν β)

namespace LabelTree

/-- The number of inner nodes on the longest way down. -/
def height : LabelTree ν β → Nat
  | leaf _ => 0
  | inner _ left right => max left.height right.height + 1

/-- The greatest number of inner nodes on a way down that a label marks on the side it goes to. -/
def forks (marksLeft marksRight : ν → Bool) : LabelTree ν β → Nat
  | leaf _ => 0
  | inner label left right =>
    max (left.forks marksLeft marksRight + if marksLeft label then 1 else 0)
      (right.forks marksLeft marksRight + if marksRight label then 1 else 0)

/-- The leaves from left to right. -/
def leaves : LabelTree ν β → List β
  | leaf item => [item]
  | inner _ left right => left.leaves ++ right.leaves

theorem forks_le_height (marksLeft marksRight : ν → Bool) (tree : LabelTree ν β) :
    tree.forks marksLeft marksRight ≤ tree.height := by
  induction tree with
  | leaf item => exact Nat.le_refl 0
  | inner label left right leftLe rightLe =>
    have one : ∀ mark : Bool, (if mark then 1 else 0) ≤ 1 := by decide
    rw [forks, height, ← Nat.add_max_add_right]
    exact max_le_max (Nat.add_le_add leftLe (one _)) (Nat.add_le_add rightLe (one _))

variable {ν' : Type v} {β' : Type w}

/-- Other labels and other items. -/
def map (onLabel : ν → ν') (onItem : β → β') : LabelTree ν β → LabelTree ν' β'
  | leaf item => leaf (onItem item)
  | inner label left right => inner (onLabel label) (left.map onLabel onItem) (right.map onLabel onItem)

@[simp] theorem leaves_map (onLabel : ν → ν') (onItem : β → β') (tree : LabelTree ν β) :
    (tree.map onLabel onItem).leaves = tree.leaves.map onItem := by
  induction tree with
  | leaf item => rfl
  | inner label left right leftSame rightSame =>
    rw [map, leaves, leaves, leftSame, rightSame, List.map_append]

end LabelTree

/-- A reference leads to the root of a finite tree. -/
inductive Stores (fetch : ρ → Cell ρ ν β) : ρ → LabelTree ν β → Prop
  | leaf {ref : ρ} {item : β} (cell : fetch ref = .leaf item) : Stores fetch ref (.leaf item)
  | inner {ref first second : ρ} {label : ν} {left right : LabelTree ν β}
      (cell : fetch ref = .inner label first second) (storesLeft : Stores fetch first left)
      (storesRight : Stores fetch second right) : Stores fetch ref (.inner label left right)

/-- Where a traversal goes from an inner node. A key is kept for the child that comes later. -/
inductive Choice (κ : Type x) where
  | neither
  | left
  | right
  | leftFirst (later : κ)
  | rightFirst (later : κ)

/-- A traversal that carries data. -/
structure Traversal (ν : Type v) (β : Type w) (κ : Type x) (σ : Type y) where
  choose : ν → σ → Choice κ
  visit : β → σ → Pass σ
  wanted : κ → σ → Bool

/-- The state of the loop. -/
structure State (ρ : Type u) (κ : Type x) (σ : Type y) where
  current : ρ
  stack : List (ρ × κ)
  data : σ

variable (fetch : ρ → Cell ρ ν β) (traversal : Traversal ν β κ σ)

/-- Take the next reference from the stack that is still wanted. -/
def pop (current : ρ) (data : σ) : List (ρ × κ) → Pass (State ρ κ σ)
  | [] => .leave ⟨current, [], data⟩
  | (ref, key) :: rest =>
    if traversal.wanted key data then .again ⟨ref, rest, data⟩ else pop current data rest

/-- One pass of the loop. -/
def body (state : State ρ κ σ) : Pass (State ρ κ σ) :=
  match fetch state.current with
  | .leaf item =>
    match traversal.visit item state.data with
    | .leave data => .leave { state with data := data }
    | .again data => pop traversal state.current data state.stack
  | .inner label left right =>
    match traversal.choose label state.data with
    | .neither => pop traversal state.current state.data state.stack
    | .left => .again { state with current := left }
    | .right => .again { state with current := right }
    | .leftFirst later => .again { state with current := left, stack := (right, later) :: state.stack }
    | .rightFirst later => .again { state with current := right, stack := (left, later) :: state.stack }

/-- The recursion over the tree. -/
def walk : LabelTree ν β → σ → Pass σ
  | .leaf item, data => traversal.visit item data
  | .inner label left right, data =>
    match traversal.choose label data with
    | .neither => .again data
    | .left => walk left data
    | .right => walk right data
    | .leftFirst later =>
      match walk left data with
      | .leave data => .leave data
      | .again data => if traversal.wanted later data then walk right data else .again data
    | .rightFirst later =>
      match walk right data with
      | .leave data => .leave data
      | .again data => if traversal.wanted later data then walk left data else .again data

variable {fetch : ρ → Cell ρ ν β} {traversal : Traversal ν β κ σ}

/-! ## The result -/

/-- The loop ends with a result. -/
def EndsWith (fetch : ρ → Cell ρ ν β) (traversal : Traversal ν β κ σ) (state : State ρ κ σ)
    (result : σ) : Prop :=
  ∃ last, Returns (body fetch traversal) state last ∧ last.data = result

/-- A pass leads to a result. -/
def LeadsTo (fetch : ρ → Cell ρ ν β) (traversal : Traversal ν β κ σ) (result : σ) :
    Pass (State ρ κ σ) → Prop
  | .leave last => last.data = result
  | .again next => EndsWith fetch traversal next result

/-- What is left to do after a subtree leads to a result. -/
def Resumes (fetch : ρ → Cell ρ ν β) (traversal : Traversal ν β κ σ) (stack : List (ρ × κ))
    (result : σ) : Pass σ → Prop
  | .leave data => data = result
  | .again data => ∀ current, LeadsTo fetch traversal result (pop traversal current data stack)

variable {state : State ρ κ σ} {result : σ}

theorem endsWith_of_pass {pass : Pass (State ρ κ σ)} (first : body fetch traversal state = pass)
    (leads : LeadsTo fetch traversal result pass) : EndsWith fetch traversal state result := by
  cases pass with
  | leave last => exact ⟨last, returns_leave first, leads⟩
  | again next =>
    obtain ⟨last, returns, same⟩ := leads
    exact ⟨last, returns_again first returns, same⟩

theorem resumes_later {stack : List (ρ × κ)} {later : κ} {ref : ρ} {after : σ → Pass σ} {first : Pass σ}
    (endsSecond : ∀ data, Resumes fetch traversal stack result (after data) →
      EndsWith fetch traversal ⟨ref, stack, data⟩ result)
    (resumes : Resumes fetch traversal stack result
      (match first with
      | .leave data => .leave data
      | .again data => if traversal.wanted later data then after data else .again data)) :
    Resumes fetch traversal ((ref, later) :: stack) result first := by
  cases first with
  | leave data => exact resumes
  | again data =>
    intro current
    rw [pop]
    by_cases wanted : traversal.wanted later data = true
    · simp only [wanted, if_true] at resumes ⊢
      exact endsSecond data resumes
    · simp only [wanted] at resumes ⊢
      exact resumes current

/-- From a stored tree the loop does what the recursion does, and goes on with the stack. The
induction is on the tree, for every stack. -/
theorem endsWith_of_stores {ref : ρ} {tree : LabelTree ν β} (stores : Stores fetch ref tree) :
    ∀ (stack : List (ρ × κ)) (data : σ), Resumes fetch traversal stack result (walk traversal tree data) →
      EndsWith fetch traversal ⟨ref, stack, data⟩ result := by
  induction stores with
  | @leaf ref item cell =>
    intro stack data resumes
    apply endsWith_of_pass rfl
    rw [walk] at resumes
    simp only [body, cell]
    cases visited : traversal.visit item data with
    | leave data =>
      rw [visited] at resumes
      exact resumes
    | again data =>
      rw [visited] at resumes
      exact resumes ref
  | @inner ref first second label left right cell storesLeft storesRight leftEnds rightEnds =>
    intro stack data resumes
    apply endsWith_of_pass rfl
    rw [walk] at resumes
    simp only [body, cell]
    cases chosen : traversal.choose label data with
    | neither =>
      rw [chosen] at resumes
      exact resumes ref
    | left =>
      rw [chosen] at resumes
      exact leftEnds stack data resumes
    | right =>
      rw [chosen] at resumes
      exact rightEnds stack data resumes
    | leftFirst later =>
      rw [chosen] at resumes
      exact leftEnds _ data (resumes_later (rightEnds stack) resumes)
    | rightFirst later =>
      rw [chosen] at resumes
      exact rightEnds _ data (resumes_later (leftEnds stack) resumes)

theorem endsWith_walk {ref : ρ} {tree : LabelTree ν β} (stores : Stores fetch ref tree) (data : σ) :
    EndsWith fetch traversal ⟨ref, [], data⟩ (walk traversal tree data).result := by
  apply endsWith_of_stores stores [] data
  cases walk traversal tree data with
  | leave last => rfl
  | again last =>
    intro current
    rfl

/-! ## The stack -/

section Stack

variable (fetch) (traversal) (marksLeft marksRight : ν → Bool) (invariant : σ → Prop) (bound : Nat)

/-- The entries of a stack lead to trees with no more marked nodes on a way down than there is room
above them. -/
def Pending : List (ρ × κ) → Prop
  | [] => True
  | (ref, _) :: below =>
    (∃ tree, Stores fetch ref tree ∧ tree.forks marksLeft marksRight + below.length ≤ bound) ∧ Pending below

/-- The tree that is gone down into does so, too. -/
structure Fits (state : State ρ κ σ) : Prop where
  current : ∃ tree, Stores fetch state.current tree ∧
    tree.forks marksLeft marksRight + state.stack.length ≤ bound
  pending : Pending fetch marksLeft marksRight bound state.stack
  data : invariant state.data

/-- A traversal goes first to one child, and then to the other, where this side is marked. -/
structure Marks : Prop where
  left : ∀ label data later, invariant data → traversal.choose label data = .leftFirst later →
    marksLeft label = true
  right : ∀ label data later, invariant data → traversal.choose label data = .rightFirst later →
    marksRight label = true
  visits : ∀ item data next, invariant data → traversal.visit item data = .again next → invariant next

variable {fetch traversal marksLeft marksRight invariant bound} {next : State ρ κ σ}

theorem Fits.length_le (fits : Fits fetch marksLeft marksRight invariant bound state) :
    state.stack.length ≤ bound := by
  obtain ⟨tree, -, room⟩ := fits.current
  omega

theorem fits_pop {current : ρ} {data : σ} {stack : List (ρ × κ)} (holds : invariant data)
    (pending : Pending fetch marksLeft marksRight bound stack)
    (popped : pop traversal current data stack = .again next) :
    Fits fetch marksLeft marksRight invariant bound next := by
  induction stack with
  | nil => cases popped
  | cons entry rest inductionHypothesis =>
    rw [pop] at popped
    split at popped
    · obtain rfl := Pass.again.inj popped
      exact ⟨pending.1, pending.2, holds⟩
    · exact inductionHypothesis pending.2 popped

/-- A pass keeps what is pending within the bound: a child has no more marked nodes below it than its
parent, and one less if the other child is put on the stack. -/
theorem fits_body (marks : Marks traversal marksLeft marksRight invariant)
    (fits : Fits fetch marksLeft marksRight invariant bound state)
    (passed : body fetch traversal state = .again next) :
    Fits fetch marksLeft marksRight invariant bound next := by
  obtain ⟨⟨tree, stores, room⟩, pending, holds⟩ := fits
  cases stores with
  | @leaf _ item cell =>
    simp only [body, cell] at passed
    split at passed
    · cases passed
    · next after visited => exact fits_pop (marks.visits item _ after holds visited) pending passed
  | @inner _ first second label left right cell storesLeft storesRight =>
    rw [LabelTree.forks] at room
    have leftRoom := Nat.le_max_left (left.forks marksLeft marksRight + if marksLeft label then 1 else 0)
      (right.forks marksLeft marksRight + if marksRight label then 1 else 0)
    have rightRoom := Nat.le_max_right (left.forks marksLeft marksRight + if marksLeft label then 1 else 0)
      (right.forks marksLeft marksRight + if marksRight label then 1 else 0)
    have goes : ∀ {ref : ρ} {child : LabelTree ν β}, Stores fetch ref child →
        child.forks marksLeft marksRight + state.stack.length ≤ bound →
        Fits fetch marksLeft marksRight invariant bound { state with current := ref } :=
      fun storesChild childRoom => ⟨⟨_, storesChild, childRoom⟩, pending, holds⟩
    have comesBack : ∀ {ref other : ρ} {child later : LabelTree ν β} (key : κ),
        Stores fetch ref child → Stores fetch other later →
        child.forks marksLeft marksRight + (state.stack.length + 1) ≤ bound →
        later.forks marksLeft marksRight + state.stack.length ≤ bound →
        Fits fetch marksLeft marksRight invariant bound
          { state with current := ref, stack := (other, key) :: state.stack } :=
      fun key storesChild storesLater childRoom laterRoom =>
        ⟨⟨_, storesChild, childRoom⟩, ⟨⟨_, storesLater, laterRoom⟩, pending⟩, holds⟩
    simp only [body, cell] at passed
    cases chosen : traversal.choose label state.data with
    | neither =>
      rw [chosen] at passed
      exact fits_pop holds pending passed
    | left =>
      rw [chosen] at passed
      obtain rfl := Pass.again.inj passed
      exact goes storesLeft (by omega)
    | right =>
      rw [chosen] at passed
      obtain rfl := Pass.again.inj passed
      exact goes storesRight (by omega)
    | leftFirst later =>
      rw [chosen] at passed
      obtain rfl := Pass.again.inj passed
      rw [if_pos (marks.left label _ later holds chosen)] at room leftRoom
      exact comesBack later storesLeft storesRight (by omega) (by omega)
    | rightFirst later =>
      rw [chosen] at passed
      obtain rfl := Pass.again.inj passed
      rw [if_pos (marks.right label _ later holds chosen)] at room rightRoom
      exact comesBack later storesRight storesLeft (by omega) (by omega)

/-- In every state that a traversal of a stored tree comes to, the stack is no longer than there are
marked nodes on some way down. -/
theorem length_le_forks (marks : Marks traversal marksLeft marksRight invariant) {ref : ρ} {tree : LabelTree ν β}
    (stores : Stores fetch ref tree) {data : σ} (holds : invariant data)
    (reached : Reaches (body fetch traversal) ⟨ref, [], data⟩ state) :
    state.stack.length ≤ tree.forks marksLeft marksRight := by
  have start : Fits fetch marksLeft marksRight invariant (tree.forks marksLeft marksRight)
      (⟨ref, [], data⟩ : State ρ κ σ) :=
    ⟨⟨tree, stores, Nat.le_refl _⟩, trivial, holds⟩
  have fits := reached.keeps (fun _ _ kept passed => fits_body marks kept passed) start
  exact fits.length_le

end Stack

end Library.StackTraversals
