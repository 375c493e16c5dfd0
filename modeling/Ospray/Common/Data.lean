import Ospray.Common.DataTypes
import Ospray.Library.CountedOwners
import Ospray.Library.Runs

/-!
# Data arrays and their elements

A data array holds elements that may be objects. Its memory is its own, or shared with the application,
which may write to it at any time. The constructor counts up the objects that it finds among the elements,
and the destructor counts down those that it finds there then, both for arrays of `OSP_OBJECT` only.

Objects live in numbered slots that are vacated when the object is destroyed, and an address of shared memory
is the number of an element.
-/

namespace Ospray.Elements

open Library.CountedOwners Library.Runs Library.Slots

/-- The types of elements that are objects. -/
def isObjectType : DataType → Bool
  | .object | .camera | .data | .framebuffer | .geometry | .light | .material | .model | .renderer | .texture
  | .transferFunction | .volume | .pixelOp => true
  | _ => false

/-- The memory of the application, where it stores handles. -/
abbrev Memory := Nat → Option Nat

/-- Some handles at an address. -/
def Memory.read (memory : Memory) (address numItems : Nat) : List (Option Nat) :=
  (List.range numItems).map fun i => memory (address + i)

/-- Where the elements of an array are: in its own memory, or with the application. Its own memory may be left
uninitialized. -/
inductive Buffer where
  | own (elements : List (Option Nat))
  | uninitialized
  | shared (address : Nat)

/-- `Data`, as far as its elements are objects. -/
structure Data where
  numItems : Nat
  type : DataType
  data : Buffer

/-- The elements that the memory of an array holds now. -/
def Data.elements (memory : Memory) (array : Data) : List (Option Nat) :=
  match array.data with
  | .own elements => elements
  | .uninitialized => []
  | .shared address => memory.read address array.numItems

/-- The objects that the constructor counts up and the destructor counts down. -/
def Data.children (memory : Memory) (array : Data) : List Nat :=
  if array.type = .object then (array.elements memory).filterMap id else []

/-- `Data::Data`, without counting. There is no result if a shared buffer is null, or if the number of elements
passes the index of the loop, which would never end. -/
def Data.new (memory : Memory) (numItems : Nat) (type : DataType) (init : Option Nat) (shared : Bool) : Option Data :=
  if type = .object ∧ 2 ^ 32 ≤ numItems then none
  else
    match init, shared with
    | none, true => none
    | some address, true => some ⟨numItems, type, .shared address⟩
    | some address, false => some ⟨numItems, type, .own (memory.read address numItems)⟩
    | none, false =>
      some ⟨numItems, type, if type = .object then .own (List.replicate numItems none) else .uninitialized⟩

/-- What is known of an object: the array that it may be, the objects that were passed to that array at its
creation, and those that it has counted up. -/
structure Entry where
  array : Option Data
  passed : List Nat
  taken : List Nat

/-- What the destructor counts down. -/
def Entry.walked (memory : Memory) (entry : Entry) : List Nat :=
  entry.array.elim [] (Data.children memory)

/-- The objects, the memory of the application, its handles, and the objects that have been destroyed. -/
structure Session where
  heap : Heap 32 Entry
  memory : Memory
  handles : Nat → Nat
  deaths : List (Death Entry)

/-- What the application does. -/
inductive Call where
  | newObject
  | newData (numItems : Nat) (type : DataType) (init : Option Nat) (shared : Bool)
  | write (address : Nat) (value : Option Nat)
  | release (object : Nat)

/-- The objects that are passed to a new array. -/
def passed (memory : Memory) (numItems : Nat) (init : Option Nat) : List Nat :=
  init.elim [] fun address => (memory.read address numItems).filterMap id

namespace Session

/-- Before the first call. -/
def initial : Session := { heap := [], memory := fun _ => none, handles := fun _ => 0, deaths := [] }

/-- An object that has not been destroyed. -/
def Alive (session : Session) (object : Nat) : Prop := ∃ cell, occupant session.heap object = some cell

/-- A new object, with one handle. -/
def create (session : Session) (entry : Entry) : Session :=
  { session with
    heap := session.heap ++ [some ⟨1, entry⟩]
    handles := Function.update session.handles session.heap.length 1 }

/-- What a call does. -/
def perform (session : Session) : Call → Option Session
  | .newObject => some (session.create ⟨none, [], []⟩)
  | .newData numItems type init shared => do
    let array ← Data.new session.memory numItems type init shared
    let taken := array.children session.memory
    let heap ← countUp session.heap taken
    return { session with heap }.create ⟨some array, passed session.memory numItems init, taken⟩
  | .write address value => some { session with memory := Function.update session.memory address value }
  | .release object => do
    let (heap, deaths) ← countDown (Entry.walked session.memory) session.heap session.deaths [object]
    return { session with
      heap, deaths, handles := Function.update session.handles object (session.handles object - 1) }

/-- What the application may do: pass arrays of living objects, store the handles of living objects, release what
it has a handle of. -/
def Allowed (session : Session) : Call → Prop
  | .newObject => True
  | .newData numItems type init shared =>
    isObjectType type ∧ (shared = true → init ≠ none) ∧
      ∀ object ∈ passed session.memory numItems init, session.Alive object
  | .write _ value => ∀ object, value = some object → session.Alive object
  | .release object => 0 < session.handles object

/-- A call that the application may make. -/
def Step (before after : Session) : Prop := ∃ call, before.Allowed call ∧ before.perform call = some after

/-- Arrays own their elements: what has been passed to a living array is alive, and every array that has been
destroyed has given back what it had taken. Each object is destroyed once. -/
structure Owns (session : Session) : Prop where
  alive : ∀ owner cell, occupant session.heap owner = some cell →
    ∀ object ∈ cell.content.passed, session.Alive object
  returned : ∀ death ∈ session.deaths, death.given.Perm death.content.taken
  once : Recorded session.heap session.deaths

/-! ## When arrays own their elements -/

/-- What stays when some handles remain: objects with a handle, and what a staying array has counted up. -/
inductive Kept (session : Session) (handles : Nat → Nat) : Nat → Prop
  | held {object : Nat} (handle : 0 < handles object) : Kept session handles object
  | taken {owner object : Nat} {cell : Cell 32 Entry} (live : occupant session.heap owner = some cell)
      (keeps : Kept session handles owner) (mine : object ∈ cell.content.taken) : Kept session handles object

/-- The handles without one of them. -/
def remaining (session : Session) (object : Nat) : Nat → Nat :=
  Function.update session.handles object (session.handles object - 1)

/-- The condition under which a handle may be released. The memory of every shared array of `OSP_OBJECT` that does
not stay holds the objects that the array had counted up, in any order. What was passed to a staying array of
another type stays. -/
structure Releasable (session : Session) (object : Nat) : Prop where
  unchanged : ∀ owner cell array address, occupant session.heap owner = some cell →
    cell.content.array = some array → array.type = .object → array.data = .shared address →
    ¬Kept session (session.remaining object) owner → (array.children session.memory).Perm cell.content.taken
  staying : ∀ owner cell array, occupant session.heap owner = some cell → cell.content.array = some array →
    array.type ≠ .object → Kept session (session.remaining object) owner →
    ∀ element ∈ cell.content.passed, Kept session (session.remaining object) element

/-- The condition for each call. The counters of the elements of a new array of `OSP_OBJECT` do not go round. -/
def Admissible (session : Session) : Call → Prop
  | .newObject | .write _ _ => True
  | .newData numItems type init _ =>
    type = .object → ∀ object ∈ passed session.memory numItems init,
      references Entry.taken session.heap session.handles [] object +
        (passed session.memory numItems init).count object ≤ 2 ^ 32
  | .release object => session.Releasable object

/-- A call that meets the condition. -/
def AdmissibleStep (before after : Session) : Prop :=
  ∃ call, before.Allowed call ∧ before.Admissible call ∧ before.perform call = some after

end Session

/-- The loops over the elements end. -/
def Call.Ends : Call → Prop
  | .newData numItems type _ _ => type = .object → numItems < 2 ^ 32
  | _ => True

/-! ## What the constructor counts up -/

/-- How what an array counts up is related to what was passed to it, and to what its destructor will count down. -/
structure Entry.Faithful (entry : Entry) : Prop where
  other : entry.array = none → entry.passed = [] ∧ entry.taken = []
  object : ∀ array, entry.array = some array → array.type = .object → entry.taken = entry.passed
  subtype : ∀ array, entry.array = some array → array.type ≠ .object → entry.taken = []
  own : ∀ array, entry.array = some array → array.type = .object →
    (∀ address, array.data ≠ .shared address) → ∀ memory, array.children memory = entry.taken

theorem Data.children_of_ne {array : Data} (subtype : array.type ≠ .object) (memory : Memory) :
    array.children memory = [] :=
  if_neg subtype

theorem Data.new_type {memory : Memory} {numItems : Nat} {type : DataType} {init : Option Nat} {shared : Bool}
    {array : Data} (made : Data.new memory numItems type init shared = some array) : array.type = type := by
  unfold Data.new at made
  split at made
  · cases made
  · cases init <;> cases shared <;> cases made <;> rfl

/-- The constructor makes an array if its loop ends and a shared buffer is not null. -/
theorem Data.new_defined (memory : Memory) {numItems : Nat} {type : DataType} {init : Option Nat} {shared : Bool}
    (ends : type = .object → numItems < 2 ^ 32) (given : shared = true → init ≠ none) :
    ∃ array, Data.new memory numItems type init shared = some array := by
  unfold Data.new
  rw [if_neg fun endless => absurd (ends endless.1) (Nat.not_lt.mpr endless.2)]
  cases init with
  | none =>
    cases shared with
    | false => exact ⟨_, rfl⟩
    | true => exact absurd rfl (given rfl)
  | some address =>
    cases shared with
    | false => exact ⟨_, rfl⟩
    | true => exact ⟨_, rfl⟩

theorem Data.new_children {memory : Memory} {numItems : Nat} {init : Option Nat} {shared : Bool}
    {array : Data} (made : Data.new memory numItems .object init shared = some array) :
    array.children memory = passed memory numItems init := by
  unfold Data.new at made
  split at made
  · cases made
  · cases init <;> cases shared <;> cases made
    · simp [Data.children, Data.elements, passed]
    · rfl
    · rfl

theorem Data.new_faithful {memory : Memory} {numItems : Nat} {type : DataType} {init : Option Nat} {shared : Bool}
    {array : Data} (made : Data.new memory numItems type init shared = some array) :
    Entry.Faithful ⟨some array, passed memory numItems init, array.children memory⟩ := by
  have same := Data.new_type made
  constructor
  · intro none_
    cases none_
  · rintro found ⟨⟩ object
    obtain rfl : type = .object := same.symm.trans object
    exact Data.new_children made
  · rintro found ⟨⟩ subtype
    exact Data.children_of_ne subtype memory
  · rintro found ⟨⟩ object own later
    cases buffer : array.data with
    | own elements => simp only [Data.children, Data.elements, buffer]
    | uninitialized => simp only [Data.children, Data.elements, buffer]
    | shared address => exact absurd buffer (own address)

theorem Entry.Faithful.subset {entry : Entry} (faithful : entry.Faithful) : entry.taken ⊆ entry.passed := by
  intro object member
  cases found : entry.array with
  | none =>
    rw [(faithful.other found).2] at member
    cases member
  | some array =>
    by_cases type : array.type = .object
    · rwa [faithful.object array found type] at member
    · rw [faithful.subtype array found type] at member
      cases member

/-! ## The steps -/

namespace Session

/-- What every run keeps. The counters are exact, arrays count up older objects only, and every entry is faithful. -/
structure Sound (session : Session) : Prop where
  balanced : Library.CountedOwners.Balanced Entry.taken session.heap session.handles []
  older : ∀ owner cell, occupant session.heap owner = some cell → ∀ object ∈ cell.content.taken, object < owner
  faithful : ∀ owner cell, occupant session.heap owner = some cell → cell.content.Faithful
  owns : session.Owns

/-- Nothing is owned before the first call. -/
theorem initial_sound : initial.Sound := by
  have nothing (owner : Nat) (cell : Cell 32 Entry) : occupant initial.heap owner ≠ some cell := by
    intro live
    cases live
  have unreferenced (pointer : Nat) : references Entry.taken initial.heap initial.handles [] pointer = 0 := rfl
  refine ⟨⟨?_, ?_, ?_, ?_⟩, ?_, ?_, ⟨?_, ?_, ?_⟩⟩
  · exact fun pointer cell live => absurd live (nothing pointer cell)
  · intro pointer positive
    rw [unreferenced] at positive
    exact absurd positive (Nat.lt_irrefl 0)
  · exact fun pointer cell live => absurd live (nothing pointer cell)
  · exact fun pointer cell live => absurd live (nothing pointer cell)
  · exact fun pointer cell live => absurd live (nothing pointer cell)
  · exact fun pointer cell live => absurd live (nothing pointer cell)
  · exact fun pointer cell live => absurd live (nothing pointer cell)
  · intro death member
    cases member
  · refine ⟨List.nodup_nil, ?_⟩
    intro pointer
    exact ⟨fun member => (nomatch member), fun inside => absurd inside.1 (Nat.not_lt_zero _)⟩

/-- A new object leaves the session sound, if what it counts up has been counted. -/
theorem Sound.create_sound {session : Session} (sound : session.Sound) {heap : Heap 32 Entry} {entry : Entry}
    (balanced : Library.CountedOwners.Balanced Entry.taken heap session.handles entry.taken)
    (contents : content heap = content session.heap) (length : heap.length = session.heap.length)
    (alive : ∀ object ∈ entry.passed, session.Alive object) (faithful : entry.Faithful) :
    ({ session with heap }.create entry).Sound := by
  have cases_ {owner : Nat} {cell : Cell 32 Entry} (live : occupant (heap ++ [some ⟨1, entry⟩]) owner = some cell) :
      owner = heap.length ∧ cell.content = entry ∨
        ∃ before, occupant session.heap owner = some before ∧ before.content = cell.content := by
    rw [occupant_append] at live
    by_cases last : owner = heap.length
    · rw [if_pos last] at live
      exact .inl ⟨last, congrArg Cell.content (Option.some.inj live).symm⟩
    · rw [if_neg last] at live
      exact .inr (occupant_of_content (congrFun contents owner) live)
  have stays {object : Nat} (lives : session.Alive object) :
      ({ session with heap }.create entry).Alive object := by
    obtain ⟨cell, live⟩ := lives
    obtain ⟨after, found, -⟩ := occupant_of_content (congrFun contents object).symm live
    have before := occupant_lt found
    exact ⟨after, by rw [create, occupant_append, if_neg (Nat.ne_of_lt before), found]⟩
  refine ⟨balanced.append, ?_, ?_, ⟨?_, sound.owns.returned, ?_⟩⟩
  · intro owner cell live object member
    obtain ⟨rfl, same⟩ | ⟨before, found, same⟩ := cases_ live
    · rw [same] at member
      obtain ⟨old, lives⟩ := alive object (faithful.subset member)
      rw [length]
      exact occupant_lt lives
    · rw [← same] at member
      exact sound.older owner before found object member
  · intro owner cell live
    obtain ⟨-, same⟩ | ⟨before, found, same⟩ := cases_ live
    · rwa [same]
    · rw [← same]
      exact sound.faithful owner before found
  · intro owner cell live object member
    obtain ⟨-, same⟩ | ⟨before, found, same⟩ := cases_ live
    · rw [same] at member
      exact stays (alive object member)
    · rw [← same] at member
      exact stays (sound.owns.alive owner before found object member)
  · exact (sound.owns.once.congr contents length).append ⟨1, entry⟩

theorem Sound.write {session : Session} (sound : session.Sound) (address : Nat) (value : Option Nat) :
    Sound { session with memory := Function.update session.memory address value } :=
  ⟨sound.balanced, sound.older, sound.faithful, ⟨sound.owns.alive, sound.owns.returned, sound.owns.once⟩⟩

theorem newObject_sound {session : Session} (sound : session.Sound) : (session.create ⟨none, [], []⟩).Sound := by
  apply sound.create_sound sound.balanced rfl rfl
  · intro object member
    cases member
  · refine ⟨fun _ => ⟨rfl, rfl⟩, ?_, ?_, ?_⟩
    all_goals exact fun array none_ => nomatch none_

/-- A new array is sound if the counters of its elements have room. -/
theorem newData_sound {session : Session} (sound : session.Sound) {numItems : Nat} {type : DataType}
    {init : Option Nat} {shared : Bool} (allowed : session.Allowed (.newData numItems type init shared))
    (admissible : session.Admissible (.newData numItems type init shared)) {array : Data}
    (made : Data.new session.memory numItems type init shared = some array) :
    ∃ next, session.perform (.newData numItems type init shared) = some next ∧ next.Sound := by
  obtain ⟨-, -, alive⟩ := allowed
  have faithful := Data.new_faithful made
  have same := Data.new_type made
  have living : ∀ object ∈ array.children session.memory, session.Alive object :=
    fun object member => alive object (faithful.subset member)
  have room : ∀ object, references Entry.taken session.heap session.handles [] object +
      (array.children session.memory).count object ≤ 2 ^ 32 := by
    intro object
    by_cases member : object ∈ array.children session.memory
    · by_cases isObject : type = .object
      · have whole : array.children session.memory = passed session.memory numItems init :=
          faithful.object array rfl (same.trans isObject)
        rw [whole] at member ⊢
        exact admissible isObject object member
      · rw [Data.children_of_ne (same ▸ isObject)] at member
        cases member
    · rw [List.count_eq_zero_of_not_mem member, Nat.add_zero]
      by_contra large
      obtain ⟨cell, live⟩ := sound.balanced.alive object (by omega)
      exact large (sound.balanced.bounded object cell live)
  obtain ⟨heap, counted, balanced, contents, length⟩ := countUp_spec sound.balanced living room
  rw [List.append_nil] at balanced
  refine ⟨{ session with heap }.create
    ⟨some array, passed session.memory numItems init, array.children session.memory⟩, ?_, ?_⟩
  · simp only [perform, made, counted, Option.bind_eq_bind, Option.bind_some]
    rfl
  · exact sound.create_sound balanced contents length alive faithful

/-- Under the condition, an array that does not stay gives back what it has counted up. -/
theorem Sound.walked {session : Session} (sound : session.Sound) {object owner : Nat} {cell : Cell 32 Entry}
    (releasable : session.Releasable object) (live : occupant session.heap owner = some cell)
    (drops : ¬Kept session (session.remaining object) owner) :
    (cell.content.walked session.memory).Perm cell.content.taken := by
  have faithful := sound.faithful owner cell live
  rw [Entry.walked]
  cases found : cell.content.array with
  | none =>
    rw [(faithful.other found).2]
    exact List.Perm.refl _
  | some array =>
    rw [Option.elim_some]
    by_cases isObject : array.type = .object
    · by_cases shared : ∃ address, array.data = .shared address
      · obtain ⟨address, shared⟩ := shared
        exact releasable.unchanged owner cell array address live found isObject shared drops
      · rw [faithful.own array found isObject (not_exists.mp shared)]
    · rw [Data.children_of_ne isObject, faithful.subtype array found isObject]

theorem Sound.stays {session : Session} (sound : session.Sound) {object owner : Nat} {cell : Cell 32 Entry}
    (releasable : session.Releasable object) (live : occupant session.heap owner = some cell)
    (keeps : Kept session (session.remaining object) owner) :
    ∀ element ∈ cell.content.passed, Kept session (session.remaining object) element := by
  intro element member
  have faithful := sound.faithful owner cell live
  cases found : cell.content.array with
  | none =>
    rw [(faithful.other found).1] at member
    cases member
  | some array =>
    by_cases isObject : array.type = .object
    · rw [← faithful.object array found isObject] at member
      exact .taken live keeps member
    · exact releasable.staying owner cell array live found isObject keeps element member

/-- What counting down leaves of a sound session is sound under the condition: everything that lives has stayed. -/
theorem Sound.released {session : Session} (sound : session.Sound) {object : Nat}
    (releasable : session.Releasable object) {heap : Heap 32 Entry} {new : List (Death Entry)}
    (released : Released (Entry.walked session.memory) Entry.taken (Kept session (session.remaining object))
      (session.remaining object) session.heap heap new)
    (recorded : Recorded heap (session.deaths ++ new)) :
    Sound { session with heap, deaths := session.deaths ++ new, handles := session.remaining object } := by
  have before {owner : Nat} {cell : Cell 32 Entry} (live : occupant heap owner = some cell) :
      ∃ old, occupant session.heap owner = some old ∧ old.content = cell.content := by
    have same := released.contents owner cell live
    rw [content, Option.map_eq_some_iff] at same
    exact same
  have older : ∀ owner cell, occupant heap owner = some cell →
      ∀ element ∈ cell.content.taken, element < owner := by
    intro owner cell live element member
    obtain ⟨old, found, same⟩ := before live
    rw [← same] at member
    exact sound.older owner old found element member
  have stays {owner : Nat} {cell : Cell 32 Entry} (live : occupant heap owner = some cell) :
      Kept session (session.remaining object) owner := by
    apply kept_of_alive released.balanced older _ _ live
    · exact fun other remains => .held remains
    · intro other found occupied keeps element member
      obtain ⟨old, there, same⟩ := before occupied
      rw [← same] at member
      exact .taken there keeps member
  refine ⟨released.balanced, older, ?_, ⟨?_, ?_, recorded⟩⟩
  · intro owner cell live
    obtain ⟨old, found, same⟩ := before live
    rw [← same]
    exact sound.faithful owner old found
  · intro owner cell live element member
    obtain ⟨old, found, same⟩ := before live
    rw [← same] at member
    exact released.supported.alive released.balanced (sound.stays releasable found (stays live) element member)
  · intro death member
    obtain earlier | later := List.mem_append.mp member
    · exact sound.owns.returned death earlier
    · exact (released.deaths death later).2

/-- Releasing a handle of a sound session under the condition is defined, and leaves it sound. -/
theorem release_sound {session : Session} (sound : session.Sound) {object : Nat}
    (handle : 0 < session.handles object) (releasable : session.Releasable object) :
    ∃ next, session.perform (.release object) = some next ∧ next.Sound := by
  have pending : Library.CountedOwners.Balanced Entry.taken session.heap (session.remaining object) [object] := by
    apply sound.balanced.regroup
    intro other
    rw [remaining]
    by_cases same : other = object
    · rw [same, Function.update_self, List.count_singleton_self, List.count_nil]
      omega
    · rw [Function.update_of_ne same, List.count_cons_of_ne (Ne.symm same)]
  have supported : Supported Entry.taken (Kept session (session.remaining object)) session.heap
      (session.remaining object) := by
    intro other keeps
    cases keeps with
    | held remains => exact .inl remains
    | taken live keeps mine => exact .inr ⟨_, _, live, keeps, mine⟩
  have agree : ∀ owner cell, occupant session.heap owner = some cell →
      ¬Kept session (session.remaining object) owner →
      (cell.content.walked session.memory).Perm cell.content.taken :=
    fun owner cell live drops => sound.walked releasable live drops
  obtain ⟨heap, new, ran, released⟩ :=
    @countDown_spec 32 Entry Entry.taken (Entry.walked session.memory) _ _ _ session.deaths _ pending supported agree
  refine ⟨{ session with heap, deaths := session.deaths ++ new, handles := session.remaining object }, ?_, ?_⟩
  · simp only [perform, ran, Option.bind_eq_bind, Option.bind_some]
    rfl
  · exact sound.released releasable released (countDown_recorded sound.owns.once ran)

/-- A call that the application may make and that meets the condition is defined and keeps the session sound, if its
loops end. -/
theorem perform_sound {session : Session} (sound : session.Sound) {call : Call} (allowed : session.Allowed call)
    (admissible : session.Admissible call) (ends : call.Ends) :
    ∃ next, session.perform call = some next ∧ next.Sound := by
  cases call with
  | newObject => exact ⟨_, rfl, newObject_sound sound⟩
  | newData numItems type init shared =>
    obtain ⟨array, made⟩ := Data.new_defined session.memory ends allowed.2.1
    exact newData_sound sound allowed admissible made
  | write address value => exact ⟨_, rfl, sound.write address value⟩
  | release object => exact release_sound sound allowed admissible

theorem ends_of_perform {session next : Session} {call : Call} (performed : session.perform call = some next) :
    call.Ends := by
  cases call with
  | newData numItems type init shared =>
    intro isObject
    by_contra endless
    have nothing : Data.new session.memory numItems type init shared = none :=
      if_pos ⟨isObject, Nat.le_of_not_lt endless⟩
    simp only [perform, nothing, Option.bind_eq_bind, Option.bind_none, reduceCtorEq] at performed
  | newObject => trivial
  | write address value => trivial
  | release object => trivial

theorem AdmissibleStep.sound {before after : Session} (step : AdmissibleStep before after) (sound : before.Sound) :
    after.Sound := by
  obtain ⟨call, allowed, admissible, performed⟩ := step
  obtain ⟨next, again, sound⟩ := perform_sound sound allowed admissible (ends_of_perform performed)
  obtain rfl : next = after := Option.some.inj (again.symm.trans performed)
  exact sound

/-- In every run whose calls meet the condition, the objects that were passed to living arrays are alive, and the
arrays that have been destroyed have given back what they had taken. Then every counter is exact, and every call that
meets the condition and whose loops end is defined. -/
theorem arrays_own {session : Session} (reached : Reachable (· = initial) AdmissibleStep session) :
    session.Owns ∧ Library.CountedOwners.Balanced Entry.taken session.heap session.handles [] ∧
      ∀ call, session.Allowed call → session.Admissible call → call.Ends →
        ∃ next, session.perform call = some next := by
  have sound : session.Sound := by
    apply reachable_invariant _ _ reached
    · rintro origin rfl
      exact initial_sound
    · exact fun before after sound step => step.sound sound
  refine ⟨sound.owns, sound.balanced, ?_⟩
  intro call allowed admissible ends
  obtain ⟨next, performed, -⟩ := perform_sound sound allowed admissible ends
  exact ⟨next, performed⟩

/-! ## Where they do not -/

/-- An object whose handle is stored at an address. -/
def stored : Session :=
  { initial.create ⟨none, [], []⟩ with memory := Function.update (fun _ => none) 0 (some 0) }

/-- An array of one element is made of it. -/
def single (type : DataType) (taken : List Nat) (counter : BitVec 32) (shared : Bool) : Session :=
  { stored with
    heap := [some ⟨counter, ⟨none, [], []⟩⟩,
      some ⟨1, ⟨some ⟨1, type, if shared then .shared 0 else .own [some 0]⟩, [0], taken⟩⟩]
    handles := Function.update stored.handles 1 1 }

theorem stored_alive : stored.Alive 0 := ⟨_, rfl⟩

theorem reach_stored {step : Session → Session → Prop}
    (steps : ∀ before call after, before.Allowed call → before.Admissible call →
      before.perform call = some after → step before after) : Reachable (· = initial) step stored := by
  have created : step initial (initial.create ⟨none, [], []⟩) := steps initial .newObject _ trivial trivial rfl
  have wrote : step (initial.create ⟨none, [], []⟩) stored := by
    apply steps _ (.write 0 (some 0)) _ _ trivial rfl
    rintro object ⟨⟩
    exact ⟨_, rfl⟩
  exact ⟨initial, rfl, (Relation.ReflTransGen.single created).tail wrote⟩

theorem passed_stored : passed stored.memory 1 (some 0) = [0] := rfl

theorem allowed_single {type : DataType} (objectType : isObjectType type) (shared : Bool) :
    stored.Allowed (.newData 1 type (some 0) shared) := by
  refine ⟨objectType, fun _ => Option.some_ne_none _, ?_⟩
  intro object member
  rw [passed_stored, List.mem_singleton] at member
  rw [member]
  exact stored_alive

theorem perform_single {type : DataType} (subtype : type ≠ .object) (shared : Bool) :
    stored.perform (.newData 1 type (some 0) shared) = some (single type [] 1 shared) := by
  cases shared with
  | false =>
    simp only [perform, Data.new, subtype, false_and, if_false, Option.bind_eq_bind, Option.bind_some,
      Data.children, countUp]
    rfl
  | true =>
    simp only [perform, Data.new, subtype, false_and, if_false, Option.bind_eq_bind, Option.bind_some,
      Data.children, countUp]
    rfl

theorem perform_single_object :
    stored.perform (.newData 1 .object (some 0) true) = some (single .object [0] 2 true) := rfl

/-- For every type of objects but `OSP_OBJECT`, whether its memory is shared or not, an array may outlive an object
that was passed to it. -/
theorem subtype_dangles {type : DataType} (objectType : isObjectType type) (subtype : type ≠ .object)
    (shared : Bool) :
    ∃ session, Reachable (· = initial) Step session ∧ ∃ owner cell,
      occupant session.heap owner = some cell ∧ cell.content.array.map Data.type = some type ∧
        0 ∈ cell.content.passed ∧ ¬session.Alive 0 := by
  have made : Step stored (single type [] 1 shared) :=
    ⟨_, allowed_single objectType shared, perform_single subtype shared⟩
  have released : ∃ last, (single type [] 1 shared).perform (.release 0) = some last ∧
      last.heap = (single type [] 1 shared).heap.set 0 none := by
    have live : occupant (single type [] 1 shared).heap 0 = some ⟨1, ⟨none, [], []⟩⟩ := rfl
    simp only [perform, countDown_cons _ live, Entry.walked, Option.elim_none, List.append_nil, Option.bind_eq_bind]
    rw [if_pos (show (1 : BitVec 32) - 1 = 0 from rfl), countDown]
    exact ⟨_, rfl, rfl⟩
  obtain ⟨last, performed, heap⟩ := released
  have handle : 0 < (single type [] 1 shared).handles 0 := Nat.one_pos
  have reached := reach_stored fun before call after allowed _ performed =>
    (⟨call, allowed, performed⟩ : Step before after)
  refine ⟨last, reachable_step (reachable_step reached made) ⟨.release 0, handle, performed⟩, 1, ?_⟩
  rw [Alive, heap]
  refine ⟨_, rfl, rfl, List.mem_singleton_self 0, ?_⟩
  rintro ⟨cell, live⟩
  cases live

/-- A living array of lights whose light has been destroyed. -/
theorem elements_not_owned : ¬ ∀ session, Reachable (· = initial) Step session → session.Owns := by
  intro always
  obtain ⟨session, reached, owner, cell, live, -, member, dead⟩ :=
    @subtype_dangles .light rfl (by decide) false
  exact dead ((always session reached).alive owner cell live 0 member)

/-- The array of one object, in a shared buffer that nothing is written to, after the handle of the object has been
released. -/
def lone : Session :=
  { single .object [0] 2 true with
    heap := [some ⟨1, ⟨none, [], []⟩⟩, some ⟨1, ⟨some ⟨1, .object, .shared 0⟩, [0], [0]⟩⟩]
    handles := Function.update (single .object [0] 2 true).handles 0 0 }

theorem release_single : (single .object [0] 2 true).perform (.release 0) = some lone := by
  have live : occupant (single .object [0] 2 true).heap 0 = some ⟨2, ⟨none, [], []⟩⟩ := rfl
  have several : (2 : BitVec 32) - 1 ≠ 0 := by decide
  simp only [perform]
  rw [countDown_cons _ live, if_neg several, countDown]
  rfl

/-- The array stays, so the handle of its object may be released. -/
theorem releasable_single : (single .object [0] 2 true).Releasable 0 := by
  have stays : Kept (single .object [0] 2 true) ((single .object [0] 2 true).remaining 0) 1 := .held Nat.one_pos
  have object {owner : Nat} {cell : Cell 32 Entry} {array : Data}
      (live : occupant (single .object [0] 2 true).heap owner = some cell)
      (found : cell.content.array = some array) : owner = 1 ∧ array.type = .object := by
    match owner, live with
    | 0, live =>
      cases live
      cases found
    | 1, live =>
      cases live
      cases found
      exact ⟨rfl, rfl⟩
    | owner + 2, live => cases live
  constructor
  · intro owner cell array address live found isObject buffer drops
    rw [(object live found).1] at drops
    exact absurd stays drops
  · intro owner cell array live found subtype
    exact absurd (object live found).2 subtype

/-- The array keeps its object alive. -/
theorem arrays_own_lone :
    lone.Owns ∧ Library.CountedOwners.Balanced Entry.taken lone.heap lone.handles [] ∧
      ∀ call, lone.Allowed call → lone.Admissible call → call.Ends → ∃ next, lone.perform call = some next := by
  have room : stored.Admissible (.newData 1 .object (some 0) true) := by
    intro isObject object member
    rw [passed_stored, List.mem_singleton] at member
    rw [member]
    exact Nat.le_of_ble_eq_true rfl
  have made : AdmissibleStep stored (single .object [0] 2 true) :=
    ⟨_, allowed_single rfl true, room, perform_single_object⟩
  have handle : 0 < (single .object [0] 2 true).handles 0 := Nat.one_pos
  have released : AdmissibleStep (single .object [0] 2 true) lone :=
    ⟨.release 0, handle, releasable_single, release_single⟩
  have reached := reach_stored fun before call after allowed admissible performed =>
    (⟨call, allowed, admissible, performed⟩ : AdmissibleStep before after)
  exact arrays_own (reachable_step (reachable_step reached made) released)

end Session

end Ospray.Elements
