import Mathlib.Data.List.Basic
import Mathlib.Logic.Function.Basic
import Ospray.Library.Literals

/-!
# Named vectors

A store keeps one vector for each name. Writing an entry is defined only inside
the vector and never changes a size; resizing keeps the entries that remain and
gives the new ones a default. After a list of writes in which no entry is given
two values, an entry holds the value given to it, or what it held before if it
was given none.
-/

namespace Library.Tables

universe u v
variable {ν : Type u} {β : Type v}

section Resize

/-- Cuts the vector to a size, or fills it up. -/
def resize (fresh : β) (entries : List β) (size : Nat) : List β :=
  entries.take size ++ List.replicate (size - entries.length) fresh

end Resize

variable [DecidableEq ν]

/-- Writing one entry, which is undefined behind the end of the vector. -/
def store (vectors : ν → List β) (name : ν) (index : Nat) (value : β) : Option (ν → List β) :=
  if index < (vectors name).length
  then some (Function.update vectors name ((vectors name).set index value))
  else none

/-- A write to one entry: name, index and value. -/
abbrev Write (ν : Type u) (β : Type v) := ν × Nat × β

/-- Writes one after another. -/
def storeAll (writes : List (Write ν β)) (vectors : ν → List β) : Option (ν → List β) :=
  writes.foldlM (fun vectors (name, index, value) => store vectors name index value) vectors

variable {vectors stored : ν → List β} {name other : ν} {index position : Nat} {value : β}

theorem store_isSome : (store vectors name index value).isSome ↔ index < (vectors name).length := by
  unfold store
  split
  · next inside => exact iff_of_true rfl inside
  · next outside => exact iff_of_false Bool.false_ne_true outside

theorem store_length (written : store vectors name index value = some stored) :
    (stored other).length = (vectors other).length := by
  unfold store at written
  split at written
  · obtain rfl := Option.some.inj written
    by_cases same : other = name
    · rw [same, Function.update_self, List.length_set]
    · rw [Function.update_of_ne same]
  · cases written

theorem store_self (written : store vectors name index value = some stored) :
    (stored name)[index]? = some value := by
  unfold store at written
  split at written
  · next inside =>
    obtain rfl := Option.some.inj written
    rw [Function.update_self, List.getElem?_set_self inside]
  · cases written

theorem store_other (written : store vectors name index value = some stored)
    (apart : ¬ (other = name ∧ position = index)) :
    (stored other)[position]? = (vectors other)[position]? := by
  unfold store at written
  split at written
  · obtain rfl := Option.some.inj written
    by_cases same : other = name
    · have distinct : index ≠ position := fun equal => apart ⟨same, equal.symm⟩
      rw [same, Function.update_self, List.getElem?_set_ne distinct]
    · rw [Function.update_of_ne same]
  · cases written

variable {writes : List (Write ν β)}

theorem storeAll_cons (write : Write ν β) :
    storeAll (write :: writes) vectors =
      (store vectors write.1 write.2.1 write.2.2).bind (storeAll writes) := rfl

/-- Writes are defined if each of them is inside its vector, since no write changes a size. -/
theorem storeAll_isSome :
    (storeAll writes vectors).isSome ↔ ∀ write ∈ writes, write.2.1 < (vectors write.1).length := by
  induction writes generalizing vectors with
  | nil => simp [storeAll]
  | cons write rest inductionHypothesis =>
    have first : (store vectors write.1 write.2.1 write.2.2).isSome ↔
        write.2.1 < (vectors write.1).length := store_isSome
    rw [storeAll_cons, List.forall_mem_cons, ← first]
    cases written : store vectors write.1 write.2.1 write.2.2 with
    | none => simp
    | some stored =>
      have sizes : ∀ name, (stored name).length = (vectors name).length :=
        fun name => store_length written
      simp only [Option.bind_some, Option.isSome_some, true_and, inductionHypothesis, sizes]

theorem storeAll_other (written : storeAll writes vectors = some stored)
    (untouched : ∀ write ∈ writes, ¬ (name = write.1 ∧ index = write.2.1)) :
    (stored name)[index]? = (vectors name)[index]? := by
  induction writes generalizing vectors with
  | nil =>
    obtain rfl : vectors = stored := Option.some.inj written
    rfl
  | cons write rest inductionHypothesis =>
    rw [storeAll_cons] at written
    obtain ⟨between, first, later⟩ := Option.bind_eq_some_iff.mp written
    obtain ⟨untouchedFirst, untouchedLater⟩ := List.forall_mem_cons.mp untouched
    exact (inductionHypothesis later untouchedLater).trans (store_other first untouchedFirst)

/-- An entry that is given only one value holds it. The last write to the entry decides. -/
theorem storeAll_member (written : storeAll writes vectors = some stored)
    (member : (name, index, value) ∈ writes)
    (agree : ∀ write ∈ writes, name = write.1 ∧ index = write.2.1 → write.2.2 = value) :
    (stored name)[index]? = some value := by
  induction writes generalizing vectors with
  | nil => cases member
  | cons write rest inductionHypothesis =>
    rw [storeAll_cons] at written
    obtain ⟨between, first, later⟩ := Option.bind_eq_some_iff.mp written
    obtain ⟨agreeFirst, agreeLater⟩ := List.forall_mem_cons.mp agree
    by_cases again : (name, index, value) ∈ rest
    · exact inductionHypothesis later again agreeLater
    · obtain rfl : (name, index, value) = write := (List.mem_cons.mp member).resolve_right again
      have untouched : ∀ write ∈ rest, ¬ (name = write.1 ∧ index = write.2.1) := by
        rintro ⟨_, _, other⟩ listed ⟨rfl, rfl⟩
        obtain rfl := agreeLater _ listed ⟨rfl, rfl⟩
        exact again listed
      exact (storeAll_other later untouched).trans (store_self first)

end Library.Tables
