import Mathlib.Logic.Function.Basic
import Mathlib.Tactic.Common
import Ospray.Library.Literals

/-!
# Lifetimes of values in raw storage

Places of raw storage hold a value only from its construction to its destruction. Each value that is
constructed gets a number of its own. Reading, assigning or destroying where there is no value is a
fault, and so is constructing where there is one, which would then never be destroyed. Without a fault
every value is destroyed once, or still held in one place.
-/

namespace Library.Lifetimes

universe u v
variable {K : Type u} {V : K → Type v}

/-- What must not happen to storage. -/
inductive Fault where
  | reads
  | assigns
  | destroys
  | overwrites
deriving DecidableEq

/-- The places with the numbered values they hold, the next number, and the numbers that were destroyed. -/
structure Storage (V : K → Type v) where
  held (k : K) : Option (Nat × V k)
  next : Nat
  ended : List Nat

namespace Storage

/-- Nothing is held. -/
def start : Storage V where
  held _ := none
  next := 0
  ended := []

/-- The value in a place. -/
def value (s : Storage V) (k : K) : Option (V k) := (s.held k).map Prod.snd

/-- The number of the value in a place. -/
def number (s : Storage V) (k : K) : Option Nat := (s.held k).map Prod.fst

/-- Every value constructed so far is destroyed, once, or held in one place. -/
structure Accounted (s : Storage V) : Prop where
  once : ∀ n < s.next, (n ∈ s.ended ∧ ∀ k, s.number k ≠ some n) ∨ (n ∉ s.ended ∧ ∃ k, s.number k = some n)
  unique : ∀ n j k, s.number j = some n → s.number k = some n → j = k
  held_lt : ∀ n k, s.number k = some n → n < s.next
  ended_lt : ∀ n ∈ s.ended, n < s.next
  nodup : s.ended.Nodup

/-- A value is read. -/
def read (s : Storage V) (k : K) : Except Fault (V k) :=
  match s.held k with
  | none => .error .reads
  | some (_, v) => .ok v

variable [DecidableEq K]

/-- A value is constructed. -/
def construct (s : Storage V) (k : K) (v : V k) : Except Fault (Storage V) :=
  match s.held k with
  | none => .ok { s with held := Function.update s.held k (some (s.next, v)), next := s.next + 1 }
  | some _ => .error .overwrites

/-- A value is assigned to one that is there. -/
def assign (s : Storage V) (k : K) (v : V k) : Except Fault (Storage V) :=
  match s.held k with
  | none => .error .assigns
  | some (number, _) => .ok { s with held := Function.update s.held k (some (number, v)) }

/-- A place is used no more. A value that needs no destructor ends with that. -/
def abandon (s : Storage V) (k : K) : Storage V :=
  match s.held k with
  | none => s
  | some (number, _) => { s with held := Function.update s.held k none, ended := number :: s.ended }

/-- A value is destroyed. -/
def destroy (s : Storage V) (k : K) : Except Fault (Storage V) :=
  match s.held k with
  | none => .error .destroys
  | some _ => .ok (s.abandon k)

/-! ## Values -/

variable {s : Storage V} {k : K} {v : V k}

omit [DecidableEq K] in
theorem value_eq_none : s.value k = none ↔ s.held k = none := Option.map_eq_none_iff

omit [DecidableEq K] in
theorem value_eq_some : s.value k = some v ↔ ∃ n, s.held k = some (n, v) := by
  rw [value, Option.map_eq_some_iff]
  constructor
  · rintro ⟨⟨n, v⟩, held, rfl⟩
    exact ⟨n, held⟩
  · rintro ⟨n, held⟩
    exact ⟨(n, v), held, rfl⟩

theorem value_update (s : Storage V) (k : K) (x : Option (Nat × V k)) (next : Nat) (ended : List Nat) :
    value ⟨Function.update s.held k x, next, ended⟩ = Function.update s.value k (x.map Prod.snd) := by
  funext j
  exact Function.apply_update (fun _ => Option.map Prod.snd) s.held k x j

theorem number_update (s : Storage V) (k : K) (x : Option (Nat × V k)) (next : Nat) (ended : List Nat) :
    number ⟨Function.update s.held k x, next, ended⟩ = Function.update s.number k (x.map Prod.fst) := by
  funext j
  exact Function.apply_update (fun _ => Option.map Prod.fst) s.held k x j

omit [DecidableEq K] in
theorem read_eq (held : s.value k = some v) : s.read k = .ok v := by
  obtain ⟨n, held⟩ := value_eq_some.mp held
  rw [read, held]

theorem assign_none (empty : s.value k = none) : s.assign k v = .error .assigns := by
  rw [assign, value_eq_none.mp empty]

/-! ## Accounts -/

omit [DecidableEq K] in
theorem start_accounted : (start : Storage V).Accounted where
  once _ less := absurd less (Nat.not_lt_zero _)
  unique _ _ _ held := nomatch held
  held_lt _ _ held := nomatch held
  ended_lt _ member := nomatch member
  nodup := List.nodup_nil

/-- Where nothing is held, a value is constructed. -/
theorem construct_spec (accounted : s.Accounted) (empty : s.value k = none) (v : V k) :
    ∃ s', s.construct k v = .ok s' ∧ s'.value = Function.update s.value k (some v) ∧ s'.Accounted := by
  have free := value_eq_none.mp empty
  have numbers := number_update s k (some (s.next, v)) (s.next + 1) s.ended
  have here : ∀ n j, Function.update s.number k (some s.next) j = some n ↔
      (j = k ∧ n = s.next) ∨ (j ≠ k ∧ s.number j = some n) := by
    intro n j
    by_cases same : j = k
    · subst same
      simp [eq_comm]
    · simp [same]
  have none_ : s.number k = none := by rw [number, free, Option.map_none]
  refine ⟨_, by rw [construct, free], value_update s k (some (s.next, v)) (s.next + 1) s.ended, ?_, ?_, ?_, ?_,
    accounted.nodup⟩
  all_goals simp only [numbers, Option.map_some, ne_eq, here]
  · intro n less
    by_cases new : n = s.next
    · subst new
      exact Or.inr ⟨fun member => Nat.lt_irrefl _ (accounted.ended_lt _ member), k, Or.inl ⟨rfl, rfl⟩⟩
    · rcases accounted.once n (by omega) with ⟨ended, nowhere⟩ | ⟨lives, j, held⟩
      · refine Or.inl ⟨ended, fun j => ?_⟩
        rintro (⟨-, same⟩ | ⟨-, held⟩)
        · exact new same
        · exact nowhere j held
      · refine Or.inr ⟨lives, j, Or.inr ⟨?_, held⟩⟩
        rintro rfl
        rw [none_] at held
        cases held
  · rintro n i j (⟨rfl, rfl⟩ | ⟨-, first⟩) (⟨rfl, same⟩ | ⟨-, second⟩)
    · rfl
    · exact absurd (accounted.held_lt _ _ second) (Nat.lt_irrefl _)
    · exact absurd (same ▸ accounted.held_lt _ _ first) (Nat.lt_irrefl _)
    · exact accounted.unique n i j first second
  · rintro n j (⟨-, rfl⟩ | ⟨-, held⟩)
    · exact Nat.lt_succ_self _
    · exact Nat.lt_succ_of_lt (accounted.held_lt n j held)
  · exact fun n member => Nat.lt_succ_of_lt (accounted.ended_lt n member)

theorem assign_spec (accounted : s.Accounted) {before : V k} (held : s.value k = some before) (v : V k) :
    ∃ s', s.assign k v = .ok s' ∧ s'.value = Function.update s.value k (some v) ∧ s'.Accounted := by
  obtain ⟨n, held⟩ := value_eq_some.mp held
  have numbers : number ⟨Function.update s.held k (some (n, v)), s.next, s.ended⟩ = s.number := by
    rw [number_update, Function.update_eq_self_iff, number, held]
    rfl
  refine ⟨_, by rw [assign, held], value_update s k (some (n, v)) s.next s.ended, ?_, ?_, ?_, ?_, accounted.nodup⟩
  all_goals simp only [numbers]
  · exact accounted.once
  · exact accounted.unique
  · exact accounted.held_lt
  · exact accounted.ended_lt

/-- A place that is used no more holds nothing. -/
theorem abandon_spec (accounted : s.Accounted) (k : K) :
    (s.abandon k).value = Function.update s.value k none ∧ (s.abandon k).Accounted := by
  unfold abandon
  split
  · rename_i empty
    rw [(Function.update_eq_self_iff (f := s.value)).mpr (value_eq_none.mpr empty).symm]
    exact ⟨rfl, accounted⟩
  rename_i n v held
  have numbers := number_update s k none s.next (n :: s.ended)
  have own : s.number k = some n := by rw [number, held, Option.map_some]
  have here : ∀ m j, Function.update s.number k none j = some m ↔ j ≠ k ∧ s.number j = some m := by
    intro m j
    by_cases same : j = k
    · subst same
      simp
    · simp [same]
  have lives : n ∉ s.ended := by
    rcases accounted.once n (accounted.held_lt n k own) with ⟨-, nowhere⟩ | ⟨lives, -⟩
    · exact absurd own (nowhere k)
    · exact lives
  refine ⟨value_update s k none s.next (n :: s.ended), ?_, ?_, ?_, ?_, ?_⟩
  all_goals simp only [numbers, Option.map_none, ne_eq, here, List.mem_cons]
  · intro m less
    by_cases same : m = n
    · subst same
      exact Or.inl ⟨Or.inl rfl, fun j other => other.1 (accounted.unique m j k other.2 own)⟩
    · rcases accounted.once m less with ⟨ended, nowhere⟩ | ⟨lives, j, holds⟩
      · exact Or.inl ⟨Or.inr ended, fun j other => nowhere j other.2⟩
      · refine Or.inr ⟨not_or.mpr ⟨same, lives⟩, j, ?_, holds⟩
        rintro rfl
        exact same (Option.some.inj (holds.symm.trans own))
  · exact fun m i j first second => accounted.unique m i j first.2 second.2
  · exact fun m j other => accounted.held_lt m j other.2
  · rintro m (rfl | member)
    · exact accounted.held_lt m k own
    · exact accounted.ended_lt m member
  · exact List.nodup_cons.mpr ⟨lives, accounted.nodup⟩

theorem destroy_eq (held : s.value k = some v) : s.destroy k = .ok (s.abandon k) := by
  obtain ⟨n, held⟩ := value_eq_some.mp held
  rw [destroy, held]

end Storage

end Library.Lifetimes
