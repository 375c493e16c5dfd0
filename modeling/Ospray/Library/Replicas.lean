import Mathlib.Data.List.Induction
import Mathlib.Logic.Function.Basic
import Ospray.Library.Literals

/-!
# Stores with replicas

A store keeps the value of a key in one or more cells of a memory, and writing a key
writes all of them. Where no two keys share a cell, the cells of a key hold at any time
the value written to the key last, whatever was written to other keys in between, and
in whichever order the keys of one batch were written.
-/

namespace Library.Replicas

universe u v w
variable {κ : Type u} {α : Type v} {β : Type w}

section Cells

variable [DecidableEq α]

/-- Writing a value to some cells. -/
def writeCells (cells : List α) (value : β) (memory : α → β) : α → β :=
  cells.foldl (fun memory cell => Function.update memory cell value) memory

variable {cells : List α} {value : β} {memory : α → β} {address : α}

theorem writeCells_other (other : address ∉ cells) :
    writeCells cells value memory address = memory address := by
  induction cells generalizing memory with
  | nil => rfl
  | cons cell rest inductionHypothesis =>
    obtain ⟨apart, absent⟩ := not_or.mp (mt List.mem_cons.mpr other)
    calc writeCells rest value (Function.update memory cell value) address
        = Function.update memory cell value address := inductionHypothesis absent
      _ = memory address := Function.update_of_ne apart _ _

theorem writeCells_member (member : address ∈ cells) :
    writeCells cells value memory address = value := by
  induction cells generalizing memory with
  | nil => cases member
  | cons cell rest inductionHypothesis =>
    change writeCells rest value (Function.update memory cell value) address = value
    by_cases later : address ∈ rest
    · exact inductionHypothesis later
    · obtain rfl : address = cell := (List.mem_cons.mp member).resolve_right later
      rw [writeCells_other later, Function.update_self]

/-- Writing keys one after another. -/
def writeAll (place : κ → List α) (writes : List (κ × β)) (memory : α → β) : α → β :=
  writes.foldl (fun memory write => writeCells (place write.1) write.2 memory) memory

variable {place : κ → List α} {writes : List (κ × β)} {key : κ}

theorem writeAll_other (other : ∀ write ∈ writes, address ∉ place write.1) :
    writeAll place writes memory address = memory address := by
  induction writes generalizing memory with
  | nil => rfl
  | cons write rest inductionHypothesis =>
    calc writeAll place rest (writeCells (place write.1) write.2 memory) address
        = writeCells (place write.1) write.2 memory address :=
          inductionHypothesis fun later member => other later (List.mem_cons_of_mem _ member)
      _ = memory address := writeCells_other (other write List.mem_cons_self)

/-- A cell that only one written key has, which is always written with one value, holds it. -/
theorem writeAll_member (own : address ∈ place key) (written : (key, value) ∈ writes)
    (apart : ∀ write ∈ writes, address ∈ place write.1 → write = (key, value)) :
    writeAll place writes memory address = value := by
  induction writes generalizing memory with
  | nil => cases written
  | cons write rest inductionHypothesis =>
    change writeAll place rest (writeCells (place write.1) write.2 memory) address = value
    have restApart : ∀ later ∈ rest, address ∈ place later.1 → later = (key, value) :=
      fun later member => apart later (List.mem_cons_of_mem _ member)
    by_cases again : (key, value) ∈ rest
    · exact inductionHypothesis again restApart
    · obtain rfl : (key, value) = write := (List.mem_cons.mp written).resolve_right again
      rw [writeAll_other, writeCells_member own]
      intro later member shared
      exact again (restApart later member shared ▸ member)

end Cells

/-! ## Batches of writes -/

/-- What two batches in turn write to each key. -/
def andThen (first second : κ → Option β) (key : κ) : Option β := (second key).or (first key)

/-- What a sequence of batches leaves written to each key. -/
def lastWritten (batches : List (κ → Option β)) : κ → Option β :=
  batches.foldl andThen fun _ => none

/-- No batch writes a key, or one of them writes what is left. -/
theorem lastWritten_cases (batches : List (κ → Option β)) (key : κ) :
    (lastWritten batches key = none ∧ ∀ batch ∈ batches, batch key = none) ∨
      ∃ batch ∈ batches, ∃ value, batch key = some value ∧ lastWritten batches key = some value := by
  induction batches using List.reverseRecOn with
  | nil => exact .inl ⟨rfl, fun _ listed => absurd listed List.not_mem_nil⟩
  | append_singleton earlier last inductionHypothesis =>
    have step : lastWritten (earlier ++ [last]) key = (last key).or (lastWritten earlier key) := by
      rw [lastWritten, List.foldl_append]
      rfl
    rw [step]
    cases own : last key with
    | some value =>
      exact .inr ⟨last, List.mem_append_right _ (List.mem_singleton_self last), value, own, rfl⟩
    | none =>
      rw [Option.none_or]
      obtain ⟨nothing, before⟩ | ⟨batch, listed, value, held, result⟩ := inductionHypothesis
      · refine .inl ⟨nothing, fun batch listed => ?_⟩
        obtain older | newest := List.mem_append.mp listed
        · exact before batch older
        · rw [List.mem_singleton.mp newest, own]
      · exact .inr ⟨batch, List.mem_append_left _ listed, value, held, result⟩

theorem lastWritten_eq_some {batches : List (κ → Option β)} {key : κ} {value : β}
    (written : ∃ batch ∈ batches, batch key ≠ none)
    (agree : ∀ batch ∈ batches, ∀ other, batch key = some other → other = value) :
    lastWritten batches key = some value := by
  obtain ⟨-, nothing⟩ | ⟨batch, listed, other, own, result⟩ := lastWritten_cases batches key
  · obtain ⟨batch, listed, some_⟩ := written
    exact absurd (nothing batch listed) some_
  · rw [result, agree batch listed other own]

/-- A step performs a batch on the keys of a domain: their cells get the values of the batch,
and where it has none keep their contents. -/
def Performs (place : κ → List α) (domain : κ → Prop) (batch : κ → Option β)
    (step : (α → β) → α → β) : Prop :=
  ∀ memory key, domain key → ∀ address ∈ place key,
    step memory address = (batch key).getD (memory address)

variable {place : κ → List α} {domain : κ → Prop}

/-- Writing exactly the values of a batch performs it, where keys do not share cells. -/
theorem performs_writeAll [DecidableEq α] {batch : κ → Option β} {writes : List (κ × β)}
    (member : ∀ key value, (key, value) ∈ writes ↔ domain key ∧ batch key = some value)
    (apart : ∀ key other address, domain key → domain other → address ∈ place key →
      address ∈ place other → key = other) :
    Performs place domain batch (writeAll place writes) := by
  intro memory key inside address own
  cases held : batch key with
  | none =>
    refine writeAll_other ?_
    rintro ⟨other, value⟩ listed shared
    obtain ⟨otherInside, otherHeld⟩ := (member other value).mp listed
    obtain rfl := apart key other address inside otherInside own shared
    rw [held] at otherHeld
    cases otherHeld
  | some value =>
    change _ = value
    refine writeAll_member own ((member key value).mpr ⟨inside, held⟩) ?_
    rintro ⟨other, value'⟩ listed shared
    obtain ⟨otherInside, otherHeld⟩ := (member other value').mp listed
    obtain rfl := apart key other address inside otherInside own shared
    rw [held] at otherHeld
    rw [Option.some.inj otherHeld]

theorem Performs.andThen {first second : κ → Option β} {step next : (α → β) → α → β}
    (performs : Performs place domain first step) (continues : Performs place domain second next) :
    Performs place domain (andThen first second) fun memory => next (step memory) := by
  intro memory key inside address own
  calc next (step memory) address
      = (second key).getD (step memory address) := continues _ key inside address own
    _ = (second key).getD ((first key).getD (memory address)) := by
        rw [performs _ key inside address own]
    _ = (Replicas.andThen first second key).getD (memory address) := by
        rw [Replicas.andThen]
        cases second key <;> rfl

theorem performs_run {σ : Type*} (batch : σ → κ → Option β) (step : σ → (α → β) → α → β)
    {run : List σ} (each : ∀ entry ∈ run, Performs place domain (batch entry) (step entry)) :
    Performs place domain (lastWritten (run.map batch))
      fun memory => run.foldl (fun memory entry => step entry memory) memory := by
  have general : ∀ (run : List σ) (done : κ → Option β) (start : (α → β) → α → β),
      (∀ entry ∈ run, Performs place domain (batch entry) (step entry)) →
      Performs place domain done start →
      Performs place domain ((run.map batch).foldl Replicas.andThen done)
        fun memory => run.foldl (fun memory entry => step entry memory) (start memory) := by
    intro run
    induction run with
    | nil => exact fun done start _ performs => performs
    | cons entry rest inductionHypothesis =>
      intro done start each performs
      exact inductionHypothesis _ _ (fun later member => each later (List.mem_cons_of_mem _ member))
        (performs.andThen (each entry List.mem_cons_self))
  exact general run (fun _ => none) id each fun _ _ _ _ _ => rfl

end Library.Replicas
