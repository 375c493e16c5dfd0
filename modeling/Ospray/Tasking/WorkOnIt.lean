import Mathlib.Algebra.BigOperators.Group.List.Basic
import Mathlib.Data.List.Perm.Subperm
import Mathlib.Data.List.Nodup
import Ospray.Library.Literals

/-!
# One task and the threads working on it

`Task::workOnIt` is run by any number of threads on one task object. A thread
claims job numbers from an atomic counter until it draws one past the last job,
counts the jobs it has run in a variable of its own, and adds that count to the
second counter when it leaves the loop. The thread whose addition completes the
count sets the status.

The law is that the jobs run so far and the jobs claimed and not yet run are
together a permutation of the numbers drawn, that the counter and the threads' own
counts add up to the jobs run, and that each thread draws one number too many.
-/

namespace Ospray.Tasking

/-- Where a `Task` object lives. -/
abbrev Address := Nat

/-- `Task::Status` -/
inductive Status where
  | initializing
  | scheduled
  | active
  | completed
  deriving DecidableEq

/-- The members of a `Task` object. `owner` is the call whose functor the object
holds and its virtual `run` calls. -/
structure Task where
  numJobsCompleted : Int
  numJobsStarted : Int
  numJobsInTask : Int
  status : Status
  next : Option Address
  willNeedToBeDeleted : Bool
  owner : Nat
  deriving DecidableEq

/-- The value a `std::atomic_int` holds after arithmetic, which wraps around. -/
def atomicInt (value : Int) : Int := value.bmod (2 ^ 32)

/-- Where a thread is inside `workOnIt`, with its local variables. Each position is
before one access to the task. -/
inductive Work where
  | claim (myCompleted : Nat)
  | test (myCompleted : Nat) (thisJobID : Int)
  | run (myCompleted : Nat) (thisJobID : Int)
  | count (myCompleted : Nat)
  | testCompleted (nowCompleted : Int)
  | complete
  | dispose
  deriving DecidableEq

/-- One step of `workOnIt` on the object, and where the thread is then; `none` when
it has returned. -/
def Task.workOnIt (task : Task) : Work → Task × Option Work
  | .claim myCompleted =>
    ({ task with numJobsStarted := atomicInt (task.numJobsStarted + 1) },
      some (.test myCompleted task.numJobsStarted))
  | .test myCompleted thisJobID =>
    if thisJobID ≥ task.numJobsInTask then
      (task, if myCompleted ≠ 0 then some (.count myCompleted) else none)
    else (task, some (.run myCompleted thisJobID))
  | .run myCompleted _ => (task, some (.claim (myCompleted + 1)))
  | .count myCompleted =>
    let nowCompleted := atomicInt (task.numJobsCompleted + myCompleted)
    ({ task with numJobsCompleted := nowCompleted }, some (.testCompleted nowCompleted))
  | .testCompleted nowCompleted =>
    (task, if nowCompleted = task.numJobsInTask then some .complete else none)
  | .complete => ({ task with status := .completed }, some .dispose)
  | .dispose => (task, none)

/-- The job a step runs. -/
def Work.executes : Work → List Int
  | .run _ thisJobID => [thisJobID]
  | _ => []

/-- A step deletes the object. -/
def Task.deletes (task : Task) (work : Work) : Bool :=
  decide (work = .dispose) && task.willNeedToBeDeleted

/-! ## What the threads hold -/

/-- The job a thread has claimed and not yet run. -/
def Work.claimed (numJobs : Int) : Work → List Int
  | .test _ thisJobID => if thisJobID < numJobs then [thisJobID] else []
  | .run _ thisJobID => [thisJobID]
  | _ => []

/-- The jobs a thread has run and not yet added to the counter. -/
def Work.uncounted : Work → Nat
  | .claim myCompleted | .test myCompleted _ | .run myCompleted _ | .count myCompleted => myCompleted
  | _ => 0

/-- A thread is still to draw the number past the last job. -/
def Work.drawing (numJobs : Int) : Work → Bool
  | .claim _ | .run _ _ => true
  | .test _ thisJobID => decide (thisJobID < numJobs)
  | _ => false

/-- A thread is between adding to the counter and setting the status. -/
def Work.publishing : Work → Bool
  | .testCompleted _ | .complete => true
  | _ => false

/-- The job numbers below a bound. -/
def jobsBelow (bound : Int) : List Int := (List.range bound.toNat).map Int.ofNat

/-- The jobs claimed by any of the threads and not yet run. -/
def claimedJobs (numJobs : Int) (workers : List Work) : List Int :=
  workers.flatMap (Work.claimed numJobs)

/-- The jobs run by any of the threads and not yet counted. -/
def uncountedJobs (workers : List Work) : Nat := (workers.map Work.uncounted).sum

/-- How many threads are still to draw the number past the last job. -/
def drawers (numJobs : Int) (workers : List Work) : Nat := workers.countP (Work.drawing numJobs)

/-- A thread has added its count and not yet returned. -/
def Work.settling : Work → Bool
  | .testCompleted _ | .complete | .dispose => true
  | _ => false

/-- The status follows the counter: it is set once the count is complete, and until
then some thread is about to set it. -/
structure Settled (numJobs : Int) (task : Task) (workers : List Work) : Prop where
  tested : ∀ nowCompleted, .testCompleted nowCompleted ∈ workers →
    nowCompleted ≤ task.numJobsCompleted
  completing : .complete ∈ workers → task.numJobsCompleted = numJobs
  completed : task.status = .completed → task.numJobsCompleted = numJobs
  disposing : .dispose ∈ workers → task.status = .completed
  published : task.numJobsCompleted = numJobs →
    task.status = .completed ∨ .testCompleted numJobs ∈ workers ∨ .complete ∈ workers

/-- The books of one task with `numJobs` jobs, worked on by at most `threads` threads
at a time, of which `executed` have run. -/
structure Balanced (numJobs : Int) (threads : Nat) (task : Task) (workers : List Work)
    (executed : List Int) : Prop where
  nonempty : 1 ≤ numJobs
  representable : numJobs + threads < 2 ^ 31
  capacity : workers.length ≤ threads
  started : 0 ≤ task.numJobsStarted
  counter : 0 ≤ task.numJobsCompleted
  jobs : (claimedJobs numJobs workers ++ executed).Perm
    (jobsBelow (min task.numJobsStarted numJobs))
  counted : task.numJobsCompleted + uncountedJobs workers = executed.length
  overdrawn : numJobs ≤ task.numJobsStarted →
    task.numJobsStarted + drawers numJobs workers ≤ numJobs + threads
  left : ∀ work ∈ workers, work.drawing numJobs = false → numJobs ≤ task.numJobsStarted
  settled : Settled numJobs task workers

/-! ## Numbers drawn -/

theorem atomicInt_small {value : Int} (nonnegative : 0 ≤ value) (small : value < 2 ^ 31) :
    atomicInt value = value := by
  rw [atomicInt, Int.bmod_def]
  omega

theorem mem_jobsBelow {bound job : Int} : job ∈ jobsBelow bound ↔ 0 ≤ job ∧ job < bound := by
  simp only [jobsBelow, List.mem_map, List.mem_range]
  constructor
  · rintro ⟨number, below, rfl⟩
    simp only [Int.ofNat_eq_natCast]
    omega
  · rintro ⟨nonnegative, below⟩
    refine ⟨job.toNat, by omega, ?_⟩
    simp only [Int.ofNat_eq_natCast]
    omega

theorem jobsBelow_nodup (bound : Int) : (jobsBelow bound).Nodup :=
  List.nodup_range.map fun _ _ => Int.ofNat.inj

theorem jobsBelow_length {bound : Int} (nonnegative : 0 ≤ bound) :
    ((jobsBelow bound).length : Int) = bound := by
  rw [jobsBelow, List.length_map, List.length_range]
  omega

theorem jobsBelow_succ {bound : Int} (nonnegative : 0 ≤ bound) :
    jobsBelow (bound + 1) = jobsBelow bound ++ [bound] := by
  have next : (bound + 1).toNat = bound.toNat + 1 := by omega
  have last : Int.ofNat bound.toNat = bound := by
    simp only [Int.ofNat_eq_natCast]
    omega
  rw [jobsBelow, next, List.range_succ, List.map_append, List.map_singleton, last, jobsBelow]

/-! ## The books of several threads -/

@[simp] theorem claimedJobs_append (numJobs : Int) (before after : List Work) :
    claimedJobs numJobs (before ++ after) = claimedJobs numJobs before ++ claimedJobs numJobs after :=
  List.flatMap_append

@[simp] theorem claimedJobs_cons (numJobs : Int) (work : Work) (others : List Work) :
    claimedJobs numJobs (work :: others) = work.claimed numJobs ++ claimedJobs numJobs others :=
  List.flatMap_cons

@[simp] theorem claimedJobs_nil (numJobs : Int) : claimedJobs numJobs [] = [] := rfl

@[simp] theorem uncountedJobs_append (before after : List Work) :
    uncountedJobs (before ++ after) = uncountedJobs before + uncountedJobs after := by
  simp [uncountedJobs]

@[simp] theorem uncountedJobs_cons (work : Work) (others : List Work) :
    uncountedJobs (work :: others) = work.uncounted + uncountedJobs others := by
  simp [uncountedJobs]

@[simp] theorem uncountedJobs_nil : uncountedJobs [] = 0 := rfl

@[simp] theorem drawers_append (numJobs : Int) (before after : List Work) :
    drawers numJobs (before ++ after) = drawers numJobs before + drawers numJobs after :=
  List.countP_append

@[simp] theorem drawers_cons (numJobs : Int) (work : Work) (others : List Work) :
    drawers numJobs (work :: others) =
      drawers numJobs others + if work.drawing numJobs then 1 else 0 :=
  List.countP_cons

@[simp] theorem drawers_nil (numJobs : Int) : drawers numJobs [] = 0 := rfl

theorem drawers_le (numJobs : Int) (workers : List Work) :
    drawers numJobs workers ≤ workers.length :=
  List.countP_le_length

theorem mem_middle {before after : List Work} {work other : Work} :
    other ∈ before ++ work :: after ↔ other = work ∨ other ∈ before ++ after := by
  rw [List.perm_middle.mem_iff, List.mem_cons]

theorem others_stay {before after : List Work} {work instead other : Work}
    (member : other ∈ before ++ instead :: after) :
    other = instead ∨ other ∈ before ++ work :: after :=
  (mem_middle.mp member).imp_right fun others => mem_middle.mpr (Or.inr others)

/-- A thread that has nothing to do with the status goes on. -/
theorem Settled.exchange {numJobs : Int} {task changed : Task} {before after : List Work}
    {work instead : Work} (settled : Settled numJobs task (before ++ work :: after))
    (counter : changed.numJobsCompleted = task.numJobsCompleted)
    (status : changed.status = task.status)
    (leaves : work.settling = false) (enters : instead.settling = false) :
    Settled numJobs changed (before ++ instead :: after) := by
  have kept : ∀ other, other.settling = true →
      (other ∈ before ++ instead :: after ↔ other ∈ before ++ work :: after) := by
    intro other settling
    have notLeaving : other ≠ work := by
      rintro rfl
      rw [settling] at leaves
      cases leaves
    have notEntering : other ≠ instead := by
      rintro rfl
      rw [settling] at enters
      cases enters
    simp only [List.mem_append, List.mem_cons, notLeaving, notEntering, false_or]
  obtain ⟨tested, completing, completed, disposing, published⟩ := settled
  constructor
  case tested =>
    intro nowCompleted member
    rw [counter]
    exact tested nowCompleted ((kept _ rfl).mp member)
  case completing =>
    intro member
    rw [counter]
    exact completing ((kept _ rfl).mp member)
  case completed =>
    rw [counter, status]
    exact completed
  case disposing =>
    intro member
    rw [status]
    exact disposing ((kept _ rfl).mp member)
  case published =>
    rw [counter, status, kept _ rfl, kept _ rfl]
    exact published

namespace Balanced

variable {numJobs : Int} {threads : Nat} {task : Task} {workers before after : List Work}
  {work : Work} {executed : List Int}

theorem drawn (balanced : Balanced numJobs threads task workers executed) :
    (((claimedJobs numJobs workers).length + executed.length : Nat) : Int) =
      min task.numJobsStarted numJobs := by
  have lengths := balanced.jobs.length_eq
  rw [List.length_append] at lengths
  rw [lengths, jobsBelow_length]
  have := balanced.started
  have := balanced.nonempty
  omega

theorem counted_le (balanced : Balanced numJobs threads task workers executed) :
    task.numJobsCompleted + uncountedJobs workers ≤ numJobs := by
  have := balanced.counted
  have := balanced.drawn
  omega

/-- A thread goes on, or returns, without drawing, running or counting. -/
theorem replace (balanced : Balanced numJobs threads task (before ++ work :: after) executed)
    {changed : Task} {instead : Option Work}
    (started : changed.numJobsStarted = task.numJobsStarted)
    (completed : changed.numJobsCompleted = task.numJobsCompleted)
    (claimed : claimedJobs numJobs instead.toList = work.claimed numJobs)
    (uncounted : uncountedJobs instead.toList = work.uncounted)
    (drawing : drawers numJobs instead.toList ≤ if work.drawing numJobs then 1 else 0)
    (left : ∀ next, instead = some next → next.drawing numJobs = false →
      numJobs ≤ task.numJobsStarted)
    (tested : ∀ nowCompleted, instead ≠ some (.testCompleted nowCompleted))
    (completing : instead = some .complete → task.numJobsCompleted = numJobs)
    (status : changed.status = task.status ∨
      changed.status = .completed ∧ task.numJobsCompleted = numJobs)
    (disposing : instead = some .dispose → changed.status = .completed)
    (published : task.numJobsCompleted = numJobs →
      work.publishing = true → changed.status = .completed ∨ instead = some .complete ∨
        ∃ nowCompleted, work = .testCompleted nowCompleted ∧ nowCompleted ≠ numJobs) :
    Balanced numJobs threads changed (before ++ instead.toList ++ after) executed := by
  have short : instead.toList.length ≤ 1 := Option.length_toList_le
  have others : ∀ other, other ∈ before ++ instead.toList ++ after →
      instead = some other ∨ other ∈ before ++ work :: after := by
    intro other member
    rw [List.mem_append, List.mem_append, Option.mem_toList] at member
    obtain (earlier | same) | later := member
    · exact Or.inr (mem_middle.mpr (Or.inr (List.mem_append_left after earlier)))
    · exact Or.inl same
    · exact Or.inr (mem_middle.mpr (Or.inr (List.mem_append_right before later)))
  have keepsStatus : task.status = .completed → changed.status = .completed := by
    intro done
    obtain same | ⟨done, _⟩ := status
    · rw [same, done]
    · exact done
  constructor
  case nonempty => exact balanced.nonempty
  case representable => exact balanced.representable
  case capacity =>
    have := balanced.capacity
    simp only [List.length_append, List.length_cons] at this ⊢
    omega
  case started =>
    rw [started]
    exact balanced.started
  case counter =>
    rw [completed]
    exact balanced.counter
  case jobs =>
    have jobs := balanced.jobs
    simp only [claimedJobs_append, claimedJobs_cons, claimed, started, List.append_assoc] at jobs ⊢
    exact jobs
  case counted =>
    have := balanced.counted
    simp only [uncountedJobs_append, uncountedJobs_cons, uncounted, completed] at this ⊢
    omega
  case overdrawn =>
    intro past
    have := balanced.overdrawn (started ▸ past)
    simp only [drawers_append, drawers_cons, started] at this ⊢
    omega
  case left =>
    intro other member past
    rw [started]
    obtain same | member := others other member
    · exact left other same past
    · exact balanced.left other member past
  case settled =>
    constructor
    case tested =>
      intro nowCompleted member
      rw [completed]
      obtain same | member := others _ member
      · exact absurd same (tested nowCompleted)
      · exact balanced.settled.tested nowCompleted member
    case completing =>
      intro member
      rw [completed]
      obtain same | member := others _ member
      · exact completing same
      · exact balanced.settled.completing member
    case completed =>
      intro done
      rw [completed]
      obtain same | ⟨_, all⟩ := status
      · exact balanced.settled.completed (same ▸ done)
      · exact all
    case disposing =>
      intro member
      obtain same | member := others _ member
      · exact disposing same
      · exact keepsStatus (balanced.settled.disposing member)
    case published =>
      intro all
      rw [completed] at all
      have kept : ∀ other ∈ before ++ work :: after, other ≠ work →
          other ∈ before ++ instead.toList ++ after := by
        intro other member different
        obtain same | others := mem_middle.mp member
        · exact absurd same different
        · rw [List.append_assoc]
          exact ((List.append_sublist_append_left before).mpr
            (List.sublist_append_right instead.toList after)).subset others
      have gone : work.publishing = true → changed.status = .completed ∨
          .complete ∈ before ++ instead.toList ++ after ∨
          ∃ nowCompleted, work = .testCompleted nowCompleted ∧ nowCompleted ≠ numJobs := by
        intro publishing
        obtain done | rfl | skipped := published all publishing
        · exact Or.inl done
        · exact Or.inr (Or.inl (by simp))
        · exact Or.inr (Or.inr skipped)
      obtain done | member | member := balanced.settled.published all
      · exact Or.inl (keepsStatus done)
      · by_cases same : .testCompleted numJobs = work
        · subst same
          obtain done | member | ⟨nowCompleted, same, different⟩ := gone rfl
          · exact Or.inl done
          · exact Or.inr (Or.inr member)
          · cases same
            exact absurd rfl different
        · exact Or.inr (Or.inl (kept _ member same))
      · by_cases same : .complete = work
        · subst same
          obtain done | member | ⟨nowCompleted, same, different⟩ := gone rfl
          · exact Or.inl done
          · exact Or.inr (Or.inr member)
          · cases same
        · exact Or.inr (Or.inr (kept _ member same))

theorem claim_started {myCompleted : Nat}
    (balanced : Balanced numJobs threads task (before ++ .claim myCompleted :: after) executed) :
    atomicInt (task.numJobsStarted + 1) = task.numJobsStarted + 1 := by
  have nonnegative := balanced.started
  have capacity := balanced.capacity
  have representable := balanced.representable
  have overdrawn := balanced.overdrawn
  simp only [drawers_append, drawers_cons, List.length_append, List.length_cons,
    show Work.drawing numJobs (.claim myCompleted) = true from rfl, if_true] at capacity overdrawn
  apply atomicInt_small <;> omega

/-- A thread draws a number: the next job, or the one number too many it draws. -/
theorem claim {myCompleted : Nat}
    (balanced : Balanced numJobs threads task (before ++ .claim myCompleted :: after) executed) :
    Balanced numJobs threads { task with numJobsStarted := atomicInt (task.numJobsStarted + 1) }
      (before ++ .test myCompleted task.numJobsStarted :: after) executed := by
  have nonnegative := balanced.started
  have capacity := balanced.capacity
  have draws := drawers_le numJobs (before ++ .claim myCompleted :: after)
  have representable := balanced.representable
  have overdrawn := balanced.overdrawn
  have jobs := balanced.jobs
  rw [balanced.claim_started]
  simp only [drawers_append, drawers_cons, List.length_append, List.length_cons,
    show Work.drawing numJobs (.claim myCompleted) = true from rfl, if_true] at *
  constructor
  case nonempty => exact balanced.nonempty
  case representable => exact representable
  case capacity =>
    simp only [List.length_append, List.length_cons]
    exact capacity
  case started =>
    dsimp only
    omega
  case counter => exact balanced.counter
  case jobs =>
    simp only [claimedJobs_append, claimedJobs_cons, Work.claimed, List.nil_append] at jobs ⊢
    by_cases within : task.numJobsStarted < numJobs
    · have bound : min (task.numJobsStarted + 1) numJobs = task.numJobsStarted + 1 := by omega
      have earlier : min task.numJobsStarted numJobs = task.numJobsStarted := by omega
      rw [if_pos within, bound, jobsBelow_succ nonnegative]
      rw [earlier] at jobs
      -- the number drawn moves from the end of the numbers drawn to its thread
      have appended := jobs.append_right [task.numJobsStarted]
      have moved : (claimedJobs numJobs before ++
          ([task.numJobsStarted] ++ claimedJobs numJobs after) ++ executed).Perm
          (claimedJobs numJobs before ++ claimedJobs numJobs after ++ executed ++
            [task.numJobsStarted]) := by
        simp only [List.append_assoc]
        apply List.Perm.append_left
        rw [List.singleton_append, ← List.append_assoc]
        exact (List.perm_append_singleton _ _).symm
      exact moved.trans appended
    · have bound : min (task.numJobsStarted + 1) numJobs = numJobs := by omega
      have earlier : min task.numJobsStarted numJobs = numJobs := by omega
      rw [if_neg within, bound, List.nil_append]
      rw [earlier] at jobs
      exact jobs
  case counted =>
    have counted := balanced.counted
    simp only [uncountedJobs_append, uncountedJobs_cons, Work.uncounted] at counted ⊢
    exact counted
  case overdrawn =>
    intro past
    simp only [drawers_append, drawers_cons, Work.drawing, decide_eq_true_eq]
    split <;> omega
  case left =>
    intro other member gone
    dsimp only
    obtain rfl | member := others_stay member
    · simp only [Work.drawing, decide_eq_false_iff_not] at gone
      omega
    · have := balanced.left other member gone
      omega
  case settled => exact balanced.settled.exchange rfl rfl rfl rfl

/-- A thread runs the job it has claimed. -/
theorem run {myCompleted : Nat} {thisJobID : Int}
    (balanced : Balanced numJobs threads task (before ++ .run myCompleted thisJobID :: after)
      executed) :
    Balanced numJobs threads task (before ++ .claim (myCompleted + 1) :: after)
      (executed ++ [thisJobID]) := by
  constructor
  case nonempty => exact balanced.nonempty
  case representable => exact balanced.representable
  case capacity =>
    have capacity := balanced.capacity
    simp only [List.length_append, List.length_cons] at capacity ⊢
    exact capacity
  case started => exact balanced.started
  case counter => exact balanced.counter
  case jobs =>
    have jobs := balanced.jobs
    simp only [claimedJobs_append, claimedJobs_cons, Work.claimed, List.nil_append] at jobs ⊢
    -- the job moves from its thread to the end of those run
    have moved : (claimedJobs numJobs before ++ claimedJobs numJobs after ++
        (executed ++ [thisJobID])).Perm
        (claimedJobs numJobs before ++ ([thisJobID] ++ claimedJobs numJobs after) ++ executed) := by
      simp only [List.append_assoc]
      apply List.Perm.append_left
      rw [List.singleton_append, ← List.append_assoc]
      exact List.perm_append_singleton _ _
    exact moved.trans jobs
  case counted =>
    have counted := balanced.counted
    simp only [uncountedJobs_append, uncountedJobs_cons, Work.uncounted, List.length_append,
      List.length_singleton] at counted ⊢
    omega
  case overdrawn =>
    have overdrawn := balanced.overdrawn
    simp only [drawers_append, drawers_cons, Work.drawing] at overdrawn ⊢
    exact overdrawn
  case left =>
    intro other member gone
    obtain rfl | member := others_stay member
    · cases gone
    · exact balanced.left other member gone
  case settled => exact balanced.settled.exchange rfl rfl rfl rfl

/-- A thread adds the jobs it has run to the counter. -/
theorem count {myCompleted : Nat}
    (balanced : Balanced numJobs threads task (before ++ .count myCompleted :: after) executed) :
    Balanced numJobs threads
      { task with numJobsCompleted := atomicInt (task.numJobsCompleted + myCompleted) }
      (before ++ .testCompleted (atomicInt (task.numJobsCompleted + myCompleted)) :: after)
      executed := by
  have counted := balanced.counted
  have most := balanced.counted_le
  have representable := balanced.representable
  simp only [uncountedJobs_append, uncountedJobs_cons, Work.uncounted] at counted most
  have counter := balanced.counter
  have sum : atomicInt (task.numJobsCompleted + myCompleted) =
      task.numJobsCompleted + myCompleted := by
    apply atomicInt_small <;> omega
  rw [sum]
  constructor
  case nonempty => exact balanced.nonempty
  case representable => exact representable
  case capacity =>
    have capacity := balanced.capacity
    simp only [List.length_append, List.length_cons] at capacity ⊢
    exact capacity
  case started => exact balanced.started
  case counter =>
    dsimp only
    omega
  case jobs =>
    have jobs := balanced.jobs
    simp only [claimedJobs_append, claimedJobs_cons, Work.claimed] at jobs ⊢
    exact jobs
  case counted =>
    simp only [uncountedJobs_append, uncountedJobs_cons, Work.uncounted]
    omega
  case overdrawn =>
    have overdrawn := balanced.overdrawn
    simp only [drawers_append, drawers_cons, Work.drawing] at overdrawn ⊢
    exact overdrawn
  case left =>
    intro other member gone
    obtain rfl | member := others_stay member
    · exact balanced.left (.count myCompleted) (by simp) rfl
    · exact balanced.left other member gone
  case settled =>
    have settled := balanced.settled
    constructor <;> dsimp only
    case tested =>
      intro nowCompleted member
      obtain same | member := others_stay member
      · cases same
        exact Int.le_refl _
      · have := settled.tested nowCompleted member
        omega
    case completing =>
      intro member
      obtain same | member := others_stay member
      · cases same
      · have := settled.completing member
        omega
    case completed =>
      intro done
      have := settled.completed done
      omega
    case disposing =>
      intro member
      obtain same | member := others_stay member
      · cases same
      · exact settled.disposing member
    case published =>
      intro all
      rw [all]
      exact Or.inr (Or.inl (by simp))

/-- A step of `workOnIt` keeps the books. -/
theorem workOnIt (balanced : Balanced numJobs threads task (before ++ work :: after) executed)
    (numJobsInTask : task.numJobsInTask = numJobs) :
    Balanced numJobs threads (task.workOnIt work).1
      (before ++ (task.workOnIt work).2.toList ++ after) (executed ++ work.executes) := by
  have mine : work ∈ before ++ work :: after := by simp
  cases work with
  | claim myCompleted =>
    simp only [Task.workOnIt, Work.executes, List.append_nil, Option.toList_some, List.append_assoc,
      List.singleton_append]
    exact balanced.claim
  | test myCompleted thisJobID =>
    simp only [Task.workOnIt, Work.executes, List.append_nil, numJobsInTask]
    by_cases last : thisJobID ≥ numJobs
    · have past : numJobs ≤ task.numJobsStarted :=
        balanced.left _ mine (by simpa [Work.drawing] using last)
      rw [if_pos last]
      by_cases none_ : myCompleted = 0
      · rw [if_neg (not_not.mpr none_)]
        apply balanced.replace rfl rfl <;> simp [Work.claimed, Work.uncounted, Work.publishing, none_]
        omega
      · rw [if_pos none_]
        apply balanced.replace rfl rfl <;>
          simp [Work.claimed, Work.uncounted, Work.publishing, Work.drawing, past]
        omega
    · have within : thisJobID < numJobs := Int.lt_of_not_ge last
      rw [if_neg last]
      apply balanced.replace rfl rfl <;>
        simp [Work.claimed, Work.uncounted, Work.publishing, Work.drawing, within]
  | run myCompleted thisJobID =>
    simp only [Task.workOnIt, Work.executes, Option.toList_some, List.append_assoc,
      List.singleton_append]
    exact balanced.run
  | count myCompleted =>
    simp only [Task.workOnIt, Work.executes, List.append_nil, Option.toList_some, List.append_assoc,
      List.singleton_append]
    exact balanced.count
  | testCompleted nowCompleted =>
    simp only [Task.workOnIt, Work.executes, List.append_nil, numJobsInTask]
    have past : numJobs ≤ task.numJobsStarted := balanced.left _ mine rfl
    have most := balanced.counted_le
    have reached := balanced.settled.tested nowCompleted mine
    by_cases all : nowCompleted = numJobs
    · rw [if_pos all]
      apply balanced.replace rfl rfl <;>
        simp [Work.claimed, Work.uncounted, Work.drawing, past]
      omega
    · rw [if_neg all]
      apply balanced.replace rfl rfl <;> simp [Work.claimed, Work.uncounted, all]
  | complete =>
    simp only [Task.workOnIt, Work.executes, List.append_nil]
    have past : numJobs ≤ task.numJobsStarted := balanced.left _ mine rfl
    have all : task.numJobsCompleted = numJobs := balanced.settled.completing mine
    apply balanced.replace <;> simp [Work.claimed, Work.uncounted, Work.drawing, past, all]
  | dispose =>
    simp only [Task.workOnIt, Work.executes, List.append_nil]
    apply balanced.replace rfl rfl <;> simp [Work.claimed, Work.uncounted, Work.publishing]

theorem workOnIt_mono (balanced : Balanced numJobs threads task (before ++ work :: after) executed) :
    task.numJobsStarted ≤ (task.workOnIt work).1.numJobsStarted ∧
      (task.status = .completed → (task.workOnIt work).1.status = .completed) := by
  cases work with
  | claim myCompleted =>
    refine ⟨?_, id⟩
    simp only [Task.workOnIt, balanced.claim_started]
    omega
  | test myCompleted thisJobID =>
    simp only [Task.workOnIt]
    split <;> exact ⟨Int.le_refl _, id⟩
  | complete => exact ⟨Int.le_refl _, fun _ => rfl⟩
  | _ => exact ⟨Int.le_refl _, id⟩

theorem returns_drawn (balanced : Balanced numJobs threads task (before ++ work :: after) executed)
    (numJobsInTask : task.numJobsInTask = numJobs) (returns : (task.workOnIt work).2 = none) :
    numJobs ≤ task.numJobsStarted := by
  apply balanced.left work (by simp)
  cases work with
  | test myCompleted thisJobID =>
    simp only [Task.workOnIt, numJobsInTask] at returns
    split at returns
    · simpa [Work.drawing] using ‹thisJobID ≥ numJobs›
    · cases returns
  | claim myCompleted => cases returns
  | run myCompleted thisJobID => cases returns
  | _ => rfl

theorem withdraw (balanced : Balanced numJobs threads task (before ++ .claim 0 :: after) executed) :
    Balanced numJobs threads task (before ++ after) executed := by
  have without : Balanced numJobs threads task (before ++ (none : Option Work).toList ++ after)
      executed := by
    apply balanced.replace rfl rfl <;> simp [Work.claimed, Work.uncounted, Work.publishing]
  rwa [Option.toList_none, List.append_nil] at without

/-- A thread takes up a task that has jobs left. -/
theorem join (balanced : Balanced numJobs threads task (before ++ after) executed)
    (room : (before ++ after).length < threads) (jobsLeft : task.numJobsStarted < numJobs) :
    Balanced numJobs threads task (before ++ .claim 0 :: after) executed := by
  have settled := balanced.settled
  constructor
  case nonempty => exact balanced.nonempty
  case representable => exact balanced.representable
  case capacity =>
    simp only [List.length_append, List.length_cons] at room ⊢
    omega
  case started => exact balanced.started
  case counter => exact balanced.counter
  case jobs =>
    have jobs := balanced.jobs
    simp only [claimedJobs_append, claimedJobs_cons, Work.claimed, List.nil_append] at jobs ⊢
    exact jobs
  case counted =>
    have counted := balanced.counted
    simp only [uncountedJobs_append, uncountedJobs_cons, Work.uncounted] at counted ⊢
    omega
  case overdrawn =>
    intro past
    omega
  case left =>
    intro other member gone
    obtain rfl | member := mem_middle.mp member
    · cases gone
    · exact balanced.left other member gone
  case settled =>
    have kept : ∀ other : Work, other.settling = true →
        (other ∈ before ++ .claim 0 :: after ↔ other ∈ before ++ after) := by
      intro other settling
      have different : other ≠ .claim 0 := by
        rintro rfl
        cases settling
      rw [mem_middle, or_iff_right different]
    constructor
    case tested =>
      intro nowCompleted member
      exact settled.tested nowCompleted ((kept _ rfl).mp member)
    case completing =>
      intro member
      exact settled.completing ((kept _ rfl).mp member)
    case completed => exact settled.completed
    case disposing =>
      intro member
      exact settled.disposing ((kept _ rfl).mp member)
    case published =>
      rw [kept _ rfl, kept _ rfl]
      exact settled.published

theorem congr (balanced : Balanced numJobs threads task workers executed) {changed : Task}
    (started : changed.numJobsStarted = task.numJobsStarted)
    (completed : changed.numJobsCompleted = task.numJobsCompleted)
    (status : changed.status = task.status) :
    Balanced numJobs threads changed workers executed := by
  obtain ⟨nonempty, representable, capacity, drawn, counter, jobs, counted, overdrawn, left,
    tested, completing, finished, disposing, published⟩ := balanced
  rw [← started] at drawn jobs overdrawn left
  rw [← completed] at counter counted tested completing finished published
  rw [← status] at finished disposing published
  exact ⟨nonempty, representable, capacity, drawn, counter, jobs, counted, overdrawn, left,
    tested, completing, finished, disposing, published⟩

/-- A new object, with the caller about to work on it or nobody. -/
theorem fresh (nonempty : 1 ≤ numJobs) (representable : numJobs + threads < 2 ^ 31)
    (present : 1 ≤ threads) (started : task.numJobsStarted = 0)
    (completed : task.numJobsCompleted = 0) (status : task.status ≠ .completed)
    {caller : Option Work} (unstarted : ∀ work, caller = some work → work = .claim 0) :
    Balanced numJobs threads task caller.toList [] := by
  have none_or : caller.toList = [] ∨ caller.toList = [.claim 0] := by
    cases caller with
    | none => exact Or.inl rfl
    | some work => exact Or.inr (congrArg (fun work => [work]) (unstarted work rfl))
  have below : jobsBelow (min task.numJobsStarted numJobs) = [] := by
    have bound : min task.numJobsStarted numJobs = 0 := by omega
    rw [bound]
    rfl
  constructor
  case nonempty => exact nonempty
  case representable => exact representable
  case capacity => exact Nat.le_trans Option.length_toList_le present
  case started => omega
  case counter => omega
  case jobs => obtain all | all := none_or <;> rw [all, below] <;> exact List.Perm.refl []
  case counted => obtain all | all := none_or <;> rw [all, completed] <;> rfl
  case overdrawn =>
    intro past
    omega
  case left =>
    intro work member gone
    obtain all | all := none_or <;> rw [all] at member
    · cases member
    · rw [List.mem_singleton.mp member] at gone
      cases gone
  case settled =>
    have quiet : ∀ work ∈ caller.toList, work = .claim 0 := by
      intro work member
      exact unstarted work (Option.mem_toList.mp member)
    constructor
    case tested =>
      intro nowCompleted member
      cases quiet _ member
    case completing =>
      intro member
      cases quiet _ member
    case completed =>
      intro done
      exact absurd done status
    case disposing =>
      intro member
      cases quiet _ member
    case published =>
      intro all
      omega

/-- The object is prepared while nothing has been counted. -/
theorem prepare (balanced : Balanced numJobs threads task workers executed) {changed : Task}
    (started : changed.numJobsStarted = task.numJobsStarted)
    (completed : changed.numJobsCompleted = task.numJobsCompleted)
    (uncounted : task.numJobsCompleted = 0)
    (status : changed.status ≠ .completed) (before : task.status ≠ .completed) :
    Balanced numJobs threads changed workers executed := by
  have nonempty := balanced.nonempty
  obtain ⟨_, representable, capacity, drawn, counter, jobs, counted, overdrawn, left, settled⟩ :=
    balanced
  rw [← started] at drawn jobs overdrawn left
  rw [← completed] at counter counted
  refine ⟨nonempty, representable, capacity, drawn, counter, jobs, counted, overdrawn, left, ?_⟩
  constructor
  case tested =>
    rw [completed]
    exact settled.tested
  case completing =>
    rw [completed]
    exact settled.completing
  case completed =>
    intro done
    exact absurd done status
  case disposing =>
    intro member
    exact absurd (settled.disposing member) before
  case published =>
    intro all
    omega

theorem all_executed (balanced : Balanced numJobs threads task workers executed)
    (completed : task.status = .completed) : executed.Perm (jobsBelow numJobs) := by
  have all := balanced.settled.completed completed
  have counted := balanced.counted
  have drawn := balanced.drawn
  have noneClaimed : claimedJobs numJobs workers = [] := by
    apply List.eq_nil_of_length_eq_zero
    omega
  have bound : min task.numJobsStarted numJobs = numJobs := by omega
  have jobs := balanced.jobs
  rwa [noneClaimed, List.nil_append, bound] at jobs

theorem executed_once (balanced : Balanced numJobs threads task workers executed) :
    executed.Nodup ∧ ∀ job ∈ executed, 0 ≤ job ∧ job < numJobs := by
  have distinct := balanced.jobs.nodup_iff.mpr (jobsBelow_nodup _)
  constructor
  · exact (List.nodup_append.mp distinct).2.1
  · intro job member
    have listed := balanced.jobs.mem_iff.mp (List.mem_append_right _ member)
    obtain ⟨nonnegative, below⟩ := mem_jobsBelow.mp listed
    exact ⟨nonnegative, by omega⟩

/-- When every job has been run and no thread has anything left to add or to publish,
the status is set. -/
theorem status_completed (balanced : Balanced numJobs threads task workers executed)
    (all : ∀ job, 0 ≤ job → job < numJobs → job ∈ executed)
    (added : ∀ work ∈ workers, work.uncounted = 0)
    (published : ∀ work ∈ workers, work.publishing = false) : task.status = .completed := by
  have enough : (jobsBelow numJobs).length ≤ executed.length := by
    apply List.Subperm.length_le
    apply List.subperm_of_subset (jobsBelow_nodup numJobs)
    intro job member
    obtain ⟨nonnegative, below⟩ := mem_jobsBelow.mp member
    exact all job nonnegative below
  have noneUncounted : uncountedJobs workers = 0 := by
    rw [uncountedJobs, List.sum_eq_zero_iff_forall_eq_nat]
    intro number member
    obtain ⟨work, present, rfl⟩ := List.mem_map.mp member
    exact added work present
  have nonempty := balanced.nonempty
  have length := @jobsBelow_length numJobs (by omega)
  have counted := balanced.counted
  have drawn := balanced.drawn
  have complete : task.numJobsCompleted = numJobs := by omega
  obtain done | member | member := balanced.settled.published complete
  · exact done
  · cases published _ member
  · cases published _ member

/-- While the status is not set although every number has been drawn, some thread
has a step to do on the task. -/
theorem someone_works (balanced : Balanced numJobs threads task workers executed)
    (drawn : numJobs ≤ task.numJobsStarted) (waiting : task.status ≠ .completed) :
    ∃ work ∈ workers, work ≠ .claim 0 := by
  by_contra nobody
  simp only [not_exists, not_and, not_not] at nobody
  apply waiting
  have noneClaimed : claimedJobs numJobs workers = [] := by
    rw [claimedJobs, List.flatMap_eq_nil_iff]
    intro work member
    rw [nobody work member]
    rfl
  have jobs := balanced.jobs
  have bound : min task.numJobsStarted numJobs = numJobs := by omega
  rw [noneClaimed, List.nil_append, bound] at jobs
  apply balanced.status_completed
  · intro job nonnegative below
    exact jobs.mem_iff.mpr (mem_jobsBelow.mpr ⟨nonnegative, below⟩)
  · intro work member
    rw [nobody work member]
    rfl
  · intro work member
    rw [nobody work member]
    rfl

end Balanced

end Ospray.Tasking
