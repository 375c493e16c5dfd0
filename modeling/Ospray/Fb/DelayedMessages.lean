import Mathlib.Data.Multiset.Bind
import Ospray.Library.Runs

/-!
# Messages that arrive between frames

`incoming` is called for every message of another rank. While a frame is active the
message is scheduled for processing; otherwise it is put aside, and `startNewFrame`
schedules what was put aside once its frame is active. `frameIsActive` is tested
without the mutex first and again with it. Any number of calls of `incoming`,
`startNewFrame`, `waitUntilFinished` and `closeCurrentFrame` are in progress at a
time, each of which moves on by one access to the shared members or the mutex.
-/

namespace Ospray.Dfb

open Library.Runs

/-- `TileMessage`, with what its kind adds to it. -/
structure TileMessage (P : Type) where
  command : UInt32
  payload : P
  deriving DecidableEq

/-- The command tag of messages about the progress. -/
def PROGRESS_MESSAGE : UInt32 := (1 : UInt32) <<< 7

variable {P : Type}

/-- `msg->command & PROGRESS_MESSAGE` -/
def TileMessage.isProgress (msg : TileMessage P) : Bool := msg.command &&& PROGRESS_MESSAGE != 0

/-- What happened, in the order of the log. -/
inductive Event (P : Type)
  -- a message was passed to `incoming`
  | passed (message : TileMessage P)
  -- `incoming` put it aside
  | delayed (message : TileMessage P)
  -- `incoming` scheduled it
  | scheduled (message : TileMessage P)
  -- `startNewFrame` set the frame to active, with its copy of the delayed messages
  | activated (copies : List (TileMessage P))
  -- `startNewFrame` scheduled one of its copies
  | rescheduled (message : TileMessage P)
  | deactivated

/-- A call that does not hold the mutex. -/
inductive Outside (P : Type)
  | incomingTest (message : TileMessage P)
  | incomingLock (message : TileMessage P)
  | incomingSchedule (message : TileMessage P)
  | startLock
  | startSchedule (copies : List (TileMessage P))
  | waitLock
  | waitBlocked
  | closeLock

/-- The call that holds the mutex. At `unlock` it is about to release it. -/
inductive Inside (P : Type)
  | incomingTest (message : TileMessage P)
  | incomingPush (message : TileMessage P)
  | startTest
  | startCopy
  | startClear (copies : List (TileMessage P))
  | startActivate (copies : List (TileMessage P))
  | waitTest
  | waitDeactivate
  | closeSet
  | unlock (next : Option (Outside P))

/-- The members of the frame buffer that the calls share, the calls, and the log, the
newest event first. The mutex is held by the call that is inside, if there is one. -/
structure DelayingBuffer (P : Type) where
  frameIsActive : Bool
  frameIsDone : Bool
  delayedMessage : List (TileMessage P)
  outside : Multiset (Outside P)
  inside : Option (Inside P)
  log : List (Event P)

/-- The constructor. -/
def DelayingBuffer.new : DelayingBuffer P where
  frameIsActive := false
  frameIsDone := false
  delayedMessage := []
  outside := 0
  inside := none
  log := []

/-- A call begins. -/
inductive Begins (dfb : DelayingBuffer P) : DelayingBuffer P → Prop
  | incoming (message : TileMessage P) : Begins dfb
      { dfb with outside := .incomingTest message ::ₘ dfb.outside, log := .passed message :: dfb.log }
  | startNewFrame : Begins dfb { dfb with outside := .startLock ::ₘ dfb.outside }
  | waitUntilFinished : Begins dfb { dfb with outside := .waitLock ::ₘ dfb.outside }
  | closeCurrentFrame : Begins dfb { dfb with outside := .closeLock ::ₘ dfb.outside }

/-- A call that waits for the end of the frame wakes up, notified or not. -/
inductive Wakes (dfb : DelayingBuffer P) : DelayingBuffer P → Prop
  | wake {others : Multiset (Outside P)} (waits : dfb.outside = .waitBlocked ::ₘ others) :
      Wakes dfb { dfb with outside := .waitLock ::ₘ others }

/-- What a call does first with the mutex. -/
def Outside.locked : Outside P → Option (Inside P)
  | .incomingLock message => some (.incomingTest message)
  | .startLock => some .startTest
  | .waitLock => some .waitTest
  | .closeLock => some .closeSet
  | _ => none

/-- A step of a call that neither holds nor needs the mutex: what becomes of it, and
what it logs. -/
def Outside.step (frameIsActive : Bool) :
    Outside P → Option (Option (Outside P) × List (Event P))
  | .incomingTest message =>
    if !frameIsActive && !message.isProgress then some (some (.incomingLock message), [])
    else some (some (.incomingSchedule message), [])
  | .incomingSchedule message => some (none, [.scheduled message])
  | .startSchedule [] => some (none, [])
  | .startSchedule (message :: rest) =>
    some (some (.startSchedule rest), [.rescheduled message])
  | _ => none

/-- A step of the call that holds the mutex. -/
def DelayingBuffer.insideStep (dfb : DelayingBuffer P) : Inside P → DelayingBuffer P
  | .incomingTest message =>
    if !dfb.frameIsActive then { dfb with inside := some (.incomingPush message) }
    else { dfb with inside := some (.unlock (some (.incomingSchedule message))) }
  | .incomingPush message =>
    { dfb with
      delayedMessage := dfb.delayedMessage ++ [message]
      inside := some (.unlock none)
      log := .delayed message :: dfb.log }
  -- an active frame is not started again: the call throws
  | .startTest =>
    if dfb.frameIsActive then { dfb with inside := some (.unlock none) }
    else { dfb with inside := some .startCopy }
  | .startCopy => { dfb with inside := some (.startClear dfb.delayedMessage) }
  | .startClear copies =>
    { dfb with delayedMessage := [], inside := some (.startActivate copies) }
  | .startActivate copies =>
    { dfb with
      frameIsDone := false
      frameIsActive := true
      inside := some (.unlock (some (.startSchedule copies)))
      log := .activated copies :: dfb.log }
  | .waitTest =>
    if dfb.frameIsDone then { dfb with inside := some .waitDeactivate }
    else { dfb with inside := some (.unlock (some .waitBlocked)) }
  | .waitDeactivate =>
    { dfb with
      frameIsActive := false
      inside := some (.unlock none)
      log := .deactivated :: dfb.log }
  | .closeSet => { dfb with frameIsDone := true, inside := some (.unlock none) }
  | .unlock next =>
    { dfb with inside := none, outside := next.elim dfb.outside (· ::ₘ dfb.outside) }

/-- A call in progress moves on. -/
inductive Works (dfb : DelayingBuffer P) : DelayingBuffer P → Prop
  | lock {call : Outside P} {others : Multiset (Outside P)} {first : Inside P}
      (member : dfb.outside = call ::ₘ others) (locks : call.locked = some first)
      (free : dfb.inside = none) :
      Works dfb { dfb with outside := others, inside := some first }
  | outside {call : Outside P} {others : Multiset (Outside P)} {next : Option (Outside P)}
      {events : List (Event P)} (member : dfb.outside = call ::ₘ others)
      (moves : call.step dfb.frameIsActive = some (next, events)) :
      Works dfb { dfb with outside := next.elim others (· ::ₘ others), log := events ++ dfb.log }
  | inside {call : Inside P} (holds : dfb.inside = some call) : Works dfb (dfb.insideStep call)

/-- A step of the frame buffer. -/
def Step (dfb next : DelayingBuffer P) : Prop :=
  Begins dfb next ∨ Wakes dfb next ∨ Works dfb next

/-- The states of a frame buffer in use. -/
def InUse (dfb : DelayingBuffer P) : Prop := Reachable (· = DelayingBuffer.new) Step dfb

/-! ## Where each message is -/

/-- The messages of a log, by the kind of event. -/
def passed : List (Event P) → Multiset (TileMessage P)
  | [] => 0
  | .passed message :: rest => message ::ₘ passed rest
  | _ :: rest => passed rest

/-- Messages that were scheduled, by `incoming` or by `startNewFrame`. -/
def scheduled : List (Event P) → Multiset (TileMessage P)
  | [] => 0
  | .scheduled message :: rest => message ::ₘ scheduled rest
  | .rescheduled message :: rest => message ::ₘ scheduled rest
  | _ :: rest => scheduled rest

/-- Messages that `startNewFrame` scheduled. -/
def rescheduled : List (Event P) → Multiset (TileMessage P)
  | [] => 0
  | .rescheduled message :: rest => message ::ₘ rescheduled rest
  | _ :: rest => rescheduled rest

/-- The copies with which frames were activated. -/
def activated : List (Event P) → Multiset (TileMessage P)
  | [] => 0
  | .activated copies :: rest => (copies : Multiset (TileMessage P)) + activated rest
  | _ :: rest => activated rest

/-- The messages delayed since the last frame became active, in order. -/
def delayedSince : List (Event P) → List (TileMessage P)
  | [] => []
  | .delayed message :: rest => delayedSince rest ++ [message]
  | .activated _ :: _ => []
  | _ :: rest => delayedSince rest

/-- The messages that a call has still to schedule or to put aside. -/
def Outside.holds : Outside P → Multiset (TileMessage P)
  | .incomingTest message => {message}
  | .incomingLock message => {message}
  | .incomingSchedule message => {message}
  | .startSchedule copies => copies
  | _ => 0

/-- The same for the call inside. Until `delayedMessage` is cleared, the copies are
counted there. -/
def Inside.holds : Inside P → Multiset (TileMessage P)
  | .incomingTest message => {message}
  | .incomingPush message => {message}
  | .startActivate copies => copies
  | .unlock (some next) => next.holds
  | _ => 0

/-- The copies that a call of `startNewFrame` has still to schedule after its frame
became active. -/
def Outside.copies : Outside P → Multiset (TileMessage P)
  | .startSchedule copies => copies
  | _ => 0

/-- The same for the call inside. -/
def Inside.copies : Inside P → Multiset (TileMessage P)
  | .unlock (some next) => next.copies
  | _ => 0

/-- The messages in the hands of calls. -/
def DelayingBuffer.held (dfb : DelayingBuffer P) : Multiset (TileMessage P) :=
  dfb.outside.bind Outside.holds + dfb.inside.elim 0 Inside.holds

/-- The copies in the hands of calls. -/
def DelayingBuffer.copies (dfb : DelayingBuffer P) : Multiset (TileMessage P) :=
  dfb.outside.bind Outside.copies + dfb.inside.elim 0 Inside.copies

/-- Each frame became active with the messages delayed since the one before. -/
def Taken : List (Event P) → Prop
  | [] => True
  | .activated copies :: rest => copies = delayedSince rest ∧ Taken rest
  | _ :: rest => Taken rest

/-- What a call inside may rely on. From the second test of `frameIsActive` on it knows
that the frame is not active, and from the copy on what it copied. -/
def DelayingBuffer.Fits (dfb : DelayingBuffer P) : Option (Inside P) → Prop
  | some (.incomingPush _) => dfb.frameIsActive = false ∧ delayedSince dfb.log = dfb.delayedMessage
  | some .startCopy => dfb.frameIsActive = false ∧ delayedSince dfb.log = dfb.delayedMessage
  | some (.startClear copies) => dfb.frameIsActive = false ∧
      delayedSince dfb.log = dfb.delayedMessage ∧ copies = dfb.delayedMessage
  | some (.startActivate copies) => dfb.frameIsActive = false ∧
      delayedSince dfb.log = copies ∧ dfb.delayedMessage = []
  | _ => delayedSince dfb.log = dfb.delayedMessage

/-- Every message is in one place, and delayed ones wait only while no frame is active. -/
structure Accounted (dfb : DelayingBuffer P) : Prop where
  accounted : passed dfb.log = scheduled dfb.log + dfb.delayedMessage + dfb.held
  none_delayed : dfb.frameIsActive = true → dfb.delayedMessage = []
  fits : dfb.Fits dfb.inside
  taken : Taken dfb.log
  rescheduling : rescheduled dfb.log + dfb.copies = activated dfb.log
  ordered : ∀ earlier, earlier <:+ dfb.log → rescheduled earlier ≤ activated earlier

theorem ordered_cons {event : Event P} {log : List (Event P)} {copies : Multiset (TileMessage P)}
    (ordered : ∀ earlier, earlier <:+ log → rescheduled earlier ≤ activated earlier)
    (rescheduling : rescheduled (event :: log) + copies = activated (event :: log)) :
    ∀ earlier, earlier <:+ event :: log → rescheduled earlier ≤ activated earlier := by
  intro earlier suffix
  rcases List.suffix_cons_iff.mp suffix with rfl | before
  · exact rescheduling ▸ Multiset.le_add_right _ _
  · exact ordered earlier before

theorem Accounted.regroup {dfb : DelayingBuffer P} (holds : Accounted dfb)
    {outside : Multiset (Outside P)} (held : outside.bind Outside.holds = dfb.outside.bind Outside.holds)
    (copies : outside.bind Outside.copies = dfb.outside.bind Outside.copies) :
    Accounted { dfb with outside } := by
  refine ⟨?_, holds.none_delayed, holds.fits, holds.taken, ?_, holds.ordered⟩
  · simpa only [DelayingBuffer.held, held] using holds.accounted
  · simpa only [DelayingBuffer.copies, copies] using holds.rescheduling

/-- A call begins with its own message only. -/
theorem Accounted.begins {dfb next : DelayingBuffer P} (holds : Accounted dfb)
    (begins : Begins dfb next) : Accounted next := by
  cases begins with
  | incoming message =>
    have rescheduling : rescheduled (.passed message :: dfb.log) +
        DelayingBuffer.copies { dfb with
          outside := .incomingTest message ::ₘ dfb.outside, log := .passed message :: dfb.log } =
        activated (.passed message :: dfb.log) := by
      have before := holds.rescheduling
      simpa [rescheduled, activated, DelayingBuffer.copies, Outside.copies] using before
    refine ⟨?_, holds.none_delayed, holds.fits, holds.taken, rescheduling,
      ordered_cons holds.ordered rescheduling⟩
    have before := holds.accounted
    simp only [passed, scheduled, DelayingBuffer.held, Multiset.cons_bind, Outside.holds] at before ⊢
    rw [before, ← Multiset.singleton_add]
    ac_rfl
  | startNewFrame =>
    exact holds.regroup (by simp [Outside.holds]) (by simp [Outside.copies])
  | waitUntilFinished =>
    exact holds.regroup (by simp [Outside.holds]) (by simp [Outside.copies])
  | closeCurrentFrame =>
    exact holds.regroup (by simp [Outside.holds]) (by simp [Outside.copies])

theorem Accounted.wakes {dfb next : DelayingBuffer P} (holds : Accounted dfb)
    (wakes : Wakes dfb next) : Accounted next := by
  obtain ⟨waits⟩ := wakes
  refine holds.regroup ?_ ?_
  · simp [waits, Outside.holds]
  · simp [waits, Outside.copies]

theorem locked_holds {call : Outside P} {first : Inside P} (locks : call.locked = some first) :
    first.holds = call.holds ∧ first.copies = call.copies := by
  cases call <;> cases locks <;> exact ⟨rfl, rfl⟩

theorem Accounted.lock {dfb : DelayingBuffer P} (holds : Accounted dfb) {call : Outside P}
    {others : Multiset (Outside P)} {first : Inside P} (member : dfb.outside = call ::ₘ others)
    (locks : call.locked = some first) (free : dfb.inside = none) :
    Accounted { dfb with outside := others, inside := some first } := by
  obtain ⟨sameHeld, sameCopies⟩ := locked_holds locks
  have fits := holds.fits
  refine ⟨?_, holds.none_delayed, ?_, holds.taken, ?_, holds.ordered⟩
  · have before := holds.accounted
    simp only [DelayingBuffer.held, member, free, Multiset.cons_bind, Option.elim] at before ⊢
    rw [before, sameHeld]
    ac_rfl
  · rw [free] at fits
    cases call <;> cases locks <;> exact fits
  · have before := holds.rescheduling
    simp only [DelayingBuffer.copies, member, free, Multiset.cons_bind, Option.elim] at before ⊢
    rw [← before, sameCopies]
    ac_rfl

/-- A call moves on without the mutex. -/
theorem Accounted.outsideStep {dfb : DelayingBuffer P} (holds : Accounted dfb) {call : Outside P}
    {others : Multiset (Outside P)} {next : Option (Outside P)} {events : List (Event P)}
    (member : dfb.outside = call ::ₘ others)
    (moves : call.step dfb.frameIsActive = some (next, events)) :
    Accounted { dfb with
      outside := next.elim others (· ::ₘ others), log := events ++ dfb.log } := by
  cases call with
  | incomingTest message =>
    have regrouped : ∀ after : Outside P, after.holds = {message} → after.copies = 0 →
        Accounted { dfb with outside := after ::ₘ others } := by
      intro after held copies
      refine holds.regroup ?_ ?_
      · rw [member, Multiset.cons_bind, Multiset.cons_bind, held]
        rfl
      · rw [member, Multiset.cons_bind, Multiset.cons_bind, copies]
        rfl
    simp only [Outside.step] at moves
    split at moves
    · cases moves
      exact regrouped (.incomingLock message) rfl rfl
    · cases moves
      exact regrouped (.incomingSchedule message) rfl rfl
  | incomingSchedule message =>
    cases moves
    have accounted := holds.accounted
    have before := holds.rescheduling
    simp only [DelayingBuffer.held, DelayingBuffer.copies, member, Multiset.cons_bind,
      Outside.holds, Outside.copies, zero_add] at accounted before
    have rescheduling : rescheduled (.scheduled message :: dfb.log) + DelayingBuffer.copies
        { dfb with outside := others, log := .scheduled message :: dfb.log } =
        activated (.scheduled message :: dfb.log) := before
    refine ⟨?_, holds.none_delayed, holds.fits, holds.taken, rescheduling,
      ordered_cons holds.ordered rescheduling⟩
    change passed dfb.log = (message ::ₘ scheduled dfb.log) + dfb.delayedMessage +
      (others.bind Outside.holds + dfb.inside.elim 0 Inside.holds)
    rw [accounted, ← Multiset.singleton_add]
    ac_rfl
  | startSchedule copies =>
    cases copies with
    | nil =>
      cases moves
      refine holds.regroup ?_ ?_
      · simp [member, Outside.holds]
      · simp [member, Outside.copies]
    | cons message rest =>
      cases moves
      have accounted := holds.accounted
      have before := holds.rescheduling
      simp only [DelayingBuffer.held, DelayingBuffer.copies, member, Multiset.cons_bind,
        Outside.holds, Outside.copies, ← Multiset.cons_coe] at accounted before
      have rescheduling : rescheduled (.rescheduled message :: dfb.log) + DelayingBuffer.copies
          { dfb with
            outside := .startSchedule rest ::ₘ others, log := .rescheduled message :: dfb.log } =
          activated (.rescheduled message :: dfb.log) := by
        simp only [rescheduled, activated, DelayingBuffer.copies, Multiset.cons_bind, Outside.copies]
        rw [← before, ← Multiset.singleton_add, ← Multiset.singleton_add]
        ac_rfl
      refine ⟨?_, holds.none_delayed, holds.fits, holds.taken, rescheduling,
        ordered_cons holds.ordered rescheduling⟩
      simp only [List.cons_append, List.nil_append, passed, scheduled, DelayingBuffer.held,
        Multiset.cons_bind, Outside.holds, Option.elim_some]
      rw [accounted, ← Multiset.singleton_add, ← Multiset.singleton_add]
      ac_rfl
  | incomingLock _ => cases moves
  | startLock => cases moves
  | waitLock => cases moves
  | waitBlocked => cases moves
  | closeLock => cases moves

/-- A call moves on inside, or releases the mutex. -/
theorem Accounted.insideStep {dfb : DelayingBuffer P} (holds : Accounted dfb) {call : Inside P}
    (inside : dfb.inside = some call) : Accounted (dfb.insideStep call) := by
  obtain ⟨accounted, none_delayed, fits, taken, rescheduling, ordered⟩ := holds
  simp only [DelayingBuffer.held, DelayingBuffer.copies, inside, Option.elim_some] at accounted rescheduling
  rw [inside] at fits
  cases call with
  | incomingTest message =>
    rw [DelayingBuffer.insideStep]
    split
    · next inactive =>
      have closed : dfb.frameIsActive = false := by simpa using inactive
      exact ⟨accounted, none_delayed, ⟨closed, fits⟩, taken, rescheduling, ordered⟩
    · exact ⟨accounted, none_delayed, fits, taken, rescheduling, ordered⟩
  | incomingPush message =>
    obtain ⟨closed, since⟩ := fits
    refine ⟨?_, ?_, ?_, taken, rescheduling, ordered_cons ordered rescheduling⟩
    · simp only [DelayingBuffer.insideStep, passed, scheduled, DelayingBuffer.held, Option.elim_some,
        Inside.holds, ← Multiset.coe_add, Multiset.coe_singleton] at accounted ⊢
      rw [accounted]
      ac_rfl
    · intro active
      cases closed.symm.trans active
    · exact congrArg (· ++ [message]) since
  | startTest =>
    rw [DelayingBuffer.insideStep]
    split
    · exact ⟨accounted, none_delayed, fits, taken, rescheduling, ordered⟩
    · next inactive =>
      have closed : dfb.frameIsActive = false := by simpa using inactive
      exact ⟨accounted, none_delayed, ⟨closed, fits⟩, taken, rescheduling, ordered⟩
  | startCopy =>
    obtain ⟨closed, since⟩ := fits
    exact ⟨accounted, none_delayed, ⟨closed, since, rfl⟩, taken, rescheduling, ordered⟩
  | startClear copies =>
    obtain ⟨closed, since, rfl⟩ := fits
    refine ⟨?_, fun _ => rfl, ⟨closed, since, rfl⟩, taken, rescheduling, ordered⟩
    simp only [DelayingBuffer.insideStep, DelayingBuffer.held, Option.elim_some, Inside.holds,
      Multiset.coe_nil, add_zero] at accounted ⊢
    rw [accounted]
    ac_rfl
  | startActivate copies =>
    obtain ⟨closed, since, empty⟩ := fits
    have rescheduling' : rescheduled (.activated copies :: dfb.log) +
        (dfb.insideStep (.startActivate copies)).copies = activated (.activated copies :: dfb.log) := by
      simp only [DelayingBuffer.insideStep, DelayingBuffer.copies, Option.elim_some, Inside.copies,
        Outside.copies, rescheduled, activated] at rescheduling ⊢
      rw [← rescheduling]
      ac_rfl
    exact ⟨accounted, fun _ => empty, empty.symm, ⟨since.symm, taken⟩, rescheduling',
      ordered_cons ordered rescheduling'⟩
  | waitTest =>
    rw [DelayingBuffer.insideStep]
    split
    · exact ⟨accounted, none_delayed, fits, taken, rescheduling, ordered⟩
    · exact ⟨accounted, none_delayed, fits, taken, rescheduling, ordered⟩
  | waitDeactivate =>
    exact ⟨accounted, nofun, fits, taken, rescheduling, ordered_cons ordered rescheduling⟩
  | closeSet => exact ⟨accounted, none_delayed, fits, taken, rescheduling, ordered⟩
  | unlock next =>
    refine ⟨?_, none_delayed, fits, taken, ?_, ordered⟩
    · cases next with
      | none => exact accounted
      | some after =>
        simp only [DelayingBuffer.insideStep, DelayingBuffer.held, Option.elim_none, Option.elim_some,
          Multiset.cons_bind, Inside.holds] at accounted ⊢
        rw [accounted]
        ac_rfl
    · cases next with
      | none => exact rescheduling
      | some after =>
        simp only [DelayingBuffer.insideStep, DelayingBuffer.copies, Option.elim_none,
          Option.elim_some, Multiset.cons_bind, Inside.copies] at rescheduling ⊢
        rw [← rescheduling]
        ac_rfl

/-- In every state of a frame buffer in use each message is in one place. -/
theorem accounted_of_inUse {dfb : DelayingBuffer P} (used : InUse dfb) : Accounted dfb := by
  refine reachable_invariant ?_ ?_ used
  · rintro state rfl
    refine ⟨rfl, nofun, rfl, trivial, rfl, ?_⟩
    intro earlier suffix
    obtain rfl := List.suffix_nil.mp suffix
    exact Multiset.zero_le _
  · intro state next holds moved
    obtain begins | wakes | works := moved
    · exact holds.begins begins
    · exact holds.wakes wakes
    · cases works with
      | lock member locks free => exact holds.lock member locks free
      | outside member moves => exact holds.outsideStep member moves
      | inside inside => exact holds.insideStep inside

/-! ## Calls return -/

/-- The steps that a call can still take before it returns or waits for the end of a
frame. A message may go through `delayedMessage` on its way. -/
def Outside.work : Outside P → Nat
  | .incomingTest _ => 7
  | .incomingLock _ => 6
  | .incomingSchedule _ => 1
  | .startLock => 8
  | .startSchedule copies => copies.length + 1
  | .waitLock => 5
  | .waitBlocked => 0
  | .closeLock => 3

/-- The same for the call inside. -/
def Inside.work : Inside P → Nat
  | .incomingTest _ => 5
  | .incomingPush _ => 4
  | .startTest => 6
  | .startCopy => 5
  | .startClear _ => 4
  | .startActivate copies => copies.length + 3
  | .waitTest => 4
  | .waitDeactivate => 3
  | .closeSet => 2
  | .unlock next => next.elim 0 Outside.work + 1

/-- The steps of all calls in progress. -/
def DelayingBuffer.work (dfb : DelayingBuffer P) : Nat :=
  (dfb.outside.map Outside.work).sum + dfb.inside.elim 0 Inside.work + dfb.delayedMessage.length

/-- A call that takes the mutex has fewer steps left. -/
theorem locked_work {call : Outside P} {first : Inside P} (locks : call.locked = some first) :
    first.work < call.work := by
  cases call <;> cases locks <;> simp [Inside.work, Outside.work]

/-- So has a call that moves on without it. -/
theorem step_work {frameIsActive : Bool} {call : Outside P} {next : Option (Outside P)}
    {events : List (Event P)} (moves : call.step frameIsActive = some (next, events)) :
    next.elim 0 Outside.work < call.work := by
  cases call with
  | incomingTest message =>
    simp only [Outside.step] at moves
    split at moves
    · cases moves
      simp [Outside.work]
    · cases moves
      simp [Outside.work]
  | incomingSchedule message =>
    cases moves
    simp [Outside.work]
  | startSchedule copies =>
    cases copies with
    | nil =>
      cases moves
      simp [Outside.work]
    | cons message rest =>
      cases moves
      simp [Outside.work]
  | incomingLock _ => cases moves
  | startLock => cases moves
  | waitLock => cases moves
  | waitBlocked => cases moves
  | closeLock => cases moves

/-- So has the call inside: what `startNewFrame` copied is what it then clears. -/
theorem insideStep_work {dfb : DelayingBuffer P} {call : Inside P} (fits : dfb.Fits (some call))
    (inside : dfb.inside = some call) : (dfb.insideStep call).work < dfb.work := by
  simp only [DelayingBuffer.work, inside, Option.elim_some]
  cases call with
  | incomingTest message =>
    have later : (Outside.incomingSchedule message).work = 1 := rfl
    rw [DelayingBuffer.insideStep]
    split <;> simp [Inside.work, later]
  | incomingPush message =>
    simp only [DelayingBuffer.insideStep, Option.elim_some, Option.elim_none, Inside.work,
      List.length_append, List.length_singleton]
    omega
  | startTest =>
    rw [DelayingBuffer.insideStep]
    split <;> simp [Inside.work]
  | startCopy => simp [DelayingBuffer.insideStep, Inside.work]
  | startClear copies =>
    obtain ⟨-, -, rfl⟩ := fits
    simp only [DelayingBuffer.insideStep, Option.elim_some, Inside.work, List.length_nil]
    omega
  | startActivate copies =>
    simp only [DelayingBuffer.insideStep, Option.elim_some, Inside.work, Outside.work]
    omega
  | waitTest =>
    have later : (Outside.waitBlocked : Outside P).work = 0 := rfl
    rw [DelayingBuffer.insideStep]
    split <;> simp [Inside.work, later]
  | waitDeactivate => simp [DelayingBuffer.insideStep, Inside.work]
  | closeSet => simp [DelayingBuffer.insideStep, Inside.work]
  | unlock next =>
    cases next with
    | none => simp [DelayingBuffer.insideStep, Inside.work]
    | some after =>
      simp only [DelayingBuffer.insideStep, Option.elim_some, Option.elim_none, Inside.work,
        Multiset.map_cons, Multiset.sum_cons]
      omega

/-- Every step of a call in progress leaves fewer of them. -/
theorem works_work {dfb next : DelayingBuffer P} (holds : Accounted dfb) (works : Works dfb next) :
    next.work < dfb.work := by
  cases works with
  | @lock call others first member locks free =>
    have fewer := locked_work locks
    have total : (dfb.outside.map Outside.work).sum = call.work + (others.map Outside.work).sum := by
      rw [member, Multiset.map_cons, Multiset.sum_cons]
    simp only [DelayingBuffer.work, total, free, Option.elim_some, Option.elim_none]
    omega
  | @outside call others next events member moves =>
    have fewer := step_work moves
    have total : (dfb.outside.map Outside.work).sum = call.work + (others.map Outside.work).sum := by
      rw [member, Multiset.map_cons, Multiset.sum_cons]
    cases next with
    | none =>
      simp only [DelayingBuffer.work, total, Option.elim_none] at fewer ⊢
      omega
    | some after =>
      have later : ((after ::ₘ others).map Outside.work).sum =
          after.work + (others.map Outside.work).sum := by
        rw [Multiset.map_cons, Multiset.sum_cons]
      simp only [DelayingBuffer.work, total, later, Option.elim_some] at fewer ⊢
      omega
  | inside inside => exact insideStep_work (inside ▸ holds.fits) inside

/-- When no call can move on, all that are left wait for the end of a frame. -/
theorem waiting_of_terminal {dfb : DelayingBuffer P} (stuck : Terminal Works dfb) :
    dfb.inside = none ∧ ∀ call ∈ dfb.outside, call = .waitBlocked := by
  have free : dfb.inside = none := by
    cases inside : dfb.inside with
    | none => rfl
    | some call => exact absurd (.inside inside) (stuck _)
  refine ⟨free, ?_⟩
  intro call member
  obtain ⟨others, split_⟩ := Multiset.exists_cons_of_mem member
  have unlocked : call.locked = none := by
    cases locks : call.locked with
    | none => rfl
    | some first => exact absurd (.lock split_ locks free) (stuck _)
  have still : call.step dfb.frameIsActive = none := by
    cases moves : call.step dfb.frameIsActive with
    | none => rfl
    | some result => exact absurd (.outside split_ moves) (stuck _)
  cases call with
  | waitBlocked => rfl
  | incomingTest message =>
    simp only [Outside.step] at still
    split at still <;> cases still
  | startSchedule copies => cases copies <;> cases still
  | incomingLock _ => cases unlocked
  | incomingSchedule _ => cases still
  | startLock => cases unlocked
  | waitLock => cases unlocked
  | closeLock => cases unlocked

theorem nothing_held {dfb : DelayingBuffer P} (stuck : Terminal Works dfb) :
    dfb.held = 0 ∧ dfb.copies = 0 := by
  obtain ⟨free, waiting⟩ := waiting_of_terminal stuck
  have none_ : ∀ {part : Outside P → Multiset (TileMessage P)}, part .waitBlocked = 0 →
      dfb.outside.bind part = 0 := by
    intro part empty
    rw [Multiset.bind_congr fun call member => (congrArg part (waiting call member)).trans empty]
    exact Multiset.bind_zero _
  constructor
  · rw [DelayingBuffer.held, free, none_ rfl]
    rfl
  · rw [DelayingBuffer.copies, free, none_ rfl]
    rfl

theorem taken_activated {log : List (Event P)} (taken : Taken log) {copies : List (TileMessage P)}
    {before : List (Event P)} (suffix : .activated copies :: before <:+ log) :
    copies = delayedSince before := by
  induction log with
  | nil => simp at suffix
  | cons event rest inductionHypothesis =>
    rcases List.suffix_cons_iff.mp suffix with same | later
    · cases same
      exact taken.1
    · refine inductionHypothesis ?_ later
      cases event with
      | activated _ => exact taken.2
      | passed _ => exact taken
      | delayed _ => exact taken
      | scheduled _ => exact taken
      | rescheduled _ => exact taken
      | deactivated => exact taken

/-- Whatever the calls and the order of their steps: every message passed to `incoming`
is scheduled, delayed or in the hands of one call, as often as it was passed. None is
delayed while a frame is active. Each frame becomes active with the messages delayed
since the one before, and they are scheduled after that, once each. Calls return, or
wait for the end of a frame, after finitely many steps; when all have, the messages of
an active frame are scheduled. -/
theorem incoming_scheduled_once (dfb : DelayingBuffer P) (used : InUse dfb) :
    passed dfb.log = scheduled dfb.log + dfb.delayedMessage + dfb.held ∧
      (dfb.frameIsActive = true → dfb.delayedMessage = []) ∧
      (∀ (copies : List (TileMessage P)) (before : List (Event P)),
        .activated copies :: before <:+ dfb.log → copies = delayedSince before) ∧
      rescheduled dfb.log + dfb.copies = activated dfb.log ∧
      (∀ earlier, earlier <:+ dfb.log → rescheduled earlier ≤ activated earlier) ∧
      (∀ next, Works dfb next → next.work < dfb.work) ∧
      (Terminal Works dfb → dfb.held = 0 ∧ dfb.copies = 0 ∧
        (dfb.frameIsActive = true → scheduled dfb.log = passed dfb.log)) := by
  have holds := accounted_of_inUse used
  refine ⟨holds.accounted, holds.none_delayed, ?_, holds.rescheduling, holds.ordered, ?_, ?_⟩
  · intro copies before suffix
    exact taken_activated holds.taken suffix
  · intro next works
    exact works_work holds works
  · intro stuck
    obtain ⟨held, copies⟩ := nothing_held stuck
    refine ⟨held, copies, ?_⟩
    intro active
    rw [holds.accounted, holds.none_delayed active, held]
    simp

/-- A message of command 2 that arrives before the first frame is scheduled by it. -/
theorem incoming_scheduled_first : ∃ dfb : DelayingBuffer Unit, InUse dfb ∧
    dfb.frameIsActive = true ∧
    dfb.log = [.rescheduled ⟨2, ()⟩, .activated [⟨2, ()⟩], .delayed ⟨2, ()⟩, .passed ⟨2, ()⟩] ∧
    passed dfb.log = scheduled dfb.log + dfb.delayedMessage + dfb.held := by
  have passes := reachable_step (reachable_start rfl : InUse (DelayingBuffer.new (P := Unit)))
    (.inl (.incoming ⟨2, ()⟩))
  have tests := reachable_step passes
    (.inr (.inr (@Works.outside _ _ (.incomingTest ⟨2, ()⟩) 0 _ _ rfl rfl)))
  have locks := reachable_step tests
    (.inr (.inr (@Works.lock _ _ (.incomingLock ⟨2, ()⟩) 0 _ rfl rfl rfl)))
  have retests := reachable_step locks (.inr (.inr (.inside rfl)))
  have pushes := reachable_step retests (.inr (.inr (.inside rfl)))
  have returns := reachable_step pushes (.inr (.inr (.inside rfl)))
  have starts := reachable_step returns (.inl .startNewFrame)
  have enters := reachable_step starts (.inr (.inr (@Works.lock _ _ .startLock 0 _ rfl rfl rfl)))
  have checks := reachable_step enters (.inr (.inr (.inside rfl)))
  have copies := reachable_step checks (.inr (.inr (.inside rfl)))
  have clears := reachable_step copies (.inr (.inr (.inside rfl)))
  have activates := reachable_step clears (.inr (.inr (.inside rfl)))
  have leaves := reachable_step activates (.inr (.inr (.inside rfl)))
  have schedules := reachable_step leaves
    (.inr (.inr (@Works.outside _ _ (.startSchedule [⟨2, ()⟩]) 0 _ _ rfl rfl)))
  exact ⟨_, schedules, rfl, rfl, (incoming_scheduled_once _ schedules).1⟩

end Ospray.Dfb
