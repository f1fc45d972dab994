/-
Module: Conc11.SharedMutex.Model
Purpose: `SharedTimedMutex` of concurrency/shared_mutex.h as a machine over any finite set of threads.
  Every section run while holding `mtx` is one step; a notification is a step of its own, because the
  source sends it after the mutex is dropped.
Trusted boundary: human-reviewed model
Main exports: ThreadPc, System, rgateTest, wgateTest, lock, tryLock, tryLockUntil, unlock, lockShared,
  tryLockShared, tryLockSharedUntil, unlockShared, Action, step, machine
-/
import Conc11.Library.Machine
import Conc11.Library.Threads

namespace Conc11.SharedMutex

open Library

/-!
`uint_fast32_t` has at least 32 bits; `x` is the number of further bits the
platform gives it, and every result below holds for each `x`.

`try_lock_for` and `try_lock_shared_for` only compute a deadline and call the
`_until` form, so they are the same steps.  A deadline is not a number here:
a timed wait may return at any moment, which is what the label's `expired`
flag says.  `std::try_to_lock` may fail at any moment, which is what the
label's `gotMutex` flag says.
-/

abbrev UintFast32 (x : Nat) := BitVec (32 + x)

/-- `WRITER_ENTERED_MASK = 1U << 31`. -/
def writerEnteredMask (x : Nat) : UintFast32 x := 1#(32 + x) <<< 31

/-- `NUM_READER_MASK = WRITER_ENTERED_MASK - 1`. -/
def numReaderMask (x : Nat) : UintFast32 x := writerEnteredMask x - 1#(32 + x)

section Predicates

variable {x : Nat}

/-- `state & WRITER_ENTERED_MASK`. -/
def writerEntered (state : UintFast32 x) : Bool := state &&& writerEnteredMask x != 0#_

/-- `state & NUM_READER_MASK`. -/
def readersActive (state : UintFast32 x) : Bool := state &&& numReaderMask x != 0#_

/-- The readers' gate predicate
`!(state & WRITER_ENTERED_MASK) && ((state & NUM_READER_MASK) != NUM_READER_MASK)`. -/
def readerMayEnter (state : UintFast32 x) : Bool :=
  !writerEntered state && state &&& numReaderMask x != numReaderMask x

end Predicates

/-- The operations that may wait at `rgate`. -/
inductive GateOp where
  | lock
  | tryLockUntil
  | lockShared
  | tryLockSharedUntil
deriving DecidableEq, Repr

/-- The operations that wait with a deadline. -/
def GateOp.timed : GateOp → Bool
  | .tryLockUntil | .tryLockSharedUntil => true
  | .lock | .lockShared => false

/-- The operations that acquire exclusive ownership. -/
def GateOp.exclusive : GateOp → Bool
  | .lock | .tryLockUntil => true
  | .lockShared | .tryLockSharedUntil => false

/-- The two condition variables. -/
inductive Gate where
  | rgate
  | wgate
deriving DecidableEq, Repr

/-- Where a thread stands.  A thread at `wgate` has set the writer bit.  The
last three are the points between dropping `mtx` and sending a notification:
in `unlock` or the failing second wait of `try_lock_until`, and in the two
branches of `unlock_shared`. -/
inductive ThreadPc where
  | outside
  | atRgate (op : GateOp) (status : WaitStatus)
  | atWgate (timed : Bool) (status : WaitStatus)
  | holdsExclusive
  | holdsShared
  | notifyingRgateAll
  | notifyingRgateOne
  | notifyingWgateOne
deriving DecidableEq, Repr

/-- The point in `unlock_shared` before `notify_one` on the gate. -/
def Gate.notifyingOne : Gate → ThreadPc
  | .rgate => .notifyingRgateOne
  | .wgate => .notifyingWgateOne

namespace ThreadPc

def isShared : ThreadPc → Bool
  | .holdsShared => true
  | _ => false

/-- The thread has passed `rgate` as a writer. -/
def isEntered : ThreadPc → Bool
  | .atWgate _ _ | .holdsExclusive => true
  | _ => false

/-- The thread is blocked at the gate and no notification has reached it. -/
def blockedAt : Gate → ThreadPc → Bool
  | .rgate, .atRgate _ .blocked => true
  | .wgate, .atWgate _ .blocked => true
  | _, _ => false

/-- The effect of a notification on a blocked thread. -/
def notified : ThreadPc → ThreadPc
  | .atRgate op _ => .atRgate op .notified
  | .atWgate timed _ => .atWgate timed .notified
  | pc => pc

end ThreadPc

/-- The shared word and the position of every thread. -/
structure System (T : Type*) (x : Nat) where
  state : UintFast32 x
  pc : T → ThreadPc

section Sections

variable {T : Type*} [DecidableEq T] {x : Nat}

/-- Thread `t` moves to `pc` and the word is left alone. -/
def System.goto (s : System T x) (t : T) (pc : ThreadPc) : System T x :=
  { s with pc := Function.update s.pc t pc }

theorem goto_pc (s : System T x) (t : T) (pc : ThreadPc) : (s.goto t pc).pc t = pc :=
  Function.update_self ..

theorem goto_pc_of_ne {s : System T x} {t u : T} (other : u ≠ t) (pc : ThreadPc) :
    (s.goto t pc).pc u = s.pc u :=
  Function.update_of_ne other ..

/-- The writer's path behind `rgate`: set the bit, then look at the readers
(the condition of the `wgate` wait, first evaluation). -/
def passRgate (s : System T x) (t : T) (timed : Bool) : System T x :=
  let state := s.state ||| writerEnteredMask x
  { state := state
    pc := Function.update s.pc t
      (if readersActive state then .atWgate timed .blocked else .holdsExclusive) }

/-- One evaluation of the `rgate` condition by `t`, which holds `mtx` inside
`op`.  With `expired` the timed wait has just returned by its deadline, so a
condition that does not hold ends the call instead of waiting again. -/
def rgateTest (s : System T x) (t : T) (op : GateOp) (expired : Bool) : System T x :=
  if op.exclusive then
    if !writerEntered s.state then passRgate s t op.timed
    else if expired then s.goto t .outside
    else s.goto t (.atRgate op .blocked)
  else
    if readerMayEnter s.state then
      { state := s.state + 1#_, pc := Function.update s.pc t .holdsShared }
    else if expired then s.goto t .outside
    else s.goto t (.atRgate op .blocked)

/-- One evaluation of the `wgate` condition by the entered writer `t`.  When
the deadline has passed and readers are left, `try_lock_until` clears the bit
and drops the mutex before it reopens the gate. -/
def wgateTest (s : System T x) (t : T) (timed expired : Bool) : System T x :=
  if !readersActive s.state then s.goto t .holdsExclusive
  else if expired then
    { state := s.state &&& ~~~(writerEnteredMask x)
      pc := Function.update s.pc t .notifyingRgateAll }
  else s.goto t (.atWgate timed .blocked)

/-- `lock`, up to its first wait. -/
def lock (s : System T x) (t : T) : System T x := rgateTest s t .lock false

/-- `try_lock_until`, up to its first wait. -/
def tryLockUntil (s : System T x) (t : T) : System T x := rgateTest s t .tryLockUntil false

/-- `lock_shared`, up to its first wait. -/
def lockShared (s : System T x) (t : T) : System T x := rgateTest s t .lockShared false

/-- `try_lock_shared_until`, up to its first wait. -/
def tryLockSharedUntil (s : System T x) (t : T) : System T x :=
  rgateTest s t .tryLockSharedUntil false

/-- The locked part of `unlock`. -/
def unlock (s : System T x) (t : T) : System T x :=
  { state := s.state &&& ~~~(writerEnteredMask x)
    pc := Function.update s.pc t .notifyingRgateAll }

/-- `try_lock`: tests the whole word, not only the writer bit. -/
def tryLock (s : System T x) (t : T) (gotMutex : Bool) : System T x :=
  if gotMutex && s.state == 0#_ then
    { state := writerEnteredMask x, pc := Function.update s.pc t .holdsExclusive }
  else s

/-- `try_lock_shared`. -/
def tryLockShared (s : System T x) (t : T) (gotMutex : Bool) : System T x :=
  if gotMutex && readerMayEnter s.state then
    { state := s.state + 1#_, pc := Function.update s.pc t .holdsShared }
  else s

/-- The locked part of `unlock_shared` and its choice of notification. -/
def unlockShared (s : System T x) (t : T) : System T x :=
  let state := s.state - 1#_
  let numReadersLeft := state &&& numReaderMask x
  { state := state
    pc := Function.update s.pc t
      (if writerEntered state && numReadersLeft == 0#_ then .notifyingWgateOne
      else if numReadersLeft == numReaderMask x - 1#_ then .notifyingRgateOne
      else .outside) }

/-- `notify_all` on `rgate`. -/
def notifyAllRgate (s : System T x) : System T x :=
  { s with pc := fun t => if (s.pc t).blockedAt .rgate then (s.pc t).notified else s.pc t }

/-- `notify_one`: wakes the blocked thread `target`; it reaches nobody only
when nobody is blocked at the gate. -/
def notifyOne [Fintype T] (s : System T x) (gate : Gate) (target : Option T) :
    Option (System T x) :=
  match target with
  | some u => if (s.pc u).blockedAt gate then some (s.goto u (s.pc u).notified) else none
  | none => if ∀ u, (s.pc u).blockedAt gate = false then some s else none

end Sections

/-- The labels.  An acquisition starts only from `outside` and a release only
from the matching ownership: this is the lock discipline. -/
inductive Action (T : Type*) where
  | lock (t : T)
  | tryLock (t : T) (gotMutex : Bool)
  | tryLockUntil (t : T)
  | unlock (t : T)
  | lockShared (t : T)
  | tryLockShared (t : T) (gotMutex : Bool)
  | tryLockSharedUntil (t : T)
  | unlockShared (t : T)
  /-- A blocked thread leaves the condition variable without a notification:
  spuriously, or because its deadline passed. -/
  | unblock (t : T)
  /-- A notified or awake thread gets `mtx` back and looks at its condition. -/
  | resume (t : T) (expired : Bool)
  | notifyAll (t : T)
  | notifyOne (t : T) (target : Option T)
deriving DecidableEq, Repr

variable {T : Type*} [Fintype T] [DecidableEq T] {x : Nat}

def step (s : System T x) : Action T → Option (System T x)
  | .lock t => if s.pc t = .outside then some (lock s t) else none
  | .tryLock t gotMutex => if s.pc t = .outside then some (tryLock s t gotMutex) else none
  | .tryLockUntil t => if s.pc t = .outside then some (tryLockUntil s t) else none
  | .unlock t => if s.pc t = .holdsExclusive then some (unlock s t) else none
  | .lockShared t => if s.pc t = .outside then some (lockShared s t) else none
  | .tryLockShared t gotMutex =>
      if s.pc t = .outside then some (tryLockShared s t gotMutex) else none
  | .tryLockSharedUntil t => if s.pc t = .outside then some (tryLockSharedUntil s t) else none
  | .unlockShared t => if s.pc t = .holdsShared then some (unlockShared s t) else none
  | .unblock t =>
      match s.pc t with
      | .atRgate op .blocked => some (s.goto t (.atRgate op .awake))
      | .atWgate timed .blocked => some (s.goto t (.atWgate timed .awake))
      | _ => none
  | .resume t expired =>
      match s.pc t with
      | .atRgate op status =>
          if status ≠ .blocked ∧ (expired = true → op.timed = true) then
            some (rgateTest s t op expired)
          else none
      | .atWgate timed status =>
          if status ≠ .blocked ∧ (expired = true → timed = true) then
            some (wgateTest s t timed expired)
          else none
      | _ => none
  | .notifyAll t =>
      if s.pc t = .notifyingRgateAll then some ((notifyAllRgate s).goto t .outside) else none
  | .notifyOne t target =>
      match s.pc t with
      | .notifyingRgateOne => (notifyOne s .rgate target).map (·.goto t .outside)
      | .notifyingWgateOne => (notifyOne s .wgate target).map (·.goto t .outside)
      | _ => none

/-- A freshly constructed mutex with every thread outside. -/
def initial (T : Type*) (x : Nat) : System T x :=
  { state := 0#_, pc := fun _ => .outside }

/-- The mutex used by the threads `T`. -/
def machine (T : Type*) [Fintype T] [DecidableEq T] (x : Nat) :
    Machine (System T x) (Action T) :=
  { initial := initial T x, step := step }

/-! ## What a step can do

The inversion of `step`: each invariant is proved by cases on `Transition`,
so no later proof unfolds the step function. -/

/-- The transitions, with the position of the acting thread. -/
inductive Transition (s : System T x) : System T x → Prop where
  | request (t : T) (op : GateOp) (outside : s.pc t = .outside) :
      Transition s (rgateTest s t op false)
  | tryLock (t : T) (gotMutex : Bool) (outside : s.pc t = .outside) :
      Transition s (tryLock s t gotMutex)
  | unlock (t : T) (held : s.pc t = .holdsExclusive) : Transition s (unlock s t)
  | tryLockShared (t : T) (gotMutex : Bool) (outside : s.pc t = .outside) :
      Transition s (tryLockShared s t gotMutex)
  | unlockShared (t : T) (held : s.pc t = .holdsShared) : Transition s (unlockShared s t)
  | unblockRgate (t : T) (op : GateOp) (waiting : s.pc t = .atRgate op .blocked) :
      Transition s (s.goto t (.atRgate op .awake))
  | unblockWgate (t : T) (timed : Bool) (waiting : s.pc t = .atWgate timed .blocked) :
      Transition s (s.goto t (.atWgate timed .awake))
  | resumeRgate (t : T) (op : GateOp) (status : WaitStatus) (expired : Bool)
      (waiting : s.pc t = .atRgate op status) (unblocked : status ≠ .blocked)
      (deadline : expired = true → op.timed = true) :
      Transition s (rgateTest s t op expired)
  | resumeWgate (t : T) (timed : Bool) (status : WaitStatus) (expired : Bool)
      (waiting : s.pc t = .atWgate timed status) (unblocked : status ≠ .blocked)
      (deadline : expired = true → timed = true) :
      Transition s (wgateTest s t timed expired)
  | notifyAll (t : T) (sending : s.pc t = .notifyingRgateAll) :
      Transition s ((notifyAllRgate s).goto t .outside)
  | notifyNobody (t : T) (gate : Gate) (sending : s.pc t = gate.notifyingOne)
      (nobody : ∀ u, (s.pc u).blockedAt gate = false) :
      Transition s (s.goto t .outside)
  | notifyOne (t u : T) (gate : Gate) (sending : s.pc t = gate.notifyingOne)
      (blocked : (s.pc u).blockedAt gate = true) :
      Transition s ((s.goto u (s.pc u).notified).goto t .outside)

private theorem transition_of_notifyOne {s s' : System T x} {t : T} (gate : Gate)
    {target : Option T} (sending : s.pc t = gate.notifyingOne)
    (sent : (notifyOne s gate target).map (·.goto t .outside) = some s') : Transition s s' := by
  obtain ⟨middle, sentEq, rfl⟩ := Option.map_eq_some_iff.mp sent
  cases target with
  | none =>
      simp only [notifyOne, Option.ite_none_right_eq_some, Option.some.injEq] at sentEq
      obtain ⟨nobody, rfl⟩ := sentEq
      exact .notifyNobody t gate sending nobody
  | some u =>
      simp only [notifyOne, Option.ite_none_right_eq_some, Option.some.injEq] at sentEq
      obtain ⟨blocked, rfl⟩ := sentEq
      exact .notifyOne t u gate sending blocked

/-- Every enabled label is one of the transitions. -/
theorem transition_of_step {s s' : System T x} {a : Action T} (stepEq : step s a = some s') :
    Transition s s' := by
  cases a
  case unblock t =>
    simp only [step] at stepEq
    split at stepEq
    next op waiting => cases stepEq; exact .unblockRgate t op waiting
    next timed waiting => cases stepEq; exact .unblockWgate t timed waiting
    next => cases stepEq
  case resume t expired =>
    simp only [step] at stepEq
    split at stepEq
    next op status waiting =>
      simp only [Option.ite_none_right_eq_some, Option.some.injEq] at stepEq
      obtain ⟨⟨unblocked, deadline⟩, rfl⟩ := stepEq
      exact .resumeRgate t op status expired waiting unblocked deadline
    next timed status waiting =>
      simp only [Option.ite_none_right_eq_some, Option.some.injEq] at stepEq
      obtain ⟨⟨unblocked, deadline⟩, rfl⟩ := stepEq
      exact .resumeWgate t timed status expired waiting unblocked deadline
    next => cases stepEq
  case notifyOne t target =>
    simp only [step] at stepEq
    split at stepEq
    next sending => exact transition_of_notifyOne .rgate sending stepEq
    next sending => exact transition_of_notifyOne .wgate sending stepEq
    next => cases stepEq
  all_goals
    simp only [step, Option.ite_none_right_eq_some, Option.some.injEq] at stepEq
    obtain ⟨position, rfl⟩ := stepEq
  case lock t => exact .request t .lock position
  case tryLock t gotMutex => exact .tryLock t gotMutex position
  case tryLockUntil t => exact .request t .tryLockUntil position
  case unlock t => exact .unlock t position
  case lockShared t => exact .request t .lockShared position
  case tryLockShared t gotMutex => exact .tryLockShared t gotMutex position
  case tryLockSharedUntil t => exact .request t .tryLockSharedUntil position
  case unlockShared t => exact .unlockShared t position
  case notifyAll t => exact .notifyAll t position

/-- The number of threads that hold shared ownership. -/
def System.sharedHolders (s : System T x) : Nat := population ThreadPc.isShared s.pc

/-- The number of threads that have passed `rgate` as a writer. -/
def System.enteredWriters (s : System T x) : Nat := population ThreadPc.isEntered s.pc

end Conc11.SharedMutex
