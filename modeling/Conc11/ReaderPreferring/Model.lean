/-
Module: Conc11.ReaderPreferring.Model
Purpose: `ReaderPreferringSharedTimedMutex` of concurrency/shared_mutex.h as a machine over any finite set of
  threads.  Every section run while holding `mtx` is one step; `notify_all` is a step of its own, because
  the source sends it after the mutex is dropped.
Trusted boundary: human-reviewed model
Main exports: ThreadPc, System, stateTest, lock, tryLock, tryLockUntil, unlock, lockShared, tryLockShared,
  tryLockSharedUntil, unlockShared, notifyAll, Action, step, Transition, transition_of_step, machine
-/
import Conc11.SharedMutex.Model

namespace Conc11.ReaderPreferring

open Library
open SharedMutex (UintFast32 GateOp)

/-! Deadlines and `std::try_to_lock` are modelled as for `SharedTimedMutex`, and
`GateOp` names the four operations that may wait, here on the one `cv`. -/

/-- `WRITER_ACTIVE_MASK = 1U << 31`. -/
def writerActiveMask (x : Nat) : UintFast32 x := 1#(32 + x) <<< 31

/-- `NUM_READER_MASK = WRITER_ACTIVE_MASK - 1`. -/
def numReaderMask (x : Nat) : UintFast32 x := writerActiveMask x - 1#(32 + x)

section Predicates

variable {x : Nat}

/-- `state & WRITER_ACTIVE_MASK`. -/
def writerActive (state : UintFast32 x) : Bool := state &&& writerActiveMask x != 0#_

/-- The readers' predicate
`!(state & WRITER_ACTIVE_MASK) && ((state & NUM_READER_MASK) != NUM_READER_MASK)`. -/
def readerMayEnter (state : UintFast32 x) : Bool :=
  !writerActive state && state &&& numReaderMask x != numReaderMask x

/-- The predicate of an operation's wait. -/
def mayAcquire (op : GateOp) (state : UintFast32 x) : Bool :=
  if op.exclusive then state == 0#_ else readerMayEnter state

end Predicates

/-- Where a thread stands.  `notifying` is the point between dropping `mtx` and
`notify_all`, in `unlock` and in the `unlock_shared` that takes `state` to zero. -/
inductive ThreadPc where
  | outside
  | waiting (op : GateOp) (status : WaitStatus)
  | holdsExclusive
  | holdsShared
  | notifying
deriving DecidableEq, Repr

namespace ThreadPc

def isExclusive : ThreadPc → Bool
  | .holdsExclusive => true
  | _ => false

def isShared : ThreadPc → Bool
  | .holdsShared => true
  | _ => false

/-- The thread is blocked on `cv` and no notification has reached it. -/
def isBlocked : ThreadPc → Bool
  | .waiting _ .blocked => true
  | _ => false

def isNotifying : ThreadPc → Bool
  | .notifying => true
  | _ => false

/-- The effect of `notify_all` on a thread. -/
def notified : ThreadPc → ThreadPc
  | .waiting op .blocked => .waiting op .notified
  | pc => pc

@[simp] theorem isExclusive_notified (pc : ThreadPc) : pc.notified.isExclusive = pc.isExclusive := by
  cases pc with
  | waiting op status => cases status <;> rfl
  | _ => rfl

@[simp] theorem isShared_notified (pc : ThreadPc) : pc.notified.isShared = pc.isShared := by
  cases pc with
  | waiting op status => cases status <;> rfl
  | _ => rfl

@[simp] theorem isBlocked_notified (pc : ThreadPc) : pc.notified.isBlocked = false := by
  cases pc with
  | waiting op status => cases status <;> rfl
  | _ => rfl

end ThreadPc

/-- The shared word and the position of every thread. -/
structure System (T : Type*) (x : Nat) where
  state : UintFast32 x
  pc : T → ThreadPc

section Sections

variable {T : Type*} [DecidableEq T] {x : Nat}

/-- Thread `t` moves to `pc` and the word is left alone. -/
def System.goto (s : System T x) (t : T) (pc : ThreadPc) : System T x :=
  { s with pc := Function.update s.pc t pc }

theorem goto_pc (s : System T x) (t : T) (pc : ThreadPc) : (s.goto t pc).pc t = pc :=
  Function.update_self ..

theorem goto_pc_of_ne {s : System T x} {t u : T} (other : u ≠ t) (pc : ThreadPc) :
    (s.goto t pc).pc u = s.pc u :=
  Function.update_of_ne other ..

/-- `state = WRITER_ACTIVE_MASK`. -/
def System.takeExclusive (s : System T x) (t : T) : System T x :=
  { state := writerActiveMask x, pc := Function.update s.pc t .holdsExclusive }

/-- `state += 1`. -/
def System.takeShared (s : System T x) (t : T) : System T x :=
  { state := s.state + 1#_, pc := Function.update s.pc t .holdsShared }

/-- One evaluation of the predicate of `op` by `t`, which holds `mtx`.  With
`expired` the timed wait has just returned by its deadline, so a predicate that
does not hold ends the call instead of waiting again. -/
def stateTest (s : System T x) (t : T) (op : GateOp) (expired : Bool) : System T x :=
  if mayAcquire op s.state then
    if op.exclusive then s.takeExclusive t else s.takeShared t
  else if expired then s.goto t .outside
  else s.goto t (.waiting op .blocked)

/-- `lock`, up to its first wait. -/
def lock (s : System T x) (t : T) : System T x := stateTest s t .lock false

/-- `try_lock_until`, up to its first wait. -/
def tryLockUntil (s : System T x) (t : T) : System T x := stateTest s t .tryLockUntil false

/-- `lock_shared`, up to its first wait. -/
def lockShared (s : System T x) (t : T) : System T x := stateTest s t .lockShared false

/-- `try_lock_shared_until`, up to its first wait. -/
def tryLockSharedUntil (s : System T x) (t : T) : System T x :=
  stateTest s t .tryLockSharedUntil false

/-- `try_lock`. -/
def tryLock (s : System T x) (t : T) (gotMutex : Bool) : System T x :=
  if gotMutex && s.state == 0#_ then s.takeExclusive t else s

/-- `try_lock_shared`. -/
def tryLockShared (s : System T x) (t : T) (gotMutex : Bool) : System T x :=
  if gotMutex && readerMayEnter s.state then s.takeShared t else s

/-- The locked part of `unlock`: the whole word becomes 0. -/
def unlock (s : System T x) (t : T) : System T x :=
  { state := 0#_, pc := Function.update s.pc t .notifying }

/-- The locked part of `unlock_shared` and its choice to notify. -/
def unlockShared (s : System T x) (t : T) : System T x :=
  let state := s.state - 1#_
  { state := state
    pc := Function.update s.pc t (if state == 0#_ then .notifying else .outside) }

/-- `notify_all`, the end of the call. -/
def notifyAll (s : System T x) (t : T) : System T x :=
  { s with pc := Function.update (fun u => (s.pc u).notified) t .outside }

end Sections

/-- The labels.  An acquisition starts only from `outside` and a release only
from the matching ownership: this is the lock discipline. -/
inductive Action (T : Type*) where
  | lock (t : T)
  | tryLock (t : T) (gotMutex : Bool)
  | tryLockUntil (t : T)
  | unlock (t : T)
  | lockShared (t : T)
  | tryLockShared (t : T) (gotMutex : Bool)
  | tryLockSharedUntil (t : T)
  | unlockShared (t : T)
  | notifyAll (t : T)
  /-- A blocked thread leaves `cv` without a notification: spuriously, or
  because its deadline passed. -/
  | unblock (t : T)
  /-- A notified or awake thread gets `mtx` back and looks at its predicate. -/
  | resume (t : T) (expired : Bool)
deriving DecidableEq, Repr

variable {T : Type*} [DecidableEq T] {x : Nat}

def step (s : System T x) : Action T → Option (System T x)
  | .lock t => if s.pc t = .outside then some (lock s t) else none
  | .tryLock t gotMutex => if s.pc t = .outside then some (tryLock s t gotMutex) else none
  | .tryLockUntil t => if s.pc t = .outside then some (tryLockUntil s t) else none
  | .unlock t => if s.pc t = .holdsExclusive then some (unlock s t) else none
  | .lockShared t => if s.pc t = .outside then some (lockShared s t) else none
  | .tryLockShared t gotMutex =>
      if s.pc t = .outside then some (tryLockShared s t gotMutex) else none
  | .tryLockSharedUntil t => if s.pc t = .outside then some (tryLockSharedUntil s t) else none
  | .unlockShared t => if s.pc t = .holdsShared then some (unlockShared s t) else none
  | .notifyAll t => if s.pc t = .notifying then some (notifyAll s t) else none
  | .unblock t =>
      match s.pc t with
      | .waiting op .blocked => some (s.goto t (.waiting op .awake))
      | _ => none
  | .resume t expired =>
      match s.pc t with
      | .waiting op status =>
          if status ≠ .blocked ∧ (expired = true → op.timed = true) then
            some (stateTest s t op expired)
          else none
      | _ => none

/-- The inversion of `step`, with the position of the acting thread. -/
inductive Transition (s : System T x) : System T x → Prop where
  | request (t : T) (op : GateOp) (outside : s.pc t = .outside) :
      Transition s (stateTest s t op false)
  | tryLock (t : T) (gotMutex : Bool) (outside : s.pc t = .outside) :
      Transition s (tryLock s t gotMutex)
  | tryLockShared (t : T) (gotMutex : Bool) (outside : s.pc t = .outside) :
      Transition s (tryLockShared s t gotMutex)
  | unlock (t : T) (held : s.pc t = .holdsExclusive) : Transition s (unlock s t)
  | unlockShared (t : T) (held : s.pc t = .holdsShared) : Transition s (unlockShared s t)
  | notifyAll (t : T) (sending : s.pc t = .notifying) : Transition s (notifyAll s t)
  | unblock (t : T) (op : GateOp) (waiting : s.pc t = .waiting op .blocked) :
      Transition s (s.goto t (.waiting op .awake))
  | resume (t : T) (op : GateOp) (status : WaitStatus) (expired : Bool)
      (waiting : s.pc t = .waiting op status) (unblocked : status ≠ .blocked)
      (deadline : expired = true → op.timed = true) :
      Transition s (stateTest s t op expired)

theorem transition_of_step {s s' : System T x} {a : Action T} (stepEq : step s a = some s') :
    Transition s s' := by
  cases a
  case unblock t =>
    dsimp only [step] at stepEq
    split at stepEq
    next op waiting =>
      cases stepEq
      exact .unblock t op waiting
    next => cases stepEq
  case resume t expired =>
    dsimp only [step] at stepEq
    split at stepEq
    next op status waiting =>
      obtain ⟨⟨unblocked, deadline⟩, rest⟩ := Option.ite_none_right_eq_some.mp stepEq
      cases rest
      exact .resume t op status expired waiting unblocked deadline
    next => cases stepEq
  all_goals
    obtain ⟨position, rest⟩ := Option.ite_none_right_eq_some.mp stepEq
    cases rest
  case lock t => exact .request t .lock position
  case tryLock t gotMutex => exact .tryLock t gotMutex position
  case tryLockUntil t => exact .request t .tryLockUntil position
  case unlock t => exact .unlock t position
  case lockShared t => exact .request t .lockShared position
  case tryLockShared t gotMutex => exact .tryLockShared t gotMutex position
  case tryLockSharedUntil t => exact .request t .tryLockSharedUntil position
  case unlockShared t => exact .unlockShared t position
  case notifyAll t => exact .notifyAll t position

/-- A freshly constructed mutex with every thread outside. -/
def initial (T : Type*) (x : Nat) : System T x :=
  { state := 0#_, pc := fun _ => .outside }

/-- The mutex used by the threads `T`. -/
def machine (T : Type*) [DecidableEq T] (x : Nat) : Machine (System T x) (Action T) :=
  { initial := initial T x, step := step }

end Conc11.ReaderPreferring
