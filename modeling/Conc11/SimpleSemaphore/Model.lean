/-
Module: Conc11.SimpleSemaphore.Model
Purpose: `SimpleSemaphore` of concurrency/semaphore.h as a machine of any number of calls.  Every section run
  while holding `mtx` is one step; the notification of `release` is a step of its own, because it is sent
  after the mutex is dropped.
Trusted boundary: human-reviewed model
Main exports: CallPc, System, acquire, release, notifyAll, tryAcquire, tryAcquire0, Action, step, Transition,
  transition_of_step, machine
-/
import Conc11.Library.Machine
import Conc11.Library.Threads
import Conc11.Semaphore.Permits

namespace Conc11.SimpleSemaphore

open Library
open Semaphore (Request CallId)

/-- Where a call stands.  `returned true` is also the end of `acquire`, which
returns nothing.  `notifying` is the point in `release` between dropping `mtx`
and `notify_all`. -/
inductive CallPc where
  | idle
  | waiting (timed : Bool) (request : Request) (status : WaitStatus)
  | notifying
  | returned (result : Bool)
  | released
deriving DecidableEq, Repr

namespace CallPc

/-- The call is blocked on `cv` and no notification has reached it. -/
def isBlocked : CallPc → Bool
  | .waiting _ _ .blocked => true
  | _ => false

def isNotifying : CallPc → Bool
  | .notifying => true
  | _ => false

/-- The effect of `notify_all` on a call. -/
def notified : CallPc → CallPc
  | .waiting timed request .blocked => .waiting timed request .notified
  | pc => pc

end CallPc

/-- The data member `count`, the calls and their history: the granted
requests and the sum of the releases. -/
structure System where
  count : BitVec 32
  pc : CallId → CallPc
  grants : List (CallId × Request)
  released : Nat

section Sections

variable (s : System) (c : CallId)

/-- Call `c` moves and nothing else changes. -/
def System.goto (pc : CallPc) : System :=
  { s with pc := Function.update s.pc c pc }

/-- `count -= request`, and the call returns. -/
def System.grant (request : Request) : System :=
  { s with
    count := s.count - request
    pc := Function.update s.pc c (.returned true)
    grants := s.grants ++ [(c, request)] }

/-- The loop `while (count < (int) request)` of `acquire` and `try_acquire0`,
from one test to the next wait or to the end of the call. -/
def loopTest (timed : Bool) (request : Request) : System :=
  if s.count.slt request then s.goto c (.waiting timed request .blocked)
  else s.grant c request

/-- `acquire`, up to its first wait. -/
def acquire (request : Request) : System := loopTest s c false request

/-- `try_acquire0`, up to its first wait. -/
def tryAcquire0 (permits : Request) : System := loopTest s c true permits

/-- `try_acquire_for`, which computes the deadline. -/
def tryAcquireFor (request : Request) : System := tryAcquire0 s c request

/-- `try_acquire_until` passes `true` where `try_acquire0` takes the number of
permits. -/
def tryAcquireUntil (_request : Request) : System := tryAcquire0 s c 1#32

/-- The untimed `try_acquire`. -/
def tryAcquire (request : Request) : System :=
  if request.sle s.count then s.grant c request else s.goto c (.returned false)

/-- The locked part of `release`. -/
def release (request : Request) : System :=
  { s with
    count := s.count + request
    pc := Function.update s.pc c .notifying
    released := s.released + request.toNat }

/-- `notify_all`, the end of `release`. -/
def notifyAll : System :=
  { s with pc := Function.update (fun d => (s.pc d).notified) c .released }

/-- A waiting call has `mtx` back.  With `expired` its `wait_until` has
returned `timeout`, and the call ends without another look at `count`. -/
def resume (timed : Bool) (request : Request) (expired : Bool) : System :=
  if expired then s.goto c (.returned false) else loopTest s c timed request

end Sections

/-- The labels.  A call leaves `cv` by a notification or by `unblock`: spuriously
or because its deadline has passed. -/
inductive Action where
  | acquire (c : CallId) (request : Request)
  | tryAcquire (c : CallId) (request : Request)
  | tryAcquireFor (c : CallId) (request : Request)
  | tryAcquireUntil (c : CallId) (request : Request)
  | release (c : CallId) (request : Request)
  | notifyAll (c : CallId)
  | unblock (c : CallId)
  | resume (c : CallId) (expired : Bool)
deriving DecidableEq, Repr

def step (s : System) : Action → Option System
  | .acquire c request => if s.pc c = .idle then some (acquire s c request) else none
  | .tryAcquire c request => if s.pc c = .idle then some (tryAcquire s c request) else none
  | .tryAcquireFor c request => if s.pc c = .idle then some (tryAcquireFor s c request) else none
  | .tryAcquireUntil c request =>
      if s.pc c = .idle then some (tryAcquireUntil s c request) else none
  | .release c request => if s.pc c = .idle then some (release s c request) else none
  | .notifyAll c => if s.pc c = .notifying then some (notifyAll s c) else none
  | .unblock c =>
      match s.pc c with
      | .waiting timed request .blocked => some (s.goto c (.waiting timed request .awake))
      | _ => none
  | .resume c expired =>
      match s.pc c with
      | .waiting timed request status =>
          if status ≠ .blocked ∧ (expired = true → timed = true) then
            some (resume s c timed request expired)
          else none
      | _ => none

/-- The inversion of `step`. -/
inductive Transition (s : System) : Action → System → Prop where
  | acquire (c : CallId) (request : Request) (idle : s.pc c = .idle) :
      Transition s (.acquire c request) (acquire s c request)
  | tryAcquire (c : CallId) (request : Request) (idle : s.pc c = .idle) :
      Transition s (.tryAcquire c request) (tryAcquire s c request)
  | tryAcquireFor (c : CallId) (request : Request) (idle : s.pc c = .idle) :
      Transition s (.tryAcquireFor c request) (tryAcquireFor s c request)
  | tryAcquireUntil (c : CallId) (request : Request) (idle : s.pc c = .idle) :
      Transition s (.tryAcquireUntil c request) (tryAcquireUntil s c request)
  | release (c : CallId) (request : Request) (idle : s.pc c = .idle) :
      Transition s (.release c request) (release s c request)
  | notifyAll (c : CallId) (sending : s.pc c = .notifying) :
      Transition s (.notifyAll c) (notifyAll s c)
  | unblock (c : CallId) (timed : Bool) (request : Request)
      (waiting : s.pc c = .waiting timed request .blocked) :
      Transition s (.unblock c) (s.goto c (.waiting timed request .awake))
  | resume (c : CallId) (timed : Bool) (request : Request) (status : WaitStatus) (expired : Bool)
      (waiting : s.pc c = .waiting timed request status) (unblocked : status ≠ .blocked)
      (deadline : expired = true → timed = true) :
      Transition s (.resume c expired) (resume s c timed request expired)

theorem transition_of_step {s s' : System} {a : Action} (stepEq : step s a = some s') :
    Transition s a s' := by
  cases a
  case unblock c =>
    dsimp only [step] at stepEq
    split at stepEq
    next timed request waiting =>
      cases stepEq
      exact .unblock c timed request waiting
    next => cases stepEq
  case resume c expired =>
    dsimp only [step] at stepEq
    split at stepEq
    next timed request status waiting =>
      obtain ⟨⟨unblocked, deadline⟩, rest⟩ := Option.ite_none_right_eq_some.mp stepEq
      cases rest
      exact .resume c timed request status expired waiting unblocked deadline
    next => cases stepEq
  all_goals
    obtain ⟨position, rest⟩ := Option.ite_none_right_eq_some.mp stepEq
    cases rest
  case acquire c request => exact .acquire c request position
  case tryAcquire c request => exact .tryAcquire c request position
  case tryAcquireFor c request => exact .tryAcquireFor c request position
  case tryAcquireUntil c request => exact .tryAcquireUntil c request position
  case release c request => exact .release c request position
  case notifyAll c => exact .notifyAll c position

/-- The constructor. -/
def initial (initialPermits : BitVec 32) : System :=
  { count := initialPermits, pc := fun _ => .idle, grants := [], released := 0 }

/-- The semaphore with the given initial count. -/
def machine (initialPermits : BitVec 32) : Machine System Action :=
  { initial := initial initialPermits, step := step }

end Conc11.SimpleSemaphore
