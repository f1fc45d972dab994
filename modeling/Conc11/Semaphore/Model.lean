/-
Module: Conc11.Semaphore.Model
Purpose: `QueuedSemaphore` of concurrency/semaphore.h.  First the semaphore object with the sections of
  code that run under `main_lock` as pure functions, then the machine of any number of calls, one step
  for each section.
Trusted boundary: human-reviewed model; the counts of `request_record` are taken not to reach 2^64, and
  `request_record.emplace` to get the node it allocates (without one it throws and nothing has changed)
Main exports: QueuedSemaphore, Result, CallPc, System, Action, step, Transition, running_of_step,
  transition_of_step, machine
-/
import Std.Data.TreeMap
import Conc11.Library.Machine
import Conc11.Semaphore.Permits
import Conc11.Semaphore.WaitQueue

namespace Conc11.Semaphore

open Library

/-! ## The semaphore object -/

/-- The data members.  `permits` is an `int`. -/
structure QueuedSemaphore where
  permits : BitVec 32
  queue : WaitQueue
  requestRecord : Std.TreeMap Request Nat

/-- How a section of `try_acquire0` or `try_acquire` leaves its call: with its
permits, without them, waiting at a node, by `bad_alloc`, or in
`std::terminate`. -/
inductive Result where
  | granted
  | refused
  | waiting (node : NodeId)
  | threw
  | terminated
deriving DecidableEq, Repr

namespace QueuedSemaphore

/-- The constructor. -/
def new (initialPermits : BitVec 32) : QueuedSemaphore :=
  { permits := initialPermits, queue := .new, requestRecord := ∅ }

/-- `request_record_insert`. -/
def requestRecordInsert (sem : QueuedSemaphore) (request : Request) : QueuedSemaphore :=
  match sem.requestRecord[request]? with
  | some count => { sem with requestRecord := sem.requestRecord.insert request (count + 1) }
  | none => { sem with requestRecord := sem.requestRecord.insert request 1 }

/-- `request_record_remove`. -/
def requestRecordRemove (sem : QueuedSemaphore) (request : Request) : QueuedSemaphore :=
  match sem.requestRecord[request]? with
  | some count =>
      if count = 1 then { sem with requestRecord := sem.requestRecord.erase request }
      else { sem with requestRecord := sem.requestRecord.insert request (count - 1) }
  | none => sem

/-- `request_record_min`. -/
def requestRecordMin (sem : QueuedSemaphore) : BitVec 32 :=
  match sem.requestRecord.keys.head? with
  | some request => request
  | none => 0#32

/-- The test of `permits` against the smallest recorded request, a signed
comparison, and the wake-up that follows it. -/
def wakeIfDue (sem : QueuedSemaphore) : QueuedSemaphore :=
  if sem.requestRecordMin.sle sem.permits then { sem with queue := sem.queue.wakeHead } else sem

/-- `release`. -/
def release (sem : QueuedSemaphore) (request : Request) : QueuedSemaphore :=
  { sem with permits := sem.permits + request }.wakeIfDue

/-- The untimed `try_acquire`, which compares `int` with `unsigned int`. -/
def tryAcquire (sem : QueuedSemaphore) (request : Request) : QueuedSemaphore × Result :=
  if request.ule sem.permits then ({ sem with permits := sem.permits - request }, .granted)
  else (sem, .refused)

/-- The head of the waiting loop: enqueue and go to wait. -/
def enqueueAndWait (sem : QueuedSemaphore) (budget : Option Nat) :
    Option (QueuedSemaphore × Result) :=
  match sem.queue.enqueue budget with
  | none => none
  | some (queue, none) => some ({ sem with queue := queue }, .threw)
  | some (queue, some node) => some ({ sem with queue := queue }, .waiting node)

/-- `try_acquire0` up to its first wait. -/
def tryAcquire0 (sem : QueuedSemaphore) (request : Request) (budget : Option Nat) :
    Option (QueuedSemaphore × Result) :=
  if request.sle sem.permits && sem.queue.isEmpty then
    some ({ sem with permits := sem.permits - request }, .granted)
  else (sem.requestRecordInsert request).enqueueAndWait budget

/-- `try_acquire0` behind its waiting loop. -/
def leaveLoop (sem : QueuedSemaphore) (request : Request) : QueuedSemaphore × Result :=
  let sem := sem.requestRecordRemove request
  let sem := { sem with permits := sem.permits - request }
  let sem := sem.wakeIfDue
  if sem.permits.slt 0#32 then (sem, .terminated) else (sem, .granted)

/-- `try_acquire0` from the end of a wait whose node has become wakeable. -/
def woken (sem : QueuedSemaphore) (request : Request) (budget : Option Nat) :
    Option (QueuedSemaphore × Result) :=
  let sem := { sem with queue := sem.queue.dequeue }
  if request.sle sem.permits then some (sem.leaveLoop request) else sem.enqueueAndWait budget

/-- `try_acquire0` from the end of a wait that timed out. -/
def timedOut (sem : QueuedSemaphore) (node : NodeId) : QueuedSemaphore × Result :=
  ({ sem with queue := sem.queue.remove (some node) }, .refused)

end QueuedSemaphore

/-! ### What the functions on the record and the signal leave alone -/

section Frames

variable {sem : QueuedSemaphore} {request : Request}

theorem permits_requestRecordInsert : (sem.requestRecordInsert request).permits = sem.permits := by
  unfold QueuedSemaphore.requestRecordInsert
  split <;> rfl

theorem permits_requestRecordRemove : (sem.requestRecordRemove request).permits = sem.permits := by
  unfold QueuedSemaphore.requestRecordRemove
  split
  · split <;> rfl
  · rfl

theorem permits_wakeIfDue : sem.wakeIfDue.permits = sem.permits := by
  unfold QueuedSemaphore.wakeIfDue
  split <;> rfl

theorem queue_requestRecordInsert : (sem.requestRecordInsert request).queue = sem.queue := by
  unfold QueuedSemaphore.requestRecordInsert
  split <;> rfl

theorem queue_requestRecordRemove : (sem.requestRecordRemove request).queue = sem.queue := by
  unfold QueuedSemaphore.requestRecordRemove
  split
  · split <;> rfl
  · rfl

/-- What becomes of the record depends on nothing else. -/
theorem requestRecord_requestRecordRemove {queue : WaitQueue} :
    ({ sem with queue := queue }.requestRecordRemove request).requestRecord =
      (sem.requestRecordRemove request).requestRecord := by
  unfold QueuedSemaphore.requestRecordRemove
  dsimp only
  split
  · split <;> rfl
  · rfl

end Frames

/-! ## The calls -/

/-- Where a call stands.  `returned true` is also the end of `acquire`, which
returns nothing. -/
inductive CallPc where
  | idle
  | waiting (timed : Bool) (request : Request) (node : NodeId)
  | returned (result : Bool)
  | threw
  | terminated
deriving DecidableEq, Repr

/-- The semaphore, its calls and their history.  `arrived` are the calls in
the order in which they first took `main_lock`, `queued` those that found they
had to wait, `left` those whose wait timed out, and `grants` the granted
requests; `released` is the sum of the completed releases.  `changes` says
what the sections of a call have done to `permits` so far. -/
structure System where
  sem : QueuedSemaphore
  pc : CallId → CallPc
  aborted : Bool
  arrived : List CallId
  queued : List CallId
  left : List CallId
  grants : List (CallId × Request)
  released : Nat
  changes : CallId → Int

namespace System

/-- Call `c` leaves a section of code with `result`. -/
def settle (s : System) (c : CallId) (timed : Bool) (request : Request) (sem : QueuedSemaphore)
    (result : Result) : System :=
  { s with
    sem := sem
    pc := Function.update s.pc c <|
      match result with
      | .granted => .returned true
      | .refused => .returned false
      | .waiting node => .waiting timed request node
      | .threw => .threw
      | .terminated => .terminated
    aborted := s.aborted || result == .terminated
    grants := if result = .granted then s.grants ++ [(c, request)] else s.grants
    changes := Function.update s.changes c
      (s.changes c + (sem.permits.toInt - s.sem.permits.toInt)) }

/-- The first section of a call. -/
def arrive (s : System) (c : CallId) (timed : Bool) (request : Request) (sem : QueuedSemaphore)
    (result : Result) : System :=
  { s.settle c timed request sem result with
    arrived := s.arrived ++ [c]
    queued :=
      match result with
      | .waiting _ => s.queued ++ [c]
      | _ => s.queued }

/-- The section of a call whose wait has timed out. -/
def leave (s : System) (c : CallId) (request : Request) (node : NodeId) : System :=
  let (sem, result) := s.sem.timedOut node
  { s.settle c true request sem result with left := s.left ++ [c] }

/-- `release`. -/
def release (s : System) (request : Request) : System :=
  { s with sem := s.sem.release request, released := s.released + request.toNat }

end System

/-- The labels.  `tryAcquire0` is the first section of `acquire` (not timed)
or `try_acquire_for` (timed); `budget` says how many allocations still succeed. -/
inductive Action where
  | tryAcquire0 (c : CallId) (timed : Bool) (request : Request) (budget : Option Nat)
  | tryAcquire (c : CallId) (request : Request)
  | release (request : Request)
  | wake (c : CallId) (budget : Option Nat)
  | timeout (c : CallId)
deriving DecidableEq, Repr

/-- A call resumes when its node is wakeable or, if it is timed, when its
deadline has passed; `wait_until` then returns the value of `wakeable`, so
only an unsignalled call times out.  Nothing runs after `std::terminate`. -/
def step (s : System) (a : Action) : Option System :=
  if s.aborted then none
  else
    match a with
    | .tryAcquire0 c timed request budget =>
        if s.pc c = .idle then
          match s.sem.tryAcquire0 request budget with
          | some (sem, result) => some (s.arrive c timed request sem result)
          | none => none
        else none
    | .tryAcquire c request =>
        if s.pc c = .idle then
          match s.sem.tryAcquire request with
          | (sem, result) => some (s.arrive c false request sem result)
        else none
    | .release request => some (s.release request)
    | .wake c budget =>
        match s.pc c with
        | .waiting timed request node =>
            if s.sem.queue.wakeableOf node then
              match s.sem.woken request budget with
              | some (sem, result) => some (s.settle c timed request sem result)
              | none => none
            else none
        | _ => none
    | .timeout c =>
        match s.pc c with
        | .waiting true request node =>
            if s.sem.queue.wakeableOf node then none else some (s.leave c request node)
        | _ => none

/-- The inversion of `step`. -/
inductive Transition (s : System) : Action → System → Prop where
  | tryAcquire0 (c : CallId) (timed : Bool) (request : Request) (budget : Option Nat)
      (sem : QueuedSemaphore) (result : Result) (idle : s.pc c = .idle)
      (ran : s.sem.tryAcquire0 request budget = some (sem, result)) :
      Transition s (.tryAcquire0 c timed request budget) (s.arrive c timed request sem result)
  | tryAcquire (c : CallId) (request : Request) (idle : s.pc c = .idle) :
      Transition s (.tryAcquire c request)
        (s.arrive c false request (s.sem.tryAcquire request).1 (s.sem.tryAcquire request).2)
  | release (request : Request) : Transition s (.release request) (s.release request)
  | wake (c : CallId) (budget : Option Nat) (timed : Bool) (request : Request) (node : NodeId)
      (sem : QueuedSemaphore) (result : Result) (waiting : s.pc c = .waiting timed request node)
      (wakeable : s.sem.queue.wakeableOf node = true)
      (ran : s.sem.woken request budget = some (sem, result)) :
      Transition s (.wake c budget) (s.settle c timed request sem result)
  | timeout (c : CallId) (request : Request) (node : NodeId)
      (waiting : s.pc c = .waiting true request node)
      (asleep : s.sem.queue.wakeableOf node = false) :
      Transition s (.timeout c) (s.leave c request node)

/-- Nothing runs after `std::terminate`. -/
theorem running_of_step {s s' : System} {a : Action} (stepEq : step s a = some s') :
    ¬ s.aborted = true :=
  (Option.ite_none_left_eq_some.mp stepEq).1

theorem transition_of_step {s s' : System} {a : Action} (stepEq : step s a = some s') :
    Transition s a s' := by
  obtain ⟨_, acts⟩ := Option.ite_none_left_eq_some.mp stepEq
  cases a with
  | tryAcquire0 c timed request budget =>
      obtain ⟨idle, rest⟩ := Option.ite_none_right_eq_some.mp acts
      split at rest
      next sem result ran =>
        cases rest
        exact .tryAcquire0 c timed request budget sem result idle ran
      next => cases rest
  | tryAcquire c request =>
      obtain ⟨idle, rest⟩ := Option.ite_none_right_eq_some.mp acts
      cases rest
      exact .tryAcquire c request idle
  | release request =>
      cases acts
      exact .release request
  | wake c budget =>
      dsimp only at acts
      split at acts
      next timed request node waiting =>
        obtain ⟨wakeable, rest⟩ := Option.ite_none_right_eq_some.mp acts
        split at rest
        next sem result ran =>
          cases rest
          exact .wake c budget timed request node sem result waiting wakeable ran
        next => cases rest
      next => cases acts
  | timeout c =>
      dsimp only at acts
      split at acts
      next request node waiting =>
        obtain ⟨asleep, rest⟩ := Option.ite_none_left_eq_some.mp acts
        cases rest
        exact .timeout c request node waiting (by simpa using asleep)
      next => cases acts

def initial (initialPermits : BitVec 32) : System :=
  { sem := .new initialPermits
    pc := fun _ => .idle
    aborted := false
    arrived := []
    queued := []
    left := []
    grants := []
    released := 0
    changes := fun _ => 0 }

/-- The semaphore with the given initial count. -/
def machine (initialPermits : BitVec 32) : Machine System Action :=
  { initial := initial initialPermits, step := step }

end Conc11.Semaphore
