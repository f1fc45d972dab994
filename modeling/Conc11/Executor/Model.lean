/-
Module: Conc11.Executor.Model
Purpose: `ThreadPoolExecutor` of concurrency/executor.h.  First the executor object and its `_locked`
  functions as pure functions, then the machine: any number of submitting, shutting-down and awaiting
  callers against the worker threads, one step for each section run while holding `main_lock`.
Trusted boundary: human-reviewed model
Main exports: ThreadPoolExecutor, addWorkerLocked, insertTaskLocked, isTerminatedLocked,
  removeSelfLocked, construct, WorkerPc, AwaitPc, System, fetchTaskLocked, Action, step, machine
-/
import Conc11.Library.Machine
import Conc11.Library.Threads

namespace Conc11.Executor

open Library

/-! ## The executor object -/

/-- `size_t`. -/
abbrev SizeT := BitVec 64

/-- Worker objects are named by the `id` their constructor receives. -/
abbrev WorkerId := Nat

/-- `submit` wraps the callable in a `Task`, `execute` in an `UntrackableTask`. -/
inductive TaskKind where
  | task
  | untrackable
deriving DecidableEq, Repr

/-- A submitted task.  `id` tells the tasks of different calls apart. -/
structure TaskBase where
  id : Nat
  kind : TaskKind
deriving DecidableEq, Repr

/-- The fields of a `Worker` that its executor reads and writes. -/
structure Worker where
  core : Bool
  workerIndex : Nat
deriving DecidableEq, Repr

/-- The data members.  A `unique_ptr<Worker>` is `none` when null, and `heap`
holds the worker objects. -/
structure ThreadPoolExecutor where
  corePoolSize : SizeT
  maxPoolSize : SizeT
  taskQueue : List TaskBase
  workers : List (Option WorkerId)
  deadWorkers : List (Option WorkerId)
  heap : WorkerId → Worker
  /-- The function-local `static int id` of `add_worker_locked`. -/
  nextId : Nat
  shut : Bool
  activeCount : SizeT

namespace ThreadPoolExecutor

/-- `workers.size()`. -/
def workersSize (e : ThreadPoolExecutor) : SizeT := BitVec.ofNat 64 e.workers.length

/-- `add_worker_locked`. -/
def addWorkerLocked (e : ThreadPoolExecutor) (core : Bool) : ThreadPoolExecutor :=
  { e with
    workers := e.workers ++ [some e.nextId]
    heap := Function.update e.heap e.nextId { core := core, workerIndex := e.workers.length }
    nextId := e.nextId + 1 }

/-- `insert_task_locked` without its `cv.notify_one()`, which is an effect on
the waiting threads. -/
def insertTaskLocked (e : ThreadPoolExecutor) (task : TaskBase) : ThreadPoolExecutor :=
  let e := { e with taskQueue := e.taskQueue ++ [task] }
  let idleWorkers : SizeT := e.workersSize - e.activeCount
  if idleWorkers == 0#64 && e.workersSize.ult e.maxPoolSize then
    e.addWorkerLocked false
  else e

/-- `is_terminated_locked`. -/
def isTerminatedLocked (e : ThreadPoolExecutor) : Bool :=
  e.shut && e.taskQueue.isEmpty && e.workers.isEmpty

/-- `std::swap(v[i], v[j])`. -/
def swapAt (v : List (Option WorkerId)) (i j : Nat) : List (Option WorkerId) :=
  (v.set i (v[j]?.getD none)).set j (v[i]?.getD none)

/-- `remove_self_locked`: swap with the last element, repair the index of the
worker that took the place, move the last pointer to `dead_workers`.  Writing
through a null pointer or past the end is undefined; the model then writes
nothing. -/
def removeSelfLocked (e : ThreadPoolExecutor) (self : WorkerId) : ThreadPoolExecutor :=
  let i := (e.heap self).workerIndex
  let last := e.workers.length - 1
  let workers := swapAt e.workers i last
  let heap :=
    match workers[i]? with
    | some (some w) => Function.update e.heap w { e.heap w with workerIndex := i }
    | _ => e.heap
  { e with
    heap := heap
    deadWorkers := e.deadWorkers ++ [workers[last]?.getD none]
    workers := workers.dropLast }

/-- The members before the constructor's body runs. -/
def blank (corePoolSize maxPoolSize : SizeT) : ThreadPoolExecutor :=
  { corePoolSize := corePoolSize
    maxPoolSize := maxPoolSize
    taskQueue := []
    workers := []
    deadWorkers := []
    heap := fun _ => { core := false, workerIndex := 0 }
    nextId := 1
    shut := false
    activeCount := 0#64 }

/-- The loop of the constructor: `count` core workers. -/
def addCoreWorkers (e : ThreadPoolExecutor) : Nat → ThreadPoolExecutor
  | 0 => e
  | count + 1 => (addCoreWorkers e count).addWorkerLocked true

/-- The constructor. -/
def construct (corePoolSize maxPoolSize : SizeT) : ThreadPoolExecutor :=
  addCoreWorkers (blank corePoolSize maxPoolSize) corePoolSize.toNat

end ThreadPoolExecutor

/-! ## The threads -/

/-- Where the thread of a worker stands.  From `exiting` on it has left the
main loop of `run`: `exiting` is the window between the `break` and
`remove_self_locked`, `exited` has left its last critical section, `finished`
has returned from the thread function and `joined` has been reaped. -/
inductive WorkerPc where
  | unborn
  | loopTop
  | waiting (status : WaitStatus)
  | fetched (task : TaskBase)
  | running (task : TaskBase)
  | returned (task : TaskBase)
  | exiting
  | exited
  | finished
  | joined
deriving DecidableEq, Repr

namespace WorkerPc

/-- The thread has not left the main loop. -/
def inMainLoop : WorkerPc → Bool
  | .loopTop | .waiting _ | .fetched _ | .running _ | .returned _ => true
  | _ => false

/-- The thread has been started and has not removed itself from `workers`. -/
def inTable : WorkerPc → Bool
  | .exiting => true
  | pc => pc.inMainLoop

/-- The thread has removed itself and has not been reaped. -/
def isDead : WorkerPc → Bool
  | .exited | .finished => true
  | _ => false

/-- The thread is between `++active_count` and `--active_count`. -/
def isActive : WorkerPc → Bool
  | .fetched _ | .running _ | .returned _ => true
  | _ => false

/-- The thread is blocked on `cv` and has not been notified. -/
def isBlocked : WorkerPc → Bool
  | .waiting .blocked => true
  | _ => false

/-- The thread has been notified on `cv` and has not resumed. -/
def isNotified : WorkerPc → Bool
  | .waiting .notified => true
  | _ => false

end WorkerPc

/-- A caller of `await_termination` or `is_terminated`.  `checked` is the gap
between the unlocked check and the lock; `returned` means the call has told
its caller that the executor is terminated. -/
inductive AwaitPc where
  | outside
  | checked
  | waiting (status : WaitStatus)
  | returned
deriving DecidableEq, Repr

/-- How a task's callable ends.  `Task` stores a result or an exception in its
future and `UntrackableTask` swallows an exception, so the worker goes on the
same way in either case. -/
inductive Outcome where
  | normal
  | exception
deriving DecidableEq, Repr

/-- The executor, its threads and callers, and the history of its tasks.
`passed` are the tasks of `submit` and `execute` calls that have read
`shut == false` and have not yet inserted; `calls` counts such calls. -/
structure System where
  exec : ThreadPoolExecutor
  pc : WorkerId → WorkerPc
  awaiting : Nat → AwaitPc
  passed : List TaskBase
  calls : Nat
  inserted : List TaskBase
  fetched : List (WorkerId × TaskBase)
  started : List TaskBase
  finished : List (TaskBase × Outcome)

namespace System

/-- The workers in `workers`, in order. -/
def workerIds (s : System) : List WorkerId := s.exec.workers.filterMap id

/-- Thread `w` moves to `pc`. -/
def goto (s : System) (w : WorkerId) (pc : WorkerPc) : System :=
  { s with pc := Function.update s.pc w pc }

/-- `cv.notify_all()`. -/
def notifyAllCv (s : System) : System :=
  { s with pc := fun w => if (s.pc w).isBlocked then .waiting .notified else s.pc w }

/-- `cv.notify_one()`: wakes the blocked worker `target`; it reaches nobody
only when no worker is blocked. -/
def notifyOneCv (s : System) (target : Option WorkerId) : Option System :=
  match target with
  | some w => if (s.pc w).isBlocked then some (s.goto w (.waiting .notified)) else none
  | none => if ∀ w ∈ s.workerIds, (s.pc w).isBlocked = false then some s else none

/-- `wait_cv.notify_all()`. -/
def notifyAllWaitCv (s : System) : System :=
  { s with
    awaiting := fun c =>
      if s.awaiting c = .waiting .blocked then .waiting .notified else s.awaiting c }

/-! ### Sections of the callers -/

/-- The test of `shut` at the head of `submit` and `execute`, which holds no
lock.  A call that sees the flag throws and changes nothing. -/
def shutLoad (s : System) (kind : TaskKind) : System :=
  if s.exec.shut then s
  else
    { s with
      passed := s.passed ++ [{ id := s.calls, kind := kind }]
      calls := s.calls + 1 }

/-- The locked part of `submit` and `execute`, up to the notification.  The
thread of a new worker starts at the head of its main loop. -/
def insertTask (s : System) (task : TaskBase) : System :=
  let exec := s.exec.insertTaskLocked task
  { s with
    exec := exec
    pc := if exec.nextId = s.exec.nextId then s.pc
      else Function.update s.pc s.exec.nextId .loopTop
    passed := s.passed.erase task
    inserted := s.inserted ++ [task] }

/-- `shutdown`. -/
def shutdown (s : System) : System :=
  let s := { s with exec := { s.exec with shut := true } }
  if s.exec.isTerminatedLocked then s.notifyAllWaitCv else s.notifyAllCv

/-- One evaluation of `is_terminated_locked` by a caller that returns when it
holds and goes to `otherwise` when it does not. -/
def awaitTest (s : System) (c : Nat) (otherwise : AwaitPc) : System :=
  { s with
    awaiting := Function.update s.awaiting c
      (if s.exec.isTerminatedLocked then .returned else otherwise) }

/-! ### Sections of a worker -/

/-- Fetching the front task: pop it, `++active_count`, drop the lock. -/
def fetchFront (s : System) (w : WorkerId) (task : TaskBase) (rest : List TaskBase) : System :=
  { s with
    exec := { s.exec with taskQueue := rest, activeCount := s.exec.activeCount + 1#64 }
    pc := Function.update s.pc w (.fetched task)
    fetched := s.fetched ++ [(w, task)] }

/-- `fetch_task_locked` from one evaluation of the wait predicate
`!task_queue.empty() || shut` on.  With `timedOut` the timed wait has just
returned by its deadline, so a false predicate ends the wait.  An empty
result makes `run` break out of its loop. -/
def fetchTaskLocked (s : System) (w : WorkerId) (timedOut : Bool) : System :=
  match s.exec.taskQueue with
  | task :: rest => s.fetchFront w task rest
  | [] => if s.exec.shut || timedOut then s.goto w .exiting else s.goto w (.waiting .blocked)

/-- The section at the head of the main loop. -/
def enterLoop (s : System) (w : WorkerId) : System :=
  if s.exec.shut && s.exec.taskQueue.isEmpty then s.goto w .exiting
  else s.fetchTaskLocked w false

/-- The section after the task: reap the dead workers, `--active_count`, drop
the task and the lock. -/
def afterTask (s : System) (w : WorkerId) : System :=
  { s with
    exec := { s.exec with deadWorkers := [], activeCount := s.exec.activeCount - 1#64 }
    pc := Function.update (fun v => if some v ∈ s.exec.deadWorkers then .joined else s.pc v)
      w .loopTop }

/-- The exit section of `run`. -/
def exitSection (s : System) (w : WorkerId) : System :=
  let s := { s with exec := s.exec.removeSelfLocked w, pc := Function.update s.pc w .exited }
  if s.exec.isTerminatedLocked then s.notifyAllWaitCv else s

/-- `dead_workers.clear()` in the destructor: every dead worker is destroyed,
whose thread has been joined. -/
def clearDead (s : System) : System :=
  { s with
    exec := { s.exec with deadWorkers := [] }
    pc := fun v => if some v ∈ s.exec.deadWorkers then .joined else s.pc v }

/-! ### What the notifying sections leave behind -/

section

variable (s : System) (w : WorkerId)

theorem shutdown_exec : s.shutdown.exec = { s.exec with shut := true } := by
  unfold shutdown
  dsimp only
  split <;> rfl

theorem exitSection_exec : (s.exitSection w).exec = s.exec.removeSelfLocked w := by
  unfold exitSection
  dsimp only
  split <;> rfl

theorem exitSection_pc : (s.exitSection w).pc = Function.update s.pc w .exited := by
  unfold exitSection
  dsimp only
  split <;> rfl

end

end System

/-! ## The machine -/

/-- The labels. -/
inductive Action where
  | shutLoad (kind : TaskKind)
  | insert (task : TaskBase) (target : Option WorkerId)
  | shutdown
  | isTerminated (c : Nat)
  | awaitCheck (c : Nat)
  | awaitLock (c : Nat)
  | awaitUnblock (c : Nat)
  | awaitResume (c : Nat)
  | enterLoop (w : WorkerId)
  /-- A blocked worker leaves `cv` without a notification: spuriously, or
  because its deadline passed. -/
  | unblock (w : WorkerId)
  | resume (w : WorkerId) (timedOut : Bool)
  | start (w : WorkerId)
  | finish (w : WorkerId) (outcome : Outcome)
  | afterTask (w : WorkerId)
  | exit (w : WorkerId)
  | threadReturn (w : WorkerId)
deriving DecidableEq, Repr

def step (s : System) : Action → Option System
  | .shutLoad kind => some (s.shutLoad kind)
  | .insert task target =>
      if task ∈ s.passed then (s.insertTask task).notifyOneCv target else none
  | .shutdown => some s.shutdown
  | .isTerminated c => if s.awaiting c = .outside then some (s.awaitTest c .outside) else none
  | .awaitCheck c => if s.awaiting c = .outside then some (s.awaitTest c .checked) else none
  | .awaitLock c =>
      if s.awaiting c = .checked then some (s.awaitTest c (.waiting .blocked)) else none
  | .awaitUnblock c =>
      if s.awaiting c = .waiting .blocked then
        some { s with awaiting := Function.update s.awaiting c (.waiting .awake) }
      else none
  | .awaitResume c =>
      if s.awaiting c = .waiting .notified ∨ s.awaiting c = .waiting .awake then
        some (s.awaitTest c (.waiting .blocked))
      else none
  | .enterLoop w => if s.pc w = .loopTop then some (s.enterLoop w) else none
  | .unblock w =>
      if s.pc w = .waiting .blocked then some (s.goto w (.waiting .awake)) else none
  | .resume w timedOut =>
      -- only the wait of a non-core worker has a deadline
      if (s.pc w = .waiting .notified ∨ s.pc w = .waiting .awake) ∧
          (timedOut = true → (s.exec.heap w).core = false) then
        some (s.fetchTaskLocked w timedOut)
      else none
  | .start w =>
      match s.pc w with
      | .fetched task => some { s.goto w (.running task) with started := s.started ++ [task] }
      | _ => none
  | .finish w outcome =>
      match s.pc w with
      | .running task =>
          some { s.goto w (.returned task) with finished := s.finished ++ [(task, outcome)] }
      | _ => none
  | .afterTask w =>
      match s.pc w with
      | .returned _ =>
          -- `join` blocks until the thread of every dead worker has returned
          if ∀ v ∈ s.exec.deadWorkers.filterMap id, s.pc v = .finished then
            some (s.afterTask w)
          else none
      | _ => none
  | .exit w => if s.pc w = .exiting then some (s.exitSection w) else none
  | .threadReturn w => if s.pc w = .exited then some (s.goto w .finished) else none

/-! ## What a step can do -/

namespace WorkerPc

/-- The thread is about to look at the queue: at the head of its loop, or back
from the wait of `fetch_task_locked`. -/
def atFetch : WorkerPc → Bool
  | .loopTop | .waiting .notified | .waiting .awake => true
  | _ => false

theorem inTable_of_atFetch {pc : WorkerPc} (looks : pc.atFetch = true) : pc.inTable = true := by
  cases pc <;> simp_all [atFetch, inTable, inMainLoop]

theorem isBlocked_iff {pc : WorkerPc} : pc.isBlocked = true ↔ pc = .waiting .blocked := by
  cases pc with
  | waiting status => cases status <;> simp [isBlocked]
  | _ => simp [isBlocked]

end WorkerPc

/-- The label of a section that looks at the queue. -/
def Action.fetches (w : WorkerId) : Action → Prop
  | .enterLoop v => v = w
  | .resume v _ => v = w
  | _ => False

/-- The label of a section that tests for termination on behalf of caller `c`,
with the position the caller takes when the test fails. -/
def Action.awaits (c : Nat) (otherwise : AwaitPc) : Action → Prop
  | .isTerminated d => d = c ∧ otherwise = .outside
  | .awaitCheck d => d = c ∧ otherwise = .checked
  | .awaitLock d | .awaitResume d => d = c ∧ otherwise = .waiting .blocked
  | _ => False

/-- The inversion of `step`: every invariant is proved by cases on
`Transition`.  The two sections that look at the queue have the same three
results, and the sections of the awaiting callers differ only in where they
leave the caller. -/
inductive Transition (s : System) : Action → System → Prop where
  | shutLoad (kind : TaskKind) : Transition s (.shutLoad kind) (s.shutLoad kind)
  | insertUnheard (task : TaskBase) (passed : task ∈ s.passed)
      (nobody : ∀ w ∈ (s.insertTask task).workerIds,
        ((s.insertTask task).pc w).isBlocked = false) :
      Transition s (.insert task none) (s.insertTask task)
  | insertNotify (task : TaskBase) (w : WorkerId) (passed : task ∈ s.passed)
      (blocked : (s.insertTask task).pc w = .waiting .blocked) :
      Transition s (.insert task (some w)) ((s.insertTask task).goto w (.waiting .notified))
  | shutdown : Transition s .shutdown s.shutdown
  | awaitTest (a : Action) (c : Nat) (otherwise : AwaitPc) (awaits : a.awaits c otherwise) :
      Transition s a (s.awaitTest c otherwise)
  | awaitUnblock (c : Nat) (blocked : s.awaiting c = .waiting .blocked) :
      Transition s (.awaitUnblock c)
        { s with awaiting := Function.update s.awaiting c (.waiting .awake) }
  | fetch (a : Action) (w : WorkerId) (task : TaskBase) (rest : List TaskBase)
      (fetches : a.fetches w) (atFetch : (s.pc w).atFetch = true)
      (queue : s.exec.taskQueue = task :: rest) : Transition s a (s.fetchFront w task rest)
  | leave (a : Action) (w : WorkerId) (fetches : a.fetches w)
      (atFetch : (s.pc w).atFetch = true) (queue : s.exec.taskQueue = [])
      (cause : s.exec.shut = true ∨ (s.exec.heap w).core = false) :
      Transition s a (s.goto w .exiting)
  | sleep (a : Action) (w : WorkerId) (fetches : a.fetches w)
      (atFetch : (s.pc w).atFetch = true) (queue : s.exec.taskQueue = [])
      (notShut : s.exec.shut = false) : Transition s a (s.goto w (.waiting .blocked))
  | unblock (w : WorkerId) (blocked : s.pc w = .waiting .blocked) :
      Transition s (.unblock w) (s.goto w (.waiting .awake))
  | start (w : WorkerId) (task : TaskBase) (fetched : s.pc w = .fetched task) :
      Transition s (.start w) { s.goto w (.running task) with started := s.started ++ [task] }
  | finish (w : WorkerId) (task : TaskBase) (outcome : Outcome)
      (running : s.pc w = .running task) :
      Transition s (.finish w outcome)
        { s.goto w (.returned task) with finished := s.finished ++ [(task, outcome)] }
  | afterTask (w : WorkerId) (task : TaskBase) (returned : s.pc w = .returned task)
      (joinable : ∀ v ∈ s.exec.deadWorkers.filterMap id, s.pc v = .finished) :
      Transition s (.afterTask w) (s.afterTask w)
  | exit (w : WorkerId) (exiting : s.pc w = .exiting) :
      Transition s (.exit w) (s.exitSection w)
  | threadReturn (w : WorkerId) (exited : s.pc w = .exited) :
      Transition s (.threadReturn w) (s.goto w .finished)

private theorem transition_fetchTaskLocked {s : System} {a : Action} {w : WorkerId}
    (timedOut : Bool) (fetches : a.fetches w) (atFetch : (s.pc w).atFetch = true)
    (deadline : timedOut = true → (s.exec.heap w).core = false) :
    Transition s a (s.fetchTaskLocked w timedOut) := by
  unfold System.fetchTaskLocked
  split
  next task rest queue => exact .fetch a w task rest fetches atFetch queue
  next queue =>
    split
    next ends =>
      refine .leave a w fetches atFetch queue ?_
      rcases Bool.or_eq_true_iff.mp ends with shut | late
      · exact .inl shut
      · exact .inr (deadline late)
    next waits =>
      exact .sleep a w fetches atFetch queue
        (by simpa using (Bool.or_eq_false_iff.mp (Bool.not_eq_true _ ▸ waits)).1)

/-- Every enabled label is one of the transitions. -/
theorem transition_of_step {s s' : System} {a : Action} (stepEq : step s a = some s') :
    Transition s a s' := by
  cases a
  case shutLoad kind => cases stepEq; exact .shutLoad kind
  case shutdown => cases stepEq; exact .shutdown
  case start w =>
    simp only [step] at stepEq
    split at stepEq
    next task fetched => cases stepEq; exact .start w task fetched
    next => cases stepEq
  case finish w outcome =>
    simp only [step] at stepEq
    split at stepEq
    next task running => cases stepEq; exact .finish w task outcome running
    next => cases stepEq
  case afterTask w =>
    simp only [step] at stepEq
    split at stepEq
    next task returned =>
      obtain ⟨joinable, same⟩ := Option.ite_none_right_eq_some.mp stepEq
      cases same
      exact .afterTask w task returned joinable
    next => cases stepEq
  case insert task target =>
    obtain ⟨passed, sent⟩ := Option.ite_none_right_eq_some.mp stepEq
    cases target with
    | none =>
        obtain ⟨nobody, same⟩ := Option.ite_none_right_eq_some.mp sent
        cases same
        exact .insertUnheard task passed nobody
    | some w =>
        obtain ⟨blocked, same⟩ := Option.ite_none_right_eq_some.mp sent
        cases same
        exact .insertNotify task w passed (WorkerPc.isBlocked_iff.mp blocked)
  all_goals
    obtain ⟨position, same⟩ := Option.ite_none_right_eq_some.mp stepEq
    cases same
  case isTerminated c => exact .awaitTest _ c .outside ⟨rfl, rfl⟩
  case awaitCheck c => exact .awaitTest _ c .checked ⟨rfl, rfl⟩
  case awaitLock c => exact .awaitTest _ c (.waiting .blocked) ⟨rfl, rfl⟩
  case awaitUnblock c => exact .awaitUnblock c position
  case awaitResume c => exact .awaitTest _ c (.waiting .blocked) ⟨rfl, rfl⟩
  case enterLoop w =>
    have atFetch : (s.pc w).atFetch = true := by rw [position]; rfl
    unfold System.enterLoop
    split
    next ends =>
      obtain ⟨shut, empty⟩ := Bool.and_eq_true_iff.mp ends
      exact .leave _ w rfl atFetch (List.isEmpty_iff.mp empty) (.inl shut)
    next => exact transition_fetchTaskLocked false rfl atFetch nofun
  case unblock w => exact .unblock w position
  case resume w timedOut =>
    have atFetch : (s.pc w).atFetch = true := by
      rcases position.1 with notified | awake
      · rw [notified]; rfl
      · rw [awake]; rfl
    exact transition_fetchTaskLocked timedOut rfl atFetch position.2
  case exit w => exact .exit w position
  case threadReturn w => exact .threadReturn w position

/-- The inversion of the locked insert: the notification reaches nobody or a
blocked worker. -/
theorem insert_cases {s s' : System} {task : TaskBase} {target : Option WorkerId}
    (stepEq : step s (.insert task target) = some s') :
    task ∈ s.passed ∧
      (s' = s.insertTask task ∨
        ∃ w, (s.insertTask task).pc w = .waiting .blocked ∧
          s' = (s.insertTask task).goto w (.waiting .notified)) := by
  cases transition_of_step stepEq with
  | insertUnheard _ passed _ => exact ⟨passed, .inl rfl⟩
  | insertNotify _ w passed blocked => exact ⟨passed, .inr ⟨w, blocked, rfl⟩⟩
  | awaitTest _ _ _ awaits => exact awaits.elim
  | fetch _ _ _ _ fetches _ _ => exact fetches.elim
  | leave _ _ fetches _ _ _ => exact fetches.elim
  | sleep _ _ fetches _ _ _ => exact fetches.elim

/-- The locked insert queues its task behind the others. -/
theorem taskQueue_insertTask (s : System) (task : TaskBase) :
    (s.insertTask task).exec.taskQueue = s.exec.taskQueue ++ [task] := by
  simp only [System.insertTask, ThreadPoolExecutor.insertTaskLocked]
  split <;> rfl

/-- The state after the constructor: the core workers' threads are about to
enter their main loop.  What they do while the constructor still runs touches
neither `workers` nor each other, so it is the same as doing it afterwards. -/
def initial (corePoolSize maxPoolSize : SizeT) : System :=
  let exec := ThreadPoolExecutor.construct corePoolSize maxPoolSize
  { exec := exec
    pc := fun w => if some w ∈ exec.workers then .loopTop else .unborn
    awaiting := fun _ => .outside
    passed := []
    calls := 0
    inserted := []
    fetched := []
    started := []
    finished := [] }

/-- What the constructor leaves besides its workers. -/
theorem blank_addCoreWorkers (corePoolSize maxPoolSize : SizeT) (count : Nat) :
    let e := ThreadPoolExecutor.addCoreWorkers (.blank corePoolSize maxPoolSize) count
    e.corePoolSize = corePoolSize ∧ e.maxPoolSize = maxPoolSize ∧ e.taskQueue = [] ∧
      e.shut = false := by
  induction count with
  | zero => exact ⟨rfl, rfl, rfl, rfl⟩
  | succ count ih => exact ih

/-- The executor with the given pool sizes. -/
def machine (corePoolSize maxPoolSize : SizeT) : Machine System Action :=
  { initial := initial corePoolSize maxPoolSize, step := step }

end Conc11.Executor
