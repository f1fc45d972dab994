/-
Module: Conc11.Executor.Reaping
Purpose: `reap_dead_workers_locked` with its loop of joins, run by workers that own `main_lock` and by the
  destructor, which does not.  The machine adds to the workers with their frames who is in the middle of a
  submission, how far each reaper has come, which threads have been joined and which workers destroyed,
  and the steps of `~ThreadPoolExecutor`.
Trusted boundary: human-reviewed model
Main exports: DestructorPc, JoinSystem, Reaps, JoinAction, joinStep, JoinTransition,
  joinTransition_of_step, joinMachine
-/
import Conc11.Executor.Scopes

namespace Conc11.Executor

open Library

/-- Where `~ThreadPoolExecutor` stands: before its `is_terminated`, before its
`shutdown`, within its `await_termination`, in its final
`reap_dead_workers_locked`, or past it. -/
inductive DestructorPc where
  | absent
  | testing
  | shutting
  | awaiting
  | reaping
  | done
deriving DecidableEq, Repr

/-- The caller that stands for the destructor among those that await termination. -/
def destructorCaller : Nat := 0

/-- `threads` is the executor with its threads.  A reaper is a worker, or `none` for the
destructor; `joined` is how many of the dead workers its loop has joined.
`submitting` is the task of a `submit` or `execute` that user code on a worker
is in the middle of, and `external` are those of all other threads.  `joins`
and `destroyed` are the history of `Worker::join` and of `~Worker`. -/
structure JoinSystem where
  threads : ScopedSystem
  destructor : DestructorPc
  external : List TaskBase
  submitting : WorkerId → Option TaskBase
  joined : Option WorkerId → Nat
  joins : List WorkerId
  destroyed : List WorkerId

/-- The worker has finished its task and not yet reaped. -/
def WorkerPc.isReturned : WorkerPc → Bool
  | .returned _ => true
  | _ => false

/-- The task of a submission that passes the test of `shut`. -/
def System.accepted (s : System) (kind : TaskKind) : Option TaskBase :=
  if s.exec.shut then none else some { id := s.calls, kind := kind }

namespace JoinSystem

def sys (s : JoinSystem) : System := s.threads.sys

/-- The workers in `dead_workers`, in order. -/
def deadIds (s : JoinSystem) : List WorkerId := s.sys.exec.deadWorkers.filterMap id

/-- `r` is inside `reap_dead_workers_locked`. -/
def Reaps (s : JoinSystem) : Option WorkerId → Prop
  | some w => s.threads.mainLock = some w ∧ (s.sys.pc w).isReturned = true
  | none => s.destructor = .reaping

instance (s : JoinSystem) : (r : Option WorkerId) → Decidable (s.Reaps r)
  | some w =>
      inferInstanceAs (Decidable (s.threads.mainLock = some w ∧ (s.sys.pc w).isReturned = true))
  | none => inferInstanceAs (Decidable (s.destructor = .reaping))

/-- One round of the loop: `worker->join()`, which blocks until the thread of
the next dead worker has returned. -/
def join (s : JoinSystem) (r : Option WorkerId) : Option JoinSystem :=
  match s.sys.exec.deadWorkers[s.joined r]? with
  | some (some v) =>
      if s.sys.pc v = .finished then
        some { s with
          joins := s.joins ++ [v]
          joined := Function.update s.joined r (s.joined r + 1) }
      else none
  | _ => none

/-- `dead_workers.clear()` after the loop of `r`, which led to `threads`. -/
def cleared (s : JoinSystem) (r : Option WorkerId) (threads : ScopedSystem) : JoinSystem :=
  { s with
    threads := threads
    joined := Function.update s.joined r 0
    destroyed := s.destroyed ++ s.deadIds }

end JoinSystem

/-- The label belongs to a call of `await_termination` by `c`, or to its wait. -/
def Action.awaitedBy (c : Nat) : Action → Bool
  | .awaitCheck d | .awaitLock d | .awaitUnblock d | .awaitResume d => d == c
  | _ => false

/-- Calls that are not submissions and not the destructor's. -/
def Action.isPlain (a : Action) : Bool :=
  match a with
  | .shutLoad _ | .insert _ _ => false
  | .isTerminated c => c != destructorCaller
  | a => !a.awaitedBy destructorCaller

/-- The steps that the machine takes over as they are.  User code returns only
when it has no submission to complete. -/
def ScopedAction.isPlain (submitting : WorkerId → Option TaskBase) : ScopedAction → Bool
  | .runSection w a => a != .afterTask w
  | .finish w _ | .leave w => (submitting w).isNone
  | .callSection _ (some a) | .other a => a.isPlain
  | _ => true

/-- The labels. -/
inductive JoinAction where
  | run (a : ScopedAction)
  /-- A thread that is not a worker enters `submit` or `execute`. -/
  | shutLoad (kind : TaskKind)
  | insert (task : TaskBase) (target : Option WorkerId)
  /-- User code on `w` enters `submit` or `execute`. -/
  | callShutLoad (w : WorkerId) (kind : TaskKind)
  | callInsert (w : WorkerId) (target : Option WorkerId)
  | join (r : Option WorkerId)
  /-- The end of the loop of `r`, up to the end of its section. -/
  | clear (r : Option WorkerId)
  | destroy
  | destructorTest
  | destructorShutdown
  /-- A section of the destructor's `await_termination`; the one in which the
  call returns leads to the final reap. -/
  | destructorAwait (a : Action)
deriving DecidableEq, Repr

/-- The destructor is called by a thread that is not a worker, with no
submission of such a thread in progress; from then on only user code on the
workers submits.  After the destructor there is no executor. -/
def joinStep (s : JoinSystem) (a : JoinAction) : Option JoinSystem :=
  if s.destructor = .done then none
  else
    match a with
    | .run a =>
        if a.isPlain s.submitting = true then
          (scopedStep s.threads a).map fun threads => { s with threads := threads }
        else none
    | .shutLoad kind =>
        if s.destructor = .absent then
          (scopedStep s.threads (.other (.shutLoad kind))).map fun threads =>
            { s with threads := threads, external := s.external ++ (s.sys.accepted kind).toList }
        else none
    | .insert task target =>
        if s.destructor = .absent ∧ task ∈ s.external then
          (scopedStep s.threads (.other (.insert task target))).map fun threads =>
            { s with threads := threads, external := s.external.erase task }
        else none
    | .callShutLoad w kind =>
        if s.threads.InUserCode w ∧ s.submitting w = none then
          (scopedStep s.threads (.other (.shutLoad kind))).map fun threads =>
            { s with
              threads := threads
              submitting := Function.update s.submitting w (s.sys.accepted kind) }
        else none
    | .callInsert w target =>
        match s.submitting w with
        | some task =>
            (scopedStep s.threads (.callSection w (some (.insert task target)))).map fun threads =>
              { s with threads := threads, submitting := Function.update s.submitting w none }
        | none => none
    | .join r => if s.Reaps r then s.join r else none
    | .clear r =>
        if s.Reaps r ∧ s.joined r = s.sys.exec.deadWorkers.length then
          match r with
          | some w =>
              (scopedStep s.threads (.runSection w (.afterTask w))).map (s.cleared (some w))
          | none =>
              some { s.cleared none { s.threads with sys := s.sys.clearDead } with destructor := .done }
        else none
    | .destroy =>
        if s.destructor = .absent ∧ s.external = [] then some { s with destructor := .testing }
        else none
    | .destructorTest =>
        if s.destructor = .testing then
          (scopedStep s.threads (.other (.isTerminated destructorCaller))).map fun threads =>
            { s with
              threads := threads
              destructor := if s.sys.exec.isTerminatedLocked then .reaping else .shutting }
        else none
    | .destructorShutdown =>
        if s.destructor = .shutting then
          (scopedStep s.threads (.other .shutdown)).map fun threads =>
            { s with threads := threads, destructor := .awaiting }
        else none
    | .destructorAwait a =>
        if s.destructor = .awaiting ∧ a.awaitedBy destructorCaller = true then
          (scopedStep s.threads (.other a)).map fun threads =>
            { s with
              threads := threads
              destructor :=
                if threads.sys.awaiting destructorCaller = .returned then .reaping else .awaiting }
        else none

def joinInitial (corePoolSize maxPoolSize : SizeT) : JoinSystem :=
  { threads := scopedInitial corePoolSize maxPoolSize
    destructor := .absent
    external := []
    submitting := fun _ => none
    joined := fun _ => 0
    joins := []
    destroyed := [] }

/-- The executor with its destructor, after its constructor. -/
def joinMachine (corePoolSize maxPoolSize : SizeT) : Machine JoinSystem JoinAction :=
  { initial := joinInitial corePoolSize maxPoolSize, step := joinStep }

/-! ## What a step can do -/

/-- The inversion of `joinStep`. -/
inductive JoinTransition (s : JoinSystem) : JoinAction → JoinSystem → Prop where
  | run (a : ScopedAction) (threads : ScopedSystem) (plain : a.isPlain s.submitting = true)
      (moved : scopedStep s.threads a = some threads) :
      JoinTransition s (.run a) { s with threads := threads }
  | shutLoad (kind : TaskKind) (threads : ScopedSystem)
      (moved : scopedStep s.threads (.other (.shutLoad kind)) = some threads) :
      JoinTransition s (.shutLoad kind)
        { s with threads := threads, external := s.external ++ (s.sys.accepted kind).toList }
  | insert (task : TaskBase) (target : Option WorkerId) (threads : ScopedSystem)
      (absent : s.destructor = .absent)
      (moved : scopedStep s.threads (.other (.insert task target)) = some threads) :
      JoinTransition s (.insert task target)
        { s with threads := threads, external := s.external.erase task }
  | callShutLoad (w : WorkerId) (kind : TaskKind) (threads : ScopedSystem)
      (user : s.threads.InUserCode w)
      (moved : scopedStep s.threads (.other (.shutLoad kind)) = some threads) :
      JoinTransition s (.callShutLoad w kind)
        { s with
          threads := threads
          submitting := Function.update s.submitting w (s.sys.accepted kind) }
  | callInsert (w : WorkerId) (target : Option WorkerId) (task : TaskBase)
      (threads : ScopedSystem) (submits : s.submitting w = some task)
      (moved : scopedStep s.threads (.callSection w (some (.insert task target))) = some threads) :
      JoinTransition s (.callInsert w target)
        { s with threads := threads, submitting := Function.update s.submitting w none }
  | join (r : Option WorkerId) (v : WorkerId) (reaps : s.Reaps r)
      (next : s.sys.exec.deadWorkers[s.joined r]? = some (some v))
      (finished : s.sys.pc v = .finished) :
      JoinTransition s (.join r)
        { s with
          joins := s.joins ++ [v]
          joined := Function.update s.joined r (s.joined r + 1) }
  | clearWorker (w : WorkerId) (threads : ScopedSystem) (reaps : s.Reaps (some w))
      (all : s.joined (some w) = s.sys.exec.deadWorkers.length)
      (moved : scopedStep s.threads (.runSection w (.afterTask w)) = some threads) :
      JoinTransition s (.clear (some w)) (s.cleared (some w) threads)
  | clearDestructor (reaps : s.Reaps none) (all : s.joined none = s.sys.exec.deadWorkers.length) :
      JoinTransition s (.clear none)
        { s.cleared none { s.threads with sys := s.sys.clearDead } with destructor := .done }
  | destroy (absent : s.destructor = .absent) (quiet : s.external = []) :
      JoinTransition s .destroy { s with destructor := .testing }
  | destructorTest (threads : ScopedSystem) (testing : s.destructor = .testing)
      (moved : scopedStep s.threads (.other (.isTerminated destructorCaller)) = some threads) :
      JoinTransition s .destructorTest
        { s with
          threads := threads
          destructor := if s.sys.exec.isTerminatedLocked then .reaping else .shutting }
  | destructorShutdown (threads : ScopedSystem) (shutting : s.destructor = .shutting)
      (moved : scopedStep s.threads (.other .shutdown) = some threads) :
      JoinTransition s .destructorShutdown { s with threads := threads, destructor := .awaiting }
  | destructorAwait (a : Action) (threads : ScopedSystem) (awaiting : s.destructor = .awaiting)
      (mine : a.awaitedBy destructorCaller = true)
      (moved : scopedStep s.threads (.other a) = some threads) :
      JoinTransition s (.destructorAwait a)
        { s with
          threads := threads
          destructor :=
            if threads.sys.awaiting destructorCaller = .returned then .reaping else .awaiting }

theorem joinTransition_of_step {s s' : JoinSystem} {a : JoinAction}
    (stepEq : joinStep s a = some s') : s.destructor ≠ .done ∧ JoinTransition s a s' := by
  unfold joinStep at stepEq
  split at stepEq
  next => cases stepEq
  next notDone =>
    refine ⟨notDone, ?_⟩
    cases a with
    | run a =>
        obtain ⟨plain, ran⟩ := Option.ite_none_right_eq_some.mp stepEq
        obtain ⟨threads, moved, rfl⟩ := Option.map_eq_some_iff.mp ran
        exact .run a threads plain moved
    | shutLoad kind =>
        obtain ⟨_, ran⟩ := Option.ite_none_right_eq_some.mp stepEq
        obtain ⟨threads, moved, rfl⟩ := Option.map_eq_some_iff.mp ran
        exact .shutLoad kind threads moved
    | insert task target =>
        obtain ⟨⟨absent, _⟩, ran⟩ := Option.ite_none_right_eq_some.mp stepEq
        obtain ⟨threads, moved, rfl⟩ := Option.map_eq_some_iff.mp ran
        exact .insert task target threads absent moved
    | callShutLoad w kind =>
        obtain ⟨⟨user, _⟩, ran⟩ := Option.ite_none_right_eq_some.mp stepEq
        obtain ⟨threads, moved, rfl⟩ := Option.map_eq_some_iff.mp ran
        exact .callShutLoad w kind threads user moved
    | callInsert w target =>
        dsimp only at stepEq
        split at stepEq
        next task submits =>
          obtain ⟨threads, moved, rfl⟩ := Option.map_eq_some_iff.mp stepEq
          exact .callInsert w target task threads submits moved
        next => cases stepEq
    | join r =>
        obtain ⟨reaps, joins⟩ := Option.ite_none_right_eq_some.mp stepEq
        unfold JoinSystem.join at joins
        split at joins
        next v next =>
          obtain ⟨finished, same⟩ := Option.ite_none_right_eq_some.mp joins
          cases same
          exact .join r v reaps next finished
        next => cases joins
    | clear r =>
        obtain ⟨⟨reaps, all⟩, ran⟩ := Option.ite_none_right_eq_some.mp stepEq
        cases r with
        | some w =>
            obtain ⟨threads, moved, rfl⟩ := Option.map_eq_some_iff.mp ran
            exact .clearWorker w threads reaps all moved
        | none =>
            cases ran
            exact .clearDestructor reaps all
    | destroy =>
        obtain ⟨⟨absent, quiet⟩, same⟩ := Option.ite_none_right_eq_some.mp stepEq
        cases same
        exact .destroy absent quiet
    | destructorTest =>
        obtain ⟨testing, ran⟩ := Option.ite_none_right_eq_some.mp stepEq
        obtain ⟨threads, moved, rfl⟩ := Option.map_eq_some_iff.mp ran
        exact .destructorTest threads testing moved
    | destructorShutdown =>
        obtain ⟨shutting, ran⟩ := Option.ite_none_right_eq_some.mp stepEq
        obtain ⟨threads, moved, rfl⟩ := Option.map_eq_some_iff.mp ran
        exact .destructorShutdown threads shutting moved
    | destructorAwait a =>
        obtain ⟨⟨awaiting, mine⟩, ran⟩ := Option.ite_none_right_eq_some.mp stepEq
        obtain ⟨threads, moved, rfl⟩ := Option.map_eq_some_iff.mp ran
        exact .destructorAwait a threads awaiting mine moved

end Conc11.Executor
