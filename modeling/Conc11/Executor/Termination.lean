/-
Module: Conc11.Executor.Termination
Purpose: Whether termination is final.  `submit` and `execute` test `shut` before they take the lock and
  `insert_task_locked` does not look at it again, so an insert that was overtaken by a whole shutdown
  revives the executor; nothing else does.
Trusted boundary: none
Main exports: InsertBeforeTermination, terminated_transition, terminated_stable
-/
import Conc11.Executor.WorkerTable

namespace Conc11.Executor

open Library ThreadPoolExecutor

/-- `is_terminated_locked()` in a state of the machine. -/
def System.terminated (s : System) : Bool := s.exec.isTerminatedLocked

/-- A locked insert does not find the executor terminated. -/
def InsertBeforeTermination (s : System) : Action → Prop
  | .insert _ _ => s.terminated = false
  | _ => True

instance (s : System) : (a : Action) → Decidable (InsertBeforeTermination s a)
  | .insert _ _ => inferInstanceAs (Decidable (s.terminated = false))
  | .shutLoad _ | .shutdown | .isTerminated _ | .awaitCheck _ | .awaitLock _ | .awaitUnblock _
  | .awaitResume _ | .enterLoop _ | .unblock _ | .resume _ _ | .start _ | .finish _ _
  | .afterTask _ | .exit _ | .threadReturn _ => .isTrue trivial

namespace System

variable {s : System}

theorem terminated_iff : s.terminated = true ↔
    s.exec.shut = true ∧ s.exec.taskQueue = [] ∧ s.exec.workers = [] := by
  simp [terminated, isTerminatedLocked, and_assoc]

/-- A terminated executor has no thread left that could take a section of `run`. -/
theorem Tabled.out_of_terminated (tabled : s.Tabled) (terminated : s.terminated = true)
    (w : WorkerId) : (s.pc w).inTable = false := by
  obtain ⟨_, _, workers⟩ := terminated_iff.mp terminated
  rw [← Bool.not_eq_true, ← tabled.mem_workerIds, workerIds, workers]
  exact List.not_mem_nil

end System

/-- Nothing happened to the tasks and the workers between `s` and the terminated `s'`. -/
structure Frozen (s s' : System) : Prop where
  terminated : s'.terminated = true
  inserted : s'.inserted = s.inserted
  nextId : s'.exec.nextId = s.exec.nextId
  started : s'.started = s.started

namespace Frozen

theorem refl {s : System} (terminated : s.terminated = true) : Frozen s s :=
  ⟨terminated, rfl, rfl, rfl⟩

theorem trans {s s' s'' : System} (first : Frozen s s') (second : Frozen s' s'') :
    Frozen s s'' :=
  ⟨second.terminated, second.inserted.trans first.inserted, second.nextId.trans first.nextId,
    second.started.trans first.started⟩

end Frozen

/-- A step other than an insert leaves a terminated executor as it is. -/
theorem terminated_transition {s s' : System} {a : Action} (tabled : s.Tabled)
    (terminated : s.terminated = true) (allowed : InsertBeforeTermination s a)
    (moved : Transition s a s') : Frozen s s' := by
  have noThread : ∀ w, (s.pc w).inTable = true → Frozen s s' := fun w live =>
    absurd live (by rw [tabled.out_of_terminated terminated w]; decide)
  obtain ⟨shut, queue, workers⟩ := System.terminated_iff.mp terminated
  cases moved with
  | shutLoad kind =>
      have rejected : s.shutLoad kind = s := if_pos shut
      rw [rejected]
      exact .refl terminated
  | insertUnheard _ _ _ | insertNotify _ _ _ _ =>
      exact absurd terminated (by rw [show s.terminated = false from allowed]; decide)
  | shutdown =>
      have after : s.shutdown.terminated = true := by
        rw [System.terminated_iff]
        simp only [System.shutdown]
        split <;> exact ⟨rfl, queue, workers⟩
      refine ⟨after, ?_, ?_, ?_⟩
      all_goals simp only [System.shutdown]; split <;> rfl
  | awaitTest _ _ _ _ | awaitUnblock _ _ | threadReturn _ _ => exact ⟨terminated, rfl, rfl, rfl⟩
  | fetch _ w _ _ _ atFetch _ | leave _ w _ atFetch _ _ | sleep _ w _ atFetch _ _ =>
      exact noThread w (WorkerPc.inTable_of_atFetch atFetch)
  | unblock w blocked => exact noThread w (by rw [blocked]; rfl)
  | start w _ fetched => exact noThread w (by rw [fetched]; rfl)
  | finish w _ _ running => exact noThread w (by rw [running]; rfl)
  | afterTask w _ returned _ => exact noThread w (by rw [returned]; rfl)
  | exit w exiting => exact noThread w (by rw [exiting]; rfl)

/-- With a task in the queue the executor is not terminated. -/
theorem System.terminated_insertTask (s : System) (task : TaskBase) :
    (s.insertTask task).terminated = false := by
  rw [← Bool.not_eq_true, System.terminated_iff, taskQueue_insertTask]
  simp

/-- An insert into a terminated executor undoes its termination. -/
theorem insert_revives {s s' : System} {task : TaskBase} {target : Option WorkerId}
    (stepEq : step s (.insert task target) = some s') :
    s'.terminated = false ∧ s'.inserted = s.inserted ++ [task] := by
  have queued := s.terminated_insertTask task
  obtain ⟨_, rfl | ⟨w, _, rfl⟩⟩ := insert_cases stepEq
  · exact ⟨queued, rfl⟩
  · exact ⟨queued, rfl⟩

/-! ## The callers that wait for termination -/

/-- A broadcast on `wait_cv` makes nobody return. -/
theorem notifyAllWaitCv_returned {s : System} {c : Nat} :
    s.notifyAllWaitCv.awaiting c = .returned ↔ s.awaiting c = .returned := by
  simp only [System.notifyAllWaitCv]
  split
  next blocked => simp [blocked]
  next => rfl

/-- Only a test that found the executor terminated makes a caller return. -/
theorem returned_transition {s s' : System} {a : Action} (moved : Transition s a s') {c : Nat}
    (returned : s'.awaiting c = .returned) :
    s.awaiting c = .returned ∨ s'.terminated = true := by
  cases moved with
  | shutLoad kind =>
      revert returned
      simp only [System.shutLoad]
      split <;> exact .inl
  | shutdown =>
      revert returned
      simp only [System.shutdown]
      split
      · exact fun returned => .inl (notifyAllWaitCv_returned.mp returned)
      · exact .inl
  | exit w _ =>
      revert returned
      simp only [System.exitSection]
      split
      · exact fun returned => .inl (notifyAllWaitCv_returned.mp returned)
      · exact .inl
  | awaitTest _ d otherwise awaits =>
      by_cases same : c = d
      · subst same
        right
        by_contra running
        have fails : s.exec.isTerminatedLocked = false := (Bool.not_eq_true _).mp running
        have isAt : (s.awaitTest c otherwise).awaiting c = otherwise := by
          simp [System.awaitTest, fails]
        rw [isAt] at returned
        subst returned
        cases a <;> simp_all [Action.awaits]
      · exact .inl (by simpa [System.awaitTest, Function.update_of_ne same] using returned)
  | awaitUnblock d _ =>
      left
      by_cases same : c = d
      · subst same
        simp at returned
      · simpa [Function.update_of_ne same] using returned
  | _ => exact .inl returned

/-- A caller that has returned was told the truth, and it still holds. -/
def Announced (s : System) : Prop := ∀ c, s.awaiting c = .returned → s.terminated = true

theorem announced_transition {s s' : System} {a : Action} (tabled : s.Tabled)
    (announced : Announced s) (allowed : InsertBeforeTermination s a)
    (moved : Transition s a s') : Announced s' := by
  intro c returned
  rcases returned_transition moved returned with before | now
  · exact (terminated_transition tabled (announced c before) allowed moved).terminated
  · exact now

/-! ## Runs -/

/-- In a run whose inserts all come before termination, termination is final,
and `await_termination` and `is_terminated` report it only when it has come.
In any run, a step leaves a terminated executor terminated exactly when it is
not such an overtaken insert, which queues its task. -/
theorem terminated_stable (corePoolSize maxPoolSize : SizeT) :
    (∀ s s', (machine corePoolSize maxPoolSize).ReachableUnder InsertBeforeTermination s →
      (machine corePoolSize maxPoolSize).LaterUnder InsertBeforeTermination s s' →
      (s.terminated = true → Frozen s s') ∧
      ((∃ c, s.awaiting c = .returned) → Frozen s s')) ∧
    (∀ s a s', (machine corePoolSize maxPoolSize).Reachable s → s.terminated = true →
      step s a = some s' → (s'.terminated = true ↔ InsertBeforeTermination s a)) := by
  constructor
  · intro s s' reachable later
    have stable : s.terminated = true → Frozen s s' := fun terminated =>
      later.invariant (motive := Frozen s) reachable (.refl terminated)
        fun _ _ _ reached frozen allowed stepEq =>
          frozen.trans (terminated_transition (tabled_of_reachable reached) frozen.terminated
            allowed (transition_of_step stepEq))
    have announced : Announced s :=
      reachable.invariant (motive := Announced) (fun _ returned => by cases returned)
        fun _ _ _ reached announced allowed stepEq =>
          announced_transition (tabled_of_reachable reached) announced allowed
            (transition_of_step stepEq)
    exact ⟨stable, fun ⟨c, returned⟩ => stable (announced c returned)⟩
  · intro s a s' reachable terminated stepEq
    constructor
    · intro after
      cases a with
      | insert task target =>
          rw [(insert_revives stepEq).1] at after
          cases after
      | _ => trivial
    · intro allowed
      exact (terminated_transition (tabled_of_reachable reachable) terminated allowed
        (transition_of_step stepEq)).terminated

/-- A single-thread executor runs one task, is shut down and terminates. -/
def terminatingRun : List Action :=
  [.shutLoad .task, .insert ⟨0, .task⟩ none, .enterLoop 1, .start 1, .finish 1 .exception,
    .afterTask 1, .shutdown, .enterLoop 1, .exit 1, .isTerminated 0]

theorem terminated_stable_after_task :
    ∃ s s', (machine 1#64 1#64).ReachableUnder InsertBeforeTermination s ∧
      s.awaiting 0 = .returned ∧ s.started = [⟨0, .task⟩] ∧
      (machine 1#64 1#64).LaterUnder InsertBeforeTermination s s' ∧ s'.pc 1 ≠ s.pc 1 ∧
      Frozen s s' := by
  have run : (((machine 1#64 1#64).execUnder InsertBeforeTermination (initial 1#64 1#64)
        terminatingRun).bind fun s =>
      ((machine 1#64 1#64).execUnder InsertBeforeTermination s
        [.threadReturn 1, .shutLoad .untrackable, .shutdown]).map fun s' =>
          (s.awaiting 0, s.started, s.pc 1, s'.pc 1)) =
        some (.returned, [⟨0, .task⟩], .exited, .finished) := by
    decide
  obtain ⟨s, runs, last⟩ := Option.bind_eq_some_iff.mp run
  obtain ⟨s', after, observed⟩ := Option.map_eq_some_iff.mp last
  simp only [Prod.mk.injEq] at observed
  obtain ⟨returned, started, exited, finished⟩ := observed
  have reached := Machine.reachableUnder_of_execUnder runs
  have later := Machine.laterUnder_of_execUnder after
  have frozen := ((terminated_stable 1#64 1#64).1 s s' reached later).2 ⟨0, returned⟩
  exact ⟨s, s', reached, returned, started, later, by rw [finished, exited]; decide, frozen⟩

/-- A `submit` passes its test, the executor is shut down and terminates, and
then the `submit` takes the lock. -/
theorem terminated_stable_counterexample :
    ¬ ∀ (corePoolSize maxPoolSize : SizeT) (s s' : System),
      (machine corePoolSize maxPoolSize).Reachable s →
      (machine corePoolSize maxPoolSize).LaterUnder Machine.anyStep s s' →
      s.terminated = true → s'.terminated = true := by
  intro claimed
  have run : (((machine 1#64 1#64).exec (initial 1#64 1#64)
        [.shutLoad .task, .shutdown, .enterLoop 1, .exit 1]).bind fun s =>
      ((machine 1#64 1#64).exec s [.insert ⟨0, .task⟩ none]).map fun s' =>
          (s.terminated, s'.terminated)) = some (true, false) := by
    decide
  obtain ⟨s, runs, last⟩ := Option.bind_eq_some_iff.mp run
  obtain ⟨s', after, observed⟩ := Option.map_eq_some_iff.mp last
  obtain ⟨terminated, revived⟩ := Prod.mk.inj observed
  have still := claimed 1#64 1#64 s s' (Machine.reachable_of_exec runs)
    (Machine.laterUnder_of_exec after) terminated
  rw [revived] at still
  cases still

end Conc11.Executor
