/-
Module: Conc11.Executor.TerminationNotice
Purpose: No caller of `await_termination` misses the end.  Only `shutdown` of an empty pool and the exit of
  the last worker make `is_terminated_locked()` true, and both notify `wait_cv` before they drop the lock.
Trusted boundary: none
Main exports: terminates_transition, blocked_transition, Noticed, termination_notified
-/
import Conc11.Executor.Termination

namespace Conc11.Executor

open Library ThreadPoolExecutor

variable {s s' : System} {a : Action}

/-- A worker in the table keeps the executor from being terminated. -/
theorem System.Tabled.workers_ne_nil (tabled : s.Tabled) {w : WorkerId}
    (live : (s.pc w).inTable = true) : s.exec.workers ≠ [] := by
  intro empty
  have none := tabled.workers_isEmpty.mp (List.isEmpty_iff.mpr empty)
  have member := (tabled.mem_workerIds w).mpr live
  rw [none] at member
  cases member

theorem terminated_shutdown :
    s.shutdown.terminated = true ↔ s.exec.taskQueue = [] ∧ s.exec.workers = [] := by
  rw [System.terminated_iff, s.shutdown_exec]
  simp

/-- A `shutdown` that leaves the executor terminated takes the branch that notifies `wait_cv`. -/
theorem awaiting_shutdown (terminated : s.shutdown.terminated = true) :
    s.shutdown.awaiting = s.notifyAllWaitCv.awaiting := by
  unfold System.terminated at terminated
  rw [s.shutdown_exec] at terminated
  unfold System.shutdown
  simp only [terminated]
  rfl

/-- So does a worker that leaves the executor terminated. -/
theorem awaiting_exitSection {w : WorkerId} (terminated : (s.exitSection w).terminated = true) :
    (s.exitSection w).awaiting = s.notifyAllWaitCv.awaiting := by
  unfold System.terminated at terminated
  rw [s.exitSection_exec] at terminated
  unfold System.exitSection
  simp only [terminated]
  rfl

/-- A worker that leaves the pool empty was the last one. -/
theorem workers_of_last_exit (tabled : s.Tabled) {w : WorkerId} (exiting : s.pc w = .exiting)
    (empty : (s.exitSection w).exec.workers = []) : s.exec.workers = [some w] := by
  obtain ⟨i, found, workerIds⟩ := tabled.exitSection_workerIds exiting
  have none : (s.exitSection w).workerIds = [] := by simp [System.workerIds, empty]
  have shorter := length_swapRemove found
  rw [← workerIds, none] at shorter
  have only : s.workerIds = [w] := by
    cases ids : s.workerIds with
    | nil =>
        rw [ids] at found
        cases found
    | cons v rest =>
        rw [ids] at found shorter
        have noRest : rest = [] := by simpa using shorter
        subst noRest
        have first : i = 0 := by
          have bound := (List.getElem?_eq_some_iff.mp found).1
          simpa using bound
        rw [first] at found
        exact congrArg (fun u => [u]) (Option.some.inj found)
  obtain ⟨dead, table⟩ := tabled
  rw [table.workers, only]
  rfl

/-- Only two sections make `is_terminated_locked()` true, and both notify. -/
theorem terminates_transition (tabled : s.Tabled) (running : s.terminated = false)
    (moved : Transition s a s') (terminated : s'.terminated = true) :
    ((a = .shutdown ∧ s.exec.taskQueue = [] ∧ s.exec.workers = []) ∨
        ∃ w, a = .exit w ∧ s.exec.shut = true ∧ s.exec.taskQueue = [] ∧
          s.exec.workers = [some w]) ∧
      s'.awaiting = s.notifyAllWaitCv.awaiting := by
  have unchanged : s'.exec = s.exec → False := fun same => by
    unfold System.terminated at running terminated
    rw [same, running] at terminated
    cases terminated
  cases moved with
  | shutLoad kind =>
      apply (unchanged _).elim
      unfold System.shutLoad
      split <;> rfl
  | insertUnheard task _ _ | insertNotify task _ _ _ =>
      have ended : (s.insertTask task).terminated = true := terminated
      rw [s.terminated_insertTask] at ended
      cases ended
  | shutdown =>
      exact ⟨.inl ⟨rfl, terminated_shutdown.mp terminated⟩, awaiting_shutdown terminated⟩
  | fetch a w task rest _ atFetch _ =>
      -- the worker that pops the last task is still in the table
      obtain ⟨_, _, empty⟩ := System.terminated_iff.mp terminated
      exact absurd empty (tabled.workers_ne_nil (WorkerPc.inTable_of_atFetch atFetch))
  | afterTask w task returned _ =>
      -- reaping touches `dead_workers` only
      obtain ⟨_, _, empty⟩ := System.terminated_iff.mp terminated
      exact absurd empty (tabled.workers_ne_nil (w := w) (by rw [returned]; rfl))
  | exit w exiting =>
      obtain ⟨shut, queue, empty⟩ := System.terminated_iff.mp terminated
      refine ⟨.inr ⟨w, rfl, ?_, ?_, workers_of_last_exit tabled exiting empty⟩,
        awaiting_exitSection terminated⟩
      · rwa [s.exitSection_exec] at shut
      · rwa [s.exitSection_exec] at queue
  | awaitTest _ _ _ _ | awaitUnblock _ _ | leave _ _ _ _ _ _ | sleep _ _ _ _ _ _ | unblock _ _
  | start _ _ _ | finish _ _ _ _ | threadReturn _ _ => exact (unchanged rfl).elim

/-- A broadcast on `wait_cv` leaves nobody blocked. -/
theorem notifyAllWaitCv_blocked (c : Nat) : s.notifyAllWaitCv.awaiting c ≠ .waiting .blocked := by
  simp only [System.notifyAllWaitCv]
  split
  next => decide
  next other => exact other

/-- A caller starts to wait only for an executor that is not terminated. -/
theorem blocked_transition (moved : Transition s a s') {c : Nat}
    (blocked : s'.awaiting c = .waiting .blocked) :
    s.awaiting c = .waiting .blocked ∨ s.terminated = false := by
  cases moved with
  | shutLoad kind =>
      revert blocked
      unfold System.shutLoad
      split <;> exact .inl
  | shutdown =>
      revert blocked
      unfold System.shutdown
      dsimp only
      split
      · exact fun blocked => absurd blocked (notifyAllWaitCv_blocked c)
      · exact .inl
  | exit w _ =>
      revert blocked
      unfold System.exitSection
      dsimp only
      split
      · exact fun blocked => absurd blocked (notifyAllWaitCv_blocked c)
      · exact .inl
  | awaitTest _ d otherwise _ =>
      by_cases same : c = d
      · subst same
        right
        cases fails : s.terminated with
        | false => rfl
        | true =>
            have returned : (s.awaitTest c otherwise).awaiting c = .returned := by
              unfold System.terminated at fails
              simp [System.awaitTest, fails]
            rw [returned] at blocked
            cases blocked
      · exact .inl (by simpa [System.awaitTest, Function.update_of_ne same] using blocked)
  | awaitUnblock d _ =>
      left
      by_cases same : c = d
      · subst same
        simp at blocked
      · simpa [Function.update_of_ne same] using blocked
  | _ => exact .inl blocked

/-- Nobody sleeps on `wait_cv` when the executor is terminated. -/
def Noticed (s : System) : Prop := s.terminated = true → ∀ c, s.awaiting c ≠ .waiting .blocked

theorem noticed_transition (tabled : s.Tabled) (noticed : Noticed s) (moved : Transition s a s') :
    Noticed s' := by
  intro terminated c blocked
  cases before : s.terminated with
  | false =>
      rw [(terminates_transition tabled before moved terminated).2] at blocked
      exact notifyAllWaitCv_blocked c blocked
  | true =>
      rcases blocked_transition moved blocked with asleep | running
      · exact noticed before c asleep
      · rw [before] at running
        cases running

/-! ## Runs -/

/-- When `is_terminated_locked()` holds, nobody in `await_termination` is
blocked.  It becomes true only in a `shutdown` of an empty pool without tasks
or in the exit of the last worker after a shutdown, and that step notifies
`wait_cv`. -/
theorem termination_notified (corePoolSize maxPoolSize : SizeT) :
    (∀ s, (machine corePoolSize maxPoolSize).Reachable s → s.terminated = true →
      ∀ c, s.awaiting c ≠ .waiting .blocked) ∧
    (∀ s a s', (machine corePoolSize maxPoolSize).Reachable s → s.terminated = false →
      step s a = some s' → s'.terminated = true →
      ((a = .shutdown ∧ s.exec.taskQueue = [] ∧ s.exec.workers = []) ∨
        ∃ w, a = .exit w ∧ s.exec.shut = true ∧ s.exec.taskQueue = [] ∧
          s.exec.workers = [some w]) ∧
      s'.awaiting = s.notifyAllWaitCv.awaiting) := by
  constructor
  · intro s reachable
    apply reachable.invariant (motive := Noticed)
    · intro _ c asleep
      cases asleep
    · intro _ _ _ reached noticed _ stepEq
      exact noticed_transition (tabled_of_reachable reached) noticed (transition_of_step stepEq)
  · intro s a s' reachable running stepEq terminated
    exact terminates_transition (tabled_of_reachable reachable) running (transition_of_step stepEq)
      terminated

/-- A caller waits for a pool whose only worker is still running a task when
`shutdown` comes; the worker's exit notifies it. -/
theorem termination_notified_last_worker :
    ∃ s s', (machine 1#64 1#64).Reachable s ∧ s.awaiting 0 = .waiting .blocked ∧
      step s (.exit 1) = some s' ∧ s'.terminated = true ∧ s.exec.workers = [some 1] ∧
      s'.awaiting 0 ≠ .waiting .blocked := by
  have run : (((machine 1#64 1#64).exec (initial 1#64 1#64)
        [.shutLoad .task, .insert ⟨0, .task⟩ none, .enterLoop 1, .start 1, .awaitCheck 0,
          .awaitLock 0, .shutdown, .finish 1 .normal, .afterTask 1, .enterLoop 1]).bind fun s =>
      (step s (.exit 1)).map fun s' =>
        (s.awaiting 0, s.terminated, s'.terminated)) =
        some (.waiting .blocked, false, true) := by
    decide
  obtain ⟨s, runs, last⟩ := Option.bind_eq_some_iff.mp run
  obtain ⟨s', stepEq, observed⟩ := Option.map_eq_some_iff.mp last
  simp only [Prod.mk.injEq] at observed
  obtain ⟨blocked, running, terminated⟩ := observed
  have reached := Machine.reachable_of_exec runs
  obtain ⟨noticed, notified⟩ := termination_notified 1#64 1#64
  obtain ⟨cause, _⟩ := notified s _ s' reached running stepEq terminated
  refine ⟨s, s', reached, blocked, stepEq, terminated, ?_, ?_⟩
  · rcases cause with ⟨isShutdown, _⟩ | ⟨w, isExit, _, _, workers⟩
    · cases isShutdown
    · cases isExit
      exact workers
  · exact noticed s' (reached.step (a := .exit 1) trivial stepEq) terminated 0

end Conc11.Executor
