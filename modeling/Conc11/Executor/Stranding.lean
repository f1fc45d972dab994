/-
Module: Conc11.Executor.Stranding
Purpose: Whether an accepted task can be left behind.  `insert_task_locked` counts a worker that has
  already left its main loop as idle, so an insert that finds only such workers strands its task;
  every other step leaves a worker for the queued tasks.
Trusted boundary: none
Main exports: Attended, InsertAttended, attended_insertTask, attended_transition, queue_attended
-/
import Conc11.Executor.WorkerTable

namespace Conc11.Executor

open Library

/-- Some element of `workers` has not left its main loop. -/
def Attended (s : System) : Prop := ∃ w, some w ∈ s.exec.workers ∧ (s.pc w).inMainLoop = true

/-- A locked insert does not find a non-empty `workers` all of whose elements
have left their main loop. -/
def InsertAttended (s : System) : Action → Prop
  | .insert _ _ => s.exec.workers = [] ∨ Attended s
  | _ => True

instance (s : System) : Decidable (Attended s) :=
  decidable_of_iff (∃ w ∈ s.workerIds, (s.pc w).inMainLoop = true) <| by
    simp [Attended, System.workerIds]

instance (s : System) : (a : Action) → Decidable (InsertAttended s a)
  | .insert _ _ => inferInstanceAs (Decidable (s.exec.workers = [] ∨ Attended s))
  | .shutLoad _ | .shutdown | .isTerminated _ | .awaitCheck _ | .awaitLock _ | .awaitUnblock _
  | .awaitResume _ | .enterLoop _ | .unblock _ | .resume _ _ | .start _ | .finish _ _
  | .afterTask _ | .exit _ | .threadReturn _ => .isTrue trivial

namespace System.Tabled

variable {s : System}

theorem some_mem_workers (tabled : s.Tabled) (w : WorkerId) :
    some w ∈ s.exec.workers ↔ w ∈ s.workerIds := by
  obtain ⟨dead, table⟩ := tabled
  rw [table.workers]
  simp

/-- A worker in its main loop is in `workers`. -/
theorem attended_of_pc (tabled : s.Tabled) {w : WorkerId}
    (inLoop : (s.pc w).inMainLoop = true) : Attended s := by
  refine ⟨w, ?_, inLoop⟩
  rw [tabled.some_mem_workers, tabled.mem_workerIds]
  cases before : s.pc w <;> simp_all [WorkerPc.inTable, WorkerPc.inMainLoop]

end System.Tabled

/-- A step that keeps some loop position of every worker in its loop keeps the
system attended. -/
theorem Attended.of_pc {s s' : System} (attended : Attended s) (tabled' : s'.Tabled)
    (kept : ∀ w, (s.pc w).inMainLoop = true → (s'.pc w).inMainLoop = true) : Attended s' := by
  obtain ⟨w, _, inLoop⟩ := attended
  exact tabled'.attended_of_pc (kept w inLoop)

/-- A thread that moves within its main loop, or outside of it, changes nothing. -/
theorem attended_goto {s : System} {w : WorkerId} {q : WorkerPc}
    (same : q.inMainLoop = (s.pc w).inMainLoop) : Attended (s.goto w q) ↔ Attended s := by
  have kept : ∀ v, (Function.update s.pc w q v).inMainLoop = (s.pc v).inMainLoop := by
    intro v
    by_cases isW : v = w
    · subst isW; rw [Function.update_self, same]
    · rw [Function.update_of_ne isW]
  unfold Attended System.goto
  simp only [kept]

/-- The locked insert leaves its queue attended exactly when it was allowed to run. -/
theorem attended_insertTask {s : System} (tabled : s.Tabled)
    (room : 1 ≤ s.exec.maxPoolSize.toNat) (task : TaskBase) :
    Attended (s.insertTask task) ↔ s.exec.workers = [] ∨ Attended s := by
  have tabled' := tabled.insertTask task
  rcases tabled.insertTask_cases task with
    ⟨allActive, _, _, _, pc, _⟩ | ⟨keeps, _, pc, workerIds⟩
  · constructor
    · intro _
      rcases empty : s.workerIds with _ | ⟨w, rest⟩
      · exact .inl (List.isEmpty_iff.mp (tabled.workers_isEmpty.mpr empty))
      · right
        have active := allActive w (by rw [empty]; exact List.mem_cons_self)
        apply tabled.attended_of_pc (w := w)
        cases before : s.pc w <;> simp_all [WorkerPc.isActive, WorkerPc.inMainLoop]
    · intro _
      apply tabled'.attended_of_pc (w := s.exec.nextId)
      rw [pc, Function.update_self]
      rfl
  · constructor
    · rintro ⟨w, _, inLoop⟩
      rw [pc] at inLoop
      exact .inr (tabled.attended_of_pc inLoop)
    · rintro (empty | attended)
      · -- an empty pool would have grown
        have none := tabled.workers_isEmpty.mp (List.isEmpty_iff.mpr empty)
        refine absurd ⟨by simp [none], ?_⟩ keeps
        rw [none]
        exact room
      · exact attended.of_pc tabled' fun w inLoop => by rwa [pc]

/-- A broadcast takes nobody out of the main loop. -/
theorem attended_shutdown {s : System} (attended : s.exec.taskQueue ≠ [] → Attended s)
    (tabled' : s.shutdown.Tabled) (queued : s.shutdown.exec.taskQueue ≠ []) :
    Attended s.shutdown := by
  rw [s.shutdown_exec] at queued
  refine (attended queued).of_pc tabled' fun w inLoop => ?_
  unfold System.shutdown
  dsimp only
  split
  · exact inLoop
  · change (if (s.pc w).isBlocked then WorkerPc.waiting .notified else s.pc w).inMainLoop = true
    split
    · rfl
    · exact inLoop

/-- The worker that removes itself had left its main loop before. -/
theorem attended_exitSection {s : System} {w : WorkerId} (exiting : s.pc w = .exiting)
    (attended : s.exec.taskQueue ≠ [] → Attended s) (tabled' : (s.exitSection w).Tabled)
    (queued : (s.exitSection w).exec.taskQueue ≠ []) : Attended (s.exitSection w) := by
  rw [s.exitSection_exec] at queued
  refine (attended queued).of_pc tabled' fun v inLoop => ?_
  have other : v ≠ w := by
    rintro rfl
    rw [exiting] at inLoop
    cases inLoop
  rwa [s.exitSection_pc, Function.update_of_ne other]

/-- The other steps: a worker leaves its main loop only when the queue is empty. -/
theorem attended_transition {s s' : System} {a : Action} (tabled : s.Tabled)
    (room : 1 ≤ s.exec.maxPoolSize.toNat)
    (attended : s.exec.taskQueue ≠ [] → Attended s) (allowed : InsertAttended s a)
    (moved : Transition s a s') (queued : s'.exec.taskQueue ≠ []) : Attended s' := by
  have tabled' := tabled.transition moved
  cases moved with
  | shutLoad kind =>
      revert queued
      unfold System.shutLoad
      split <;> exact attended
  | insertUnheard task _ _ => exact (attended_insertTask tabled room task).mpr allowed
  | insertNotify task w _ blocked =>
      have after := (attended_insertTask tabled room task).mpr allowed
      exact (attended_goto (by rw [blocked]; rfl)).mpr after
  | shutdown => exact attended_shutdown attended tabled' queued
  | awaitTest a c otherwise _ => exact attended queued
  | awaitUnblock c _ => exact attended queued
  | fetch a w task rest _ _ _ =>
      apply tabled'.attended_of_pc (w := w)
      change (Function.update s.pc w (.fetched task) w).inMainLoop = true
      rw [Function.update_self]
      rfl
  | leave a w _ _ queue _ => exact absurd queue queued
  | sleep a w _ _ queue _ => exact absurd queue queued
  | unblock w blocked => exact (attended_goto (by rw [blocked]; rfl)).mpr (attended queued)
  | start w task fetched => exact (attended_goto (by rw [fetched]; rfl)).mpr (attended queued)
  | finish w task outcome running =>
      exact (attended_goto (by rw [running]; rfl)).mpr (attended queued)
  | afterTask w task _ _ =>
      apply tabled'.attended_of_pc (w := w)
      change (Function.update
        (fun v => if some v ∈ s.exec.deadWorkers then WorkerPc.joined else s.pc v)
        w WorkerPc.loopTop w).inMainLoop = true
      rw [Function.update_self]
      rfl
  | exit w exiting => exact attended_exitSection exiting attended tabled' queued
  | threadReturn w exited => exact (attended_goto (by rw [exited]; rfl)).mpr (attended queued)

/-! ## Runs -/

/-- In a run whose inserts are attended, a non-empty queue is attended; and in
any run, whether an insert leaves its task attended is decided by the state it
finds. -/
theorem queue_attended (corePoolSize maxPoolSize : SizeT) (room : 1 ≤ maxPoolSize.toNat) :
    (∀ s, (machine corePoolSize maxPoolSize).ReachableUnder InsertAttended s →
      s.exec.taskQueue ≠ [] → Attended s) ∧
    (∀ s task target s', (machine corePoolSize maxPoolSize).Reachable s →
      step s (.insert task target) = some s' →
      s'.exec.taskQueue ≠ [] ∧ (Attended s' ↔ InsertAttended s (.insert task target))) := by
  constructor
  · intro s reachable
    obtain ⟨_, _, noQueue, _⟩ :=
      blank_addCoreWorkers corePoolSize maxPoolSize corePoolSize.toNat
    refine reachable.invariant (motive := fun s => s.exec.taskQueue ≠ [] → Attended s)
      (fun queued => absurd noQueue queued) ?_
    intro s a s' reached attended allowed stepEq queued
    have room' : 1 ≤ s.exec.maxPoolSize.toNat := by
      rw [(sizes_of_reachable reached).2]
      exact room
    exact attended_transition (tabled_of_reachable reached) room' attended allowed
      (transition_of_step stepEq) queued
  · intro s task target s' reached stepEq
    have room' : 1 ≤ s.exec.maxPoolSize.toNat := by
      rw [(sizes_of_reachable reached).2]
      exact room
    have decided := attended_insertTask (tabled_of_reachable reached) room' task
    have queued : (s.insertTask task).exec.taskQueue ≠ [] := by
      rw [taskQueue_insertTask]
      simp
    obtain ⟨_, rfl | ⟨w, blocked, rfl⟩⟩ := insert_cases stepEq
    · exact ⟨queued, decided⟩
    · exact ⟨queued, (attended_goto (by rw [blocked]; rfl)).trans decided⟩

/-- The first task of a single-thread executor is queued for its core worker,
and so is the second. -/
theorem queue_attended_first_tasks :
    ∃ s s', (machine 1#64 1#64).ReachableUnder InsertAttended s ∧
      s.exec.taskQueue = [⟨0, .task⟩] ∧ Attended s ∧
      step s (.insert ⟨1, .task⟩ none) = some s' ∧
      s'.exec.taskQueue = [⟨0, .task⟩, ⟨1, .task⟩] ∧ Attended s' := by
  have run : (((machine 1#64 1#64).execUnder InsertAttended (initial 1#64 1#64)
        [.shutLoad .task, .shutLoad .task, .insert ⟨0, .task⟩ none]).bind fun s =>
      (step s (.insert ⟨1, .task⟩ none)).map fun s' => (s.exec.taskQueue, s'.exec.taskQueue)) =
        some ([⟨0, .task⟩], [⟨0, .task⟩, ⟨1, .task⟩]) := by
    decide
  obtain ⟨s, runs, last⟩ := Option.bind_eq_some_iff.mp run
  obtain ⟨s', stepEq, queues⟩ := Option.map_eq_some_iff.mp last
  obtain ⟨queue, queue'⟩ := Prod.mk.inj queues
  have reached := Machine.reachableUnder_of_execUnder runs
  obtain ⟨always, decided⟩ := queue_attended 1#64 1#64 (by decide)
  have attended : Attended s := always s reached (by rw [queue]; decide)
  exact ⟨s, s', reached, queue, attended, stepEq, queue',
    (decided s _ _ s' reached.reachable stepEq).2.mpr (.inr attended)⟩

/-- A fresh single-worker pool runs one task to its end. -/
def oneTaskRun : List Action :=
  [.shutLoad .task, .insert ⟨0, .task⟩ none, .enterLoop 1, .start 1, .finish 1 .normal,
    .afterTask 1]

/-- The idle worker times out, and a task arrives before it has removed itself. -/
def strandingRun : List Action :=
  oneTaskRun ++
    [.enterLoop 1, .unblock 1, .resume 1 true, .shutLoad .task, .insert ⟨1, .task⟩ none, .exit 1]

theorem queue_attended_counterexample :
    ¬ ∀ corePoolSize maxPoolSize : SizeT, 1 ≤ maxPoolSize.toNat →
      ∀ s, (machine corePoolSize maxPoolSize).Reachable s →
        s.exec.taskQueue ≠ [] → Attended s := by
  intro claimed
  have run : ((machine 0#64 1#64).exec (initial 0#64 1#64) strandingRun).map
      (fun s => (s.exec.taskQueue, s.exec.workers)) = some ([⟨1, .task⟩], []) := by
    decide
  obtain ⟨s, reached, atEnd⟩ := Option.map_eq_some_iff.mp run
  obtain ⟨queue, workers⟩ := Prod.mk.inj atEnd
  obtain ⟨w, member, _⟩ := claimed 0#64 1#64 (by decide) s (Machine.reachable_of_exec reached)
    (by rw [queue]; decide)
  rw [workers] at member
  cases member

end Conc11.Executor
