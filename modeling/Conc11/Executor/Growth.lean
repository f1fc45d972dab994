/-
Module: Conc11.Executor.Growth
Purpose: Whether the pool grows instead of queueing behind busy workers.  `insert_task_locked` takes every
  worker without a task for idle, also those whose task is already in the queue and those that have left
  their main loop, so a burst of inserts can queue more tasks than there are workers to fetch them.
Trusted boundary: none
Main exports: System.freeWorkers, Roomy, InsertRoomy, roomy_insertTask, drain, pool_grows
-/
import Conc11.Executor.WorkerTable

namespace Conc11.Executor

open Library

/-- The thread has no task and has not left its main loop. -/
def WorkerPc.isFree (pc : WorkerPc) : Bool := pc.inMainLoop && !pc.isActive

/-- The number of workers that neither have a task nor are on their way out. -/
def System.freeWorkers (s : System) : Nat := s.workerIds.countP fun w => (s.pc w).isFree

/-- The pool is full, or there is a free worker for each task in the queue. -/
def Roomy (s : System) : Prop :=
  s.exec.maxPoolSize.toNat ≤ s.exec.workers.length ∨ s.exec.taskQueue.length ≤ s.freeWorkers

/-- What a locked insert has to find for the pool to be roomy afterwards: a
full pool, a free worker more than queued tasks, or only active workers and
then an empty queue, or one place left in the pool. -/
def InsertRoomy (s : System) : Action → Prop
  | .insert _ _ =>
      s.exec.maxPoolSize.toNat ≤ s.exec.workers.length ∨
        s.exec.taskQueue.length < s.freeWorkers ∨
        (∀ w ∈ s.workerIds, (s.pc w).isActive = true) ∧
          (s.exec.taskQueue = [] ∨ s.exec.maxPoolSize.toNat ≤ s.exec.workers.length + 1)
  | _ => True

instance (s : System) : Decidable (Roomy s) :=
  inferInstanceAs (Decidable (s.exec.maxPoolSize.toNat ≤ s.exec.workers.length ∨
    s.exec.taskQueue.length ≤ s.freeWorkers))

instance (s : System) : (a : Action) → Decidable (InsertRoomy s a)
  | .insert _ _ =>
      inferInstanceAs (Decidable (s.exec.maxPoolSize.toNat ≤ s.exec.workers.length ∨
        s.exec.taskQueue.length < s.freeWorkers ∨
        (∀ w ∈ s.workerIds, (s.pc w).isActive = true) ∧
          (s.exec.taskQueue = [] ∨ s.exec.maxPoolSize.toNat ≤ s.exec.workers.length + 1)))
  | .shutLoad _ | .shutdown | .isTerminated _ | .awaitCheck _ | .awaitLock _ | .awaitUnblock _
  | .awaitResume _ | .enterLoop _ | .unblock _ | .resume _ _ | .start _ | .finish _ _
  | .afterTask _ | .exit _ | .threadReturn _ => .isTrue trivial

/-! ## Counting the free workers -/

namespace System

variable {s : System}

theorem Tabled.length_workerIds (tabled : s.Tabled) :
    s.workerIds.length = s.exec.workers.length := by
  obtain ⟨dead, table⟩ := tabled
  conv_rhs => rw [table.workers, List.length_map]

/-- An active worker is not free. -/
theorem freeWorkers_of_allActive (allActive : ∀ w ∈ s.workerIds, (s.pc w).isActive = true) :
    s.freeWorkers = 0 := by
  unfold freeWorkers
  rw [List.countP_eq_zero]
  intro w member
  simp [WorkerPc.isFree, allActive w member]

/-- A notification frees nobody and takes nobody away. -/
theorem freeWorkers_notify {w : WorkerId} (blocked : s.pc w = .waiting .blocked) :
    (s.goto w (.waiting .notified)).freeWorkers = s.freeWorkers := by
  unfold freeWorkers
  apply List.countP_congr
  intro v _
  by_cases same : v = w
  · subst same
    simp [goto, blocked, WorkerPc.isFree, WorkerPc.inMainLoop, WorkerPc.isActive]
  · simp [goto, Function.update_of_ne same]

end System

/-- The locked insert leaves the pool roomy exactly when it finds what it has to find. -/
theorem roomy_insertTask {s : System} (tabled : s.Tabled) (task : TaskBase)
    (target : Option WorkerId) :
    Roomy (s.insertTask task) ↔ InsertRoomy s (.insert task target) := by
  have size := tabled.length_workerIds
  have size' := (tabled.insertTask task).length_workerIds
  have queue := taskQueue_insertTask s task
  rcases tabled.insertTask_cases task with
    ⟨allActive, room, unborn, exec, pc, workerIds⟩ | ⟨keeps, exec, pc, workerIds⟩
  · -- the pool grows by a worker that is free
    have none := System.freeWorkers_of_allActive allActive
    have fresh : s.exec.nextId ∉ s.workerIds := by
      rw [tabled.mem_workerIds, unborn]
      decide
    have one : (s.insertTask task).freeWorkers = 1 := by
      have others : s.workerIds.countP (fun w => (Function.update s.pc s.exec.nextId .loopTop w).isFree)
          = s.freeWorkers := countP_update_of_notMem fresh
      unfold System.freeWorkers
      rw [pc, workerIds, List.countP_append, others, none]
      simp [WorkerPc.isFree, WorkerPc.inMainLoop, WorkerPc.isActive]
    have maximum : (s.insertTask task).exec.maxPoolSize = s.exec.maxPoolSize := by rw [exec]; rfl
    rw [workerIds, List.length_append, List.length_singleton] at size'
    unfold Roomy InsertRoomy
    rw [maximum, one, queue, ← size', none, List.length_append, List.length_singleton]
    have empty : s.exec.taskQueue = [] ↔ s.exec.taskQueue.length = 0 :=
      List.length_eq_zero_iff.symm
    rw [and_iff_right allActive, empty]
    omega
  · -- the pool stays as it is
    have same : (s.insertTask task).freeWorkers = s.freeWorkers := by
      unfold System.freeWorkers
      rw [pc, workerIds]
    have maximum : (s.insertTask task).exec.maxPoolSize = s.exec.maxPoolSize := by rw [exec]
    rw [workerIds] at size'
    unfold Roomy InsertRoomy
    rw [maximum, same, queue, ← size', size, List.length_append, List.length_singleton]
    constructor
    · rintro (full | free)
      · exact .inl full
      · exact .inr (.inl (by omega))
    · rintro (full | free | ⟨allActive, _⟩)
      · exact .inl full
      · exact .inr (by omega)
      · left
        by_contra room
        exact keeps ⟨allActive, by omega⟩

/-! ## What a roomy pool is good for -/

/-- The steps of workers on their way to a task.  No task is completed by them. -/
def OnlyFetches (_ : System) : Action → Prop
  | .enterLoop _ | .unblock _ | .resume _ _ => True
  | _ => False

section Drain

variable {corePoolSize maxPoolSize : SizeT} {s : System}

/-- A free worker can fetch the front task. -/
theorem fetch_later {w : WorkerId} {task : TaskBase} {rest : List TaskBase}
    (free : (s.pc w).isFree = true) (queue : s.exec.taskQueue = task :: rest) :
    (machine corePoolSize maxPoolSize).LaterUnder OnlyFetches s (s.fetchFront w task rest) := by
  have resume : ∀ s' : System, s'.exec.taskQueue = task :: rest →
      (s'.pc w = .waiting .notified ∨ s'.pc w = .waiting .awake) →
      step s' (.resume w false) = some (s'.fetchFront w task rest) := by
    intro s' queue' awake
    simp [step, awake, System.fetchTaskLocked, queue']
  cases pc : s.pc w with
  | loopTop =>
      have enters : step s (.enterLoop w) = some (s.fetchFront w task rest) := by
        simp [step, pc, System.enterLoop, System.fetchTaskLocked, queue]
      exact (Machine.LaterUnder.refl s).tail (a := .enterLoop w) trivial enters
  | waiting status =>
      cases status with
      | blocked =>
          have wakes : step s (.unblock w) = some (s.goto w (.waiting .awake)) := by
            simp [step, pc]
          have fetched : (s.goto w (.waiting .awake)).fetchFront w task rest =
              s.fetchFront w task rest := by
            simp [System.goto, System.fetchFront]
          have resumes := resume (s.goto w (.waiting .awake)) queue
            (.inr (by simp [System.goto]))
          rw [fetched] at resumes
          have awake : (machine corePoolSize maxPoolSize).LaterUnder OnlyFetches s
              (s.goto w (.waiting .awake)) :=
            (Machine.LaterUnder.refl s).tail (a := .unblock w) trivial wakes
          exact awake.tail (a := .resume w false) trivial resumes
      | notified =>
          exact (Machine.LaterUnder.refl s).tail (a := .resume w false) trivial
            (resume s queue (.inl pc))
      | awake =>
          exact (Machine.LaterUnder.refl s).tail (a := .resume w false) trivial
            (resume s queue (.inr pc))
  | _ =>
      rw [pc] at free
      cases free

/-- The fetching worker is free no longer. -/
theorem freeWorkers_fetchFront (tabled : s.Tabled) {w : WorkerId} (task : TaskBase)
    (rest : List TaskBase) (free : (s.pc w).isFree = true) :
    (s.fetchFront w task rest).freeWorkers + 1 = s.freeWorkers := by
  have member : w ∈ s.workerIds := by
    rw [tabled.mem_workerIds]
    cases pc : s.pc w <;> simp_all [WorkerPc.isFree, WorkerPc.inTable, WorkerPc.inMainLoop]
  have balance := countP_update (p := WorkerPc.isFree) s.pc (.fetched task) tabled.nodup member
  rw [free] at balance
  exact balance

/-- With a free worker for each queued task the queue can be emptied while
every task that runs goes on running. -/
theorem drain (reachable : (machine corePoolSize maxPoolSize).Reachable s)
    (enough : s.exec.taskQueue.length ≤ s.freeWorkers) :
    ∃ s', (machine corePoolSize maxPoolSize).LaterUnder OnlyFetches s s' ∧
      s'.exec.taskQueue = [] := by
  induction queue : s.exec.taskQueue generalizing s with
  | nil => exact ⟨s, .refl s, queue⟩
  | cons task rest ih =>
      rw [queue, List.length_cons] at enough
      obtain ⟨w, _, free⟩ : ∃ w ∈ s.workerIds, (s.pc w).isFree = true :=
        List.countP_pos_iff.mp (Nat.lt_of_lt_of_le (Nat.succ_pos _) enough)
      have fewer := freeWorkers_fetchFront (tabled_of_reachable reachable) task rest free
      have fetched : (machine corePoolSize maxPoolSize).LaterUnder OnlyFetches s
          (s.fetchFront w task rest) := fetch_later free queue
      have reached := reachable.later (Machine.LaterUnder.mono (fun _ _ _ => trivial) fetched)
      have stillEnough : rest.length ≤ (s.fetchFront w task rest).freeWorkers := by omega
      obtain ⟨s', later, empty⟩ := ih reached stillEnough rfl
      exact ⟨s', fetched.trans later, empty⟩

end Drain

/-! ## Runs -/

/-- In a run whose inserts find what they have to find, every insert leaves
the pool roomy; in any run, whether an insert does is decided by the state it
finds; and a pool that is roomy without being full can hand out every queued
task although no running task is completed. -/
theorem pool_grows (corePoolSize maxPoolSize : SizeT) :
    (∀ s task target s', (machine corePoolSize maxPoolSize).ReachableUnder InsertRoomy s →
      InsertRoomy s (.insert task target) → step s (.insert task target) = some s' → Roomy s') ∧
    (∀ s task target s', (machine corePoolSize maxPoolSize).Reachable s →
      step s (.insert task target) = some s' →
      (Roomy s' ↔ InsertRoomy s (.insert task target))) ∧
    (∀ s, (machine corePoolSize maxPoolSize).Reachable s → Roomy s →
      s.exec.workers.length < s.exec.maxPoolSize.toNat →
      ∃ s', (machine corePoolSize maxPoolSize).LaterUnder OnlyFetches s s' ∧
        s'.exec.taskQueue = []) := by
  have decided : ∀ s task target s', (machine corePoolSize maxPoolSize).Reachable s →
      step s (.insert task target) = some s' →
      (Roomy s' ↔ InsertRoomy s (.insert task target)) := by
    intro s task target s' reachable stepEq
    have atInsert := roomy_insertTask (tabled_of_reachable reachable) task target
    obtain ⟨_, rfl | ⟨w, blocked, rfl⟩⟩ := insert_cases stepEq
    · exact atInsert
    · rw [← atInsert]
      unfold Roomy
      rw [System.freeWorkers_notify blocked]
      rfl
  refine ⟨?_, decided, ?_⟩
  · intro s task target s' reachable allowed stepEq
    exact (decided s task target s' reachable.reachable stepEq).mpr allowed
  · intro s reachable roomy room
    apply drain reachable
    rcases roomy with full | enough
    · omega
    · exact enough

/-- Two inserts into a pool with two core workers find a free worker each. -/
theorem pool_grows_two_workers :
    ∃ s s', (machine 2#64 4#64).ReachableUnder InsertRoomy s ∧
      step s (.insert ⟨1, .task⟩ none) = some s' ∧ s'.exec.taskQueue.length = 2 ∧
      s'.exec.workers.length = 2 ∧ Roomy s' ∧
      ∃ s'', (machine 2#64 4#64).LaterUnder OnlyFetches s' s'' ∧ s''.exec.taskQueue = [] := by
  have run : (((machine 2#64 4#64).execUnder InsertRoomy (initial 2#64 4#64)
        [.shutLoad .task, .shutLoad .task, .insert ⟨0, .task⟩ none]).bind fun s =>
      (step s (.insert ⟨1, .task⟩ none)).map fun s' =>
        (decide (InsertRoomy s (.insert ⟨1, .task⟩ none)), s'.exec.taskQueue.length,
          s'.exec.workers.length, s'.exec.maxPoolSize)) = some (true, 2, 2, 4#64) := by
    decide
  obtain ⟨s, runs, last⟩ := Option.bind_eq_some_iff.mp run
  obtain ⟨s', stepEq, observed⟩ := Option.map_eq_some_iff.mp last
  simp only [Prod.mk.injEq, decide_eq_true_eq] at observed
  obtain ⟨allowed, queue, workers, maximum⟩ := observed
  have reached := Machine.reachableUnder_of_execUnder runs
  have reached' : (machine 2#64 4#64).Reachable s' :=
    reached.reachable.step (a := .insert ⟨1, .task⟩ none) trivial stepEq
  obtain ⟨always, _, drains⟩ := pool_grows 2#64 4#64
  have roomy := always s _ _ s' reached allowed stepEq
  exact ⟨s, s', reached, stepEq, queue, workers, roomy,
    drains s' reached' roomy (by rw [workers, maximum]; decide)⟩

/-- A pool with one core worker and room for 1023 more gets two tasks before
the worker has fetched the first. -/
theorem pool_grows_counterexample :
    ¬ ∀ (corePoolSize maxPoolSize : SizeT) (s : System) (task : TaskBase)
        (target : Option WorkerId) (s' : System),
      (machine corePoolSize maxPoolSize).Reachable s → s.exec.shut = false →
      step s (.insert task target) = some s' → Roomy s' := by
  intro claimed
  have run : (((machine 1#64 1024#64).exec (initial 1#64 1024#64)
        [.shutLoad .task, .shutLoad .task, .insert ⟨0, .task⟩ none]).bind fun s =>
      (step s (.insert ⟨1, .task⟩ none)).map fun s' => (s.exec.shut, decide (Roomy s'))) =
        some (false, false) := by
    decide
  obtain ⟨s, runs, last⟩ := Option.bind_eq_some_iff.mp run
  obtain ⟨s', stepEq, observed⟩ := Option.map_eq_some_iff.mp last
  simp only [Prod.mk.injEq, decide_eq_false_iff_not] at observed
  obtain ⟨running, crowded⟩ := observed
  exact crowded (claimed 1#64 1024#64 s _ _ s' (Machine.reachable_of_exec runs) running stepEq)

end Conc11.Executor
