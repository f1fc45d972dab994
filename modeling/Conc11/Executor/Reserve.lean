/-
Module: Conc11.Executor.Reserve
Purpose: What `reserve(max_threads)` in the constructor is for.  However many workers time out and are replaced, no
  more of them wait to be joined than the vector `dead_workers` has been given room for, so the `emplace_back` of
  a leaving worker, in a `noexcept` function, never allocates.
Trusted boundary: none
Main exports: spare, Fits, Fits.transition, fits_of_reachable, dead_workers_fit
-/
import Conc11.Executor.WorkerTable

namespace Conc11.Executor

open Library ThreadPoolExecutor

/-- `max_threads` of the constructor. -/
def ThreadPoolExecutor.maxThreads (e : ThreadPoolExecutor) : Nat :=
  max e.corePoolSize.toNat e.maxPoolSize.toNat

/-- The workers in the table that have no task. -/
def spare (e : ThreadPoolExecutor) (pc : WorkerId → WorkerPc) : Nat :=
  (e.workers.filterMap id).countP fun w => !(pc w).isActive

/-- Until the pool grows, the dead have left their places to nobody.  Once it has
grown, there is a task for every worker without one, so none of them leaves
before somebody has finished a task, and reaps. -/
inductive Fits (e : ThreadPoolExecutor) (pc : WorkerId → WorkerPc) : Prop where
  | settled (places : e.deadWorkers.length + (e.workers.filterMap id).length ≤ e.maxThreads)
  | grown (places : e.deadWorkers.length ≤ e.maxThreads) (stay : ∀ w, pc w ≠ .exiting)
      (busy : spare e pc ≤ e.taskQueue.length)

namespace Fits

variable {e e' : ThreadPoolExecutor} {pc pc' : WorkerId → WorkerPc}

theorem dead_le (fits : Fits e pc) : e.deadWorkers.length ≤ e.maxThreads := by
  cases fits with
  | settled places => exact Nat.le_trans (Nat.le_add_right _ _) places
  | grown places _ _ => exact places

/-- A step that leaves both vectors alone, takes no task out of the queue and lets nobody
leave. -/
theorem mono (fits : Fits e pc) (workers : e'.workers = e.workers)
    (deadWorkers : e'.deadWorkers = e.deadWorkers) (maxThreads : e'.maxThreads = e.maxThreads)
    (queue : e.taskQueue.length ≤ e'.taskQueue.length)
    (stay : ∀ w, pc' w = .exiting → pc w = .exiting)
    (active : ∀ w, (pc' w).isActive = (pc w).isActive) : Fits e' pc' := by
  cases fits with
  | settled places =>
      apply settled
      rw [workers, deadWorkers, maxThreads]
      exact places
  | grown places nobody busy =>
      refine .grown (by rw [deadWorkers, maxThreads]; exact places)
        (fun w leaving => nobody w (stay w leaving)) ?_
      have same : spare e' pc' = spare e pc := by
        simp only [spare, workers, active]
      rw [same]
      exact Nat.le_trans busy queue

/-- One worker moves. -/
theorem goto (fits : Fits e pc) {w : WorkerId} {q : WorkerPc} (stays : q ≠ .exiting)
    (active : q.isActive = (pc w).isActive) : Fits e (Function.update pc w q) := by
  refine fits.mono rfl rfl rfl (Nat.le_refl _) (fun v leaving => ?_) fun v => ?_
  · by_cases same : v = w
    · rw [same, Function.update_self] at leaving
      exact absurd leaving stays
    · rwa [Function.update_of_ne same] at leaving
  · by_cases same : v = w
    · rw [same, Function.update_self, active]
    · rw [Function.update_of_ne same]

end Fits

section

variable {s s' : System} {a : Action} {w : WorkerId}

/-- A worker that looks at the queue has no task. -/
theorem idle_of_atFetch (atFetch : (s.pc w).atFetch = true) : (s.pc w).isActive = false := by
  cases position : s.pc w <;> rw [position] at atFetch <;> first | rfl | cases atFetch

/-- In a pool that has grown a worker that finds the queue empty does not exist. -/
theorem Fits.settled_of_empty (tabled : s.Tabled) (fits : Fits s.exec s.pc)
    (atFetch : (s.pc w).atFetch = true) (queue : s.exec.taskQueue = []) :
    s.exec.deadWorkers.length + (s.exec.workers.filterMap id).length ≤ s.exec.maxThreads := by
  cases fits with
  | settled places => exact places
  | grown _ _ busy =>
      have member : w ∈ s.workerIds :=
        (tabled.mem_workerIds w).mpr (WorkerPc.inTable_of_atFetch atFetch)
      have counted : 0 < spare s.exec s.pc := List.countP_pos_iff.mpr
        ⟨w, member, by rw [idle_of_atFetch atFetch]; rfl⟩
      rw [queue] at busy
      exact absurd busy (Nat.not_le.mpr counted)

/-- A fetched task leaves the queue with a worker that had none. -/
theorem Fits.fetchFront (tabled : s.Tabled) (fits : Fits s.exec s.pc) {task : TaskBase}
    {rest : List TaskBase} (atFetch : (s.pc w).atFetch = true)
    (queue : s.exec.taskQueue = task :: rest) :
    Fits (s.fetchFront w task rest).exec (s.fetchFront w task rest).pc := by
  cases fits with
  | settled places => exact .settled places
  | grown places nobody busy =>
      refine .grown places (fun v => ?_) ?_
      · change Function.update s.pc w (.fetched task) v ≠ .exiting
        by_cases same : v = w
        · rw [same, Function.update_self]
          exact WorkerPc.noConfusion
        · rw [Function.update_of_ne same]
          exact nobody v
      · have member : w ∈ s.workerIds :=
          (tabled.mem_workerIds w).mpr (WorkerPc.inTable_of_atFetch atFetch)
        have balance := countP_update (p := fun pc : WorkerPc => !pc.isActive) s.pc (.fetched task)
          tabled.nodup member
        rw [idle_of_atFetch atFetch] at balance
        change spare s.exec (Function.update s.pc w (.fetched task)) + 1 =
          spare s.exec s.pc at balance
        rw [queue, List.length_cons] at busy
        change spare s.exec (Function.update s.pc w (.fetched task)) ≤ rest.length
        omega

/-- The pool grows only when all its workers have tasks, and then there is a task
for the new one. -/
theorem Fits.insertTask (tabled : s.Tabled) (fits : Fits s.exec s.pc) (task : TaskBase) :
    Fits (s.insertTask task).exec (s.insertTask task).pc := by
  rcases tabled.insertTask_cases task with
    ⟨allActive, _, unborn, exec, pc, workerIds⟩ | ⟨_, exec, pc, _⟩
  · have fresh : s.exec.nextId ∉ s.workerIds := by
      rw [tabled.mem_workerIds, unborn]
      decide
    have one : spare (s.insertTask task).exec (s.insertTask task).pc = 1 := by
      have none : s.workerIds.countP (fun w => !(s.pc w).isActive) = 0 := by
        rw [List.countP_eq_zero]
        intro w member
        simp [allActive w member]
      have others : s.workerIds.countP
          (fun w => !(Function.update s.pc s.exec.nextId .loopTop w).isActive) = 0 :=
        (countP_update_of_notMem (p := fun pc : WorkerPc => !pc.isActive) fresh).trans none
      change (s.insertTask task).workerIds.countP _ = 1
      rw [pc, workerIds, List.countP_append, others]
      simp [WorkerPc.isActive]
    refine .grown ?_ (fun w => ?_) ?_
    · rw [exec]
      exact fits.dead_le
    · rw [pc]
      by_cases same : w = s.exec.nextId
      · rw [same, Function.update_self]
        exact WorkerPc.noConfusion
      · rw [Function.update_of_ne same]
        intro leaving
        have active := allActive w ((tabled.mem_workerIds w).mpr (by rw [leaving]; rfl))
        rw [leaving] at active
        cases active
    · rw [one, taskQueue_insertTask, List.length_append]
      exact Nat.le_add_left 1 _
  · rw [pc]
    refine fits.mono (by rw [exec]) (by rw [exec]) (by rw [exec]; rfl) ?_ (fun _ => id)
      fun _ => rfl
    rw [exec, List.length_append]
    exact Nat.le_add_right _ _

theorem Fits.transition (tabled : s.Tabled) (fits : Fits s.exec s.pc)
    (moved : Transition s a s') : Fits s'.exec s'.pc := by
  have after := tabled.transition moved
  cases moved with
  | shutLoad kind =>
      unfold System.shutLoad
      split
      · exact fits
      · exact fits
  | awaitTest | awaitUnblock => exact fits
  | insertUnheard task _ _ => exact fits.insertTask tabled task
  | insertNotify task w _ blocked =>
      exact (fits.insertTask tabled task).goto WorkerPc.noConfusion (by rw [blocked]; rfl)
  | shutdown =>
      have shut : Fits { s.exec with shut := true } s.pc :=
        fits.mono rfl rfl rfl (Nat.le_refl _) (fun _ => id) fun _ => rfl
      unfold System.shutdown
      dsimp only
      split
      · exact shut
      · refine shut.mono rfl rfl rfl (Nat.le_refl _) (fun w leaving => ?_) fun w => ?_
        · dsimp only [System.notifyAllCv] at leaving
          split at leaving
          · cases leaving
          · exact leaving
        · dsimp only [System.notifyAllCv]
          split
          next blocked => rw [WorkerPc.isBlocked_iff.mp blocked]; rfl
          next => rfl
  | fetch a w task rest _ atFetch queue => exact fits.fetchFront tabled atFetch queue
  | leave a w _ atFetch queue _ | sleep a w _ atFetch queue _ =>
      have places := fits.settled_of_empty tabled atFetch queue
      exact .settled places
  | unblock w blocked => exact fits.goto WorkerPc.noConfusion (by rw [blocked]; rfl)
  | start w task fetched => exact fits.goto WorkerPc.noConfusion (by rw [fetched]; rfl)
  | finish w task outcome running => exact fits.goto WorkerPc.noConfusion (by rw [running]; rfl)
  | threadReturn w exited => exact fits.goto WorkerPc.noConfusion (by rw [exited]; rfl)
  | afterTask w task returned _ =>
      obtain ⟨dead, table⟩ := after
      apply Fits.settled
      change 0 + (s.afterTask w).workerIds.length ≤ _
      rw [Nat.zero_add]
      exact table.size
  | exit w exiting =>
      cases fits with
      | grown _ nobody _ => exact absurd exiting (nobody w)
      | settled places =>
          obtain ⟨dead, table⟩ := tabled
          have removed := table.removeSelf exiting
          have shorter := length_swapRemove (table.found (w := w) (by rw [exiting]; rfl))
          rw [System.exitSection_exec]
          apply Fits.settled
          rw [removed.workers_filterMap, removed.deadWorkers, List.length_map, List.length_append,
            List.length_singleton, Nat.add_assoc, Nat.add_comm 1, shorter]
          rw [table.deadWorkers, List.length_map] at places
          exact places

/-- The constructor leaves no dead workers. -/
theorem fits_initial (corePoolSize maxPoolSize : SizeT) :
    Fits (initial corePoolSize maxPoolSize).exec (initial corePoolSize maxPoolSize).pc := by
  obtain ⟨ids, _, table⟩ :=
    Table.addCoreWorkers corePoolSize maxPoolSize corePoolSize.toNat (Nat.le_refl _)
  apply Fits.settled
  change (ThreadPoolExecutor.construct _ _).deadWorkers.length +
    ((ThreadPoolExecutor.construct _ _).workers.filterMap id).length ≤ _
  unfold ThreadPoolExecutor.construct
  rw [table.deadWorkers, table.workers_filterMap]
  change 0 + ids.length ≤ _
  rw [Nat.zero_add]
  exact table.size

variable {corePoolSize maxPoolSize : SizeT}

theorem fits_of_reachable {ok : System → Action → Prop}
    (reachable : (machine corePoolSize maxPoolSize).ReachableUnder ok s) : Fits s.exec s.pc :=
  reachable.invariant (motive := fun s => Fits s.exec s.pc) (fits_initial _ _)
    fun _ _ _ before fits _ stepEq =>
      fits.transition (tabled_of_reachable before) (transition_of_step stepEq)

/-- The dead workers never exceed the room that the constructor reserves for them, so
a leaving worker appends itself without an allocation, and there are never
more than twice as many unjoined threads. -/
theorem dead_workers_fit (corePoolSize maxPoolSize : SizeT) {s : System}
    (reachable : (machine corePoolSize maxPoolSize).Reachable s) :
    s.exec.deadWorkers.length ≤ max corePoolSize.toNat maxPoolSize.toNat ∧
      (∀ w, s.pc w = .exiting →
        s.exec.deadWorkers.length + 1 ≤ max corePoolSize.toNat maxPoolSize.toNat) ∧
      s.exec.workers.length + s.exec.deadWorkers.length ≤
        2 * max corePoolSize.toNat maxPoolSize.toNat := by
  obtain ⟨core, maximum⟩ := sizes_of_reachable reachable
  have reserve : s.exec.maxThreads = max corePoolSize.toNat maxPoolSize.toNat := by
    rw [ThreadPoolExecutor.maxThreads, core, maximum]
  have fits := fits_of_reachable reachable
  have tabled := tabled_of_reachable reachable
  obtain ⟨dead, table⟩ := tabled
  have size := table.size
  have length : s.exec.workers.length = s.workerIds.length := by
    conv_lhs => rw [table.workers, List.length_map]
  rw [← reserve]
  refine ⟨fits.dead_le, fun w exiting => ?_, ?_⟩
  · cases fits with
    | grown _ nobody _ => exact absurd exiting (nobody w)
    | settled places =>
        have member : w ∈ s.workerIds := (table.inTable w).mpr (by rw [exiting]; rfl)
        have somebody := List.length_pos_of_mem member
        change _ + s.workerIds.length ≤ _ at places
        omega
  · have places := fits.dead_le
    change s.workerIds.length ≤ s.exec.maxThreads at size
    omega

end

/-- In a pool of one thread the worker has timed out and another one has taken its
place: `dead_workers` is full, and both threads are unjoined. -/
theorem dead_workers_fit_replaced :
    ∃ s, (machine 0#64 1#64).Reachable s ∧ s.exec.workers = [some 2] ∧
      s.exec.deadWorkers = [some 1] ∧ s.exec.deadWorkers.length ≤ 1 ∧
      s.exec.workers.length + s.exec.deadWorkers.length ≤ 2 := by
  have run : ((machine 0#64 1#64).exec (initial 0#64 1#64)
        [.shutLoad .task, .insert ⟨0, .task⟩ none, .enterLoop 1, .start 1, .finish 1 .normal,
          .afterTask 1, .enterLoop 1, .unblock 1, .resume 1 true, .exit 1, .shutLoad .task,
          .insert ⟨1, .task⟩ none]).map (fun s => (s.exec.workers, s.exec.deadWorkers)) =
      some ([some 2], [some 1]) := by
    decide
  obtain ⟨s, runs, observed⟩ := Option.map_eq_some_iff.mp run
  obtain ⟨workers, dead⟩ := Prod.mk.inj observed
  have reached := Machine.reachable_of_exec runs
  obtain ⟨room, _, threads⟩ := dead_workers_fit 0#64 1#64 reached
  exact ⟨s, reached, workers, dead, room, threads⟩

end Conc11.Executor
