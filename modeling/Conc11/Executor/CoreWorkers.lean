/-
Module: Conc11.Executor.CoreWorkers
Purpose: Which workers exist.  Every id handed out belongs to a thread that has been started, the core workers
  stay in their main loop until the shutdown, and with the table of workers this makes `workers`,
  `dead_workers`, the stored indices and `active_count` consistent.
Trusted boundary: none
Main exports: Hired, hired_of_reachable, CoreStays, coreStays_of_reachable, Consistent, worker_table
-/
import Conc11.Executor.WorkerTable

namespace Conc11.Executor

open Library ThreadPoolExecutor

variable {corePoolSize maxPoolSize : SizeT} {s s' : System} {a : Action}

/-! ## The started workers -/

/-- The workers with the ids handed out so far have been started, and no others. -/
structure Hired (s : System) : Prop where
  first : 1 ≤ s.exec.nextId
  started : ∀ w : Nat, s.pc w ≠ .unborn ↔ 1 ≤ w ∧ w < s.exec.nextId

/-- A started worker that moves stays a started one. -/
theorem started_update {pc : WorkerId → WorkerPc} {w : WorkerId} {q : WorkerPc}
    (was : pc w ≠ .unborn) (is : q ≠ .unborn) (v : WorkerId) :
    Function.update pc w q v ≠ .unborn ↔ pc v ≠ .unborn := by
  by_cases same : v = w
  · rw [same, Function.update_self]
    exact iff_of_true is was
  · rw [Function.update_of_ne same]

theorem started_shutdown (v : WorkerId) : s.shutdown.pc v ≠ .unborn ↔ s.pc v ≠ .unborn := by
  unfold System.shutdown
  dsimp only
  split
  · exact Iff.rfl
  · change (if (s.pc v).isBlocked then WorkerPc.waiting .notified else s.pc v) ≠ .unborn ↔ _
    split
    next blocked =>
      rw [WorkerPc.isBlocked_iff.mp blocked]
      decide
    next => exact Iff.rfl

namespace Hired

/-- A step that starts no worker. -/
theorem congr (hired : Hired s) (nextId : s'.exec.nextId = s.exec.nextId)
    (same : ∀ w, s'.pc w ≠ .unborn ↔ s.pc w ≠ .unborn) : Hired s' := by
  refine ⟨by rw [nextId]; exact hired.first, fun w => ?_⟩
  rw [same w, nextId]
  exact hired.started w

/-- A step that moves one worker. -/
theorem move (hired : Hired s) {w : WorkerId} {q : WorkerPc} (nextId : s'.exec.nextId = s.exec.nextId)
    (moved : s'.pc = Function.update s.pc w q) (was : s.pc w ≠ .unborn) (is : q ≠ .unborn) :
    Hired s' :=
  hired.congr nextId fun v => by rw [moved]; exact started_update was is v

theorem insertTask (hired : Hired s) (tabled : s.Tabled) (task : TaskBase) :
    Hired (s.insertTask task) := by
  rcases tabled.insertTask_cases task with ⟨_, _, _, exec, pc, _⟩ | ⟨_, exec, pc, _⟩
  · have first := hired.first
    have nextId : (s.insertTask task).exec.nextId = s.exec.nextId + 1 := by
      rw [exec]
      rfl
    refine ⟨by omega, fun w => ?_⟩
    rw [nextId, pc]
    by_cases same : w = s.exec.nextId
    · rw [same, Function.update_self]
      exact iff_of_true (by decide) ⟨first, Nat.lt_succ_self _⟩
    · rw [Function.update_of_ne same, hired.started w]
      have other : w ≠ s.exec.nextId := same
      omega
  · exact hired.congr (by rw [exec]) fun w => by rw [pc]

theorem transition (hired : Hired s) (tabled : s.Tabled) (moved : Transition s a s') :
    Hired s' := by
  cases moved with
  | shutLoad kind =>
      unfold System.shutLoad
      split
      · exact hired
      · exact ⟨hired.first, hired.started⟩
  | insertUnheard task _ _ => exact hired.insertTask tabled task
  | insertNotify task w _ blocked =>
      exact (hired.insertTask tabled task).move rfl rfl (by rw [blocked]; decide) (by decide)
  | shutdown => exact hired.congr (by rw [s.shutdown_exec]) started_shutdown
  | awaitTest _ _ _ _ | awaitUnblock _ _ => exact ⟨hired.first, hired.started⟩
  | fetch _ w task rest _ atFetch _ =>
      exact hired.move rfl rfl (fun unborn => by simp [unborn, WorkerPc.atFetch] at atFetch)
        WorkerPc.noConfusion
  | leave _ w _ atFetch _ _ | sleep _ w _ atFetch _ _ =>
      exact hired.move rfl rfl (fun unborn => by simp [unborn, WorkerPc.atFetch] at atFetch)
        WorkerPc.noConfusion
  | unblock w blocked => exact hired.move rfl rfl (by rw [blocked]; decide) WorkerPc.noConfusion
  | start w task fetched =>
      exact hired.move rfl rfl (by rw [fetched]; exact WorkerPc.noConfusion) WorkerPc.noConfusion
  | finish w task outcome running =>
      exact hired.move rfl rfl (by rw [running]; exact WorkerPc.noConfusion) WorkerPc.noConfusion
  | afterTask w task returned _ =>
      refine hired.congr rfl fun v => ?_
      have seen := tabled.afterTask_pc (fun pc => pc ≠ .unborn)
        (fun p dead => by cases p <;> simp_all [WorkerPc.isDead]) w v
      rw [show ((s.afterTask w).pc v ≠ .unborn) = _ from seen]
      exact started_update (by rw [returned]; exact WorkerPc.noConfusion) (by decide) v
  | exit w exiting =>
      refine hired.move ?_ (s.exitSection_pc w) (by rw [exiting]; decide) (by decide)
      rw [s.exitSection_exec]
      rfl
  | threadReturn w exited => exact hired.move rfl rfl (by rw [exited]; decide) (by decide)

end Hired

/-- The ids of the constructor's workers. -/
theorem addCoreWorkers_spec (corePoolSize maxPoolSize : SizeT) (count : Nat) :
    let e := ThreadPoolExecutor.addCoreWorkers (blank corePoolSize maxPoolSize) count
    e.nextId = count + 1 ∧ (∀ w : Nat, some w ∈ e.workers ↔ 1 ≤ w ∧ w < count + 1) ∧
      ∀ w : Nat, 1 ≤ w → w < count + 1 → (e.heap w).core = true := by
  induction count with
  | zero =>
      refine ⟨rfl, fun w => ?_, fun w positive below => ?_⟩
      · simp [ThreadPoolExecutor.addCoreWorkers, blank]
        omega
      · omega
  | succ count ih =>
      obtain ⟨nextId, members, core⟩ := ih
      set e := ThreadPoolExecutor.addCoreWorkers (blank corePoolSize maxPoolSize) count
      refine ⟨congrArg (· + 1) nextId, fun w => ?_, fun w positive below => ?_⟩
      · change some w ∈ e.workers ++ [some e.nextId] ↔ _
        rw [List.mem_append, members, List.mem_singleton, Option.some.injEq, nextId]
        omega
      · change (Function.update e.heap e.nextId _ w).core = true
        by_cases same : w = e.nextId
        · rw [same, Function.update_self]
        · rw [Function.update_of_ne same]
          rw [nextId] at same
          exact core w positive (Nat.lt_of_le_of_ne (Nat.le_of_lt_succ below) same)

theorem Hired.initial (corePoolSize maxPoolSize : SizeT) :
    Hired (initial corePoolSize maxPoolSize) := by
  obtain ⟨nextId, members, _⟩ := addCoreWorkers_spec corePoolSize maxPoolSize corePoolSize.toNat
  refine ⟨le_of_le_of_eq (Nat.succ_pos _) nextId.symm, fun w => ?_⟩
  change (if some w ∈ (construct corePoolSize maxPoolSize).workers then WorkerPc.loopTop
    else .unborn) ≠ .unborn ↔ 1 ≤ w ∧ w < (construct corePoolSize maxPoolSize).nextId
  unfold construct
  rw [nextId, ← members w]
  split
  next member => exact iff_of_true (by decide) member
  next absent => exact iff_of_false (by simp) absent

theorem hired_of_reachable {ok : System → Action → Prop}
    (reachable : (machine corePoolSize maxPoolSize).ReachableUnder ok s) : Hired s :=
  reachable.invariant (.initial _ _) fun _ _ _ before hired _ stepEq =>
    hired.transition (tabled_of_reachable before) (transition_of_step stepEq)

/-! ## The core workers -/

/-- The constructor's workers are core workers, and until the shutdown every
started core worker is in its main loop. -/
structure CoreStays (s : System) : Prop where
  core : ∀ w : Nat, 1 ≤ w → w ≤ s.exec.corePoolSize.toNat → w < s.exec.nextId ∧
    (s.exec.heap w).core = true
  stays : s.exec.shut = false → ∀ w, (s.exec.heap w).core = true → s.pc w ≠ .unborn →
    (s.pc w).inMainLoop = true

/-- Retiring writes an index to a worker and nothing else. -/
theorem core_removeSelfLocked (e : ThreadPoolExecutor) (self w : WorkerId) :
    ((e.removeSelfLocked self).heap w).core = (e.heap w).core := by
  unfold removeSelfLocked
  dsimp only
  split
  next v _ =>
    by_cases same : w = v
    · rw [same, Function.update_self]
    · rw [Function.update_of_ne same]
  next => rfl

namespace CoreStays

/-- A step that keeps the flags and moves one worker, which ends up in its main
loop unless it may leave. -/
theorem move (kept : CoreStays s) {w : WorkerId} {q : WorkerPc}
    (sizes : s'.exec.corePoolSize = s.exec.corePoolSize) (nextId : s'.exec.nextId = s.exec.nextId)
    (core : ∀ v, (s'.exec.heap v).core = (s.exec.heap v).core)
    (shut : s'.exec.shut = s.exec.shut) (moved : s'.pc = Function.update s.pc w q)
    (inside : q.inMainLoop = true ∨ s.exec.shut = true ∨ (s.exec.heap w).core = false) :
    CoreStays s' := by
  refine ⟨fun v positive below => ?_, fun notShut v isCore started => ?_⟩
  · rw [nextId, core v]
    exact kept.core v positive (sizes ▸ below)
  · rw [moved] at started ⊢
    rw [core v] at isCore
    rw [shut] at notShut
    by_cases same : v = w
    · subst same
      rw [Function.update_self]
      rcases inside with loops | isShut | notCore
      · exact loops
      · rw [notShut] at isShut
        cases isShut
      · rw [isCore] at notCore
        cases notCore
    · rw [Function.update_of_ne same] at started ⊢
      exact kept.stays notShut v isCore started

/-- A core worker that has left its main loop has seen the shutdown. -/
theorem left (kept : CoreStays s) {w : WorkerId} (started : s.pc w ≠ .unborn)
    (outside : (s.pc w).inMainLoop = false) :
    s.exec.shut = true ∨ (s.exec.heap w).core = false := by
  by_contra neither
  rw [not_or, Bool.not_eq_true, Bool.not_eq_false] at neither
  rw [kept.stays neither.1 w neither.2 started] at outside
  cases outside

theorem insertTask (kept : CoreStays s) (tabled : s.Tabled) (task : TaskBase) :
    CoreStays (s.insertTask task) := by
  rcases tabled.insertTask_cases task with ⟨_, _, _, exec, pc, _⟩ | ⟨_, exec, pc, _⟩
  · have heap : (s.insertTask task).exec.heap = Function.update s.exec.heap s.exec.nextId
        { core := false, workerIndex := s.exec.workers.length } := by
      rw [exec]
      rfl
    refine ⟨fun w positive below => ?_, fun notShut w isCore started => ?_⟩
    · have old := kept.core w positive (by rwa [exec] at below)
      have other : w ≠ s.exec.nextId := Nat.ne_of_lt old.1
      rw [heap, Function.update_of_ne other, exec]
      exact ⟨Nat.lt_succ_of_lt old.1, old.2⟩
    · rw [heap] at isCore
      rw [pc] at started ⊢
      rw [exec] at notShut
      by_cases same : w = s.exec.nextId
      · rw [same, Function.update_self]
        rfl
      · rw [Function.update_of_ne same] at isCore started ⊢
        exact kept.stays notShut w isCore started
  · refine ⟨fun w positive below => ?_, fun notShut w isCore started => ?_⟩
    · rw [exec] at below ⊢
      exact kept.core w positive below
    · rw [exec] at notShut isCore
      rw [pc] at started ⊢
      exact kept.stays notShut w isCore started

theorem transition (kept : CoreStays s) (tabled : s.Tabled) (moved : Transition s a s') :
    CoreStays s' := by
  cases moved with
  | shutLoad kind =>
      unfold System.shutLoad
      split
      · exact kept
      · exact ⟨kept.core, kept.stays⟩
  | insertUnheard task _ _ => exact kept.insertTask tabled task
  | insertNotify task w _ _ =>
      exact (kept.insertTask tabled task).move rfl rfl (fun _ => rfl) rfl rfl (.inl rfl)
  | shutdown =>
      refine ⟨?_, fun notShut => ?_⟩
      · rw [s.shutdown_exec]
        exact kept.core
      · rw [s.shutdown_exec] at notShut
        cases notShut
  | awaitTest _ _ _ _ | awaitUnblock _ _ => exact ⟨kept.core, kept.stays⟩
  | fetch _ _ _ _ _ _ _ | sleep _ _ _ _ _ _ | unblock _ _ | start _ _ _ | finish _ _ _ _ =>
      exact kept.move rfl rfl (fun _ => rfl) rfl rfl (.inl rfl)
  | leave _ w _ _ _ cause => exact kept.move rfl rfl (fun _ => rfl) rfl rfl (.inr cause)
  | afterTask w task returned _ =>
      refine ⟨kept.core, fun notShut v isCore started => ?_⟩
      have seen := tabled.afterTask_pc WorkerPc.inMainLoop
        (fun p dead => by cases p <;> simp_all [WorkerPc.isDead, WorkerPc.inMainLoop]) w v
      have wasStarted := tabled.afterTask_pc (fun pc => pc ≠ .unborn)
        (fun p dead => by cases p <;> simp_all [WorkerPc.isDead]) w v
      rw [show ((s.afterTask w).pc v ≠ .unborn) = _ from wasStarted] at started
      rw [seen]
      by_cases same : v = w
      · rw [same, Function.update_self]
        rfl
      · rw [Function.update_of_ne same] at started ⊢
        exact kept.stays notShut v isCore started
  | exit w exiting =>
      have cause := kept.left (by rw [exiting]; decide) (by rw [exiting]; rfl)
      have exec := s.exitSection_exec w
      refine kept.move ?_ ?_ (fun v => ?_) ?_ (s.exitSection_pc w) (.inr cause)
      · rw [exec]
        rfl
      · rw [exec]
        rfl
      · rw [exec]
        exact core_removeSelfLocked s.exec w v
      · rw [exec]
        rfl
  | threadReturn w exited =>
      have cause := kept.left (by rw [exited]; decide) (by rw [exited]; rfl)
      exact kept.move rfl rfl (fun _ => rfl) rfl rfl (.inr cause)

theorem initial (corePoolSize maxPoolSize : SizeT) :
    CoreStays (initial corePoolSize maxPoolSize) := by
  obtain ⟨nextId, members, core⟩ := addCoreWorkers_spec corePoolSize maxPoolSize corePoolSize.toNat
  obtain ⟨sizes, _⟩ := blank_addCoreWorkers corePoolSize maxPoolSize corePoolSize.toNat
  refine ⟨fun w positive below => ?_, fun _ w _ started => ?_⟩
  · change w ≤ (construct corePoolSize maxPoolSize).corePoolSize.toNat at below
    change w < (construct corePoolSize maxPoolSize).nextId ∧
      ((construct corePoolSize maxPoolSize).heap w).core = true
    unfold construct at below ⊢
    rw [sizes] at below
    rw [nextId]
    exact ⟨Nat.lt_succ_of_le below, core w positive (Nat.lt_succ_of_le below)⟩
  · change (if some w ∈ (construct corePoolSize maxPoolSize).workers then WorkerPc.loopTop
      else .unborn) ≠ .unborn at started
    change (if some w ∈ (construct corePoolSize maxPoolSize).workers then WorkerPc.loopTop
      else .unborn).inMainLoop = true
    split at started
    next member => rw [if_pos member]; rfl
    next => exact absurd rfl started

end CoreStays

theorem coreStays_of_reachable {ok : System → Action → Prop}
    (reachable : (machine corePoolSize maxPoolSize).ReachableUnder ok s) : CoreStays s :=
  reachable.invariant (.initial _ _) fun _ _ _ before kept _ stepEq =>
    kept.transition (tabled_of_reachable before) (transition_of_step stepEq)

/-! ## The table -/

/-- The members of the executor agree with each other and with the threads. -/
structure Consistent (s : System) : Prop where
  index : ∀ i w, s.exec.workers[i]? = some (some w) → (s.exec.heap w).workerIndex = i
  disjoint : (s.exec.workers ++ s.exec.deadWorkers).Nodup
  nonNull : none ∉ s.exec.workers ++ s.exec.deadWorkers
  /-- `remove_self_locked` moves its caller and nobody else. -/
  retires : ∀ w, s.pc w = .exiting →
    (some w :: (s.exec.removeSelfLocked w).workers).Perm s.exec.workers ∧
      (s.exec.removeSelfLocked w).deadWorkers = s.exec.deadWorkers ++ [some w]
  atMost : s.exec.workers.length ≤ max s.exec.corePoolSize.toNat s.exec.maxPoolSize.toNat
  coreInside : s.exec.shut = false → ∀ w, (s.exec.heap w).core = true → s.pc w ≠ .unborn →
    some w ∈ s.exec.workers ∧ (s.pc w).inMainLoop = true
  atLeast : s.exec.shut = false → s.exec.corePoolSize.toNat ≤ s.exec.workers.length
  activeInside : ∀ w, (s.pc w).isActive = true → some w ∈ s.exec.workers
  active : s.exec.activeCount.toNat =
    s.exec.workers.countP fun worker => worker.any fun w => (s.pc w).isActive
  activeLe : s.exec.activeCount.toNat ≤ s.exec.workers.length
  /-- The subtraction of `insert_task_locked` does not wrap. -/
  idle : (s.exec.workersSize - s.exec.activeCount).toNat =
    s.exec.workers.length - s.exec.activeCount.toNat

/-- Until the shutdown the pool has its core workers. -/
theorem corePoolSize_le (tabled : s.Tabled) (hired : Hired s) (kept : CoreStays s)
    (notShut : s.exec.shut = false) : s.exec.corePoolSize.toNat ≤ s.workerIds.length := by
  have present : List.range' 1 s.exec.corePoolSize.toNat ⊆ s.workerIds := by
    intro w isCore
    obtain ⟨positive, below⟩ := List.mem_range'_1.mp isCore
    obtain ⟨started, core⟩ := kept.core w positive (by omega)
    rw [tabled.mem_workerIds]
    have inside := kept.stays notShut w core ((hired.started w).mpr ⟨positive, started⟩)
    cases pc : s.pc w <;> simp_all [WorkerPc.inTable, WorkerPc.inMainLoop]
  have shorter := (List.nodup_range' (s := 1) (n := s.exec.corePoolSize.toNat)).subperm present
  simpa using shorter.length_le

theorem consistent (tabled : s.Tabled) (hired : Hired s) (kept : CoreStays s) :
    Consistent s := by
  have enough := corePoolSize_le tabled hired kept
  obtain ⟨dead, table⟩ := tabled
  have length : s.exec.workers.length = s.workerIds.length := by
    conv_lhs => rw [table.workers, List.length_map]
  have inWorkers : ∀ w, w ∈ s.workerIds → some w ∈ s.exec.workers := by
    intro w member
    rw [table.workers]
    exact List.mem_map_of_mem member
  refine ⟨fun i w found => ?_, ?_, ?_, fun w exiting => ?_, ?_, fun notShut w isCore started => ?_,
    fun notShut => ?_, fun w active => ?_, ?_, ?_, ?_⟩
  · rw [table.workers, List.getElem?_map, Option.map_eq_some_iff] at found
    obtain ⟨v, isAt, same⟩ := found
    cases same
    exact table.index isAt
  · rw [table.workers, table.deadWorkers, ← List.map_append]
    refine (List.nodup_append.mpr ⟨table.nodup, table.deadNodup, ?_⟩).map (Option.some_injective _)
    rintro w inTable v isDead rfl
    have live := (table.inTable w).mp inTable
    have notLive := (table.isDead w).mp isDead
    cases pc : s.pc w <;> simp_all [WorkerPc.inTable, WorkerPc.inMainLoop, WorkerPc.isDead]
  · rw [table.workers, table.deadWorkers, ← List.map_append]
    simp
  · have live : (s.pc w).inTable = true := by rw [exiting]; rfl
    obtain ⟨b, _, removed⟩ := table.removeSelfLocked_eq live
    rw [removed]
    refine ⟨?_, ?_⟩
    · conv_rhs => rw [table.workers]
      exact (swapRemove_perm (table.found live)).map some
    · change (dead ++ [w]).map some = s.exec.deadWorkers ++ [some w]
      rw [List.map_append, table.deadWorkers]
      rfl
  · rw [length]
    exact table.size
  · have inside := kept.stays notShut w isCore started
    refine ⟨inWorkers w ((table.inTable w).mpr ?_), inside⟩
    cases pc : s.pc w <;> simp_all [WorkerPc.inTable, WorkerPc.inMainLoop]
  · rw [length]
    exact enough notShut
  · exact inWorkers w (table.mem_of_isActive active)
  · rw [table.active]
    conv_rhs => rw [table.workers, List.countP_map]
    rfl
  · rw [length]
    exact table.active_le
  · rw [length]
    exact table.toNat_idleWorkers

/-- In every reachable state the worker table is consistent. -/
theorem worker_table (reachable : (machine corePoolSize maxPoolSize).Reachable s) :
    Consistent s ∧ s.exec.corePoolSize = corePoolSize ∧ s.exec.maxPoolSize = maxPoolSize :=
  ⟨consistent (tabled_of_reachable reachable) (hired_of_reachable reachable)
    (coreStays_of_reachable reachable), sizes_of_reachable reachable⟩

/-- The pool has grown by two workers behind its core worker; one of them has
run its task and leaves first, and the last one in the table takes its place. -/
theorem worker_table_grown_pool :
    ∃ s, (machine 1#64 3#64).Reachable s ∧ s.pc 2 = .exiting ∧
      s.exec.workers = [some 1, some 2, some 3] ∧ s.exec.activeCount = 2#64 ∧
      (s.exec.removeSelfLocked 2).deadWorkers = s.exec.deadWorkers ++ [some 2] := by
  have run : ((machine 1#64 3#64).exec (initial 1#64 3#64)
        [.shutLoad .task, .insert ⟨0, .task⟩ none, .enterLoop 1, .shutLoad .task,
          .insert ⟨1, .task⟩ none, .enterLoop 2, .shutLoad .untrackable,
          .insert ⟨2, .untrackable⟩ none, .enterLoop 3, .start 2, .finish 2 .exception,
          .afterTask 2, .enterLoop 2, .unblock 2, .resume 2 true]).map
        (fun s => (s.pc 2, s.exec.workers, s.exec.activeCount)) =
      some (.exiting, [some 1, some 2, some 3], 2#64) := by
    decide
  obtain ⟨s, runs, observed⟩ := Option.map_eq_some_iff.mp run
  simp only [Prod.mk.injEq] at observed
  obtain ⟨exiting, workers, active⟩ := observed
  have reached := Machine.reachable_of_exec runs
  exact ⟨s, reached, exiting, workers, active,
    ((worker_table reached).1.retires 2 exiting).2⟩

end Conc11.Executor
