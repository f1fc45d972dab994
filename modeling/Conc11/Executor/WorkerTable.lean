/-
Module: Conc11.Executor.WorkerTable
Purpose: The worker table of `ThreadPoolExecutor`: `workers` and `dead_workers` hold exactly the live and
  the unreaped workers, each once and without nulls, every stored index is right, and `active_count`
  counts the workers that have a task.
Trusted boundary: none
Main exports: Table, System.Tabled, System.Tabled.transition, tabled_of_reachable, sizes_of_reachable
-/
import Conc11.Library.SwapRemove
import Conc11.Executor.Model

namespace Conc11.Executor

open Library ThreadPoolExecutor

/-- Swapping a position of a null-free vector with its last one. -/
theorem swapAt_last {init : List WorkerId} {b w : WorkerId} {i : Nat}
    (found : (init ++ [b])[i]? = some w) :
    swapAt ((init ++ [b]).map some) i init.length =
      (swapRemove (init ++ [b]) i).map some ++ [some w] := by
  have last : ((init ++ [b]).map some)[init.length]? = some (some b) := by simp
  have mine : ((init ++ [b]).map some)[i]? = some (some w) := by
    rw [List.getElem?_map, found]
    rfl
  rw [swapAt, last, mine, swapRemove_concat]
  rcases Nat.lt_trichotomy i init.length with inside | atEnd | outside
  · simp [inside, List.map_set]
  · subst atEnd
    have same : (init.map some).set init.length (some b) = init.map some :=
      List.set_eq_of_length_le (by simp)
    simp [same]
  · rw [List.getElem?_eq_none (by simp; omega)] at found
    cases found

/-- `ids` and `dead` are the contents of `workers` and `dead_workers`. -/
structure Table (e : ThreadPoolExecutor) (pc : WorkerId → WorkerPc)
    (ids dead : List WorkerId) : Prop where
  workers : e.workers = ids.map some
  deadWorkers : e.deadWorkers = dead.map some
  nodup : ids.Nodup
  deadNodup : dead.Nodup
  index : ∀ {i w}, ids[i]? = some w → (e.heap w).workerIndex = i
  inTable : ∀ w, w ∈ ids ↔ (pc w).inTable = true
  isDead : ∀ w, w ∈ dead ↔ (pc w).isDead = true
  unborn : ∀ w, e.nextId ≤ w → pc w = .unborn
  active : e.activeCount.toNat = ids.countP fun w => (pc w).isActive
  size : ids.length ≤ max e.corePoolSize.toNat e.maxPoolSize.toNat

namespace Table

variable {e : ThreadPoolExecutor} {pc : WorkerId → WorkerPc} {ids dead : List WorkerId}

theorem size_lt (table : Table e pc ids dead) : ids.length < 2 ^ 64 := by
  have core := e.corePoolSize.isLt
  have maximum := e.maxPoolSize.isLt
  have size := table.size
  omega

/-- `workers.size()` does not wrap. -/
theorem toNat_workersSize (table : Table e pc ids dead) : e.workersSize.toNat = ids.length := by
  rw [workersSize, table.workers, List.length_map, BitVec.toNat_ofNat,
    Nat.mod_eq_of_lt table.size_lt]

theorem active_le (table : Table e pc ids dead) : e.activeCount.toNat ≤ ids.length := by
  rw [table.active]
  exact List.countP_le_length

/-- A live worker is found at the index it stores. -/
theorem found (table : Table e pc ids dead) {w : WorkerId} (live : (pc w).inTable = true) :
    ids[(e.heap w).workerIndex]? = some w := by
  obtain ⟨i, bound, isAt⟩ := List.getElem_of_mem ((table.inTable w).mpr live)
  have atIndex : ids[i]? = some w := List.getElem?_eq_some_iff.mpr ⟨bound, isAt⟩
  rw [table.index atIndex]
  exact atIndex

/-- A worker that has a task is in the table. -/
theorem mem_of_isActive (table : Table e pc ids dead) {w : WorkerId}
    (active : (pc w).isActive = true) : w ∈ ids := by
  rw [table.inTable]
  cases before : pc w <;> simp_all [WorkerPc.isActive, WorkerPc.inTable, WorkerPc.inMainLoop]

/-! ## Updates of one worker's position -/

/-- A worker moves within its class of positions, and `active_count` follows.
The queue and the shutdown flag play no part in the table. -/
theorem move (table : Table e pc ids dead) (w : WorkerId) (q : WorkerPc)
    {e' : ThreadPoolExecutor} (workers : e'.workers = e.workers)
    (deadWorkers : e'.deadWorkers = e.deadWorkers) (heap : e'.heap = e.heap)
    (nextId : e'.nextId = e.nextId) (corePoolSize : e'.corePoolSize = e.corePoolSize)
    (maxPoolSize : e'.maxPoolSize = e.maxPoolSize)
    (sameTable : q.inTable = (pc w).inTable) (sameDead : q.isDead = (pc w).isDead)
    (born : pc w ≠ .unborn)
    (balance : e'.activeCount.toNat + (pc w).isActive.toNat =
      e.activeCount.toNat + q.isActive.toNat) :
    Table e' (Function.update pc w q) ids dead := by
  refine ⟨workers.trans table.workers, deadWorkers.trans table.deadWorkers, table.nodup,
    table.deadNodup, by rw [heap]; exact table.index, fun v => ?_, fun v => ?_,
    fun v bound => ?_, ?_, by rw [corePoolSize, maxPoolSize]; exact table.size⟩
  · rw [table.inTable]
    by_cases same : v = w
    · subst same; rw [Function.update_self, sameTable]
    · rw [Function.update_of_ne same]
  · rw [table.isDead]
    by_cases same : v = w
    · subst same; rw [Function.update_self, sameDead]
    · rw [Function.update_of_ne same]
  · have before := table.unborn v (nextId ▸ bound)
    have ne : v ≠ w := by
      rintro rfl
      exact born before
    rw [Function.update_of_ne ne]
    exact before
  · rw [table.active] at balance
    by_cases member : w ∈ ids
    · have moved := countP_update (p := WorkerPc.isActive) pc q table.nodup member
      omega
    · have before : (pc w).isActive = false := by
        rw [← Bool.not_eq_true]
        exact fun active => member (table.mem_of_isActive active)
      have after : q.isActive = false := by
        have out : (pc w).inTable = false := by
          rw [← Bool.not_eq_true, ← table.inTable]
          exact member
        rw [out] at sameTable
        cases q <;> simp_all [WorkerPc.isActive, WorkerPc.inTable, WorkerPc.inMainLoop]
      rw [countP_update_of_notMem (p := WorkerPc.isActive) member]
      rw [before, after] at balance
      simpa using balance

/-- A move that leaves the executor object alone. -/
theorem goto (table : Table e pc ids dead) (w : WorkerId) (q : WorkerPc)
    (sameTable : q.inTable = (pc w).inTable) (sameDead : q.isDead = (pc w).isDead)
    (sameActive : q.isActive = (pc w).isActive) (born : pc w ≠ .unborn) :
    Table e (Function.update pc w q) ids dead :=
  table.move w q rfl rfl rfl rfl rfl rfl sameTable sameDead born (by rw [sameActive])

/-- A fetch makes its worker active. -/
theorem fetchFront (table : Table e pc ids dead) {w : WorkerId} (task : TaskBase)
    (rest : List TaskBase) (atFetch : (pc w).atFetch = true) :
    Table { e with taskQueue := rest, activeCount := e.activeCount + 1#64 }
      (Function.update pc w (.fetched task)) ids dead := by
  have live : (pc w).inTable = true := WorkerPc.inTable_of_atFetch atFetch
  have idle : (pc w).isActive = false := by
    cases before : pc w <;> simp_all [WorkerPc.atFetch, WorkerPc.isActive]
  have notDead : (pc w).isDead = false := by
    cases before : pc w <;> simp_all [WorkerPc.atFetch, WorkerPc.isDead]
  refine table.move w _ rfl rfl rfl rfl rfl rfl live.symm notDead.symm ?_ ?_
  · intro unborn
    rw [unborn] at live
    cases live
  · -- an idle worker is in the table, so the count is below the table's size
    have room : e.activeCount.toNat + 1 ≤ ids.length := by
      have balance := countP_update (p := WorkerPc.isActive) pc (.fetched task)
        table.nodup ((table.inTable w).mpr live)
      have bound : ids.countP (fun v => (Function.update pc w (.fetched task) v).isActive) ≤
          ids.length := List.countP_le_length
      have becomes : (WorkerPc.fetched task).isActive = true := rfl
      rw [idle, becomes, Bool.toNat_false, Bool.toNat_true, ← table.active] at balance
      omega
    have small := table.size_lt
    have becomes : (WorkerPc.fetched task).isActive = true := rfl
    rw [idle, becomes, Bool.toNat_false, Bool.toNat_true, BitVec.toNat_add, BitVec.toNat_ofNat]
    omega

/-- A worker that looked at the queue and got nothing leaves the loop or goes to sleep. -/
theorem leaveFetch (table : Table e pc ids dead) {w : WorkerId} (q : WorkerPc)
    (atFetch : (pc w).atFetch = true) (isIn : q.inTable = true) (alive : q.isDead = false)
    (idle : q.isActive = false) : Table e (Function.update pc w q) ids dead := by
  cases before : pc w with
  | loopTop | waiting status =>
      exact table.goto w q (by rw [isIn, before]; rfl) (by rw [alive, before]; rfl)
        (by rw [idle, before]; rfl) (by rw [before]; nofun)
  | _ => simp [before, WorkerPc.atFetch] at atFetch

/-- A broadcast on `cv` moves nobody between classes. -/
theorem notifyAll (table : Table e pc ids dead) :
    Table e (fun w => if (pc w).isBlocked then .waiting .notified else pc w) ids dead := by
  have same : ∀ (f : WorkerPc → Bool), f (.waiting .notified) = f (.waiting .blocked) →
      ∀ w, f (if (pc w).isBlocked then .waiting .notified else pc w) = f (pc w) := by
    intro f agree w
    split
    next blocked => rw [WorkerPc.isBlocked_iff.mp blocked, agree]
    next => rfl
  refine ⟨table.workers, table.deadWorkers, table.nodup, table.deadNodup, table.index,
    fun w => ?_, fun w => ?_, fun w bound => ?_, ?_, table.size⟩
  · rw [table.inTable, same WorkerPc.inTable rfl]
  · rw [table.isDead, same WorkerPc.isDead rfl]
  · rw [table.unborn w bound]; rfl
  · rw [table.active]
    exact List.countP_congr fun w _ => by rw [same WorkerPc.isActive rfl]

/-! ## New workers -/

/-- A new worker takes the next index at the end. -/
theorem addWorker (table : Table e pc ids dead) (core : Bool)
    (room : ids.length < max e.corePoolSize.toNat e.maxPoolSize.toNat) :
    Table (e.addWorkerLocked core) (Function.update pc e.nextId .loopTop)
      (ids ++ [e.nextId]) dead := by
  have before := table.unborn e.nextId (Nat.le_refl _)
  have fresh : e.nextId ∉ ids := by
    rw [table.inTable, before]
    decide
  have freshDead : e.nextId ∉ dead := by
    rw [table.isDead, before]
    decide
  refine ⟨?_, table.deadWorkers, ?_, table.deadNodup, fun {i w} found => ?_, fun v => ?_,
    fun v => ?_, fun v bound => ?_, ?_, ?_⟩
  · rw [List.map_append, ← table.workers]
    rfl
  · rw [List.nodup_append]
    refine ⟨table.nodup, by simp, fun v member u last => ?_⟩
    rw [List.mem_singleton.mp last]
    exact fun same => fresh (same ▸ member)
  · change (Function.update e.heap e.nextId _ w).workerIndex = i
    rcases Nat.lt_or_ge i ids.length with inside | atEnd
    · rw [List.getElem?_append_left inside] at found
      have ne : w ≠ e.nextId := fun same => fresh (same ▸ List.mem_of_getElem? found)
      rw [Function.update_of_ne ne]
      exact table.index found
    · rw [List.getElem?_append_right atEnd] at found
      obtain ⟨position, rfl⟩ : i - ids.length = 0 ∧ e.nextId = w := by
        simpa [List.getElem?_singleton] using found
      rw [Function.update_self, table.workers, List.length_map]
      change ids.length = i
      omega
  · rw [List.mem_append, List.mem_singleton, table.inTable]
    by_cases same : v = e.nextId
    · subst same; rw [Function.update_self]; simp [WorkerPc.inTable, WorkerPc.inMainLoop]
    · rw [Function.update_of_ne same]; simp [same]
  · by_cases same : v = e.nextId
    · subst same; rw [Function.update_self]; simp [WorkerPc.isDead, freshDead]
    · rw [Function.update_of_ne same, table.isDead]
  · have above : e.nextId + 1 ≤ v := bound
    have ne : v ≠ e.nextId := Nat.ne_of_gt above
    rw [Function.update_of_ne ne]
    exact table.unborn v (Nat.le_of_succ_le above)
  · have last : [e.nextId].countP
        (fun u => (Function.update pc e.nextId .loopTop u).isActive) = 0 := by
      simp [WorkerPc.isActive]
    rw [List.countP_append, last, countP_update_of_notMem (p := WorkerPc.isActive) fresh]
    exact table.active
  · rw [List.length_append, List.length_singleton]
    exact room

/-- The idle count of `insert_task_locked` is the number of idle workers: the
unsigned subtraction does not wrap. -/
theorem toNat_idleWorkers (table : Table e pc ids dead) :
    (e.workersSize - e.activeCount).toNat = ids.length - e.activeCount.toNat := by
  have le := table.active_le
  have small := table.size_lt
  rw [BitVec.toNat_sub, table.toNat_workersSize]
  omega

/-- `insert_task_locked` adds a worker exactly when no worker is idle and the
pool may grow. -/
theorem insertTaskLocked_eq (table : Table e pc ids dead) (task : TaskBase) :
    e.insertTaskLocked task =
      let e' := { e with taskQueue := e.taskQueue ++ [task] }
      if e.activeCount.toNat = ids.length ∧ ids.length < e.maxPoolSize.toNat then
        e'.addWorkerLocked false
      else e' := by
  have le := table.active_le
  have size := table.toNat_workersSize
  have idle : (e.workersSize - e.activeCount == 0#64) =
      decide (e.activeCount.toNat = ids.length) := by
    rw [Bool.eq_iff_iff, beq_iff_eq, decide_eq_true_iff, ← BitVec.toNat_inj,
      table.toNat_idleWorkers, BitVec.toNat_ofNat]
    omega
  have grows : e.workersSize.ult e.maxPoolSize =
      decide (ids.length < e.maxPoolSize.toNat) := by
    rw [BitVec.ult, size]
  have test : (e.workersSize - e.activeCount == 0#64 && e.workersSize.ult e.maxPoolSize) =
      decide (e.activeCount.toNat = ids.length ∧ ids.length < e.maxPoolSize.toNat) := by
    rw [idle, grows, Bool.decide_and]
  unfold insertTaskLocked
  change (if (e.workersSize - e.activeCount == 0#64 && e.workersSize.ult e.maxPoolSize) = true
    then _ else _) = _
  rw [test]
  simp only [decide_eq_true_eq]

/-! ## Retiring and reaping -/

/-- `remove_self_locked` on a table without nulls: the last worker takes the
caller's place and index, and the caller goes to the end of `dead_workers`. -/
theorem removeSelfLocked_eq (table : Table e pc ids dead) {w : WorkerId}
    (live : (pc w).inTable = true) :
    ∃ b, ids.getLast? = some b ∧
      e.removeSelfLocked w =
        { e with
          heap := Function.update e.heap b
            { e.heap b with workerIndex := (e.heap w).workerIndex }
          deadWorkers := (dead ++ [w]).map some
          workers := (swapRemove ids (e.heap w).workerIndex).map some } := by
  have found := table.found live
  obtain ⟨init, b, rfl⟩ : ∃ init b, ids = init ++ [b] := by
    rcases List.eq_nil_or_concat' ids with rfl | split
    · cases found
    · exact split
  refine ⟨b, List.getLast?_concat .., ?_⟩
  have swapped : swapAt e.workers (e.heap w).workerIndex (e.workers.length - 1) =
      (swapRemove (init ++ [b]) (e.heap w).workerIndex).map some ++ [some w] := by
    have last : e.workers.length - 1 = init.length := by rw [table.workers]; simp
    rw [last, table.workers]
    exact swapAt_last found
  have remaining : (swapRemove (init ++ [b]) (e.heap w).workerIndex).length = init.length := by
    rw [swapRemove_concat, List.length_set]
  have position : e.workers.length - 1 =
      ((swapRemove (init ++ [b]) (e.heap w).workerIndex).map some).length := by
    rw [List.length_map, remaining, table.workers]
    simp
  -- the place of the caller now holds the former last worker, also when that is the caller
  have moved : ((swapRemove (init ++ [b]) (e.heap w).workerIndex).map some ++
      [some w])[(e.heap w).workerIndex]? = some (some b) := by
    rw [swapRemove_concat]
    have bound := (List.getElem?_eq_some_iff.mp found).1
    rcases Nat.lt_or_ge (e.heap w).workerIndex init.length with inside | atEnd
    · rw [List.map_set, List.getElem?_append_left (by simpa using inside),
        List.getElem?_set_self (by simpa using inside)]
    · have same : (e.heap w).workerIndex = init.length := by
        simp only [List.length_append, List.length_singleton] at bound
        omega
      rw [same] at found ⊢
      simp only [List.getElem?_concat_length, Option.some.injEq] at found
      simp [found]
  rw [position] at swapped
  unfold removeSelfLocked
  simp only [position, swapped, moved, List.getElem?_concat_length, Option.getD_some,
    List.dropLast_concat, List.map_append, List.map_cons, List.map_nil, table.deadWorkers]

/-- `remove_self_locked` moves exactly the calling worker to `dead_workers`,
also when it is the last element. -/
theorem removeSelf (table : Table e pc ids dead) {w : WorkerId} (exiting : pc w = .exiting) :
    Table (e.removeSelfLocked w) (Function.update pc w .exited)
      (swapRemove ids (e.heap w).workerIndex) (dead ++ [w]) := by
  have live : (pc w).inTable = true := by rw [exiting]; rfl
  have found := table.found live
  have freshDead : w ∉ dead := by rw [table.isDead, exiting]; decide
  obtain ⟨b, last, removed⟩ := table.removeSelfLocked_eq live
  rw [removed]
  refine ⟨rfl, rfl, swapRemove_nodup found table.nodup, ?_, fun {j v} atJ => ?_, fun v => ?_,
    fun v => ?_, fun v bound => ?_, ?_, ?_⟩
  · rw [List.nodup_append]
    refine ⟨table.deadNodup, by simp, fun v member u isW => ?_⟩
    rw [List.mem_singleton.mp isW]
    exact fun same => freshDead (same ▸ member)
  · change (Function.update e.heap b _ v).workerIndex = j
    have lastAt : ids[ids.length - 1]? = some b := by rw [← List.getLast?_eq_getElem?, last]
    rcases getElem?_swapRemove found atJ with ⟨rfl, isLast⟩ | ⟨ne, kept⟩
    · obtain rfl : b = v := Option.some.inj (last.symm.trans isLast)
      rw [Function.update_self]
    · -- a kept position other than the caller's does not hold the last worker
      have notLast : v ≠ b := by
        rintro rfl
        have atEnd : j = ids.length - 1 :=
          (table.index kept).symm.trans (table.index lastAt)
        have bound := (List.getElem?_eq_some_iff.mp atJ).1
        have shorter := length_swapRemove found
        omega
      rw [Function.update_of_ne notLast]
      exact table.index kept
  · rw [mem_swapRemove found table.nodup]
    by_cases same : v = w
    · subst same; rw [Function.update_self]; simp [WorkerPc.inTable, WorkerPc.inMainLoop]
    · rw [Function.update_of_ne same, table.inTable]; simp [same]
  · rw [List.mem_append, List.mem_singleton]
    by_cases same : v = w
    · subst same; rw [Function.update_self]; simp [WorkerPc.isDead]
    · rw [Function.update_of_ne same, table.isDead]; simp [same]
  · have before := table.unborn v bound
    have ne : v ≠ w := by
      rintro rfl
      rw [exiting] at before
      cases before
    rw [Function.update_of_ne ne]
    exact before
  · have absent : w ∉ swapRemove ids (e.heap w).workerIndex := by
      rw [mem_swapRemove found table.nodup]
      exact fun both => both.2 rfl
    have balance := countP_swapRemove found (fun v => (pc v).isActive)
    have idle : (pc w).isActive = false := by rw [exiting]; rfl
    rw [countP_update_of_notMem (p := WorkerPc.isActive) absent]
    rw [idle] at balance
    change e.activeCount.toNat = _
    rw [table.active]
    simpa using balance.symm
  · have shorter := length_swapRemove found
    have size := table.size
    change _ ≤ max e.corePoolSize.toNat e.maxPoolSize.toNat
    omega

theorem mem_deadWorkers (table : Table e pc ids dead) (v : WorkerId) :
    some v ∈ e.deadWorkers ↔ (pc v).isDead = true := by
  rw [table.deadWorkers, ← table.isDead]
  simp

/-- Whatever takes the dead for joined does not notice the reaping. -/
theorem reaped {β : Type*} (table : Table e pc ids dead) (f : WorkerPc → β)
    (agree : ∀ p : WorkerPc, p.isDead = true → f p = f .joined) (v : WorkerId) :
    f (if some v ∈ e.deadWorkers then .joined else pc v) = f (pc v) := by
  split
  next isDead => rw [agree _ ((table.mem_deadWorkers v).mp isDead)]
  next => rfl

/-- Reaping empties `dead_workers`. -/
theorem reap (table : Table e pc ids dead) :
    Table { e with deadWorkers := [] }
      (fun v => if some v ∈ e.deadWorkers then .joined else pc v) ids [] := by
  refine ⟨table.workers, rfl, table.nodup, List.nodup_nil, table.index, fun v => ?_,
    fun v => ?_, fun v bound => ?_, ?_, table.size⟩
  · rw [table.inTable, table.reaped WorkerPc.inTable]
    intro p isDead
    cases p <;> simp_all [WorkerPc.isDead, WorkerPc.inTable, WorkerPc.inMainLoop]
  · simp only [List.not_mem_nil, false_iff]
    split
    next => decide
    next notDead => rwa [table.mem_deadWorkers] at notDead
  · have before := table.unborn v bound
    have notDead : ¬ some v ∈ e.deadWorkers := by rw [table.mem_deadWorkers, before]; decide
    rw [if_neg notDead, before]
  · change e.activeCount.toNat = _
    rw [table.active]
    refine List.countP_congr fun v _ => ?_
    rw [table.reaped WorkerPc.isActive]
    intro p isDead
    cases p <;> simp_all [WorkerPc.isDead, WorkerPc.isActive]

/-- The section after a task: its worker is not active any more. -/
theorem afterTask (table : Table e pc ids dead) {w : WorkerId} {task : TaskBase}
    (returned : pc w = .returned task) :
    Table { e with deadWorkers := [], activeCount := e.activeCount - 1#64 }
      (Function.update (fun v => if some v ∈ e.deadWorkers then .joined else pc v) w .loopTop)
      ids [] := by
  have notReaped : ¬ some w ∈ e.deadWorkers := by
    have alive := table.isDead w
    rw [returned] at alive
    rw [table.deadWorkers]
    simp [alive, WorkerPc.isDead]
  have same : (if some w ∈ e.deadWorkers then WorkerPc.joined else pc w) = .returned task := by
    rw [if_neg notReaped, returned]
  refine table.reap.move w .loopTop rfl rfl rfl rfl rfl rfl (by rw [same]; rfl)
    (by rw [same]; rfl) (by rw [same]; nofun) ?_
  have positive : 0 < e.activeCount.toNat := by
    rw [table.active, List.countP_pos_iff]
    have active : (pc w).isActive = true := by rw [returned]; rfl
    exact ⟨w, table.mem_of_isActive active, active⟩
  rw [same]
  change (e.activeCount - 1#64).toNat + 1 = e.activeCount.toNat + 0
  have bound := e.activeCount.isLt
  rw [BitVec.toNat_sub, BitVec.toNat_ofNat]
  omega

/-- The loop of the constructor builds a table of started workers. -/
theorem addCoreWorkers (corePoolSize maxPoolSize : SizeT) (count : Nat)
    (bound : count ≤ corePoolSize.toNat) :
    ∃ ids : List WorkerId, ids.length = count ∧
      Table (ThreadPoolExecutor.addCoreWorkers (blank corePoolSize maxPoolSize) count)
        (fun w =>
          if some w ∈
              (ThreadPoolExecutor.addCoreWorkers (blank corePoolSize maxPoolSize) count).workers
          then .loopTop else .unborn) ids [] := by
  induction count with
  | zero =>
      refine ⟨[], rfl, rfl, rfl, List.nodup_nil, List.nodup_nil, nofun, fun w => ?_, fun w => ?_,
        fun _ _ => rfl, rfl, Nat.zero_le _⟩
      · simp [ThreadPoolExecutor.addCoreWorkers, blank, WorkerPc.inTable, WorkerPc.inMainLoop]
      · simp [ThreadPoolExecutor.addCoreWorkers, blank, WorkerPc.isDead]
  | succ count ih =>
      obtain ⟨ids, length, table⟩ := ih (by omega)
      obtain ⟨core, _⟩ := blank_addCoreWorkers corePoolSize maxPoolSize count
      set e := ThreadPoolExecutor.addCoreWorkers (blank corePoolSize maxPoolSize) count with e_def
      have room : ids.length < max e.corePoolSize.toNat e.maxPoolSize.toNat := by
        rw [core]
        omega
      refine ⟨ids ++ [e.nextId], by simp [length], ?_⟩
      have grown := table.addWorker true room
      have pcs : Function.update (fun w => if some w ∈ e.workers then .loopTop else .unborn)
            e.nextId .loopTop =
          fun w => if some w ∈ (e.addWorkerLocked true).workers then WorkerPc.loopTop
            else .unborn := by
        funext w
        by_cases same : w = e.nextId
        · subst same
          simp [addWorkerLocked]
        · simp [addWorkerLocked, same]
      rw [pcs] at grown
      exact grown

/-- Nulls apart, `workers` reads back as `ids`. -/
theorem workers_filterMap (table : Table e pc ids dead) : e.workers.filterMap id = ids := by
  rw [table.workers]
  simp

end Table

/-! ## Runs -/

/-- The table invariant of a system: some list of dead workers completes it. -/
def System.Tabled (s : System) : Prop := ∃ dead, Table s.exec s.pc s.workerIds dead

namespace System.Tabled

variable {s : System}

theorem of_table {ids dead : List WorkerId} (table : Table s.exec s.pc ids dead) :
    s.Tabled := by
  refine ⟨dead, ?_⟩
  rw [System.workerIds, table.workers_filterMap]
  exact table

theorem mem_workerIds (tabled : s.Tabled) (w : WorkerId) :
    w ∈ s.workerIds ↔ (s.pc w).inTable = true := by
  obtain ⟨dead, table⟩ := tabled
  exact table.inTable w

theorem nodup (tabled : s.Tabled) : s.workerIds.Nodup := by
  obtain ⟨dead, table⟩ := tabled
  exact table.nodup

/-- `workers` is empty exactly when no worker is in the table. -/
theorem workers_isEmpty (tabled : s.Tabled) :
    s.exec.workers.isEmpty = true ↔ s.workerIds = [] := by
  obtain ⟨dead, table⟩ := tabled
  rw [List.isEmpty_iff, table.workers, List.map_eq_nil_iff]

/-- The two results of the locked insert: the pool grows by a worker when all
its workers are active and there is room, and otherwise only the queue grows. -/
theorem insertTask_cases (tabled : s.Tabled) (task : TaskBase) :
    ((∀ w ∈ s.workerIds, (s.pc w).isActive = true) ∧
      s.workerIds.length < s.exec.maxPoolSize.toNat ∧
      s.pc s.exec.nextId = .unborn ∧
      (s.insertTask task).exec =
        { s.exec with taskQueue := s.exec.taskQueue ++ [task] }.addWorkerLocked false ∧
      (s.insertTask task).pc = Function.update s.pc s.exec.nextId .loopTop ∧
      (s.insertTask task).workerIds = s.workerIds ++ [s.exec.nextId]) ∨
    (¬ ((∀ w ∈ s.workerIds, (s.pc w).isActive = true) ∧
        s.workerIds.length < s.exec.maxPoolSize.toNat) ∧
      (s.insertTask task).exec = { s.exec with taskQueue := s.exec.taskQueue ++ [task] } ∧
      (s.insertTask task).pc = s.pc ∧ (s.insertTask task).workerIds = s.workerIds) := by
  obtain ⟨dead, table⟩ := tabled
  have allActive : s.exec.activeCount.toNat = s.workerIds.length ↔
      ∀ w ∈ s.workerIds, (s.pc w).isActive = true := by
    rw [table.active]
    exact List.countP_eq_length
  have inserted := table.insertTaskLocked_eq task
  by_cases grows : s.exec.activeCount.toNat = s.workerIds.length ∧
      s.workerIds.length < s.exec.maxPoolSize.toNat
  · rw [if_pos grows] at inserted
    refine .inl ⟨allActive.mp grows.1, grows.2, table.unborn _ (Nat.le_refl _), inserted, ?_, ?_⟩
    · unfold insertTask
      rw [inserted]
      exact if_neg (Nat.succ_ne_self _)
    · unfold insertTask
      simp only [workerIds, inserted, addWorkerLocked, List.filterMap_append]
      rfl
  · rw [if_neg grows] at inserted
    rw [allActive] at grows
    refine .inr ⟨grows, inserted, ?_, ?_⟩
    · unfold insertTask
      rw [inserted]
      exact if_pos rfl
    · unfold insertTask
      rw [workerIds, inserted]
      rfl

theorem insertTask (tabled : s.Tabled) (task : TaskBase) : (s.insertTask task).Tabled := by
  rcases tabled.insertTask_cases task with
    ⟨_, room, _, exec, pc, workerIds⟩ | ⟨_, exec, pc, workerIds⟩
  · obtain ⟨dead, table⟩ := tabled
    refine ⟨dead, ?_⟩
    rw [exec, pc, workerIds]
    refine Table.addWorker ?_ false (lt_of_lt_of_le room (le_max_right _ _))
    exact ⟨table.workers, table.deadWorkers, table.nodup, table.deadNodup, table.index,
      table.inTable, table.isDead, table.unborn, table.active, table.size⟩
  · obtain ⟨dead, table⟩ := tabled
    refine ⟨dead, ?_⟩
    rw [exec, pc, workerIds]
    exact ⟨table.workers, table.deadWorkers, table.nodup, table.deadNodup, table.index,
      table.inTable, table.isDead, table.unborn, table.active, table.size⟩

/-- The exit section takes exactly its worker out of the table. -/
theorem exitSection_workerIds (tabled : s.Tabled) {w : WorkerId} (exiting : s.pc w = .exiting) :
    ∃ i, s.workerIds[i]? = some w ∧ (s.exitSection w).workerIds = swapRemove s.workerIds i := by
  obtain ⟨dead, table⟩ := tabled
  have live : (s.pc w).inTable = true := by rw [exiting]; rfl
  refine ⟨(s.exec.heap w).workerIndex, table.found live, ?_⟩
  have removed := (table.removeSelf exiting).workers_filterMap
  unfold exitSection workerIds
  simp only [notifyAllWaitCv]
  split <;> exact removed

/-- Whatever takes the dead for joined sees the section after a task only as
its worker's return to the head of the loop. -/
theorem afterTask_pc {β : Type*} (tabled : s.Tabled) (f : WorkerPc → β)
    (agree : ∀ p : WorkerPc, p.isDead = true → f p = f .joined) (w v : WorkerId) :
    f ((s.afterTask w).pc v) = f (Function.update s.pc w .loopTop v) := by
  obtain ⟨dead, table⟩ := tabled
  by_cases same : v = w
  · subst same
    simp [System.afterTask]
  · simp only [System.afterTask, Function.update_of_ne same]
    exact table.reaped f agree v

theorem initial (corePoolSize maxPoolSize : SizeT) :
    (initial corePoolSize maxPoolSize).Tabled := by
  obtain ⟨ids, _, table⟩ :=
    Table.addCoreWorkers corePoolSize maxPoolSize corePoolSize.toNat (Nat.le_refl _)
  exact of_table table

/-- Every transition keeps the table. -/
theorem transition {a : Action} {s' : System} (tabled : s.Tabled)
    (moved : Transition s a s') : s'.Tabled := by
  cases moved with
  | shutLoad kind =>
      unfold shutLoad
      split
      · exact tabled
      · exact tabled
  | insertUnheard task _ _ => exact tabled.insertTask task
  | insertNotify task w _ blocked =>
      obtain ⟨dead, table⟩ := tabled.insertTask task
      exact ⟨dead, table.goto w _ (by rw [blocked]; rfl) (by rw [blocked]; rfl)
        (by rw [blocked]; rfl) (by rw [blocked]; nofun)⟩
  | shutdown =>
      obtain ⟨dead, table⟩ := tabled
      have shut : Table { s.exec with shut := true } s.pc s.workerIds dead :=
        ⟨table.workers, table.deadWorkers, table.nodup, table.deadNodup, table.index,
          table.inTable, table.isDead, table.unborn, table.active, table.size⟩
      unfold shutdown
      dsimp only
      split
      · exact of_table shut
      · exact of_table shut.notifyAll
  | awaitTest a c otherwise _ => exact tabled
  | awaitUnblock c _ => exact tabled
  | fetch a w task rest _ atFetch _ =>
      obtain ⟨dead, table⟩ := tabled
      exact ⟨dead, table.fetchFront task rest atFetch⟩
  | leave a w _ atFetch _ _ =>
      obtain ⟨dead, table⟩ := tabled
      exact ⟨dead, table.leaveFetch _ atFetch rfl rfl rfl⟩
  | sleep a w _ atFetch _ _ =>
      obtain ⟨dead, table⟩ := tabled
      exact ⟨dead, table.leaveFetch _ atFetch rfl rfl rfl⟩
  | unblock w blocked =>
      obtain ⟨dead, table⟩ := tabled
      exact ⟨dead, table.goto w _ (by rw [blocked]; rfl) (by rw [blocked]; rfl)
        (by rw [blocked]; rfl) (by rw [blocked]; nofun)⟩
  | start w task fetched =>
      obtain ⟨dead, table⟩ := tabled
      exact ⟨dead, table.goto w _ (by rw [fetched]; rfl) (by rw [fetched]; rfl)
        (by rw [fetched]; rfl) (by rw [fetched]; nofun)⟩
  | finish w task outcome running =>
      obtain ⟨dead, table⟩ := tabled
      exact ⟨dead, table.goto w _ (by rw [running]; rfl) (by rw [running]; rfl)
        (by rw [running]; rfl) (by rw [running]; nofun)⟩
  | afterTask w task returned _ =>
      obtain ⟨dead, table⟩ := tabled
      exact of_table (table.afterTask returned)
  | exit w exiting =>
      obtain ⟨dead, table⟩ := tabled
      have removed := table.removeSelf exiting
      unfold exitSection
      dsimp only
      split
      · exact of_table removed
      · exact of_table removed
  | threadReturn w exited =>
      obtain ⟨dead, table⟩ := tabled
      exact ⟨dead, table.goto w _ (by rw [exited]; rfl) (by rw [exited]; rfl)
        (by rw [exited]; rfl) (by rw [exited]; nofun)⟩

end System.Tabled

/-- No step changes the pool sizes. -/
theorem sizes_transition {s s' : System} {a : Action} (moved : Transition s a s') :
    s'.exec.corePoolSize = s.exec.corePoolSize ∧ s'.exec.maxPoolSize = s.exec.maxPoolSize := by
  have insertTask : ∀ task, (s.insertTask task).exec.corePoolSize = s.exec.corePoolSize ∧
      (s.insertTask task).exec.maxPoolSize = s.exec.maxPoolSize := by
    intro task
    simp only [System.insertTask, insertTaskLocked]
    split <;> exact ⟨rfl, rfl⟩
  cases moved with
  | insertUnheard task _ _ => exact insertTask task
  | insertNotify task w _ _ => exact insertTask task
  | shutLoad kind => unfold System.shutLoad; split <;> exact ⟨rfl, rfl⟩
  | shutdown => simp only [System.shutdown]; split <;> exact ⟨rfl, rfl⟩
  | exit w _ => simp only [System.exitSection]; split <;> exact ⟨rfl, rfl⟩
  | _ => exact ⟨rfl, rfl⟩

theorem sizes_of_reachable {corePoolSize maxPoolSize : SizeT} {ok : System → Action → Prop}
    {s : System} (reachable : (machine corePoolSize maxPoolSize).ReachableUnder ok s) :
    s.exec.corePoolSize = corePoolSize ∧ s.exec.maxPoolSize = maxPoolSize := by
  refine reachable.invariant
    (motive := fun s => s.exec.corePoolSize = corePoolSize ∧ s.exec.maxPoolSize = maxPoolSize)
    ?_ fun s a s' _ sizes _ stepEq => ?_
  · obtain ⟨core, maximum, _⟩ :=
      blank_addCoreWorkers corePoolSize maxPoolSize corePoolSize.toNat
    exact ⟨core, maximum⟩
  · obtain ⟨core, maximum⟩ := sizes_transition (transition_of_step stepEq)
    exact ⟨core.trans sizes.1, maximum.trans sizes.2⟩

theorem tabled_of_reachable {corePoolSize maxPoolSize : SizeT} {ok : System → Action → Prop}
    {s : System} (reachable : (machine corePoolSize maxPoolSize).ReachableUnder ok s) :
    s.Tabled :=
  reachable.invariant (.initial _ _) fun _ _ _ _ tabled _ stepEq =>
    tabled.transition (transition_of_step stepEq)

end Conc11.Executor
