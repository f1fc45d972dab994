/-
Module: Conc11.Executor.Submission
Purpose: `submit` and `execute` when their allocations may fail: what a call that exits by an exception leaves
  behind, and what becomes of its task.
Trusted boundary: human-reviewed model.  `std::queue::emplace` and `std::vector::emplace_back` that throw leave
  their container as it was, and `capacity` is that of `workers` after the `reserve` of the constructor.
Main exports: Allocations, tryInsertTaskLocked, submitTask, Submissions, submissions, Atomic, LosesWorker,
  submission_atomic
-/
import Conc11.Executor.Tasks

namespace Conc11.Executor

open Library

/-! ## Submission with failing allocations -/

/-- Which allocations of one call succeed: those that build the task, the node
of `task_queue.emplace`, `new Worker` and, where `workers` has to grow, its new
storage.  When `new Worker` throws, its argument `id++` may have been evaluated. -/
structure Allocations where
  task : Bool
  node : Bool
  worker : Bool
  idTaken : Bool
  slot : Bool
deriving DecidableEq, Repr

namespace ThreadPoolExecutor

/-- `add_worker_locked`; `false` means that it threw. -/
def tryAddWorkerLocked (e : ThreadPoolExecutor) (capacity : Nat) (core : Bool)
    (alloc : Allocations) : ThreadPoolExecutor × Bool :=
  if alloc.worker = false then
    ({ e with nextId := if alloc.idTaken then e.nextId + 1 else e.nextId }, false)
  else if e.workers.length < capacity ∨ alloc.slot = true then (e.addWorkerLocked core, true)
  else ({ e with nextId := e.nextId + 1 }, false)

/-- `insert_task_locked` without its `cv.notify_one()`, which a throw skips. -/
def tryInsertTaskLocked (e : ThreadPoolExecutor) (capacity : Nat) (task : TaskBase)
    (alloc : Allocations) : ThreadPoolExecutor × Bool :=
  if alloc.node = false then (e, false)
  else
    let e := { e with taskQueue := e.taskQueue ++ [task] }
    let idleWorkers : SizeT := e.workersSize - e.activeCount
    if idleWorkers == 0#64 && e.workersSize.ult e.maxPoolSize then
      e.tryAddWorkerLocked capacity false alloc
    else (e, true)

/-- `submit` and `execute` behind their test of `shut`. -/
def submitTask (e : ThreadPoolExecutor) (capacity : Nat) (task : TaskBase)
    (alloc : Allocations) : ThreadPoolExecutor × Bool :=
  if alloc.task = false then (e, false) else e.tryInsertTaskLocked capacity task alloc

end ThreadPoolExecutor

open ThreadPoolExecutor

/-- The executor with the tasks of the calls that exited by an exception. -/
structure Submissions where
  sys : System
  failed : List TaskBase

/-- The labels: `submit` is the rest of a call that has passed its test of
`shut`. -/
inductive SubmitLabel where
  | act (a : Action)
  | submit (task : TaskBase) (alloc : Allocations) (target : Option WorkerId)
deriving DecidableEq, Repr

def submitStep (capacity : Nat) (s : Submissions) : SubmitLabel → Option Submissions
  | .act (.insert _ _) => none
  | .act a => (step s.sys a).map fun sys => { s with sys := sys }
  | .submit task alloc target =>
      if task ∈ s.sys.passed ∧ task ∉ s.failed then
        match s.sys.exec.submitTask capacity task alloc with
        | (_, true) =>
            ((s.sys.insertTask task).notifyOneCv target).map fun sys => { s with sys := sys }
        | (exec, false) =>
            some { sys := { s.sys with exec := exec }, failed := s.failed ++ [task] }
      else none

/-- The executor whose submissions may fail. -/
def submissions (corePoolSize maxPoolSize : SizeT) (capacity : Nat) :
    Machine Submissions SubmitLabel where
  initial := { sys := initial corePoolSize maxPoolSize, failed := [] }
  step := submitStep capacity

/-- A call that completes has appended its task, and a call that throws has
changed nothing. -/
def Atomic (e e' : ThreadPoolExecutor) (task : TaskBase) : Bool → Prop
  | true => e'.taskQueue = e.taskQueue ++ [task]
  | false => e'.taskQueue = e.taskQueue ∧ e'.workers = e.workers ∧
      e'.activeCount = e.activeCount ∧ e'.shut = e.shut

/-- The call reaches `new Worker`, with its task in the queue, and that fails. -/
def LosesWorker (e : ThreadPoolExecutor) (alloc : Allocations) : Prop :=
  alloc.task = true ∧ alloc.node = true ∧
    (e.workersSize - e.activeCount == 0#64 && e.workersSize.ult e.maxPoolSize) = true ∧
    alloc.worker = false

instance (e : ThreadPoolExecutor) (alloc : Allocations) : Decidable (LosesWorker e alloc) :=
  inferInstanceAs (Decidable (_ ∧ _ ∧ _ ∧ _))

/-- No submission loses its worker. -/
def KeepsWorker (s : Submissions) : SubmitLabel → Prop
  | .submit _ alloc _ => ¬ LosesWorker s.sys.exec alloc
  | .act _ => True

instance (s : Submissions) : (label : SubmitLabel) → Decidable (KeepsWorker s label)
  | .submit _ alloc _ => inferInstanceAs (Decidable (¬ LosesWorker s.sys.exec alloc))
  | .act _ => inferInstanceAs (Decidable True)

/-! ## One call -/

section Call

variable {e : ThreadPoolExecutor} {capacity : Nat} {task : TaskBase} {alloc : Allocations}

/-- The results of the rest of a call, if `workers` has room for the workers that
may be added. -/
theorem submitTask_cases (task : TaskBase) (alloc : Allocations)
    (room : e.workersSize.ult e.maxPoolSize = true → e.workers.length < capacity) :
    (¬ LosesWorker e alloc ∧
        (e.submitTask capacity task alloc = (e, false) ∨
          e.submitTask capacity task alloc = (e.insertTaskLocked task, true))) ∨
      (LosesWorker e alloc ∧ ∃ nextId, e.nextId ≤ nextId ∧
        e.submitTask capacity task alloc =
          ({ e with taskQueue := e.taskQueue ++ [task], nextId := nextId }, false)) := by
  by_cases built : alloc.task = false
  · exact .inl ⟨fun loses => absurd (built.symm.trans loses.1) Bool.false_ne_true, .inl (if_pos built)⟩
  have rest : e.submitTask capacity task alloc = e.tryInsertTaskLocked capacity task alloc :=
    if_neg built
  by_cases queued : alloc.node = false
  · exact .inl ⟨fun loses => absurd (queued.symm.trans loses.2.1) Bool.false_ne_true,
      .inl (rest.trans (if_pos queued))⟩
  have inserting : e.tryInsertTaskLocked capacity task alloc =
      if (e.workersSize - e.activeCount == 0#64 && e.workersSize.ult e.maxPoolSize) = true then
        { e with taskQueue := e.taskQueue ++ [task] }.tryAddWorkerLocked capacity false alloc
      else ({ e with taskQueue := e.taskQueue ++ [task] }, true) := if_neg queued
  have inserted : e.insertTaskLocked task =
      if (e.workersSize - e.activeCount == 0#64 && e.workersSize.ult e.maxPoolSize) = true then
        { e with taskQueue := e.taskQueue ++ [task] }.addWorkerLocked false
      else { e with taskQueue := e.taskQueue ++ [task] } := rfl
  rw [rest, inserting, inserted]
  by_cases grows :
      (e.workersSize - e.activeCount == 0#64 && e.workersSize.ult e.maxPoolSize) = true
  · rw [if_pos grows, if_pos grows]
    by_cases made : alloc.worker = false
    · refine .inr ⟨⟨Bool.not_eq_false _ ▸ built, Bool.not_eq_false _ ▸ queued, grows, made⟩,
        _, ?_, if_pos made⟩
      split
      · exact Nat.le_succ _
      · exact Nat.le_refl _
    · have fits : e.workers.length < capacity := room (Bool.and_eq_true_iff.mp grows).2
      refine .inl ⟨fun loses => made loses.2.2.2, .inr ?_⟩
      exact (if_neg made).trans (if_pos (.inl fits))
  · rw [if_neg grows, if_neg grows]
    exact .inl ⟨fun loses => grows loses.2.2.1, .inr rfl⟩

theorem taskQueue_insertTaskLocked (e : ThreadPoolExecutor) (task : TaskBase) :
    (e.insertTaskLocked task).taskQueue = e.taskQueue ++ [task] := by
  unfold insertTaskLocked
  dsimp only
  split <;> rfl

/-- A call is atomic exactly if it does not lose its worker. -/
theorem atomic_iff (room : e.workersSize.ult e.maxPoolSize = true → e.workers.length < capacity) :
    Atomic e (e.submitTask capacity task alloc).1 task (e.submitTask capacity task alloc).2 ↔
      ¬ LosesWorker e alloc := by
  rcases submitTask_cases task alloc room with
    ⟨keeps, threw | completed⟩ | ⟨loses, nextId, _, threw⟩
  · rw [threw]
    exact iff_of_true ⟨rfl, rfl, rfl, rfl⟩ keeps
  · rw [completed]
    exact iff_of_true (taskQueue_insertTaskLocked e task) keeps
  · rw [threw]
    refine iff_of_false ?_ (not_not_intro loses)
    rintro ⟨queue, _⟩
    have longer := congrArg List.length queue
    simp at longer

end Call

/-! ## Runs -/

/-- The room for the workers that may be added has been reserved. -/
theorem room_of_tabled {s : System} {capacity : Nat} (tabled : s.Tabled)
    (reserved : s.exec.maxPoolSize.toNat ≤ capacity) :
    s.exec.workersSize.ult s.exec.maxPoolSize = true → s.exec.workers.length < capacity := by
  intro below
  obtain ⟨dead, table⟩ := tabled
  have size := table.toNat_workersSize
  have lt : s.exec.workersSize.toNat < s.exec.maxPoolSize.toNat := of_decide_eq_true below
  rw [table.workers, List.length_map]
  omega

section Runs

variable {corePoolSize maxPoolSize : SizeT} {capacity : Nat} {s s' : Submissions}

/-- The inversion of `submitStep`. -/
theorem submitStep_cases {label : SubmitLabel} (tabled : s.sys.Tabled)
    (reserved : s.sys.exec.maxPoolSize.toNat ≤ capacity)
    (stepEq : submitStep capacity s label = some s') :
    (s'.failed = s.failed ∧ ∃ a, step s.sys a = some s'.sys ∧
        ∀ task target, a = .insert task target → task ∉ s.failed) ∨
      (∃ task, task ∈ s.sys.passed ∧ s' = { s with failed := s.failed ++ [task] }) ∨
      ∃ task nextId, ¬ KeepsWorker s label ∧ s.sys.exec.nextId ≤ nextId ∧
        s' = { sys := { s.sys with exec := { s.sys.exec with
                  taskQueue := s.sys.exec.taskQueue ++ [task], nextId := nextId } },
               failed := s.failed ++ [task] } := by
  cases label with
  | act a =>
      have acts : (step s.sys a).map (fun sys => { s with sys := sys }) = some s' ∧
          ∀ task target, a ≠ .insert task target := by
        cases a
        case insert => cases stepEq
        all_goals exact ⟨stepEq, fun _ _ => Action.noConfusion⟩
      obtain ⟨⟨sys, stepped, rfl⟩, other⟩ := acts.imp_left Option.map_eq_some_iff.mp
      exact .inl ⟨rfl, a, stepped, fun task target same => absurd same (other task target)⟩
  | submit task alloc target =>
      obtain ⟨⟨passed, fresh⟩, rest⟩ := Option.ite_none_right_eq_some.mp stepEq
      rcases submitTask_cases task alloc (room_of_tabled tabled reserved) with
        ⟨_, threw | completed⟩ | ⟨loses, nextId, later, threw⟩
      · rw [threw] at rest
        cases rest
        exact .inr (.inl ⟨task, passed, rfl⟩)
      · rw [completed] at rest
        obtain ⟨sys, notified, rfl⟩ := Option.map_eq_some_iff.mp rest
        refine .inl ⟨rfl, .insert task target, (if_pos passed).trans notified, ?_⟩
        intro other target' same
        cases same
        exact fresh
      · rw [threw] at rest
        cases rest
        exact .inr (.inr ⟨task, nextId, not_not_intro loses, later, rfl⟩)

/-- A task that has been queued for a call that threw, and an identifier that
may have been used up, do not touch the table. -/
theorem tabled_queued {sys : System} (tabled : sys.Tabled) (taskQueue : List TaskBase)
    {nextId : Nat} (later : sys.exec.nextId ≤ nextId) :
    System.Tabled { sys with exec := { sys.exec with taskQueue := taskQueue, nextId := nextId } } := by
  obtain ⟨dead, table⟩ := tabled
  exact ⟨dead, table.workers, table.deadWorkers, table.nodup, table.deadNodup, table.index,
    table.inTable, table.isDead, fun w above => table.unborn w (Nat.le_trans later above),
    table.active, table.size⟩

theorem tabled_of_submissions (reserved : maxPoolSize.toNat ≤ capacity)
    (reachable : (submissions corePoolSize maxPoolSize capacity).Reachable s) :
    s.sys.Tabled ∧ s.sys.exec.maxPoolSize = maxPoolSize := by
  refine reachable.invariant
    (motive := fun s => s.sys.Tabled ∧ s.sys.exec.maxPoolSize = maxPoolSize) ?_ ?_
  · have fresh : (machine corePoolSize maxPoolSize).Reachable (initial corePoolSize maxPoolSize) :=
      Machine.ReachableUnder.initial
    exact ⟨.initial _ _, (sizes_of_reachable fresh).2⟩
  · rintro s label s' _ ⟨tabled, size⟩ _ stepEq
    rcases submitStep_cases tabled (size ▸ reserved) stepEq with
      ⟨_, a, stepped, _⟩ | ⟨task, _, rfl⟩ | ⟨task, nextId, _, later, rfl⟩
    · have moved := transition_of_step stepped
      exact ⟨tabled.transition moved, (sizes_transition moved).2.trans size⟩
    · exact ⟨tabled, size⟩
    · exact ⟨tabled_queued tabled _ later, size⟩

/-- A call that has passed its test stays so until its task is inserted. -/
theorem passed_of_transition {sys sys' : System} {a : Action} (moved : Transition sys a sys')
    {task : TaskBase} (passed : task ∈ sys.passed)
    (other : ∀ task' target, a = .insert task' target → task' ≠ task) : task ∈ sys'.passed := by
  cases moved with
  | shutLoad kind =>
      unfold System.shutLoad
      split
      · exact passed
      · exact List.mem_append_left _ passed
  | insertUnheard task' _ _ =>
      exact (List.mem_erase_of_ne (other task' none rfl).symm).mpr passed
  | insertNotify task' w _ _ =>
      exact (List.mem_erase_of_ne (other task' (some w) rfl).symm).mpr passed
  | shutdown =>
      unfold System.shutdown
      dsimp only
      split <;> exact passed
  | exit w _ =>
      unfold System.exitSection
      dsimp only
      split <;> exact passed
  | _ => exact passed

/-- As long as no submission loses its worker the executor runs as if the calls
that threw had not been made. -/
theorem reachable_of_submissions (reserved : maxPoolSize.toNat ≤ capacity)
    (reachable : (submissions corePoolSize maxPoolSize capacity).ReachableUnder KeepsWorker s) :
    (machine corePoolSize maxPoolSize).Reachable s.sys ∧ ∀ task ∈ s.failed, task ∈ s.sys.passed := by
  refine reachable.invariant (motive := fun s =>
    (machine corePoolSize maxPoolSize).Reachable s.sys ∧
      ∀ task ∈ s.failed, task ∈ s.sys.passed) ?_ ?_
  · refine ⟨Machine.ReachableUnder.initial, fun task member => ?_⟩
    cases member
  · rintro s label s' before ⟨reached, calls⟩ keeps stepEq
    obtain ⟨tabled, size⟩ := tabled_of_submissions reserved before.reachable
    rcases submitStep_cases tabled (size ▸ reserved) stepEq with
      ⟨failed, a, stepped, fresh⟩ | ⟨task, passed, rfl⟩ | ⟨task, nextId, loses, _⟩
    · refine ⟨reached.step trivial stepped, fun task member => ?_⟩
      rw [failed] at member
      apply passed_of_transition (transition_of_step stepped) (calls task member)
      rintro task' target same rfl
      exact fresh task' target same member
    · refine ⟨reached, fun task' member => ?_⟩
      rcases List.mem_append.mp member with old | new
      · exact calls task' old
      · rw [List.mem_singleton.mp new]
        exact passed
    · exact absurd keeps loses

end Runs

/-- In every state a call is atomic exactly if it does not lose its worker; and
in every run in which no call does, no task of a call that threw is queued,
inserted or started. -/
theorem submission_atomic (corePoolSize maxPoolSize : SizeT) (capacity : Nat)
    (reserved : max corePoolSize.toNat maxPoolSize.toNat ≤ capacity) :
    (∀ s, (submissions corePoolSize maxPoolSize capacity).Reachable s →
      (∀ task alloc, Atomic s.sys.exec (s.sys.exec.submitTask capacity task alloc).1 task
          (s.sys.exec.submitTask capacity task alloc).2 ↔ ¬ LosesWorker s.sys.exec alloc) ∧
        (s.sys.exec.shut = true → ∀ kind, s.sys.shutLoad kind = s.sys)) ∧
    ∀ s, (submissions corePoolSize maxPoolSize capacity).ReachableUnder KeepsWorker s →
      ∀ task ∈ s.failed,
        task ∉ s.sys.exec.taskQueue ∧ task ∉ s.sys.inserted ∧ task ∉ s.sys.started := by
  have room := le_trans (le_max_right corePoolSize.toNat _) reserved
  constructor
  · intro s reachable
    obtain ⟨tabled, size⟩ := tabled_of_submissions room reachable
    exact ⟨fun task alloc => atomic_iff (room_of_tabled tabled (size ▸ room)),
      fun shut kind => if_pos shut⟩
  · intro s reachable task failed
    obtain ⟨reached, calls⟩ := reachable_of_submissions room reachable
    have numbered := numbered_of_reachable reached
    have accounted := accounted_of_reachable reached
    have notInserted : task ∉ s.sys.inserted := fun inserted =>
      (List.nodup_append.mp numbered.distinct).2.2 task inserted task (calls task failed) rfl
    have places : s.sys.inserted = s.sys.fetched.map Prod.snd ++ s.sys.exec.taskQueue :=
      accounted.inserted
    refine ⟨fun queued => notInserted ?_, notInserted, fun started => notInserted ?_⟩
    · rw [places]
      exact List.mem_append_right _ queued
    · rw [places]
      exact List.mem_append_left _ (Multiset.mem_of_le accounted.started_le started)

/-- Every allocation succeeds. -/
def allSucceed : Allocations :=
  { task := true, node := true, worker := true, idTaken := true, slot := true }

/-- The only worker of a pool that may grow to two is busy when a second task is
submitted and gets no node: the call changes nothing, and its task is lost to the
executor. -/
theorem submission_atomic_busy :
    ∃ s, (submissions 1#64 2#64 2).ReachableUnder KeepsWorker s ∧
      s.sys.exec.activeCount = 1#64 ∧ s.failed = [⟨1, .task⟩] ∧
      Atomic s.sys.exec (s.sys.exec.submitTask 2 ⟨1, .task⟩ { allSucceed with node := false }).1
        ⟨1, .task⟩ (s.sys.exec.submitTask 2 ⟨1, .task⟩ { allSucceed with node := false }).2 ∧
      ⟨1, .task⟩ ∉ s.sys.exec.taskQueue ∧ ⟨1, .task⟩ ∉ s.sys.started := by
  have run : ((submissions 1#64 2#64 2).execUnder KeepsWorker (submissions 1#64 2#64 2).initial
      [.act (.shutLoad .task), .act (.shutLoad .task), .submit ⟨0, .task⟩ allSucceed none,
        .act (.enterLoop 1), .act (.start 1),
        .submit ⟨1, .task⟩ { allSucceed with node := false } none]).map
          (fun s => (s.sys.exec.activeCount, s.failed)) = some (1#64, [⟨1, .task⟩]) := by
    decide
  obtain ⟨s, runs, observed⟩ := Option.map_eq_some_iff.mp run
  obtain ⟨busy, failed⟩ := Prod.mk.inj observed
  have reached := Machine.reachableUnder_of_execUnder runs
  obtain ⟨calls, never⟩ := submission_atomic 1#64 2#64 2 (by decide)
  obtain ⟨notQueued, _, notStarted⟩ := never s reached ⟨1, .task⟩ (by rw [failed]; decide)
  refine ⟨s, reached, busy, failed, ?_, notQueued, notStarted⟩
  exact ((calls s reached.reachable).1 _ _).mpr fun loses => Bool.false_ne_true loses.2.1

/-- The only worker of a pool that may grow to two is busy when a second task is
submitted, and `new Worker` fails.  The call throws, its task stays queued, and
the worker runs it later. -/
theorem failed_task_started :
    ((submissions 1#64 2#64 2).exec (submissions 1#64 2#64 2).initial
      [.act (.shutLoad .task), .act (.shutLoad .task), .submit ⟨0, .task⟩ allSucceed none,
        .act (.enterLoop 1), .act (.start 1),
        .submit ⟨1, .task⟩ { allSucceed with worker := false } none,
        .act (.finish 1 .normal), .act (.afterTask 1), .act (.enterLoop 1),
        .act (.start 1)]).map (fun s => (s.failed, s.sys.started)) =
      some ([⟨1, .task⟩], [⟨0, .task⟩, ⟨1, .task⟩]) := by
  decide

end Conc11.Executor
