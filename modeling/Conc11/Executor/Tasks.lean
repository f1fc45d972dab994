/-
Module: Conc11.Executor.Tasks
Purpose: The life of a task.  The executor refines a first-in first-out dispatcher, so every task is
  fetched, started and ended at most once, and termination means that all of them have ended.
Trusted boundary: none
Main exports: System.ledger, ledger_transition, TasksOnce, tasks_once
-/
import Mathlib.Algebra.Group.Prod
import Conc11.Library.Dispatch
import Conc11.Executor.WorkerTable

namespace Conc11.Executor

open Library

/-! ## The tasks of the workers -/

/-- The task a worker has fetched and not started, and the task whose body it runs. -/
def WorkerPc.held : WorkerPc → Multiset TaskBase × Multiset TaskBase
  | .fetched task => ({task}, 0)
  | .running task => (0, {task})
  | _ => 0

namespace System

/-- What the workers in the table hold together. -/
def held (s : System) : Multiset TaskBase × Multiset TaskBase :=
  (s.workerIds.map fun w => (s.pc w).held).sum

/-- The executor as a dispatcher. -/
def ledger (s : System) : Ledger TaskBase WorkerId Outcome :=
  { queue := s.exec.taskQueue
    inserted := s.inserted
    fetched := s.fetched
    pending := s.held.1
    started := s.started
    running := s.held.2
    finished := s.finished }

variable {s s' : System}

/-- A worker in the table moves: what is held follows. -/
theorem held_goto (tabled : s.Tabled) {w : WorkerId} (q : WorkerPc)
    (live : (s.pc w).inTable = true) :
    (s.goto w q).held + (s.pc w).held = s.held + q.held :=
  sum_map_update s.pc q tabled.nodup ((tabled.mem_workerIds w).mpr live)

theorem held_congr (workerIds : s'.workerIds = s.workerIds)
    (same : ∀ w, (s'.pc w).held = (s.pc w).held) : s'.held = s.held := by
  simp only [held, workerIds, same]

/-- A worker that holds nothing before and after its move. -/
theorem held_goto_same {w : WorkerId} {q : WorkerPc} (same : q.held = (s.pc w).held) :
    (s.goto w q).held = s.held := by
  refine held_congr rfl fun v => ?_
  by_cases isW : v = w
  · subst isW
    simp [goto, same]
  · simp [goto, Function.update_of_ne isW]

theorem held_insertTask (tabled : s.Tabled) (task : TaskBase) :
    (s.insertTask task).held = s.held := by
  rcases tabled.insertTask_cases task with
    ⟨_, _, unborn, _, pc, workerIds⟩ | ⟨_, _, pc, workerIds⟩
  · have absent : s.exec.nextId ∉ s.workerIds := by
      rw [tabled.mem_workerIds, unborn]
      decide
    have nothing : WorkerPc.held .loopTop = 0 := rfl
    simp only [held, pc, workerIds, List.map_append, List.sum_append, List.map_cons, List.map_nil,
      sum_map_update_of_notMem absent, Function.update_self, nothing, List.sum_singleton, add_zero]
  · exact held_congr workerIds fun w => by rw [pc]

theorem held_afterTask (tabled : s.Tabled) {w : WorkerId} {task : TaskBase}
    (returned : s.pc w = .returned task) : (s.afterTask w).held = s.held := by
  have agree : ∀ p : WorkerPc, p.isDead = true → p.held = WorkerPc.joined.held := by
    intro p isDead
    cases p <;> simp_all [WorkerPc.isDead, WorkerPc.held]
  have same : (s.afterTask w).held = (s.goto w .loopTop).held :=
    held_congr rfl (tabled.afterTask_pc WorkerPc.held agree w)
  rw [same, held_goto_same (by rw [returned]; rfl)]

theorem held_exitSection (tabled : s.Tabled) {w : WorkerId} (exiting : s.pc w = .exiting) :
    (s.exitSection w).held = s.held := by
  obtain ⟨i, found, workerIds⟩ := tabled.exitSection_workerIds exiting
  have absent : w ∉ swapRemove s.workerIds i := by
    rw [mem_swapRemove found tabled.nodup]
    exact fun both => both.2 rfl
  have rest := ((swapRemove_perm found).map fun v => (s.pc v).held).sum_eq
  have nothing : (s.pc w).held = 0 := by rw [exiting]; rfl
  rw [List.map_cons, List.sum_cons, nothing, zero_add] at rest
  simp only [held, workerIds, exitSection_pc, sum_map_update_of_notMem absent]
  exact rest

theorem held_shutdown : s.shutdown.held = s.held := by
  unfold shutdown
  dsimp only
  split
  · rfl
  · refine held_congr rfl fun w => ?_
    change (if (s.pc w).isBlocked then WorkerPc.waiting .notified else s.pc w).held = _
    split
    next blocked => rw [WorkerPc.isBlocked_iff.mp blocked]; rfl
    next => rfl

end System

/-! ## Refinement -/

/-- The tasks of the calls are told apart by their numbers. -/
structure Numbered (s : System) : Prop where
  distinct : (s.inserted ++ s.passed).Nodup
  below : ∀ task ∈ s.inserted ++ s.passed, task.id < s.calls

/-- A step that touches no task. -/
private theorem quiet {s s' : System} (queue : s'.exec.taskQueue = s.exec.taskQueue)
    (inserted : s'.inserted = s.inserted) (fetched : s'.fetched = s.fetched)
    (started : s'.started = s.started) (finished : s'.finished = s.finished)
    (held : s'.held = s.held) : s.ledger.Step s'.ledger := by
  have same : s'.ledger = s.ledger := by
    simp only [System.ledger, queue, inserted, fetched, started, finished, held]
  rw [same]
  exact .quiet

private theorem quiet_goto {s : System} {w : WorkerId} {q : WorkerPc}
    (same : q.held = (s.pc w).held) : s.ledger.Step (s.goto w q).ledger :=
  quiet rfl rfl rfl rfl rfl (System.held_goto_same same)

theorem WorkerPc.held_of_atFetch {pc : WorkerPc} (looks : pc.atFetch = true) : pc.held = 0 := by
  cases pc <;> simp_all [atFetch, held]

/-- The locked insert queues a task that was not inserted before. -/
theorem ledger_insertTask {s : System} {task : TaskBase} (tabled : s.Tabled)
    (numbered : Numbered s) (passed : task ∈ s.passed) :
    s.ledger.Step (s.insertTask task).ledger := by
  have ledger : (s.insertTask task).ledger =
      { s.ledger with queue := s.exec.taskQueue ++ [task], inserted := s.inserted ++ [task] } := by
    simp only [System.ledger, System.held_insertTask tabled, taskQueue_insertTask]
    rfl
  rw [ledger]
  refine .insert task fun twice => ?_
  exact (List.nodup_append.mp numbered.distinct).2.2 task twice task passed rfl

/-- A notification behind it changes nothing for the tasks. -/
theorem ledger_notify {s : System} {w : WorkerId} (blocked : s.pc w = .waiting .blocked) :
    (s.goto w (.waiting .notified)).ledger = s.ledger := by
  have same : (s.goto w (.waiting .notified)).held = s.held :=
    System.held_goto_same (by rw [blocked]; rfl)
  simp only [System.ledger, same]
  rfl

theorem ledger_fetchFront {s : System} {w : WorkerId} {task : TaskBase} {rest : List TaskBase}
    (tabled : s.Tabled) (atFetch : (s.pc w).atFetch = true)
    (queue : s.exec.taskQueue = task :: rest) :
    s.ledger.Step (s.fetchFront w task rest).ledger := by
  have balance := System.held_goto tabled (.fetched task) (WorkerPc.inTable_of_atFetch atFetch)
  rw [WorkerPc.held_of_atFetch atFetch, add_zero] at balance
  have held : (s.fetchFront w task rest).held = s.held + ({task}, 0) := balance
  have ledger : (s.fetchFront w task rest).ledger =
      { s.ledger with
        queue := rest
        fetched := s.fetched ++ [(w, task)]
        pending := task ::ₘ s.held.1 } := by
    simp only [System.ledger, held, Prod.fst_add, Prod.snd_add, add_zero]
    rw [add_comm, Multiset.singleton_add]
    rfl
  rw [ledger]
  exact .fetch w task rest queue

/-- A body starts: its task goes from the pending to the running ones. -/
theorem ledger_start {s : System} {w : WorkerId} {task : TaskBase} (tabled : s.Tabled)
    (fetched : s.pc w = .fetched task) :
    s.ledger.Step
      { s.goto w (.running task) with started := s.started ++ [task] : System }.ledger := by
  have balance := System.held_goto tabled (.running task) (by rw [fetched]; rfl)
  rw [fetched] at balance
  have pending : (s.goto w (.running task)).held.1 + {task} = s.held.1 + 0 :=
    congrArg Prod.fst balance
  have running : (s.goto w (.running task)).held.2 + 0 = s.held.2 + {task} :=
    congrArg Prod.snd balance
  rw [add_zero, add_comm, Multiset.singleton_add] at pending running
  have moved := Ledger.Step.start (l := s.ledger) task _ pending.symm
  rw [show task ::ₘ s.ledger.running = _ from running.symm] at moved
  exact moved

/-- A body ends, and nobody holds its task any more. -/
theorem ledger_finish {s : System} {w : WorkerId} {task : TaskBase} (tabled : s.Tabled)
    (running : s.pc w = .running task) (outcome : Outcome) :
    s.ledger.Step
      { s.goto w (.returned task) with
        finished := s.finished ++ [(task, outcome)] : System }.ledger := by
  have balance := System.held_goto tabled (.returned task) (by rw [running]; rfl)
  rw [running] at balance
  have pending : (s.goto w (.returned task)).held.1 + 0 = s.held.1 + 0 :=
    congrArg Prod.fst balance
  have ends : (s.goto w (.returned task)).held.2 + {task} = s.held.2 + 0 :=
    congrArg Prod.snd balance
  rw [add_zero, add_zero] at pending
  rw [add_zero, add_comm, Multiset.singleton_add] at ends
  have moved := Ledger.Step.finish (l := s.ledger) task outcome _ ends.symm
  rw [show s.ledger.pending = _ from pending.symm] at moved
  exact moved

/-- Every step of the executor is a step of the dispatcher. -/
theorem ledger_transition {s s' : System} {a : Action} (tabled : s.Tabled)
    (numbered : Numbered s) (moved : Transition s a s') : s.ledger.Step s'.ledger := by
  cases moved with
  | shutLoad kind =>
      unfold System.shutLoad
      split
      · exact .quiet
      · exact .quiet
  | insertUnheard task passed _ => exact ledger_insertTask tabled numbered passed
  | insertNotify task w passed blocked =>
      rw [ledger_notify blocked]
      exact ledger_insertTask tabled numbered passed
  | shutdown =>
      refine quiet (by rw [System.shutdown_exec]) ?_ ?_ ?_ ?_ System.held_shutdown
      all_goals unfold System.shutdown; dsimp only; split <;> rfl
  | awaitTest a c otherwise _ => exact .quiet
  | awaitUnblock c _ => exact .quiet
  | fetch a w task rest _ atFetch queue => exact ledger_fetchFront tabled atFetch queue
  | leave a w _ atFetch _ _ => exact quiet_goto (WorkerPc.held_of_atFetch atFetch).symm
  | sleep a w _ atFetch _ _ => exact quiet_goto (WorkerPc.held_of_atFetch atFetch).symm
  | unblock w blocked => exact quiet_goto (by rw [blocked]; rfl)
  | start w task fetched => exact ledger_start tabled fetched
  | finish w task outcome running => exact ledger_finish tabled running outcome
  | afterTask w task returned _ =>
      exact quiet rfl rfl rfl rfl rfl (System.held_afterTask tabled returned)
  | exit w exiting =>
      refine quiet (by rw [System.exitSection_exec]; rfl) ?_ ?_ ?_ ?_
        (System.held_exitSection tabled exiting)
      all_goals unfold System.exitSection; dsimp only; split <;> rfl
  | threadReturn w exited => exact quiet_goto (by rw [exited]; rfl)

/-- The numbers stay apart: a call takes the next one. -/
theorem numbered_transition {s s' : System} {a : Action} (numbered : Numbered s)
    (moved : Transition s a s') : Numbered s' := by
  have inserts : ∀ task, task ∈ s.passed → Numbered (s.insertTask task) := by
    intro task passed
    have perm : (s.inserted ++ [task] ++ s.passed.erase task).Perm (s.inserted ++ s.passed) := by
      rw [List.append_assoc]
      exact (List.perm_cons_erase passed).symm.append_left _
    exact ⟨perm.nodup_iff.mpr numbered.distinct, fun t member =>
      numbered.below t (perm.mem_iff.mp member)⟩
  cases moved with
  | shutLoad kind =>
      unfold System.shutLoad
      split
      · exact numbered
      · have fresh : ∀ task ∈ s.inserted ++ s.passed, task ≠ TaskBase.mk s.calls kind := by
          rintro task member rfl
          exact Nat.lt_irrefl _ (numbered.below _ member)
        constructor
        · change (s.inserted ++ (s.passed ++ [TaskBase.mk s.calls kind])).Nodup
          rw [← List.append_assoc]
          simpa using numbered.distinct.concat fun member => fresh _ member rfl
        · intro task member
          change task ∈ s.inserted ++ (s.passed ++ [TaskBase.mk s.calls kind]) at member
          change task.id < s.calls + 1
          rw [← List.append_assoc, List.mem_append, List.mem_singleton] at member
          rcases member with old | rfl
          · exact Nat.lt_succ_of_lt (numbered.below task old)
          · exact Nat.lt_succ_self _
  | insertUnheard task passed _ => exact inserts task passed
  | insertNotify task _ passed _ => exact ⟨(inserts task passed).distinct, (inserts task passed).below⟩
  | shutdown =>
      unfold System.shutdown
      dsimp only
      split <;> exact ⟨numbered.distinct, numbered.below⟩
  | exit w _ =>
      unfold System.exitSection
      dsimp only
      split <;> exact ⟨numbered.distinct, numbered.below⟩
  | _ => exact ⟨numbered.distinct, numbered.below⟩

/-! ## Runs -/

/-- What is known of the tasks at every moment. -/
structure TasksOnce (s : System) : Prop where
  /-- No task is inserted, fetched or started twice. -/
  inserted : s.inserted.Nodup
  fetched : (s.fetched.map Prod.snd).Nodup
  started : s.started.Nodup
  /-- The fetches follow the inserts. -/
  order : s.fetched.map Prod.snd <+: s.inserted
  /-- Nothing is discarded: an inserted task has been fetched or is in the queue. -/
  kept : s.inserted = s.fetched.map Prod.snd ++ s.exec.taskQueue
  shutdown : s.shutdown.exec.taskQueue = s.exec.taskQueue
  /-- Termination means that every task has been started and has ended, once. -/
  terminated : s.exec.isTerminatedLocked = true → ∀ task ∈ s.inserted,
    s.started.count task = 1 ∧ (s.finished.map Prod.fst).count task = 1

/-- One task body after the other, in the order of the inserts. -/
structure TasksInOrder (s : System) : Prop where
  alone : ∀ w v task task', s.pc w = .running task → s.pc v = .running task' → w = v
  starts : s.started <+: s.inserted
  ends : s.finished.map Prod.fst <+: s.started
  gap : s.started.length ≤ s.finished.length + 1

theorem numbered_of_reachable {corePoolSize maxPoolSize : SizeT} {s : System}
    (reachable : (machine corePoolSize maxPoolSize).Reachable s) : Numbered s := by
  refine reachable.invariant (motive := Numbered) ?_ ?_
  · constructor
    · exact List.nodup_nil
    · intro task member
      cases member
  · exact fun _ _ _ _ numbered _ stepEq => numbered_transition numbered (transition_of_step stepEq)

theorem ledger_initial (corePoolSize maxPoolSize : SizeT) :
    (initial corePoolSize maxPoolSize).ledger =
      { queue := [], inserted := [], fetched := [], pending := 0, started := [], running := 0,
        finished := [] } := by
  obtain ⟨_, _, queue, _⟩ := blank_addCoreWorkers corePoolSize maxPoolSize corePoolSize.toNat
  have held : (initial corePoolSize maxPoolSize).held = 0 := by
    refine List.sum_eq_zero fun part member => ?_
    obtain ⟨w, _, rfl⟩ := List.mem_map.mp member
    change (if some w ∈ _ then WorkerPc.loopTop else .unborn).held = 0
    split <;> rfl
  simp only [System.ledger, held]
  exact congrArg (fun queue => Ledger.mk queue [] [] 0 [] 0 []) queue

theorem accounted_of_reachable {corePoolSize maxPoolSize : SizeT} {s : System}
    (reachable : (machine corePoolSize maxPoolSize).Reachable s) : s.ledger.Accounted := by
  refine reachable.invariant (motive := fun s => s.ledger.Accounted) ?_ ?_
  · change (initial corePoolSize maxPoolSize).ledger.Accounted
    rw [ledger_initial]
    exact ⟨List.nodup_nil, rfl, rfl, rfl⟩
  · exact fun _ _ _ reached accounted _ stepEq =>
      accounted.step (ledger_transition (tabled_of_reachable reached)
        (numbered_of_reachable reached) (transition_of_step stepEq))

/-- A worker holds at most one task. -/
theorem card_held (s : System) :
    s.held.1.card ≤ s.workerIds.length ∧ s.held.2.card ≤ s.workerIds.length := by
  have one : ∀ pc : WorkerPc, pc.held.1.card ≤ 1 ∧ pc.held.2.card ≤ 1 := by
    intro pc
    cases pc <;> simp [WorkerPc.held]
  unfold System.held
  induction s.workerIds with
  | nil => simp
  | cons w rest ih =>
      have here := one (s.pc w)
      simp only [List.map_cons, List.sum_cons, Prod.fst_add, Prod.snd_add, Multiset.card_add,
        List.length_cons]
      omega

/-- A single-thread executor has at most one worker. -/
theorem workerIds_le_one {s : System} (reachable : (machine 1#64 1#64).Reachable s) :
    s.workerIds.length ≤ 1 := by
  obtain ⟨dead, table⟩ := tabled_of_reachable reachable
  obtain ⟨core, maximum⟩ := sizes_of_reachable reachable
  have size := table.size
  rw [core, maximum] at size
  exact size

theorem inOrder_of_reachable {s : System} (reachable : (machine 1#64 1#64).Reachable s) :
    s.ledger.InOrder := by
  refine reachable.invariant (motive := fun s => s.ledger.InOrder) ?_ ?_
  · change (initial 1#64 1#64).ledger.InOrder
    rw [ledger_initial]
    exact ⟨List.prefix_rfl, List.prefix_rfl⟩
  · intro s a s' reached inOrder _ stepEq
    obtain ⟨pending, running⟩ := card_held s
    have single := workerIds_le_one reached
    exact inOrder.step (accounted_of_reachable reached) (pending.trans single)
      (running.trans single) (ledger_transition (tabled_of_reachable reached)
        (numbered_of_reachable reached) (transition_of_step stepEq))

/-- Every task runs once, in queue order, and termination means that all work
is done; a single worker runs the tasks one after the other. -/
theorem tasks_once (corePoolSize maxPoolSize : SizeT) {s : System}
    (reachable : (machine corePoolSize maxPoolSize).Reachable s) :
    TasksOnce s ∧ (corePoolSize = 1#64 → maxPoolSize = 1#64 → TasksInOrder s) := by
  have accounted := accounted_of_reachable reachable
  have tabled := tabled_of_reachable reachable
  constructor
  · refine ⟨accounted.distinct, accounted.fetched_nodup, accounted.started_nodup,
      accounted.fetched_prefix, accounted.inserted, by rw [System.shutdown_exec], ?_⟩
    intro terminated task member
    obtain ⟨notBusy, workers⟩ := Bool.and_eq_true_iff.mp terminated
    have queue := List.isEmpty_iff.mp (Bool.and_eq_true_iff.mp notBusy).2
    have held : s.held = 0 := by
      rw [System.held, tabled.workers_isEmpty.mp workers]
      rfl
    exact accounted.once queue (congrArg Prod.fst held) (congrArg Prod.snd held) member
  · rintro rfl rfl
    have inOrder := inOrder_of_reachable reachable
    have single := workerIds_le_one reachable
    refine ⟨fun w v task task' runs runs' => ?_, inOrder.starts.trans accounted.fetched_prefix,
      inOrder.ends, ?_⟩
    · have member : w ∈ s.workerIds := by rw [tabled.mem_workerIds, runs]; rfl
      have member' : v ∈ s.workerIds := by rw [tabled.mem_workerIds, runs']; rfl
      obtain ⟨only, workers⟩ := List.length_eq_one_iff.mp
        (Nat.le_antisymm single (List.length_pos_of_mem member))
      rw [workers, List.mem_singleton] at member member'
      rw [member, member']
    · have count := congrArg Multiset.card accounted.started
      have running := (card_held s).2.trans single
      simp only [Multiset.card_add, Multiset.coe_card, Ledger.finishedJobs, List.length_map,
        System.ledger] at count
      omega

/-- Two tasks of a single-thread executor, up to its termination. -/
theorem tasks_once_two_tasks :
    ∃ s, (machine 1#64 1#64).Reachable s ∧ s.exec.isTerminatedLocked = true ∧
      s.inserted = [⟨0, .task⟩, ⟨1, .untrackable⟩] ∧ TasksOnce s ∧ TasksInOrder s := by
  have run : ((machine 1#64 1#64).exec (initial 1#64 1#64)
      [.shutLoad .task, .shutLoad .untrackable, .insert ⟨0, .task⟩ none,
        .insert ⟨1, .untrackable⟩ none, .shutdown, .enterLoop 1, .start 1, .finish 1 .normal,
        .afterTask 1, .enterLoop 1, .start 1, .finish 1 .exception, .afterTask 1, .enterLoop 1,
        .exit 1]).map (fun s => (s.exec.isTerminatedLocked, s.inserted)) =
      some (true, [⟨0, .task⟩, ⟨1, .untrackable⟩]) := by
    decide
  obtain ⟨s, runs, observed⟩ := Option.map_eq_some_iff.mp run
  obtain ⟨terminated, inserted⟩ := Prod.mk.inj observed
  have reached := Machine.reachable_of_exec runs
  obtain ⟨once, inOrder⟩ := tasks_once 1#64 1#64 reached
  exact ⟨s, reached, terminated, inserted, once, inOrder rfl rfl⟩

end Conc11.Executor
