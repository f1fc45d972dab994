/-
Module: Conc11.Executor.Signalling
Purpose: No lost wake-up between `insert_task_locked` and the workers.  While a worker sleeps, every
  queued task is matched by a notified worker that has yet to resume.
Trusted boundary: none
Main exports: notifiedWorkers, Signalled, Signalled.transition, no_lost_signal
-/
import Conc11.Executor.WorkerTable

namespace Conc11.Executor

open Library

/-- The number of workers that have been notified on `cv` and have not resumed. -/
def System.notifiedWorkers (s : System) : Nat :=
  s.workerIds.countP fun w => (s.pc w).isNotified

/-- While some worker is blocked on `cv`, the executor is not shut down and
the queue is covered by the notified workers. -/
def Signalled (s : System) : Prop :=
  ∀ w, s.pc w = .waiting .blocked →
    s.exec.shut = false ∧ s.exec.taskQueue.length ≤ s.notifiedWorkers

namespace Signalled

variable {s s' : System}

/-- The rule for a step that puts nobody to sleep: the notified workers may
not fall behind the queue. -/
theorem of_le (signalled : Signalled s)
    (asleep : ∀ w, s'.pc w = .waiting .blocked → ∃ v, s.pc v = .waiting .blocked)
    (shut : s'.exec.shut = s.exec.shut)
    (covers : s.exec.taskQueue.length ≤ s.notifiedWorkers →
      s'.exec.taskQueue.length ≤ s'.notifiedWorkers) : Signalled s' := by
  intro w blocked
  obtain ⟨v, before⟩ := asleep w blocked
  obtain ⟨notShut, queue⟩ := signalled v before
  exact ⟨shut.trans notShut, covers queue⟩

/-- A worker in the table moves: the count of notified workers follows. -/
theorem notifiedWorkers_goto (tabled : s.Tabled) {w : WorkerId} (q : WorkerPc)
    (live : (s.pc w).inTable = true) :
    (s.goto w q).notifiedWorkers + (s.pc w).isNotified.toNat =
      s.notifiedWorkers + q.isNotified.toNat :=
  countP_update s.pc q tabled.nodup ((tabled.mem_workerIds w).mpr live)

theorem notifiedWorkers_goto_same {w : WorkerId} {q : WorkerPc}
    (same : q.isNotified = (s.pc w).isNotified) :
    (s.goto w q).notifiedWorkers = s.notifiedWorkers := by
  refine List.countP_congr fun v _ => ?_
  by_cases isW : v = w
  · subst isW
    simp [System.goto, same]
  · simp [System.goto, Function.update_of_ne isW]

theorem asleep_goto {w : WorkerId} {q : WorkerPc} (awake : q.isBlocked = false) (v : WorkerId)
    (blocked : (s.goto w q).pc v = .waiting .blocked) : s.pc v = .waiting .blocked := by
  by_cases isW : v = w
  · subst isW
    simp only [System.goto, Function.update_self] at blocked
    rw [blocked] at awake
    cases awake
  · simpa [System.goto, Function.update_of_ne isW] using blocked

/-- A move that neither sleeps nor resumes from a notification. -/
theorem goto (signalled : Signalled s) {w : WorkerId} {q : WorkerPc}
    (awake : q.isBlocked = false) (same : q.isNotified = (s.pc w).isNotified) :
    Signalled (s.goto w q) :=
  signalled.of_le (fun v blocked => ⟨v, asleep_goto awake v blocked⟩) rfl
    (by rw [notifiedWorkers_goto_same same]; exact id)

/-- Where nobody sleeps there is nothing to signal. -/
theorem of_nobody (nobody : ∀ w, s.pc w ≠ .waiting .blocked) : Signalled s :=
  fun w blocked => absurd blocked (nobody w)

/-- With an empty queue nobody waits in vain. -/
theorem of_empty (queue : s.exec.taskQueue = []) (notShut : s.exec.shut = false) :
    Signalled s :=
  fun _ _ => ⟨notShut, by rw [queue]; exact Nat.zero_le _⟩

/-- An insert that notifies a blocked worker adds one task and one notified worker. -/
theorem insertNotify (signalled : Signalled s) (tabled : s.Tabled) (task : TaskBase) {w : WorkerId}
    (blocked : (s.insertTask task).pc w = .waiting .blocked) :
    Signalled ((s.insertTask task).goto w (.waiting .notified)) := by
  rcases tabled.insertTask_cases task with
    ⟨allActive, _, _, _, pc, _⟩ | ⟨_, exec, pc, workerIds⟩
  · -- the pool grows only when every worker is active, and then nobody is blocked
    exfalso
    rw [pc] at blocked
    by_cases new : w = s.exec.nextId
    · subst new
      simp at blocked
    · rw [Function.update_of_ne new] at blocked
      have member : w ∈ s.workerIds := by rw [tabled.mem_workerIds, blocked]; rfl
      have active := allActive w member
      rw [blocked] at active
      cases active
  · have live : ((s.insertTask task).pc w).inTable = true := by rw [blocked]; rfl
    have more := notifiedWorkers_goto (tabled.insertTask task) (.waiting .notified) live
    have same : (s.insertTask task).notifiedWorkers = s.notifiedWorkers := by
      simp only [System.notifiedWorkers, pc, workerIds]
    have was : ((s.insertTask task).pc w).isNotified = false := by rw [blocked]; rfl
    refine signalled.of_le (fun v asleep => ⟨v, ?_⟩) (by rw [System.goto, exec]) ?_
    · have before := asleep_goto (q := .waiting .notified) rfl v asleep
      rwa [pc] at before
    · intro covered
      change (s.insertTask task).exec.taskQueue.length ≤ _
      rw [taskQueue_insertTask, List.length_append, List.length_singleton]
      rw [was, same] at more
      simp only [WorkerPc.isNotified, Bool.toNat_false, Bool.toNat_true] at more
      omega

/-- `shutdown` leaves nobody asleep: only an empty pool goes without a broadcast. -/
theorem shutdown (tabled : s.Tabled) : Signalled s.shutdown := by
  refine of_nobody fun w => ?_
  unfold System.shutdown
  dsimp only
  split
  next terminated =>
    intro blocked
    have member : w ∈ s.workerIds := by
      rw [tabled.mem_workerIds, show s.pc w = .waiting .blocked from blocked]
      rfl
    have workers : s.exec.workers.isEmpty = true := (Bool.and_eq_true_iff.mp terminated).2
    rw [tabled.workers_isEmpty.mp workers] at member
    cases member
  next =>
    change (if (s.pc w).isBlocked then WorkerPc.waiting .notified else s.pc w) ≠ _
    split
    next => decide
    next notBlocked => exact fun blocked => notBlocked (WorkerPc.isBlocked_iff.mpr blocked)

/-- Joined workers were neither asleep nor notified. -/
theorem afterTask (signalled : Signalled s) (tabled : s.Tabled) {w : WorkerId} {task : TaskBase}
    (returned : s.pc w = .returned task) : Signalled (s.afterTask w) := by
  have agreeNotified : ∀ p : WorkerPc, p.isDead = true →
      p.isNotified = WorkerPc.joined.isNotified := by
    intro p isDead
    cases p <;> simp_all [WorkerPc.isDead, WorkerPc.isNotified]
  have agreeBlocked : ∀ p : WorkerPc, p.isDead = true →
      p.isBlocked = WorkerPc.joined.isBlocked := by
    intro p isDead
    cases p <;> simp_all [WorkerPc.isDead, WorkerPc.isBlocked]
  refine signalled.of_le (fun v asleep => ⟨v, ?_⟩) rfl ?_
  · have before := tabled.afterTask_pc WorkerPc.isBlocked agreeBlocked w v
    rw [WorkerPc.isBlocked_iff.mpr asleep] at before
    exact asleep_goto (q := .loopTop) rfl v (WorkerPc.isBlocked_iff.mp before.symm)
  · have same : (s.afterTask w).notifiedWorkers = (s.goto w .loopTop).notifiedWorkers :=
      List.countP_congr fun v _ => by
        rw [tabled.afterTask_pc WorkerPc.isNotified agreeNotified w v]
        rfl
    rw [same, notifiedWorkers_goto_same (by rw [returned]; rfl)]
    exact id

/-- A worker that removes itself has not been notified, so nobody counted is
taken out of the table. -/
theorem exitSection (signalled : Signalled s) (tabled : s.Tabled) {w : WorkerId}
    (exiting : s.pc w = .exiting) : Signalled (s.exitSection w) := by
  obtain ⟨i, found, workerIds⟩ := tabled.exitSection_workerIds exiting
  have pc : (s.exitSection w).pc = (s.goto w .exited).pc := s.exitSection_pc w
  have queue := s.exitSection_exec w
  refine signalled.of_le (fun v asleep => ⟨v, ?_⟩) (by rw [queue]; rfl) ?_
  · rw [pc] at asleep
    exact asleep_goto (q := .exited) rfl v asleep
  · have balance := countP_swapRemove found fun v => ((s.goto w .exited).pc v).isNotified
    have same : (s.goto w .exited).notifiedWorkers = s.notifiedWorkers :=
      notifiedWorkers_goto_same (by rw [exiting]; rfl)
    have was : ((s.goto w .exited).pc w).isNotified = false := by
      simp [System.goto, WorkerPc.isNotified]
    have kept : (s.exitSection w).notifiedWorkers = s.notifiedWorkers := by
      rw [was] at balance
      simp only [System.notifiedWorkers, workerIds, pc]
      exact balance.trans same
    rw [kept, queue]
    exact id

theorem transition {a : Action} (signalled : Signalled s) (tabled : s.Tabled)
    (moved : Transition s a s') : Signalled s' := by
  have tabled' := tabled.transition moved
  cases moved with
  | shutLoad kind =>
      unfold System.shutLoad
      split <;> exact signalled
  | insertUnheard task _ nobody =>
      refine of_nobody fun w blocked => ?_
      have member : w ∈ (s.insertTask task).workerIds := by
        rw [tabled'.mem_workerIds, blocked]
        rfl
      have awake := nobody w member
      rw [blocked] at awake
      cases awake
  | insertNotify task w _ blocked => exact signalled.insertNotify tabled task blocked
  | shutdown => exact shutdown tabled
  | awaitTest a c otherwise _ => exact signalled
  | awaitUnblock c _ => exact signalled
  | fetch a w task rest _ atFetch queue =>
      have balance := notifiedWorkers_goto tabled (.fetched task) (WorkerPc.inTable_of_atFetch atFetch)
      refine signalled.of_le
        (fun v asleep => ⟨v, asleep_goto (q := .fetched task) rfl v asleep⟩) rfl ?_
      intro covered
      change rest.length ≤ (s.goto w (.fetched task)).notifiedWorkers
      have one := Bool.toNat_le (s.pc w).isNotified
      rw [queue, List.length_cons] at covered
      omega
  | leave a w _ _ queue _ =>
      refine signalled.of_le (fun v asleep => ⟨v, asleep_goto (q := .exiting) rfl v asleep⟩) rfl ?_
      intro _
      change s.exec.taskQueue.length ≤ _
      rw [queue]
      exact Nat.zero_le _
  | sleep a w _ _ queue notShut => exact of_empty queue notShut
  | unblock w blocked => exact signalled.goto rfl (by rw [blocked]; rfl)
  | start w task fetched => exact signalled.goto (q := .running task) rfl (by rw [fetched]; rfl)
  | finish w task outcome running =>
      exact signalled.goto (q := .returned task) rfl (by rw [running]; rfl)
  | afterTask w task returned _ => exact signalled.afterTask tabled returned
  | exit w exiting => exact signalled.exitSection tabled exiting
  | threadReturn w exited => exact signalled.goto rfl (by rw [exited]; rfl)

end Signalled

/-- While a worker is blocked on `cv` and has not been notified, the executor
is not shut down and there are at most as many queued tasks as workers that
have been notified and have yet to resume. -/
theorem no_lost_signal (corePoolSize maxPoolSize : SizeT) {s : System}
    (reachable : (machine corePoolSize maxPoolSize).Reachable s) {w : WorkerId}
    (blocked : s.pc w = .waiting .blocked) :
    s.exec.shut = false ∧ s.exec.taskQueue.length ≤ s.notifiedWorkers := by
  have signalled : Signalled s := by
    refine reachable.invariant (motive := Signalled) ?_ ?_
    · refine .of_nobody fun v => ?_
      change (if some v ∈ _ then WorkerPc.loopTop else .unborn) ≠ _
      split <;> decide
    · exact fun _ _ _ reached signalled _ stepEq =>
        signalled.transition (tabled_of_reachable reached) (transition_of_step stepEq)
  exact signalled w blocked

/-- Two core workers sleep and two tasks arrive: each notification wakes one of them. -/
theorem no_lost_signal_second_worker :
    ∃ s, (machine 2#64 2#64).Reachable s ∧ s.pc 2 = .waiting .blocked ∧
      s.exec.taskQueue = [⟨0, .untrackable⟩] ∧ s.exec.shut = false ∧
      s.exec.taskQueue.length ≤ s.notifiedWorkers := by
  have run : ((machine 2#64 2#64).exec (initial 2#64 2#64)
      [.enterLoop 1, .enterLoop 2, .shutLoad .untrackable,
        .insert ⟨0, .untrackable⟩ (some 1)]).map (fun s => (s.pc 2, s.exec.taskQueue)) =
      some (.waiting .blocked, [⟨0, .untrackable⟩]) := by
    decide
  obtain ⟨s, runs, observed⟩ := Option.map_eq_some_iff.mp run
  obtain ⟨blocked, queue⟩ := Prod.mk.inj observed
  have reached := Machine.reachable_of_exec runs
  exact ⟨s, reached, blocked, queue, no_lost_signal 2#64 2#64 reached blocked⟩

end Conc11.Executor
