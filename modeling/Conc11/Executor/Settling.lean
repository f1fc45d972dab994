/-
Module: Conc11.Executor.Settling
Purpose: The executor comes to rest.  Between two new calls its threads can take only boundedly many steps,
  and when none of them can move any more every accepted task has ended, unless it was stranded; after a
  `shutdown` the executor is then terminated and every call of `await_termination` has returned.  A wake-up
  without a notification, spurious or by a deadline, may come at any time and costs boundedly many steps more.
Trusted boundary: none
Main exports: Action.internal, Action.wakes, workLeft, descends, withstands, AtRest, comes_to_rest,
  shutdown_completes
-/
import Conc11.Executor.Signalling
import Conc11.Executor.Stranding
import Conc11.Executor.Tasks
import Conc11.Executor.TerminationNotice
import Conc11.Executor.CoreWorkers
import Conc11.Library.Progress
import Mathlib.Algebra.Order.BigOperators.Group.List
import Mathlib.Algebra.Order.Group.Nat

namespace Conc11.Executor

open Library

variable {corePoolSize maxPoolSize : SizeT} {s s' : System} {a : Action}

/-! ## The steps of the calls and threads that exist -/

/-- The step belongs to a worker or to a call that has begun, and is not a
wake-up without a cause. -/
def Action.internal : Action → Bool
  | .insert _ _ | .awaitLock _ | .awaitResume _ | .enterLoop _ | .resume _ _ | .start _
  | .finish _ _ | .afterTask _ | .exit _ | .threadReturn _ => true
  | .shutLoad _ | .shutdown | .isTerminated _ | .awaitCheck _ | .awaitUnblock _ | .unblock _ => false

/-- A sleeper leaves `cv` or `wait_cv` without a notification: spuriously, or
because its deadline has passed. -/
def Action.wakes : Action → Bool
  | .awaitUnblock _ | .unblock _ => true
  | .shutLoad _ | .shutdown | .isTerminated _ | .awaitCheck _ | .insert _ _ | .awaitLock _
  | .awaitResume _ | .enterLoop _ | .resume _ _ | .start _ | .finish _ _ | .afterTask _ | .exit _
  | .threadReturn _ => false

/-! ## The measure -/

/-- An upper bound for the steps of a worker before it fetches, sleeps or ends. -/
def WorkerPc.effort : WorkerPc → Nat
  | .unborn | .waiting .blocked | .joined => 0
  | .finished => 1
  | .exited => 2
  | .exiting => 3
  | .loopTop | .waiting .notified | .waiting .awake => 4
  | .returned _ => 5
  | .running _ => 6
  | .fetched _ => 7

def AwaitPc.effort : AwaitPc → Nat
  | .checked | .waiting .notified | .waiting .awake => 1
  | .outside | .waiting .blocked | .returned => 0

namespace System

/-- The effort of all workers with an id below the next one. -/
def workersEffort (s : System) : Nat :=
  ((List.range s.exec.nextId).map fun w => (s.pc w).effort).sum

/-- A queued task is worth more than a fetched one, and a task that has yet to
be inserted more than a queued one, a woken worker and a new worker together. -/
def workLeft (s : System) : Nat :=
  20 * s.passed.length + 10 * s.exec.taskQueue.length + s.workersEffort

/-- The callers from `n` on have never entered the executor. -/
def CallersBelow (n : Nat) (s : System) : Prop := ∀ c, n ≤ c → s.awaiting c = .outside

/-- The effort of the callers below `n`. -/
def callersEffort (n : Nat) (s : System) : Nat :=
  ((List.range n).map fun c => (s.awaiting c).effort).sum

/-- An upper bound for the internal steps.  Each step of a worker may wake all
the callers, each of whom then takes one step. -/
def stepsLeft (n : Nat) (s : System) : Nat := (n + 1) * s.workLeft + s.callersEffort n

/-- A started worker moves: the effort follows. -/
theorem workersEffort_goto (hired : Hired s) {w : WorkerId} (q : WorkerPc)
    (started : s.pc w ≠ .unborn) :
    (s.goto w q).workersEffort + (s.pc w).effort = s.workersEffort + q.effort :=
  sum_map_update s.pc q List.nodup_range (List.mem_range.mpr ((hired.started w).mp started).2)

theorem workersEffort_le (nextId : s'.exec.nextId = s.exec.nextId)
    (less : ∀ w, (s'.pc w).effort ≤ (s.pc w).effort) : s'.workersEffort ≤ s.workersEffort := by
  unfold workersEffort
  rw [nextId]
  exact List.sum_le_sum fun w _ => less w

/-- The locked insert may start a worker. -/
theorem workersEffort_insertTask (tabled : s.Tabled) (task : TaskBase) :
    (s.insertTask task).workersEffort ≤ s.workersEffort + 4 := by
  rcases tabled.insertTask_cases task with ⟨_, _, _, exec, pc, _⟩ | ⟨_, exec, pc, _⟩
  · have absent : s.exec.nextId ∉ List.range s.exec.nextId := by simp
    have grown : (s.insertTask task).exec.nextId = s.exec.nextId + 1 := by rw [exec]; rfl
    simp only [workersEffort, grown, pc, List.range_succ, List.map_append, List.sum_append,
      sum_map_update_of_notMem absent, List.map_cons, List.map_nil, List.sum_singleton,
      Function.update_self]
    exact Nat.le_refl _
  · have same : (s.insertTask task).exec.nextId = s.exec.nextId := by rw [exec]
    exact (workersEffort_le same fun w => by rw [pc]).trans (Nat.le_add_right _ _)

/-- The section after a task sends its worker back to the head of the loop and
joins threads that have returned. -/
theorem workersEffort_afterTask (hired : Hired s) {w : WorkerId} {task : TaskBase}
    (returned : s.pc w = .returned task) : (s.afterTask w).workersEffort < s.workersEffort := by
  have balance := workersEffort_goto hired .loopTop (w := w) (by rw [returned]; nofun)
  have joined : (s.afterTask w).workersEffort ≤ (s.goto w .loopTop).workersEffort := by
    refine workersEffort_le rfl fun v => ?_
    by_cases same : v = w
    · subst same
      simp [System.afterTask, System.goto]
    · simp only [System.afterTask, System.goto, Function.update_of_ne same]
      split
      · exact Nat.zero_le _
      · exact Nat.le_refl _
  rw [returned] at balance
  simp only [WorkerPc.effort] at balance
  omega

end System

/-! ## Every internal step is paid for -/

/-- A worker moves to a position of less effort, and the rest of the system is
as before. -/
theorem workLeft_goto_lt (hired : Hired s) {w : WorkerId} {q : WorkerPc}
    (started : s.pc w ≠ .unborn) (less : q.effort < (s.pc w).effort)
    (passed : s'.passed = s.passed) (queue : s'.exec.taskQueue = s.exec.taskQueue)
    (nextId : s'.exec.nextId = s.exec.nextId) (pc : s'.pc = (s.goto w q).pc) :
    s'.workLeft < s.workLeft := by
  have balance := System.workersEffort_goto hired q started
  have same : s'.workersEffort = (s.goto w q).workersEffort := by
    simp only [System.workersEffort, nextId, pc]
    rfl
  simp only [System.workLeft, passed, queue, same]
  omega

theorem WorkerPc.started_of_atFetch {pc : WorkerPc} (looks : pc.atFetch = true) :
    pc ≠ .unborn ∧ pc.effort = 4 := by
  cases pc with
  | waiting status => cases status <;> simp_all [atFetch, effort]
  | _ => simp_all [atFetch, effort]

/-- The locked insert is paid for by the task it inserts. -/
theorem workLeft_insertTask (tabled : s.Tabled) {task : TaskBase} (passed : task ∈ s.passed) :
    (s.insertTask task).workLeft + 6 ≤ s.workLeft := by
  have effort := System.workersEffort_insertTask tabled task
  have erased := List.length_erase_of_mem passed
  have some := List.length_pos_of_mem passed
  have queue : (s.insertTask task).exec.taskQueue.length = s.exec.taskQueue.length + 1 := by
    rw [taskQueue_insertTask, List.length_append, List.length_singleton]
  simp only [System.workLeft, queue]
  change 20 * (s.passed.erase task).length + _ + _ + 6 ≤ _
  omega

/-- Every internal step lowers the work that is left, except for the tests of
the awaiting callers, which leave it alone. -/
theorem workLeft_transition (tabled : s.Tabled) (hired : Hired s) (internal : a.internal = true)
    (moved : Transition s a s') :
    s'.workLeft < s.workLeft ∨ s'.workLeft = s.workLeft ∧
      ∃ d otherwise, a.awaits d otherwise ∧ s' = s.awaitTest d otherwise := by
  cases moved with
  | shutLoad kind | shutdown | awaitUnblock d _ | unblock w _ => cases internal
  | awaitTest a d otherwise awaits => exact .inr ⟨rfl, d, otherwise, awaits, rfl⟩
  | insertUnheard task passed _ =>
      have paid := workLeft_insertTask tabled passed
      left
      omega
  | insertNotify task w passed blocked =>
      have paid := workLeft_insertTask tabled passed
      have balance := System.workersEffort_goto (hired.insertTask tabled task) (.waiting .notified)
        (w := w) (by rw [blocked]; nofun)
      rw [blocked] at balance
      simp only [WorkerPc.effort] at balance
      have queue : ((s.insertTask task).goto w (.waiting .notified)).workLeft =
          (s.insertTask task).workLeft + 4 := by
        simp only [System.workLeft]
        change 20 * (s.insertTask task).passed.length +
          10 * (s.insertTask task).exec.taskQueue.length + _ = _
        omega
      left
      omega
  | fetch a w task rest _ atFetch queue =>
      obtain ⟨started, effort⟩ := WorkerPc.started_of_atFetch atFetch
      have balance := System.workersEffort_goto hired (.fetched task) started
      have same : (s.fetchFront w task rest).workersEffort =
          (s.goto w (.fetched task)).workersEffort := rfl
      have passed : (s.fetchFront w task rest).passed = s.passed := rfl
      have popped : (s.fetchFront w task rest).exec.taskQueue = rest := rfl
      rw [effort] at balance
      simp only [WorkerPc.effort] at balance
      left
      simp only [System.workLeft, queue, List.length_cons, same, passed, popped]
      omega
  | leave a w _ atFetch _ _ | sleep a w _ atFetch _ _ =>
      obtain ⟨started, effort⟩ := WorkerPc.started_of_atFetch atFetch
      exact .inl (workLeft_goto_lt hired started (by rw [effort]; decide) rfl rfl rfl rfl)
  | start w task fetched =>
      exact .inl (workLeft_goto_lt hired (q := .running task) (by rw [fetched]; nofun)
        (by rw [fetched]; simp [WorkerPc.effort]) rfl rfl rfl rfl)
  | finish w task outcome running =>
      exact .inl (workLeft_goto_lt hired (q := .returned task) (by rw [running]; nofun)
        (by rw [running]; simp [WorkerPc.effort]) rfl rfl rfl rfl)
  | afterTask w task returned _ =>
      have less := System.workersEffort_afterTask hired returned
      left
      simp only [System.workLeft]
      change 20 * s.passed.length + 10 * s.exec.taskQueue.length + _ < _
      omega
  | exit w exiting =>
      refine .inl (workLeft_goto_lt hired (q := .exited) (by rw [exiting]; nofun)
        (by rw [exiting]; decide) ?_ (by rw [s.exitSection_exec]; rfl)
        (by rw [s.exitSection_exec]; rfl) (s.exitSection_pc w))
      unfold System.exitSection
      dsimp only
      split <;> rfl
  | threadReturn w exited =>
      exact .inl (workLeft_goto_lt hired (q := .finished) (by rw [exited]; nofun)
        (by rw [exited]; decide) rfl rfl rfl rfl)

theorem AwaitPc.effort_le (pc : AwaitPc) : pc.effort ≤ 1 := by
  cases pc with
  | waiting status => cases status <;> decide
  | _ => decide

namespace System

theorem callersEffort_le (n : Nat) (s : System) : s.callersEffort n ≤ n := by
  have bound := List.sum_le_card_nsmul ((List.range n).map fun c => (s.awaiting c).effort) 1
    fun effort member => by
      obtain ⟨c, _, rfl⟩ := List.mem_map.mp member
      exact (s.awaiting c).effort_le
  simpa [callersEffort] using bound

/-- A caller below `n` moves: the effort follows. -/
theorem callersEffort_awaitTest {n d : Nat} (below : d < n) (otherwise : AwaitPc) :
    (s.awaitTest d otherwise).callersEffort n + (s.awaiting d).effort =
      s.callersEffort n +
        (if s.exec.isTerminatedLocked then AwaitPc.returned else otherwise).effort :=
  sum_map_update s.awaiting _ List.nodup_range (List.mem_range.mpr below)

end System

/-- An internal test for termination ends a caller's step: the caller was about to look,
and now it has returned or sleeps. -/
theorem internal_awaits {d : Nat} {otherwise : AwaitPc} (internal : a.internal = true)
    (awaits : a.awaits d otherwise) (stepEq : step s a = some s') :
    otherwise = .waiting .blocked ∧ (s.awaiting d).effort = 1 := by
  cases a with
  | awaitLock e =>
      obtain ⟨rfl, rfl⟩ := awaits
      obtain ⟨checked, _⟩ := Option.ite_none_right_eq_some.mp stepEq
      exact ⟨rfl, by rw [checked]; rfl⟩
  | awaitResume e =>
      obtain ⟨rfl, rfl⟩ := awaits
      obtain ⟨back, _⟩ := Option.ite_none_right_eq_some.mp stepEq
      exact ⟨rfl, by rcases back with woken | woken <;> rw [woken] <;> rfl⟩
  | isTerminated _ | awaitCheck _ => cases internal
  | _ => exact awaits.elim

/-- Every internal step lowers the bound. -/
theorem stepsLeft_transition {n : Nat} (tabled : s.Tabled) (hired : Hired s)
    (below : s.CallersBelow n) (internal : a.internal = true) (stepEq : step s a = some s') :
    s'.stepsLeft n < s.stepsLeft n := by
  rcases workLeft_transition tabled hired internal (transition_of_step stepEq) with
    lower | ⟨same, d, otherwise, awaits, rfl⟩
  · have woken := s'.callersEffort_le n
    have paid := Nat.mul_le_mul_left (n + 1) (Nat.succ_le_of_lt lower)
    rw [Nat.mul_succ] at paid
    unfold System.stepsLeft
    omega
  · obtain ⟨rfl, effort⟩ := internal_awaits internal awaits stepEq
    have inside : d < n := by
      by_contra outside
      rw [below d (Nat.not_lt.mp outside)] at effort
      cases effort
    have settles : (if s.exec.isTerminatedLocked then AwaitPc.returned else
        .waiting .blocked).effort = 0 := by
      split <;> rfl
    have balance := s.callersEffort_awaitTest inside (.waiting .blocked)
    rw [effort, settles] at balance
    unfold System.stepsLeft
    rw [same]
    omega

/-- What a wake-up can be: a caller's or a worker's. -/
theorem wakes_cases (wakes : a.wakes = true) (stepEq : step s a = some s') :
    (∃ d, s.awaiting d = .waiting .blocked ∧
      s' = { s with awaiting := Function.update s.awaiting d (.waiting .awake) }) ∨
    ∃ w, s.pc w = .waiting .blocked ∧ s' = s.goto w (.waiting .awake) := by
  cases a
  case awaitUnblock d =>
    obtain ⟨blocked, moved⟩ := Option.ite_none_right_eq_some.mp stepEq
    exact .inl ⟨d, blocked, (Option.some.inj moved).symm⟩
  case unblock w =>
    obtain ⟨blocked, moved⟩ := Option.ite_none_right_eq_some.mp stepEq
    exact .inr ⟨w, blocked, (Option.some.inj moved).symm⟩
  all_goals cases wakes

/-- A sleeper that is woken has to look once more, and a worker may then wake all
the callers with each step that is left to it. -/
theorem stepsLeft_of_wakes (n : Nat) (hired : Hired s) (wakes : a.wakes = true)
    (stepEq : step s a = some s') : s'.stepsLeft n ≤ s.stepsLeft n + 4 * (n + 1) := by
  rcases wakes_cases wakes stepEq with ⟨d, _, rfl⟩ | ⟨w, blocked, rfl⟩
  · have awake := System.callersEffort_le n
      { s with awaiting := Function.update s.awaiting d (.waiting .awake) }
    unfold System.stepsLeft
    change (n + 1) * s.workLeft + _ ≤ _
    omega
  · have balance := System.workersEffort_goto hired (.waiting .awake) (w := w)
      (by rw [blocked]; nofun)
    rw [blocked] at balance
    simp only [WorkerPc.effort] at balance
    have work : (s.goto w (.waiting .awake)).workLeft = s.workLeft + 4 := by
      simp only [System.workLeft]
      change 20 * s.passed.length + 10 * s.exec.taskQueue.length + _ = _
      omega
    unfold System.stepsLeft
    rw [work, Nat.mul_add, Nat.mul_comm (n + 1) 4]
    change _ + s.callersEffort n ≤ _
    omega

/-! ## The callers of a run -/

theorem awaitTest_awaiting_of_ne {c d : Nat} (other : c ≠ d) (otherwise : AwaitPc) :
    (s.awaitTest d otherwise).awaiting c = s.awaiting c :=
  Function.update_of_ne other ..

/-- A broadcast on `wait_cv` lets nobody in or out. -/
theorem awaiting_notifyAll (c : Nat) :
    s.notifyAllWaitCv.awaiting c = .outside ↔ s.awaiting c = .outside := by
  simp only [System.notifyAllWaitCv]
  split
  next asleep =>
    rw [asleep]
    exact iff_of_false (by decide) (by decide)
  next => exact Iff.rfl

theorem awaiting_exitSection_outside (w : WorkerId) (c : Nat) :
    (s.exitSection w).awaiting c = .outside ↔ s.awaiting c = .outside := by
  unfold System.exitSection
  dsimp only
  split
  · exact awaiting_notifyAll c
  · exact Iff.rfl

/-- A step lets at most one caller in. -/
theorem awaiting_transition (moved : Transition s a s') :
    ∃ d, ∀ c, c ≠ d → (s'.awaiting c = .outside ↔ s.awaiting c = .outside) := by
  cases moved with
  | awaitTest _ d otherwise _ =>
      exact ⟨d, fun c other => by rw [awaitTest_awaiting_of_ne other]⟩
  | awaitUnblock d _ => exact ⟨d, fun c other => by simp only [Function.update_of_ne other]⟩
  | shutLoad kind =>
      unfold System.shutLoad
      split <;> exact ⟨0, fun _ _ => Iff.rfl⟩
  | shutdown =>
      refine ⟨0, fun c _ => ?_⟩
      unfold System.shutdown
      dsimp only
      split
      · exact awaiting_notifyAll c
      · exact Iff.rfl
  | exit w _ => exact ⟨0, fun c _ => awaiting_exitSection_outside w c⟩
  | _ => exact ⟨0, fun _ _ => Iff.rfl⟩

/-- An internal step lets nobody in or out. -/
theorem awaiting_internal (internal : a.internal = true) (stepEq : step s a = some s') (c : Nat) :
    s'.awaiting c = .outside ↔ s.awaiting c = .outside := by
  have moved := transition_of_step stepEq
  cases moved with
  | shutLoad kind | shutdown | awaitUnblock d _ | unblock w _ => cases internal
  | awaitTest a d otherwise awaits =>
      obtain ⟨rfl, effort⟩ := internal_awaits internal awaits stepEq
      by_cases same : c = d
      · subst same
        have now : (s.awaitTest c (.waiting .blocked)).awaiting c =
            if s.exec.isTerminatedLocked then .returned else .waiting .blocked :=
          Function.update_self ..
        refine iff_of_false ?_ fun outside => ?_
        · rw [now]
          split <;> nofun
        · rw [outside] at effort
          cases effort
      · rw [awaitTest_awaiting_of_ne same]
  | exit w _ => exact awaiting_exitSection_outside w c
  | _ => exact Iff.rfl

/-- A wake-up changes nothing but where the sleeper stands. -/
theorem frame_of_wakes (wakes : a.wakes = true) (stepEq : step s a = some s') :
    s'.exec = s.exec ∧ s'.inserted = s.inserted ∧ s'.passed = s.passed ∧
      ∀ c, s'.awaiting c = .outside ↔ s.awaiting c = .outside := by
  rcases wakes_cases wakes stepEq with ⟨d, blocked, rfl⟩ | ⟨w, _, rfl⟩
  · refine ⟨rfl, rfl, rfl, fun c => ?_⟩
    change Function.update s.awaiting d (.waiting .awake) c = .outside ↔ _
    by_cases same : c = d
    · rw [same, Function.update_self, blocked]
      exact iff_of_false nofun nofun
    · rw [Function.update_of_ne same]
  · exact ⟨rfl, rfl, rfl, fun _ => Iff.rfl⟩

/-- Only finitely many callers have ever entered the executor. -/
theorem callersBelow_of_reachable {ok : System → Action → Prop}
    (reachable : (machine corePoolSize maxPoolSize).ReachableUnder ok s) :
    ∃ n, s.CallersBelow n := by
  refine reachable.invariant (motive := fun s => ∃ n, s.CallersBelow n) ⟨0, fun _ _ => rfl⟩ ?_
  rintro s a s' _ ⟨n, below⟩ _ stepEq
  obtain ⟨d, others⟩ := awaiting_transition (transition_of_step stepEq)
  refine ⟨max n (d + 1), fun c above => ?_⟩
  have isOther : c ≠ d := by omega
  exact (others c isOther).mpr (below c (by omega))

/-- The measure of the internal runs. -/
theorem descends (corePoolSize maxPoolSize : SizeT) {ok : System → Action → Prop} (n : Nat)
    (internal : ∀ s a, ok s a → a.internal = true) :
    (machine corePoolSize maxPoolSize).Descends
      (fun s => (machine corePoolSize maxPoolSize).Reachable s ∧ s.CallersBelow n)
      ok (System.stepsLeft n) where
  keeps := fun ⟨reached, below⟩ allowed stepEq =>
    ⟨reached.step trivial stepEq, fun c above =>
      (awaiting_internal (internal _ _ allowed) stepEq c).mpr (below c above)⟩
  falls := fun ⟨reached, below⟩ allowed stepEq =>
    stepsLeft_transition (tabled_of_reachable reached) (hired_of_reachable reached) below
      (internal _ _ allowed) stepEq

theorem withstands (corePoolSize maxPoolSize : SizeT) (n : Nat) :
    (machine corePoolSize maxPoolSize).Withstands
      (fun s => (machine corePoolSize maxPoolSize).Reachable s ∧ s.CallersBelow n)
      Action.wakes (System.stepsLeft n) (4 * (n + 1)) where
  keeps := fun ⟨reached, below⟩ wakes stepEq =>
    ⟨reached.step trivial stepEq, fun c above =>
      ((frame_of_wakes wakes stepEq).2.2.2 c).mpr (below c above)⟩
  rises := fun ⟨reached, _⟩ wakes stepEq =>
    stepsLeft_of_wakes n (hired_of_reachable reached) wakes stepEq

/-! ## At rest -/

/-- Neither a worker nor a call that has begun can move. -/
abbrev AtRest (s : System) : Prop := ∀ a : Action, a.internal = true → step s a = none

/-- What has become of the threads and the tasks by then. -/
structure Rested (s : System) : Prop where
  workers : ∀ w, s.pc w = .unborn ∨ s.pc w = .waiting .blocked ∨ s.pc w = .finished ∨
    s.pc w = .joined
  callers : ∀ c, s.awaiting c = .outside ∨ s.awaiting c = .waiting .blocked ∨
    s.awaiting c = .returned
  passed : s.passed = []
  /-- A task is left only when nobody is left to run it. -/
  queue : s.exec.taskQueue = [] ∨ s.exec.workers = []
  ended : (s.finished.map Prod.fst).Perm (s.fetched.map Prod.snd)
  shut : s.exec.shut = true → s.exec.workers = []

theorem WorkerPc.dead_cases {pc : WorkerPc} (isDead : pc.isDead = true) :
    pc = .exited ∨ pc = .finished := by
  cases pc <;> simp_all [WorkerPc.isDead]

namespace AtRest

/-- A worker at rest sleeps, or its thread has returned. -/
theorem workers (atRest : AtRest s) (tabled : s.Tabled) (w : WorkerId) :
    s.pc w = .unborn ∨ s.pc w = .waiting .blocked ∨ s.pc w = .finished ∨ s.pc w = .joined := by
  have resumes : ∀ v, s.pc v = .waiting .notified ∨ s.pc v = .waiting .awake → False := by
    intro v back
    have stays := atRest (.resume v false) rfl
    simp [step, back] at stays
  have returns : ∀ v, s.pc v ≠ .exited := by
    intro v exited
    have stays := atRest (.threadReturn v) rfl
    simp [step, exited] at stays
  cases position : s.pc w with
  | unborn => exact .inl rfl
  | finished => exact .inr (.inr (.inl rfl))
  | joined => exact .inr (.inr (.inr rfl))
  | waiting status =>
      cases status with
      | blocked => exact .inr (.inl rfl)
      | notified => exact (resumes w (.inl position)).elim
      | awake => exact (resumes w (.inr position)).elim
  | loopTop =>
      have stays := atRest (.enterLoop w) rfl
      simp [step, position] at stays
  | fetched task =>
      have stays := atRest (.start w) rfl
      simp [step, position] at stays
  | running task =>
      have stays := atRest (.finish w .normal) rfl
      simp [step, position] at stays
  | returned task =>
      -- every dead thread has returned, so the reaping section does not block
      have stays := atRest (.afterTask w) rfl
      obtain ⟨dead, table⟩ := tabled
      have joinable : ∀ v ∈ s.exec.deadWorkers.filterMap id, s.pc v = .finished := by
        intro v member
        have isDead : (s.pc v).isDead = true := by
          rw [← table.mem_deadWorkers]
          simpa using member
        exact (WorkerPc.dead_cases isDead).resolve_left (returns v)
      simp only [step, position, if_pos joinable] at stays
      cases stays
  | exiting =>
      have stays := atRest (.exit w) rfl
      simp [step, position] at stays
  | exited => exact (returns w position).elim

theorem callers (atRest : AtRest s) (c : Nat) :
    s.awaiting c = .outside ∨ s.awaiting c = .waiting .blocked ∨ s.awaiting c = .returned := by
  cases position : s.awaiting c with
  | outside => exact .inl rfl
  | returned => exact .inr (.inr rfl)
  | checked =>
      have stays := atRest (.awaitLock c) rfl
      simp [step, position] at stays
  | waiting status =>
      cases status with
      | blocked => exact .inr (.inl rfl)
      | notified | awake =>
          have stays := atRest (.awaitResume c) rfl
          simp [step, position] at stays

/-- A call that has read `shut == false` can always insert its task. -/
theorem passed (atRest : AtRest s) : s.passed = [] := by
  refine List.eq_nil_iff_forall_not_mem.mpr fun task member => ?_
  by_cases asleep : ∃ w, ((s.insertTask task).pc w).isBlocked = true
  · obtain ⟨w, blocked⟩ := asleep
    have stays := atRest (.insert task (some w)) rfl
    simp [step, member, System.notifyOneCv, blocked] at stays
  · have nobody : ∀ w ∈ (s.insertTask task).workerIds,
        ((s.insertTask task).pc w).isBlocked = false := fun w _ =>
      Bool.not_eq_true _ ▸ fun blocked => asleep ⟨w, blocked⟩
    have stays := atRest (.insert task none) rfl
    simp only [step, if_pos member, System.notifyOneCv, if_pos nobody] at stays
    cases stays

/-- Nobody at rest holds a task. -/
theorem held (atRest : AtRest s) (tabled : s.Tabled) : s.held = 0 := by
  refine List.sum_eq_zero fun part member => ?_
  obtain ⟨w, _, rfl⟩ := List.mem_map.mp member
  rcases atRest.workers tabled w with is | is | is | is <;> rw [is] <;> rfl

/-- At rest the elements of `workers` sleep. -/
theorem blocked_of_mem (atRest : AtRest s) (tabled : s.Tabled) {w : WorkerId}
    (member : w ∈ s.workerIds) : s.pc w = .waiting .blocked := by
  have live := (tabled.mem_workerIds w).mp member
  rcases atRest.workers tabled w with is | is | is | is
  · simp [is, WorkerPc.inTable, WorkerPc.inMainLoop] at live
  · exact is
  · simp [is, WorkerPc.inTable, WorkerPc.inMainLoop] at live
  · simp [is, WorkerPc.inTable, WorkerPc.inMainLoop] at live

/-- While somebody sleeps, every queued task is covered by a notified worker,
and at rest there is none. -/
theorem queue_of_workers (atRest : AtRest s) (tabled : s.Tabled) (signalled : Signalled s)
    (some : s.exec.workers ≠ []) : s.exec.shut = false ∧ s.exec.taskQueue = [] := by
  obtain ⟨w, member⟩ : ∃ w, w ∈ s.workerIds := by
    apply List.exists_mem_of_ne_nil
    intro none
    exact some (List.isEmpty_iff.mp (tabled.workers_isEmpty.mpr none))
  obtain ⟨notShut, covered⟩ := signalled w (atRest.blocked_of_mem tabled member)
  have nobody : s.notifiedWorkers = 0 := by
    refine List.countP_eq_zero.mpr fun v isWorker => ?_
    rw [atRest.blocked_of_mem tabled isWorker]
    decide
  rw [nobody] at covered
  exact ⟨notShut, List.eq_nil_of_length_eq_zero (Nat.le_zero.mp covered)⟩

theorem rested (atRest : AtRest s) (tabled : s.Tabled) (signalled : Signalled s)
    (accounted : s.ledger.Accounted) : Rested s := by
  have held := atRest.held tabled
  refine ⟨atRest.workers tabled, atRest.callers, atRest.passed, ?_, ?_, fun shut => ?_⟩
  · by_cases none : s.exec.workers = []
    · exact .inr none
    · exact .inl (atRest.queue_of_workers tabled signalled none).2
  · have fetched := accounted.fetched
    have started := accounted.started
    simp only [System.ledger, Ledger.fetchedJobs, Ledger.finishedJobs, held, Prod.fst_zero,
      Prod.snd_zero, add_zero] at fetched started
    exact (Multiset.coe_eq_coe.mp (fetched.trans started)).symm
  · by_contra some
    rw [(atRest.queue_of_workers tabled signalled some).1] at shut
    cases shut

end AtRest

/-! ## Runs -/

theorem signalled_of_reachable {ok : System → Action → Prop}
    (reachable : (machine corePoolSize maxPoolSize).ReachableUnder ok s) : Signalled s := by
  refine reachable.invariant (motive := Signalled) (.of_nobody fun v => ?_) ?_
  · change (if some v ∈ _ then WorkerPc.loopTop else .unborn) ≠ _
    split <;> decide
  · exact fun _ _ _ before signalled _ stepEq =>
      signalled.transition (tabled_of_reachable before) (transition_of_step stepEq)

theorem noticed_of_reachable {ok : System → Action → Prop}
    (reachable : (machine corePoolSize maxPoolSize).ReachableUnder ok s) : Noticed s :=
  reachable.invariant (motive := Noticed) (fun _ _ => by change AwaitPc.outside ≠ _; decide)
    fun _ _ _ before noticed _ stepEq =>
      noticed_transition (tabled_of_reachable before) noticed (transition_of_step stepEq)

/-- Where the inserts are attended, so is a non-empty queue. -/
theorem attended_of_reachable (room : 1 ≤ maxPoolSize.toNat)
    (reachable : (machine corePoolSize maxPoolSize).ReachableUnder InsertAttended s) :
    s.exec.taskQueue ≠ [] → Attended s := by
  obtain ⟨_, _, noQueue, _⟩ := blank_addCoreWorkers corePoolSize maxPoolSize corePoolSize.toNat
  refine reachable.invariant (motive := fun s => s.exec.taskQueue ≠ [] → Attended s)
    (fun queued => absurd noQueue queued) fun s a s' before attended allowed stepEq => ?_
  have room' : 1 ≤ s.exec.maxPoolSize.toNat := by rwa [(sizes_of_reachable before).2]
  exact attended_transition (tabled_of_reachable before) room' attended allowed
    (transition_of_step stepEq)

/-- Where the inserts are attended, nothing is left at rest. -/
theorem AtRest.queue (atRest : AtRest s) (room : 1 ≤ maxPoolSize.toNat)
    (reachable : (machine corePoolSize maxPoolSize).ReachableUnder InsertAttended s) :
    s.exec.taskQueue = [] := by
  by_contra queued
  obtain ⟨w, member, _⟩ := attended_of_reachable room reachable queued
  have some : s.exec.workers ≠ [] := List.ne_nil_of_mem member
  exact queued (atRest.queue_of_workers (tabled_of_reachable reachable)
    (signalled_of_reachable reachable) some).2

/-- Every task that was inserted by then has been started and has ended, once. -/
theorem AtRest.once (atRest : AtRest s) (room : 1 ≤ maxPoolSize.toNat)
    (reachable : (machine corePoolSize maxPoolSize).ReachableUnder InsertAttended s)
    {task : TaskBase} (member : task ∈ s.inserted) :
    s.started.count task = 1 ∧ (s.finished.map Prod.fst).count task = 1 := by
  have held := atRest.held (tabled_of_reachable reachable)
  exact (accounted_of_reachable reachable.reachable).once (atRest.queue room reachable)
    (congrArg Prod.fst held) (congrArg Prod.snd held) member

/-- The internal steps of a run whose inserts are attended. -/
def AttendedInternal (s : System) (a : Action) : Prop := a.internal = true ∧ InsertAttended s a

/-- A wake-up is no insert. -/
theorem attended_of_allowed (allowed : Machine.AllowedOr AttendedInternal Action.wakes s a) :
    InsertAttended s a := by
  rcases allowed with ⟨_, attended⟩ | wakes
  · exact attended
  · cases a with
    | insert task target => cases wakes
    | _ => trivial

/-- Where no attended step is left, no step is: an insert that finds only
workers on their way out finds a worker that can leave. -/
theorem atRest_of_attended (tabled : s.Tabled)
    (rests : (machine corePoolSize maxPoolSize).RestsUnder AttendedInternal s) : AtRest s := by
  intro a internal
  by_cases allowed : InsertAttended s a
  · exact rests a ⟨internal, allowed⟩
  · cases a with
    | insert task target =>
        simp only [InsertAttended, not_or] at allowed
        obtain ⟨some, unattended⟩ := allowed
        obtain ⟨w, member⟩ : ∃ w, w ∈ s.workerIds := by
          apply List.exists_mem_of_ne_nil
          intro none
          exact some (List.isEmpty_iff.mp (tabled.workers_isEmpty.mpr none))
        have live := (tabled.mem_workerIds w).mp member
        have out : (s.pc w).inMainLoop = false :=
          Bool.not_eq_true _ ▸ fun inLoop => unattended (tabled.attended_of_pc inLoop)
        have exiting : s.pc w = .exiting := by
          cases position : s.pc w <;> simp_all [WorkerPc.inTable, WorkerPc.inMainLoop]
        have stays := rests (.exit w) ⟨rfl, trivial⟩
        simp [machine, step, exiting] at stays
    | _ => exact absurd trivial allowed

/-- What an internal step keeps of the calls that have begun. -/
theorem kept_internal (internal : a.internal = true) (stepEq : step s a = some s') :
    s'.exec.shut = s.exec.shut ∧
      ∀ task ∈ s.inserted ++ s.passed, task ∈ s'.inserted ++ s'.passed := by
  have inserts : ∀ task, (s.insertTask task).exec.shut = s.exec.shut ∧
      ∀ t ∈ s.inserted ++ s.passed, t ∈ (s.insertTask task).inserted ++ (s.insertTask task).passed := by
    intro task
    constructor
    · simp only [System.insertTask, ThreadPoolExecutor.insertTaskLocked]
      split <;> rfl
    · intro t member
      change t ∈ s.inserted ++ [task] ++ s.passed.erase task
      simp only [List.mem_append, List.mem_singleton] at member ⊢
      by_cases same : t = task
      · exact .inl (.inr same)
      · rcases member with old | waiting
        · exact .inl (.inl old)
        · exact .inr ((List.mem_erase_of_ne same).mpr waiting)
  cases transition_of_step stepEq with
  | shutLoad kind | shutdown | awaitUnblock d _ | unblock w _ => cases internal
  | insertUnheard task _ _ => exact inserts task
  | insertNotify task w _ _ => exact inserts task
  | exit w _ =>
      constructor
      · rw [s.exitSection_exec]
        rfl
      · unfold System.exitSection
        dsimp only
        split <;> exact fun _ member => member
  | _ => exact ⟨rfl, fun _ member => member⟩

/-- A shutdown completes: from any state of a run whose inserts are attended in
which `shut` is set, the executor can come to rest, whatever has happened
meanwhile, and wherever it does it is terminated.  Then every thread has
returned, every task that had been accepted, also by a call that had yet to
insert it, has ended, once, and every caller that was waiting has returned. -/
theorem shutdown_completes (corePoolSize maxPoolSize : SizeT) (room : 1 ≤ maxPoolSize.toNat)
    {s : System} (reachable : (machine corePoolSize maxPoolSize).ReachableUnder InsertAttended s)
    (shut : s.exec.shut = true) :
    (∀ labels s', (machine corePoolSize maxPoolSize).RunUnder
        (Machine.AllowedOr AttendedInternal Action.wakes) s labels s' →
      ∃ more s'', (machine corePoolSize maxPoolSize).RunUnder AttendedInternal s' more s'' ∧
        AtRest s'') ∧
    ∀ labels s', (machine corePoolSize maxPoolSize).RunUnder
        (Machine.AllowedOr AttendedInternal Action.wakes) s labels s' → AtRest s' →
      s'.terminated = true ∧
      (∀ w, s'.pc w = .unborn ∨ s'.pc w = .finished ∨ s'.pc w = .joined) ∧
      (∀ task ∈ s.inserted ++ s.passed,
        s'.started.count task = 1 ∧ (s'.finished.map Prod.fst).count task = 1) ∧
      ∀ c, s.awaiting c ≠ .outside → s'.awaiting c = .returned := by
  have onwards : ∀ labels s', (machine corePoolSize maxPoolSize).RunUnder
      (Machine.AllowedOr AttendedInternal Action.wakes) s labels s' →
        (machine corePoolSize maxPoolSize).ReachableUnder InsertAttended s' := fun _ _ run =>
    reachable.later (run.later.mono fun _ _ allowed => attended_of_allowed allowed)
  constructor
  · intro labels s' run
    have reached := onwards labels s' run
    obtain ⟨n, below⟩ := callersBelow_of_reachable reached
    obtain ⟨more, s'', resting, rests⟩ :=
      (descends corePoolSize maxPoolSize n fun _ _ allowed => And.left allowed).exists_rest
        ⟨reached.reachable, below⟩
    have reached' := reached.later (resting.later.mono fun _ _ allowed => allowed.2)
    exact ⟨more, s'', resting, atRest_of_attended (tabled_of_reachable reached') rests⟩
  · intro labels s' run atRest
    have reached := onwards labels s' run
    have tabled := tabled_of_reachable reached
    obtain ⟨shut', accepted, entered⟩ : s'.exec.shut = true ∧
        (∀ task ∈ s.inserted ++ s.passed, task ∈ s'.inserted ++ s'.passed) ∧
        ∀ c, s'.awaiting c = .outside ↔ s.awaiting c = .outside := by
      refine run.invariant (motive := fun now => now.exec.shut = true ∧
          (∀ task ∈ s.inserted ++ s.passed, task ∈ now.inserted ++ now.passed) ∧
          ∀ c, now.awaiting c = .outside ↔ s.awaiting c = .outside) ?_
        ⟨shut, fun _ member => member, fun _ => Iff.rfl⟩
      rintro now a next ⟨isShut, tasks, callers⟩ (⟨internal, _⟩ | wakes) stepEq
      · obtain ⟨sameShut, moreTasks⟩ := kept_internal internal stepEq
        exact ⟨sameShut.trans isShut, fun task member => moreTasks task (tasks task member),
          fun c => (awaiting_internal internal stepEq c).trans (callers c)⟩
      · obtain ⟨exec, inserted, passed, same⟩ := frame_of_wakes wakes stepEq
        rw [exec, inserted, passed]
        exact ⟨isShut, tasks, fun c => (same c).trans (callers c)⟩
    have rested := atRest.rested tabled (signalled_of_reachable reached)
      (accounted_of_reachable reached.reachable)
    have workers := rested.shut shut'
    have terminated : s'.terminated = true :=
      System.terminated_iff.mpr ⟨shut', atRest.queue room reached, workers⟩
    refine ⟨terminated, fun w => ?_, fun task member => ?_, fun c inside => ?_⟩
    · rcases rested.workers w with is | asleep | is | is
      · exact .inl is
      · have out := tabled.out_of_terminated terminated w
        rw [asleep] at out
        cases out
      · exact .inr (.inl is)
      · exact .inr (.inr is)
    · have inserted := accepted task member
      rw [rested.passed, List.append_nil] at inserted
      exact atRest.once room reached inserted
    · rcases rested.callers c with is | asleep | is
      · exact absurd ((entered c).mp is) inside
      · exact absurd asleep (noticed_of_reachable reached terminated c)
      · exact is

/-- `shutdown` comes while a task is queued, another one is about to be inserted and a
caller waits, whose wait then ends by itself. -/
theorem shutdown_completes_pending_insert :
    ∃ s labels s', (machine 1#64 1#64).ReachableUnder InsertAttended s ∧
      s.exec.taskQueue = [⟨0, .task⟩] ∧ s.passed = [⟨1, .untrackable⟩] ∧
      s.awaiting 0 = .waiting .blocked ∧
      (machine 1#64 1#64).RunUnder (Machine.AllowedOr AttendedInternal Action.wakes) s
        (.awaitUnblock 0 :: labels) s' ∧ AtRest s' ∧
      s'.terminated = true ∧ (s'.finished.map Prod.fst).count ⟨1, .untrackable⟩ = 1 ∧
      s'.awaiting 0 = .returned := by
  have run : ((machine 1#64 1#64).execUnder InsertAttended (initial 1#64 1#64)
      [.shutLoad .task, .shutLoad .untrackable, .insert ⟨0, .task⟩ none, .awaitCheck 0,
        .awaitLock 0, .shutdown]).map
      (fun s => (s.exec.taskQueue, s.passed, s.awaiting 0, s.exec.shut)) =
        some ([⟨0, .task⟩], [⟨1, .untrackable⟩], .waiting .blocked, true) := by
    decide
  obtain ⟨s, runs, observed⟩ := Option.map_eq_some_iff.mp run
  simp only [Prod.mk.injEq] at observed
  obtain ⟨queue, passed, blocked, shut⟩ := observed
  have reached := Machine.reachableUnder_of_execUnder runs
  obtain ⟨canRest, completed⟩ := shutdown_completes 1#64 1#64 (by decide) reached shut
  have wakesUp : (machine 1#64 1#64).step s (.awaitUnblock 0) =
      some { s with awaiting := Function.update s.awaiting 0 (.waiting .awake) } :=
    if_pos blocked
  obtain ⟨labels, s', onwards, atRest⟩ := canRest [.awaitUnblock 0] _ ⟨_, .inr rfl, wakesUp, rfl⟩
  have whole : (machine 1#64 1#64).RunUnder (Machine.AllowedOr AttendedInternal Action.wakes) s
      (.awaitUnblock 0 :: labels) s' := ⟨_, .inr rfl, wakesUp, onwards.mono fun _ _ => .inl⟩
  obtain ⟨terminated, _, tasks, callers⟩ := completed _ s' whole atRest
  exact ⟨s, labels, s', reached, queue, passed, blocked, whole, atRest, terminated,
    (tasks ⟨1, .untrackable⟩ (by rw [passed]; simp)).2, callers 0 (by rw [blocked]; decide)⟩

end Conc11.Executor
