/-
Module: Conc11.Executor.DeadWorkers
Purpose: What one step of the threads does to the dead workers, to user code and to whoever reaps.  A worker
  publishes itself in `dead_workers` in its last section, so `dead_workers` grows only under the lock and
  nothing in it moves but by returning, and a reaper keeps the lock.
Trusted boundary: none
Main exports: Settled, settled_scoped, dead_scoped, ScopedTransition.sys_cases, userCode_kept,
  inTable_of_userCode, terminated_kept, reaper_kept, awaited_returned
-/
import Conc11.Executor.Reaping
import Conc11.Executor.Termination
import Conc11.Executor.UserCode

namespace Conc11.Executor

open Library ThreadPoolExecutor

/-! ## The dead workers in a step of the executor -/

/-- Nobody is joined, and who has returned has still returned. -/
def Settled (s s' : System) : Prop :=
  ∀ v, (s'.pc v = .joined ↔ s.pc v = .joined) ∧ (s.pc v = .finished → s'.pc v = .finished)

/-- A worker that can still do something, or has to return, moves. -/
theorem settled_update {s s' : System} {w : WorkerId} {q : WorkerPc}
    (moved : s'.pc = Function.update s.pc w q) (notJoined : s.pc w ≠ .joined)
    (notFinished : s.pc w ≠ .finished) (stays : q ≠ .joined) : Settled s s' := by
  intro v
  rw [moved]
  by_cases same : v = w
  · rw [same, Function.update_self]
    exact ⟨iff_of_false stays notJoined, fun finished => absurd finished notFinished⟩
  · rw [Function.update_of_ne same]
    exact ⟨Iff.rfl, id⟩

theorem settled_of_pc {s s' : System} (same : s'.pc = s.pc) : Settled s s' := by
  intro v
  rw [same]
  exact ⟨Iff.rfl, id⟩

theorem Settled.trans {s s' s'' : System} (first : Settled s s') (second : Settled s' s'') :
    Settled s s'' :=
  fun v => ⟨(second v).1.trans (first v).1, fun finished => (second v).2 ((first v).2 finished)⟩

section Base

variable {s s' : System} {a : Action}

theorem settled_insertTask (tabled : s.Tabled) (task : TaskBase) : Settled s (s.insertTask task) := by
  rcases tabled.insertTask_cases task with ⟨_, _, unborn, _, pc, _⟩ | ⟨_, _, pc, _⟩
  · exact settled_update pc (by rw [unborn]; decide) (by rw [unborn]; decide) (by decide)
  · exact settled_of_pc pc

/-- Every step but the reap leaves the joined and the returned threads alone. -/
theorem settled_transition (tabled : s.Tabled) (moved : Transition s a s')
    (notReap : ∀ w, a ≠ .afterTask w) : Settled s s' := by
  have fetching : ∀ {w q}, (s.pc w).atFetch = true → q ≠ WorkerPc.joined →
      s'.pc = Function.update s.pc w q → Settled s s' := by
    intro w q atFetch stays moved
    refine settled_update moved ?_ ?_ stays
    · intro joined
      rw [joined] at atFetch
      cases atFetch
    · intro finished
      rw [finished] at atFetch
      cases atFetch
  cases moved with
  | shutLoad kind =>
      unfold System.shutLoad
      split <;> exact settled_of_pc rfl
  | insertUnheard task _ _ => exact settled_insertTask tabled task
  | insertNotify task w _ blocked =>
      exact (settled_insertTask tabled task).trans
        (settled_update rfl (by rw [blocked]; decide) (by rw [blocked]; decide) (by decide))
  | shutdown =>
      intro v
      unfold System.shutdown
      dsimp only
      split
      · exact ⟨Iff.rfl, id⟩
      · change ((if (s.pc v).isBlocked then WorkerPc.waiting .notified else s.pc v) = .joined ↔ _) ∧
          (_ → (if (s.pc v).isBlocked then WorkerPc.waiting .notified else s.pc v) = .finished)
        split
        next blocked =>
          rw [WorkerPc.isBlocked_iff.mp blocked]
          exact ⟨by simp, by simp⟩
        next => exact ⟨Iff.rfl, id⟩
  | awaitTest _ _ _ _ | awaitUnblock _ _ => exact settled_of_pc rfl
  | fetch _ w task rest _ atFetch _ => exact fetching atFetch WorkerPc.noConfusion rfl
  | leave _ w _ atFetch _ _ | sleep _ w _ atFetch _ _ =>
      exact fetching atFetch WorkerPc.noConfusion rfl
  | unblock w blocked =>
      exact settled_update rfl (by rw [blocked]; decide) (by rw [blocked]; decide) (by decide)
  | start w task fetched =>
      exact settled_update rfl (by rw [fetched]; nofun) (by rw [fetched]; nofun) nofun
  | finish w task outcome running =>
      exact settled_update rfl (by rw [running]; nofun) (by rw [running]; nofun) nofun
  | afterTask w _ _ _ => exact absurd rfl (notReap w)
  | exit w exiting =>
      exact settled_update (s.exitSection_pc w) (by rw [exiting]; decide) (by rw [exiting]; decide)
        (by decide)
  | threadReturn w exited =>
      exact settled_update rfl (by rw [exited]; decide) (by rw [exited]; decide) (by decide)

/-- `dead_workers` grows in the exit section of a worker, by this worker, and in
no other step. -/
theorem dead_transition (tabled : s.Tabled) (moved : Transition s a s')
    (notReap : ∀ w, a ≠ .afterTask w) :
    s'.exec.deadWorkers = s.exec.deadWorkers ∨
      ∃ w, a = .exit w ∧ s.pc w = .exiting ∧
        s'.exec.deadWorkers = s.exec.deadWorkers ++ [some w] := by
  have inserted : ∀ task, (s.insertTask task).exec.deadWorkers = s.exec.deadWorkers := by
    intro task
    simp only [System.insertTask, insertTaskLocked]
    split <;> rfl
  cases moved with
  | shutLoad kind =>
      unfold System.shutLoad
      split <;> exact .inl rfl
  | insertUnheard task _ _ => exact .inl (inserted task)
  | insertNotify task w _ _ => exact .inl (inserted task)
  | shutdown =>
      rw [s.shutdown_exec]
      exact .inl rfl
  | afterTask w _ _ _ => exact absurd rfl (notReap w)
  | exit w exiting =>
      obtain ⟨dead, table⟩ := tabled
      obtain ⟨_, _, removed⟩ := table.removeSelfLocked_eq (by rw [exiting]; rfl)
      refine .inr ⟨w, rfl, exiting, ?_⟩
      rw [s.exitSection_exec, removed, table.deadWorkers]
      exact List.map_append ..
  | _ => exact .inl rfl

end Base

/-! ## The sections of the threads -/

section Threads

variable {t t' : ScopedSystem} {b : ScopedAction} {w : WorkerId}

theorem sectionOf_of_caller {a : Action} (ofCaller : a.callerSection = true ∨ a.lockFree = true) :
    a.sectionOf = none := by
  cases a <;> simp_all [Action.callerSection, Action.lockFree, Action.sectionOf]

/-- The step of the executor inside a step of its threads: a section of the
worker that owns `main_lock`, or no section of a worker. -/
theorem ScopedTransition.sys_cases (moved : ScopedTransition t b t') :
    t'.sys = t.sys ∨ ∃ a, step t.sys a = some t'.sys ∧
      (∀ v outcome, a = .finish v outcome → b = .finish v outcome) ∧
      ((∃ w, b = .runSection w a ∧ a.sectionOf = some w ∧ t.mainLock = some w) ∨
        a.sectionOf = none) := by
  have notFinish : ∀ {a : Action}, a.callerSection = true ∨ a.lockFree = true → ∀ v outcome,
      a = .finish v outcome → b = .finish v outcome := by
    rintro a ofCaller v outcome rfl
    rcases ofCaller with ofCaller | ofCaller <;> cases ofCaller
  cases moved with
  | lockMain _ _ _ _ | callBack _ _ _ | getPoolSize _ _ _ => exact .inl rfl
  | leave w _ _ => exact .inl (t.leave_sys w)
  | runSection w a sys owner _ ofWorker moved =>
      rw [t.afterSection_sys]
      refine .inr ⟨a, moved, ?_, .inl ⟨w, rfl, ofWorker, owner⟩⟩
      rintro v outcome rfl
      cases ofWorker
  | start w sys moved | threadReturn w sys _ moved => exact .inr ⟨_, moved, nofun, .inr rfl⟩
  | finish w outcome sys _ moved =>
      refine .inr ⟨_, moved, ?_, .inr rfl⟩
      rintro v outcome' same
      cases same
      rfl
  | callSection w a sys _ _ ofCaller moved =>
      exact .inr ⟨a, moved, notFinish (.inl ofCaller), .inr (sectionOf_of_caller (.inl ofCaller))⟩
  | other a sys allowed moved =>
      have ofCaller := allowed.imp And.left id
      exact .inr ⟨a, moved, notFinish ofCaller, .inr (sectionOf_of_caller ofCaller)⟩

/-- A step of the threads that is not a reap is none of the executor. -/
theorem notReap_of_section {a : Action}
    (notReap : ∀ w, b ≠ .runSection w (.afterTask w))
    (section_ : (∃ w, b = .runSection w a ∧ a.sectionOf = some w ∧ t.mainLock = some w) ∨
      a.sectionOf = none) (v : WorkerId) : a ≠ .afterTask v := by
  rintro rfl
  rcases section_ with ⟨w, rfl, ofWorker, _⟩ | nobody
  · cases ofWorker
    exact notReap v rfl
  · cases nobody

theorem settled_scoped (tabled : t.sys.Tabled) (moved : ScopedTransition t b t')
    (notReap : ∀ w, b ≠ .runSection w (.afterTask w)) : Settled t.sys t'.sys := by
  rcases moved.sys_cases with same | ⟨a, stepEq, _, place⟩
  · rw [same]
    exact settled_of_pc rfl
  · exact settled_transition tabled (transition_of_step stepEq) (notReap_of_section notReap place)

/-- Whoever becomes a dead worker owns `main_lock`. -/
theorem dead_scoped (tabled : t.sys.Tabled) (moved : ScopedTransition t b t')
    (notReap : ∀ w, b ≠ .runSection w (.afterTask w)) :
    t'.sys.exec.deadWorkers = t.sys.exec.deadWorkers ∨
      ∃ v, t.mainLock = some v ∧ t.sys.pc v = .exiting ∧
        t'.sys.exec.deadWorkers = t.sys.exec.deadWorkers ++ [some v] := by
  rcases moved.sys_cases with same | ⟨a, stepEq, _, place⟩
  · exact .inl (by rw [same])
  · rcases dead_transition tabled (transition_of_step stepEq)
      (notReap_of_section notReap place) with kept | ⟨v, rfl, exiting, grown⟩
    · exact .inl kept
    · rcases place with ⟨w, _, ofWorker, owner⟩ | nobody
      · cases ofWorker
        exact .inr ⟨v, owner, exiting, grown⟩
      · cases nobody

/-- The body of a task goes on until its worker takes the step that ends it. -/
theorem running_kept (framed : Framed t) (tabled : t.sys.Tabled) (moved : ScopedTransition t b t')
    {task : TaskBase} (running : t.sys.pc w = .running task)
    (goesOn : ∀ outcome, b ≠ .finish w outcome) : t'.sys.pc w = .running task := by
  rcases moved.sys_cases with same | ⟨a, stepEq, finishes, place⟩
  · rw [same, running]
  · have moves : Passive (t.sys.pc w) (t'.sys.pc w) := by
      apply passive_of_transition tabled (transition_of_step stepEq) w
      · rcases place with ⟨v, _, ofWorker, owner⟩ | nobody
        · rw [ofWorker]
          intro same
          cases same
          exact not_owner_of_running framed running owner
        · rw [nobody]
          nofun
      · rintro rfl
        obtain ⟨_, fetched, _⟩ := start_eq stepEq
        rw [running] at fetched
        cases fetched
      · rintro outcome rfl
        exact goesOn outcome (finishes w outcome rfl)
      · rintro rfl
        have exited := (Option.ite_none_right_eq_some.mp stepEq).1
        rw [running] at exited
        cases exited
    rw [running] at moves
    generalize t'.sys.pc w = pc at moves ⊢
    cases moves
    rfl

theorem afterSection_frame_of_ne {v : WorkerId} {a : Action} {sys : System} (other : w ≠ v) :
    (t.afterSection v a sys).frame w = t.frame w := by
  unfold ScopedSystem.afterSection
  dsimp only
  split <;> exact Function.update_of_ne other ..

theorem leave_frame_of_ne {v : WorkerId} (other : w ≠ v) : (t.leave v).frame w = t.frame w := by
  unfold ScopedSystem.leave
  split
  · rfl
  · exact Function.update_of_ne other ..

theorem setCalling_frame (v : WorkerId) (calling : Bool) :
    ((t.setCalling v calling).frame w).leaving = (t.frame w).leaving ∧
      ((t.setCalling v calling).frame w).locals = (t.frame w).locals := by
  by_cases same : w = v
  · have own : (t.setCalling v calling).frame v = { t.frame v with calling := calling } :=
      Function.update_self ..
    rw [same, own]
    exact ⟨rfl, rfl⟩
  · have other : (t.setCalling v calling).frame w = t.frame w := Function.update_of_ne same ..
    rw [other]
    exact ⟨rfl, rfl⟩

/-- The objects of a block that is being left stay until their worker destroys them. -/
theorem leaving_kept (moved : ScopedTransition t b t') (leaving : (t.frame w).leaving = true)
    (stays : b ≠ .leave w) :
    (t'.frame w).leaving = true ∧ (t'.frame w).locals = (t.frame w).locals := by
  have elsewhere : ∀ {v}, (t.frame v).leaving = false → w ≠ v := by
    rintro v inside rfl
    rw [leaving] at inside
    cases inside
  cases moved with
  | lockMain v _ inside _ =>
      have other : (t.lockMain v).frame w = t.frame w :=
        Function.update_of_ne (elsewhere inside) ..
      rw [other]
      exact ⟨leaving, rfl⟩
  | runSection v a sys _ inside _ _ =>
      rw [afterSection_frame_of_ne (elsewhere inside)]
      exact ⟨leaving, rfl⟩
  | leave v _ _ =>
      have other : w ≠ v := fun same => stays (same ▸ rfl)
      rw [leave_frame_of_ne other]
      exact ⟨leaving, rfl⟩
  | callBack v _ _ | getPoolSize v _ _ | callSection v _ _ _ _ _ _ =>
      obtain ⟨sameLeaving, sameLocals⟩ := setCalling_frame (t := t) (w := w) v _
      exact ⟨sameLeaving.trans leaving, sameLocals⟩
  | start _ _ _ | finish _ _ _ _ _ | threadReturn _ _ _ _ | other _ _ _ _ => exact ⟨leaving, rfl⟩

theorem userCode_kept (framed : Framed t) (tabled : t.sys.Tabled) (moved : ScopedTransition t b t')
    (user : t.InUserCode w) (stays : b ≠ .leave w) (goesOn : ∀ outcome, b ≠ .finish w outcome) :
    t'.InUserCode w := by
  rcases user with ⟨task, running⟩ | ⟨task, leaving, head⟩
  · exact .inl ⟨task, running_kept framed tabled moved running goesOn⟩
  · obtain ⟨still, locals⟩ := leaving_kept moved leaving stays
    exact .inr ⟨task, still, by rw [locals, head]⟩

/-- A worker in user code is in the table. -/
theorem inTable_of_userCode (framed : Framed t) (user : t.InUserCode w) :
    (t.sys.pc w).inTable = true := by
  rcases user with ⟨task, running⟩ | ⟨task, leaving, head⟩
  · rw [running]
    rfl
  · have standing := framed w
    generalize decide (t.mainLock = some w) = owns at standing
    generalize t.sys.pc w = pc at standing ⊢
    generalize t.frame w = frame at standing leaving head
    cases standing with
    | destroying _ _ | noTask => rfl
    | unlocking ends => cases head
    | _ => cases leaving

/-- Nobody locks `main_lock` for good, and nothing is inserted: a terminated
executor stays so. -/
theorem terminated_kept (tabled : t.sys.Tabled) (moved : ScopedTransition t b t')
    (free : t.mainLock = none) (terminated : t.sys.terminated = true)
    (notCall : ∀ v task target, b ≠ .callSection v (some (.insert task target)))
    (notOther : ∀ task target, b ≠ .other (.insert task target)) :
    t'.mainLock = none ∧ t'.sys.terminated = true := by
  have noOwner : ∀ v, t.mainLock ≠ some v := by
    intro v owner
    rw [free] at owner
    cases owner
  have kept : ∀ {a sys}, step t.sys a = some sys → (∀ task target, a ≠ .insert task target) →
      sys.terminated = true := by
    intro a sys stepEq notInsert
    have allowed : InsertBeforeTermination t.sys a := by
      cases a with
      | insert task target => exact absurd rfl (notInsert task target)
      | _ => trivial
    exact (terminated_transition tabled terminated allowed (transition_of_step stepEq)).terminated
  cases moved with
  | lockMain v _ _ atLock =>
      have live : (t.sys.pc v).inTable = true := by
        cases position : t.sys.pc v <;> rw [position] at atLock <;> first | rfl | cases atLock
      rw [tabled.out_of_terminated terminated v] at live
      cases live
  | runSection v _ _ owner _ _ _ => exact absurd owner (noOwner v)
  | leave v _ _ =>
      refine ⟨?_, by rw [t.leave_sys]; exact terminated⟩
      unfold ScopedSystem.leave
      split
      · exact free
      · dsimp only
        split
        · rfl
        · exact free
  | callBack _ _ _ | getPoolSize _ _ _ => exact ⟨free, terminated⟩
  | start _ _ moved | finish _ _ _ _ moved | threadReturn _ _ _ moved => exact ⟨free, kept moved nofun⟩
  | callSection v a sys _ _ _ moved =>
      refine ⟨free, kept moved ?_⟩
      rintro task target rfl
      exact notCall v task target rfl
  | other a sys _ moved =>
      refine ⟨free, kept moved ?_⟩
      rintro task target rfl
      exact notOther task target rfl

/-- A section of `run` is taken from a position at which the worker waits for
the lock. -/
theorem section_of_returned {a : Action} {sys sys' : System} {task : TaskBase}
    (returned : sys.pc w = .returned task) (ofWorker : a.sectionOf = some w)
    (stepEq : step sys a = some sys') : a = .afterTask w := by
  cases a with
  | enterLoop v | exit v =>
      cases ofWorker
      simp [step, returned] at stepEq
  | resume v timedOut =>
      cases ofWorker
      simp [step, returned] at stepEq
  | afterTask v =>
      cases ofWorker
      rfl
  | _ => cases ofWorker

/-- A worker on its way from its task to the reap keeps `main_lock`. -/
theorem reaper_kept (framed : Framed t) (tabled : t.sys.Tabled) (moved : ScopedTransition t b t')
    (owner : t.mainLock = some w) (returned : (t.sys.pc w).isReturned = true)
    (notReap : b ≠ .runSection w (.afterTask w)) :
    t'.mainLock = some w ∧ (t'.sys.pc w).isReturned = true := by
  obtain ⟨task, position⟩ : ∃ task, t.sys.pc w = .returned task := by
    cases pc : t.sys.pc w with
    | returned task => exact ⟨task, rfl⟩
    | _ =>
        rw [pc] at returned
        cases returned
  have busy : t.mainLock ≠ none := by rw [owner]; nofun
  have elsewhere : ∀ {v q pcs}, t.sys.pc v ≠ t.sys.pc w → pcs = Function.update t.sys.pc v q →
      (pcs w).isReturned = true := by
    intro v q pcs differs moved
    have other : w ≠ v := fun same => differs (same ▸ rfl)
    rwa [moved, Function.update_of_ne other]
  have passively : ∀ {pc}, Passive (t.sys.pc w) pc → pc.isReturned = true := by
    intro pc moves
    rw [position] at moves
    cases moves
    rfl
  cases moved with
  | lockMain v free _ _ | getPoolSize v free _ | callSection v _ _ free _ _ _ =>
      exact absurd free busy
  | runSection v a sys owner' _ ofWorker moved =>
      cases owner.symm.trans owner'
      exact absurd (section_of_returned position ofWorker moved ▸ rfl) notReap
  | start v sys moved =>
      obtain ⟨task', fetched, pc⟩ := start_eq moved
      exact ⟨owner, elsewhere (by rw [fetched, position]; exact WorkerPc.noConfusion) pc⟩
  | finish v outcome sys _ moved =>
      obtain ⟨task', running, pc⟩ := finish_eq moved
      exact ⟨owner, elsewhere (by rw [running, position]; exact WorkerPc.noConfusion) pc⟩
  | leave v leaving _ =>
      obtain ⟨_, ends, _⟩ := (framed v).leaving_cases leaving
      cases owner.symm.trans (owner_of_leaving framed leaving)
      rw [position] at ends
      cases ends
  | callBack v _ _ => exact ⟨owner, returned⟩
  | threadReturn v sys _ moved =>
      obtain ⟨exited, same⟩ := Option.ite_none_right_eq_some.mp moved
      cases same
      exact ⟨owner, elsewhere (by rw [exited, position]; exact WorkerPc.noConfusion) rfl⟩
  | other a sys allowed moved =>
      exact ⟨owner, passively (passive_of_caller tabled moved (allowed.imp And.left id) w)⟩

end Threads

/-! ## The sections of the callers -/

/-- A section of `await_termination` that returns has found the executor
terminated, holding the lock. -/
theorem awaited_returned {sys sys' : System} {a : Action} {c : Nat}
    (stepEq : step sys a = some sys') (mine : a.awaitedBy c = true)
    (returned : sys'.awaiting c = .returned) :
    a.callerSection = true ∧ sys'.terminated = true := by
  have tested : ∀ otherwise, otherwise ≠ .returned →
      (sys.awaitTest c otherwise).awaiting c = .returned → sys.terminated = true := by
    intro otherwise notReturned told
    change Function.update sys.awaiting c (if sys.terminated then .returned else otherwise) c = _ at told
    rw [Function.update_self] at told
    by_contra running
    rw [if_neg running] at told
    exact notReturned told
  cases a with
  | awaitCheck d | awaitLock d | awaitResume d =>
      obtain ⟨_, same⟩ := Option.ite_none_right_eq_some.mp stepEq
      cases same
      have isC : d = c := beq_iff_eq.mp mine
      subst isC
      exact ⟨rfl, tested _ (by decide) returned⟩
  | awaitUnblock d =>
      obtain ⟨_, same⟩ := Option.ite_none_right_eq_some.mp stepEq
      cases same
      have isC : d = c := beq_iff_eq.mp mine
      subst isC
      change Function.update sys.awaiting d (.waiting .awake) d = _ at returned
      rw [Function.update_self] at returned
      cases returned
  | _ => cases mine

theorem step_of_other {t t' : ScopedSystem} {a : Action}
    (moved : scopedStep t (.other a) = some t') : step t.sys a = some t'.sys := by
  cases scopedTransition_of_step moved with
  | other _ _ _ stepEq => exact stepEq

/-- The section in which a worker reaps. -/
theorem sys_of_reap {t t' : ScopedSystem} {w : WorkerId}
    (moved : scopedStep t (.runSection w (.afterTask w)) = some t') :
    t'.sys = t.sys.afterTask w := by
  cases scopedTransition_of_step moved with
  | runSection _ _ sys _ _ _ stepEq =>
      rw [ScopedSystem.afterSection_sys]
      cases transition_of_step stepEq with
      | afterTask _ _ _ _ => rfl
      | awaitTest _ _ _ awaits => cases awaits
      | fetch _ _ _ _ fetches _ _ | leave _ _ fetches _ _ _ | sleep _ _ fetches _ _ _ =>
          cases fetches

/-- A section of a caller finds `main_lock` free and unlocks it. -/
theorem free_of_other {t t' : ScopedSystem} {a : Action}
    (moved : scopedStep t (.other a) = some t') (ofCaller : a.callerSection = true) :
    t'.mainLock = none := by
  cases scopedTransition_of_step moved with
  | other _ sys allowed _ =>
      rcases allowed with ⟨_, free⟩ | lockFree
      · exact free
      · cases a <;> simp_all [Action.callerSection, Action.lockFree]

theorem WorkerPc.isReturned_iff {pc : WorkerPc} :
    pc.isReturned = true ↔ ∃ task, pc = .returned task := by
  cases pc <;> simp [isReturned]

theorem WorkerPc.not_dead_of_returned {pc : WorkerPc} (returned : pc.isReturned = true) :
    pc.isDead = false := by
  cases pc <;> simp_all [isReturned, isDead]

end Conc11.Executor
