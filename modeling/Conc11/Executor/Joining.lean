/-
Module: Conc11.Executor.Joining
Purpose: Joining under `main_lock` cannot deadlock and happens once.  Whoever reaps waits for threads that
  need the lock no more, what it destroys has been joined, and after the termination wait of the
  destructor nobody can become a worker again.
Trusted boundary: none
Main exports: Live, Live.transition, Done, live_of_reachable, ScopedSystem.Out, unlocked_later, ReapStep,
  worker_threads_joined
-/
import Conc11.Executor.CoreWorkers
import Conc11.Executor.DeadWorkers

namespace Conc11.Executor

open Library

/-! ## The reapers -/

/-- What holds until the destructor is past its final reap. -/
structure Live (corePoolSize maxPoolSize : SizeT) (s : JoinSystem) : Prop where
  reachable : (scopedMachine corePoolSize maxPoolSize).Reachable s.threads
  calls : ∀ w task, s.submitting w = some task → s.threads.InUserCode w
  started : ∀ r, s.joined r ≠ 0 → s.Reaps r
  /-- While the destructor reaps there are no workers and nobody has the lock. -/
  ended : s.destructor = .reaping → s.threads.mainLock = none ∧ s.sys.terminated = true
  /-- The destroyed workers have been joined, and besides them those that the
  one reaper has come to. -/
  progress : ∀ r, (∀ r', r' ≠ r → s.joined r' = 0) →
    s.joins = s.destroyed ++ s.deadIds.take (s.joined r)
  finished : ∀ r, ∀ v ∈ s.deadIds.take (s.joined r), s.sys.pc v = .finished
  gone : ∀ v, v ∈ s.destroyed ↔ s.sys.pc v = .joined
  once : s.destroyed.Nodup
  bounded : ∀ r, s.joined r ≤ s.deadIds.length

namespace Live

variable {corePoolSize maxPoolSize : SizeT} {s s' : JoinSystem}

theorem framed (live : Live corePoolSize maxPoolSize s) : Framed s.threads :=
  framed_of_reachable live.reachable

theorem tabled (live : Live corePoolSize maxPoolSize s) : s.sys.Tabled :=
  tabled_of_reachable (reachable_sys live.reachable)

theorem initial (corePoolSize maxPoolSize : SizeT) :
    Live corePoolSize maxPoolSize (joinInitial corePoolSize maxPoolSize) := by
  refine ⟨.initial, nofun, fun _ started => absurd rfl started, nofun, fun _ _ => rfl, ?_, ?_,
    List.nodup_nil, fun _ => Nat.zero_le _⟩
  · intro r v member
    rw [show (joinInitial corePoolSize maxPoolSize).joined r = 0 from rfl, List.take_zero] at member
    cases member
  · intro v
    apply iff_of_false List.not_mem_nil
    change (if some v ∈ _ then WorkerPc.loopTop else .unborn) ≠ .joined
    split <;> decide

/-- `dead_workers` in terms of its workers. -/
theorem dead (live : Live corePoolSize maxPoolSize s) :
    s.sys.exec.deadWorkers = s.deadIds.map some ∧ s.deadIds.Nodup ∧
      ∀ v, v ∈ s.deadIds ↔ (s.sys.pc v).isDead = true := by
  obtain ⟨ids, table⟩ := live.tabled
  have same : s.deadIds = ids := by
    unfold JoinSystem.deadIds
    rw [table.deadWorkers]
    simp
  rw [same]
  exact ⟨table.deadWorkers, table.deadNodup, table.isDead⟩

theorem deadIds_length (live : Live corePoolSize maxPoolSize s) :
    s.sys.exec.deadWorkers.length = s.deadIds.length := by
  rw [live.dead.1, List.length_map]

/-- There is one reaper at most. -/
theorem reaper_unique (live : Live corePoolSize maxPoolSize s) {r r' : Option WorkerId}
    (first : s.Reaps r) (second : s.Reaps r') : r = r' := by
  cases r with
  | none =>
      cases r' with
      | none => rfl
      | some w =>
          have free := (live.ended first).1
          rw [second.1] at free
          cases free
  | some w =>
      cases r' with
      | none =>
          have free := (live.ended second).1
          rw [first.1] at free
          cases free
      | some w' => exact first.1.symm.trans second.1

theorem others_zero (live : Live corePoolSize maxPoolSize s) {r : Option WorkerId}
    (reaps : s.Reaps r) (r' : Option WorkerId) (other : r' ≠ r) : s.joined r' = 0 := by
  by_contra some
  exact other (live.reaper_unique (live.started r' some) reaps)

/-- A worker becomes dead while it owns the lock, so nobody is reaping then. -/
theorem dead_kept (live : Live corePoolSize maxPoolSize s) {b : ScopedAction}
    {threads : ScopedSystem} (moved : ScopedTransition s.threads b threads)
    (notReap : ∀ w, b ≠ .runSection w (.afterTask w)) :
    threads.sys.exec.deadWorkers = s.sys.exec.deadWorkers ∨ ∀ r, s.joined r = 0 := by
  rcases dead_scoped live.tabled moved notReap with kept | ⟨v, owner, exiting, _⟩
  · exact .inl kept
  · right
    intro r
    by_contra some
    have reaps := live.started r some
    cases r with
    | none =>
        have free := (live.ended reaps).1
        rw [owner] at free
        cases free
    | some w =>
        cases owner.symm.trans reaps.1
        have returned := reaps.2
        rw [show s.sys.pc v = .exiting from exiting] at returned
        cases returned

/-- A step of the threads that is not a reap. -/
theorem advance (live : Live corePoolSize maxPoolSize s) {b : ScopedAction}
    {threads : ScopedSystem} (moved : scopedStep s.threads b = some threads)
    (notReap : ∀ w, b ≠ .runSection w (.afterTask w)) {external : List TaskBase}
    {submitting : WorkerId → Option TaskBase} {destructor : DestructorPc}
    (calls : ∀ w task, submitting w = some task → threads.InUserCode w)
    (still : s.destructor = .reaping → destructor = .reaping)
    (ended : destructor = .reaping → threads.mainLock = none ∧ threads.sys.terminated = true) :
    Live corePoolSize maxPoolSize
      { s with
        threads := threads
        external := external
        submitting := submitting
        destructor := destructor } := by
  set after : JoinSystem :=
    { s with
      threads := threads
      external := external
      submitting := submitting
      destructor := destructor }
  have transition := scopedTransition_of_step moved
  have settled := settled_scoped live.tabled transition notReap
  have dead : after.deadIds = s.deadIds ∨ ∀ r, s.joined r = 0 :=
    (live.dead_kept transition notReap).imp_left (congrArg (List.filterMap id))
  refine ⟨live.reachable.step (a := b) trivial moved, calls, ?_, ended, ?_, ?_, ?_, live.once,
    ?_⟩
  · intro r some
    have reaps := live.started r some
    cases r with
    | none => exact still reaps
    | some w =>
        exact reaper_kept live.framed live.tabled transition reaps.1 reaps.2 (notReap w)
  · intro r others
    have before := live.progress r others
    rcases dead with same | nobody
    · rw [same]
      exact before
    · change s.joins = s.destroyed ++ after.deadIds.take (s.joined r)
      rw [nobody r] at before ⊢
      exact before
  · intro r v member
    rcases dead with same | nobody
    · rw [same] at member
      exact (settled v).2 (live.finished r v member)
    · change v ∈ after.deadIds.take (s.joined r) at member
      rw [nobody r] at member
      cases member
  · intro v
    exact (live.gone v).trans (settled v).1.symm
  · intro r
    rcases dead with same | nobody
    · rw [same]
      exact live.bounded r
    · exact le_of_eq_of_le (nobody r) (Nat.zero_le _)

/-- User code goes on in a step in which nobody with a submission to complete
ends it. -/
theorem calls_kept (live : Live corePoolSize maxPoolSize s) {b : ScopedAction}
    {threads : ScopedSystem} (moved : ScopedTransition s.threads b threads)
    (leaves : ∀ w, b = .leave w → s.submitting w = none)
    (finishes : ∀ w outcome, b = .finish w outcome → s.submitting w = none) (w : WorkerId)
    (task : TaskBase) (submits : s.submitting w = some task) : threads.InUserCode w := by
  apply userCode_kept live.framed live.tabled moved (live.calls w task submits)
  · intro same
    rw [leaves w same] at submits
    cases submits
  · intro outcome same
    rw [finishes w outcome same] at submits
    cases submits

/-- A step of the threads that ends no submission and inserts nothing: a
terminated executor stays so. -/
theorem quietly (live : Live corePoolSize maxPoolSize s) {b : ScopedAction}
    {threads : ScopedSystem} (moved : scopedStep s.threads b = some threads)
    (notReap : ∀ w, b ≠ .runSection w (.afterTask w)) {external : List TaskBase}
    {submitting : WorkerId → Option TaskBase}
    (calls : ∀ w task, submitting w = some task → threads.InUserCode w)
    (notCall : ∀ v task target, b ≠ .callSection v (some (.insert task target)))
    (notOther : ∀ task target, b ≠ .other (.insert task target)) :
    Live corePoolSize maxPoolSize
      { s with threads := threads, external := external, submitting := submitting } := by
  refine live.advance moved notReap calls id fun reaping => ?_
  obtain ⟨free, terminated⟩ := live.ended reaping
  exact terminated_kept live.tabled (scopedTransition_of_step moved) free terminated notCall
    notOther

/-- A step of the destructor before its final reap. -/
theorem ofDestructor (live : Live corePoolSize maxPoolSize s) {a : Action}
    {threads : ScopedSystem} (moved : scopedStep s.threads (.other a) = some threads)
    {before destructor : DestructorPc} (position : s.destructor = before)
    (notYet : before ≠ .reaping)
    (ended : destructor = .reaping → threads.mainLock = none ∧ threads.sys.terminated = true) :
    Live corePoolSize maxPoolSize
      { s with threads := threads, destructor := destructor } := by
  refine live.advance moved nofun
    (live.calls_kept (scopedTransition_of_step moved) nofun nofun) ?_ ended
  intro reaping
  exact absurd (position.symm.trans reaping) notYet

/-- One round of the loop of a reaper. -/
theorem join (live : Live corePoolSize maxPoolSize s) {r : Option WorkerId} {v : WorkerId}
    (reaps : s.Reaps r) (next : s.sys.exec.deadWorkers[s.joined r]? = some (some v))
    (finished : s.sys.pc v = .finished) :
    Live corePoolSize maxPoolSize
      { s with
        joins := s.joins ++ [v]
        joined := Function.update s.joined r (s.joined r + 1) } := by
  have nextId : s.deadIds[s.joined r]? = some v := by
    rw [live.dead.1, List.getElem?_map] at next
    obtain ⟨v', found, same⟩ := Option.map_eq_some_iff.mp next
    cases same
    exact found
  have taken : s.deadIds.take (s.joined r + 1) = s.deadIds.take (s.joined r) ++ [v] := by
    rw [List.take_add_one, nextId]
    rfl
  refine ⟨live.reachable, live.calls, ?_, live.ended, ?_, ?_, live.gone, live.once, ?_⟩
  · intro r' some
    by_cases same : r' = r
    · rw [same]
      exact reaps
    · change Function.update s.joined r _ r' ≠ 0 at some
      rw [Function.update_of_ne same] at some
      exact live.started r' some
  · intro r' others
    have same : r' = r := by
      by_contra other
      have zero : Function.update s.joined r (s.joined r + 1) r = 0 := others r (Ne.symm other)
      rw [Function.update_self] at zero
      cases zero
    subst same
    change s.joins ++ [v] = s.destroyed ++
      s.deadIds.take (Function.update s.joined r' (s.joined r' + 1) r')
    rw [Function.update_self, taken, live.progress r' (live.others_zero reaps), List.append_assoc]
  · intro r' u member
    change u ∈ s.deadIds.take (Function.update s.joined r (s.joined r + 1) r') at member
    by_cases same : r' = r
    · rw [same, Function.update_self, taken] at member
      rcases List.mem_append.mp member with before | now
      · exact live.finished r u before
      · rw [List.mem_singleton.mp now]
        exact finished
    · rw [Function.update_of_ne same] at member
      exact live.finished r' u member
  · intro r'
    change Function.update s.joined r (s.joined r + 1) r' ≤ s.deadIds.length
    by_cases same : r' = r
    · rw [same, Function.update_self]
      exact (List.getElem?_eq_some_iff.mp nextId).1
    · rw [Function.update_of_ne same]
      exact live.bounded r'

section Clear

variable {r : Option WorkerId}

/-- At the end of its loop a reaper has joined what it destroys. -/
theorem all_joined (live : Live corePoolSize maxPoolSize s) (reaps : s.Reaps r)
    (all : s.joined r = s.sys.exec.deadWorkers.length) :
    s.joins = s.destroyed ++ s.deadIds ∧ ∀ v ∈ s.deadIds, s.sys.pc v = .finished := by
  have taken : s.deadIds.take (s.joined r) = s.deadIds := by
    rw [all, live.deadIds_length, List.take_length]
  have before := live.progress r (live.others_zero reaps)
  have finished := live.finished r
  rw [taken] at before finished
  exact ⟨before, finished⟩

/-- Nobody is destroyed twice. -/
theorem once_cleared (live : Live corePoolSize maxPoolSize s) :
    (s.destroyed ++ s.deadIds).Nodup := by
  obtain ⟨_, deadOnce, isDead⟩ := live.dead
  refine List.nodup_append.mpr ⟨live.once, deadOnce, ?_⟩
  rintro v destroyed _ dead rfl
  have stillDead := (isDead v).mp dead
  rw [(live.gone v).mp destroyed] at stillDead
  cases stillDead

theorem gone_cleared (live : Live corePoolSize maxPoolSize s) (v : WorkerId) :
    v ∈ s.destroyed ++ s.deadIds ↔
      (if some v ∈ s.sys.exec.deadWorkers then WorkerPc.joined else s.sys.pc v) = .joined := by
  have inDead : some v ∈ s.sys.exec.deadWorkers ↔ v ∈ s.deadIds := by
    rw [live.dead.1]
    simp
  rw [List.mem_append, live.gone v]
  split
  next dead => exact iff_of_true (.inr (inDead.mp dead)) rfl
  next alive => exact or_iff_left (mt inDead.mpr alive)

end Clear

/-- The reap of a worker, which goes on itself. -/
theorem gone_afterTask (live : Live corePoolSize maxPoolSize s) {w : WorkerId}
    (returned : (s.sys.pc w).isReturned = true) (v : WorkerId) :
    v ∈ s.destroyed ++ s.deadIds ↔ (s.sys.afterTask w).pc v = .joined := by
  apply (live.gone_cleared v).trans
  change _ ↔ Function.update
    (fun u => if some u ∈ s.sys.exec.deadWorkers then WorkerPc.joined else s.sys.pc u) w
      .loopTop v = .joined
  by_cases same : v = w
  · rw [same, Function.update_self]
    refine iff_of_false ?_ (by decide)
    split
    next dead =>
      have isDead := (live.dead.2.2 w).mp (by rw [live.dead.1] at dead; simpa using dead)
      rw [WorkerPc.not_dead_of_returned returned] at isDead
      cases isDead
    next =>
      intro joined
      rw [joined] at returned
      cases returned
  · rw [Function.update_of_ne same]

theorem clearWorker (live : Live corePoolSize maxPoolSize s) {w : WorkerId}
    {threads : ScopedSystem} (reaps : s.Reaps (some w))
    (all : s.joined (some w) = s.sys.exec.deadWorkers.length)
    (moved : scopedStep s.threads (.runSection w (.afterTask w)) = some threads) :
    Live corePoolSize maxPoolSize (s.cleared (some w) threads) := by
  have after : threads.sys = s.sys.afterTask w := sys_of_reap moved
  have nobody : ∀ r, (s.cleared (some w) threads).joined r = 0 := by
    intro r
    change Function.update s.joined (some w) 0 r = 0
    by_cases same : r = some w
    · rw [same, Function.update_self]
    · rw [Function.update_of_ne same]
      exact live.others_zero reaps r same
  refine ⟨live.reachable.step (a := .runSection w (.afterTask w)) trivial moved,
    live.calls_kept (scopedTransition_of_step moved) nofun nofun, ?_, ?_, ?_, ?_, ?_,
    live.once_cleared, fun r => le_of_eq_of_le (nobody r) (Nat.zero_le _)⟩
  · intro r some
    exact absurd (nobody r) some
  · intro reaping
    cases live.reaper_unique (r := none) reaping reaps
  · intro r _
    rw [nobody r, List.take_zero, List.append_nil]
    exact (live.all_joined reaps all).1
  · intro r v member
    rw [nobody r] at member
    cases member
  · intro v
    change _ ↔ threads.sys.pc v = .joined
    rw [after]
    exact live.gone_afterTask reaps.2 v

/-- User code on `w` passes the test of `shut` in a submission. -/
theorem callShutLoad (live : Live corePoolSize maxPoolSize s) {w : WorkerId} {kind : TaskKind}
    {threads : ScopedSystem} (user : s.threads.InUserCode w)
    (moved : scopedStep s.threads (.other (.shutLoad kind)) = some threads) :
    Live corePoolSize maxPoolSize
      { s with
        threads := threads
        submitting := Function.update s.submitting w (s.sys.accepted kind) } := by
  have transition := scopedTransition_of_step moved
  refine live.quietly moved nofun ?_ nofun nofun
  intro v task submits
  by_cases same : v = w
  · rw [same]
    exact userCode_kept live.framed live.tabled transition user nofun nofun
  · rw [Function.update_of_ne same] at submits
    exact live.calls_kept transition nofun nofun v task submits

/-- User code on `w` inserts its task: its worker is in the table, so the
executor is not terminated. -/
theorem callInsert (live : Live corePoolSize maxPoolSize s) {w : WorkerId}
    {target : Option WorkerId} {task : TaskBase} {threads : ScopedSystem}
    (submits : s.submitting w = some task)
    (moved : scopedStep s.threads (.callSection w (some (.insert task target))) = some threads) :
    Live corePoolSize maxPoolSize
      { s with threads := threads, submitting := Function.update s.submitting w none } := by
  refine live.advance moved nofun ?_ id ?_
  · intro v task' submits'
    by_cases same : v = w
    · rw [same, Function.update_self] at submits'
      cases submits'
    · rw [Function.update_of_ne same] at submits'
      exact live.calls_kept (scopedTransition_of_step moved) nofun nofun v task' submits'
  · intro reaping
    have inTable := inTable_of_userCode live.framed (live.calls w task submits)
    have out := live.tabled.out_of_terminated (live.ended reaping).2 w
    cases inTable.symm.trans out

theorem destroy (live : Live corePoolSize maxPoolSize s) (absent : s.destructor = .absent) :
    Live corePoolSize maxPoolSize { s with destructor := .testing } := by
  refine ⟨live.reachable, live.calls, ?_, nofun, live.progress, live.finished, live.gone,
    live.once, live.bounded⟩
  intro r some
  have reaps := live.started r some
  cases r with
  | none => cases absent.symm.trans reaps
  | some w => exact reaps

/-- The invariant is kept until the destructor is past its final reap. -/
theorem transition {a : JoinAction} (live : Live corePoolSize maxPoolSize s)
    (moved : JoinTransition s a s') (goesOn : s'.destructor ≠ .done) :
    Live corePoolSize maxPoolSize s' := by
  cases moved with
  | run b threads plain moved =>
      have transition := scopedTransition_of_step moved
      refine live.quietly moved ?_ (live.calls_kept transition ?_ ?_) ?_ ?_
      · rintro w rfl
        simp [ScopedAction.isPlain] at plain
      · rintro w rfl
        exact Option.isNone_iff_eq_none.mp plain
      · rintro w outcome rfl
        exact Option.isNone_iff_eq_none.mp plain
      · rintro v task target rfl
        cases plain
      · rintro task target rfl
        cases plain
  | shutLoad kind threads moved =>
      have transition := scopedTransition_of_step moved
      exact live.quietly moved nofun (live.calls_kept transition nofun nofun) nofun nofun
  | insert task target threads absent moved =>
      have transition := scopedTransition_of_step moved
      apply live.advance moved nofun (live.calls_kept transition nofun nofun) id
      intro reaping
      cases absent.symm.trans reaping
  | callShutLoad w kind threads user moved => exact live.callShutLoad user moved
  | callInsert w target task threads submits moved => exact live.callInsert submits moved
  | join r v reaps next finished => exact live.join reaps next finished
  | clearWorker w threads reaps all moved => exact live.clearWorker reaps all moved
  | clearDestructor _ _ => exact absurd rfl goesOn
  | destroy absent _ => exact live.destroy absent
  | destructorTest threads testing moved =>
      refine live.ofDestructor moved testing (by decide) fun reaping => ?_
      refine ⟨free_of_other moved rfl, ?_⟩
      split at reaping
      next terminated =>
        have tested := (Option.ite_none_right_eq_some.mp (step_of_other moved)).2
        rw [← Option.some_inj.mp tested]
        exact terminated
      next => cases reaping
  | destructorShutdown threads shutting moved =>
      exact live.ofDestructor moved shutting (by decide) nofun
  | destructorAwait a threads awaiting mine moved =>
      refine live.ofDestructor moved awaiting (by decide) fun reaping => ?_
      split at reaping
      next returned =>
        obtain ⟨ofCaller, terminated⟩ := awaited_returned (step_of_other moved) mine returned
        exact ⟨free_of_other moved ofCaller, terminated⟩
      next => cases reaping

end Live

/-! ## Past the destructor -/

/-- What the destructor leaves behind. -/
structure Done (s : JoinSystem) : Prop where
  unlocked : s.threads.mainLock = none
  joined : s.joins = s.destroyed
  once : s.destroyed.Nodup
  everyone : ∀ w : Nat, 1 ≤ w → w < s.sys.exec.nextId → w ∈ s.destroyed
  workers : s.sys.exec.workers = []
  deadWorkers : s.sys.exec.deadWorkers = []

section Runs

variable {corePoolSize maxPoolSize : SizeT} {s s' : JoinSystem}

/-- The final reap takes every worker that has not been reaped: a terminated
executor has none in its table. -/
theorem Live.clearDestructor (live : Live corePoolSize maxPoolSize s) (reaps : s.Reaps none)
    (all : s.joined none = s.sys.exec.deadWorkers.length) :
    Done
      { s.cleared none { s.threads with sys := s.sys.clearDead } with destructor := .done } := by
  obtain ⟨free, terminated⟩ := live.ended reaps
  refine ⟨free, (live.all_joined reaps all).1, live.once_cleared, ?_,
    (System.terminated_iff.mp terminated).2.2, rfl⟩
  intro w first handedOut
  have started : s.sys.pc w ≠ .unborn :=
    ((hired_of_reachable (reachable_sys live.reachable)).started w).mpr ⟨first, handedOut⟩
  have out := live.tabled.out_of_terminated terminated w
  rw [JoinSystem.cleared, List.mem_append, live.gone w, live.dead.2.2 w]
  cases position : s.sys.pc w with
  | unborn => exact absurd position started
  | exited | finished => exact .inr rfl
  | joined => exact .inl rfl
  | _ =>
      rw [position] at out
      cases out

/-- The only way past the destructor is its reap. -/
theorem JoinTransition.done_cases {a : JoinAction} (moved : JoinTransition s a s')
    (running : s.destructor ≠ .done) (done : s'.destructor = .done) :
    s.Reaps none ∧ s.joined none = s.sys.exec.deadWorkers.length ∧
      s' = { s.cleared none { s.threads with sys := s.sys.clearDead } with
        destructor := .done } := by
  cases moved with
  | clearDestructor reaps all => exact ⟨reaps, all, rfl⟩
  | destroy _ _ | destructorShutdown _ _ _ => cases done
  | destructorTest _ _ _ | destructorAwait _ _ _ _ _ => split at done <;> cases done
  | _ => exact absurd done running

theorem settled_of_reachable (reachable : (joinMachine corePoolSize maxPoolSize).Reachable s) :
    (s.destructor ≠ .done → Live corePoolSize maxPoolSize s) ∧ (s.destructor = .done → Done s) := by
  apply reachable.invariant (motive := fun s =>
    (s.destructor ≠ .done → Live corePoolSize maxPoolSize s) ∧ (s.destructor = .done → Done s))
  · exact ⟨fun _ => .initial corePoolSize maxPoolSize, nofun⟩
  · intro s a s' _ before _ stepEq
    obtain ⟨running, moved⟩ := joinTransition_of_step stepEq
    have live := before.1 running
    refine ⟨live.transition moved, ?_⟩
    intro done
    obtain ⟨reaps, all, rfl⟩ := moved.done_cases running done
    exact live.clearDestructor reaps all

theorem live_of_reachable (reachable : (joinMachine corePoolSize maxPoolSize).Reachable s)
    (running : s.destructor ≠ .done) : Live corePoolSize maxPoolSize s :=
  (settled_of_reachable reachable).1 running

/-- Nobody reaps after the destructor. -/
theorem running_of_reaps (reachable : (joinMachine corePoolSize maxPoolSize).Reachable s)
    {r : Option WorkerId} (reaps : s.Reaps r) : s.destructor ≠ .done := by
  intro done
  cases r with
  | none => cases done.symm.trans reaps
  | some w => cases ((settled_of_reachable reachable).2 done).unlocked.symm.trans reaps.1

end Runs

/-! ## The threads that a reaper waits for -/

/-- The thread has left its last critical section. -/
def WorkerPc.isOut : WorkerPc → Bool
  | .exited | .finished | .joined => true
  | _ => false

/-- The thread of `v` has left its last critical section, and unlocked. -/
def ScopedSystem.Out (t : ScopedSystem) (v : WorkerId) : Prop :=
  (t.sys.pc v).isOut = true ∧ t.mainLock ≠ some v

section Out

variable {corePoolSize maxPoolSize : SizeT} {s s' : JoinSystem} {t t' : ScopedSystem}
  {v : WorkerId}

theorem WorkerPc.isOut_passive {pc pc' : WorkerPc} (out : pc.isOut = true)
    (moves : Passive pc pc') : pc'.isOut = true := by
  cases moves with
  | same => exact out
  | wakes _ | born => cases out
  | joined => rfl

/-- A thread that is out takes one more step, its return. -/
theorem isOut_scoped {b : ScopedAction} (tabled : t.sys.Tabled) (moved : ScopedTransition t b t')
    (out : t.Out v) : (t'.sys.pc v).isOut = true := by
  rcases moved.sys_cases with same | ⟨a, stepEq, _, place⟩
  · rw [same]
    exact out.1
  · by_cases returns : a = .threadReturn v
    · subst returns
      obtain ⟨_, same⟩ := Option.ite_none_right_eq_some.mp stepEq
      rw [← Option.some_inj.mp same]
      change (Function.update t.sys.pc v .finished v).isOut = true
      rw [Function.update_self]
      rfl
    · apply WorkerPc.isOut_passive out.1
      apply passive_of_transition tabled (transition_of_step stepEq) v ?_ ?_ ?_ returns
      · rcases place with ⟨w, _, ofWorker, owner⟩ | nobody
        · rw [ofWorker]
          intro same
          cases same
          exact out.2 owner
        · rw [nobody]
          nofun
      · rintro rfl
        obtain ⟨_, fetched, _⟩ := start_eq stepEq
        have isOut := out.1
        rw [fetched] at isOut
        cases isOut
      · rintro outcome rfl
        obtain ⟨_, running, _⟩ := finish_eq stepEq
        have isOut := out.1
        rw [running] at isOut
        cases isOut

theorem unlocked_scoped {b : ScopedAction} (moved : ScopedTransition t b t') (out : t.Out v) :
    t'.mainLock ≠ some v := by
  cases moved with
  | lockMain w _ _ atLock =>
      intro same
      cases same
      have isOut := out.1
      cases position : t.sys.pc v <;> simp_all [WorkerPc.isOut, WorkerPc.atLock]
  | runSection w a sys owner _ _ _ =>
      unfold ScopedSystem.afterSection
      dsimp only
      split
      · exact (Option.some_ne_none v).symm
      · exact (Option.some_ne_none v).symm
      · exact out.2
      · exact out.2
  | leave w _ _ =>
      unfold ScopedSystem.leave
      split
      · exact out.2
      · dsimp only
        split
        · exact (Option.some_ne_none v).symm
        · exact out.2
  | _ => exact out.2

/-- Whoever is out stays out: it never owns `main_lock` again. -/
theorem out_scoped {b : ScopedAction} (tabled : t.sys.Tabled) (moved : ScopedTransition t b t')
    (out : t.Out v) : t'.Out v :=
  ⟨isOut_scoped tabled moved out, unlocked_scoped moved out⟩

theorem Live.out_transition {a : JoinAction} (live : Live corePoolSize maxPoolSize s)
    (moved : JoinTransition s a s') (out : s.threads.Out v) : s'.threads.Out v := by
  cases moved with
  | join _ _ _ _ _ | destroy _ _ => exact out
  | clearDestructor _ _ =>
      refine ⟨?_, out.2⟩
      change (if some v ∈ s.sys.exec.deadWorkers then WorkerPc.joined else s.sys.pc v).isOut = true
      split
      · rfl
      · exact out.1
  | run _ _ _ moved | shutLoad _ _ moved | insert _ _ _ _ moved | callShutLoad _ _ _ _ moved
  | callInsert _ _ _ _ _ moved | clearWorker _ _ _ _ moved | destructorTest _ _ moved
  | destructorShutdown _ _ moved | destructorAwait _ _ _ _ moved =>
      exact out_scoped live.tabled (scopedTransition_of_step moved) out

/-- In no later state does a thread that is out own `main_lock`. -/
theorem unlocked_later (reachable : (joinMachine corePoolSize maxPoolSize).Reachable s)
    (out : s.threads.Out v)
    (later : (joinMachine corePoolSize maxPoolSize).LaterUnder Machine.anyStep s s') :
    s'.threads.mainLock ≠ some v := by
  have still : s'.threads.Out v := by
    apply later.invariant (motive := fun s' => s'.threads.Out v) reachable out
    intro s a s' reached before _ stepEq
    obtain ⟨running, moved⟩ := joinTransition_of_step stepEq
    exact (live_of_reachable reached running).out_transition moved before
  exact still.2

/-- The dead workers of a reaper: it is none of them, and they are out. -/
theorem Live.out_of_dead (live : Live corePoolSize maxPoolSize s) {r : Option WorkerId}
    (reaps : s.Reaps r) (dead : v ∈ s.deadIds) :
    r ≠ some v ∧ (s.sys.pc v = .exited ∨ s.sys.pc v = .finished) ∧ s.threads.Out v := by
  have isDead := (live.dead.2.2 v).mp dead
  have stands : s.sys.pc v = .exited ∨ s.sys.pc v = .finished := by
    cases position : s.sys.pc v <;> simp_all [WorkerPc.isDead]
  have isOut : (s.sys.pc v).isOut = true := by
    rcases stands with exited | finished
    · rw [exited]
      rfl
    · rw [finished]
      rfl
  cases r with
  | none =>
      have nobody : none ≠ some v := (Option.some_ne_none v).symm
      exact ⟨nobody, stands, isOut, by rw [(live.ended reaps).1]; exact nobody⟩
  | some w =>
      have other : w ≠ v := by
        rintro rfl
        rw [WorkerPc.not_dead_of_returned reaps.2] at isDead
        cases isDead
      have notMine : some w ≠ some v := fun same => other (Option.some_inj.mp same)
      exact ⟨notMine, stands, isOut, by rw [reaps.1]; exact notMine⟩

end Out

/-! ## Nothing blocks a reaper -/

/-- What the loop of `r` can need: its own rounds, and that threads return. -/
def ReapStep (r : Option WorkerId) (_ : JoinSystem) : JoinAction → Prop
  | .join r' => r' = r
  | .run (.threadReturn _) => True
  | _ => False

/-- Whether the next thread that `r` joins has still to return. -/
def JoinSystem.pending (s : JoinSystem) (r : Option WorkerId) : Nat :=
  match s.sys.exec.deadWorkers[s.joined r]? with
  | some (some v) => if s.sys.pc v = .finished then 0 else 1
  | _ => 0

/-- The steps that the loop of `r` has before it. -/
def JoinSystem.remaining (s : JoinSystem) (r : Option WorkerId) : Nat :=
  2 * (s.sys.exec.deadWorkers.length - s.joined r) + s.pending r

section Progress

variable {corePoolSize maxPoolSize : SizeT} {s : JoinSystem} {r : Option WorkerId} {v : WorkerId}

theorem JoinSystem.pending_le (s : JoinSystem) (r : Option WorkerId) : s.pending r ≤ 1 := by
  unfold JoinSystem.pending
  split
  · split <;> decide
  · decide

theorem pending_eq (next : s.sys.exec.deadWorkers[s.joined r]? = some (some v)) :
    s.pending r = if s.sys.pc v = .finished then 0 else 1 := by
  simp only [JoinSystem.pending, next]

/-- The next thread has returned: the reaper joins it. -/
theorem joinStep_join (running : s.destructor ≠ .done) (reaps : s.Reaps r)
    (next : s.sys.exec.deadWorkers[s.joined r]? = some (some v))
    (finished : s.sys.pc v = .finished) :
    joinStep s (.join r) = some
      { s with
        joins := s.joins ++ [v]
        joined := Function.update s.joined r (s.joined r + 1) } := by
  simp only [joinStep, if_neg running, if_pos reaps, JoinSystem.join, next, if_pos finished]

/-- The next thread has left its last section: it returns without any lock. -/
theorem joinStep_threadReturn (running : s.destructor ≠ .done) (idle : s.threads.frame v = .idle)
    (exited : s.sys.pc v = .exited) :
    joinStep s (.run (.threadReturn v)) =
      some { s with threads := { s.threads with sys := s.sys.goto v .finished } } := by
  have returns : step s.threads.sys (.threadReturn v) = some (s.sys.goto v .finished) :=
    if_pos exited
  simp only [joinStep, if_neg running, scopedStep, if_pos idle, returns, ScopedAction.isPlain,
    if_true, Option.map_some]

/-- At the end of the loop the reaper destroys the dead workers. -/
theorem Live.clear_enabled (live : Live corePoolSize maxPoolSize s)
    (running : s.destructor ≠ .done) (reaps : s.Reaps r)
    (all : s.joined r = s.sys.exec.deadWorkers.length) : (joinStep s (.clear r)).isSome = true := by
  cases r with
  | none =>
      simp only [joinStep, if_neg running, if_pos (And.intro reaps all)]
      rfl
  | some w =>
      obtain ⟨task, returned⟩ := WorkerPc.isReturned_iff.mp reaps.2
      have inside : (s.threads.frame w).leaving = false := by
        by_contra leaving
        have ends := ((live.framed w).leaving_cases (Bool.not_eq_false _ ▸ leaving)).2.1
        rw [show s.threads.sys.pc w = _ from returned] at ends
        cases ends
      have joinable : ∀ v ∈ s.threads.sys.exec.deadWorkers.filterMap id,
          s.threads.sys.pc v = .finished := (live.all_joined reaps all).2
      have reaped : step s.threads.sys (.afterTask w) = some (s.threads.sys.afterTask w) := by
        simp only [step, show s.threads.sys.pc w = _ from returned]
        exact if_pos joinable
      have entered : scopedStep s.threads (.runSection w (.afterTask w)) =
          some (s.threads.afterSection w (.afterTask w) (s.threads.sys.afterTask w)) := by
        rw [scopedStep, if_pos ⟨reaps.1, inside, rfl⟩, reaped]
        rfl
      simp only [joinStep, if_neg running, if_pos (And.intro reaps all), entered]
      rfl

/-- A step of the loop of `r`: it goes on, over the same dead workers. -/
structure Advances (r : Option WorkerId) (s s' : JoinSystem) : Prop where
  reaps : s'.Reaps r
  dead : s'.sys.exec.deadWorkers = s.sys.exec.deadWorkers
  closer : s'.remaining r < s.remaining r

theorem advances_join (reaps : s.Reaps r)
    (next : s.sys.exec.deadWorkers[s.joined r]? = some (some v)) :
    Advances r s
      { s with
        joins := s.joins ++ [v]
        joined := Function.update s.joined r (s.joined r + 1) } := by
  set after : JoinSystem :=
    { s with
      joins := s.joins ++ [v]
      joined := Function.update s.joined r (s.joined r + 1) }
  refine ⟨?_, rfl, ?_⟩
  · cases r with
    | none => exact reaps
    | some w => exact reaps
  · have bound := (List.getElem?_eq_some_iff.mp next).1
    have rounds : after.joined r = s.joined r + 1 := Function.update_self ..
    have pending := after.pending_le r
    have same : after.sys.exec.deadWorkers.length = s.sys.exec.deadWorkers.length := rfl
    unfold JoinSystem.remaining
    rw [rounds, same]
    omega

theorem advances_return (reaps : s.Reaps r) (notMine : r ≠ some v)
    (next : s.sys.exec.deadWorkers[s.joined r]? = some (some v)) (exited : s.sys.pc v = .exited) :
    Advances r s { s with threads := { s.threads with sys := s.sys.goto v .finished } } := by
  set after : JoinSystem := { s with threads := { s.threads with sys := s.sys.goto v .finished } }
  refine ⟨?_, rfl, ?_⟩
  · cases r with
    | none => exact reaps
    | some w =>
        refine ⟨reaps.1, ?_⟩
        have other : w ≠ v := fun same => notMine (same ▸ rfl)
        change (Function.update s.sys.pc v .finished w).isReturned = true
        rw [Function.update_of_ne other]
        exact reaps.2
  · have returned : after.sys.pc v = .finished := Function.update_self ..
    have before : s.pending r = 1 := (pending_eq next).trans (if_neg (by rw [exited]; decide))
    have now : after.pending r = 0 := (pending_eq (s := after) next).trans (if_pos returned)
    unfold JoinSystem.remaining
    rw [before, now]
    exact Nat.lt_succ_self _

/-- Until it has joined every dead worker, the loop of a reaper can take a step,
its own or the return of the thread it waits for. -/
theorem Live.reaper_progress (live : Live corePoolSize maxPoolSize s)
    (running : s.destructor ≠ .done) (reaps : s.Reaps r)
    (more : s.joined r ≠ s.sys.exec.deadWorkers.length) :
    ∃ a s', ReapStep r s a ∧ joinStep s a = some s' ∧ Advances r s s' := by
  have inIds : s.joined r < s.deadIds.length :=
    lt_of_le_of_ne (live.bounded r) (live.deadIds_length ▸ more)
  have next : s.sys.exec.deadWorkers[s.joined r]? = some (some (s.deadIds[s.joined r])) := by
    rw [live.dead.1, List.getElem?_map, List.getElem?_eq_getElem inIds]
    rfl
  obtain ⟨notMine, stands, out⟩ := live.out_of_dead reaps (List.getElem_mem inIds)
  generalize s.deadIds[s.joined r] = v at next notMine stands out
  rcases stands with exited | finished
  · have idle : s.threads.frame v = .idle := by
      have standing := live.framed v
      rw [decide_eq_false out.2, show s.threads.sys.pc v = _ from exited] at standing
      exact standing.idle_of_exited
    exact ⟨.run (.threadReturn v), _, trivial, joinStep_threadReturn running idle exited,
      advances_return reaps notMine next exited⟩
  · exact ⟨.join r, _, rfl, joinStep_join running reaps next finished, advances_join reaps next⟩

/-- A reaper can always come to the end of its loop, and nobody has to lock for it. -/
theorem reaper_ends (reachable : (joinMachine corePoolSize maxPoolSize).Reachable s)
    (reaps : s.Reaps r) :
    ∃ s', (joinMachine corePoolSize maxPoolSize).LaterUnder (ReapStep r) s s' ∧ s'.Reaps r ∧
      s'.deadIds = s.deadIds ∧ (joinStep s' (.clear r)).isSome = true := by
  have arrives : ∃ s', (joinMachine corePoolSize maxPoolSize).LaterUnder (ReapStep r) s s' ∧
      ((joinMachine corePoolSize maxPoolSize).Reachable s' ∧ s'.Reaps r ∧
        s'.sys.exec.deadWorkers = s.sys.exec.deadWorkers) ∧
      s'.joined r = s'.sys.exec.deadWorkers.length := by
    refine Machine.exists_later (fun s => s.remaining r) ?_ ⟨reachable, reaps, rfl⟩
    intro s' ⟨reached, still, dead⟩ more
    have running := running_of_reaps reached still
    obtain ⟨a, s'', ofLoop, stepEq, advances⟩ :=
      (live_of_reachable reached running).reaper_progress running still more
    exact ⟨a, s'', ofLoop, stepEq,
      ⟨reached.step (a := a) trivial stepEq, advances.reaps, advances.dead.trans dead⟩,
      advances.closer⟩
  obtain ⟨s', later, ⟨reached, still, dead⟩, all⟩ := arrives
  have running := running_of_reaps reached still
  exact ⟨s', later, still, congrArg (List.filterMap id) dead,
    (live_of_reachable reached running).clear_enabled running still all⟩

end Progress

/-! ## The history of joins -/

section History

variable {corePoolSize maxPoolSize : SizeT} {s : JoinSystem}

/-- The joined workers are the destroyed ones and those that the loop of the
present reaper has come to. -/
theorem Live.joins_eq (live : Live corePoolSize maxPoolSize s) :
    ∃ count, s.joins = s.destroyed ++ s.deadIds.take count := by
  by_cases reaping : ∃ r, s.joined r ≠ 0
  · obtain ⟨r, some⟩ := reaping
    exact ⟨_, live.progress r (live.others_zero (live.started r some))⟩
  · exact ⟨_, live.progress none fun r' _ => not_not.mp (not_exists.mp reaping r')⟩

/-- Nobody is joined twice, and who is destroyed has been joined. -/
theorem joins_history (reachable : (joinMachine corePoolSize maxPoolSize).Reachable s) :
    s.joins.Nodup ∧ s.destroyed.Nodup ∧ s.destroyed <+: s.joins := by
  by_cases done : s.destructor = .done
  · have left := (settled_of_reachable reachable).2 done
    rw [left.joined]
    exact ⟨left.once, left.once, List.prefix_rfl⟩
  · have live := live_of_reachable reachable done
    obtain ⟨count, joins⟩ := live.joins_eq
    rw [joins]
    refine ⟨?_, live.once, List.prefix_append ..⟩
    exact live.once_cleared.sublist ((List.take_sublist count s.deadIds).append_left s.destroyed)

end History

/-- In every run, whoever reaps is none of the dead workers, and each of them
has left its last section for good; so the reaper comes to the end of its loop
with nothing but its own rounds and the returns of threads.  No worker is
joined twice or destroyed before it has been joined, and past the destructor
every worker that was ever created has been joined and destroyed. -/
theorem worker_threads_joined (corePoolSize maxPoolSize : SizeT) {s : JoinSystem}
    (reachable : (joinMachine corePoolSize maxPoolSize).Reachable s) :
    (∀ r, s.Reaps r →
      s.sys.exec.deadWorkers = s.deadIds.map some ∧
      (∀ v ∈ s.deadIds, r ≠ some v ∧ (s.sys.pc v = .exited ∨ s.sys.pc v = .finished) ∧
        ∀ s', (joinMachine corePoolSize maxPoolSize).LaterUnder Machine.anyStep s s' →
          s'.threads.mainLock ≠ some v) ∧
      ∃ s', (joinMachine corePoolSize maxPoolSize).LaterUnder (ReapStep r) s s' ∧ s'.Reaps r ∧
        s'.deadIds = s.deadIds ∧ (joinStep s' (.clear r)).isSome = true) ∧
    (s.joins.Nodup ∧ s.destroyed.Nodup ∧ s.destroyed <+: s.joins) ∧
    (s.destructor = .done →
      (∀ w : Nat, 1 ≤ w → w < s.sys.exec.nextId → s.joins.count w = 1 ∧ w ∈ s.destroyed) ∧
      s.sys.exec.workers = [] ∧ s.sys.exec.deadWorkers = []) := by
  refine ⟨fun r reaps => ?_, joins_history reachable, fun done => ?_⟩
  · have live := live_of_reachable reachable (running_of_reaps reachable reaps)
    refine ⟨live.dead.1, fun v dead => ?_, reaper_ends reachable reaps⟩
    obtain ⟨notMine, stands, out⟩ := live.out_of_dead reaps dead
    exact ⟨notMine, stands, fun _ later => unlocked_later reachable out later⟩
  · have left := (settled_of_reachable reachable).2 done
    refine ⟨fun w first handedOut => ?_, left.workers, left.deadWorkers⟩
    have destroyed := left.everyone w first handedOut
    have joined : w ∈ s.joins := left.joined ▸ destroyed
    exact ⟨List.count_eq_one_of_mem (joins_history reachable).1 joined, destroyed⟩

/-- Worker 1 runs a task, and meanwhile worker 2 is hired for another and retires. -/
def retiringRun : List JoinAction :=
  [.shutLoad .task, .insert ⟨0, .task⟩ none, .run (.lockMain 1),
    .run (.runSection 1 (.enterLoop 1)), .shutLoad .untrackable, .insert ⟨1, .untrackable⟩ none,
    .run (.lockMain 2), .run (.runSection 2 (.enterLoop 2)), .run (.start 2),
    .run (.finish 2 .exception), .run (.lockMain 2), .clear (some 2), .run (.leave 2),
    .run (.leave 2), .run (.lockMain 2), .run (.runSection 2 (.enterLoop 2)),
    .run (.other (.unblock 2)), .run (.lockMain 2), .run (.runSection 2 (.resume 2 true)),
    .run (.leave 2), .run (.leave 2), .run (.lockMain 2), .run (.runSection 2 (.exit 2)),
    .run (.leave 2), .run (.start 1), .run (.finish 1 .normal), .run (.lockMain 1)]

/-- Worker 1 reaps worker 2, and the destructor worker 1. -/
def destroyingRun : List JoinAction :=
  [.run (.threadReturn 2), .join (some 1), .clear (some 1), .run (.leave 1), .run (.leave 1),
    .destroy, .destructorTest, .destructorShutdown, .run (.lockMain 1),
    .run (.runSection 1 (.enterLoop 1)), .run (.leave 1), .run (.lockMain 1),
    .run (.runSection 1 (.exit 1)), .run (.leave 1), .destructorAwait (.awaitCheck 0),
    .run (.threadReturn 1), .join none, .clear none]

theorem worker_threads_joined_retired :
    (∃ s, (joinMachine 1#64 2#64).Reachable s ∧ s.Reaps (some 1) ∧ s.deadIds = [2] ∧
      ∀ s', (joinMachine 1#64 2#64).LaterUnder Machine.anyStep s s' →
        s'.threads.mainLock ≠ some 2) ∧
    ∃ s, (joinMachine 1#64 2#64).Reachable s ∧ s.destructor = .done ∧ s.sys.exec.nextId = 3 ∧
      s.joins.count 1 = 1 ∧ s.joins.count 2 = 1 := by
  constructor
  · have run : ((joinMachine 1#64 2#64).exec (joinInitial 1#64 2#64) retiringRun).map
        (fun s => (decide (s.Reaps (some 1)), s.deadIds)) = some (true, [2]) := by
      decide
    obtain ⟨s, runs, observed⟩ := Option.map_eq_some_iff.mp run
    simp only [Prod.mk.injEq, decide_eq_true_eq] at observed
    obtain ⟨reaps, dead⟩ := observed
    have reached := Machine.reachable_of_exec runs
    have ofReaper := (worker_threads_joined 1#64 2#64 reached).1 (some 1) reaps
    exact ⟨s, reached, reaps, dead,
      (ofReaper.2.1 2 (by rw [dead]; exact List.mem_singleton.mpr rfl)).2.2⟩
  · have run : ((joinMachine 1#64 2#64).exec (joinInitial 1#64 2#64)
        (retiringRun ++ destroyingRun)).map
        (fun s => (s.destructor, s.sys.exec.nextId)) = some (.done, 3) := by
      decide
    obtain ⟨s, runs, observed⟩ := Option.map_eq_some_iff.mp run
    obtain ⟨done, nextId⟩ := Prod.mk.inj observed
    have reached := Machine.reachable_of_exec runs
    have everyone := ((worker_threads_joined 1#64 2#64 reached).2.2 done).1
    exact ⟨s, reached, done, nextId, (everyone 1 (by decide) (by rw [nextId]; decide)).1,
      (everyone 2 (by decide) (by rw [nextId]; decide)).1⟩

end Conc11.Executor
