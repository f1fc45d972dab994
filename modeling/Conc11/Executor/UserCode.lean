/-
Module: Conc11.Executor.UserCode
Purpose: Where the code of a task runs with respect to `main_lock`.  `run` drops the lock around the body of
  a task, but `task` is declared after `lock` and dies before it at the end of the loop body, so every
  task is destroyed under the lock, and a destructor that calls the executor blocks it for good.
Trusted boundary: none
Main exports: Passive, passive_of_step, Standing, Framed, framed_of_reachable, user_code_off_lock
-/
import Conc11.Executor.Scopes
import Conc11.Executor.WorkerTable

namespace Conc11.Executor

open Library

/-! ## What a step does to the other workers -/

/-- What may happen to a worker in a step it does not take itself: a wait ends,
a new thread starts, a finished one is joined. -/
inductive Passive : WorkerPc → WorkerPc → Prop where
  | same (pc : WorkerPc) : Passive pc pc
  | wakes (status : WaitStatus) : Passive (.waiting .blocked) (.waiting status)
  | born : Passive .unborn .loopTop
  | joined : Passive .finished .joined

theorem passive_update {pc : WorkerId → WorkerPc} {w : WorkerId} {q : WorkerPc}
    (moves : Passive (pc w) q) (v : WorkerId) : Passive (pc v) (Function.update pc w q v) := by
  by_cases same : v = w
  · rw [same, Function.update_self]
    exact moves
  · rw [Function.update_of_ne same]
    exact .same _

theorem passive_update_of_ne {pc : WorkerId → WorkerPc} {v w : WorkerId} {q : WorkerPc}
    (other : v ≠ w) : Passive (pc v) (Function.update pc w q v) := by
  rw [Function.update_of_ne other]
  exact .same _

section Steps

variable {s s' : System} {a : Action}

theorem sectionOf_of_awaits {c : Nat} {otherwise : AwaitPc} (awaits : a.awaits c otherwise) :
    a.sectionOf = none := by
  cases a <;> simp_all [Action.awaits, Action.sectionOf]

theorem sectionOf_of_fetches {w : WorkerId} (fetches : a.fetches w) : a.sectionOf = some w := by
  cases a <;> simp_all [Action.fetches, Action.sectionOf]

theorem passive_insertTask (tabled : s.Tabled) (task : TaskBase) (v : WorkerId) :
    Passive (s.pc v) ((s.insertTask task).pc v) := by
  rcases tabled.insertTask_cases task with ⟨_, _, unborn, _, pc, _⟩ | ⟨_, _, pc, _⟩
  · rw [pc]
    exact passive_update (by rw [unborn]; exact .born) v
  · rw [pc]
    exact .same _

/-- A worker is only passively moved by the steps that are not its own. -/
theorem passive_of_transition (tabled : s.Tabled) (moved : Transition s a s') (v : WorkerId)
    (notSection : a.sectionOf ≠ some v) (notStart : a ≠ .start v)
    (notFinish : ∀ outcome, a ≠ .finish v outcome) (notReturn : a ≠ .threadReturn v) :
    Passive (s.pc v) (s'.pc v) := by
  cases moved with
  | shutLoad kind =>
      unfold System.shutLoad
      split <;> exact .same _
  | insertUnheard task _ _ => exact passive_insertTask tabled task v
  | insertNotify task w _ blocked =>
      by_cases same : v = w
      · subst same
        have before := passive_insertTask tabled task v
        rw [blocked] at before
        have asleep : s.pc v = .waiting .blocked := by
          generalize s.pc v = pc at before
          cases before <;> rfl
        rw [asleep]
        simpa [System.goto] using Passive.wakes .notified
      · simpa [System.goto, Function.update_of_ne same] using passive_insertTask tabled task v
  | shutdown =>
      unfold System.shutdown
      dsimp only
      split
      · exact .same _
      · change Passive _ (if (s.pc v).isBlocked then WorkerPc.waiting .notified else s.pc v)
        split
        next blocked =>
          rw [WorkerPc.isBlocked_iff.mp blocked]
          exact .wakes _
        next => exact .same _
  | awaitTest _ _ _ _ | awaitUnblock _ _ => exact .same _
  | unblock w blocked => exact passive_update (by rw [blocked]; exact .wakes _) v
  | fetch a w task rest fetches _ _ | leave a w fetches _ _ _ | sleep a w fetches _ _ _ =>
      apply passive_update_of_ne
      rintro rfl
      exact notSection (sectionOf_of_fetches fetches)
  | start w task _ =>
      apply passive_update_of_ne
      rintro rfl
      exact notStart rfl
  | finish w task outcome _ =>
      apply passive_update_of_ne
      rintro rfl
      exact notFinish outcome rfl
  | afterTask w task _ joinable =>
      have other : v ≠ w := by
        rintro rfl
        exact notSection rfl
      change Passive _ (Function.update
        (fun u => if some u ∈ s.exec.deadWorkers then WorkerPc.joined else s.pc u) w .loopTop v)
      rw [Function.update_of_ne other]
      split
      next dead =>
        rw [joinable v (by simpa using dead)]
        exact .joined
      next => exact .same _
  | exit w _ =>
      rw [s.exitSection_pc]
      apply passive_update_of_ne
      rintro rfl
      exact notSection rfl
  | threadReturn w _ =>
      apply passive_update_of_ne
      rintro rfl
      exact notReturn rfl

theorem start_eq {w : WorkerId} (stepEq : step s (.start w) = some s') :
    ∃ task, s.pc w = .fetched task ∧ s'.pc = Function.update s.pc w (.running task) := by
  dsimp only [step] at stepEq
  split at stepEq
  next task fetched =>
    cases stepEq
    exact ⟨task, fetched, rfl⟩
  next => cases stepEq

theorem finish_eq {w : WorkerId} {outcome : Outcome}
    (stepEq : step s (.finish w outcome) = some s') :
    ∃ task, s.pc w = .running task ∧ s'.pc = Function.update s.pc w (.returned task) := by
  dsimp only [step] at stepEq
  split at stepEq
  next task running =>
    cases stepEq
    exact ⟨task, running, rfl⟩
  next => cases stepEq

/-- The sections of callers and the events without a lock move all workers passively. -/
theorem passive_of_caller (tabled : s.Tabled) (stepEq : step s a = some s')
    (ofCaller : a.callerSection = true ∨ a.lockFree = true) (v : WorkerId) :
    Passive (s.pc v) (s'.pc v) := by
  apply passive_of_transition tabled (transition_of_step stepEq) v
  · cases a <;> simp_all [Action.callerSection, Action.lockFree, Action.sectionOf]
  all_goals
    intros
    rintro rfl
    simp [Action.callerSection, Action.lockFree] at ofCaller

end Steps

/-! ## The frames along `run` -/

/-- The thread is outside of the two blocks of `run`, or has not declared
anything in them yet. -/
def WorkerPc.outsideBlocks : WorkerPc → Bool
  | .unborn | .loopTop | .exiting | .exited | .finished | .joined => true
  | _ => false

/-- The positions in which a block can be left with nothing but its lock. -/
def WorkerPc.endsBlock : WorkerPc → Bool
  | .loopTop | .exiting | .exited => true
  | _ => false

/-- The task that the worker has fetched and not yet finished with. -/
def WorkerPc.task? : WorkerPc → Option TaskBase
  | .fetched task | .running task | .returned task => some task
  | _ => none

/-- The frame of a worker at each point of `run`, and whether the worker owns
`main_lock` there.  The cases follow the source from the head of the loop on. -/
inductive Standing : WorkerPc → Frame → Bool → Prop where
  | outside {pc : WorkerPc} (out : pc.outsideBlocks = true) : Standing pc .idle false
  | declared {pc : WorkerPc} (head : pc = .loopTop ∨ pc = .exiting) :
      Standing pc { locals := [.lock true], leaving := false, calling := false } true
  | asleep (status : WaitStatus) :
      Standing (.waiting status) { locals := [.lock false], leaving := false, calling := false }
        false
  | awake {status : WaitStatus} (unblocked : status ≠ .blocked) :
      Standing (.waiting status) { locals := [.lock true], leaving := false, calling := false }
        true
  | withTask {pc : WorkerPc} (task : TaskBase) (calling : Bool) (has : pc.task? = some task)
      (user : calling = true → pc = .running task) :
      Standing pc
        { locals := [.task (some task), .lock false], leaving := false, calling := calling } false
  | relocked (task : TaskBase) :
      Standing (.returned task)
        { locals := [.task (some task), .lock true], leaving := false, calling := false } true
  | destroying (task : TaskBase) (calling : Bool) :
      Standing .loopTop
        { locals := [.task (some task), .lock true], leaving := true, calling := calling } true
  | noTask :
      Standing .exiting { locals := [.task none, .lock true], leaving := true, calling := false }
        true
  | unlocking {pc : WorkerPc} (ends : pc.endsBlock = true) :
      Standing pc { locals := [.lock true], leaving := true, calling := false } true

namespace Standing

variable {pc pc' : WorkerPc} {frame : Frame} {owns : Bool}

theorem passive (standing : Standing pc frame owns) (moves : Passive pc pc') :
    Standing pc' frame owns := by
  cases moves with
  | same => exact standing
  | wakes status =>
      cases standing with
      | outside out => cases out
      | declared head => simp at head
      | asleep _ => exact .asleep status
      | awake unblocked => exact absurd rfl unblocked
      | withTask _ _ has _ => cases has
      | unlocking ends => cases ends
  | born =>
      cases standing with
      | outside out => exact .outside rfl
      | declared head => simp at head
      | withTask _ _ has _ => cases has
      | unlocking ends => cases ends
  | joined =>
      cases standing with
      | outside out => exact .outside rfl
      | declared head => simp at head
      | withTask _ _ has _ => cases has
      | unlocking ends => cases ends

/-- The thread gets `main_lock` for its next section. -/
theorem locks (standing : Standing pc frame false) (atLock : pc.atLock = true) :
    Standing pc
      { frame with
        locals := if frame.locals = [] then [.lock true] else frame.locals.map (.setOwns true) }
      true := by
  cases standing with
  | outside out =>
      apply Standing.declared
      cases pc <;> simp_all [WorkerPc.outsideBlocks, WorkerPc.atLock]
  | asleep status =>
      apply Standing.awake
      rintro rfl
      cases atLock
  | withTask task calling has user =>
      cases pc with
      | returned done =>
          cases has
          have silent : calling = false := by
            cases calling with
            | false => rfl
            | true => cases user rfl
          subst silent
          exact .relocked task
      | _ => simp_all [WorkerPc.task?, WorkerPc.atLock]

/-- The frame of a thread that owns `main_lock` inside a block. -/
theorem inside_cases (standing : Standing pc frame true) (inside : frame.leaving = false) :
    frame = { locals := [.lock true], leaving := false, calling := false } ∧
        (pc = .loopTop ∨ pc = .exiting ∨ ∃ status, pc = .waiting status) ∨
      ∃ task, pc = .returned task ∧
        frame = { locals := [.task (some task), .lock true], leaving := false, calling := false } := by
  cases standing with
  | declared head =>
      rcases head with top | exiting
      · exact .inl ⟨rfl, .inl top⟩
      · exact .inl ⟨rfl, .inr (.inl exiting)⟩
  | awake _ => exact .inl ⟨rfl, .inr (.inr ⟨_, rfl⟩)⟩
  | relocked task => exact .inr ⟨task, rfl, rfl⟩
  | destroying _ _ | noTask | unlocking _ => cases inside

/-- A thread that leaves a block owns `main_lock` until its lock is destroyed. -/
theorem leaving_cases (standing : Standing pc frame owns) (leaving : frame.leaving = true) :
    owns = true ∧ pc.endsBlock = true ∧
      ((∃ ptr, frame.locals = [.task ptr, .lock true]) ∨ frame.locals = [.lock true]) := by
  cases standing with
  | destroying task _ => exact ⟨rfl, rfl, .inl ⟨some task, rfl⟩⟩
  | noTask => exact ⟨rfl, rfl, .inl ⟨none, rfl⟩⟩
  | unlocking ends => exact ⟨rfl, ends, .inr rfl⟩
  | _ => cases leaving

/-- User code calls the executor, or comes back from there. -/
theorem calls (standing : Standing pc frame owns)
    (user : (∃ task, pc = .running task) ∨
      (frame.leaving = true ∧ ∃ task, frame.locals.head? = some (.task (some task))) ∨
      frame.calling = true) (calling : Bool) :
    Standing pc { frame with calling := calling } owns := by
  cases standing with
  | withTask task before has running =>
      refine .withTask task calling has fun _ => ?_
      rcases user with ⟨task', rfl⟩ | ⟨leaving, _⟩ | called
      · cases has
        rfl
      · cases leaving
      · exact running called
  | destroying task _ => exact .destroying task calling
  | outside out =>
      rcases user with ⟨_, rfl⟩ | ⟨leaving, _⟩ | called
      · cases out
      · cases leaving
      · cases called
  | unlocking ends =>
      rcases user with ⟨_, rfl⟩ | ⟨_, _, head⟩ | called
      · cases ends
      · cases head
      · cases called
  | declared head => rcases head with rfl | rfl <;> simp at user
  | _ => simp at user

/-- The worker goes on with its task. -/
theorem goesOn (standing : Standing pc frame owns) {task : TaskBase}
    (before : pc.task? = some task) (notReturned : ∀ done, pc ≠ .returned done)
    (silent : frame.calling = false) (after : pc'.task? = some task) :
    Standing pc' frame owns := by
  cases standing with
  | withTask task' calling has _ =>
      rw [before] at has
      cases has
      exact .withTask task calling after (by simp [show calling = false from silent])
  | relocked task' => exact absurd rfl (notReturned task')
  | outside out => cases pc <;> simp_all [WorkerPc.outsideBlocks, WorkerPc.task?]
  | declared head => rcases head with rfl | rfl <;> cases before
  | unlocking ends => cases pc <;> simp_all [WorkerPc.endsBlock, WorkerPc.task?]
  | _ => cases before

/-- Before the body runs there is no call from it. -/
theorem silent_of_fetched {task : TaskBase} (standing : Standing (.fetched task) frame owns) :
    frame.calling = false := by
  cases standing with
  | outside out => rfl
  | declared head => rfl
  | withTask task' calling has user =>
      cases calling with
      | false => rfl
      | true => cases user rfl
  | unlocking ends => rfl

/-- After its exit section a thread has nothing left to destroy. -/
theorem idle_of_exited (standing : Standing .exited frame false) : frame = .idle := by
  cases standing with
  | outside _ => rfl
  | withTask _ _ has _ => cases has

end Standing

/-- Every worker stands where `run` has taken it. -/
def Framed (s : ScopedSystem) : Prop :=
  ∀ w, Standing (s.sys.pc w) (s.frame w) (decide (s.mainLock = some w))

namespace Framed

variable {s s' : ScopedSystem} {w : WorkerId}

theorem initial (corePoolSize maxPoolSize : SizeT) :
    Framed (scopedInitial corePoolSize maxPoolSize) := by
  intro w
  apply Standing.outside
  change (if some w ∈ _ then WorkerPc.loopTop else .unborn).outsideBlocks = true
  split <;> rfl

/-- A step that only moves the executor, and every worker passively. -/
theorem passive (framed : Framed s) {sys : System}
    (moves : ∀ v, Passive (s.sys.pc v) (sys.pc v)) : Framed { s with sys := sys } :=
  fun v => (framed v).passive (moves v)

/-- A step of worker `w`: the others are moved passively and own `main_lock` as before. -/
theorem own (framed : Framed s) (frame : Frame)
    (frames : s'.frame = Function.update s.frame w frame)
    (others : ∀ v, v ≠ w → Passive (s.sys.pc v) (s'.sys.pc v))
    (locks : ∀ v, v ≠ w → (s'.mainLock = some v ↔ s.mainLock = some v))
    (itself : Standing (s'.sys.pc w) frame (decide (s'.mainLock = some w))) : Framed s' := by
  intro v
  rw [frames]
  by_cases same : v = w
  · rw [same, Function.update_self]
    exact itself
  · rw [Function.update_of_ne same, decide_eq_decide.mpr (locks v same)]
    exact (framed v).passive (others v same)

theorem lockMain (framed : Framed s) (free : s.mainLock = none)
    (atLock : (s.sys.pc w).atLock = true) : Framed (s.lockMain w) := by
  refine framed.own _ rfl (fun _ _ => .same _) ?_ ?_
  · intro v other
    simp [ScopedSystem.lockMain, free, Ne.symm other]
  · have standing := framed w
    rw [free] at standing
    simpa [ScopedSystem.lockMain] using standing.locks atLock

/-- The section of `w` has run: the others are passive. -/
private theorem others_of_section (tabled : s.sys.Tabled) {a : Action} {sys : System}
    (ofWorker : a.sectionOf = some w) (moved : Transition s.sys a sys) (v : WorkerId)
    (other : v ≠ w) : Passive (s.sys.pc v) (sys.pc v) := by
  apply passive_of_transition tabled moved v
  · rw [ofWorker]
    intro same
    exact other (Option.some.inj same).symm
  all_goals
    intros
    rintro rfl
    cases ofWorker

/-- With `main_lock` released nobody owns it. -/
private theorem released (owner : s.mainLock = some w) (v : WorkerId) (other : v ≠ w) :
    none = some v ↔ s.mainLock = some v := by
  simp [owner, Ne.symm other]

/-- A section at the head of the loop or behind the wait has led to a task, to
sleep or to a `break`. -/
private theorem afterFetch (framed : Framed s) (owner : s.mainLock = some w)
    (frame : s.frame w = { locals := [.lock true], leaving := false, calling := false })
    {a : Action} {sys : System} (others : ∀ v, v ≠ w → Passive (s.sys.pc v) (sys.pc v))
    (result : (∃ task, sys.pc w = .fetched task) ∨ sys.pc w = .waiting .blocked ∨
      sys.pc w = .exiting) : Framed (s.afterSection w a sys) := by
  rcases result with ⟨task, pc⟩ | pc | pc
  · rw [ScopedSystem.afterSection_fetched pc]
    apply framed.own _ rfl others (released owner)
    rw [pc, frame]
    exact .withTask task false rfl nofun
  · rw [ScopedSystem.afterSection_waiting pc]
    apply framed.own _ rfl others (released owner)
    rw [pc, frame]
    exact .asleep .blocked
  · rw [ScopedSystem.afterSection_exiting pc]
    refine framed.own _ rfl others (fun _ _ => Iff.rfl) ?_
    rw [pc, frame, owner, decide_eq_true rfl]
    -- the first `break` comes before `task` is declared, the second after
    dsimp only
    split
    · exact .unlocking rfl
    · exact .noTask

/-- A section of `run` has been run. -/
theorem runSection (framed : Framed s) (tabled : s.sys.Tabled) {a : Action} {sys : System}
    (owner : s.mainLock = some w) (inside : (s.frame w).leaving = false)
    (ofWorker : a.sectionOf = some w) (moved : Transition s.sys a sys) :
    Framed (s.afterSection w a sys) := by
  have others := others_of_section tabled ofWorker moved
  have standing := framed w
  rw [owner, decide_eq_true rfl] at standing
  have place := standing.inside_cases inside
  -- the worker has looked at the queue, so its frame holds the lock only
  have atQueue : (s.sys.pc w).atFetch = true →
      s.frame w = { locals := [.lock true], leaving := false, calling := false } := by
    intro looks
    rcases place with ⟨frame, _⟩ | ⟨task, pc, _⟩
    · exact frame
    · rw [pc] at looks
      cases looks
  cases moved with
  | fetch a v task rest fetches atFetch _ =>
      obtain rfl : v = w := Option.some.inj ((sectionOf_of_fetches fetches).symm.trans ofWorker)
      exact framed.afterFetch owner (atQueue atFetch) others
        (.inl ⟨task, Function.update_self ..⟩)
  | sleep a v fetches atFetch _ _ =>
      obtain rfl : v = w := Option.some.inj ((sectionOf_of_fetches fetches).symm.trans ofWorker)
      exact framed.afterFetch owner (atQueue atFetch) others
        (.inr (.inl (Function.update_self ..)))
  | leave a v fetches atFetch _ _ =>
      obtain rfl : v = w := Option.some.inj ((sectionOf_of_fetches fetches).symm.trans ofWorker)
      exact framed.afterFetch owner (atQueue atFetch) others
        (.inr (.inr (Function.update_self ..)))
  | afterTask v task returned joinable =>
      obtain rfl : v = w := Option.some.inj ofWorker
      have pc : (s.sys.afterTask v).pc v = .loopTop := by simp [System.afterTask]
      rcases place with ⟨_, elsewhere⟩ | ⟨task', _, frame⟩
      · rw [returned] at elsewhere
        simp at elsewhere
      · rw [ScopedSystem.afterSection_done (.inl pc)]
        refine framed.own _ rfl others (fun _ _ => Iff.rfl) ?_
        rw [pc, frame, owner, decide_eq_true rfl]
        exact .destroying task' false
  | exit v exiting =>
      obtain rfl : v = w := Option.some.inj ofWorker
      have pc : (s.sys.exitSection v).pc v = .exited := by
        rw [s.sys.exitSection_pc, Function.update_self]
      rcases place with ⟨frame, _⟩ | ⟨task, returned, _⟩
      · rw [ScopedSystem.afterSection_done (.inr pc)]
        refine framed.own _ rfl others (fun _ _ => Iff.rfl) ?_
        rw [pc, frame, owner, decide_eq_true rfl]
        exact .unlocking rfl
      · rw [exiting] at returned
        cases returned
  | insertUnheard _ _ _ | insertNotify _ _ _ _ | shutLoad _ | shutdown | awaitUnblock _ _
  | unblock _ _ | start _ _ _ | finish _ _ _ _ | threadReturn _ _ => cases ofWorker
  | awaitTest a c otherwise awaits =>
      rw [sectionOf_of_awaits awaits] at ofWorker
      cases ofWorker

theorem leave (framed : Framed s) (leaving : (s.frame w).leaving = true) :
    Framed (s.leave w) := by
  obtain ⟨owner, ends, both | last⟩ := (framed w).leaving_cases leaving
  · obtain ⟨ptr, locals⟩ := both
    have after : s.leave w =
        { s with
          frame := Function.update s.frame w
            { locals := [.lock true], leaving := true, calling := false } } := by
      simp [ScopedSystem.leave, locals]
    rw [after]
    refine framed.own _ rfl (fun _ _ => .same _) (fun _ _ => Iff.rfl) ?_
    rw [owner]
    exact .unlocking ends
  · have after : s.leave w =
        { s with mainLock := none, frame := Function.update s.frame w .idle } := by
      simp [ScopedSystem.leave, last, Frame.idle]
    rw [after]
    refine framed.own _ rfl (fun _ _ => .same _) ?_ ?_
    · intro v other
      simp [of_decide_eq_true owner, Ne.symm other]
    · apply Standing.outside
      change (s.sys.pc w).outsideBlocks = true
      cases pc : s.sys.pc w <;> simp_all [WorkerPc.endsBlock, WorkerPc.outsideBlocks]

theorem setCalling (framed : Framed s) (calling : Bool)
    (user : s.InUserCode w ∨ (s.frame w).calling = true) : Framed (s.setCalling w calling) := by
  refine framed.own _ rfl (fun _ _ => .same _) (fun _ _ => Iff.rfl) ?_
  apply (framed w).calls
  rcases user with (running | ⟨task, leaving, head⟩) | called
  · exact .inl running
  · exact .inr (.inl ⟨leaving, task, head⟩)
  · exact .inr (.inr called)

/-- A worker goes on with its task. -/
theorem goesOn (framed : Framed s) {task : TaskBase} {pc : WorkerPc}
    (before : (s.sys.pc w).task? = some task) (notReturned : ∀ done, s.sys.pc w ≠ .returned done)
    (silent : (s.frame w).calling = false) (after : pc.task? = some task) {sys : System}
    (moved : sys.pc = Function.update s.sys.pc w pc) : Framed { s with sys := sys } := by
  intro v
  change Standing (sys.pc v) (s.frame v) (decide (s.mainLock = some v))
  rw [moved]
  by_cases same : v = w
  · subst same
    rw [Function.update_self]
    exact (framed v).goesOn before notReturned silent after
  · rw [Function.update_of_ne same]
    exact framed v

theorem transition {a : ScopedAction} (framed : Framed s) (tabled : s.sys.Tabled)
    (moved : ScopedTransition s a s') : Framed s' := by
  cases moved with
  | lockMain w free _ atLock => exact framed.lockMain free atLock
  | runSection w a sys owner inside ofWorker moved =>
      exact framed.runSection tabled owner inside ofWorker (transition_of_step moved)
  | start w sys moved =>
      obtain ⟨task, fetched, pc⟩ := start_eq moved
      have standing := framed w
      rw [fetched] at standing
      refine framed.goesOn (by rw [fetched]; rfl) ?_ standing.silent_of_fetched rfl pc
      intro done
      rw [fetched]
      nofun
  | finish w outcome sys silent moved =>
      obtain ⟨task, running, pc⟩ := finish_eq moved
      refine framed.goesOn (by rw [running]; rfl) ?_ silent rfl pc
      intro done
      rw [running]
      nofun
  | leave w leaving _ => exact framed.leave leaving
  | callBack w user _ => exact framed.setCalling true (.inl user)
  | getPoolSize w _ calling => exact framed.setCalling false (.inr calling)
  | callSection w a sys free calling ofCaller moved =>
      exact (framed.setCalling false (.inr calling)).passive
        (passive_of_caller tabled moved (.inl ofCaller))
  | threadReturn w sys idle moved =>
      obtain ⟨exited, same⟩ := Option.ite_none_right_eq_some.mp moved
      cases same
      refine framed.own .idle ?_ (fun v other => passive_update_of_ne other) (fun _ _ => Iff.rfl) ?_
      · rw [← idle, Function.update_eq_self]
      · have standing := framed w
        rw [idle, exited] at standing
        have returned : (s.sys.goto w .finished).pc w = .finished := Function.update_self ..
        change Standing ((s.sys.goto w .finished).pc w) .idle (decide (s.mainLock = some w))
        rw [returned]
        generalize decide (s.mainLock = some w) = owns at standing ⊢
        cases standing
        exact .outside rfl
  | other a sys allowed moved =>
      apply framed.passive (passive_of_caller tabled moved _)
      rcases allowed with ⟨ofCaller, _⟩ | free
      · exact .inl ofCaller
      · exact .inr free

end Framed

/-! ## Runs -/

section Runs

variable {corePoolSize maxPoolSize : SizeT} {s : ScopedSystem}

theorem framed_of_reachable (reachable : (scopedMachine corePoolSize maxPoolSize).Reachable s) :
    Framed s := by
  apply reachable.invariant (.initial _ _)
  intro s a s' reached framed _ stepEq
  exact framed.transition (tabled_of_reachable (reachable_sys reached))
    (scopedTransition_of_step stepEq)

/-- A task that its worker has fetched is held by the worker's frame. -/
theorem task_mem_locals (framed : Framed s) {w : WorkerId} {task : TaskBase}
    (has : (s.sys.pc w).task? = some task) : .task (some task) ∈ (s.frame w).locals := by
  have standing := framed w
  generalize decide (s.mainLock = some w) = owns at standing
  generalize s.sys.pc w = pc at standing has
  generalize s.frame w = frame at standing
  cases standing with
  | withTask task' _ has' _ =>
      rw [has] at has'
      cases has'
      exact List.mem_cons_self
  | relocked task' =>
      cases has
      exact List.mem_cons_self
  | outside out => cases pc <;> simp_all [WorkerPc.outsideBlocks, WorkerPc.task?]
  | declared head => rcases head with rfl | rfl <;> cases has
  | unlocking ends => cases pc <;> simp_all [WorkerPc.endsBlock, WorkerPc.task?]
  | _ => cases has

/-- A lock changes hands around the tasks of a frame. -/
theorem mem_map_setOwns {locals : List Local} {owns : Bool} {ptr : Option TaskBase}
    (member : Local.task ptr ∈ locals) : Local.task ptr ∈ locals.map (Local.setOwns owns) :=
  List.mem_map.mpr ⟨Local.task ptr, member, rfl⟩

/-- A step of one worker keeps the tasks of all frames if it keeps its own. -/
private theorem alive_update {s' : ScopedSystem} {v w : WorkerId} {frame : Frame}
    {ptr : Option TaskBase} (frames : s'.frame = Function.update s.frame v frame)
    (keeps : Local.task ptr ∈ (s.frame v).locals → Local.task ptr ∈ frame.locals)
    (alive : Local.task ptr ∈ (s.frame w).locals) : Local.task ptr ∈ (s'.frame w).locals := by
  rw [frames]
  by_cases same : w = v
  · subst same
    rw [Function.update_self]
    exact keeps alive
  · rwa [Function.update_of_ne same]

theorem alive_afterSection {v w : WorkerId} {a : Action} {sys : System} {ptr : Option TaskBase}
    (alive : Local.task ptr ∈ (s.frame w).locals) :
    Local.task ptr ∈ ((s.afterSection v a sys).frame w).locals := by
  unfold ScopedSystem.afterSection
  dsimp only
  split
  next => exact alive_update rfl (fun here => List.mem_cons_of_mem _ (mem_map_setOwns here)) alive
  next => exact alive_update rfl mem_map_setOwns alive
  next =>
    refine alive_update rfl (fun here => ?_) alive
    dsimp only
    split
    · exact here
    · exact List.mem_cons_of_mem _ here
  next => exact alive_update rfl id alive

/-- A task leaves the frame of its worker only by its destruction. -/
theorem task_dies {s' : ScopedSystem} {a : ScopedAction} (framed : Framed s)
    (moved : ScopedTransition s a s') {w : WorkerId} {task : TaskBase}
    (alive : Local.task (some task) ∈ (s.frame w).locals) :
    Local.task (some task) ∈ (s'.frame w).locals ∨ a = .leave w ∧ s.Destroys w task := by
  cases moved with
  | start _ _ _ | finish _ _ _ _ _ | threadReturn _ _ _ _ | other _ _ _ _ => exact .inl alive
  | callBack v _ _ | getPoolSize v _ _ | callSection v _ _ _ _ _ _ =>
      exact .inl (alive_update (v := v) rfl id alive)
  | lockMain v _ _ _ =>
      refine .inl (alive_update (v := v) rfl (fun here => ?_) alive)
      dsimp only
      rw [if_neg (List.ne_nil_of_mem here)]
      exact mem_map_setOwns here
  | runSection v a sys _ _ _ _ => exact .inl (alive_afterSection alive)
  | leave v leaving _ =>
      obtain ⟨_, _, locals⟩ := (framed v).leaving_cases leaving
      by_cases same : w = v
      · subst same
        rcases locals with ⟨ptr, both⟩ | last
        · rw [both] at alive
          have isPtr : ptr = some task := by simpa [eq_comm] using alive
          right
          refine ⟨rfl, leaving, ?_⟩
          rw [both, isPtr]
          rfl
        · rw [last] at alive
          simp at alive
      · left
        unfold ScopedSystem.leave
        split
        · exact alive
        · simpa only [Function.update_of_ne same] using alive

/-- Whoever destroys a task owns `main_lock`. -/
theorem owner_of_leaving (framed : Framed s) {w : WorkerId}
    (leaving : (s.frame w).leaving = true) : s.mainLock = some w :=
  of_decide_eq_true ((framed w).leaving_cases leaving).1

/-- User code that locks `main_lock` twice never gets on, and nobody else gets
the lock either. -/
theorem locksTwice_transition {s' : ScopedSystem} {a : ScopedAction} (framed : Framed s)
    (moved : ScopedTransition s a s') {w : WorkerId} (leaving : (s.frame w).leaving = true)
    (twice : s.LocksTwice w) : (s'.frame w).leaving = true ∧ s'.LocksTwice w := by
  obtain ⟨calling, owner⟩ := twice
  cases moved with
  | lockMain v free _ _ | getPoolSize v free _ | callSection v _ _ free _ _ _ =>
      rw [owner] at free
      cases free
  | runSection v a sys owner' inside _ _ =>
      have same : w = v := Option.some.inj (owner.symm.trans owner')
      rw [← same, leaving] at inside
      cases inside
  | start _ _ _ | finish _ _ _ _ _ | threadReturn _ _ _ _ | other _ _ _ _ =>
      exact ⟨leaving, calling, owner⟩
  | leave v leaving' silent =>
      have same : w = v := Option.some.inj (owner.symm.trans (owner_of_leaving framed leaving'))
      rw [← same, calling] at silent
      cases silent
  | callBack v _ silent =>
      have other : w ≠ v := by
        rintro rfl
        rw [calling] at silent
        cases silent
      have unmoved : (s.setCalling v true).frame w = s.frame w := Function.update_of_ne other _ _
      refine ⟨?_, ?_, owner⟩
      · rw [unmoved, leaving]
      · rw [unmoved, calling]

/-- Whoever waits for `main_lock` while it owns it is destroying its task. -/
theorem locksTwice_iff (framed : Framed s) {w : WorkerId} :
    s.LocksTwice w ↔ (s.frame w).calling = true ∧ ∃ task, s.Destroys w task := by
  constructor
  · rintro ⟨calling, owner⟩
    refine ⟨calling, ?_⟩
    have standing := framed w
    rw [owner, decide_eq_true rfl] at standing
    unfold ScopedSystem.Destroys
    generalize s.sys.pc w = pc at standing
    generalize s.frame w = frame at standing calling
    cases standing with
    | destroying task _ => exact ⟨task, rfl, rfl⟩
    | _ => cases calling
  · rintro ⟨calling, task, leaving, _⟩
    exact ⟨calling, owner_of_leaving framed leaving⟩

/-- Bodies run without the lock. -/
theorem not_owner_of_running (framed : Framed s) {w : WorkerId} {task : TaskBase}
    (running : s.sys.pc w = .running task) : s.mainLock ≠ some w := by
  intro owner
  have standing := framed w
  rw [owner, decide_eq_true rfl, running] at standing
  generalize s.frame w = frame at standing
  cases standing with
  | declared head => rcases head with top | top <;> cases top
  | unlocking ends => cases ends

end Runs

/-- Where user code runs.  In every reachable state the body of a task runs
without `main_lock`, but a task is destroyed with it: user code is off the lock
exactly in the states in which no worker destroys its task.  Every task that a
worker has fetched dies this way and no other, and a destructor that calls the
executor locks `main_lock` twice, from which no step leads out. -/
theorem user_code_off_lock (corePoolSize maxPoolSize : SizeT) {s : ScopedSystem}
    (reachable : (scopedMachine corePoolSize maxPoolSize).Reachable s) :
    (∀ w task, s.sys.pc w = .running task → s.mainLock ≠ some w) ∧
      (∀ w task, s.Destroys w task → s.mainLock = some w) ∧
      (s.OffLock ↔ ∀ w task, ¬ s.Destroys w task) ∧
      (∀ w task, (s.sys.pc w).task? = some task → Local.task (some task) ∈ (s.frame w).locals) ∧
      (∀ w task a s', scopedStep s a = some s' → Local.task (some task) ∈ (s.frame w).locals →
        Local.task (some task) ∈ (s'.frame w).locals ∨ a = .leave w ∧ s.Destroys w task) ∧
      (∀ w, s.LocksTwice w ↔ (s.frame w).calling = true ∧ ∃ task, s.Destroys w task) ∧
      (∀ w s', s.LocksTwice w →
        (scopedMachine corePoolSize maxPoolSize).LaterUnder Machine.anyStep s s' →
        s'.LocksTwice w) := by
  have framed := framed_of_reachable reachable
  have bodies : ∀ w task, s.sys.pc w = .running task → s.mainLock ≠ some w :=
    fun _ _ => not_owner_of_running framed
  have destructions : ∀ w task, s.Destroys w task → s.mainLock = some w :=
    fun _ _ destroys => owner_of_leaving framed destroys.1
  refine ⟨bodies, destructions, ⟨?_, ?_⟩, fun _ _ => task_mem_locals framed, ?_,
    fun _ => locksTwice_iff framed, ?_⟩
  · intro offLock w task destroys
    exact offLock w (.inr ⟨task, destroys⟩) (destructions w task destroys)
  · rintro nobody w (⟨task, running⟩ | ⟨task, destroys⟩)
    · exact bodies w task running
    · exact absurd destroys (nobody w task)
  · intro w task a s' stepEq alive
    exact task_dies framed (scopedTransition_of_step stepEq) alive
  · intro w s' twice later
    obtain ⟨_, task, leaving, _⟩ := (locksTwice_iff framed).mp twice
    have stuck : (s'.frame w).leaving = true ∧ s'.LocksTwice w := by
      apply later.invariant (motive := fun s' => (s'.frame w).leaving = true ∧ s'.LocksTwice w)
        reachable ⟨leaving, twice⟩
      intro _ _ _ reached before _ stepEq
      exact locksTwice_transition (framed_of_reachable reached) (scopedTransition_of_step stepEq)
        before.1 before.2
    exact stuck.2

/-- One worker runs one task to the end of its loop body. -/
def oneIteration : List ScopedAction :=
  [.other (.shutLoad .task), .other (.insert ⟨0, .task⟩ none), .lockMain 1,
    .runSection 1 (.enterLoop 1), .start 1, .finish 1 .normal, .lockMain 1,
    .runSection 1 (.afterTask 1)]

/-- The destructor of the task calls `submit`: the worker locks twice, and
still does so after another thread has tried what needs no lock. -/
theorem user_code_off_lock_calling_destructor :
    ∃ s s', (scopedMachine 1#64 1#64).Reachable s ∧ s.Destroys 1 ⟨0, .task⟩ ∧ s.LocksTwice 1 ∧
      (scopedMachine 1#64 1#64).LaterUnder Machine.anyStep s s' ∧ s'.LocksTwice 1 := by
  have run : (((scopedMachine 1#64 1#64).exec (scopedInitial 1#64 1#64)
        (oneIteration ++ [.callBack 1])).bind fun s =>
      ((scopedMachine 1#64 1#64).exec s [.other (.shutLoad .untrackable)]).map fun _ =>
        (decide (s.Destroys 1 ⟨0, .task⟩), (s.frame 1).calling)) = some (true, true) := by
    decide
  obtain ⟨s, runs, last⟩ := Option.bind_eq_some_iff.mp run
  obtain ⟨s', after, observed⟩ := Option.map_eq_some_iff.mp last
  simp only [Prod.mk.injEq, decide_eq_true_eq] at observed
  obtain ⟨destroys, calling⟩ := observed
  have reached := Machine.reachable_of_exec runs
  have later := Machine.laterUnder_of_exec after
  obtain ⟨_, _, _, _, _, twice, stuck⟩ := user_code_off_lock 1#64 1#64 reached
  have locks := (twice 1).mpr ⟨calling, _, destroys⟩
  exact ⟨s, s', reached, destroys, locks, later, stuck 1 s' locks later⟩

/-- At the end of the loop body the worker destroys its task while it owns the lock. -/
theorem user_code_off_lock_counterexample :
    ¬ ∀ (corePoolSize maxPoolSize : SizeT) (s : ScopedSystem),
      (scopedMachine corePoolSize maxPoolSize).Reachable s → s.OffLock := by
  intro claimed
  have run : ((scopedMachine 1#64 1#64).exec (scopedInitial 1#64 1#64) oneIteration).map
      (fun s => (decide (s.Destroys 1 ⟨0, .task⟩), s.mainLock)) = some (true, some 1) := by
    decide
  obtain ⟨s, runs, observed⟩ := Option.map_eq_some_iff.mp run
  simp only [Prod.mk.injEq, decide_eq_true_eq] at observed
  obtain ⟨destroys, owner⟩ := observed
  exact claimed 1#64 1#64 s (Machine.reachable_of_exec runs) 1 (.inr ⟨_, destroys⟩) owner

end Conc11.Executor
