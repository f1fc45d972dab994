/-
Module: Conc11.Executor.Construction
Purpose: The constructor of `ThreadPoolExecutor` against the workers that it has started already.  It adds them without
  `main_lock`; until it returns they only look at the empty queue and wait, so whenever it returns the executor
  is in a state of a run that begins after the constructor.
Trusted boundary: human-reviewed model of the constructor's loop
Main exports: Building, BuildAction, buildStep, building, Building.finished, Undisturbed, constructor_undisturbed
-/
import Conc11.Executor.CoreWorkers

namespace Conc11.Executor

open Library ThreadPoolExecutor

/-- The constructor in its loop: `added` is the loop's counter, and `created` a
worker whose thread has been started and that is not yet in `workers`. -/
structure Building where
  sys : System
  added : Nat
  created : Option WorkerId

/-- The labels: the two halves of `add_worker_locked(true)`, and the sections of
the workers' threads. -/
inductive BuildAction where
  | newWorker
  | emplaceBack
  | worker (a : Action)
deriving DecidableEq, Repr

/-- The label is a section of a worker's thread. -/
def Action.ofWorker : Action → Bool
  | .enterLoop _ | .unblock _ | .resume _ _ | .start _ | .finish _ _ | .afterTask _ | .exit _
  | .threadReturn _ => true
  | _ => false

/-- `new Worker(*this, true, workers.size(), id++)`, whose thread starts at once. -/
def Building.newWorker (b : Building) : Building :=
  { b with
    sys :=
      { b.sys with
        exec :=
          { b.sys.exec with
            heap := Function.update b.sys.exec.heap b.sys.exec.nextId
              { core := true, workerIndex := b.sys.exec.workers.length }
            nextId := b.sys.exec.nextId + 1 }
        pc := Function.update b.sys.pc b.sys.exec.nextId .loopTop }
    created := some b.sys.exec.nextId }

/-- `workers.emplace_back`, and the end of the loop's body. -/
def Building.emplaceBack (b : Building) (w : WorkerId) : Building :=
  { sys := { b.sys with exec := { b.sys.exec with workers := b.sys.exec.workers ++ [some w] } }
    added := b.added + 1
    created := none }

def buildStep (b : Building) : BuildAction → Option Building
  | .newWorker =>
      if b.created = none ∧ b.added < b.sys.exec.corePoolSize.toNat then some b.newWorker else none
  | .emplaceBack =>
      match b.created with
      | some w => some (b.emplaceBack w)
      | none => none
  | .worker a =>
      if a.ofWorker then (step b.sys a).map fun sys => { b with sys := sys } else none

/-- The members are initialised, and the loop is about to begin. -/
def begun (corePoolSize maxPoolSize : SizeT) : Building :=
  { sys :=
      { initial corePoolSize maxPoolSize with
        exec := .blank corePoolSize maxPoolSize
        pc := fun _ => .unborn }
    added := 0
    created := none }

def building (corePoolSize maxPoolSize : SizeT) : Machine Building BuildAction :=
  { initial := begun corePoolSize maxPoolSize, step := buildStep }

/-- The state with the rest of the loop done and none of the workers that it adds
having run. -/
def Building.finished (corePoolSize maxPoolSize : SizeT) (b : Building) : System :=
  { b.sys with
    exec := .construct corePoolSize maxPoolSize
    pc := fun w =>
      if b.sys.pc w = .unborn then (initial corePoolSize maxPoolSize).pc w else b.sys.pc w }

/-! ## What is left of the loop -/

namespace Building

variable {corePoolSize maxPoolSize : SizeT} {b : Building} {w : WorkerId}

theorem newWorker_pc_self : b.newWorker.sys.pc b.sys.exec.nextId = .loopTop :=
  Function.update_self ..

theorem newWorker_pc_of_ne (other : w ≠ b.sys.exec.nextId) : b.newWorker.sys.pc w = b.sys.pc w :=
  Function.update_of_ne other ..

theorem finished_begun :
    (begun corePoolSize maxPoolSize).finished corePoolSize maxPoolSize =
      initial corePoolSize maxPoolSize := by
  have pcs : ((begun corePoolSize maxPoolSize).finished corePoolSize maxPoolSize).pc =
      (initial corePoolSize maxPoolSize).pc := by
    funext w
    change (if WorkerPc.unborn = .unborn then (initial corePoolSize maxPoolSize).pc w
      else .unborn) = _
    exact if_pos rfl
  exact congrArg (fun pc => { initial corePoolSize maxPoolSize with pc := pc }) pcs

/-- The new thread stands where it would start if the loop had been finished first. -/
theorem finished_newWorker (unborn : b.sys.pc b.sys.exec.nextId = .unborn)
    (hired : (initial corePoolSize maxPoolSize).pc b.sys.exec.nextId = .loopTop) :
    b.newWorker.finished corePoolSize maxPoolSize = b.finished corePoolSize maxPoolSize := by
  have pcs : (b.newWorker.finished corePoolSize maxPoolSize).pc =
      (b.finished corePoolSize maxPoolSize).pc := by
    funext w
    change (if b.newWorker.sys.pc w = .unborn then _ else b.newWorker.sys.pc w) =
      if b.sys.pc w = .unborn then _ else b.sys.pc w
    by_cases same : w = b.sys.exec.nextId
    · rw [same, newWorker_pc_self, if_neg WorkerPc.noConfusion, if_pos unborn, hired]
    · rw [newWorker_pc_of_ne same]
  exact congrArg (fun pc => { b.finished corePoolSize maxPoolSize with pc := pc }) pcs

/-- A started thread may move before or after the rest of the loop. -/
theorem finished_goto {pc : WorkerPc} (born : pc ≠ .unborn) :
    { b with sys := b.sys.goto w pc }.finished corePoolSize maxPoolSize =
      (b.finished corePoolSize maxPoolSize).goto w pc := by
  have pcs : ({ b with sys := b.sys.goto w pc }.finished corePoolSize maxPoolSize).pc =
      ((b.finished corePoolSize maxPoolSize).goto w pc).pc := by
    funext v
    change (if Function.update b.sys.pc w pc v = .unborn then _
        else Function.update b.sys.pc w pc v) =
      Function.update (b.finished corePoolSize maxPoolSize).pc w pc v
    by_cases same : v = w
    · rw [same, Function.update_self, Function.update_self, if_neg born]
    · rw [Function.update_of_ne same, Function.update_of_ne same]
      rfl
  exact congrArg (fun pc => { b.finished corePoolSize maxPoolSize with pc := pc }) pcs

/-- Nothing is left when all workers have been started and are in the table. -/
theorem finished_eq (exec : b.sys.exec = construct corePoolSize maxPoolSize)
    (born : ∀ w, some w ∈ b.sys.exec.workers → b.sys.pc w ≠ .unborn) :
    b.finished corePoolSize maxPoolSize = b.sys := by
  have pcs : (b.finished corePoolSize maxPoolSize).pc = b.sys.pc := by
    funext w
    by_cases unborn : b.sys.pc w = .unborn
    · have absent : some w ∉ (construct corePoolSize maxPoolSize).workers := by
        rw [← exec]
        exact fun member => born w member unborn
      exact (if_pos unborn).trans ((if_neg absent).trans unborn.symm)
    · exact if_neg unborn
  have fields : b.finished corePoolSize maxPoolSize =
      { b.sys with
        exec := construct corePoolSize maxPoolSize
        pc := (b.finished corePoolSize maxPoolSize).pc } := rfl
  rw [fields, pcs, ← exec]

end Building

/-! ## A worker without a task -/

section Quiet

variable {s s' : System} {a : Action} {w : WorkerId}

theorem fetchTaskLocked_quiet (queue : s.exec.taskQueue = []) (shut : s.exec.shut = false) :
    s.fetchTaskLocked w false = s.goto w (.waiting .blocked) := by
  unfold System.fetchTaskLocked
  rw [queue, shut]
  rfl

theorem enterLoop_quiet (queue : s.exec.taskQueue = []) (shut : s.exec.shut = false) :
    s.enterLoop w = s.goto w (.waiting .blocked) := by
  unfold System.enterLoop
  rw [shut, Bool.false_and, if_neg Bool.false_ne_true, fetchTaskLocked_quiet queue shut]

/-- A core worker goes to wait or wakes up for nothing; and it does the same
wherever it stands like this and there is no task either. -/
theorem step_quiet (queue : s.exec.taskQueue = []) (shut : s.exec.shut = false)
    (threads : ∀ w, s.pc w = .unborn ∨ s.pc w = .loopTop ∨ ∃ status, s.pc w = .waiting status)
    (core : ∀ w, s.pc w ≠ .unborn → (s.exec.heap w).core = true) (ofWorker : a.ofWorker = true)
    (stepEq : step s a = some s') :
    ∃ w status, s.pc w ≠ .unborn ∧ s' = s.goto w (.waiting status) ∧
      ∀ t : System, t.exec.taskQueue = [] → t.exec.shut = false → t.pc w = s.pc w →
        step t a = some (t.goto w (.waiting status)) := by
  cases a
  case enterLoop w =>
    obtain ⟨position, same⟩ := Option.ite_none_right_eq_some.mp stepEq
    cases same
    refine ⟨w, .blocked, by rw [position]; exact WorkerPc.noConfusion, enterLoop_quiet queue shut,
      fun t queue' shut' here => ?_⟩
    rw [step, here, if_pos position, enterLoop_quiet queue' shut']
  case unblock w =>
    obtain ⟨position, same⟩ := Option.ite_none_right_eq_some.mp stepEq
    cases same
    refine ⟨w, .awake, by rw [position]; exact WorkerPc.noConfusion, rfl, fun t _ _ here => ?_⟩
    rw [step, here, if_pos position]
  case resume w timedOut =>
    obtain ⟨⟨position, deadline⟩, same⟩ := Option.ite_none_right_eq_some.mp stepEq
    cases same
    have born : s.pc w ≠ .unborn := by
      rcases position with notified | awake
      · rw [notified]
        exact WorkerPc.noConfusion
      · rw [awake]
        exact WorkerPc.noConfusion
    cases timedOut with
    | true =>
        rw [core w born] at deadline
        cases deadline rfl
    | false =>
        refine ⟨w, .blocked, born, fetchTaskLocked_quiet queue shut, fun t queue' shut' here => ?_⟩
        rw [step, here, if_pos ⟨position, fun wrong => Bool.noConfusion wrong⟩,
          fetchTaskLocked_quiet queue' shut']
  case start w | finish w outcome | afterTask w | exit w | threadReturn w =>
    rcases threads w with unborn | top | ⟨status, waits⟩ <;> simp_all [step]
  all_goals cases ofWorker

end Quiet

/-- What the loop has done so far, and what the workers have not done. -/
structure Undisturbed (corePoolSize maxPoolSize : SizeT) (b : Building) : Prop where
  within : b.added ≤ corePoolSize.toNat
  between : b.created = none →
    b.sys.exec = addCoreWorkers (blank corePoolSize maxPoolSize) b.added
  inBody : ∀ w, b.created = some w → b.added < corePoolSize.toNat ∧
    { b.sys.exec with workers := b.sys.exec.workers ++ [some w] } =
      addCoreWorkers (blank corePoolSize maxPoolSize) (b.added + 1)
  threads : ∀ w, b.sys.pc w = .unborn ∨ b.sys.pc w = .loopTop ∨
    ∃ status, b.sys.pc w = .waiting status
  started : ∀ w, b.sys.pc w ≠ .unborn → w < b.sys.exec.nextId ∧ (b.sys.exec.heap w).core = true
  born : ∀ w : Nat, 1 ≤ w → w < b.sys.exec.nextId → b.sys.pc w ≠ .unborn
  reached : (machine corePoolSize maxPoolSize).Reachable (b.finished corePoolSize maxPoolSize)

namespace Undisturbed

open Building

variable {corePoolSize maxPoolSize : SizeT} {b b' : Building}

/-- No task has been inserted and nobody has shut the executor down. -/
theorem quiet (undisturbed : Undisturbed corePoolSize maxPoolSize b) :
    b.sys.exec.taskQueue = [] ∧ b.sys.exec.shut = false ∧
      b.sys.exec.corePoolSize = corePoolSize := by
  cases created : b.created with
  | none =>
      rw [undisturbed.between created]
      obtain ⟨core, _, queue, shut⟩ := blank_addCoreWorkers corePoolSize maxPoolSize b.added
      exact ⟨queue, shut, core⟩
  | some w =>
      obtain ⟨_, exec⟩ := undisturbed.inBody w created
      obtain ⟨core, _, queue, shut⟩ := blank_addCoreWorkers corePoolSize maxPoolSize (b.added + 1)
      rw [← exec] at core queue shut
      exact ⟨queue, shut, core⟩

theorem newWorker (undisturbed : Undisturbed corePoolSize maxPoolSize b)
    (created : b.created = none) (more : b.added < corePoolSize.toNat) :
    Undisturbed corePoolSize maxPoolSize b.newWorker := by
  have exec := undisturbed.between created
  obtain ⟨nextId, _⟩ := addCoreWorkers_spec corePoolSize maxPoolSize b.added
  obtain ⟨_, all, _⟩ := addCoreWorkers_spec corePoolSize maxPoolSize corePoolSize.toNat
  rw [← exec] at nextId
  have unborn : b.sys.pc b.sys.exec.nextId = .unborn := by
    by_contra born
    exact Nat.lt_irrefl _ (undisturbed.started _ born).1
  refine ⟨Nat.le_of_lt more, nofun, fun w isNew => ?_, fun w => ?_, fun w born => ?_,
    fun w positive below => ?_, ?_⟩
  · cases isNew
    refine ⟨more, ?_⟩
    change _ = (addCoreWorkers (blank corePoolSize maxPoolSize) b.added).addWorkerLocked true
    rw [← exec]
    rfl
  · by_cases same : w = b.sys.exec.nextId
    · rw [same]
      exact .inr (.inl newWorker_pc_self)
    · rw [newWorker_pc_of_ne same]
      exact undisturbed.threads w
  · by_cases same : w = b.sys.exec.nextId
    · rw [same]
      refine ⟨Nat.lt_succ_self _, ?_⟩
      change (Function.update b.sys.exec.heap b.sys.exec.nextId _ b.sys.exec.nextId).core = true
      rw [Function.update_self]
    · have kept : b.newWorker.sys.exec.heap w = b.sys.exec.heap w := Function.update_of_ne same ..
      rw [newWorker_pc_of_ne same] at born
      rw [kept]
      obtain ⟨below, isCore⟩ := undisturbed.started w born
      exact ⟨Nat.lt_succ_of_lt below, isCore⟩
  · by_cases same : w = b.sys.exec.nextId
    · rw [same, newWorker_pc_self]
      exact WorkerPc.noConfusion
    · rw [newWorker_pc_of_ne same]
      exact undisturbed.born w positive (Nat.lt_of_le_of_ne (Nat.le_of_lt_succ below) same)
  · have hired : (initial corePoolSize maxPoolSize).pc b.sys.exec.nextId = .loopTop :=
      if_pos ((all _).mpr (by omega))
    rw [finished_newWorker unborn hired]
    exact undisturbed.reached

theorem emplaceBack (undisturbed : Undisturbed corePoolSize maxPoolSize b) {w : WorkerId}
    (created : b.created = some w) : Undisturbed corePoolSize maxPoolSize (b.emplaceBack w) := by
  obtain ⟨more, exec⟩ := undisturbed.inBody w created
  exact ⟨more, fun _ => exec, nofun, undisturbed.threads, undisturbed.started, undisturbed.born,
    undisturbed.reached⟩

theorem start : Undisturbed corePoolSize maxPoolSize (begun corePoolSize maxPoolSize) := by
  refine ⟨Nat.zero_le _, fun _ => rfl, fun w created => ?_, fun w => .inl rfl,
    fun w born => absurd rfl born, fun w positive below => ?_, ?_⟩
  · cases created
  · exact absurd below (Nat.not_lt.mpr positive)
  · rw [finished_begun]
    exact Machine.ReachableUnder.initial

theorem workerStep (undisturbed : Undisturbed corePoolSize maxPoolSize b) {a : Action} {s : System}
    (ofWorker : a.ofWorker = true) (stepEq : step b.sys a = some s) :
    s.exec = b.sys.exec ∧ Undisturbed corePoolSize maxPoolSize { b with sys := s } := by
  obtain ⟨queue, shut, _⟩ := undisturbed.quiet
  obtain ⟨w, status, born, rfl, anywhere⟩ := step_quiet queue shut undisturbed.threads
    (fun w born => (undisturbed.started w born).2) ofWorker stepEq
  have waits : (b.sys.goto w (.waiting status)).pc w = .waiting status := Function.update_self ..
  have unmoved : ∀ v, v ≠ w → (b.sys.goto w (.waiting status)).pc v = b.sys.pc v :=
    fun v other => Function.update_of_ne other ..
  have unbornIff : ∀ v, (b.sys.goto w (.waiting status)).pc v = .unborn ↔ b.sys.pc v = .unborn := by
    intro v
    by_cases same : v = w
    · rw [same, waits]
      exact iff_of_false WorkerPc.noConfusion born
    · rw [unmoved v same]
  refine ⟨rfl, undisturbed.within, undisturbed.between, undisturbed.inBody, fun v => ?_,
    fun v bornNow => undisturbed.started v ((unbornIff v).not.mp bornNow),
    fun v positive below => (unbornIff v).not.mpr (undisturbed.born v positive below), ?_⟩
  · change (b.sys.goto w (.waiting status)).pc v = .unborn ∨ (b.sys.goto w (.waiting status)).pc v =
      .loopTop ∨ ∃ status', (b.sys.goto w (.waiting status)).pc v = .waiting status'
    by_cases same : v = w
    · rw [same]
      exact .inr (.inr ⟨status, waits⟩)
    · rw [unmoved v same]
      exact undisturbed.threads v
  · obtain ⟨_, _, noTask, notShut⟩ :=
      blank_addCoreWorkers corePoolSize maxPoolSize corePoolSize.toNat
    have here : (b.finished corePoolSize maxPoolSize).pc w = b.sys.pc w := if_neg born
    have stepped := anywhere (b.finished corePoolSize maxPoolSize) noTask notShut here
    rw [finished_goto WorkerPc.noConfusion]
    exact undisturbed.reached.step trivial stepped

theorem step {a : BuildAction} (undisturbed : Undisturbed corePoolSize maxPoolSize b)
    (stepEq : buildStep b a = some b') : Undisturbed corePoolSize maxPoolSize b' := by
  cases a with
  | newWorker =>
      obtain ⟨⟨created, more⟩, same⟩ := Option.ite_none_right_eq_some.mp stepEq
      cases same
      rw [undisturbed.quiet.2.2] at more
      exact undisturbed.newWorker created more
  | emplaceBack =>
      simp only [buildStep] at stepEq
      split at stepEq
      next w created =>
        cases stepEq
        exact undisturbed.emplaceBack created
      next => cases stepEq
  | worker a =>
      obtain ⟨ofWorker, ran⟩ := Option.ite_none_right_eq_some.mp stepEq
      obtain ⟨s, stepped, same⟩ := Option.map_eq_some_iff.mp ran
      cases same
      exact (undisturbed.workerStep ofWorker stepped).2

end Undisturbed

theorem undisturbed_of_reachable {corePoolSize maxPoolSize : SizeT} {b : Building}
    (reachable : (building corePoolSize maxPoolSize).Reachable b) :
    Undisturbed corePoolSize maxPoolSize b :=
  reachable.invariant (motive := Undisturbed corePoolSize maxPoolSize) .start
    fun _ _ _ _ undisturbed _ stepEq => undisturbed.step stepEq

/-- While the constructor adds the core workers without a lock, no step of a
worker that has been started changes the executor, and none gets further than
to its wait; and in whatever state the loop ends, this state is one of a run
that begins with the whole table of workers. -/
theorem constructor_undisturbed (corePoolSize maxPoolSize : SizeT) {b : Building}
    (reachable : (building corePoolSize maxPoolSize).Reachable b) :
    (∀ a s, a.ofWorker = true → step b.sys a = some s → s.exec = b.sys.exec) ∧
    (∀ w, b.sys.pc w = .unborn ∨ b.sys.pc w = .loopTop ∨ ∃ status, b.sys.pc w = .waiting status) ∧
    (b.created = none → b.added = corePoolSize.toNat →
      (machine corePoolSize maxPoolSize).Reachable b.sys) := by
  have undisturbed := undisturbed_of_reachable reachable
  refine ⟨fun a s ofWorker stepEq => (undisturbed.workerStep ofWorker stepEq).1,
    undisturbed.threads, fun created all => ?_⟩
  have exec := undisturbed.between created
  rw [all] at exec
  obtain ⟨nextId, members, _⟩ := addCoreWorkers_spec corePoolSize maxPoolSize corePoolSize.toNat
  have same : b.finished corePoolSize maxPoolSize = b.sys := by
    refine Building.finished_eq exec fun w member => ?_
    rw [exec] at member
    obtain ⟨positive, below⟩ := (members w).mp member
    rw [← nextId, ← exec] at below
    exact undisturbed.born w positive below
  rw [← same]
  exact undisturbed.reached

/-- The first of two workers waits before the second one is in the table. -/
theorem constructor_undisturbed_early_worker :
    ∃ b : Building, (building 2#64 2#64).Reachable b ∧ b.sys.pc 1 = .waiting .blocked ∧
      b.sys.pc 2 = .loopTop ∧ b.sys.exec.workers = [some 1, some 2] ∧
      (machine 2#64 2#64).Reachable b.sys := by
  have run : ((building 2#64 2#64).execUnder (fun _ _ => True) (begun 2#64 2#64)
        [.newWorker, .worker (.enterLoop 1), .emplaceBack, .newWorker, .emplaceBack]).map
          (fun b => ([b.sys.pc 1, b.sys.pc 2], b.sys.exec.workers, b.added, b.created)) =
      some ([.waiting .blocked, .loopTop], [some 1, some 2], 2, none) := by
    decide +kernel
  obtain ⟨b, runs, observed⟩ := Option.map_eq_some_iff.mp run
  simp only [Prod.mk.injEq, List.cons.injEq, and_true] at observed
  obtain ⟨⟨first, second⟩, workers, added, created⟩ := observed
  have reached := Machine.reachableUnder_of_execUnder runs
  exact ⟨b, reached, first, second, workers,
    (constructor_undisturbed 2#64 2#64 reached).2.2 created added⟩

end Conc11.Executor
