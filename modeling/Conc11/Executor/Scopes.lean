/-
Module: Conc11.Executor.Scopes
Purpose: `Worker::run` of concurrency/executor.h with its automatic objects.  The machine of the executor is
  run by threads that lock `main_lock` explicitly, and at the end of a block the objects declared in it are
  destroyed in reverse order, which decides where a task dies and who owns `main_lock` then.
Trusted boundary: human-reviewed model
Main exports: Local, Frame, ScopedSystem, lockMain, afterSection, leave, ScopedAction, scopedStep,
  ScopedTransition, scopedTransition_of_step, scopedMachine, reachable_sys
-/
import Conc11.Executor.Model

namespace Conc11.Executor

open Library

/-- An automatic object of `run`: the `unique_lock` of the main loop or the
`lock_guard` of the exit section, which may own `main_lock`, or the
`unique_ptr<TaskBase> task`, which may be null. -/
inductive Local where
  | lock (owns : Bool)
  | task (ptr : Option TaskBase)
deriving DecidableEq, Repr

/-- A lock locks or unlocks `main_lock`; a task pointer stays as it is. -/
def Local.setOwns (owns : Bool) : Local → Local
  | .lock _ => .lock owns
  | .task ptr => .task ptr

/-- The automatic objects of a worker's thread, the last declared first;
whether the thread is leaving the block they are declared in; and whether user
code on this thread is inside a call of the executor that waits for `main_lock`. -/
structure Frame where
  locals : List Local
  leaving : Bool
  calling : Bool
deriving DecidableEq, Repr

/-- A thread outside of the two blocks of `run`. -/
def Frame.idle : Frame := { locals := [], leaving := false, calling := false }

/-- The executor, the worker thread that owns `main_lock` between two steps,
and the frames of the worker threads. -/
structure ScopedSystem where
  sys : System
  mainLock : Option WorkerId
  frame : WorkerId → Frame

/-- The next thing the thread does is to lock `main_lock`: by declaring its
lock, on the way back from `cv`, or with `lock.lock()` after the task. -/
def WorkerPc.atLock : WorkerPc → Bool
  | .loopTop | .waiting .notified | .waiting .awake | .returned _ | .exiting => true
  | _ => false

/-- The worker whose section of `run` a label stands for. -/
def Action.sectionOf : Action → Option WorkerId
  | .enterLoop w | .resume w _ | .afterTask w | .exit w => some w
  | _ => none

/-- The label is a section that a caller runs while holding `main_lock`. -/
def Action.callerSection : Action → Bool
  | .insert _ _ | .shutdown | .isTerminated _ | .awaitCheck _ | .awaitLock _ | .awaitResume _ =>
      true
  | _ => false

/-- The label is an event that needs no lock and that no code of `run` takes. -/
def Action.lockFree : Action → Bool
  | .shutLoad _ | .awaitUnblock _ | .unblock _ => true
  | _ => false

namespace ScopedSystem

/-- Worker `w` gets `main_lock`.  Outside of a block it declares a lock. -/
def lockMain (s : ScopedSystem) (w : WorkerId) : ScopedSystem :=
  let locals := (s.frame w).locals
  { s with
    mainLock := some w
    frame := Function.update s.frame w
      { s.frame w with
        locals := if locals = [] then [.lock true] else locals.map (.setOwns true) } }

/-- The frame of `w` after its section `a` of `run` has led to `sys`.  With a
task the section goes on to `lock.unlock()`, and a wait on `cv` unlocks too.
Otherwise the block is left: by the first `break`, before `task` is declared,
by the second `break` with a null `task`, or at its end. -/
def afterSection (s : ScopedSystem) (w : WorkerId) (a : Action) (sys : System) : ScopedSystem :=
  let locals := (s.frame w).locals
  match sys.pc w with
  | .fetched task =>
      { sys := sys
        mainLock := none
        frame := Function.update s.frame w
          { s.frame w with locals := .task (some task) :: locals.map (.setOwns false) } }
  | .waiting _ =>
      { sys := sys
        mainLock := none
        frame := Function.update s.frame w
          { s.frame w with locals := locals.map (.setOwns false) } }
  | .exiting =>
      { s with
        sys := sys
        frame := Function.update s.frame w
          { s.frame w with
            locals := if a = .enterLoop w then locals else .task none :: locals
            leaving := true } }
  | _ =>
      { s with
        sys := sys
        frame := Function.update s.frame w { s.frame w with leaving := true } }

/-- The destruction of the object on top of the frame, at the end of a block.
A `unique_ptr` destroys its task, a lock that owns `main_lock` unlocks it. -/
def leave (s : ScopedSystem) (w : WorkerId) : ScopedSystem :=
  match (s.frame w).locals with
  | [] => s
  | top :: rest =>
      { s with
        mainLock := if top = .lock true then none else s.mainLock
        frame := Function.update s.frame w
          { locals := rest, leaving := !rest.isEmpty, calling := false } }

/-- Worker `w` destroys `task`: it is leaving the block, and the pointer to the
task is the next object to go. -/
def Destroys (s : ScopedSystem) (w : WorkerId) (task : TaskBase) : Prop :=
  (s.frame w).leaving = true ∧ (s.frame w).locals.head? = some (.task (some task))

instance (s : ScopedSystem) (w : WorkerId) (task : TaskBase) : Decidable (s.Destroys w task) :=
  inferInstanceAs (Decidable (_ ∧ _))

/-- Worker `w` is in the body of its task or in the destructor of the task,
its callable or the bound arguments. -/
def InUserCode (s : ScopedSystem) (w : WorkerId) : Prop :=
  (∃ task, s.sys.pc w = .running task) ∨ ∃ task, s.Destroys w task

instance (s : ScopedSystem) (w : WorkerId) : Decidable (s.InUserCode w) :=
  decidable_of_iff
    ((match s.sys.pc w with
      | .running _ => true
      | _ => false) = true ∨
      (s.frame w).leaving = true ∧
        (match (s.frame w).locals with
          | .task (some _) :: _ => true
          | _ => false) = true) <| by
    unfold InUserCode Destroys
    apply or_congr
    · cases s.sys.pc w <;> simp
    · rw [exists_and_left]
      apply and_congr_right
      intro _
      rcases (s.frame w).locals with _ | ⟨_ | _ | _, _⟩ <;> simp

/-- User code runs only on threads that do not own `main_lock`. -/
def OffLock (s : ScopedSystem) : Prop := ∀ w, s.InUserCode w → s.mainLock ≠ some w

/-- User code on `w` is about to lock `main_lock`, which `w` owns already. -/
def LocksTwice (s : ScopedSystem) (w : WorkerId) : Prop :=
  (s.frame w).calling = true ∧ s.mainLock = some w

instance (s : ScopedSystem) (w : WorkerId) : Decidable (s.LocksTwice w) :=
  inferInstanceAs (Decidable (_ ∧ _))

/-- User code on `w` enters or leaves a call of the executor. -/
def setCalling (s : ScopedSystem) (w : WorkerId) (calling : Bool) : ScopedSystem :=
  { s with frame := Function.update s.frame w { s.frame w with calling := calling } }

end ScopedSystem

/-! ## The machine -/

/-- The labels. -/
inductive ScopedAction where
  | lockMain (w : WorkerId)
  /-- Worker `w`, which owns `main_lock`, runs one of its sections. -/
  | runSection (w : WorkerId) (a : Action)
  | start (w : WorkerId)
  | finish (w : WorkerId) (outcome : Outcome)
  /-- Worker `w` destroys the next object of the block it is leaving. -/
  | leave (w : WorkerId)
  /-- User code on `w` calls `submit`, `execute`, `shutdown` or `get_pool_size`. -/
  | callBack (w : WorkerId)
  /-- That call gets `main_lock`, runs its section and unlocks; `none` is
  `get_pool_size`, which only reads. -/
  | callSection (w : WorkerId) (a : Option Action)
  | threadReturn (w : WorkerId)
  /-- A section of another thread, or an event that needs no lock. -/
  | other (a : Action)
deriving DecidableEq, Repr

def scopedStep (s : ScopedSystem) : ScopedAction → Option ScopedSystem
  | .lockMain w =>
      if s.mainLock = none ∧ (s.frame w).leaving = false ∧ (s.sys.pc w).atLock = true then
        some (s.lockMain w)
      else none
  | .runSection w a =>
      if s.mainLock = some w ∧ (s.frame w).leaving = false ∧ a.sectionOf = some w then
        (step s.sys a).map (s.afterSection w a)
      else none
  | .start w => (step s.sys (.start w)).map fun sys => { s with sys := sys }
  | .finish w outcome =>
      if (s.frame w).calling = false then
        (step s.sys (.finish w outcome)).map fun sys => { s with sys := sys }
      else none
  | .leave w =>
      if (s.frame w).leaving = true ∧ (s.frame w).calling = false then some (s.leave w) else none
  | .callBack w =>
      if s.InUserCode w ∧ (s.frame w).calling = false then some (s.setCalling w true) else none
  | .callSection w none =>
      if s.mainLock = none ∧ (s.frame w).calling = true then some (s.setCalling w false) else none
  | .callSection w (some a) =>
      if s.mainLock = none ∧ (s.frame w).calling = true ∧ a.callerSection = true then
        (step s.sys a).map fun sys => { s.setCalling w false with sys := sys }
      else none
  | .threadReturn w =>
      if s.frame w = .idle then
        (step s.sys (.threadReturn w)).map fun sys => { s with sys := sys }
      else none
  | .other a =>
      if a.callerSection = true ∧ s.mainLock = none ∨ a.lockFree = true then
        (step s.sys a).map fun sys => { s with sys := sys }
      else none

/-! ## What a step can do -/

/-- The inversion of `scopedStep`. -/
inductive ScopedTransition (s : ScopedSystem) : ScopedAction → ScopedSystem → Prop where
  | lockMain (w : WorkerId) (free : s.mainLock = none) (inside : (s.frame w).leaving = false)
      (atLock : (s.sys.pc w).atLock = true) : ScopedTransition s (.lockMain w) (s.lockMain w)
  | runSection (w : WorkerId) (a : Action) (sys : System) (owner : s.mainLock = some w)
      (inside : (s.frame w).leaving = false) (ofWorker : a.sectionOf = some w)
      (moved : step s.sys a = some sys) :
      ScopedTransition s (.runSection w a) (s.afterSection w a sys)
  | start (w : WorkerId) (sys : System) (moved : step s.sys (.start w) = some sys) :
      ScopedTransition s (.start w) { s with sys := sys }
  | finish (w : WorkerId) (outcome : Outcome) (sys : System)
      (silent : (s.frame w).calling = false)
      (moved : step s.sys (.finish w outcome) = some sys) :
      ScopedTransition s (.finish w outcome) { s with sys := sys }
  | leave (w : WorkerId) (leaving : (s.frame w).leaving = true)
      (silent : (s.frame w).calling = false) : ScopedTransition s (.leave w) (s.leave w)
  | callBack (w : WorkerId) (user : s.InUserCode w) (silent : (s.frame w).calling = false) :
      ScopedTransition s (.callBack w) (s.setCalling w true)
  | getPoolSize (w : WorkerId) (free : s.mainLock = none)
      (calling : (s.frame w).calling = true) :
      ScopedTransition s (.callSection w none) (s.setCalling w false)
  | callSection (w : WorkerId) (a : Action) (sys : System) (free : s.mainLock = none)
      (calling : (s.frame w).calling = true) (ofCaller : a.callerSection = true)
      (moved : step s.sys a = some sys) :
      ScopedTransition s (.callSection w (some a)) { s.setCalling w false with sys := sys }
  | threadReturn (w : WorkerId) (sys : System) (idle : s.frame w = .idle)
      (moved : step s.sys (.threadReturn w) = some sys) :
      ScopedTransition s (.threadReturn w) { s with sys := sys }
  | other (a : Action) (sys : System)
      (allowed : a.callerSection = true ∧ s.mainLock = none ∨ a.lockFree = true)
      (moved : step s.sys a = some sys) : ScopedTransition s (.other a) { s with sys := sys }

theorem scopedTransition_of_step {s s' : ScopedSystem} {a : ScopedAction}
    (stepEq : scopedStep s a = some s') : ScopedTransition s a s' := by
  cases a with
  | lockMain w =>
      obtain ⟨⟨free, inside, atLock⟩, same⟩ := Option.ite_none_right_eq_some.mp stepEq
      cases same
      exact .lockMain w free inside atLock
  | runSection w a =>
      obtain ⟨⟨owner, inside, ofWorker⟩, ran⟩ := Option.ite_none_right_eq_some.mp stepEq
      obtain ⟨sys, moved, same⟩ := Option.map_eq_some_iff.mp ran
      cases same
      exact .runSection w a sys owner inside ofWorker moved
  | start w =>
      obtain ⟨sys, moved, same⟩ := Option.map_eq_some_iff.mp stepEq
      cases same
      exact .start w sys moved
  | finish w outcome =>
      obtain ⟨silent, ran⟩ := Option.ite_none_right_eq_some.mp stepEq
      obtain ⟨sys, moved, same⟩ := Option.map_eq_some_iff.mp ran
      cases same
      exact .finish w outcome sys silent moved
  | leave w =>
      obtain ⟨⟨leaving, silent⟩, same⟩ := Option.ite_none_right_eq_some.mp stepEq
      cases same
      exact .leave w leaving silent
  | callBack w =>
      obtain ⟨⟨user, silent⟩, same⟩ := Option.ite_none_right_eq_some.mp stepEq
      cases same
      exact .callBack w user silent
  | callSection w call =>
      cases call with
      | none =>
          obtain ⟨⟨free, calling⟩, same⟩ := Option.ite_none_right_eq_some.mp stepEq
          cases same
          exact .getPoolSize w free calling
      | some a =>
          obtain ⟨⟨free, calling, ofCaller⟩, ran⟩ := Option.ite_none_right_eq_some.mp stepEq
          obtain ⟨sys, moved, same⟩ := Option.map_eq_some_iff.mp ran
          cases same
          exact .callSection w a sys free calling ofCaller moved
  | threadReturn w =>
      obtain ⟨idle, ran⟩ := Option.ite_none_right_eq_some.mp stepEq
      obtain ⟨sys, moved, same⟩ := Option.map_eq_some_iff.mp ran
      cases same
      exact .threadReturn w sys idle moved
  | other a =>
      obtain ⟨allowed, ran⟩ := Option.ite_none_right_eq_some.mp stepEq
      obtain ⟨sys, moved, same⟩ := Option.map_eq_some_iff.mp ran
      cases same
      exact .other a sys allowed moved

/-- The executor after its constructor, with every thread outside of the blocks of `run`. -/
def scopedInitial (corePoolSize maxPoolSize : SizeT) : ScopedSystem :=
  { sys := initial corePoolSize maxPoolSize, mainLock := none, frame := fun _ => .idle }

/-- The executor with the automatic objects of its workers. -/
def scopedMachine (corePoolSize maxPoolSize : SizeT) : Machine ScopedSystem ScopedAction :=
  { initial := scopedInitial corePoolSize maxPoolSize, step := scopedStep }

/-! ## The executor underneath -/

@[simp] theorem ScopedSystem.leave_sys (s : ScopedSystem) (w : WorkerId) :
    (s.leave w).sys = s.sys := by
  unfold ScopedSystem.leave
  split <;> rfl

@[simp] theorem ScopedSystem.afterSection_sys (s : ScopedSystem) (w : WorkerId) (a : Action)
    (sys : System) : (s.afterSection w a sys).sys = sys := by
  unfold ScopedSystem.afterSection
  dsimp only
  split <;> rfl

section AfterSection

variable {s : ScopedSystem} {w : WorkerId} {a : Action} {sys : System}

/-- A section that ends with a task. -/
theorem ScopedSystem.afterSection_fetched {task : TaskBase} (pc : sys.pc w = .fetched task) :
    s.afterSection w a sys =
      { sys := sys
        mainLock := none
        frame := Function.update s.frame w
          { s.frame w with
            locals := .task (some task) :: (s.frame w).locals.map (.setOwns false) } } := by
  simp only [afterSection, pc]

/-- A section that ends asleep. -/
theorem ScopedSystem.afterSection_waiting {status : WaitStatus} (pc : sys.pc w = .waiting status) :
    s.afterSection w a sys =
      { sys := sys
        mainLock := none
        frame := Function.update s.frame w
          { s.frame w with locals := (s.frame w).locals.map (.setOwns false) } } := by
  simp only [afterSection, pc]

/-- A section that ends with a `break`. -/
theorem ScopedSystem.afterSection_exiting (pc : sys.pc w = .exiting) :
    s.afterSection w a sys =
      { s with
        sys := sys
        frame := Function.update s.frame w
          { s.frame w with
            locals := if a = .enterLoop w then (s.frame w).locals
              else .task none :: (s.frame w).locals
            leaving := true } } := by
  simp only [afterSection, pc]

/-- A section that ends at the end of its block. -/
theorem ScopedSystem.afterSection_done (pc : sys.pc w = .loopTop ∨ sys.pc w = .exited) :
    s.afterSection w a sys =
      { s with
        sys := sys
        frame := Function.update s.frame w { s.frame w with leaving := true } } := by
  rcases pc with pc | pc <;> simp only [afterSection, pc]

end AfterSection

/-- A step leaves the executor alone or is a step of it. -/
theorem sys_transition {s s' : ScopedSystem} {a : ScopedAction} (moved : ScopedTransition s a s') :
    s'.sys = s.sys ∨ ∃ b, step s.sys b = some s'.sys := by
  cases moved with
  | lockMain _ _ _ _ | callBack _ _ _ | getPoolSize _ _ _ => exact .inl rfl
  | leave w _ _ => exact .inl (s.leave_sys w)
  | runSection w b sys _ _ _ moved =>
      rw [s.afterSection_sys]
      exact .inr ⟨b, moved⟩
  | start w sys moved | finish w outcome sys _ moved | callSection w b sys _ _ _ moved
  | threadReturn w sys _ moved | other b sys _ moved => exact .inr ⟨_, moved⟩

/-- Forgetting the frames takes runs to runs: what holds of the executor in
every run holds here. -/
theorem reachable_sys {corePoolSize maxPoolSize : SizeT} {s : ScopedSystem}
    (reachable : (scopedMachine corePoolSize maxPoolSize).Reachable s) :
    (machine corePoolSize maxPoolSize).Reachable s.sys := by
  apply reachable.invariant
    (motive := fun s => (machine corePoolSize maxPoolSize).Reachable s.sys)
  · exact Machine.ReachableUnder.initial
  · intro s a s' _ before _ stepEq
    rcases sys_transition (scopedTransition_of_step stepEq) with same | ⟨b, moved⟩
    · rwa [same]
    · exact before.step (a := b) trivial moved

end Conc11.Executor
