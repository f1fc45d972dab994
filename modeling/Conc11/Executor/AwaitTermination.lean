/-
Module: Conc11.Executor.AwaitTermination
Purpose: The three forms of waiting for termination, with `main_lock` explicit: which of their steps lock it,
  which evaluate the condition while holding it, and what they return.
Trusted boundary: human-reviewed model of the calls; the executor takes the steps of the machine.  Callers enter
  without `main_lock`: a task whose destructor runs under it is the case of Executor.UserCode
Main exports: Form, CallerPc, AwaitSystem, awaitStep, awaitMachine, LocksTwice, lockHeld_of_reachable,
  sys_reachable, DecidesByDoubleCheck, ReturnsRight, not_locksTwice_step, await_well_behaved
-/
import Conc11.Executor.Termination

namespace Conc11.Executor

open Library

/-! ## The calls -/

/-- `await_termination_for` computes a deadline and calls
`await_termination_until`, so it takes the same steps. -/
inductive Form where
  | awaitTermination
  | awaitTerminationFor
  | awaitTerminationUntil
deriving DecidableEq, Repr

/-- The forms with a deadline. -/
def Form.timed : Form → Bool
  | .awaitTermination => false
  | .awaitTerminationFor | .awaitTerminationUntil => true

/-- Where a call stands.  `firstCheck` is the call of `is_terminated`, which
locks `main_lock` for itself; at `doubleCheck` and `predicate` the call holds
the lock and is about to evaluate its condition; at `relocking` it has called
`is_terminated` while holding the lock; `waiting` is within `wait_cv`, with the
status that the executor keeps. -/
inductive CallerPc where
  | outside
  | firstCheck (form : Form)
  | beforeLock (form : Form)
  | doubleCheck (form : Form)
  | predicate (form : Form)
  | relocking (form : Form)
  | waiting (form : Form)
  | returned (form : Form) (result : Bool)
deriving DecidableEq, Repr

namespace CallerPc

/-- The call holds `main_lock`. -/
def holdsLock : CallerPc → Bool
  | .doubleCheck _ | .predicate _ | .relocking _ => true
  | _ => false

/-- The next step of the call locks `main_lock`.  The predicate of the untimed
form calls `is_terminated_locked`, the one of the timed forms `is_terminated`. -/
def locksNext : CallerPc → Bool
  | .firstCheck _ | .beforeLock _ | .waiting _ | .relocking _ => true
  | .predicate form => form.timed
  | _ => false

end CallerPc

/-- The executor with its other threads, the calls, and the call that holds
`main_lock` between steps.  The other threads hold it within a step only. -/
structure AwaitSystem where
  sys : System
  pc : Nat → CallerPc
  mainLock : Option Nat

namespace AwaitSystem

def goto (s : AwaitSystem) (c : Nat) (pc : CallerPc) : AwaitSystem :=
  { s with pc := Function.update s.pc c pc }

/-- The call locks `main_lock`. -/
def lockAt (s : AwaitSystem) (c : Nat) (pc : CallerPc) : AwaitSystem :=
  { s.goto c pc with mainLock := some c }

/-- The call unlocks `main_lock`. -/
def unlockAt (s : AwaitSystem) (c : Nat) (pc : CallerPc) : AwaitSystem :=
  { s.goto c pc with mainLock := none }

def setStatus (s : AwaitSystem) (c : Nat) (status : AwaitPc) : AwaitSystem :=
  { s with sys := { s.sys with awaiting := Function.update s.sys.awaiting c status } }

/-- `is_terminated` before the lock is taken. -/
def firstCheck (s : AwaitSystem) (c : Nat) (form : Form) : AwaitSystem :=
  if s.sys.terminated then s.goto c (.returned form true) else s.goto c (.beforeLock form)

/-- `is_terminated_locked` after the lock has been taken. -/
def doubleCheck (s : AwaitSystem) (c : Nat) (form : Form) : AwaitSystem :=
  if s.sys.terminated then s.unlockAt c (.returned form true) else s.goto c (.predicate form)

/-- One evaluation of the wait predicate.  In the timed forms it begins by
locking `main_lock`. -/
def predicate (s : AwaitSystem) (c : Nat) (form : Form) : AwaitSystem :=
  if form.timed then s.goto c (.relocking form)
  else if s.sys.terminated then
    (if s.sys.awaiting c = .outside then s else s.setStatus c .returned).unlockAt c
      (.returned form true)
  else (s.setStatus c (.waiting .blocked)).unlockAt c (.waiting form)

end AwaitSystem

/-- The labels: steps of the calls, and of the other threads.  A call at
`relocking` has no further step. -/
inductive AwaitAction where
  | call (c : Nat) (form : Form)
  | firstCheck (c : Nat)
  | lock (c : Nat)
  | doubleCheck (c : Nat)
  | predicate (c : Nat)
  | unblock (c : Nat)
  | relock (c : Nat)
  | system (a : Action)
deriving DecidableEq, Repr

/-- A step of the workers, of `submit`, `execute` or `shutdown`. -/
def Action.isOther : Action → Bool
  | .isTerminated _ | .awaitCheck _ | .awaitLock _ | .awaitUnblock _ | .awaitResume _ => false
  | _ => true

/-- The section of the step holds `main_lock`. -/
def Action.locksMain : Action → Bool
  | .shutLoad _ | .start _ | .finish _ _ | .threadReturn _ | .unblock _ => false
  | _ => true

def awaitStep (s : AwaitSystem) : AwaitAction → Option AwaitSystem
  | .call c form => if s.pc c = .outside then some (s.goto c (.firstCheck form)) else none
  | .firstCheck c =>
      match s.pc c with
      | .firstCheck form => if s.mainLock = none then some (s.firstCheck c form) else none
      | _ => none
  | .lock c =>
      match s.pc c with
      | .beforeLock form =>
          if s.mainLock = none then some (s.lockAt c (.doubleCheck form)) else none
      | _ => none
  | .doubleCheck c =>
      match s.pc c with
      | .doubleCheck form => some (s.doubleCheck c form)
      | _ => none
  | .predicate c =>
      match s.pc c with
      | .predicate form => some (s.predicate c form)
      | _ => none
  | .unblock c =>
      if s.sys.awaiting c = .waiting .blocked then some (s.setStatus c (.waiting .awake)) else none
  | .relock c =>
      match s.pc c with
      | .waiting form =>
          if s.mainLock = none ∧
              (s.sys.awaiting c = .waiting .notified ∨ s.sys.awaiting c = .waiting .awake) then
            some (s.lockAt c (.predicate form))
          else none
      | _ => none
  | .system a =>
      if a.isOther = true ∧ (a.locksMain = true → s.mainLock = none) then
        (step s.sys a).map fun sys => { s with sys := sys }
      else none

/-- The executor of the given sizes and calls that have not begun. -/
def awaitMachine (corePoolSize maxPoolSize : SizeT) : Machine AwaitSystem AwaitAction :=
  { initial :=
      { sys := initial corePoolSize maxPoolSize, pc := fun _ => .outside, mainLock := none }
    step := awaitStep }

/-- Call `c` is about to lock the non-recursive `main_lock` that it holds. -/
def LocksTwice (s : AwaitSystem) (c : Nat) : Prop :=
  s.mainLock = some c ∧ (s.pc c).locksNext = true

/-! ## What a step can do -/

/-- The inversion of `awaitStep`. -/
inductive AwaitTransition (s : AwaitSystem) : AwaitAction → AwaitSystem → Prop where
  | call (c : Nat) (form : Form) (outside : s.pc c = .outside) :
      AwaitTransition s (.call c form) (s.goto c (.firstCheck form))
  | firstCheck (c : Nat) (form : Form) (position : s.pc c = .firstCheck form)
      (free : s.mainLock = none) : AwaitTransition s (.firstCheck c) (s.firstCheck c form)
  | lock (c : Nat) (form : Form) (position : s.pc c = .beforeLock form)
      (free : s.mainLock = none) : AwaitTransition s (.lock c) (s.lockAt c (.doubleCheck form))
  | doubleCheck (c : Nat) (form : Form) (position : s.pc c = .doubleCheck form) :
      AwaitTransition s (.doubleCheck c) (s.doubleCheck c form)
  | predicate (c : Nat) (form : Form) (position : s.pc c = .predicate form) :
      AwaitTransition s (.predicate c) (s.predicate c form)
  | unblock (c : Nat) (blocked : s.sys.awaiting c = .waiting .blocked) :
      AwaitTransition s (.unblock c) (s.setStatus c (.waiting .awake))
  | relock (c : Nat) (form : Form) (position : s.pc c = .waiting form) (free : s.mainLock = none)
      (woken : s.sys.awaiting c = .waiting .notified ∨ s.sys.awaiting c = .waiting .awake) :
      AwaitTransition s (.relock c) (s.lockAt c (.predicate form))
  | system (a : Action) (sys : System) (isOther : a.isOther = true)
      (free : a.locksMain = true → s.mainLock = none) (stepEq : step s.sys a = some sys) :
      AwaitTransition s (.system a) { s with sys := sys }

variable {s s' : AwaitSystem} {a : AwaitAction} {c : Nat} {form : Form}

theorem awaitTransition_of_step (stepEq : awaitStep s a = some s') : AwaitTransition s a s' := by
  cases a
  case call c form =>
    obtain ⟨outside, same⟩ := Option.ite_none_right_eq_some.mp stepEq
    cases same
    exact .call c form outside
  case unblock c =>
    obtain ⟨blocked, same⟩ := Option.ite_none_right_eq_some.mp stepEq
    cases same
    exact .unblock c blocked
  case system a =>
    obtain ⟨⟨isOther, free⟩, moved⟩ := Option.ite_none_right_eq_some.mp stepEq
    obtain ⟨sys, sysStep, rfl⟩ := Option.map_eq_some_iff.mp moved
    exact .system a sys isOther free sysStep
  all_goals
    dsimp only [awaitStep] at stepEq
    split at stepEq
    next form position =>
      first
        | cases stepEq
        | obtain ⟨guard, same⟩ := Option.ite_none_right_eq_some.mp stepEq
          cases same
      first
        | exact .firstCheck _ form position guard
        | exact .lock _ form position guard
        | exact .doubleCheck _ form position
        | exact .predicate _ form position
        | exact .relock _ form position guard.1 guard.2
    next => cases stepEq

namespace AwaitSystem

variable {pc : CallerPc}

@[simp] theorem goto_pc_self : (s.goto c pc).pc c = pc := Function.update_self ..

@[simp] theorem lockAt_pc_self : (s.lockAt c pc).pc c = pc := Function.update_self ..

@[simp] theorem unlockAt_pc_self : (s.unlockAt c pc).pc c = pc := Function.update_self ..

theorem goto_pc_of_ne {d : Nat} (other : d ≠ c) : (s.goto c pc).pc d = s.pc d :=
  Function.update_of_ne other ..

theorem lockAt_pc_of_ne {d : Nat} (other : d ≠ c) : (s.lockAt c pc).pc d = s.pc d :=
  Function.update_of_ne other ..

theorem unlockAt_pc_of_ne {d : Nat} (other : d ≠ c) : (s.unlockAt c pc).pc d = s.pc d :=
  Function.update_of_ne other ..

end AwaitSystem

/-! ## Who holds the lock -/

/-- `mainLock` says which call holds the lock. -/
def LockHeld (s : AwaitSystem) : Prop :=
  ∀ c, s.mainLock = some c ↔ (s.pc c).holdsLock = true

namespace LockHeld

/-- A call moves and holds the lock as before. -/
theorem move (held : LockHeld s) {pc : CallerPc} (same : pc.holdsLock = (s.pc c).holdsLock) :
    LockHeld (s.goto c pc) := by
  intro d
  by_cases isC : d = c
  · subst isC
    rw [AwaitSystem.goto_pc_self, same]
    exact held d
  · rw [AwaitSystem.goto_pc_of_ne isC]
    exact held d

/-- A call locks the free lock. -/
theorem lockAt (held : LockHeld s) (free : s.mainLock = none) {pc : CallerPc}
    (holds : pc.holdsLock = true) : LockHeld (s.lockAt c pc) := by
  intro d
  by_cases isC : d = c
  · subst isC
    rw [AwaitSystem.lockAt_pc_self]
    exact iff_of_true rfl holds
  · have other := held d
    rw [free] at other
    rw [AwaitSystem.lockAt_pc_of_ne isC, ← other]
    simp [AwaitSystem.lockAt, Ne.symm isC]

/-- The call that holds the lock unlocks it. -/
theorem unlockAt (held : LockHeld s) (holds : (s.pc c).holdsLock = true) {pc : CallerPc}
    (gone : pc.holdsLock = false) : LockHeld (s.unlockAt c pc) := by
  intro d
  by_cases isC : d = c
  · subst isC
    rw [AwaitSystem.unlockAt_pc_self, gone]
    simp [AwaitSystem.unlockAt]
  · have other := held d
    rw [(held c).mpr holds] at other
    rw [AwaitSystem.unlockAt_pc_of_ne isC, ← other]
    simp [AwaitSystem.unlockAt, Ne.symm isC]

theorem transition (held : LockHeld s) (moved : AwaitTransition s a s') : LockHeld s' := by
  cases moved with
  | call c form outside => exact held.move (by rw [outside]; rfl)
  | firstCheck c form position free =>
      unfold AwaitSystem.firstCheck
      split <;> exact held.move (by rw [position]; rfl)
  | lock c form position free => exact held.lockAt free rfl
  | doubleCheck c form position =>
      unfold AwaitSystem.doubleCheck
      split
      · exact held.unlockAt (by rw [position]; rfl) rfl
      · exact held.move (by rw [position]; rfl)
  | predicate c form position =>
      have holds : (s.pc c).holdsLock = true := by rw [position]; rfl
      unfold AwaitSystem.predicate
      split
      next => exact held.move (by rw [position]; rfl)
      next =>
        split
        next =>
          split
          next => exact held.unlockAt holds rfl
          next =>
            have status : LockHeld (s.setStatus c .returned) := held
            exact status.unlockAt holds rfl
        next =>
          have status : LockHeld (s.setStatus c (.waiting .blocked)) := held
          exact status.unlockAt holds rfl
  | unblock c blocked => exact held
  | relock c form position free woken => exact held.lockAt free rfl
  | system a sys isOther free stepEq => exact held

theorem initial (corePoolSize maxPoolSize : SizeT) :
    LockHeld (awaitMachine corePoolSize maxPoolSize).initial :=
  fun _ => iff_of_false nofun nofun

end LockHeld

variable {corePoolSize maxPoolSize : SizeT}

theorem lockHeld_of_reachable (reachable : (awaitMachine corePoolSize maxPoolSize).Reachable s) :
    LockHeld s :=
  reachable.invariant (motive := LockHeld) (.initial _ _) fun _ _ _ _ held _ stepEq =>
    held.transition (awaitTransition_of_step stepEq)

/-- The positions from which a call locks twice. -/
def CallerPc.isStuck : CallerPc → Bool
  | .predicate form => form.timed
  | .relocking _ => true
  | _ => false

theorem LockHeld.locksTwice_iff (held : LockHeld s) : LocksTwice s c ↔ (s.pc c).isStuck = true := by
  unfold LocksTwice
  rw [held c]
  cases s.pc c <;> simp [CallerPc.holdsLock, CallerPc.locksNext, CallerPc.isStuck]

/-! ## How a call moves -/

/-- The moves of call `c`, from its position to the next.  Only the double
check leads to a first evaluation of the predicate. -/
inductive CallerMove (s : AwaitSystem) (a : AwaitAction) (c : Nat) : CallerPc → CallerPc → Prop where
  | call (form : Form) : CallerMove s a c .outside (.firstCheck form)
  | passed (form : Form) : CallerMove s a c (.firstCheck form) (.beforeLock form)
  | locked (form : Form) : CallerMove s a c (.beforeLock form) (.doubleCheck form)
  | failed (form : Form) (isCheck : a = .doubleCheck c) (running : s.sys.terminated = false) :
      CallerMove s a c (.doubleCheck form) (.predicate form)
  | told (form : Form) (pc : CallerPc) (terminated : s.sys.terminated = true) :
      CallerMove s a c pc (.returned form true)
  | relocking (form : Form) (timed : form.timed = true) :
      CallerMove s a c (.predicate form) (.relocking form)
  | slept (form : Form) (untimed : form.timed = false) :
      CallerMove s a c (.predicate form) (.waiting form)
  | relocked (form : Form) : CallerMove s a c (.waiting form) (.predicate form)

/-- The call that takes the step. -/
def AwaitAction.caller : AwaitAction → Option Nat
  | .call c _ | .firstCheck c | .lock c | .doubleCheck c | .predicate c | .relock c => some c
  | .unblock _ | .system _ => none

/-- A step moves no other call. -/
theorem AwaitTransition.pc_of_ne_caller (moved : AwaitTransition s a s')
    (other : a.caller ≠ some c) : s'.pc c = s.pc c := by
  have elsewhere : ∀ {d}, some d ≠ some c → c ≠ d := fun other same => other (same ▸ rfl)
  cases moved with
  | call d _ _ => exact AwaitSystem.goto_pc_of_ne (elsewhere other)
  | firstCheck d form _ _ =>
      unfold AwaitSystem.firstCheck
      split <;> exact AwaitSystem.goto_pc_of_ne (elsewhere other)
  | lock d _ _ _ | relock d _ _ _ _ => exact AwaitSystem.lockAt_pc_of_ne (elsewhere other)
  | doubleCheck d form _ =>
      unfold AwaitSystem.doubleCheck
      split
      · exact AwaitSystem.unlockAt_pc_of_ne (elsewhere other)
      · exact AwaitSystem.goto_pc_of_ne (elsewhere other)
  | predicate d form _ =>
      unfold AwaitSystem.predicate
      split
      · exact AwaitSystem.goto_pc_of_ne (elsewhere other)
      · split
        · rw [AwaitSystem.unlockAt_pc_of_ne (elsewhere other)]
          split <;> rfl
        · exact AwaitSystem.unlockAt_pc_of_ne (elsewhere other)
  | unblock _ _ | system _ _ _ _ _ => rfl

/-- The call that takes the step makes one of its moves. -/
theorem AwaitTransition.callerMove (moved : AwaitTransition s a s') (own : a.caller = some c) :
    CallerMove s a c (s.pc c) (s'.pc c) := by
  cases moved with
  | call d form outside =>
      cases own
      rw [AwaitSystem.goto_pc_self, outside]
      exact .call form
  | firstCheck d form position _ =>
      cases own
      unfold AwaitSystem.firstCheck
      split
      next terminated =>
        rw [AwaitSystem.goto_pc_self]
        exact .told form _ terminated
      next running =>
        rw [AwaitSystem.goto_pc_self, position]
        exact .passed form
  | lock d form position _ =>
      cases own
      rw [AwaitSystem.lockAt_pc_self, position]
      exact .locked form
  | doubleCheck d form position =>
      cases own
      unfold AwaitSystem.doubleCheck
      split
      next terminated =>
        rw [AwaitSystem.unlockAt_pc_self]
        exact .told form _ terminated
      next running =>
        rw [AwaitSystem.goto_pc_self, position]
        exact .failed form rfl (Bool.eq_false_of_not_eq_true running)
  | predicate d form position =>
      cases own
      unfold AwaitSystem.predicate
      split
      next timed =>
        rw [AwaitSystem.goto_pc_self, position]
        exact .relocking form timed
      next untimed =>
        split
        next terminated =>
          rw [AwaitSystem.unlockAt_pc_self]
          exact .told form _ terminated
        next running =>
          rw [AwaitSystem.unlockAt_pc_self, position]
          exact .slept form (Bool.eq_false_of_not_eq_true untimed)
  | relock d form position _ _ =>
      cases own
      rw [AwaitSystem.lockAt_pc_self, position]
      exact .relocked form
  | unblock _ _ | system _ _ _ _ _ => cases own

/-- A step moves one call at most. -/
theorem AwaitTransition.pc_cases (moved : AwaitTransition s a s') (c : Nat) :
    s'.pc c = s.pc c ∨ CallerMove s a c (s.pc c) (s'.pc c) := by
  by_cases own : a.caller = some c
  · exact .inr (moved.callerMove own)
  · exact .inl (moved.pc_of_ne_caller own)

/-! ## The executor underneath -/

/-- The status that the executor keeps for a call at this position. -/
def CallerPc.agrees : CallerPc → AwaitPc → Prop
  | .outside, status | .firstCheck _, status | .beforeLock _, status | .doubleCheck _, status =>
      status = .outside
  | .predicate _, status | .relocking _, status =>
      status = .outside ∨ status = .waiting .notified ∨ status = .waiting .awake
  | .waiting _, status => ∃ how, status = .waiting how
  | .returned _ _, _ => True

/-- The steps of the executor's other threads reach the calls only through a
broadcast on `wait_cv`. -/
theorem awaiting_other {b : Action} {sys sys' : System} (isOther : b.isOther = true)
    (moved : Transition sys b sys') (c : Nat) :
    sys'.awaiting c = sys.awaiting c ∨
      sys.awaiting c = .waiting .blocked ∧ sys'.awaiting c = .waiting .notified := by
  have broadcast : sys.notifyAllWaitCv.awaiting c = sys.awaiting c ∨
      sys.awaiting c = .waiting .blocked ∧
        sys.notifyAllWaitCv.awaiting c = .waiting .notified := by
    unfold System.notifyAllWaitCv
    dsimp only
    split
    next blocked => exact .inr ⟨blocked, rfl⟩
    next => exact .inl rfl
  cases moved with
  | shutLoad kind =>
      unfold System.shutLoad
      split <;> exact .inl rfl
  | shutdown =>
      unfold System.shutdown
      dsimp only
      split
      · exact broadcast
      · exact .inl rfl
  | exit w exiting =>
      unfold System.exitSection
      dsimp only
      split
      · exact broadcast
      · exact .inl rfl
  | awaitTest b d otherwise awaits =>
      cases b
      all_goals first
        | cases isOther
          done
        | exact awaits.elim
  | awaitUnblock d blocked => cases isOther
  | _ => exact .inl rfl

/-- The executor of a system with calls is one of the executor's own machine,
and it keeps the status of every call. -/
structure Underneath (corePoolSize maxPoolSize : SizeT) (s : AwaitSystem) : Prop where
  reachable : (machine corePoolSize maxPoolSize).Reachable s.sys
  agrees : ∀ c, (s.pc c).agrees (s.sys.awaiting c)

namespace Underneath

theorem initial (corePoolSize maxPoolSize : SizeT) :
    Underneath corePoolSize maxPoolSize (awaitMachine corePoolSize maxPoolSize).initial :=
  ⟨Machine.ReachableUnder.initial (M := machine corePoolSize maxPoolSize), fun _ => rfl⟩

/-- A call moves while the executor keeps its status. -/
theorem move (under : Underneath corePoolSize maxPoolSize s) {pc : CallerPc}
    (sys : s'.sys = s.sys) (moved : s'.pc = Function.update s.pc c pc)
    (agrees : pc.agrees (s.sys.awaiting c)) : Underneath corePoolSize maxPoolSize s' := by
  refine ⟨sys ▸ under.reachable, ?_⟩
  rw [sys, moved]
  exact forall_update (fun d (pc : CallerPc) => pc.agrees (s.sys.awaiting d)) under.agrees agrees

/-- A call moves and the executor changes its status. -/
theorem moveStatus (under : Underneath corePoolSize maxPoolSize s) {pc : CallerPc}
    {status : AwaitPc}
    (reached : (machine corePoolSize maxPoolSize).Reachable (s.setStatus c status).sys)
    (agrees : pc.agrees status) :
    Underneath corePoolSize maxPoolSize ((s.setStatus c status).unlockAt c pc) := by
  refine ⟨reached, fun d => ?_⟩
  by_cases isC : d = c
  · subst isC
    rw [AwaitSystem.unlockAt_pc_self]
    change pc.agrees (Function.update s.sys.awaiting d status d)
    rw [Function.update_self]
    exact agrees
  · rw [AwaitSystem.unlockAt_pc_of_ne isC]
    change (s.pc d).agrees (Function.update s.sys.awaiting c status d)
    rw [Function.update_of_ne isC]
    exact under.agrees d

/-- A caller evaluates its condition in the executor's machine. -/
theorem awaitTest (reached : (machine corePoolSize maxPoolSize).Reachable s.sys) {b : Action}
    {otherwise : AwaitPc} (stepEq : step s.sys b = some (s.sys.awaitTest c otherwise)) :
    (machine corePoolSize maxPoolSize).Reachable
      (s.setStatus c (if s.sys.terminated then .returned else otherwise)).sys :=
  reached.step (a := b) trivial stepEq

/-- The wait predicate of the untimed form, on entering the wait or back from it. -/
theorem predicate (under : Underneath corePoolSize maxPoolSize s)
    (position : s.pc c = .predicate form) :
    Underneath corePoolSize maxPoolSize (s.predicate c form) := by
  have status := under.agrees c
  rw [position] at status
  unfold AwaitSystem.predicate
  split
  next timed => exact under.move rfl rfl status
  next untimed =>
    split
    next terminated =>
      split
      next entering => exact under.move rfl rfl trivial
      next woken =>
        have resumes : step s.sys (.awaitResume c) =
            some (s.sys.awaitTest c (.waiting .blocked)) := if_pos (status.resolve_left woken)
        have reached := awaitTest under.reachable resumes
        rw [if_pos terminated] at reached
        exact under.moveStatus reached trivial
    next running =>
      refine under.moveStatus ?_ ⟨_, rfl⟩
      rcases status with entering | woken
      · -- entering the wait: the two tests before it fail in one section
        have checks : step s.sys (.awaitCheck c) = some (s.sys.awaitTest c .checked) :=
          if_pos entering
        have checked := awaitTest under.reachable checks
        rw [if_neg running] at checked
        have locks : step (s.setStatus c .checked).sys (.awaitLock c) =
            some ((s.setStatus c .checked).sys.awaitTest c (.waiting .blocked)) :=
          if_pos (Function.update_self ..)
        have reached := awaitTest checked locks
        have stillRunning : ¬ (s.setStatus c .checked).sys.terminated = true := running
        rw [if_neg stillRunning] at reached
        simpa [AwaitSystem.setStatus] using reached
      · have resumes : step s.sys (.awaitResume c) =
            some (s.sys.awaitTest c (.waiting .blocked)) := if_pos woken
        have reached := awaitTest under.reachable resumes
        rw [if_neg running] at reached
        exact reached

theorem transition (under : Underneath corePoolSize maxPoolSize s)
    (moved : AwaitTransition s a s') : Underneath corePoolSize maxPoolSize s' := by
  have statusAt : ∀ c pc, s.pc c = pc → pc.agrees (s.sys.awaiting c) := by
    rintro c pc rfl
    exact under.agrees c
  cases moved with
  | call c form outside => exact under.move rfl rfl (statusAt c _ outside :)
  | firstCheck c form position free =>
      unfold AwaitSystem.firstCheck
      split
      · exact under.move rfl rfl trivial
      · exact under.move rfl rfl (statusAt c _ position :)
  | lock c form position free => exact under.move rfl rfl (statusAt c _ position :)
  | doubleCheck c form position =>
      unfold AwaitSystem.doubleCheck
      split
      · exact under.move rfl rfl trivial
      · exact under.move rfl rfl (.inl (statusAt c _ position))
  | predicate c form position => exact under.predicate position
  | unblock c blocked =>
      refine ⟨under.reachable.step (a := .awaitUnblock c) trivial (if_pos blocked), fun d => ?_⟩
      by_cases isC : d = c
      · subst isC
        have status := under.agrees d
        change (s.pc d).agrees (Function.update s.sys.awaiting d (.waiting .awake) d)
        rw [Function.update_self]
        rw [blocked] at status
        generalize s.pc d = position at status ⊢
        cases position <;> simp_all [CallerPc.agrees]
      · change (s.pc d).agrees (Function.update s.sys.awaiting c (.waiting .awake) d)
        rw [Function.update_of_ne isC]
        exact under.agrees d
  | relock c form position free woken => exact under.move rfl rfl (.inr woken)
  | system b sys isOther free stepEq =>
      refine ⟨under.reachable.step (a := b) trivial stepEq, fun d => ?_⟩
      have status := under.agrees d
      rcases awaiting_other isOther (transition_of_step stepEq) d with same | ⟨blocked, notified⟩
      · change (s.pc d).agrees (sys.awaiting d)
        rw [same]
        exact status
      · change (s.pc d).agrees (sys.awaiting d)
        rw [blocked] at status
        rw [notified]
        generalize s.pc d = position at status ⊢
        cases position <;> simp_all [CallerPc.agrees]

end Underneath

/-- The executor of a reachable system with calls is reachable in its own machine. -/
theorem sys_reachable (reachable : (awaitMachine corePoolSize maxPoolSize).Reachable s) :
    (machine corePoolSize maxPoolSize).Reachable s.sys :=
  (reachable.invariant (motive := Underneath corePoolSize maxPoolSize) (.initial _ _)
    fun _ _ _ _ under _ stepEq => under.transition (awaitTransition_of_step stepEq)).reachable

/-! ## The return values -/

/-- A timed call whose test before the lock failed finds the executor
terminated at its double check. -/
def DecidesByDoubleCheck (s : AwaitSystem) : AwaitAction → Prop
  | .doubleCheck c =>
      match s.pc c with
      | .doubleCheck form => form.timed = true → s.sys.terminated = true
      | _ => True
  | _ => True

instance (s : AwaitSystem) : (a : AwaitAction) → Decidable (DecidesByDoubleCheck s a)
  | .doubleCheck c => by
      unfold DecidesByDoubleCheck
      dsimp only
      split <;> infer_instance
  | .call _ _ | .firstCheck _ | .lock _ | .predicate _ | .unblock _ | .relock _ | .system _ =>
      .isTrue trivial

/-- A call that returns in this step does so in a section in which the executor
is terminated exactly when its result says so, and the untimed form only where
it is terminated. -/
def ReturnsRight (s s' : AwaitSystem) : Prop :=
  ∀ c form result, s.pc c ≠ .returned form result → s'.pc c = .returned form result →
    s'.sys.terminated = result ∧ (form.timed = false → s'.sys.terminated = true)

/-- The own step of a call changes the executor only in the status of the call. -/
theorem AwaitTransition.exec_eq (moved : AwaitTransition s a s') (own : ∀ b, a ≠ .system b) :
    s'.sys.exec = s.sys.exec := by
  cases moved with
  | firstCheck d form position free => unfold AwaitSystem.firstCheck; split <;> rfl
  | doubleCheck d form position => unfold AwaitSystem.doubleCheck; split <;> rfl
  | predicate d form position =>
      unfold AwaitSystem.predicate
      split
      · rfl
      · split
        · split <;> rfl
        · rfl
  | system b sys isOther free stepEq => exact absurd rfl (own b)
  | _ => rfl

theorem AwaitTransition.returnsRight (moved : AwaitTransition s a s') : ReturnsRight s s' := by
  intro c form result before after
  have own : ∀ b, a ≠ .system b := by
    rintro b rfl
    cases moved with
    | system => exact before after
  have same : s'.sys.terminated = s.sys.terminated := by
    unfold System.terminated
    rw [moved.exec_eq own]
  rw [same]
  rcases moved.pc_cases c with unmoved | move
  · rw [unmoved] at after
    exact absurd after before
  · rw [after] at move
    generalize s.pc c = position at move
    cases move with
    | told _ _ terminated => exact ⟨terminated, fun _ => terminated⟩

/-! ## When a call locks twice -/

/-- A call that waits on `wait_cv` is of the untimed form. -/
def UntimedWait (s : AwaitSystem) : Prop :=
  ∀ c form, s.pc c = .waiting form → form.timed = false

theorem untimedWait_transition (untimed : UntimedWait s) (moved : AwaitTransition s a s') :
    UntimedWait s' := by
  intro c form waits
  rcases moved.pc_cases c with unmoved | move
  · exact untimed c form (unmoved.symm.trans waits)
  · rw [waits] at move
    generalize s.pc c = before at move
    cases move with
    | slept _ isUntimed => exact isUntimed

theorem untimedWait_of_reachable
    (reachable : (awaitMachine corePoolSize maxPoolSize).Reachable s) : UntimedWait s :=
  reachable.invariant (motive := UntimedWait) (fun _ _ waits => by cases waits)
    fun _ _ _ _ untimed _ stepEq => untimedWait_transition untimed (awaitTransition_of_step stepEq)

/-- A call comes to a position from which it locks twice by a failing double
check of a timed form only. -/
theorem isStuck_of_move {before after : CallerPc} (move : CallerMove s a c before after)
    (untimed : ∀ form, before = .waiting form → form.timed = false)
    (free : before.isStuck = false) (stuck : after.isStuck = true) :
    ∃ form, a = .doubleCheck c ∧ before = .doubleCheck form ∧ form.timed = true ∧
      s.sys.terminated = false := by
  cases move with
  | failed form isCheck running => exact ⟨form, isCheck, rfl, stuck, running⟩
  | relocking form timed =>
      rw [CallerPc.isStuck, timed] at free
      cases free
  | relocked form =>
      have isTimed : form.timed = true := stuck
      rw [untimed form rfl] at isTimed
      cases isTimed
  | _ => cases stuck

/-- A failing double check of a timed form leads there. -/
theorem isStuck_of_not_decides (moved : AwaitTransition s a s') (fails : ¬ DecidesByDoubleCheck s a) :
    ∃ c, (s'.pc c).isStuck = true := by
  cases moved with
  | doubleCheck c form position =>
      dsimp only [DecidesByDoubleCheck] at fails
      rw [position] at fails
      obtain ⟨timed, running⟩ := Classical.not_imp.mp fails
      refine ⟨c, ?_⟩
      rw [AwaitSystem.doubleCheck, if_neg running, AwaitSystem.goto_pc_self]
      exact timed
  | _ => exact absurd trivial fails

/-- In any run, a step keeps the calls from locking twice exactly when it meets
the condition. -/
theorem not_locksTwice_step (reachable : (awaitMachine corePoolSize maxPoolSize).Reachable s)
    (stepEq : awaitStep s a = some s') (before : ∀ c, ¬ LocksTwice s c) :
    (∀ c, ¬ LocksTwice s' c) ↔ DecidesByDoubleCheck s a := by
  have moved := awaitTransition_of_step stepEq
  have held := lockHeld_of_reachable reachable
  have heldAfter := held.transition moved
  have untimed := untimedWait_of_reachable reachable
  constructor
  · intro after
    by_contra fails
    obtain ⟨c, stuck⟩ := isStuck_of_not_decides moved fails
    exact after c (heldAfter.locksTwice_iff.mpr stuck)
  · intro allowed c twice
    have stuck := heldAfter.locksTwice_iff.mp twice
    have free : (s.pc c).isStuck = false := by
      rw [← Bool.not_eq_true, ← held.locksTwice_iff]
      exact before c
    rcases moved.pc_cases c with unmoved | move
    · rw [unmoved, free] at stuck
      cases stuck
    · obtain ⟨form, rfl, position, timed, running⟩ :=
        isStuck_of_move move (untimed c) free stuck
      dsimp only [DecidesByDoubleCheck] at allowed
      rw [position] at allowed
      rw [allowed timed] at running
      cases running

/-- In runs whose timed calls decide before they evaluate their wait predicate,
no call locks `main_lock` while holding it and every call returns what is true.
In any run, the step that leads to a second lock is the failing double check of
a timed form, and the return values are right. -/
theorem await_well_behaved (corePoolSize maxPoolSize : SizeT) :
    (∀ s, (awaitMachine corePoolSize maxPoolSize).ReachableUnder DecidesByDoubleCheck s →
      (∀ c, ¬ LocksTwice s c) ∧
      ∀ a s', awaitStep s a = some s' → ReturnsRight s s') ∧
    (∀ s a s', (awaitMachine corePoolSize maxPoolSize).Reachable s → awaitStep s a = some s' →
      ReturnsRight s s' ∧
      ((∀ c, ¬ LocksTwice s c) → ((∀ c, ¬ LocksTwice s' c) ↔ DecidesByDoubleCheck s a))) := by
  constructor
  · intro s reachable
    have never : ∀ c, ¬ LocksTwice s c :=
      reachable.invariant (motive := fun s => ∀ c, ¬ LocksTwice s c) (fun _ twice => by cases twice.1)
        fun _ _ _ reached before allowed stepEq =>
          (not_locksTwice_step reached.reachable stepEq before).mpr allowed
    exact ⟨never, fun _ _ stepEq => (awaitTransition_of_step stepEq).returnsRight⟩
  · intro s a s' reachable stepEq
    exact ⟨(awaitTransition_of_step stepEq).returnsRight,
      fun before => not_locksTwice_step reachable stepEq before⟩

/-- A timed call on an executor that is shut down and has no workers, and an
untimed one that waits for the worker of another. -/
theorem await_well_behaved_terminated :
    ∃ s, (awaitMachine 1#64 1#64).ReachableUnder DecidesByDoubleCheck s ∧
      s.pc 0 = .waiting .awaitTermination ∧ s.pc 1 = .returned .awaitTerminationFor true ∧
      (∀ c, ¬ LocksTwice s c) ∧ ∀ a s', awaitStep s a = some s' → ReturnsRight s s' := by
  have run : ((awaitMachine 1#64 1#64).execUnder DecidesByDoubleCheck
        (awaitMachine 1#64 1#64).initial
        [.call 0 .awaitTermination, .firstCheck 0, .lock 0, .doubleCheck 0, .predicate 0,
          .call 1 .awaitTerminationFor, .firstCheck 1, .system .shutdown, .system (.enterLoop 1),
          .system (.exit 1), .lock 1, .doubleCheck 1]).map (fun s => (s.pc 0, s.pc 1)) =
      some (.waiting .awaitTermination, .returned .awaitTerminationFor true) := by
    decide
  obtain ⟨s, runs, observed⟩ := Option.map_eq_some_iff.mp run
  obtain ⟨waits, returned⟩ := Prod.mk.inj observed
  have reached := Machine.reachableUnder_of_execUnder runs
  exact ⟨s, reached, waits, returned, (await_well_behaved 1#64 1#64).1 s reached⟩

/-- A timed call on an executor that has not been shut down locks `main_lock`
while holding it. -/
theorem timed_wait_locks_twice :
    ¬ ∀ (corePoolSize maxPoolSize : SizeT) (s : AwaitSystem),
      (awaitMachine corePoolSize maxPoolSize).Reachable s → ∀ c, ¬ LocksTwice s c := by
  intro claimed
  have run : ((awaitMachine 1#64 1#64).exec (awaitMachine 1#64 1#64).initial
        [.call 0 .awaitTerminationFor, .firstCheck 0, .lock 0, .doubleCheck 0]).map
          (fun s => (s.mainLock, (s.pc 0).locksNext)) = some (some 0, true) := by
    decide
  obtain ⟨s, runs, observed⟩ := Option.map_eq_some_iff.mp run
  obtain ⟨holds, next⟩ := Prod.mk.inj observed
  exact claimed 1#64 1#64 s (Machine.reachable_of_exec runs) 0 ⟨holds, next⟩

end Conc11.Executor
