/-
Module: Conc11.SharedMutex.AsLock
Purpose: `SharedTimedMutex` as a lock in the sense of its users: who owns it in which mode, and that an owner keeps
  it until its own unlock.
Trusted boundary: none
Main exports: ThreadPc.mode, sharedTimedMutex
-/
import Conc11.Library.Monitor
import Conc11.SharedMutex.Overtaking

namespace Conc11.SharedMutex

open Library

/-- What the thread owns. -/
def ThreadPc.mode : ThreadPc → Option Mode
  | .holdsExclusive => some .exclusive
  | .holdsShared => some .shared
  | _ => none

/-- The label with which `t` begins to acquire the mutex. -/
def Action.begins {T : Type*} : Action T → Option (T × Mode)
  | .lock t | .tryLock t _ | .tryLockUntil t => some (t, .exclusive)
  | .lockShared t | .tryLockShared t _ | .tryLockSharedUntil t => some (t, .shared)
  | _ => none

def Action.releases {T : Type*} : Action T → Option T
  | .unlock t | .unlockShared t => some t
  | _ => none

section

variable {T : Type*} {x : Nat} {s s' : System T x} {a : Action T}

/-- A notification takes nothing from an owner. -/
theorem ThreadPc.mode_notified (pc : ThreadPc) : pc.notified.mode = pc.mode := by
  cases pc <;> rfl

variable [Fintype T] [DecidableEq T]

/-- The only steps of an owner are its unlocks. -/
theorem releases_of_owner {mode : Mode} (stepEq : step s a = some s')
    (owned : (s.pc a.actor).mode = some mode) : a.releases = some a.actor := by
  have contradicts : ∀ {pc : ThreadPc}, s.pc a.actor = pc → pc.mode = none → False := by
    intro pc position none
    rw [position, none] at owned
    cases owned
  cases a
  case unlock t => rfl
  case unlockShared t => rfl
  case unblock t =>
    dsimp only [step] at stepEq
    split at stepEq
    next waiting => exact (contradicts waiting rfl).elim
    next waiting => exact (contradicts waiting rfl).elim
    next => cases stepEq
  case resume t expired =>
    dsimp only [step] at stepEq
    split at stepEq
    next waiting => exact (contradicts waiting rfl).elim
    next waiting => exact (contradicts waiting rfl).elim
    next => cases stepEq
  case notifyOne t target =>
    dsimp only [step] at stepEq
    split at stepEq
    next sending => exact (contradicts sending rfl).elim
    next sending => exact (contradicts sending rfl).elim
    next => cases stepEq
  all_goals
    obtain ⟨position, _⟩ := Option.ite_none_right_eq_some.mp stepEq
    exact (contradicts position rfl).elim

theorem mode_kept {t : T} {mode : Mode} (stepEq : step s a = some s')
    (owned : (s.pc t).mode = some mode) (kept : a.releases ≠ some t) :
    (s'.pc t).mode = some mode := by
  by_cases own : t = a.actor
  · subst own
    exact absurd (releases_of_owner stepEq owned) kept
  · rcases pc_of_ne_actor stepEq own with same | notified
    · rw [same, owned]
    · rw [notified, ThreadPc.mode_notified, owned]

theorem mode_dropped {t : T} (stepEq : step s a = some s') (released : a.releases = some t) :
    (s'.pc t).mode = none := by
  cases a
  case unlock u =>
    cases released
    obtain ⟨_, moved⟩ := Option.ite_none_right_eq_some.mp stepEq
    cases moved
    change (Function.update s.pc t ThreadPc.notifyingRgateAll t).mode = none
    rw [Function.update_self]
    rfl
  case unlockShared u =>
    cases released
    obtain ⟨_, moved⟩ := Option.ite_none_right_eq_some.mp stepEq
    cases moved
    simp only [unlockShared, Function.update_self]
    split_ifs <;> rfl
  all_goals cases released

theorem mode_alone (reachable : (machine T x).Reachable s) (t u : T)
    (owned : (s.pc t).mode = some .exclusive) (beside : (s.pc u).mode ≠ none) : u = t := by
  have lock := owned_of_reachable reachable
  have exclusive : s.pc t = .holdsExclusive := by
    cases pc : s.pc t <;> rw [pc] at owned <;> cases owned
  have noReader := population_eq_zero.mp (lock.alone t exclusive) u
  apply lock.entered_unique u t
  · cases pc : s.pc u <;> rw [pc] at beside noReader <;>
      first | rfl | exact absurd rfl beside | cases noReader
  · rw [exclusive]
    rfl

end

/-- `SharedTimedMutex`, seen by the threads that lock and unlock it. -/
def sharedTimedMutex (T : Type*) [Fintype T] [DecidableEq T] (x : Nat) :
    Lock (System T x) (Action T) T :=
  { machine := machine T x
    holds := fun s t => (s.pc t).mode
    begins := Action.begins
    releases := Action.releases
    alone := fun _ reachable t u => mode_alone reachable t u
    keeps := fun _ _ _ _ stepEq _ _ => mode_kept stepEq
    drops := fun _ _ _ _ _ stepEq => mode_dropped stepEq }

end Conc11.SharedMutex
