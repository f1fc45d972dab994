/-
Module: Conc11.ReaderPreferring.AsLock
Purpose: `ReaderPreferringSharedTimedMutex` as a lock in the sense of its users: who owns it in which mode, and
  that an owner keeps it until its own unlock.
Trusted boundary: none
Main exports: ThreadPc.mode, Action.actor, pc_of_ne_actor, readerPreferringSharedTimedMutex
-/
import Conc11.Library.Monitor
import Conc11.ReaderPreferring.Ownership

namespace Conc11.ReaderPreferring

open Library
open SharedMutex (GateOp)

/-- What the thread owns. -/
def ThreadPc.mode : ThreadPc → Option Mode
  | .holdsExclusive => some .exclusive
  | .holdsShared => some .shared
  | _ => none

/-- The thread that takes the step. -/
def Action.actor {T : Type*} : Action T → T
  | .lock t | .tryLock t _ | .tryLockUntil t | .unlock t
  | .lockShared t | .tryLockShared t _ | .tryLockSharedUntil t | .unlockShared t
  | .notifyAll t | .unblock t | .resume t _ => t

/-- The label with which `t` begins to acquire the mutex. -/
def Action.begins {T : Type*} : Action T → Option (T × Mode)
  | .lock t | .tryLock t _ | .tryLockUntil t => some (t, .exclusive)
  | .lockShared t | .tryLockShared t _ | .tryLockSharedUntil t => some (t, .shared)
  | _ => none

def Action.releases {T : Type*} : Action T → Option T
  | .unlock t | .unlockShared t => some t
  | _ => none

section

variable {T : Type*} [DecidableEq T] {x : Nat} {s s' : System T x} {a : Action T} {t u : T}

theorem ThreadPc.mode_notified (pc : ThreadPc) : pc.notified.mode = pc.mode := by
  cases pc with
  | waiting op status => cases status <;> rfl
  | _ => rfl

theorem stateTest_pc_of_ne (other : u ≠ t) (op : GateOp) (expired : Bool) :
    (stateTest s t op expired).pc u = s.pc u := by
  unfold stateTest System.takeExclusive System.takeShared System.goto
  split_ifs <;> exact Function.update_of_ne other _ _

theorem tryLock_pc_of_ne (other : u ≠ t) (gotMutex : Bool) :
    (tryLock s t gotMutex).pc u = s.pc u := by
  unfold tryLock System.takeExclusive
  split_ifs
  · exact Function.update_of_ne other _ _
  · rfl

theorem tryLockShared_pc_of_ne (other : u ≠ t) (gotMutex : Bool) :
    (tryLockShared s t gotMutex).pc u = s.pc u := by
  unfold tryLockShared System.takeShared
  split_ifs
  · exact Function.update_of_ne other _ _
  · rfl

/-- A step moves its own thread; the others it may notify. -/
theorem pc_of_ne_actor (stepEq : step s a = some s') (other : u ≠ a.actor) :
    s'.pc u = s.pc u ∨ s'.pc u = (s.pc u).notified := by
  cases a
  case unblock t =>
    left
    dsimp only [step] at stepEq
    split at stepEq
    next =>
      cases stepEq
      exact goto_pc_of_ne other _
    next => cases stepEq
  case resume t expired =>
    left
    dsimp only [step] at stepEq
    split at stepEq
    next op status waiting =>
      obtain ⟨_, moved⟩ := Option.ite_none_right_eq_some.mp stepEq
      cases moved
      exact stateTest_pc_of_ne other op expired
    next => cases stepEq
  all_goals
    obtain ⟨position, moved⟩ := Option.ite_none_right_eq_some.mp stepEq
    cases moved
  case notifyAll t =>
    right
    change Function.update (fun v => (s.pc v).notified) t .outside u = _
    exact Function.update_of_ne other _ _
  case lock t => exact .inl (stateTest_pc_of_ne other _ _)
  case tryLock t gotMutex => exact .inl (tryLock_pc_of_ne other gotMutex)
  case tryLockUntil t => exact .inl (stateTest_pc_of_ne other _ _)
  case lockShared t => exact .inl (stateTest_pc_of_ne other _ _)
  case tryLockShared t gotMutex => exact .inl (tryLockShared_pc_of_ne other gotMutex)
  case tryLockSharedUntil t => exact .inl (stateTest_pc_of_ne other _ _)
  case unlock t => exact .inl (Function.update_of_ne other _ _)
  case unlockShared t => exact .inl (Function.update_of_ne other _ _)

/-- The only steps of an owner are its unlocks. -/
theorem releases_of_owner {mode : Mode} (stepEq : step s a = some s')
    (owned : (s.pc a.actor).mode = some mode) : a.releases = some a.actor := by
  have contradicts : ∀ {pc : ThreadPc}, s.pc a.actor = pc → pc.mode = none → False := by
    intro pc position none
    rw [position, none] at owned
    cases owned
  cases a
  case unlock t => rfl
  case unlockShared t => rfl
  case unblock t =>
    dsimp only [step] at stepEq
    split at stepEq
    next waiting => exact (contradicts waiting rfl).elim
    next => cases stepEq
  case resume t expired =>
    dsimp only [step] at stepEq
    split at stepEq
    next waiting => exact (contradicts waiting rfl).elim
    next => cases stepEq
  all_goals
    obtain ⟨position, _⟩ := Option.ite_none_right_eq_some.mp stepEq
    exact (contradicts position rfl).elim

theorem mode_kept {mode : Mode} (stepEq : step s a = some s')
    (owned : (s.pc t).mode = some mode) (kept : a.releases ≠ some t) :
    (s'.pc t).mode = some mode := by
  by_cases own : t = a.actor
  · subst own
    exact absurd (releases_of_owner stepEq owned) kept
  · rcases pc_of_ne_actor stepEq own with same | notified
    · rw [same, owned]
    · rw [notified, ThreadPc.mode_notified, owned]

theorem mode_dropped (stepEq : step s a = some s') (released : a.releases = some t) :
    (s'.pc t).mode = none := by
  cases a
  case unlock u =>
    cases released
    obtain ⟨_, moved⟩ := Option.ite_none_right_eq_some.mp stepEq
    cases moved
    change (Function.update s.pc t ThreadPc.notifying t).mode = none
    rw [Function.update_self]
    rfl
  case unlockShared u =>
    cases released
    obtain ⟨_, moved⟩ := Option.ite_none_right_eq_some.mp stepEq
    cases moved
    simp only [unlockShared, Function.update_self]
    split_ifs <;> rfl
  all_goals cases released

theorem mode_alone [Fintype T] (reachable : (machine T x).Reachable s) (t u : T)
    (owned : (s.pc t).mode = some .exclusive) (beside : (s.pc u).mode ≠ none) : u = t := by
  have locked := locked_of_reachable reachable
  have exclusive : (s.pc t).isExclusive = true := by
    cases pc : s.pc t <;> rw [pc] at owned <;> first | rfl | cases owned
  have one : s.exclusiveHolders = 1 := by
    have some_ : 0 < s.exclusiveHolders := population_pos.mpr ⟨t, exclusive⟩
    have few := locked.oneWriter
    omega
  have noReader := population_eq_zero.mp (locked.alone one) u
  have writer : (s.pc u).isExclusive = true := by
    cases pc : s.pc u <;> rw [pc] at beside noReader <;>
      first | rfl | exact absurd rfl beside | cases noReader
  have few : (Finset.univ.filter fun v => (s.pc v).isExclusive = true).card ≤ 1 := locked.oneWriter
  exact Finset.card_le_one.mp few u (by simpa using writer) t (by simpa using exclusive)

end

/-- `ReaderPreferringSharedTimedMutex`, seen by the threads that lock and unlock it. -/
def readerPreferringSharedTimedMutex (T : Type*) [Fintype T] [DecidableEq T] (x : Nat) :
    Lock (System T x) (Action T) T :=
  { machine := machine T x
    holds := fun s t => (s.pc t).mode
    begins := Action.begins
    releases := Action.releases
    alone := fun _ reachable t u => mode_alone reachable t u
    keeps := fun _ _ _ _ stepEq _ _ => mode_kept stepEq
    drops := fun _ _ _ _ _ stepEq => mode_dropped stepEq }

end Conc11.ReaderPreferring
