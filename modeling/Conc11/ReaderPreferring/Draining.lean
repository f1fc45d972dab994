/-
Module: Conc11.ReaderPreferring.Draining
Purpose: No deadlock, for any number of threads.  While nobody begins a new call, the steps of the calls under way are
  bounded in number, and however they are scheduled they end only with the mutex free and every thread outside;
  every wait without a deadline has ended with the ownership it asked for.  A wake-up without a notification,
  spurious or by a deadline, may come at any time, and then costs one more step.
Trusted boundary: none
Main exports: Action.drains, Action.wakes, workload, eases_of_drains, stepsLeft_of_wakes, ThreadPc.pending, acquires,
  free_of_rests, reader_preferring_drains
-/
import Conc11.ReaderPreferring.AsLock
import Conc11.SharedMutex.Draining

namespace Conc11.ReaderPreferring

open Library
open SharedMutex (GateOp)

/-- The steps of the calls under way, an owner's unlock among them. -/
def Action.drains {T : Type*} : Action T → Bool
  | .unlock _ | .unlockShared _ | .resume _ _ | .notifyAll _ => true
  | .lock _ | .tryLock _ _ | .tryLockUntil _ | .lockShared _ | .tryLockShared _ _
  | .tryLockSharedUntil _ | .unblock _ => false

/-- A wake-up without a notification: spurious, or because a deadline has passed. -/
def Action.wakes {T : Type*} : Action T → Bool
  | .unblock _ => true
  | .lock _ | .tryLock _ _ | .tryLockUntil _ | .unlock _ | .lockShared _ | .tryLockShared _ _
  | .tryLockSharedUntil _ | .unlockShared _ | .resume _ _ | .notifyAll _ => false

namespace ThreadPc

def effort : ThreadPc → Nat
  | .waiting _ _ => 3
  | .holdsExclusive | .holdsShared => 2
  | .notifying => 1
  | .outside => 0

/-- One step of a thread that has been woken may put it back to sleep. -/
def restless : ThreadPc → Nat
  | .waiting _ .notified | .waiting _ .awake => 1
  | _ => 0

/-- The ownership that a wait without a deadline is for. -/
def pending : ThreadPc → Option Mode
  | .waiting op _ => if op.timed then none else some op.mode
  | _ => none

theorem restless_le (pc : ThreadPc) : pc.restless ≤ 1 := by
  unfold restless
  split <;> omega

theorem restless_waiting {op : GateOp} {status : WaitStatus} (unblocked : status ≠ .blocked) :
    (ThreadPc.waiting op status).restless = 1 := by
  cases status <;> first | rfl | exact absurd rfl unblocked

theorem effort_notified (pc : ThreadPc) : pc.notified.effort = pc.effort := by
  cases pc with
  | waiting op status => cases status <;> rfl
  | _ => rfl

theorem pending_notified (pc : ThreadPc) : pc.notified.pending = pc.pending := by
  cases pc with
  | waiting op status => cases status <;> rfl
  | _ => rfl

end ThreadPc

def workload : Workload ThreadPc :=
  { effort := ThreadPc.effort
    restless := ThreadPc.restless
    most := 1
    restless_le := ThreadPc.restless_le }

section

variable {T : Type*} [DecidableEq T] {x : Nat} {s s' : System T x} {a : Action T} {t : T}

/-- The predicate lets the thread on or ends its call, or the thread goes back
to sleep. -/
theorem stateTest_eases (s : System T x) (t : T) (op : GateOp) (expired : Bool) :
    ((stateTest s t op expired).pc t).effort < 3 ∨
      stateTest s t op expired = s.goto t (.waiting op .blocked) := by
  have moves : ∀ pc : ThreadPc, pc.effort < 3 → (Function.update s.pc t pc t).effort < 3 := by
    intro pc less
    rwa [Function.update_self]
  unfold stateTest
  split_ifs
  · exact .inl (moves .holdsExclusive (by decide))
  · exact .inl (moves .holdsShared (by decide))
  · exact .inl (moves .outside (by decide))
  · exact .inr rfl

/-- Every draining step gets its own thread on, or puts it back to sleep. -/
theorem eases_of_drains (drains : a.drains = true) (stepEq : step s a = some s') :
    workload.Eases s.pc s'.pc a.actor := by
  have works : (s'.pc a.actor).effort < (s.pc a.actor).effort →
      workload.Eases s.pc s'.pc a.actor := by
    refine fun own => .works own fun u other => ?_
    rcases pc_of_ne_actor stepEq other with same | notified
    · rw [same]
    · rw [notified]
      exact (s.pc u).effort_notified.le
  cases a
  case unlock t =>
    apply works
    obtain ⟨held, moved⟩ := Option.ite_none_right_eq_some.mp stepEq
    cases moved
    change (Function.update s.pc t .notifying t).effort < (s.pc t).effort
    rw [Function.update_self, held]
    decide
  case unlockShared t =>
    apply works
    obtain ⟨held, moved⟩ := Option.ite_none_right_eq_some.mp stepEq
    cases moved
    change (Function.update s.pc t _ t).effort < (s.pc t).effort
    rw [Function.update_self, held]
    split_ifs <;> decide
  case notifyAll t =>
    apply works
    obtain ⟨sending, moved⟩ := Option.ite_none_right_eq_some.mp stepEq
    cases moved
    change (Function.update (fun u => (s.pc u).notified) t .outside t).effort < (s.pc t).effort
    rw [Function.update_self, sending]
    decide
  case resume t expired =>
    dsimp only [step] at stepEq
    split at stepEq
    next op status waiting =>
      obtain ⟨⟨unblocked, _⟩, moved⟩ := Option.ite_none_right_eq_some.mp stepEq
      rcases stateTest_eases s t op expired with less | sleeps
      · apply works
        rw [← Option.some.inj moved]
        change ((stateTest s t op expired).pc t).effort < (s.pc t).effort
        rw [waiting]
        exact less
      · rw [← Option.some.inj moved, sleeps]
        refine .settles ?_ ?_ fun u other => goto_pc_of_ne other _
        · change ((s.goto t _).pc t).effort ≤ (s.pc t).effort
          rw [goto_pc, waiting]
          rfl
        · change ((s.goto t _).pc t).restless < (s.pc t).restless
          rw [goto_pc, waiting, ThreadPc.restless_waiting unblocked]
          exact Nat.zero_lt_one
    next => cases stepEq
  all_goals cases drains

/-- A thread that is woken without a notification has to look once more. -/
theorem stepsLeft_of_wakes {threads : Finset T} (wakes : a.wakes = true)
    (stepEq : step s a = some s') :
    workload.stepsLeft threads s'.pc ≤ workload.stepsLeft threads s.pc + 1 := by
  cases a
  case unblock t =>
    dsimp only [step] at stepEq
    split at stepEq
    next op waiting =>
      cases stepEq
      refine Workload.stepsLeft_woken (t := t) ?_ fun u other => goto_pc_of_ne other _
      change ((s.goto t _).pc t).effort ≤ (s.pc t).effort
      rw [goto_pc, waiting]
      exact Nat.le_refl _
    next => cases stepEq
  all_goals cases wakes

/-! ## Waits without a deadline -/

theorem stateTest_acquires (s : System T x) (t : T) {op : GateOp} (untimed : op.timed = false) :
    ((stateTest s t op false).pc t).pending = some op.mode ∨
      ((stateTest s t op false).pc t).mode = some op.mode := by
  unfold stateTest System.takeExclusive System.takeShared GateOp.mode
  simp only [Bool.false_eq_true, if_false]
  split_ifs with may exclusive exclusive
  · right
    simp only [Function.update_self]
    rfl
  · right
    simp only [Function.update_self]
    rfl
  · left
    rw [goto_pc]
    simp [ThreadPc.pending, GateOp.mode, untimed, exclusive]
  · left
    rw [goto_pc]
    simp [ThreadPc.pending, GateOp.mode, untimed, exclusive]

/-- A wait without a deadline goes on or ends with the ownership it is for. -/
theorem acquires {mode : Mode} (stepEq : step s a = some s')
    (waits : (s.pc t).pending = some mode) :
    (s'.pc t).pending = some mode ∨ (s'.pc t).mode = some mode := by
  by_cases own : t = a.actor
  · subst own
    have contradicts : ∀ {pc : ThreadPc}, s.pc a.actor = pc → pc.pending = none → False := by
      intro pc position none
      rw [position, none] at waits
      cases waits
    cases a
    case unblock t =>
      left
      dsimp only [step] at stepEq
      split at stepEq
      next op waiting =>
        cases stepEq
        change ((s.goto t _).pc t).pending = _
        rw [goto_pc, ← waits]
        change _ = (s.pc t).pending
        rw [waiting]
        rfl
      next => cases stepEq
    case resume t expired =>
      change (s.pc t).pending = _ at waits
      dsimp only [step] at stepEq
      split at stepEq
      next op status waiting =>
        obtain ⟨⟨_, deadline⟩, moved⟩ := Option.ite_none_right_eq_some.mp stepEq
        rw [waiting] at waits
        obtain ⟨untimed, same⟩ := Option.ite_none_left_eq_some.mp waits
        have inTime : expired = false := Bool.eq_false_iff.mpr fun late => untimed (deadline late)
        cases moved
        cases same
        subst inTime
        exact stateTest_acquires s t (Bool.eq_false_iff.mpr untimed)
      next => cases stepEq
    all_goals
      obtain ⟨position, _⟩ := Option.ite_none_right_eq_some.mp stepEq
      exact (contradicts position rfl).elim
  · rcases pc_of_ne_actor stepEq own with same | notified
    · exact .inl (same ▸ waits)
    · rw [notified, ThreadPc.pending_notified]
      exact .inl waits

/-! ## Rest -/

def Draining (_ : System T x) (a : Action T) : Prop := a.drains = true

/-- Nobody holds the mutex or has a call under way. -/
def Free (s : System T x) : Prop := s.state = 0#_ ∧ ∀ t, s.pc t = .outside

/-- Nothing but the condition variable can hold a thread back. -/
theorem positions_of_rests (rests : (machine T x).RestsUnder Draining s) (t : T) :
    s.pc t = .outside ∨ (s.pc t).isBlocked = true := by
  cases position : s.pc t with
  | outside => exact .inl rfl
  | waiting op status =>
      cases status with
      | blocked => exact .inr rfl
      | notified | awake =>
          have stays := rests (.resume t false) rfl
          simp [machine, step, position] at stays
  | holdsExclusive =>
      have stays := rests (.unlock t) rfl
      simp [machine, step, position] at stays
  | holdsShared =>
      have stays := rests (.unlockShared t) rfl
      simp [machine, step, position] at stays
  | notifying =>
      have stays := rests (.notifyAll t) rfl
      simp [machine, step, position] at stays

variable [Fintype T]

/-- Nobody sleeps: without a holder the word is zero, and a sleeper's
notification would be on its way. -/
theorem free_of_rests (locked : Locked s) (rests : (machine T x).RestsUnder Draining s) :
    Free s := by
  have positions := positions_of_rests rests
  have noReader : s.sharedHolders = 0 := population_eq_zero.mpr fun t => by
    rcases positions t with outside | blocked
    · rw [outside]
      rfl
    · cases position : s.pc t <;> rw [position] at blocked <;> first | rfl | cases blocked
  have noWriter : s.exclusiveHolders = 0 := population_eq_zero.mpr fun t => by
    rcases positions t with outside | blocked
    · rw [outside]
      rfl
    · cases position : s.pc t <;> rw [position] at blocked <;> first | rfl | cases blocked
  have free := locked.state_eq_zero.mpr ⟨noWriter, noReader⟩
  refine ⟨free, fun t => (positions t).resolve_right fun blocked => ?_⟩
  obtain ⟨u, sending⟩ := locked.signalled t blocked free
  have stuck := positions u
  cases position : s.pc u <;> rw [position] at sending stuck <;> cases sending
  simp [ThreadPc.isBlocked] at stuck

theorem descends : (machine T x).Descends (machine T x).Reachable Draining
    fun s => workload.stepsLeft Finset.univ s.pc :=
  { keeps := fun reachable _ stepEq => reachable.step trivial stepEq
    falls := fun _ drains stepEq =>
      (eases_of_drains drains stepEq).stepsLeft_lt (Finset.mem_univ _) }

theorem withstands : (machine T x).Withstands (machine T x).Reachable Action.wakes
    (fun s => workload.stepsLeft Finset.univ s.pc) 1 :=
  { keeps := fun reachable _ stepEq => reachable.step trivial stepEq
    rises := fun _ wakes stepEq => stepsLeft_of_wakes wakes stepEq }

/-- No deadlock.  From every reachable state the calls under way take boundedly
many steps, and one more for each wake-up without a notification; they can be
completed, and wherever nothing is left to do the mutex is free; on the way every
wait without a deadline has ended with the ownership it was for, a writer's also. -/
theorem reader_preferring_drains (reachable : (machine T x).Reachable s) :
    (machine T x).DrainedDespite Draining Action.wakes 1 (workload.stepsLeft Finset.univ s.pc) Free
      (fun (caller : T × Mode) s => (s.pc caller.1).pending = some caller.2)
      (fun caller s => (s.pc caller.1).mode = some caller.2) s := by
  refine descends.drainedDespite withstands ?_ ?_ ?_ reachable
  · exact fun s reached rests => free_of_rests (locked_of_reachable reached) rests
  · exact fun _ _ _ stepEq => acquires stepEq
  · intro s caller _ free waits
    rw [free.2 caller.1] at waits
    cases waits

end

/-- A writer waits behind two readers, one of which has let the other one in, and
wakes up in vain: it gets its turn. -/
theorem reader_preferring_drains_writer_behind_readers :
    ∃ (s : System (Fin 3) 0) (labels : List (Action (Fin 3))) (s' : System (Fin 3) 0),
      (machine (Fin 3) 0).Reachable s ∧ s.state = 2#32 ∧ s.pc 2 = .waiting .lock .blocked ∧
      (machine (Fin 3) 0).RunUnder (Machine.AllowedOr Draining Action.wakes) s
        (.unblock 2 :: labels) s' ∧ Free s' ∧
      ∃ middle, (machine (Fin 3) 0).Reachable middle ∧
        (middle.pc 2).mode = some .exclusive := by
  have run : ((machine (Fin 3) 0).exec (initial (Fin 3) 0)
      [.lockShared 0, .lock 2, .lockShared 1]).map (fun s => (s.state, s.pc 2)) =
      some (2#32, .waiting .lock .blocked) := by
    decide +kernel
  obtain ⟨s, runs, observed⟩ := Option.map_eq_some_iff.mp run
  obtain ⟨readers, writer⟩ := Prod.mk.inj observed
  have reached := Machine.reachable_of_exec runs
  have drained := reader_preferring_drains reached
  have wakesUp : (machine (Fin 3) 0).step s (.unblock 2) =
      some (s.goto 2 (.waiting .lock .awake)) := by
    simp [machine, step, writer]
  obtain ⟨labels, s', onwards, rests⟩ := drained.ends [.unblock 2] _ ⟨_, .inr rfl, wakesUp, rfl⟩
  have whole : (machine (Fin 3) 0).RunUnder (Machine.AllowedOr Draining Action.wakes) s
      (.unblock 2 :: labels) s' := ⟨_, .inr rfl, wakesUp, onwards.mono fun _ _ => .inl⟩
  obtain ⟨before, after, middle, _, upTo, owns, _⟩ :=
    drained.served _ s' whole rests (2, .exclusive) (by rw [writer]; rfl)
  exact ⟨s, labels, s', reached, readers, writer, whole, drained.quiet _ s' whole rests,
    middle, reached.later (upTo.later.mono fun _ _ _ => trivial), owns⟩

end Conc11.ReaderPreferring
