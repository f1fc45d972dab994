/-
Module: Conc11.SharedMutex.Draining
Purpose: No deadlock.  While nobody begins a new call, the steps of the calls under way are bounded in number, and
  however they are scheduled they end only with the mutex free and every thread outside; every wait without a
  deadline has ended with the ownership it asked for.  A wake-up without a notification, spurious or by a
  deadline, may come at any time, and then costs one more step.
Trusted boundary: none
Main exports: Action.drains, Action.wakes, workload, eases_of_drains, stepsLeft_of_wakes, ThreadPc.pending, acquires,
  Signalled.of_few, shared_mutex_drains
-/
import Conc11.Library.Draining
import Conc11.Library.Progress
import Conc11.SharedMutex.AsLock
import Conc11.SharedMutex.Wakeup

namespace Conc11.SharedMutex

open Library

/-- The steps of the calls under way, an owner's unlock among them. -/
def Action.drains {T : Type*} : Action T → Bool
  | .unlock _ | .unlockShared _ | .resume _ _ | .notifyAll _ | .notifyOne _ _ => true
  | .lock _ | .tryLock _ _ | .tryLockUntil _ | .lockShared _ | .tryLockShared _ _
  | .tryLockSharedUntil _ | .unblock _ => false

/-- A wake-up without a notification: spurious, or because a deadline has passed. -/
def Action.wakes {T : Type*} : Action T → Bool
  | .unblock _ => true
  | .lock _ | .tryLock _ _ | .tryLockUntil _ | .unlock _ | .lockShared _ | .tryLockShared _ _
  | .tryLockSharedUntil _ | .unlockShared _ | .resume _ _ | .notifyAll _ | .notifyOne _ _ => false

/-- The ownership an operation acquires. -/
def GateOp.mode (op : GateOp) : Mode := if op.exclusive then .exclusive else .shared

namespace ThreadPc

def effort : ThreadPc → Nat
  | .atRgate _ _ => 4
  | .atWgate _ _ => 3
  | .holdsExclusive | .holdsShared => 2
  | .notifyingRgateAll | .notifyingRgateOne | .notifyingWgateOne => 1
  | .outside => 0

/-- One step of a thread that has been woken may put it back to sleep. -/
def restless : ThreadPc → Nat
  | .atRgate _ .notified | .atRgate _ .awake | .atWgate _ .notified | .atWgate _ .awake => 1
  | _ => 0

/-- The ownership that a wait without a deadline is for. -/
def pending : ThreadPc → Option Mode
  | .atRgate op _ => if op.timed then none else some op.mode
  | .atWgate timed _ => if timed then none else some .exclusive
  | _ => none

theorem restless_le (pc : ThreadPc) : pc.restless ≤ 1 := by
  unfold restless
  split <;> omega

theorem restless_atRgate {op : GateOp} {status : WaitStatus} (unblocked : status ≠ .blocked) :
    (ThreadPc.atRgate op status).restless = 1 := by
  cases status <;> first | rfl | exact absurd rfl unblocked

theorem restless_atWgate {timed : Bool} {status : WaitStatus} (unblocked : status ≠ .blocked) :
    (ThreadPc.atWgate timed status).restless = 1 := by
  cases status <;> first | rfl | exact absurd rfl unblocked

theorem effort_notified (pc : ThreadPc) : pc.notified.effort = pc.effort := by
  cases pc <;> rfl

theorem pending_notified (pc : ThreadPc) : pc.notified.pending = pc.pending := by
  cases pc <;> rfl

end ThreadPc

def workload : Workload ThreadPc :=
  { effort := ThreadPc.effort
    restless := ThreadPc.restless
    most := 1
    restless_le := ThreadPc.restless_le }

section

variable {T : Type*} [DecidableEq T] {x : Nat} {s s' : System T x} {t : T}

/-- The `rgate` condition lets the thread on or ends its call, or the thread
goes back to sleep. -/
theorem rgateTest_eases (s : System T x) (t : T) (op : GateOp) (expired : Bool) :
    ((rgateTest s t op expired).pc t).effort < 4 ∨
      rgateTest s t op expired = s.goto t (.atRgate op .blocked) := by
  have toWgate : ((passRgate s t op.timed).pc t).effort < 4 := by
    change (Function.update s.pc t _ t).effort < 4
    rw [Function.update_self]
    split_ifs <;> simp [ThreadPc.effort]
  have toOutside : ((s.goto t .outside).pc t).effort < 4 := by
    rw [goto_pc]
    decide
  have toShared : (Function.update s.pc t .holdsShared t).effort < 4 := by
    rw [Function.update_self]
    decide
  unfold rgateTest
  split_ifs
  · exact .inl toWgate
  · exact .inl toOutside
  · exact .inr rfl
  · exact .inl toShared
  · exact .inl toOutside
  · exact .inr rfl

/-- The same for the `wgate` condition. -/
theorem wgateTest_eases (s : System T x) (t : T) (timed expired : Bool) :
    ((wgateTest s t timed expired).pc t).effort < 3 ∨
      wgateTest s t timed expired = s.goto t (.atWgate timed .blocked) := by
  have toHolds : ((s.goto t .holdsExclusive).pc t).effort < 3 := by
    rw [goto_pc]
    decide
  have toNotifying : (Function.update s.pc t .notifyingRgateAll t).effort < 3 := by
    rw [Function.update_self]
    decide
  unfold wgateTest
  split_ifs
  · exact .inl toHolds
  · exact .inl toNotifying
  · exact .inr rfl

variable [Fintype T] {a : Action T}

/-- Every draining step gets its own thread on, or puts it back to sleep. -/
theorem eases_of_drains (drains : a.drains = true) (stepEq : step s a = some s') :
    workload.Eases s.pc s'.pc a.actor := by
  have works : (s'.pc a.actor).effort < (s.pc a.actor).effort →
      workload.Eases s.pc s'.pc a.actor := by
    refine fun own => .works own fun u other => ?_
    rcases pc_of_ne_actor stepEq other with same | notified
    · rw [same]
    · rw [notified]
      exact (s.pc u).effort_notified.le
  cases a
  case unlock t =>
    apply works
    obtain ⟨held, moved⟩ := Option.ite_none_right_eq_some.mp stepEq
    cases moved
    change (Function.update s.pc t .notifyingRgateAll t).effort < (s.pc t).effort
    rw [Function.update_self, held]
    decide
  case unlockShared t =>
    apply works
    obtain ⟨held, moved⟩ := Option.ite_none_right_eq_some.mp stepEq
    cases moved
    change (Function.update s.pc t _ t).effort < (s.pc t).effort
    rw [Function.update_self, held]
    split_ifs <;> decide
  case resume t expired =>
    dsimp only [step] at stepEq
    split at stepEq
    next op status waiting =>
      obtain ⟨⟨unblocked, _⟩, moved⟩ := Option.ite_none_right_eq_some.mp stepEq
      rcases rgateTest_eases s t op expired with less | sleeps
      · apply works
        rw [← Option.some.inj moved]
        change ((rgateTest s t op expired).pc t).effort < (s.pc t).effort
        rw [waiting]
        exact less
      · rw [← Option.some.inj moved, sleeps]
        refine .settles ?_ ?_ fun u other => goto_pc_of_ne other _
        · change ((s.goto t _).pc t).effort ≤ (s.pc t).effort
          rw [goto_pc, waiting]
          rfl
        · change ((s.goto t _).pc t).restless < (s.pc t).restless
          rw [goto_pc, waiting, ThreadPc.restless_atRgate unblocked]
          exact Nat.zero_lt_one
    next timed status waiting =>
      obtain ⟨⟨unblocked, _⟩, moved⟩ := Option.ite_none_right_eq_some.mp stepEq
      rcases wgateTest_eases s t timed expired with less | sleeps
      · apply works
        rw [← Option.some.inj moved]
        change ((wgateTest s t timed expired).pc t).effort < (s.pc t).effort
        rw [waiting]
        exact less
      · rw [← Option.some.inj moved, sleeps]
        refine .settles ?_ ?_ fun u other => goto_pc_of_ne other _
        · change ((s.goto t _).pc t).effort ≤ (s.pc t).effort
          rw [goto_pc, waiting]
          rfl
        · change ((s.goto t _).pc t).restless < (s.pc t).restless
          rw [goto_pc, waiting, ThreadPc.restless_atWgate unblocked]
          exact Nat.zero_lt_one
    next => cases stepEq
  case notifyAll t =>
    apply works
    obtain ⟨sending, moved⟩ := Option.ite_none_right_eq_some.mp stepEq
    cases moved
    change (((notifyAllRgate s).goto t .outside).pc t).effort < (s.pc t).effort
    rw [goto_pc, sending]
    decide
  case notifyOne t target =>
    apply works
    have ends : ∀ gate : Gate, s.pc t = gate.notifyingOne →
        (notifyOne s gate target).map (·.goto t .outside) = some s' →
        (s'.pc t).effort < (s.pc t).effort := by
      intro gate sending sent
      obtain ⟨middle, _, rfl⟩ := Option.map_eq_some_iff.mp sent
      rw [goto_pc, sending]
      cases gate <;> decide
    dsimp only [step] at stepEq
    split at stepEq
    next sending => exact ends .rgate sending stepEq
    next sending => exact ends .wgate sending stepEq
    next => cases stepEq
  all_goals cases drains

/-- A thread that is woken without a notification has to look once more. -/
theorem stepsLeft_of_wakes (wakes : a.wakes = true) (stepEq : step s a = some s') :
    workload.stepsLeft Finset.univ s'.pc ≤ workload.stepsLeft Finset.univ s.pc + 1 := by
  cases a
  case unblock t =>
    dsimp only [step] at stepEq
    split at stepEq
    next op waiting =>
      cases stepEq
      refine Workload.stepsLeft_woken (t := t) ?_ fun u other => goto_pc_of_ne other _
      change ((s.goto t _).pc t).effort ≤ (s.pc t).effort
      rw [goto_pc, waiting]
      exact Nat.le_refl _
    next timed waiting =>
      cases stepEq
      refine Workload.stepsLeft_woken (t := t) ?_ fun u other => goto_pc_of_ne other _
      change ((s.goto t _).pc t).effort ≤ (s.pc t).effort
      rw [goto_pc, waiting]
      exact Nat.le_refl _
    next => cases stepEq
  all_goals cases wakes

/-! ## Waits without a deadline -/

omit [Fintype T] in
theorem rgateTest_acquires (s : System T x) (t : T) {op : GateOp} (untimed : op.timed = false) :
    ((rgateTest s t op false).pc t).pending = some op.mode ∨
      ((rgateTest s t op false).pc t).mode = some op.mode := by
  cases exclusive : op.exclusive with
  | true =>
      have mode : op.mode = .exclusive := by simp [GateOp.mode, exclusive]
      rw [mode]
      unfold rgateTest passRgate
      rw [exclusive, untimed]
      simp only [if_true, Bool.false_eq_true, if_false]
      split_ifs
      · left
        simp only [Function.update_self]
        rfl
      · right
        simp only [Function.update_self]
        rfl
      · left
        rw [goto_pc]
        simp [ThreadPc.pending, untimed, mode]
  | false =>
      have mode : op.mode = .shared := by simp [GateOp.mode, exclusive]
      rw [mode]
      unfold rgateTest
      rw [exclusive]
      simp only [Bool.false_eq_true, if_false]
      split_ifs
      · right
        simp only [Function.update_self]
        rfl
      · left
        rw [goto_pc]
        simp [ThreadPc.pending, untimed, mode]

omit [Fintype T] in
theorem wgateTest_acquires (s : System T x) (t : T) :
    ((wgateTest s t false false).pc t).pending = some .exclusive ∨
      ((wgateTest s t false false).pc t).mode = some .exclusive := by
  unfold wgateTest
  simp only [Bool.false_eq_true, if_false]
  split_ifs
  · right
    rw [goto_pc]
    rfl
  · left
    rw [goto_pc]
    rfl

/-- A wait without a deadline goes on or ends with the ownership it is for. -/
theorem acquires {mode : Mode} (stepEq : step s a = some s')
    (waits : (s.pc t).pending = some mode) :
    (s'.pc t).pending = some mode ∨ (s'.pc t).mode = some mode := by
  by_cases own : t = a.actor
  · subst own
    have contradicts : ∀ {pc : ThreadPc}, s.pc a.actor = pc → pc.pending = none → False := by
      intro pc position none
      rw [position, none] at waits
      cases waits
    cases a
    case unblock t =>
      left
      dsimp only [step] at stepEq
      split at stepEq
      next op waiting =>
        cases stepEq
        change ((s.goto t _).pc t).pending = _
        rw [goto_pc, ← waits]
        change _ = (s.pc t).pending
        rw [waiting]
        rfl
      next timed waiting =>
        cases stepEq
        change ((s.goto t _).pc t).pending = _
        rw [goto_pc, ← waits]
        change _ = (s.pc t).pending
        rw [waiting]
        rfl
      next => cases stepEq
    case resume t expired =>
      change (s.pc t).pending = _ at waits
      dsimp only [step] at stepEq
      split at stepEq
      next op status waiting =>
        obtain ⟨⟨_, deadline⟩, moved⟩ := Option.ite_none_right_eq_some.mp stepEq
        rw [waiting] at waits
        obtain ⟨untimed, same⟩ := Option.ite_none_left_eq_some.mp waits
        have inTime : expired = false := Bool.eq_false_iff.mpr fun late => untimed (deadline late)
        cases moved
        cases same
        subst inTime
        exact rgateTest_acquires s t (Bool.eq_false_iff.mpr untimed)
      next timed status waiting =>
        obtain ⟨⟨_, deadline⟩, moved⟩ := Option.ite_none_right_eq_some.mp stepEq
        rw [waiting] at waits
        obtain ⟨untimed, same⟩ := Option.ite_none_left_eq_some.mp waits
        have inTime : expired = false := Bool.eq_false_iff.mpr fun late => untimed (deadline late)
        cases moved
        cases same
        subst inTime
        rw [Bool.eq_false_iff.mpr untimed]
        exact wgateTest_acquires s t
      next => cases stepEq
    case notifyOne t target =>
      dsimp only [step] at stepEq
      split at stepEq
      next sending => exact (contradicts sending rfl).elim
      next sending => exact (contradicts sending rfl).elim
      next => cases stepEq
    all_goals
      obtain ⟨position, _⟩ := Option.ite_none_right_eq_some.mp stepEq
      exact (contradicts position rfl).elim
  · rcases pc_of_ne_actor stepEq own with same | notified
    · exact .inl (same ▸ waits)
    · rw [notified, ThreadPc.pending_notified]
      exact .inl waits

/-! ## Rest -/

/-- Fewer threads than 2^31 do not use up the reader counter before one of
them has to wait. -/
theorem Signalled.of_few (few : Fintype.card T < 2 ^ 31)
    (reachable : (machine T x).Reachable s) : Signalled s := by
  refine reachable.invariant .initial fun s a s' before signalled _ stepEq => ?_
  by_cases below : BelowSaturation s
  · exact signalled.transition (owned_of_reachable before) below (transition_of_step stepEq)
  · -- every thread is a reader, so the step is an `unlock_shared`
    have all : ∀ t, s.pc t = .holdsShared := by
      have many : 2 ^ 31 - 1 ≤ s.sharedHolders := Nat.le_of_not_lt below
      have everybody : Finset.univ.filter (fun t => (s.pc t).isShared = true) = Finset.univ :=
        Finset.eq_univ_of_card _ (Nat.le_antisymm (Finset.card_le_univ _) (by
          change Fintype.card T ≤ s.sharedHolders
          omega))
      intro t
      have shared := (Finset.mem_filter.mp (everybody.symm ▸ Finset.mem_univ t)).2
      cases position : s.pc t <;> rw [position] at shared <;> first | rfl | cases shared
    cases transition_of_step stepEq with
    | unlockShared t held => exact signalled.unlockShared (owned_of_reachable before) held
    | request t _ position | tryLock t _ position | unlock t position | tryLockShared t _ position
    | unblockRgate t _ position | unblockWgate t _ position | resumeRgate t _ _ _ position
    | resumeWgate t _ _ _ position | notifyAll t position =>
        rw [all t] at position
        cases position
    | notifyNobody t gate position | notifyOne t _ gate position =>
        rw [all t] at position
        cases gate <;> cases position

def Draining (_ : System T x) (a : Action T) : Prop := a.drains = true

/-- Nothing but the two gates can hold a thread back. -/
theorem positions_of_rests (rests : (machine T x).RestsUnder Draining s) (t : T) :
    s.pc t = .outside ∨ (s.pc t).blockedAt .rgate = true ∨ (s.pc t).blockedAt .wgate = true := by
  have sends : ∀ gate : Gate, s.pc t ≠ gate.notifyingOne := by
    intro gate sending
    by_cases nobody : ∀ u, (s.pc u).blockedAt gate = false
    · have stays := rests (.notifyOne t none) rfl
      cases gate <;> simp [machine, step, sending, Gate.notifyingOne, notifyOne, nobody] at stays
    · obtain ⟨u, awake⟩ := not_forall.mp nobody
      have blocked : (s.pc u).blockedAt gate = true := Bool.not_eq_false _ ▸ awake
      have stays := rests (.notifyOne t (some u)) rfl
      cases gate <;> simp [machine, step, sending, Gate.notifyingOne, notifyOne, blocked] at stays
  cases position : s.pc t with
  | outside => exact .inl rfl
  | atRgate op status =>
      cases status with
      | blocked => exact .inr (.inl rfl)
      | notified | awake =>
          have stays := rests (.resume t false) rfl
          simp [machine, step, position] at stays
  | atWgate timed status =>
      cases status with
      | blocked => exact .inr (.inr rfl)
      | notified | awake =>
          have stays := rests (.resume t false) rfl
          simp [machine, step, position] at stays
  | holdsExclusive =>
      have stays := rests (.unlock t) rfl
      simp [machine, step, position] at stays
  | holdsShared =>
      have stays := rests (.unlockShared t) rfl
      simp [machine, step, position] at stays
  | notifyingRgateAll =>
      have stays := rests (.notifyAll t) rfl
      simp [machine, step, position] at stays
  | notifyingRgateOne => exact absurd position (sends .rgate)
  | notifyingWgateOne => exact absurd position (sends .wgate)

/-- Nobody holds the mutex or has a call under way. -/
def Free (s : System T x) : Prop := s.state = 0#_ ∧ ∀ t, s.pc t = .outside

/-- Nobody is held back: a sleeper's notification would be on its way. -/
theorem free_of_rests (signalled : Signalled s) (owned : Owned s)
    (rests : (machine T x).RestsUnder Draining s) : Free s := by
  have positions := positions_of_rests rests
  have noReader : s.sharedHolders = 0 := population_eq_zero.mpr fun t => by
    rcases positions t with outside | blocked | blocked
    · rw [outside]
      rfl
    all_goals cases position : s.pc t <;> rw [position] at blocked <;> first | rfl | cases blocked
  have noWgate : ∀ t, (s.pc t).blockedAt .wgate ≠ true := by
    intro t blocked
    obtain ⟨u, sending⟩ := signalled.wgate t blocked noReader
    have stuck := positions u
    rw [sending] at stuck
    simp [ThreadPc.blockedAt] at stuck
  have noWriter : s.enteredWriters = 0 := population_eq_zero.mpr fun t => by
    rcases positions t with outside | blocked | blocked
    · rw [outside]
      rfl
    · cases position : s.pc t <;> rw [position] at blocked <;> first | rfl | cases blocked
    · exact absurd blocked (noWgate t)
  constructor
  · rw [owned.word, noReader, noWriter]
    rfl
  · intro t
    rcases positions t with outside | blocked | blocked
    · exact outside
    · obtain ⟨u, sending⟩ := signalled.rgate t blocked noWriter
      have stuck := positions u
      rw [sending] at stuck
      simp [ThreadPc.blockedAt] at stuck
    · exact absurd blocked (noWgate t)

theorem descends : (machine T x).Descends (machine T x).Reachable Draining
    fun s => workload.stepsLeft Finset.univ s.pc :=
  { keeps := fun reachable _ stepEq => reachable.step trivial stepEq
    falls := fun _ drains stepEq =>
      (eases_of_drains drains stepEq).stepsLeft_lt (Finset.mem_univ _) }

theorem withstands : (machine T x).Withstands (machine T x).Reachable Action.wakes
    (fun s => workload.stepsLeft Finset.univ s.pc) 1 :=
  { keeps := fun reachable _ stepEq => reachable.step trivial stepEq
    rises := fun _ wakes stepEq => stepsLeft_of_wakes wakes stepEq }

/-- No deadlock.  From every state that fewer than 2^31 threads reach, the
calls under way take boundedly many steps, and one more for each wake-up without
a notification; they can be completed, and wherever nothing is left to do the
mutex is free; on the way every wait without a deadline has ended with the
ownership it was for. -/
theorem shared_mutex_drains (few : Fintype.card T < 2 ^ 31) (reachable : (machine T x).Reachable s) :
    (machine T x).DrainedDespite Draining Action.wakes 1 (workload.stepsLeft Finset.univ s.pc) Free
      (fun (caller : T × Mode) s => (s.pc caller.1).pending = some caller.2)
      (fun caller s => (s.pc caller.1).mode = some caller.2) s := by
  refine descends.drainedDespite withstands ?_ ?_ ?_ reachable
  · exact fun s reached rests =>
      free_of_rests (.of_few few reached) (owned_of_reachable reached) rests
  · exact fun _ _ _ stepEq => acquires stepEq
  · intro s caller _ free waits
    rw [free.2 caller.1] at waits
    cases waits

end

/-- A writer and a reader wait for a writer, and the first one of them wakes up in
vain: both get their turn. -/
theorem shared_mutex_drains_writer_and_reader :
    ∃ (s : System (Fin 3) 0) (labels : List (Action (Fin 3))) (s' : System (Fin 3) 0),
      (machine (Fin 3) 0).Reachable s ∧ s.pc 1 = .atRgate .lock .blocked ∧
      s.pc 2 = .atRgate .lockShared .blocked ∧
      (machine (Fin 3) 0).RunUnder (Machine.AllowedOr Draining Action.wakes) s
        (.unblock 1 :: labels) s' ∧
      Free s' ∧ (∃ middle, (machine (Fin 3) 0).Reachable middle ∧
        (middle.pc 1).mode = some .exclusive) := by
  have run : ((machine (Fin 3) 0).exec (initial (Fin 3) 0) [.lock 0, .lock 1, .lockShared 2]).map
      (fun s => (s.pc 1, s.pc 2)) =
      some (.atRgate .lock .blocked, .atRgate .lockShared .blocked) := by
    decide +kernel
  obtain ⟨s, runs, observed⟩ := Option.map_eq_some_iff.mp run
  obtain ⟨writer, reader⟩ := Prod.mk.inj observed
  have reached := Machine.reachable_of_exec runs
  have drained := shared_mutex_drains (by decide) reached
  have wakesUp : (machine (Fin 3) 0).step s (.unblock 1) =
      some (s.goto 1 (.atRgate .lock .awake)) := by
    simp [machine, step, writer]
  obtain ⟨labels, s', onwards, rests⟩ := drained.ends [.unblock 1] _ ⟨_, .inr rfl, wakesUp, rfl⟩
  have whole : (machine (Fin 3) 0).RunUnder (Machine.AllowedOr Draining Action.wakes) s
      (.unblock 1 :: labels) s' := ⟨_, .inr rfl, wakesUp, onwards.mono fun _ _ => .inl⟩
  obtain ⟨before, after, middle, _, upTo, owns, _⟩ :=
    drained.served _ s' whole rests (1, .exclusive) (by rw [writer]; rfl)
  exact ⟨s, labels, s', reached, writer, reader, whole, drained.quiet _ s' whole rests,
    middle, reached.later (upTo.later.mono fun _ _ _ => trivial), owns⟩

end Conc11.SharedMutex
