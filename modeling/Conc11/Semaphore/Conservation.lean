/-
Module: Conc11.Semaphore.Conservation
Purpose: `QueuedSemaphore` conserves permits.  Whichever comparison a section uses, it takes permits only
  after a valid test of its own, as long as no number involved exceeds INT_MAX.
Trusted boundary: none
Main exports: WithinInt, TotalsWithinInt, Effect, Conserved, conserved_of_reachable, permits_conserved
-/
import Mathlib.Algebra.BigOperators.Group.List.Basic
import Conc11.Semaphore.Model

namespace Conc11.Semaphore

open Library

/-- Requests and the total of all permits stay within `int`. -/
def WithinInt (initialPermits : BitVec 32) (s : System) : Action → Prop
  | .tryAcquire0 _ _ request _ | .tryAcquire _ request => request.toNat ≤ intMax
  | .release request => initialPermits.toNat + s.released + request.toNat ≤ intMax
  | .wake _ _ | .timeout _ => True

instance (initialPermits : BitVec 32) (s : System) :
    (a : Action) → Decidable (WithinInt initialPermits s a)
  | .tryAcquire0 _ _ request _ | .tryAcquire _ request =>
      inferInstanceAs (Decidable (request.toNat ≤ intMax))
  | .release request =>
      inferInstanceAs (Decidable (initialPermits.toNat + s.released + request.toNat ≤ intMax))
  | .wake _ _ | .timeout _ => .isTrue trivial

/-- The same without a bound on the untimed `try_acquire`, whose comparison
has no cast. -/
def TotalsWithinInt (initialPermits : BitVec 32) (s : System) : Action → Prop
  | .tryAcquire0 _ _ request _ => request.toNat ≤ intMax
  | .release request => initialPermits.toNat + s.released + request.toNat ≤ intMax
  | .tryAcquire _ _ | .wake _ _ | .timeout _ => True

theorem WithinInt.totals {initialPermits : BitVec 32} {s : System} {a : Action}
    (within : WithinInt initialPermits s a) : TotalsWithinInt initialPermits s a := by
  cases a with
  | tryAcquire0 c timed request budget => exact within
  | release request => exact within
  | tryAcquire c request => trivial
  | wake c budget => trivial
  | timeout c => trivial

/-! ## What a section does to the permits -/

/-- A section of a call for `request` permits either grants the request and
takes exactly that, with enough permits there, or takes nothing. -/
inductive Effect (sem : QueuedSemaphore) (request : Request) :
    QueuedSemaphore → Result → Prop where
  | debit (sem' : QueuedSemaphore) (enough : request.toNat ≤ sem.permits.toNat)
      (permits : sem'.permits = sem.permits - request) : Effect sem request sem' .granted
  | keep (sem' : QueuedSemaphore) (result : Result) (notGranted : result ≠ .granted)
      (runs : result ≠ .terminated) (permits : sem'.permits = sem.permits) :
      Effect sem request sem' result

theorem Effect.runs {sem sem' : QueuedSemaphore} {request : Request} {result : Result}
    (effect : Effect sem request sem' result) : result ≠ .terminated := by
  cases effect with
  | debit enough permits => decide
  | keep _ notGranted runs permits => exact runs

section Effects

variable {sem sem' : QueuedSemaphore} {request : Request} {budget : Option Nat} {result : Result}

theorem enqueueAndWait_effect (ran : sem.enqueueAndWait budget = some (sem', result)) :
    sem'.permits = sem.permits ∧ result ≠ .granted ∧ result ≠ .terminated := by
  unfold QueuedSemaphore.enqueueAndWait at ran
  split at ran
  next => cases ran
  next queue _ =>
    cases ran
    exact ⟨rfl, by decide, by decide⟩
  next queue node _ =>
    cases ran
    exact ⟨rfl, Result.noConfusion, Result.noConfusion⟩

variable (permits : sem.permits.toNat ≤ intMax) (small : request.toNat ≤ intMax)

include permits small

theorem tryAcquire0_effect (ran : sem.tryAcquire0 request budget = some (sem', result)) :
    Effect sem request sem' result := by
  unfold QueuedSemaphore.tryAcquire0 at ran
  split at ran
  next fits =>
    cases ran
    exact .debit _ ((sle_iff small permits).mp (Bool.and_eq_true_iff.mp fits).1) rfl
  next =>
    obtain ⟨same, notGranted, runs⟩ := enqueueAndWait_effect ran
    exact .keep _ _ notGranted runs (same.trans permits_requestRecordInsert)

omit permits small in
theorem tryAcquire_effect :
    Effect sem request (sem.tryAcquire request).1 (sem.tryAcquire request).2 := by
  unfold QueuedSemaphore.tryAcquire
  split
  next fits =>
    rw [BitVec.ule, decide_eq_true_iff] at fits
    exact .debit _ fits rfl
  next => exact .keep _ _ Result.noConfusion Result.noConfusion rfl

omit permits small in
/-- The untimed `try_acquire` does not wait. -/
theorem tryAcquire_settles {node : NodeId} : (sem.tryAcquire request).2 ≠ .waiting node := by
  unfold QueuedSemaphore.tryAcquire
  split <;> exact Result.noConfusion

/-- Behind the waiting loop the test has just succeeded, so `permits` does not
become negative. -/
theorem woken_effect (ran : sem.woken request budget = some (sem', result)) :
    Effect sem request sem' result := by
  unfold QueuedSemaphore.woken at ran
  dsimp only at ran
  split at ran
  next fits =>
    have enough := (sle_iff small permits).mp fits
    set base : QueuedSemaphore := { sem with queue := sem.queue.dequeue } with base_def
    have left : base.leaveLoop request = (sem', result) := Option.some.inj ran
    unfold QueuedSemaphore.leaveLoop at left
    dsimp only at left
    have debited : ({ base.requestRecordRemove request with
        permits := (base.requestRecordRemove request).permits - request } :
        QueuedSemaphore).wakeIfDue.permits = sem.permits - request := by
      rw [permits_wakeIfDue, permits_requestRecordRemove]
    have remains : (sem.permits - request).toNat ≤ intMax := by
      rw [toNat_sub enough]
      omega
    rw [debited, not_negative remains] at left
    cases left
    exact .debit _ enough debited
  next =>
    obtain ⟨same, notGranted, runs⟩ := enqueueAndWait_effect ran
    exact .keep _ _ notGranted runs same

end Effects

/-! ## Runs -/

/-- The permits are what came in less what went out, the program runs, and a
call that has not been granted its request has changed nothing. -/
structure Conserved (initialPermits : BitVec 32) (s : System) : Prop where
  balance : s.sem.permits.toNat + (s.grants.map fun grant => grant.2.toNat).sum =
    initialPermits.toNat + s.released
  total : initialPermits.toNat + s.released ≤ intMax
  running : s.aborted = false
  requests : ∀ c timed request node, s.pc c = .waiting timed request node →
    request.toNat ≤ intMax
  alive : ∀ c, s.pc c ≠ .terminated
  unchanged : ∀ c, s.pc c ≠ .returned true → s.changes c = 0

namespace Conserved

variable {n : BitVec 32} {s s' : System}

theorem small (conserved : Conserved n s) : s.sem.permits.toNat ≤ intMax := by
  have balance := conserved.balance
  have total := conserved.total
  omega

theorem settle (conserved : Conserved n s) {c : CallId} {request : Request}
    {sem : QueuedSemaphore} {result : Result} (timed : Bool) (pending : s.pc c ≠ .returned true)
    (small : (∃ node, result = .waiting node) → request.toNat ≤ intMax)
    (effect : Effect s.sem request sem result) :
    Conserved n (s.settle c timed request sem result) := by
  have runs := effect.runs
  refine ⟨?_, conserved.total, ?_, fun d timed' request' node waiting => ?_, fun d => ?_,
    fun d notGranted => ?_⟩
  · have balance := conserved.balance
    cases effect with
    | debit enough permits =>
        simp only [System.settle, if_true, List.map_append, List.map_cons, List.map_nil,
          List.sum_append, List.sum_cons, List.sum_nil, permits, toNat_sub enough]
        omega
    | keep _ notGranted runs permits => simpa [System.settle, notGranted, permits] using balance
  · simp [System.settle, conserved.running, runs]
  · by_cases same : d = c
    · subst same
      cases result <;> simp_all [System.settle]
    · simp only [System.settle, Function.update_of_ne same] at waiting
      exact conserved.requests d timed' request' node waiting
  · by_cases same : d = c
    · subst same
      cases result <;> simp_all [System.settle]
    · simpa [System.settle, Function.update_of_ne same] using conserved.alive d
  · by_cases same : d = c
    · subst same
      cases effect with
      | debit enough permits => simp [System.settle] at notGranted
      | keep _ _ _ permits => simp [System.settle, conserved.unchanged d pending, permits]
    · simp only [System.settle, Function.update_of_ne same] at notGranted ⊢
      exact conserved.unchanged d notGranted

theorem transition {a : Action} (conserved : Conserved n s) (allowed : TotalsWithinInt n s a)
    (moved : Transition s a s') : Conserved n s' := by
  cases moved with
  | tryAcquire0 c timed request budget sem result idle ran =>
      have settled := conserved.settle timed (by rw [idle]; decide) (fun _ => allowed)
        (tryAcquire0_effect conserved.small allowed ran)
      exact ⟨settled.balance, settled.total, settled.running, settled.requests, settled.alive,
        settled.unchanged⟩
  | tryAcquire c request idle =>
      have effect : Effect s.sem request (s.sem.tryAcquire request).1
        (s.sem.tryAcquire request).2 := tryAcquire_effect
      have settled := conserved.settle (c := c) false (by rw [idle]; decide)
        (fun ⟨_, waits⟩ => absurd waits tryAcquire_settles) effect
      exact ⟨settled.balance, settled.total, settled.running, settled.requests, settled.alive,
        settled.unchanged⟩
  | release request =>
      have total : n.toNat + s.released + request.toNat ≤ intMax := allowed
      refine ⟨?_, ?_, conserved.running, conserved.requests, conserved.alive,
        conserved.unchanged⟩
      · have balance := conserved.balance
        simp only [System.release, QueuedSemaphore.release, permits_wakeIfDue]
        unfold intMax at total
        rw [BitVec.toNat_add, Nat.mod_eq_of_lt (by omega)]
        omega
      · change n.toNat + (s.released + request.toNat) ≤ intMax
        omega
  | wake c budget timed request node sem result waiting _ ran =>
      have small := conserved.requests c timed request node waiting
      exact conserved.settle timed (by rw [waiting]; exact CallPc.noConfusion) (fun _ => small)
        (woken_effect conserved.small small ran)
  | timeout c request node waiting _ =>
      have settled := conserved.settle (c := c) true (by rw [waiting]; exact CallPc.noConfusion)
        (fun _ => conserved.requests c true request node waiting)
        (.keep (s.sem.timedOut node).1 .refused Result.noConfusion Result.noConfusion rfl)
      exact ⟨settled.balance, settled.total, settled.running, settled.requests, settled.alive,
        settled.unchanged⟩

end Conserved

theorem conserved_of_reachable {n : BitVec 32} (nonneg : 0 ≤ n.toInt) {s : System}
    (reachable : (machine n).ReachableUnder (TotalsWithinInt n) s) : Conserved n s := by
  refine reachable.invariant (motive := Conserved n) ?_ ?_
  · exact ⟨rfl, small_of_nonneg nonneg, rfl, fun _ _ _ _ waiting => CallPc.noConfusion waiting,
      fun _ => CallPc.noConfusion, fun _ _ => rfl⟩
  · exact fun _ _ _ _ conserved allowed stepEq =>
      conserved.transition allowed (transition_of_step stepEq)

/-- As long as requests and totals fit in an `int`, the permits are the initial
count plus what was released less what was granted, and are not negative; a
call that returned false has changed nothing, and no call ends in
`std::terminate`. -/
theorem permits_conserved (n : BitVec 32) (nonneg : 0 ≤ n.toInt) {s : System}
    (reachable : (machine n).ReachableUnder (WithinInt n) s) :
    s.sem.permits.toInt =
        n.toInt + s.released - (s.grants.map fun grant => grant.2.toNat).sum ∧
      0 ≤ s.sem.permits.toInt ∧
      (∀ c, s.pc c = .returned false → s.changes c = 0) ∧
      (∀ c, s.pc c ≠ .terminated) ∧ s.aborted = false := by
  have conserved := conserved_of_reachable nonneg (reachable.mono fun _ _ => WithinInt.totals)
  have balance := conserved.balance
  rw [toInt_eq conserved.small, toInt_eq (small_of_nonneg nonneg)]
  refine ⟨by omega, by omega, fun c refused => ?_, conserved.alive, conserved.running⟩
  exact conserved.unchanged c (by rw [refused]; decide)

/-- A waiter is served from a release, another call times out, and a third one
is turned away. -/
theorem permits_conserved_three_calls :
    ∃ s, (machine 1#32).ReachableUnder (WithinInt 1#32) s ∧ s.pc 0 = .returned true ∧
      s.pc 1 = .returned false ∧ s.changes 1 = 0 ∧ s.pc 2 = .returned false ∧
      s.sem.permits.toInt = 1 + 3 - 2 := by
  have run : ((machine 1#32).execUnder (WithinInt 1#32) (initial 1#32)
      [.tryAcquire0 0 false 2 none, .tryAcquire0 1 true 3 none, .tryAcquire 2 2, .release 3,
        .wake 0 none, .timeout 1]).map
          (fun s => ([s.pc 0, s.pc 1, s.pc 2], s.released, s.grants)) =
      some ([.returned true, .returned false, .returned false], 3, [(0, 2)]) := by
    decide +kernel
  obtain ⟨s, runs, observed⟩ := Option.map_eq_some_iff.mp run
  simp only [Prod.mk.injEq, List.cons.injEq] at observed
  obtain ⟨⟨served, late, turnedAway, _⟩, released, grants⟩ := observed
  have reached := Machine.reachableUnder_of_execUnder runs
  obtain ⟨balance, _, unchanged, _⟩ := permits_conserved 1#32 (by decide) reached
  refine ⟨s, reached, served, late, unchanged 1 late, turnedAway, ?_⟩
  rw [balance, released, grants]
  decide

end Conc11.Semaphore
