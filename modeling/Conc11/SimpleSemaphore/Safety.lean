/-
Module: Conc11.SimpleSemaphore.Safety
Purpose: `SimpleSemaphore` conserves permits and forgets no sleeper: a call that is asleep although the
  permits suffice for it is about to be notified by a release that has not finished.
Trusted boundary: none
Main exports: WithinInt, Wants, Safe, safe_of_reachable, safe_and_signalled
-/
import Mathlib.Algebra.BigOperators.Group.List.Basic
import Conc11.Library.Broadcast
import Conc11.SimpleSemaphore.Model

namespace Conc11.SimpleSemaphore

open Library
open Semaphore (Request CallId intMax toInt_eq sle_iff toNat_sub small_of_nonneg)

/-- Requests and the total of all permits stay within `int`. -/
def WithinInt (initialPermits : BitVec 32) (s : System) : Action → Prop
  | .acquire _ request | .tryAcquire _ request | .tryAcquireFor _ request =>
      request.toNat ≤ intMax
  | .release _ request => initialPermits.toNat + s.released + request.toNat ≤ intMax
  | .tryAcquireUntil _ _ | .notifyAll _ | .unblock _ | .resume _ _ => True

instance (initialPermits : BitVec 32) (s : System) :
    (a : Action) → Decidable (WithinInt initialPermits s a)
  | .acquire _ request | .tryAcquire _ request | .tryAcquireFor _ request =>
      inferInstanceAs (Decidable (request.toNat ≤ intMax))
  | .release _ request =>
      inferInstanceAs (Decidable (initialPermits.toNat + s.released + request.toNat ≤ intMax))
  | .tryAcquireUntil _ _ | .notifyAll _ | .unblock _ | .resume _ _ => .isTrue trivial

/-! ## The invariant -/

/-- The permits suffice for a waiting call. -/
def Wants (count : BitVec 32) : CallPc → Prop
  | .waiting _ request _ => request.sle count = true
  | _ => False

/-- The count is what came in less what went out, and whoever is asleep
although the permits suffice is going to be notified. -/
structure Safe (initialPermits : BitVec 32) (s : System) : Prop where
  balance : s.count.toNat + (s.grants.map fun grant => grant.2.toNat).sum =
    initialPermits.toNat + s.released
  total : initialPermits.toNat + s.released ≤ intMax
  requests : ∀ c timed request status, s.pc c = .waiting timed request status →
    request.toNat ≤ intMax
  signalled : Attended CallPc.isBlocked CallPc.isNotifying (Wants s.count) s.pc

namespace Safe

variable {n : BitVec 32} {s s' : System} {c : CallId} {request : Request}

theorem small (safe : Safe n s) : s.count.toNat ≤ intMax := by
  have balance := safe.balance
  have total := safe.total
  omega

/-- The requests after a call has moved. -/
theorem requests_update (safe : Safe n s) {now : CallPc}
    (waits : ∀ timed request status, now = .waiting timed request status →
      request.toNat ≤ intMax) :
    ∀ d timed request status, Function.update s.pc c now d = .waiting timed request status →
      request.toNat ≤ intMax := by
  intro d timed request status waiting
  by_cases same : d = c
  · rw [same, Function.update_self] at waiting
    exact waits timed request status waiting
  · rw [Function.update_of_ne same] at waiting
    exact safe.requests d timed request status waiting

/-- A call moves and leaves the permits alone. -/
theorem goto (safe : Safe n s) {now : CallPc} (notSending : (s.pc c).isNotifying = false)
    (waits : ∀ timed request status, now = .waiting timed request status →
      request.toNat ≤ intMax)
    (itself : now.isBlocked = true → ¬ Wants s.count now) : Safe n (s.goto c now) := by
  refine ⟨safe.balance, safe.total, safe.requests_update waits, ?_⟩
  apply safe.signalled.move (fun _ _ _ wanted => wanted) itself
  intro sending
  rw [notSending] at sending
  cases sending

/-- A granted request leaves fewer permits for the others. -/
theorem grant (safe : Safe n s) (notSending : (s.pc c).isNotifying = false)
    (enough : request.toNat ≤ s.count.toNat) : Safe n (s.grant c request) := by
  have left : (s.count - request).toNat = s.count.toNat - request.toNat := toNat_sub enough
  have small := safe.small
  refine ⟨?_, safe.total, safe.requests_update fun _ _ _ waiting => ?_, ?_⟩
  · have balance := safe.balance
    simp only [System.grant, List.map_append, List.map_cons, List.map_nil, List.sum_append,
      List.sum_cons, List.sum_nil, left]
    omega
  · cases waiting
  · apply safe.signalled.move
    · intro d _ sleeps wanted
      cases pc : s.pc d with
      | waiting timed asked status =>
          have askedSmall := safe.requests d timed asked status pc
          rw [pc] at wanted
          have fits : asked.sle (s.count - request) = true := wanted
          rw [sle_iff askedSmall (by omega)] at fits
          change asked.sle s.count = true
          rw [sle_iff askedSmall small]
          omega
      | _ =>
          rw [pc] at sleeps
          cases sleeps
    · intro sleeps
      cases sleeps
    · intro sending
      rw [notSending] at sending
      cases sending

theorem loopTest (safe : Safe n s) (timed : Bool) (notSending : (s.pc c).isNotifying = false)
    (requestSmall : request.toNat ≤ intMax) : Safe n (loopTest s c timed request) := by
  unfold SimpleSemaphore.loopTest
  split
  next short =>
    apply safe.goto notSending
    · intro timed' request' status waiting
      cases waiting
      exact requestSmall
    · intro _ wanted
      have fits : request.sle s.count = true := wanted
      rw [BitVec.sle_eq_not_slt, short] at fits
      cases fits
  next enough =>
    apply safe.grant notSending
    rw [← sle_iff requestSmall safe.small, BitVec.sle_eq_not_slt]
    simpa using enough

theorem release (safe : Safe n s)
    (total : n.toNat + s.released + request.toNat ≤ intMax) : Safe n (release s c request) := by
  have balance := safe.balance
  refine ⟨?_, ?_, safe.requests_update fun _ _ _ waiting => ?_, .announce rfl⟩
  · unfold intMax at total
    have credited : (s.count + request).toNat = s.count.toNat + request.toNat := by
      rw [BitVec.toNat_add, Nat.mod_eq_of_lt (by omega)]
    simp only [SimpleSemaphore.release, credited]
    omega
  · simp only [SimpleSemaphore.release]
    omega
  · cases waiting

theorem notifyAll (safe : Safe n s) : Safe n (notifyAll s c) := by
  have woken : ∀ pc : CallPc, pc.notified.isBlocked = false := by
    intro pc
    cases pc with
    | waiting timed request status => cases status <;> rfl
    | _ => rfl
  refine ⟨safe.balance, safe.total, fun d timed request status waiting => ?_,
    .broadcast woken rfl⟩
  by_cases same : d = c
  · simp [SimpleSemaphore.notifyAll, same] at waiting
  · simp only [SimpleSemaphore.notifyAll, Function.update_of_ne same] at waiting
    cases pc : s.pc d with
    | waiting timed' request' status' =>
        have small := safe.requests d timed' request' status' pc
        rw [pc] at waiting
        cases status' <;> cases waiting <;> exact small
    | _ =>
        rw [pc] at waiting
        cases waiting

theorem transition {a : Action} (safe : Safe n s) (allowed : WithinInt n s a)
    (moved : Transition s a s') : Safe n s' := by
  cases moved with
  | acquire c request idle => exact safe.loopTest false (by rw [idle]; rfl) allowed
  | tryAcquire c request idle =>
      have notSending : (s.pc c).isNotifying = false := by rw [idle]; rfl
      unfold tryAcquire
      split
      next fits => exact safe.grant notSending ((sle_iff allowed safe.small).mp fits)
      next => exact safe.goto notSending (fun _ _ _ => nofun) nofun
  | tryAcquireFor c request idle => exact safe.loopTest true (by rw [idle]; rfl) allowed
  | tryAcquireUntil c request idle => exact safe.loopTest true (by rw [idle]; rfl) (by decide)
  | release c request idle => exact safe.release allowed
  | notifyAll c sending => exact safe.notifyAll
  | unblock c timed request waiting =>
      apply safe.goto (by rw [waiting]; rfl)
      · intro timed' request' status awake
        cases awake
        exact safe.requests c timed request .blocked waiting
      · intro sleeps
        cases sleeps
  | resume c timed request status expired waiting unblocked deadline =>
      have notSending : (s.pc c).isNotifying = false := by rw [waiting]; rfl
      cases expired with
      | false => exact safe.loopTest timed notSending (safe.requests c timed request status waiting)
      | true => exact safe.goto notSending (fun _ _ _ => nofun) nofun

end Safe

/-! ## Runs -/

theorem safe_of_reachable {n : BitVec 32} (nonneg : 0 ≤ n.toInt) {s : System}
    (reachable : (machine n).ReachableUnder (WithinInt n) s) : Safe n s := by
  refine reachable.invariant (motive := Safe n) ?_ ?_
  · refine ⟨rfl, small_of_nonneg nonneg, fun _ _ _ _ waiting => ?_, fun _ sleeps => ?_⟩
    · cases waiting
    · cases sleeps
  · exact fun _ _ _ _ safe allowed stepEq => safe.transition allowed (transition_of_step stepEq)

/-- As long as requests and totals fit in an `int`, the count is the initial
count plus what was released less what was granted and not negative, and a
call that is asleep although the permits suffice for it is about to be
notified by a release. -/
theorem safe_and_signalled (n : BitVec 32) (nonneg : 0 ≤ n.toInt) {s : System}
    (reachable : (machine n).ReachableUnder (WithinInt n) s) :
    s.count.toInt = n.toInt + s.released - (s.grants.map fun grant => grant.2.toNat).sum ∧
      0 ≤ s.count.toInt ∧
      ∀ c timed request, s.pc c = .waiting timed request .blocked →
        request.sle s.count = true → ∃ d, s.pc d = .notifying := by
  have safe := safe_of_reachable nonneg reachable
  have balance := safe.balance
  rw [toInt_eq safe.small, toInt_eq (small_of_nonneg nonneg)]
  refine ⟨by omega, by omega, fun c timed request waiting fits => ?_⟩
  obtain ⟨d, sending⟩ := safe.signalled c (by rw [waiting]; rfl) (by rw [waiting]; exact fits)
  refine ⟨d, ?_⟩
  cases pc : s.pc d with
  | notifying => rfl
  | _ =>
      rw [pc] at sending
      cases sending

/-- Two calls sleep; a release has brought permits for one of them and has not
notified yet. -/
theorem safe_and_signalled_two_calls :
    ∃ s, (machine 1#32).ReachableUnder (WithinInt 1#32) s ∧
      s.pc 1 = .waiting true 2 .blocked ∧ s.count.toInt = 2 ∧ ∃ d, s.pc d = .notifying := by
  have run : ((machine 1#32).execUnder (WithinInt 1#32) (initial 1#32)
      [.acquire 0 3, .tryAcquireFor 1 2, .tryAcquire 2 1, .release 3 2]).map
        (fun s => (s.pc 1, s.count, s.released, s.grants)) =
      some (.waiting true 2 .blocked, 2, 2, [(2, 1)]) := by
    decide +kernel
  obtain ⟨s, runs, observed⟩ := Option.map_eq_some_iff.mp run
  simp only [Prod.mk.injEq] at observed
  obtain ⟨waiting, count, released, grants⟩ := observed
  have reached := Machine.reachableUnder_of_execUnder runs
  obtain ⟨balance, _, signalled⟩ := safe_and_signalled 1#32 (by decide) reached
  refine ⟨s, reached, waiting, ?_, signalled 1 true 2 waiting (by rw [count]; decide)⟩
  rw [balance, released, grants]
  decide

end Conc11.SimpleSemaphore
