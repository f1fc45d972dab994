/-
Module: Conc11.SemaphoreGuard.Guards
Purpose: `SemaphoreGuard` over the two semaphores of concurrency/semaphore.h.  At any moment of any run the guards
  that exist hold at most the initial count, and when none exists all permits are back.
Trusted boundary: none
Main exports: queuedSemaphore, simpleSemaphore, SharesPermits, guards_share_permits
-/
import Conc11.SemaphoreGuard.Model
import Conc11.Semaphore.Conservation
import Conc11.SimpleSemaphore.Model

namespace Conc11.SemaphoreGuard

open Library
open Semaphore (Request CallId intMax toNat_sub toInt_eq sle_iff small_of_nonneg)

/-! ## Over a QueuedSemaphore -/

namespace Queued

open Semaphore

/-- The request of a call that waits. -/
def pending (s : Semaphore.System) (c : CallId) : Option Request :=
  match s.pc c with
  | .waiting _ request _ => some request
  | _ => none

def counts : Counts Semaphore.System :=
  { permits := fun s => s.sem.permits
    pending := pending
    acquired := fun s c => s.pc c == .returned true }

/-- `acquire` is the call without a deadline. -/
def use : Semaphore.Action → Use
  | .tryAcquire0 c false request _ => .acquire c request
  | .release request => .release request
  | .wake _ _ => .goOn
  | .tryAcquire0 _ true _ _ | .tryAcquire _ _ | .timeout _ => .other

/-- The count and the requests of the waiting calls are within INT_MAX. -/
structure Small (s : Semaphore.System) : Prop where
  permits : s.sem.permits.toNat ≤ intMax
  requests : ∀ c request, pending s c = some request → request.toNat ≤ intMax

variable {s : Semaphore.System} {c : CallId} {request : Request}

theorem notYet_of_pc {pc : Semaphore.CallPc} (is : s.pc c = pc) (notReturned : pc ≠ .returned true) :
    counts.acquired s c = false := by
  simpa [counts, is] using notReturned

/-- A section of a call changes the count as its result says. -/
theorem settle_change {begun : Option (CallId × Request)} {sem : QueuedSemaphore} {result : Result}
    (timed : Bool) (small : Small s) (notYet : counts.acquired s c = false)
    (asks : begun = some (c, request) ∨ pending s c = some request)
    (requestSmall : request.toNat ≤ intMax) (effect : Effect s.sem request sem result) :
    Small (s.settle c timed request sem result) ∧
      Change counts begun s (s.settle c timed request sem result) := by
  have elsewhere : ∀ d, d ≠ c → (s.settle c timed request sem result).pc d = s.pc d := fun d other =>
    Function.update_of_ne other ..
  have pending_cases : ∀ d asked, pending (s.settle c timed request sem result) d = some asked →
      pending s d = some asked ∨ d = c ∧ asked = request ∧ ∃ node, result = .waiting node := by
    intro d asked now
    by_cases same : d = c
    · subst same
      right
      cases result <;> simp_all [pending, Semaphore.System.settle]
    · left
      rwa [pending, elsewhere d same] at now
  have small' : sem.permits.toNat ≤ intMax →
      Small (s.settle c timed request sem result) := fun left =>
    ⟨left, fun d asked now => by
      rcases pending_cases d asked now with before | ⟨_, rfl, _⟩
      · exact small.requests d asked before
      · exact requestSmall⟩
  cases effect with
  | debit enough permits =>
      have left : sem.permits.toNat ≤ intMax := by
        have count := small.permits
        rw [permits, toNat_sub enough]
        omega
      refine ⟨small' left, .grant c request asks notYet enough permits ?_ fun d asked now => ?_⟩
      · funext d
        by_cases same : d = c
        · subst same
          simp [counts, Semaphore.System.settle]
        · rw [Function.update_of_ne same]
          simp [counts, elsewhere d same]
      · rcases pending_cases d asked now with before | ⟨_, _, node, waits⟩
        · exact before
        · cases waits
  | keep _ notGranted _ permits =>
      refine ⟨small' (permits ▸ small.permits), .keep permits ?_ fun d asked now => ?_⟩
      · funext d
        by_cases same : d = c
        · subst same
          rw [notYet]
          cases result <;> simp_all [counts, Semaphore.System.settle]
        · simp [counts, elsewhere d same]
      · rcases pending_cases d asked now with before | ⟨rfl, rfl, _⟩
        · exact .inl before
        · exact asks.symm

end Queued

/-- `QueuedSemaphore` as the parameter of `SemaphoreGuard`. -/
def queuedSemaphore (n : BitVec 32) (nonneg : 0 ≤ n.toInt) :
    SemType Semaphore.System Semaphore.Action where
  toCounts := Queued.counts
  machine := Semaphore.machine n
  use := Queued.use
  initialPermits := n
  nonneg := nonneg
  inv := Queued.Small
  start := ⟨⟨small_of_nonneg nonneg, fun _ _ => nofun⟩, rfl, fun _ => rfl, fun _ => rfl⟩
  acquires := by
    intro s a s' c request small use requestSmall stepEq
    cases Semaphore.transition_of_step stepEq with
    | tryAcquire0 d timed asked budget sem result idle ran =>
        cases timed with
        | true => cases use
        | false =>
            cases use
            have asks : some (c, request) = some (c, request) ∨
                Queued.pending s c = some request := .inl rfl
            obtain ⟨inv, change⟩ := Queued.settle_change false small
              (Queued.notYet_of_pc idle nofun) asks requestSmall
              (Semaphore.tryAcquire0_effect small.permits requestSmall ran)
            exact ⟨⟨inv.permits, inv.requests⟩, change.congr rfl rfl rfl⟩
    | tryAcquire _ _ _ | release _ | wake _ _ _ _ _ _ _ _ _ _ | timeout _ _ _ _ _ => cases use
  goesOn := by
    intro s a s' small use stepEq
    cases Semaphore.transition_of_step stepEq with
    | wake c budget timed request node sem result waiting _ ran =>
        have asks : Queued.pending s c = some request := by rw [Queued.pending, waiting]
        have requestSmall := small.requests c request asks
        exact Queued.settle_change timed small (Queued.notYet_of_pc waiting nofun) (.inr asks)
          requestSmall (Semaphore.woken_effect small.permits requestSmall ran)
    | tryAcquire0 _ timed _ _ _ _ _ _ => cases timed <;> cases use
    | tryAcquire _ _ _ | release _ | timeout _ _ _ _ _ => cases use
  releases := by
    intro s a s' request small use room stepEq
    cases Semaphore.transition_of_step stepEq with
    | release _ =>
        cases use
        have permits : (s.release request).sem.permits = s.sem.permits + request :=
          Semaphore.permits_wakeIfDue
        refine ⟨⟨?_, small.requests⟩, permits, rfl, fun _ _ now => now⟩
        change s.sem.permits.toNat + _ ≤ intMax at room
        unfold intMax at room ⊢
        rw [permits, BitVec.toNat_add, Nat.mod_eq_of_lt (by omega)]
        exact room
    | tryAcquire0 _ timed _ _ _ _ _ _ => cases timed <;> cases use
    | tryAcquire _ _ _ | wake _ _ _ _ _ _ _ _ _ _ | timeout _ _ _ _ _ => cases use

/-! ## Over a SimpleSemaphore -/

namespace Simple

open SimpleSemaphore

def pending (s : SimpleSemaphore.System) (c : CallId) : Option Request :=
  match s.pc c with
  | .waiting _ request _ => some request
  | _ => none

def counts : Counts SimpleSemaphore.System :=
  { permits := fun s => s.count
    pending := pending
    acquired := fun s c => s.pc c == .returned true }

def use : SimpleSemaphore.Action → Use
  | .acquire c request => .acquire c request
  | .release _ request => .release request
  | .notifyAll _ | .unblock _ | .resume _ _ => .goOn
  | .tryAcquire _ _ | .tryAcquireFor _ _ | .tryAcquireUntil _ _ => .other

structure Small (s : SimpleSemaphore.System) : Prop where
  permits : s.count.toNat ≤ intMax
  requests : ∀ c request, pending s c = some request → request.toNat ≤ intMax

variable {s : SimpleSemaphore.System} {c : CallId} {request : Request}

theorem notYet_of_pc {pc : SimpleSemaphore.CallPc} (is : s.pc c = pc)
    (notReturned : pc ≠ .returned true) : counts.acquired s c = false := by
  simpa [counts, is] using notReturned

theorem pending_update {now : SimpleSemaphore.CallPc} {d : CallId} {asked : Request}
    (waits : (match Function.update s.pc c now d with
      | .waiting _ request _ => some request
      | _ => none) = some asked) :
    pending s d = some asked ∨ d = c ∧ ∃ timed status, now = .waiting timed asked status := by
  by_cases same : d = c
  · subst same
    right
    rw [Function.update_self] at waits
    cases now <;> simp_all
  · left
    rwa [Function.update_of_ne same] at waits

theorem acquired_update (now : SimpleSemaphore.CallPc) (notYet : counts.acquired s c = false)
    (d : CallId) : (Function.update s.pc c now d == .returned true) =
      Function.update (counts.acquired s) c (now == .returned true) d := by
  by_cases same : d = c
  · subst same
    simp
  · simp [Function.update_of_ne same, counts]

/-- A call moves without permits. -/
theorem goto_change {begun : Option (CallId × Request)} {now : SimpleSemaphore.CallPc}
    (small : Small s) (notYet : counts.acquired s c = false) (notReturned : now ≠ .returned true)
    (waits : ∀ timed asked status, now = .waiting timed asked status →
      asked.toNat ≤ intMax ∧ (begun = some (c, asked) ∨ pending s c = some asked)) :
    Small (s.goto c now) ∧ Change counts begun s (s.goto c now) := by
  refine ⟨⟨small.permits, fun d asked is => ?_⟩, .keep rfl ?_ fun d asked is => ?_⟩
  · rcases pending_update is with before | ⟨rfl, timed, status, waiting⟩
    · exact small.requests d asked before
    · exact (waits timed asked status waiting).1
  · funext d
    have notNow : (now == .returned true) = false := by simpa using notReturned
    refine (acquired_update _ notYet d).trans ?_
    rw [notNow, ← notYet, Function.update_eq_self]
  · rcases pending_update is with before | ⟨rfl, timed, status, waiting⟩
    · exact .inl before
    · exact (waits timed asked status waiting).2.symm

/-- The waiting loop of `acquire`, from one test to the next. -/
theorem loopTest_change {begun : Option (CallId × Request)} (timed : Bool) (small : Small s)
    (notYet : counts.acquired s c = false)
    (asks : begun = some (c, request) ∨ pending s c = some request)
    (requestSmall : request.toNat ≤ intMax) :
    Small (loopTest s c timed request) ∧ Change counts begun s (loopTest s c timed request) := by
  unfold loopTest
  split
  next =>
    refine goto_change small notYet nofun fun timed' asked status waiting => ?_
    cases waiting
    exact ⟨requestSmall, asks⟩
  next fits =>
    have enough : request.toNat ≤ s.count.toNat := by
      rw [← sle_iff requestSmall small.permits, BitVec.sle_eq_not_slt]
      simpa using fits
    have left : (s.count - request).toNat ≤ intMax := by
      have count := small.permits
      rw [toNat_sub enough]
      omega
    have pending_before : ∀ d asked, pending (s.grant c request) d = some asked →
        pending s d = some asked := by
      intro d asked is
      rcases pending_update is with before | ⟨_, _, _, waiting⟩
      · exact before
      · cases waiting
    refine ⟨⟨left, fun d asked is => small.requests d asked (pending_before d asked is)⟩,
      .grant c request asks notYet enough rfl ?_ pending_before⟩
    funext d
    exact acquired_update _ notYet d

/-- A broadcast moves nobody in or out of `acquire`. -/
theorem notifyAll_change {begun : Option (CallId × Request)} (small : Small s)
    (sending : s.pc c = .notifying) :
    Small (notifyAll s c) ∧ Change counts begun s (notifyAll s c) := by
  have seen : ∀ d, pending (notifyAll s c) d = pending s d ∧
      counts.acquired (notifyAll s c) d = counts.acquired s d := by
    intro d
    by_cases same : d = c
    · subst same
      simp [pending, counts, notifyAll, sending]
    · simp only [pending, counts, notifyAll, Function.update_of_ne same]
      cases s.pc d with
      | waiting timed request status => cases status <;> exact ⟨rfl, rfl⟩
      | _ => exact ⟨rfl, rfl⟩
  refine ⟨⟨small.permits, fun d asked is => ?_⟩, .keep rfl (funext fun d => (seen d).2)
    fun d asked is => ?_⟩
  · exact small.requests d asked ((seen d).1.symm.trans is)
  · exact .inl ((seen d).1.symm.trans is)

end Simple

/-- `SimpleSemaphore` as the parameter of `SemaphoreGuard`. -/
def simpleSemaphore (n : BitVec 32) (nonneg : 0 ≤ n.toInt) :
    SemType SimpleSemaphore.System SimpleSemaphore.Action where
  toCounts := Simple.counts
  machine := SimpleSemaphore.machine n
  use := Simple.use
  initialPermits := n
  nonneg := nonneg
  inv := Simple.Small
  start := ⟨⟨small_of_nonneg nonneg, fun _ _ => nofun⟩, rfl, fun _ => rfl, fun _ => rfl⟩
  acquires := by
    intro s a s' c request small use requestSmall stepEq
    cases SimpleSemaphore.transition_of_step stepEq with
    | acquire d asked idle =>
        cases use
        exact Simple.loopTest_change false small (Simple.notYet_of_pc idle nofun) (.inl rfl)
          requestSmall
    | tryAcquire _ _ _ | tryAcquireFor _ _ _ | tryAcquireUntil _ _ _ | release _ _ _
    | notifyAll _ _ | unblock _ _ _ _ | resume _ _ _ _ _ _ _ _ => cases use
  goesOn := by
    intro s a s' small use stepEq
    cases SimpleSemaphore.transition_of_step stepEq with
    | notifyAll c sending => exact Simple.notifyAll_change small sending
    | unblock c timed request waiting =>
        have asks : Simple.pending s c = some request := by rw [Simple.pending, waiting]
        refine Simple.goto_change small (Simple.notYet_of_pc waiting nofun) nofun
          fun timed' asked status is => ?_
        cases is
        exact ⟨small.requests c request asks, .inr asks⟩
    | resume c timed request status expired waiting _ _ =>
        have asks : Simple.pending s c = some request := by rw [Simple.pending, waiting]
        have notYet := Simple.notYet_of_pc waiting nofun
        cases expired with
        | true => exact Simple.goto_change small notYet nofun nofun
        | false =>
            exact Simple.loopTest_change timed small notYet (.inr asks)
              (small.requests c request asks)
    | acquire _ _ _ | tryAcquire _ _ _ | tryAcquireFor _ _ _ | tryAcquireUntil _ _ _
    | release _ _ _ => cases use
  releases := by
    intro s a s' request small use room stepEq
    cases SimpleSemaphore.transition_of_step stepEq with
    | release c asked idle =>
        cases use
        have pending_before : ∀ d asked,
            Simple.pending (SimpleSemaphore.release s c request) d = some asked →
              Simple.pending s d = some asked := by
          intro d asked is
          rcases Simple.pending_update is with before | ⟨_, _, _, waiting⟩
          · exact before
          · cases waiting
        refine ⟨⟨?_, fun d asked is => small.requests d asked (pending_before d asked is)⟩, rfl,
          ?_, pending_before⟩
        · change s.count.toNat + _ ≤ intMax at room
          unfold intMax at room ⊢
          change (s.count + request).toNat ≤ _
          rw [BitVec.toNat_add, Nat.mod_eq_of_lt (by omega)]
          exact room
        · funext d
          have notYet := Simple.notYet_of_pc (c := c) idle nofun
          refine (Simple.acquired_update .notifying notYet d).trans ?_
          have notNow : (SimpleSemaphore.CallPc.notifying == .returned true) = false := rfl
          rw [notNow, ← notYet, Function.update_eq_self]
    | acquire _ _ _ | tryAcquire _ _ _ | tryAcquireFor _ _ _ | tryAcquireUntil _ _ _
    | notifyAll _ _ | unblock _ _ _ _ | resume _ _ _ _ _ _ _ _ => cases use

/-! ## Runs -/

/-- What the guards and the semaphore have is the initial count. -/
structure SharesPermits {σ α : Type} (S : SemType σ α) (s : System σ) : Prop where
  balance : (S.permits s.sem).toInt = S.initialPermits.toInt - s.held S
  nonneg : 0 ≤ (S.permits s.sem).toInt
  /-- Guards that exist together ask for no more than there is. -/
  together : ∀ g h r q, g ≠ h → (g, r) ∈ s.guards → (h, q) ∈ s.guards → s.Live S g → s.Live S h →
    r.toNat + q.toNat ≤ S.initialPermits.toNat
  returned : (∀ g, ¬ s.Live S g) → S.permits s.sem = S.initialPermits

theorem Shared.sharesPermits {σ α : Type} {S : SemType σ α} {s : System σ} (shared : Shared S s) :
    SharesPermits S s := by
  have balance := shared.balance
  have small := small_of_nonneg S.nonneg
  have left : (S.permits s.sem).toNat ≤ intMax := by omega
  refine ⟨?_, ?_, fun g h r q ne guardG guardH liveG liveH =>
    shared.two_le ne guardG guardH liveG liveH, fun nobody => ?_⟩
  · rw [toInt_eq left, toInt_eq small]
    omega
  · rw [toInt_eq left]
    omega
  · have nothing : s.held S = 0 := by
      refine List.sum_eq_zero fun weight member => ?_
      obtain ⟨guard, _, rfl⟩ := List.mem_map.mp member
      exact if_neg (nobody guard.1)
    apply BitVec.eq_of_toNat_eq
    omega

/-- However often guards are constructed and destroyed, those that exist hold the
initial count less what the semaphore has left, a constructor that waits or
has thrown holds nothing, and when no guard exists every permit is back. -/
theorem guards_share_permits (n : BitVec 32) (nonneg : 0 ≤ n.toInt) :
    (∀ s, (machine (queuedSemaphore n nonneg)).ReachableUnder
      (SmallRequests (queuedSemaphore n nonneg)) s → SharesPermits (queuedSemaphore n nonneg) s) ∧
    (∀ s, (machine (simpleSemaphore n nonneg)).ReachableUnder
      (SmallRequests (simpleSemaphore n nonneg)) s → SharesPermits (simpleSemaphore n nonneg) s) :=
  ⟨fun _ reachable => (shared_of_reachable reachable).sharesPermits,
    fun _ reachable => (shared_of_reachable reachable).sharesPermits⟩

/-- A second guard waits for the first one to be destroyed and then has the permit. -/
theorem guards_share_permits_handover :
    ∃ s, (machine (queuedSemaphore 1#32 (by decide))).Reachable s ∧ s.destroyed = [0] ∧
      s.Live (queuedSemaphore 1#32 (by decide)) 1 ∧
      s.sem.sem.permits.toInt = 1 - s.held (queuedSemaphore 1#32 (by decide)) := by
  have run : ((machine (queuedSemaphore 1#32 (by decide))).execUnder
      (SmallRequests (queuedSemaphore 1#32 (by decide)))
      (machine (queuedSemaphore 1#32 (by decide))).initial
      [.construct (.tryAcquire0 0 false 1 none), .construct (.tryAcquire0 1 false 1 none),
        .destroy 0 (.release 1), .goOn (.wake 1 none)]).map
      (fun s => (s.destroyed, decide (s.Live (queuedSemaphore 1#32 (by decide)) 1))) =
      some ([0], true) := by
    decide +kernel
  obtain ⟨s, runs, observed⟩ := Option.map_eq_some_iff.mp run
  obtain ⟨destroyed, live⟩ := Prod.mk.inj observed
  have reached := Machine.reachableUnder_of_execUnder runs
  obtain ⟨queued, _⟩ := guards_share_permits 1#32 (by decide)
  exact ⟨s, reached.reachable, destroyed, of_decide_eq_true live, (queued s reached).balance⟩

end Conc11.SemaphoreGuard
