/-
Module: Conc11.SimpleSemaphore.Adapter
Purpose: What `try_acquire_for` and `try_acquire_until` of `SimpleSemaphore` withdraw, whatever other calls do
  while they wait, and the balance of `SemaphoreTimedLockableAdapter` over its four ways to acquire.
Trusted boundary: human-reviewed model of the adapter
Main exports: Withdrawal, WithdrawsAsAsked, tryAcquireFor_withdraws, tryAcquireUntil_withdraws_iff,
  SemaphoreTimedLockableAdapter, Path, Session, Session.balance_iff, until_balance
-/
import Conc11.Library.Sequential
import Conc11.SimpleSemaphore.Model

namespace Conc11.SimpleSemaphore

open Library
open Semaphore (Request CallId intMax)

/-! ## The steps of one call -/

/-- The call that a label starts or continues. -/
def Action.call : Action → CallId
  | .acquire c _ | .tryAcquire c _ | .tryAcquireFor c _ | .tryAcquireUntil c _ | .release c _
  | .notifyAll c | .unblock c | .resume c _ => c

/-- The label is a further step of a call that has started. -/
def Action.isFurther : Action → Bool
  | .notifyAll _ | .unblock _ | .resume _ _ => true
  | _ => false

/-- The call waits for `permits` or has returned. -/
def Asks (permits : Request) : CallPc → Prop
  | .waiting _ request _ => request = permits
  | .returned _ => True
  | _ => False

/-- A step of call `c` withdraws `permits` if the call succeeds with it, and
nothing otherwise. -/
structure Taken (c : CallId) (permits : Request) (s s' : System) : Prop where
  asks : Asks permits (s'.pc c)
  success : s'.pc c = .returned true →
    permits.sle s.count = true ∧ s'.count = s.count - permits
  otherwise : s'.pc c ≠ .returned true → s'.count = s.count

section Steps

variable {s s' : System} {c : CallId} {permits request : Request} {a : Action}

theorem goto_pc (pc : CallPc) : (s.goto c pc).pc c = pc := Function.update_self ..

theorem Taken.goto {pc : CallPc} (asks : Asks permits pc) (notSuccess : pc ≠ .returned true) :
    Taken c permits s (s.goto c pc) := by
  refine ⟨by rwa [goto_pc], fun success => ?_, fun _ => rfl⟩
  rw [goto_pc] at success
  exact absurd success notSuccess

theorem Taken.grant (enough : permits.sle s.count = true) :
    Taken c permits s (s.grant c permits) := by
  have returned : (s.grant c permits).pc c = .returned true := Function.update_self ..
  refine ⟨by rw [returned]; exact trivial, fun _ => ⟨enough, rfl⟩, fun other => ?_⟩
  exact absurd returned other

theorem loopTest_taken (timed : Bool) : Taken c permits s (loopTest s c timed permits) := by
  unfold loopTest
  split
  next => exact .goto rfl CallPc.noConfusion
  next notShort =>
    apply Taken.grant
    rw [BitVec.sle_eq_not_slt]
    simpa using notShort

theorem tryAcquire_taken : Taken c permits s (tryAcquire s c permits) := by
  unfold tryAcquire
  split
  next enough => exact .grant enough
  next => exact .goto trivial (by simp)

theorem Asks.notified {pc : CallPc} (asks : Asks permits pc) : Asks permits pc.notified := by
  cases pc with
  | waiting timed request status => cases status <;> exact asks
  | _ => exact asks

/-- A step of another call at most notifies this one. -/
theorem pc_of_other (moved : Transition s a s') (other : c ≠ a.call) :
    s'.pc c = s.pc c ∨ s'.pc c = (s.pc c).notified := by
  cases moved with
  | acquire d request idle =>
      rw [acquire, loopTest]
      split <;> exact .inl (Function.update_of_ne other ..)
  | tryAcquire d request idle =>
      rw [tryAcquire]
      split <;> exact .inl (Function.update_of_ne other ..)
  | tryAcquireFor d request idle =>
      rw [tryAcquireFor, tryAcquire0, loopTest]
      split <;> exact .inl (Function.update_of_ne other ..)
  | tryAcquireUntil d request idle =>
      rw [tryAcquireUntil, tryAcquire0, loopTest]
      split <;> exact .inl (Function.update_of_ne other ..)
  | release d request idle => exact .inl (Function.update_of_ne other ..)
  | notifyAll d sending =>
      exact .inr (Function.update_of_ne other _ fun u => (s.pc u).notified)
  | unblock d timed request waiting => exact .inl (Function.update_of_ne other ..)
  | resume d timed request status expired waiting unblocked deadline =>
      rw [resume, loopTest]
      split
      next => exact .inl (Function.update_of_ne other ..)
      next => split <;> exact .inl (Function.update_of_ne other ..)

/-- A further step of the call itself withdraws what it asks for. -/
theorem taken_of_own (asks : Asks permits (s.pc c)) (moved : Transition s a s')
    (own : a.call = c) : Taken c permits s s' := by
  cases moved with
  | acquire d request idle | tryAcquire d request idle | tryAcquireFor d request idle
  | tryAcquireUntil d request idle | release d request idle =>
      obtain rfl : d = c := own
      rw [idle] at asks
      cases asks
  | notifyAll d sending =>
      obtain rfl : d = c := own
      rw [sending] at asks
      cases asks
  | unblock d timed request waiting =>
      obtain rfl : d = c := own
      rw [waiting] at asks
      obtain rfl : request = permits := asks
      exact .goto rfl CallPc.noConfusion
  | resume d timed request status expired waiting unblocked deadline =>
      obtain rfl : d = c := own
      rw [waiting] at asks
      obtain rfl : request = permits := asks
      cases expired with
      | true => exact .goto trivial (by simp)
      | false => exact loopTest_taken timed

theorem asks_of_step (asks : Asks permits (s.pc c)) (moved : Transition s a s') :
    Asks permits (s'.pc c) := by
  by_cases own : a.call = c
  · exact (taken_of_own asks moved own).asks
  · rcases pc_of_other moved (Ne.symm own) with same | woken
    · rwa [same]
    · rw [woken]
      exact asks.notified

theorem asks_of_later {n : BitVec 32} {ok : System → Action → Prop}
    (asks : Asks permits (s.pc c)) (later : (machine n).LaterUnder ok s s') :
    Asks permits (s'.pc c) := by
  induction later with
  | refl => exact asks
  | tail _ step ih =>
      obtain ⟨a, _, stepEq⟩ := step
      exact asks_of_step ih (transition_of_step stepEq)

end Steps

/-! ## What a timed call withdraws -/

/-- A step of call `c` that returns success found at least `request` permits
and takes as many; any other step leaves the count. -/
structure Withdrawal (c : CallId) (request : Request) (s s' : System) : Prop where
  success : s'.pc c = .returned true →
    (request.toNat : Int) ≤ s.count.toInt ∧ s'.count.toInt = s.count.toInt - request.toNat
  otherwise : s'.pc c ≠ .returned true → s'.count = s.count

/-- In every run a call that `start` makes for `request` permits withdraws them
or nothing, in its first step and in each further one. -/
def WithdrawsAsAsked (n : BitVec 32) (start : CallId → Request → Action) (request : Request) : Prop :=
  ∀ s c s₁, (machine n).Reachable s → step s (start c request) = some s₁ →
    Withdrawal c request s s₁ ∧
      ∀ s₂ a s₃, (machine n).LaterUnder Machine.anyStep s₁ s₂ → a.call = c →
        step s₂ a = some s₃ → Withdrawal c request s₂ s₃

section Withdrawals

variable {n : BitVec 32} {s s' : System} {c : CallId} {request : Request}

theorem toInt_sub_of_sle {a b : BitVec 32} (small : a.toNat ≤ intMax) (fits : a.sle b = true) :
    (a.toNat : Int) ≤ b.toInt ∧ (b - a).toInt = b.toInt - a.toNat := by
  have value := Semaphore.toInt_eq small
  rw [BitVec.sle, decide_eq_true_iff, value] at fits
  refine ⟨fits, ?_⟩
  rw [BitVec.toInt_sub, value]
  have below := @BitVec.toInt_lt 32 b
  have range : Int.bmod (b.toInt - a.toNat) (2 ^ 32) = b.toInt - a.toNat := by
    apply Int.bmod_eq_of_le <;> omega
  exact range

theorem Taken.withdrawal (small : request.toNat ≤ intMax) (taken : Taken c request s s') :
    Withdrawal c request s s' := by
  refine ⟨fun success => ?_, taken.otherwise⟩
  obtain ⟨fits, count⟩ := taken.success success
  rw [count]
  exact toInt_sub_of_sle small fits

/-- A call whose loop asks for the requested permits withdraws as asked. -/
theorem withdraws_of_loop {start : CallId → Request → Action} (small : request.toNat ≤ intMax)
    (loops : ∀ s c s₁, step s (start c request) = some s₁ → s₁ = tryAcquire0 s c request) :
    WithdrawsAsAsked n start request := by
  intro s c s₁ _ stepEq
  obtain rfl := loops s c s₁ stepEq
  have first : Taken c request s (tryAcquire0 s c request) := loopTest_taken true
  refine ⟨first.withdrawal small, fun s₂ a s₃ later own stepEq₂ => ?_⟩
  exact (taken_of_own (asks_of_later first.asks later) (transition_of_step stepEq₂) own).withdrawal
    small

theorem tryAcquireFor_withdraws (small : request.toNat ≤ intMax) :
    WithdrawsAsAsked n .tryAcquireFor request := by
  refine withdraws_of_loop small fun s c s₁ stepEq => ?_
  exact (Option.some.inj (Option.ite_none_right_eq_some.mp stepEq).2).symm

/-- `try_acquire_until` takes one permit when there is one, for whatever request. -/
theorem tryAcquireUntil_takes_one (idle : s.pc c = .idle) (positive : 1 ≤ s.count.toInt) :
    ∃ s₁, step s (.tryAcquireUntil c request) = some s₁ ∧ s₁.pc c = .returned true ∧
      s₁.count.toInt = s.count.toInt - 1 := by
  have enough : (1#32).sle s.count = true := by
    rw [BitVec.sle, decide_eq_true_iff]
    exact positive
  have notShort : s.count.slt 1#32 = false := by
    rw [BitVec.sle_eq_not_slt] at enough
    simpa using enough
  refine ⟨s.grant c 1#32, ?_, Function.update_self .., (toInt_sub_of_sle (by decide) enough).2⟩
  rw [step, if_pos idle, tryAcquireUntil, tryAcquire0, loopTest, notShort,
    if_neg Bool.false_ne_true]

/-- A reachable state with a permit in which call 0 has not been made. -/
theorem exists_permit (nonneg : 0 ≤ n.toInt) :
    ∃ s, (machine n).Reachable s ∧ s.pc 0 = .idle ∧ 1 ≤ s.count.toInt := by
  by_cases positive : 1 ≤ n.toInt
  · exact ⟨initial n, .initial, rfl, positive⟩
  · have zero : n = 0#32 := BitVec.eq_of_toInt_eq (by rw [BitVec.toInt_zero]; omega)
    have idle : (initial n).pc 1 = .idle := rfl
    have stepEq : step (initial n) (.release 1 1#32) = some (release (initial n) 1 1#32) := by
      rw [step, if_pos idle]
    refine ⟨_, .step (a := Action.release 1 1#32) .initial trivial stepEq, rfl, ?_⟩
    rw [zero]
    decide

/-- `try_acquire_until` withdraws as asked only for one permit. -/
theorem tryAcquireUntil_withdraws_iff (nonneg : 0 ≤ n.toInt) :
    WithdrawsAsAsked n .tryAcquireUntil request ↔ request = 1#32 := by
  constructor
  · intro withdraws
    obtain ⟨s, reachable, idle, positive⟩ := exists_permit nonneg
    obtain ⟨s₁, stepEq, returned, count⟩ : ∃ s₁,
        step s (.tryAcquireUntil 0 request) = some s₁ ∧ s₁.pc 0 = .returned true ∧
          s₁.count.toInt = s.count.toInt - 1 := tryAcquireUntil_takes_one idle positive
    obtain ⟨_, asked⟩ := (withdraws s 0 s₁ reachable stepEq).1.success returned
    apply BitVec.eq_of_toNat_eq
    have one : (1#32).toNat = 1 := rfl
    omega
  · rintro rfl
    refine withdraws_of_loop (by decide) fun s c s₁ stepEq => ?_
    exact (Option.some.inj (Option.ite_none_right_eq_some.mp stepEq).2).symm

end Withdrawals

/-! ## The adapter -/

/-- The wrapped semaphore is the system that the calls act on. -/
structure SemaphoreTimedLockableAdapter where
  request : Request

namespace SemaphoreTimedLockableAdapter

variable (adapter : SemaphoreTimedLockableAdapter) (c : CallId)

def lock : Action := .acquire c adapter.request

def unlock : Action := .release c adapter.request

/-- `try_lock`. -/
def tryLock : Action := .tryAcquire c adapter.request

/-- `try_lock_for`. -/
def tryLockFor : Action := .tryAcquireFor c adapter.request

/-- `try_lock_until`. -/
def tryLockUntil : Action := .tryAcquireUntil c adapter.request

end SemaphoreTimedLockableAdapter

/-- The ways to acquire through the adapter. -/
inductive Path where
  | lock
  | tryLock
  | tryLockFor
  | tryLockUntil
deriving DecidableEq, Repr

namespace Path

def start (adapter : SemaphoreTimedLockableAdapter) (c : CallId) : Path → Action
  | .lock => adapter.lock c
  | .tryLock => adapter.tryLock c
  | .tryLockFor => adapter.tryLockFor c
  | .tryLockUntil => adapter.tryLockUntil c

/-- The permits that the semaphore is asked for in the end. -/
def permits (adapter : SemaphoreTimedLockableAdapter) : Path → Request
  | .lock | .tryLock | .tryLockFor => adapter.request
  | .tryLockUntil => 1#32

end Path

def CallPc.isReturned : CallPc → Bool
  | .returned _ | .released => true
  | _ => false

/-- Calls one after the other, each given by its first label. -/
def calls : Interface System Action Action (BitVec 32) :=
  { start := id
    continues := fun first a => a.isFurther = true ∧ a.call = first.call
    returned := fun first s => (s.pc first.call).isReturned = true
    observe := fun _ s => s.count }

/-- Successful acquisitions through the adapter, each followed by `unlock`. -/
inductive Session (n : BitVec 32) (adapter : SemaphoreTimedLockableAdapter) :
    System → List Path → System → Prop
  | nil (s : System) : Session n adapter s [] s
  | cons {s held free s' : System} {path : Path} {paths : List Path} {c d : CallId}
      (acquired : calls.Completes (machine n) s (path.start adapter c) held)
      (success : held.pc c = .returned true)
      (released : calls.Completes (machine n) held (adapter.unlock d) free)
      (rest : Session n adapter free paths s') : Session n adapter s (path :: paths) s'

section Adapter

variable {n : BitVec 32} {adapter : SemaphoreTimedLockableAdapter} {s s' : System} {c : CallId}
  {path : Path} {paths : List Path}

theorem call_start : (path.start adapter c).call = c := by cases path <;> rfl

/-- The first step of an acquisition asks the semaphore for the path's permits. -/
theorem start_taken (stepEq : step s (path.start adapter c) = some s') :
    Taken c (path.permits adapter) s s' := by
  cases path <;> obtain ⟨_, rest⟩ := Option.ite_none_right_eq_some.mp stepEq <;> cases rest
  case lock => exact loopTest_taken false
  case tryLock => exact tryAcquire_taken
  case tryLockFor => exact loopTest_taken true
  case tryLockUntil => exact loopTest_taken true

/-- A call that runs alone has the count of its beginning until it succeeds. -/
def Underway (c : CallId) (permits count : Request) (s : System) : Prop :=
  Asks permits (s.pc c) ∧
    if s.pc c = .returned true then permits.sle count = true ∧ s.count = count - permits
    else s.count = count

theorem Taken.underway {permits : Request} (taken : Taken c permits s s') :
    Underway c permits s.count s' := by
  refine ⟨taken.asks, ?_⟩
  split
  next success => exact taken.success success
  next other => exact taken.otherwise other

/-- A call that has returned takes no further step. -/
theorem step_of_returned {a : Action} {result : Bool} (returned : s.pc c = .returned result)
    (further : a.isFurther = true) (own : a.call = c) : step s a = none := by
  cases a <;> cases further <;> obtain rfl := own <;> simp [step, Action.call] at * <;>
    simp [returned]

theorem Underway.step {permits count : Request} {a : Action}
    (underway : Underway c permits count s) (further : a.isFurther = true) (own : a.call = c)
    (stepEq : step s a = some s') : Underway c permits count s' := by
  obtain ⟨asks, counted⟩ := underway
  by_cases success : s.pc c = .returned true
  · rw [step_of_returned success further own] at stepEq
    cases stepEq
  · rw [if_neg success] at counted
    rw [← counted]
    exact (taken_of_own asks (transition_of_step stepEq) own).underway

/-- An acquisition that succeeds alone takes the path's permits. -/
theorem acquired_count (completes : calls.Completes (machine n) s (path.start adapter c) s')
    (success : s'.pc c = .returned true) :
    (path.permits adapter).sle s.count = true ∧ s'.count = s.count - path.permits adapter := by
  obtain ⟨first, stepEq, later, returned⟩ := completes
  have underway : Underway c (path.permits adapter) s.count s' := by
    clear success returned
    induction later with
    | refl => exact (start_taken stepEq).underway
    | tail _ step ih =>
        obtain ⟨a, ⟨further, own⟩, stepEq⟩ := step
        exact ih.step further (own.trans call_start) stepEq
  have counted := underway.2
  rwa [if_pos success] at counted

theorem released_count (completes : calls.Completes (machine n) s (adapter.unlock c) s') :
    s'.count = s.count + adapter.request := by
  obtain ⟨first, stepEq, later, returned⟩ := completes
  obtain ⟨_, rest⟩ := Option.ite_none_right_eq_some.mp stepEq
  cases rest
  clear returned
  have leaving : (s'.pc c = .notifying ∨ s'.pc c = .released) ∧
      s'.count = s.count + adapter.request := by
    induction later with
    | refl => exact ⟨.inl (Function.update_self ..), rfl⟩
    | tail _ step ih =>
        obtain ⟨a, ⟨further, own⟩, stepEq⟩ := step
        obtain ⟨position, count⟩ := ih
        have own : a.call = c := own
        cases transition_of_step stepEq with
        | acquire | tryAcquire | tryAcquireFor | tryAcquireUntil | release => cases further
        | notifyAll d sending =>
            obtain rfl : d = c := own
            exact ⟨.inr (Function.update_self d _ fun u => _), count⟩
        | unblock d timed request waiting =>
            obtain rfl : d = c := own
            rw [waiting] at position
            rcases position with position | position <;> cases position
        | resume d timed request status expired waiting =>
            obtain rfl : d = c := own
            rw [waiting] at position
            rcases position with position | position <;> cases position
  exact leaving.2

/-! ### Sessions -/

section Arithmetic

variable {count request : BitVec 32}

theorem toInt_sub_one (positive : 1 ≤ count.toInt) : (count - 1#32).toInt = count.toInt - 1 := by
  have fits : (1#32).sle count = true := by
    rw [BitVec.sle, decide_eq_true_iff]
    exact positive
  exact (toInt_sub_of_sle (by decide) fits).2

theorem toInt_add_of_nonpos (positive : 1 ≤ count.toInt) (nonpos : request.toInt ≤ 0) :
    (count - 1#32 + request).toInt ≤ count.toInt - 1 := by
  have above := @BitVec.le_toInt 32 request
  have below := @BitVec.toInt_lt 32 count
  have range : Int.bmod (count.toInt - 1 + request.toInt) (2 ^ 32) =
      count.toInt - 1 + request.toInt := by
    apply Int.bmod_eq_of_le <;> omega
  rw [BitVec.toInt_add, toInt_sub_one positive]
  omega

/-- The sum of two positive `int`s is their sum or, wrapped around, negative. -/
theorem toInt_add_of_large (positive : 1 ≤ count.toInt) (large : 2 ≤ request.toInt) :
    count.toInt + 1 ≤ (count - 1#32 + request).toInt ∨ (count - 1#32 + request).toInt < 0 := by
  have left := toInt_sub_one positive
  have sum := BitVec.toNat_add (count - 1#32) request
  rw [BitVec.toInt_eq_toNat_cond] at left large
  have whole := BitVec.toInt_eq_toNat_cond (x := count - 1#32 + request)
  have countInt := BitVec.toInt_eq_toNat_cond (x := count)
  omega

end Arithmetic

/-- The count after one acquisition and `unlock`, with what the acquisition needs. -/
theorem pair_count {held free : System} {d : CallId}
    (acquired : calls.Completes (machine n) s (path.start adapter c) held)
    (success : held.pc c = .returned true)
    (released : calls.Completes (machine n) held (adapter.unlock d) free) :
    (path.permits adapter).toInt ≤ s.count.toInt ∧
      free.count = s.count - path.permits adapter + adapter.request := by
  obtain ⟨fits, held⟩ := acquired_count acquired success
  rw [released_count released, held]
  rw [BitVec.sle, decide_eq_true_iff] at fits
  exact ⟨fits, rfl⟩

/-- Every path that asks for the adapter's request is in balance. -/
theorem balanced_of_permits (session : Session n adapter s paths s')
    (same : ∀ path ∈ paths, path.permits adapter = adapter.request) : s'.count = s.count := by
  induction session with
  | nil s => rfl
  | @cons s held free s' path paths c d acquired success released rest ih =>
      have one := (pair_count acquired success released).2
      rw [same path List.mem_cons_self, BitVec.sub_add_cancel] at one
      rw [ih fun other member => same other (List.mem_cons_of_mem path member), one]

theorem permits_of_ne (other : path ≠ .tryLockUntil) : path.permits adapter = adapter.request := by
  cases path with
  | tryLockUntil => exact absurd rfl other
  | _ => rfl

/-- A step of a session keeps the count or, with `try_lock_until`, takes one
permit and gives the request back. -/
theorem pair_cases {held free : System} {d : CallId}
    (acquired : calls.Completes (machine n) s (path.start adapter c) held)
    (success : held.pc c = .returned true)
    (released : calls.Completes (machine n) held (adapter.unlock d) free) :
    (path ≠ .tryLockUntil ∧ adapter.request.toInt ≤ s.count.toInt ∧ free.count = s.count) ∨
      (path = .tryLockUntil ∧ 1 ≤ s.count.toInt ∧
        free.count = s.count - 1#32 + adapter.request) := by
  obtain ⟨fits, count⟩ := pair_count acquired success released
  by_cases isUntil : path = .tryLockUntil
  · subst isUntil
    exact .inr ⟨rfl, fits, count⟩
  · rw [permits_of_ne isUntil] at fits count
    rw [BitVec.sub_add_cancel] at count
    exact .inl ⟨isUntil, fits, count⟩

theorem count_until_cons : (path :: paths).count .tryLockUntil =
    paths.count .tryLockUntil + if path = .tryLockUntil then 1 else 0 := by
  rw [List.count_cons]
  simp

/-- A request that is not positive as an `int`: each `try_lock_until` drains the semaphore. -/
theorem drained (small : adapter.request.toInt ≤ 0) (session : Session n adapter s paths s') :
    s'.count.toInt + paths.count .tryLockUntil ≤ s.count.toInt := by
  induction session with
  | nil s => simp
  | @cons s held free s' path paths c d acquired success released rest ih =>
      rw [count_until_cons]
      rcases pair_cases acquired success released with ⟨other, _, count⟩ | ⟨isUntil, positive, count⟩
      · rw [if_neg other, ← count]
        simpa using ih
      · have lower : free.count.toInt ≤ s.count.toInt - 1 := by
          rw [count]
          exact toInt_add_of_nonpos positive small
        rw [if_pos isUntil]
        omega

/-- A request of more than 1: each `try_lock_until` adds permits, until the count has
overflowed and nothing succeeds any more. -/
theorem inflated (large : 2 ≤ adapter.request.toInt) (session : Session n adapter s paths s') :
    s.count.toInt + paths.count .tryLockUntil ≤ s'.count.toInt ∨ s'.count.toInt < 0 := by
  induction session with
  | nil s => simp
  | @cons s held free s' path paths c d acquired success released rest ih =>
      rw [count_until_cons]
      rcases pair_cases acquired success released with ⟨other, _, count⟩ | ⟨isUntil, positive, count⟩
      · rw [if_neg other, ← count]
        simpa using ih
      · rw [if_pos isUntil]
        rcases toInt_add_of_large positive large with higher | overflown
        · rw [← count] at higher
          omega
        · rw [← count] at overflown
          cases rest with
          | nil => exact .inr overflown
          | cons acquired' success' released' _ =>
              rcases pair_cases acquired' success' released' with ⟨_, fits, _⟩ | ⟨_, fits, _⟩ <;> omega

/-- A session is in balance where no `try_lock_until` has a request other than 1. -/
theorem Session.balance_iff (session : Session n adapter s paths s')
    (nonneg : 0 ≤ s.count.toInt) :
    s'.count = s.count ↔ adapter.request = 1#32 ∨ Path.tryLockUntil ∉ paths := by
  constructor
  · intro balanced
    by_contra neither
    obtain ⟨notOne, used⟩ := not_or.mp neither
    have positive : 0 < paths.count .tryLockUntil := List.count_pos_iff.mpr (not_not.mp used)
    have notOneInt : adapter.request.toInt ≠ 1 := fun one => notOne (BitVec.eq_of_toInt_eq one)
    by_cases small : adapter.request.toInt ≤ 0
    · have lost := drained small session
      rw [balanced] at lost
      omega
    · have gained := inflated (by omega) session
      rw [balanced] at gained
      omega
  · intro harmless
    refine balanced_of_permits session fun path member => ?_
    by_cases isUntil : path = .tryLockUntil
    · subst isUntil
      exact (harmless.resolve_right fun unused => unused member).symm
    · exact permits_of_ne isUntil

end Adapter

/-- `try_acquire_for` withdraws as many permits as asked for, or none, under
every schedule; `try_acquire_until` does so only for one permit.  A session of
the adapter gives back what it took only if its request is 1 or it makes no use
of `try_lock_until`. -/
theorem until_balance (n : BitVec 32) (nonneg : 0 ≤ n.toInt) :
    (∀ request, request.toNat ≤ intMax →
      WithdrawsAsAsked n .tryAcquireFor request ∧
        (WithdrawsAsAsked n .tryAcquireUntil request ↔ request = 1#32)) ∧
      ∀ adapter paths s', Session n adapter (initial n) paths s' →
        (s'.count = n ↔ adapter.request = 1#32 ∨ Path.tryLockUntil ∉ paths) :=
  ⟨fun _ small => ⟨tryAcquireFor_withdraws small, tryAcquireUntil_withdraws_iff nonneg⟩,
    fun _ _ _ session => session.balance_iff nonneg⟩

/-- The same for one permit. -/
theorem until_balance_one :
    (∀ request, request.toNat ≤ intMax →
      WithdrawsAsAsked 1#32 .tryAcquireFor request ∧
        (WithdrawsAsAsked 1#32 .tryAcquireUntil request ↔ request = 1#32)) ∧
      ∀ adapter paths s', Session 1#32 adapter (initial 1#32) paths s' →
        (s'.count = 1#32 ↔ adapter.request = 1#32 ∨ Path.tryLockUntil ∉ paths) :=
  until_balance 1#32 (by decide)

/-- A request for two permits is granted on one, and `unlock` then gives back two. -/
theorem until_takes_one_of_two :
    ¬ WithdrawsAsAsked 1#32 .tryAcquireUntil 2#32 ∧
      ∃ s', Session 1#32 ⟨2#32⟩ (initial 1#32) [.tryLockUntil] s' ∧ s'.count = 2#32 := by
  refine ⟨fun withdraws => ?_, ?_⟩
  · have one := (tryAcquireUntil_withdraws_iff (by decide)).mp withdraws
    exact absurd one (by decide)
  · let held := tryAcquireUntil (initial 1#32) 0 2#32
    let unlocked := release held 1 2#32
    have acquired : calls.Completes (machine 1#32) (initial 1#32)
        (Path.tryLockUntil.start ⟨2#32⟩ 0) held := ⟨held, rfl, .refl _, rfl⟩
    have notified : step unlocked (.notifyAll 1) = some (notifyAll unlocked 1) := rfl
    have released : calls.Completes (machine 1#32) held
        (SemaphoreTimedLockableAdapter.unlock ⟨2#32⟩ 1) (notifyAll unlocked 1) :=
      ⟨unlocked, rfl, .head (a := Action.notifyAll 1) ⟨rfl, rfl⟩ notified (.refl _), rfl⟩
    exact ⟨_, .cons acquired rfl released (.nil _), rfl⟩

end Conc11.SimpleSemaphore
