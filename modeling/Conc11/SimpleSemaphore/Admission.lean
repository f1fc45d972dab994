/-
Module: Conc11.SimpleSemaphore.Admission
Purpose: The admission tests of `SimpleSemaphore` as numbers, for every count and every request, and the exact
  arithmetic condition under which the grants of both semaphores are covered by their counts.
Trusted boundary: none
Main exports: AdmitsSoundly, grants_sound_iff, admission_sound_iff
-/
import Conc11.Semaphore.Admission
import Conc11.SimpleSemaphore.Model

namespace Conc11.SimpleSemaphore

open Library
open Semaphore (Request CallId SoundGrants covers_iff covers_of_sle sle_test)

/-- The test of `count` against `(int) request` admits only what an `int` can
ask for. -/
def TestSound (count : BitVec 32) (request : Request) : Prop :=
  request.toNat < 2 ^ 31 ∨ count.toInt < request.toInt

/-- The count and the request are such that the test of the step, if it admits
the request, does so rightly. -/
def AdmitsSoundly (s : System) : Action → Prop
  | .acquire _ request => TestSound s.count request
  | .tryAcquire _ request => TestSound s.count request
  | .tryAcquireFor _ request => TestSound s.count request
  | .resume c expired =>
      match s.pc c with
      | .waiting _ request _ => expired = true ∨ TestSound s.count request
      | _ => True
  | _ => True

section Grants

variable {s s' : System} {c : CallId} {timed : Bool} {request : Request}

/-- A granted request is covered if it is an `int`. -/
theorem grant_sound_iff (passes : request.sle s.count = true) :
    SoundGrants s.count (s.grant c request).count s.grants (s.grant c request).grants ↔
      TestSound s.count request := by
  have grown : (s.grant c request).grants = s.grants ++ [(c, request)] := rfl
  have after : (s.grant c request).count = s.count - request := rfl
  rw [SoundGrants.iff_of_granted grown, after, covers_iff, covers_of_sle passes]
  exact (or_iff_left (not_lt.mpr (sle_test.mp passes))).symm

theorem tryAcquire_sound :
    SoundGrants s.count (tryAcquire s c request).count s.grants (tryAcquire s c request).grants ↔
      TestSound s.count request := by
  unfold tryAcquire
  split
  next passes => exact grant_sound_iff passes
  next fails =>
    refine iff_of_true (.of_kept rfl) (.inr ?_)
    exact Int.lt_of_not_ge fun below => fails (sle_test.mpr below)

theorem loopTest_sound :
    SoundGrants s.count (loopTest s c timed request).count s.grants
        (loopTest s c timed request).grants ↔
      TestSound s.count request := by
  unfold loopTest
  split
  next waits =>
    exact iff_of_true (.of_kept rfl) (.inr (of_decide_eq_true waits))
  next passes =>
    refine grant_sound_iff (sle_test.mpr ?_)
    exact Int.le_of_not_gt fun above => passes (decide_eq_true above)

/-- The grants of a step are sound exactly if its test is. -/
theorem grants_sound_iff {a : Action} (stepEq : step s a = some s') :
    SoundGrants s.count s'.count s.grants s'.grants ↔ AdmitsSoundly s a := by
  cases transition_of_step stepEq with
  | acquire c request idle => exact loopTest_sound
  | tryAcquire c request idle => exact tryAcquire_sound
  | tryAcquireFor c request idle => exact loopTest_sound
  | tryAcquireUntil c request idle =>
      refine iff_of_true (loopTest_sound.mpr (.inl ?_)) trivial
      decide
  | release c request idle => exact iff_of_true (.of_kept rfl) trivial
  | notifyAll c sending => exact iff_of_true (.of_kept rfl) trivial
  | unblock c timed request waiting => exact iff_of_true (.of_kept rfl) trivial
  | resume c timed request status expired waiting unblocked deadline =>
      rw [AdmitsSoundly, waiting]
      cases expired with
      | true => exact iff_of_true (.of_kept rfl) (.inl rfl)
      | false =>
          refine loopTest_sound.trans (or_iff_right Bool.false_ne_true).symm

/-- `try_acquire` and the first test of `acquire` and of `try_acquire_for` admit
the same requests. -/
theorem agree : (tryAcquire s c request).pc c = .returned true ↔
    (loopTest s c timed request).pc c = .returned true := by
  have granted : (s.grant c request).pc c = .returned true := Function.update_self ..
  have refused : (s.goto c (.returned false)).pc c = .returned false := Function.update_self ..
  have waits : (s.goto c (.waiting timed request .blocked)).pc c =
      .waiting timed request .blocked := Function.update_self ..
  by_cases passes : request.sle s.count = true
  · have takes : tryAcquire s c request = s.grant c request := if_pos passes
    have enters : loopTest s c timed request = s.grant c request :=
      if_neg fun above => absurd (sle_test.mp passes) (not_le.mpr (of_decide_eq_true above))
    rw [takes, enters]
  · have above : s.count.slt request = true :=
      decide_eq_true (Int.lt_of_not_ge fun below => passes (sle_test.mpr below))
    have fails : tryAcquire s c request = s.goto c (.returned false) := if_neg passes
    have blocks : loopTest s c timed request = s.goto c (.waiting timed request .blocked) :=
      if_pos above
    rw [fails, blocks, refused, waits]
    exact iff_of_false (by simp) (by simp)

end Grants

/-- From every initial count, at every point of every run: a step of either
semaphore grants only what its count covers, and takes just that, exactly if its
test is sound; with an empty queue the untimed and the timed test of
`QueuedSemaphore` agree exactly if count and request are on the same side of
2^31, and those of `SimpleSemaphore` always do. -/
theorem admission_sound_iff (initialPermits : BitVec 32) :
    (∀ s, (Semaphore.machine initialPermits).Reachable s →
      (∀ a s', Semaphore.step s a = some s' →
        (SoundGrants s.sem.permits s'.sem.permits s.grants s'.grants ↔
          Semaphore.AdmitsSoundly s a)) ∧
      (s.sem.queue.isEmpty = true → ∀ (request : Request) (budget : Option Nat),
        (((s.sem.tryAcquire request).2 = .granted ↔
            ∃ sem', s.sem.tryAcquire0 request budget = some (sem', .granted)) ↔
          (s.sem.permits.toInt < 0 ↔ 2 ^ 31 ≤ request.toNat)))) ∧
    ∀ s, (machine initialPermits).Reachable s →
      (∀ a s', step s a = some s' →
        (SoundGrants s.count s'.count s.grants s'.grants ↔ AdmitsSoundly s a)) ∧
      ∀ (c : CallId) (request : Request),
        ((tryAcquire s c request).pc c = .returned true ↔
          (acquire s c request).pc c = .returned true) ∧
        ((tryAcquire s c request).pc c = .returned true ↔
          (tryAcquireFor s c request).pc c = .returned true) :=
  ⟨fun _ _ => ⟨fun _ _ => Semaphore.grants_sound_iff, Semaphore.agree_iff⟩,
    fun _ _ => ⟨fun _ _ => grants_sound_iff, fun _ _ => ⟨agree, agree⟩⟩⟩

theorem admission_sound_one :
    ∃ s', Semaphore.step (Semaphore.initial 1#32) (.tryAcquire 0 1#32) = some s' ∧
      SoundGrants 1#32 s'.sem.permits [] s'.grants := by
  have sound := ((admission_sound_iff 1#32).1 (Semaphore.initial 1#32)
    Machine.ReachableUnder.initial).1 (.tryAcquire 0 1#32) _ rfl
  have covered : (0 : Int) ≤ (1#32).toInt := by decide
  exact ⟨_, rfl, sound.mpr (.inl covered)⟩

/-- With -1 permits `try_acquire(1)` is granted and leaves -2.  With no permits a
request of 2^32 - 1 is refused by `QueuedSemaphore::try_acquire`, granted by its
`try_acquire0`, and granted by `SimpleSemaphore::acquire`, which leaves 1. -/
theorem permits_from_nothing :
    (∃ s', Semaphore.step (Semaphore.initial (-1)) (.tryAcquire 0 1#32) = some s' ∧
      s'.grants = [(0, 1#32)] ∧ s'.sem.permits.toInt = -2) ∧
    ((Semaphore.QueuedSemaphore.new 0#32).tryAcquire (-1)).2 = .refused ∧
    (∃ s', Semaphore.step (Semaphore.initial 0#32) (.tryAcquire0 0 false (-1) none) = some s' ∧
      s'.grants = [(0, -1)] ∧ s'.sem.permits.toInt = 1) ∧
    ∃ s', step (initial 0#32) (.acquire 0 (-1)) = some s' ∧
      s'.grants = [(0, -1)] ∧ s'.count.toInt = 1 := by
  refine ⟨⟨_, rfl, rfl, rfl⟩, rfl, ?_, ⟨_, rfl, rfl, rfl⟩⟩
  obtain ⟨cache, fresh⟩ := Semaphore.WaitQueue.Holds.new
  have empty : Semaphore.WaitQueue.new.isEmpty = true := fresh.isEmpty_iff.mpr rfl
  have granted : (Semaphore.QueuedSemaphore.new 0#32).tryAcquire0 (-1) none =
      some ({ Semaphore.QueuedSemaphore.new 0#32 with permits := 1#32 }, .granted) :=
    if_pos (Bool.and_eq_true_iff.mpr ⟨rfl, empty⟩)
  refine ⟨(Semaphore.initial 0#32).arrive 0 false (-1)
    { Semaphore.QueuedSemaphore.new 0#32 with permits := 1#32 } .granted, ?_, rfl, rfl⟩
  exact Semaphore.step_tryAcquire0 rfl rfl granted

end Conc11.SimpleSemaphore
