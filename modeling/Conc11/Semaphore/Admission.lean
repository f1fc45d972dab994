/-
Module: Conc11.Semaphore.Admission
Purpose: What the admission tests of `QueuedSemaphore` let through, for every count and every request, as
  numbers: `try_acquire` compares as `unsigned int`, `try_acquire0` as `int`.
Trusted boundary: none
Main exports: Covers, covers_iff, SoundGrants, agree_iff, AdmitsSoundly, grants_sound_iff
-/
import Mathlib.Tactic.Common
import Conc11.Semaphore.Model

namespace Conc11.Semaphore

open Library

/-! ## The tests as numbers -/

/-- The count `after` is what is left of `before` when the request has been
taken from it, without wrapping around. -/
def Covers (before : BitVec 32) (request : Request) (after : BitVec 32) : Prop :=
  (request.toNat : Int) ≤ before.toInt ∧ after.toInt = before.toInt - request.toNat

/-- Every grant added to the history is covered by the count it met. -/
def SoundGrants (before after : BitVec 32) (grants grants' : List (CallId × Request)) : Prop :=
  ∀ c request, grants' = grants ++ [(c, request)] → Covers before request after

section Arithmetic

variable {permits : BitVec 32} {request : Request}

theorem ule_test : request.ule permits = true ↔ request.toNat ≤ permits.toNat :=
  decide_eq_true_iff

theorem sle_test : request.sle permits = true ↔ request.toInt ≤ permits.toInt :=
  decide_eq_true_iff

/-- Enough permits are subtracted without wrapping around. -/
theorem covers_iff : Covers permits request (permits - request) ↔
    (request.toNat : Int) ≤ permits.toInt := by
  refine ⟨And.left, fun enough => ⟨enough, ?_⟩⟩
  have permitsBound := permits.isLt
  rw [BitVec.toInt_eq_toNat_cond] at enough ⊢
  rw [BitVec.toInt_eq_toNat_cond, BitVec.toNat_sub]
  split at enough <;> split <;> omega

/-- A request that passes the unsigned test is covered by a count that is not
negative. -/
theorem covers_of_ule (passes : request.ule permits = true) :
    (request.toNat : Int) ≤ permits.toInt ↔ 0 ≤ permits.toInt := by
  have below := ule_test.mp passes
  rw [BitVec.toInt_eq_toNat_cond]
  split <;> omega

/-- A request that passes the signed test is covered if it is an `int`. -/
theorem covers_of_sle (passes : request.sle permits = true) :
    (request.toNat : Int) ≤ permits.toInt ↔ request.toNat < 2 ^ 31 := by
  have below := sle_test.mp passes
  have permitsBound := permits.isLt
  rw [BitVec.toInt_eq_toNat_cond] at below ⊢
  rw [BitVec.toInt_eq_toNat_cond] at below
  split at below <;> split at below <;> omega

/-- The two tests agree when both numbers are on the same side of 2^31. -/
theorem tests_agree_iff : (request.ule permits = true ↔ request.sle permits = true) ↔
    (permits.toInt < 0 ↔ 2 ^ 31 ≤ request.toNat) := by
  have permitsBound := permits.isLt
  have requestBound := request.isLt
  rw [ule_test, sle_test, BitVec.toInt_eq_toNat_cond, BitVec.toInt_eq_toNat_cond]
  split <;> split <;> omega

/-- What passes the signed test leaves a count that is not negative, unless the
difference is no `int`. -/
theorem slt_zero_of_sle (passes : request.sle permits = true) :
    (permits - request).slt 0#32 = true ↔ 2 ^ 31 ≤ permits.toInt - request.toInt := by
  have below := sle_test.mp passes
  have permitsBound := permits.isLt
  have requestBound := request.isLt
  rw [BitVec.slt, decide_eq_true_iff, BitVec.toInt_zero]
  rw [BitVec.toInt_eq_toNat_cond, BitVec.toInt_eq_toNat_cond] at below ⊢
  rw [BitVec.toInt_eq_toNat_cond, BitVec.toNat_sub]
  split at below <;> split at below <;> split <;> omega

end Arithmetic

namespace SoundGrants

variable {before after : BitVec 32} {grants grants' : List (CallId × Request)} {c : CallId}
  {request : Request}

theorem of_kept (kept : grants' = grants) : SoundGrants before after grants grants' := by
  intro c request grown
  have longer := congrArg List.length (kept.symm.trans grown)
  simp at longer

theorem iff_of_granted (grown : grants' = grants ++ [(c, request)]) :
    SoundGrants before after grants grants' ↔ Covers before request after := by
  constructor
  · exact fun sound => sound c request grown
  · intro covers d other grown'
    have same := List.append_cancel_left (grown.symm.trans grown')
    cases same
    exact covers

end SoundGrants

/-! ## The sections of a call -/

/-- The count and the request are such that the test of the step, if it admits
the request, does so rightly. -/
def AdmitsSoundly (s : System) : Action → Prop
  | .tryAcquire _ request => 0 ≤ s.sem.permits.toInt ∨ s.sem.permits.toNat < request.toNat
  | .tryAcquire0 _ _ request _ =>
      request.toNat < 2 ^ 31 ∨ s.sem.permits.toInt < request.toInt ∨ s.sem.queue.isEmpty = false
  | .wake c _ =>
      match s.pc c with
      | .waiting _ request _ =>
          request.toNat < 2 ^ 31 ∨ s.sem.permits.toInt < request.toInt ∨
            2 ^ 31 ≤ s.sem.permits.toInt - request.toInt
      | _ => True
  | _ => True

section Grants

variable {s s' : System} {c : CallId} {timed : Bool} {request : Request} {node : NodeId}
  {budget : Option Nat} {sem' : QueuedSemaphore} {result : Result}

theorem grants_of_refused (refused : result ≠ .granted) :
    (s.settle c timed request sem' result).grants = s.grants :=
  if_neg refused

/-- A granted section is sound if the count was enough. -/
theorem settle_sound_iff (after : sem'.permits = s.sem.permits - request) :
    SoundGrants s.sem.permits sem'.permits s.grants
        (s.settle c timed request sem' .granted).grants ↔
      (request.toNat : Int) ≤ s.sem.permits.toInt := by
  have grown : (s.settle c timed request sem' .granted).grants = s.grants ++ [(c, request)] := rfl
  rw [SoundGrants.iff_of_granted grown, after, covers_iff]

theorem tryAcquire_sound (c : CallId) (timed : Bool) :
    SoundGrants s.sem.permits (s.sem.tryAcquire request).1.permits s.grants
      (s.settle c timed request (s.sem.tryAcquire request).1 (s.sem.tryAcquire request).2).grants ↔
    0 ≤ s.sem.permits.toInt ∨ s.sem.permits.toNat < request.toNat := by
  by_cases passes : request.ule s.sem.permits = true
  · have granted : s.sem.tryAcquire request =
        ({ s.sem with permits := s.sem.permits - request }, .granted) := if_pos passes
    have below := ule_test.mp passes
    rw [granted]
    refine (settle_sound_iff rfl).trans ((covers_of_ule passes).trans ?_)
    exact (or_iff_left (by omega)).symm
  · have refused : s.sem.tryAcquire request = (s.sem, .refused) := if_neg passes
    rw [refused]
    refine iff_of_true (.of_kept (grants_of_refused Result.noConfusion)) (.inr ?_)
    exact Nat.lt_of_not_le fun below => passes (ule_test.mpr below)

theorem not_granted_of_enqueueAndWait {sem : QueuedSemaphore}
    (ran : sem.enqueueAndWait budget = some (sem', result)) : result ≠ .granted := by
  unfold QueuedSemaphore.enqueueAndWait at ran
  split at ran
  · cases ran
  · cases ran
    exact Result.noConfusion
  · cases ran
    exact Result.noConfusion

/-- The first section of a call of a thread that is in none. -/
theorem step_tryAcquire0 (live : s.aborted = false) (idle : s.pc c = .idle)
    (ran : s.sem.tryAcquire0 request budget = some (sem', result)) :
    step s (.tryAcquire0 c timed request budget) =
      some (s.arrive c timed request sem' result) := by
  simp only [step, live, Bool.false_eq_true, if_false, if_pos idle, ran]

theorem tryAcquire0_sound (c : CallId) (timed : Bool)
    (ran : s.sem.tryAcquire0 request budget = some (sem', result)) :
    SoundGrants s.sem.permits sem'.permits s.grants (s.settle c timed request sem' result).grants ↔
      request.toNat < 2 ^ 31 ∨ s.sem.permits.toInt < request.toInt ∨
        s.sem.queue.isEmpty = false := by
  by_cases passes : (request.sle s.sem.permits && s.sem.queue.isEmpty) = true
  · obtain ⟨enough, empty⟩ := Bool.and_eq_true_iff.mp passes
    have granted : some ({ s.sem with permits := s.sem.permits - request }, Result.granted) =
        some (sem', result) := (if_pos passes).symm.trans ran
    cases granted
    have below := sle_test.mp enough
    refine (settle_sound_iff rfl).trans ((covers_of_sle enough).trans (or_iff_left ?_).symm)
    rintro (above | waiting)
    · omega
    · exact absurd (empty.symm.trans waiting) Bool.true_eq_false.mp
  · have queued : (s.sem.requestRecordInsert request).enqueueAndWait budget =
        some (sem', result) := (if_neg passes).symm.trans ran
    refine iff_of_true
      (.of_kept (grants_of_refused (not_granted_of_enqueueAndWait queued))) (.inr ?_)
    rcases Bool.eq_false_or_eq_true s.sem.queue.isEmpty with empty | waiting
    · rw [empty, Bool.and_true] at passes
      exact .inl (Int.lt_of_not_ge fun below => passes (sle_test.mpr below))
    · exact .inr waiting

theorem permits_leaveLoop (sem : QueuedSemaphore) (request : Request) :
    (sem.leaveLoop request).1.permits = sem.permits - request ∧
      (sem.leaveLoop request).2 =
        if (sem.permits - request).slt 0#32 then .terminated else .granted := by
  have kept : ({ sem.requestRecordRemove request with
      permits := (sem.requestRecordRemove request).permits - request }.wakeIfDue).permits =
      sem.permits - request := by
    rw [permits_wakeIfDue]
    exact congrArg (· - request) permits_requestRecordRemove
  unfold QueuedSemaphore.leaveLoop
  dsimp only
  rw [kept]
  split
  · exact ⟨kept, rfl⟩
  · exact ⟨kept, rfl⟩

theorem woken_sound (ran : s.sem.woken request budget = some (sem', result)) :
    SoundGrants s.sem.permits sem'.permits s.grants (s.settle c timed request sem' result).grants ↔
      request.toNat < 2 ^ 31 ∨ s.sem.permits.toInt < request.toInt ∨
        2 ^ 31 ≤ s.sem.permits.toInt - request.toInt := by
  by_cases passes : request.sle s.sem.permits = true
  · have left : some ({ s.sem with queue := s.sem.queue.dequeue }.leaveLoop request) =
        some (sem', result) := (if_pos passes).symm.trans ran
    obtain ⟨permits, outcome⟩ :=
      permits_leaveLoop { s.sem with queue := s.sem.queue.dequeue } request
    rw [Option.some.inj left] at permits outcome
    have below := sle_test.mp passes
    by_cases negative : (s.sem.permits - request).slt 0#32 = true
    · have terminated : result = .terminated := outcome.trans (if_pos negative)
      refine iff_of_true (.of_kept (grants_of_refused ?_))
        (.inr (.inr ((slt_zero_of_sle passes).mp negative)))
      rw [terminated]
      exact Result.noConfusion
    · have granted : result = .granted := outcome.trans (if_neg negative)
      have small := (slt_zero_of_sle passes).not.mp negative
      subst granted
      refine (settle_sound_iff permits).trans ((covers_of_sle passes).trans ?_)
      exact (or_iff_left (by omega)).symm
  · have queued : ({ s.sem with queue := s.sem.queue.dequeue }).enqueueAndWait budget =
        some (sem', result) := (if_neg passes).symm.trans ran
    refine iff_of_true
      (.of_kept (grants_of_refused (not_granted_of_enqueueAndWait queued))) (.inr (.inl ?_))
    exact Int.lt_of_not_ge fun below => passes (sle_test.mpr below)

/-- The grants of a step are sound exactly if its test is. -/
theorem grants_sound_iff {a : Action} (stepEq : step s a = some s') :
    SoundGrants s.sem.permits s'.sem.permits s.grants s'.grants ↔ AdmitsSoundly s a := by
  cases transition_of_step stepEq with
  | tryAcquire0 c timed request budget sem result idle ran =>
      exact tryAcquire0_sound c timed ran
  | tryAcquire c request idle => exact tryAcquire_sound c false
  | release request => exact iff_of_true (.of_kept rfl) trivial
  | wake c budget timed request node sem result waiting wakeable ran =>
      rw [AdmitsSoundly, waiting]
      exact woken_sound ran
  | timeout c request node waiting asleep => exact iff_of_true (.of_kept rfl) trivial

end Grants

/-- With an empty queue the untimed `try_acquire` and the first section of
`try_acquire0` admit the same requests exactly if the count is negative just
when the request is 2^31 or more. -/
theorem agree_iff {sem : QueuedSemaphore} (empty : sem.queue.isEmpty = true) (request : Request)
    (budget : Option Nat) :
    ((sem.tryAcquire request).2 = .granted ↔
        ∃ sem', sem.tryAcquire0 request budget = some (sem', .granted)) ↔
      (sem.permits.toInt < 0 ↔ 2 ^ 31 ≤ request.toNat) := by
  have untimed : (sem.tryAcquire request).2 = .granted ↔ request.ule sem.permits = true := by
    unfold QueuedSemaphore.tryAcquire
    split
    next passes => exact iff_of_true rfl passes
    next fails => exact iff_of_false Result.noConfusion fails
  have fast : (∃ sem', sem.tryAcquire0 request budget = some (sem', .granted)) ↔
      request.sle sem.permits = true := by
    unfold QueuedSemaphore.tryAcquire0
    rw [empty, Bool.and_true]
    split
    next passes => exact iff_of_true ⟨_, rfl⟩ passes
    next fails =>
      refine iff_of_false ?_ fails
      rintro ⟨sem', ran⟩
      exact not_granted_of_enqueueAndWait ran rfl
  rw [untimed, fast, tests_agree_iff]

end Conc11.Semaphore
