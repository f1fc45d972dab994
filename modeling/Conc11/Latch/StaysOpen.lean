/-
Module: Conc11.Latch.StaysOpen
Purpose: What becomes of a `Latch` that has opened: it stays open, and nobody blocks on it any more, as long as
  no decrement takes `value` below PTRDIFF_MIN; one that does closes it.
Trusted boundary: none
Main exports: InRange, NoWrap, isReady_sub_iff, value_of_step, stays_open
-/
import Conc11.Latch.Opening

namespace Conc11.Latch

open Library

/-- `count_down` is called with a number from 0 to PTRDIFF_MAX. -/
def InRange : Action → Prop
  | .countDown _ n => 0 ≤ n.toInt
  | _ => True

/-- What the step takes from `value`, as a number. -/
def decrement (s : System) : Action → Int
  | .countDown _ n => n.toInt
  | .proceed c => if s.pc c = .loaded then 1 else 0
  | _ => 0

/-- The decrement does not take `value` below PTRDIFF_MIN. -/
def NoWrap (s : System) (a : Action) : Prop := ptrDiffMin ≤ s.value.toInt - decrement s a

/-- Below zero a decrement keeps the latch open exactly if it does not wrap
around; otherwise the result is positive. -/
theorem isReady_sub_iff {v n : PtrDiff} (isOpen : isReady v = true) (nonneg : 0 ≤ n.toInt) :
    isReady (v - n) = true ↔ ptrDiffMin ≤ v.toInt - n.toInt := by
  have below := isReady_iff.mp isOpen
  rw [isReady_iff]
  by_cases fits : ptrDiffMin ≤ v.toInt - n.toInt
  · rw [toInt_sub nonneg fits]
    exact iff_of_true (by omega) fits
  · refine iff_of_false ?_ fits
    have lower : -2 ^ 64 ≤ 2 * v.toInt := BitVec.le_two_mul_toInt
    have upper : 2 * n.toInt < 2 ^ 64 := BitVec.two_mul_toInt_lt
    unfold ptrDiffMin at fits
    rw [BitVec.toInt_sub, Int.bmod_def]
    split <;> omega

section Steps

variable {s s' : System} {a : Action} {c : CallId}

/-- Every step takes its decrement from `value`. -/
theorem value_of_step (range : InRange a) (stepEq : step s a = some s') :
    ∃ n : PtrDiff, 0 ≤ n.toInt ∧ n.toInt = decrement s a ∧ s'.value = s.value - n := by
  have quiet : ∀ c, s.pc c ≠ .loaded → s'.value = s.value →
      ∃ n : PtrDiff, 0 ≤ n.toInt ∧ n.toInt = decrement s (.proceed c) ∧ s'.value = s.value - n := by
    intro c other same
    exact ⟨0#64, le_refl _, (if_neg other).symm, by rw [same, BitVec.sub_zero]⟩
  cases transition_of_step stepEq with
  | countDown c n idle => exact ⟨n, range, rfl, rfl⟩
  | countOne c here => exact ⟨1#64, by decide, (if_pos here).symm, rfl⟩
  | wait c _ | countDownAndWait c _ | unblock c _ =>
      exact ⟨0#64, le_refl _, rfl, (BitVec.sub_zero s.value).symm⟩
  | sync c thenWait here _ | unsync c thenWait here | notifyAll c thenWait here | enter c here
  | lock c here _ | test c here | evaluate c here | block c here | leave c here =>
      exact quiet c (by rw [here]; exact CallPc.noConfusion) rfl
  | relock c status here _ _ => exact quiet c (by rw [here]; exact CallPc.noConfusion) rfl

/-- A step keeps an open latch open exactly if it does not wrap around. -/
theorem isReady_step_iff (range : InRange a) (stepEq : step s a = some s')
    (isOpen : isReady s.value = true) : isReady s'.value = true ↔ NoWrap s a := by
  obtain ⟨n, nonneg, taken, value⟩ := value_of_step range stepEq
  rw [value, isReady_sub_iff isOpen nonneg, taken]
  rfl

/-- The call is blocked, or is about to block without another look at `value`. -/
def CallPc.sleeps (pc : CallPc) : Bool := pc.isBlocking || pc.isBlocked

theorem CallPc.notified_sleeps {pc : CallPc} (sleeps : pc.notified.sleeps = true) :
    pc.sleeps = true := by
  cases pc with
  | waiting status => cases status with
    | blocked => rfl
    | _ => exact sleeps
  | _ => exact sleeps

theorem sleeps_update {now : CallPc} (moves : now.sleeps = true → (s.pc c).sleeps = true) :
    ∀ d, (Function.update s.pc c now d).sleeps = true → (s.pc d).sleeps = true :=
  forall_update (fun d (pc : CallPc) => pc.sleeps = true → (s.pc d).sleeps = true)
    (fun _ sleeps => sleeps) moves

/-- Nobody goes to sleep on an open latch. -/
theorem sleeps_of_step (isOpen : isReady s.value = true) (stepEq : step s a = some s') (d : CallId)
    (sleeps : (s'.pc d).sleeps = true) : (s.pc d).sleeps = true := by
  have loads : ∀ {c : CallId} {ready notReady : CallPc}, ready.sleeps = false →
      ((load s c ready notReady).pc d).sleeps = true → (s.pc d).sleeps = true := by
    intro c ready notReady awake
    have taken : (if isReady s.value then ready else notReady) = ready := if_pos isOpen
    rw [load, taken]
    exact sleeps_update (fun asleep => absurd (awake.symm.trans asleep) Bool.false_ne_true) d
  have behind : ∀ thenWait, (CallPc.afterCountDown thenWait).sleeps = false := by
    intro thenWait
    cases thenWait <;> rfl
  have counts : ∀ {c : CallId} {n : PtrDiff} {thenWait : Bool},
      ((fetchSub s c n thenWait).pc d).sleeps = true → (s.pc d).sleeps = true := by
    intro c n thenWait
    refine sleeps_update (fun asleep => ?_) d
    split at asleep
    · cases asleep
    · rw [behind thenWait] at asleep
      cases asleep
  cases transition_of_step stepEq with
  | countDown c n _ => exact counts sleeps
  | countOne c _ => exact counts sleeps
  | wait c _ | countDownAndWait c _ | enter c _ | test c _ | evaluate c _ => exact loads rfl sleeps
  | notifyAll c thenWait _ =>
      have rest : ∀ d, (Function.update (fun d => (s.pc d).notified) c
          (CallPc.afterCountDown thenWait) d).sleeps = true → (s.pc d).sleeps = true :=
        forall_update (fun d (pc : CallPc) => pc.sleeps = true → (s.pc d).sleeps = true)
          (fun _ => CallPc.notified_sleeps) fun asleep => by
            rw [behind thenWait] at asleep
            cases asleep
      exact rest d sleeps
  | block c here => exact sleeps_update (fun _ => by rw [here]; rfl) d sleeps
  | sync c thenWait _ _ | unsync c thenWait _ | lock c _ _ | leave c _ | unblock c _
  | relock c status _ _ _ => exact sleeps_update (fun asleep => by cases asleep) d sleeps

end Steps

/-- A `wait` that begins on an open latch returns at once. -/
theorem wait_returns {s s' : System} {c : CallId} (isOpen : isReady s.value = true)
    (stepEq : step s (.wait c) = some s') : s'.pc c = .returned := by
  obtain ⟨_, loads⟩ := Option.ite_none_right_eq_some.mp stepEq
  cases loads
  exact (Function.update_self ..).trans (if_pos isOpen)

/-- Once open, and with no decrement below PTRDIFF_MIN from then on, a latch
stays open, no call goes to sleep on it and every later `wait` returns; a step
that takes an open latch below PTRDIFF_MIN closes it. -/
theorem stays_open (value : PtrDiff) :
    (∀ s s', (machine value).Reachable s → isReady s.value = true →
      (machine value).LaterUnder (fun s a => InRange a ∧ NoWrap s a) s s' →
        isReady s'.value = true ∧ (∀ c, (s'.pc c).sleeps = true → (s.pc c).sleeps = true) ∧
          ∀ c s'', step s' (.wait c) = some s'' → s''.pc c = .returned) ∧
    ∀ s a s', (machine value).Reachable s → isReady s.value = true → InRange a →
      step s a = some s' → (isReady s'.value = true ↔ NoWrap s a) := by
  refine ⟨fun s s' _ isOpen later => ?_, fun s a s' _ isOpen range stepEq =>
    isReady_step_iff range stepEq isOpen⟩
  have kept : isReady s'.value = true ∧
      ∀ c, (s'.pc c).sleeps = true → (s.pc c).sleeps = true := by
    induction later with
    | refl => exact ⟨isOpen, fun _ sleeps => sleeps⟩
    | tail _ stepped ih =>
        obtain ⟨a, ⟨range, noWrap⟩, stepEq⟩ := stepped
        obtain ⟨before, asleep⟩ := ih
        exact ⟨(isReady_step_iff range stepEq before).mpr noWrap,
          fun c sleeps => asleep c (sleeps_of_step before stepEq c sleeps)⟩
  exact ⟨kept.1, kept.2, fun _ _ => wait_returns kept.1⟩

theorem stays_open_counted_twice :
    ∃ s, (machine 1#64).exec (initial 1#64) [.countDown 0 1#64, .countDown 1 5#64] = some s ∧
      isReady s.value = true := by
  have first : isReady (fetchSub (initial 1#64) 0 1#64 false).value = true := by decide
  have ran : (machine 1#64).exec (initial 1#64) [.countDown 0 1#64] =
      some (fetchSub (initial 1#64) 0 1#64 false) := rfl
  have reached := Machine.reachable_of_exec ran
  have second : (machine 1#64).step (fetchSub (initial 1#64) 0 1#64 false) (.countDown 1 5#64) =
      some (fetchSub (fetchSub (initial 1#64) 0 1#64 false) 1 5#64 false) := rfl
  refine ⟨_, rfl, ((stays_open 1#64).1 _ _ reached first (.head ⟨?_, ?_⟩ second (.refl _))).1⟩
  · change (0 : Int) ≤ (5#64).toInt
    decide
  · change ptrDiffMin ≤ (1#64 - 1#64 : PtrDiff).toInt - (5#64).toInt
    decide

/-- A latch that is open from the start is counted down by PTRDIFF_MAX and by 2:
it is closed, and a `wait` blocks. -/
theorem reopened :
    isReady (initial 0#64).value = true ∧
      ((machine 0#64).exec (initial 0#64)
        [.countDown 0 (BitVec.ofNat 64 (2 ^ 63 - 1)), .countDown 1 2#64, .wait 2, .proceed 2,
          .proceed 2, .proceed 2, .proceed 2]).map
        (fun s => (isReady s.value, s.pc 2)) = some (false, .waiting .blocked) := by
  decide +kernel

end Conc11.Latch
