/-
Module: Conc11.Latch.Opening
Purpose: `Latch` opens exactly when the total counted down reaches its initial value: nobody returns from a
  wait before, one call alone crosses zero, and whoever is asleep behind it is going to be notified by
  that call.
Trusted boundary: none
Main exports: NoUnderflow, Opens, opens_of_reachable, Individually, latch_opens
-/
import Conc11.Library.Broadcast
import Conc11.Latch.Model

namespace Conc11.Latch

open Library

/-- PTRDIFF_MIN. -/
def ptrDiffMin : Int := -9223372036854775808

/-- Every decrement is at least one, and their total does not bring `value`
below PTRDIFF_MIN. -/
def NoUnderflow (value : PtrDiff) (s : System) : Action → Prop
  | .countDown _ n => 1 ≤ n.toInt ∧ ptrDiffMin ≤ value.toInt - (s.total + n.toInt)
  | .proceed c => s.pc c = .loaded → ptrDiffMin ≤ value.toInt - (s.total + 1)
  | .wait _ | .countDownAndWait _ | .unblock _ => True

instance (value : PtrDiff) (s : System) : (a : Action) → Decidable (NoUnderflow value s a)
  | .countDown _ n =>
      inferInstanceAs
        (Decidable (1 ≤ n.toInt ∧ ptrDiffMin ≤ value.toInt - (s.total + n.toInt)))
  | .proceed c =>
      inferInstanceAs
        (Decidable (s.pc c = .loaded → ptrDiffMin ≤ value.toInt - (s.total + 1)))
  | .wait _ | .countDownAndWait _ | .unblock _ => .isTrue trivial

/-! ## The value -/

section Values

variable {v n : PtrDiff}

theorem isReady_iff : isReady v = true ↔ v.toInt ≤ 0 := by
  rw [isReady, BitVec.sle_eq_decide, decide_eq_true_iff, BitVec.toInt_zero]

theorem crosses_iff : crosses v n = true ↔ 0 < v.toInt ∧ v.toInt ≤ n.toInt := by
  rw [crosses, Bool.and_eq_true, BitVec.slt_eq_decide, BitVec.sle_eq_decide, decide_eq_true_iff,
    decide_eq_true_iff, BitVec.toInt_zero]

/-- A decrement that does not underflow is exact. -/
theorem toInt_sub (nonneg : 0 ≤ n.toInt) (fits : ptrDiffMin ≤ v.toInt - n.toInt) :
    (v - n).toInt = v.toInt - n.toInt := by
  have upper : 2 * v.toInt < 2 ^ 64 := BitVec.two_mul_toInt_lt
  unfold ptrDiffMin at fits
  rw [BitVec.toInt_sub]
  apply Int.bmod_eq_of_le_mul_two
  · omega
  · omega

end Values

namespace CallPc

theorem isPending_of_isCrossing {pc : CallPc} (crossing : pc.isCrossing = true) :
    pc.isPending = true := by
  cases pc with
  | crossing thenWait => rfl
  | _ => cases crossing

/-- Whoever has seen the latch open does not wait any more. -/
theorem of_hasSeenOpen {pc : CallPc} (seen : pc.hasSeenOpen = true) :
    pc.isPending = false ∧ pc.isBlocking = false ∧ pc.isBlocked = false := by
  cases pc with
  | leaving => exact ⟨rfl, rfl, rfl⟩
  | returned => exact ⟨rfl, rfl, rfl⟩
  | _ => cases seen

/-- A notification is not seen by what does not tell `blocked` from `notified`. -/
theorem notified_same {β : Type*} (seen : CallPc → β)
    (same : seen (.waiting .notified) = seen (.waiting .blocked)) (pc : CallPc) :
    seen pc.notified = seen pc := by
  cases pc with
  | waiting status =>
      cases status with
      | blocked => exact same
      | _ => rfl
  | _ => rfl

theorem notified_isBlocked (pc : CallPc) : pc.notified.isBlocked = false := by
  cases pc with
  | waiting status => cases status <;> rfl
  | _ => rfl

/-- Behind `count_down` a call has neither lock nor notification to send, and
is not in its wait yet. -/
theorem afterCountDown_quiet (thenWait : Bool) :
    (afterCountDown thenWait).holdsMutex = false ∧ (afterCountDown thenWait).isPending = false ∧
      (afterCountDown thenWait).hasSeenOpen = false ∧
      (afterCountDown thenWait).isBlocking = false ∧
      (afterCountDown thenWait).isBlocked = false := by
  cases thenWait <;> exact ⟨rfl, rfl, rfl, rfl, rfl⟩

end CallPc

/-! ## The invariant -/

/-- The latch counts exactly, at most one call crosses zero, and as long as
somebody is asleep behind an open latch this call has not notified yet.  A
call that is about to block has read a positive value under the lock; if the
latch has opened since, the crossing call has not had the lock. -/
structure Opens (value : PtrDiff) (s : System) : Prop where
  exact : s.value.toInt = value.toInt - s.total
  holder : ∀ c, (s.pc c).holdsMutex = true ↔ s.holder = some c
  closed : 0 < s.value.toInt → s.crossed = []
  once : s.crossed.length ≤ 1
  crossers : ∀ c, (s.pc c).isPending = true → c ∈ s.crossed
  counted : 0 ≤ s.total
  opened : ∀ c, (s.pc c).hasSeenOpen = true → s.value.toInt ≤ 0
  blocking : Attended CallPc.isBlocking CallPc.isCrossing (fun _ => s.value.toInt ≤ 0) s.pc
  asleep : Attended CallPc.isBlocked CallPc.isPending (fun _ => s.value.toInt ≤ 0) s.pc

namespace Opens

variable {value : PtrDiff} {s s' : System} {c : CallId}

/-- A call moves, possibly taking or dropping the lock.  It announces nothing
and is not about to block, or the latch is closed. -/
theorem move (opens : Opens value s) (now : CallPc) (holder : Option CallId)
    (locks : ∀ d, (Function.update s.pc c now d).holdsMutex = true ↔ holder = some d)
    (pending : now.isPending = true → (s.pc c).isPending = true)
    (seen : now.hasSeenOpen = true → s.value.toInt ≤ 0)
    (blocking : Attended CallPc.isBlocking CallPc.isCrossing (fun _ => s.value.toInt ≤ 0)
      (Function.update s.pc c now))
    (asleep : Attended CallPc.isBlocked CallPc.isPending (fun _ => s.value.toInt ≤ 0)
      (Function.update s.pc c now)) :
    Opens value { s with holder := holder, pc := Function.update s.pc c now } := by
  refine ⟨opens.exact, locks, opens.closed, opens.once, ?_, opens.counted, ?_, blocking, asleep⟩
  · apply forall_update (fun d (pc : CallPc) => pc.isPending = true → d ∈ s.crossed) opens.crossers
    exact fun isPending => opens.crossers c (pending isPending)
  · exact forall_update (fun _ (pc : CallPc) => pc.hasSeenOpen = true → s.value.toInt ≤ 0) opens.opened seen

/-- Without the lock in hand nobody else's hold on it changes. -/
theorem holder_goto (opens : Opens value s) {now : CallPc}
    (same : now.holdsMutex = (s.pc c).holdsMutex) :
    ∀ d, (Function.update s.pc c now d).holdsMutex = true ↔ s.holder = some d := by
  apply forall_update (fun d (pc : CallPc) => pc.holdsMutex = true ↔ s.holder = some d) opens.holder
  rw [same]
  exact opens.holder c

theorem holder_lock (opens : Opens value s) {now : CallPc} (free : s.holder = none)
    (holds : now.holdsMutex = true) :
    ∀ d, (Function.update s.pc c now d).holdsMutex = true ↔ some c = some d := by
  apply (Function.forall_update_iff s.pc
    (p := fun d (pc : CallPc) => pc.holdsMutex = true ↔ some c = some d)).mpr
  refine ⟨iff_of_true holds rfl, fun d other => iff_of_false ?_ ?_⟩
  · rw [opens.holder d, free]
    exact (Option.some_ne_none d).symm
  · exact fun same => other (Option.some.inj same).symm

theorem holder_unlock (opens : Opens value s) {now : CallPc} (held : (s.pc c).holdsMutex = true)
    (drops : now.holdsMutex = false) :
    ∀ d, (Function.update s.pc c now d).holdsMutex = true ↔ none = some d := by
  apply (Function.forall_update_iff s.pc
    (p := fun d (pc : CallPc) => pc.holdsMutex = true ↔ none = some d)).mpr
  refine ⟨iff_of_false (by rw [drops]; decide) (Option.some_ne_none c).symm, fun d other =>
    iff_of_false ?_ (Option.some_ne_none d).symm⟩
  rw [opens.holder d, (opens.holder c).mp held]
  exact fun same => other (Option.some.inj same).symm

/-- A call that has nothing to announce moves, and does not fall asleep; it
prepares to only while the latch is closed. -/
theorem quiet (opens : Opens value s) {now : CallPc} {holder : Option CallId}
    (locks : ∀ d, (Function.update s.pc c now d).holdsMutex = true ↔ holder = some d)
    (wasQuiet : (s.pc c).isPending = false) (isQuiet : now.isPending = false)
    (seen : now.hasSeenOpen = true → s.value.toInt ≤ 0)
    (prepares : now.isBlocking = true → 0 < s.value.toInt) (awake : now.isBlocked = false) :
    Opens value { s with holder := holder, pc := Function.update s.pc c now } := by
  apply opens.move now holder locks _ seen
  · apply opens.blocking.move (fun _ _ _ isOpen => isOpen)
    · exact fun blocks => Int.not_le.mpr (prepares blocks)
    · intro crossing
      rw [CallPc.isPending_of_isCrossing crossing] at wasQuiet
      cases wasQuiet
  · apply opens.asleep.move (fun _ _ _ isOpen => isOpen)
    · intro sleeps
      rw [awake] at sleeps
      cases sleeps
    · intro pending
      rw [wasQuiet] at pending
      cases pending
  · intro pending
    rw [isQuiet] at pending
    cases pending

/-- A load of the value: one of two ways on. -/
theorem load (opens : Opens value s) {ready notReady : CallPc}
    (wasQuiet : (s.pc c).isPending = false)
    (readySame : ready.holdsMutex = (s.pc c).holdsMutex) (readySeen : ready.hasSeenOpen = true)
    (notReadySame : notReady.holdsMutex = (s.pc c).holdsMutex)
    (notReadyQuiet : notReady.isPending = false) (notReadySeen : notReady.hasSeenOpen = false)
    (notReadyAwake : notReady.isBlocked = false) : Opens value (load s c ready notReady) := by
  unfold Latch.load
  cases opened : isReady s.value with
  | true =>
      have isOpen := isReady_iff.mp opened
      obtain ⟨readyQuiet, readyMoves, readyAwake⟩ := CallPc.of_hasSeenOpen readySeen
      apply opens.quiet (opens.holder_goto readySame) wasQuiet readyQuiet (fun _ => isOpen) _
        readyAwake
      intro blocks
      rw [readyMoves] at blocks
      cases blocks
  | false =>
      have isClosed : 0 < s.value.toInt := by
        rw [← Int.not_le, ← isReady_iff, opened]
        exact Bool.false_ne_true
      apply opens.quiet (opens.holder_goto notReadySame) wasQuiet notReadyQuiet _ (fun _ => isClosed)
        notReadyAwake
      intro seen
      rw [notReadySeen] at seen
      cases seen

/-- Only the call that holds the lock can be about to block. -/
theorem nobody_blocking (opens : Opens value s) {d : CallId}
    (blocks : (s.pc d).isBlocking = true) : s.holder = some d := by
  rw [← opens.holder d]
  cases pc : s.pc d with
  | blocking => rfl
  | _ =>
      rw [pc] at blocks
      cases blocks

/-- The subtraction opens the latch: its call is the one that crosses. -/
private theorem fetchSub_crossing (opens : Opens value s) {n : PtrDiff} (thenWait : Bool)
    (after : (s.value - n).toInt = s.value.toInt - n.toInt) (positive : 1 ≤ n.toInt)
    (crossing : crosses s.value n = true) (notHeld : (s.pc c).holdsMutex = false) :
    Opens value
      { s with
        value := s.value - n
        pc := Function.update s.pc c (.crossing thenWait)
        downs := s.downs ++ [(c, n.toInt)]
        crossed := [c] } := by
  set s' : System :=
    { s with
      value := s.value - n
      pc := Function.update s.pc c (.crossing thenWait)
      downs := s.downs ++ [(c, n.toInt)]
      crossed := [c] } with after_def
  have value_eq := opens.exact
  have counted := opens.counted
  have total : s'.total = s.total + n.toInt := by simp [after_def, System.total]
  obtain ⟨wasClosed, reaches⟩ := crosses_iff.mp crossing
  have first := opens.closed wasClosed
  refine ⟨?_, opens.holder_goto notHeld.symm, fun isClosed => ?_, le_refl _, ?_, ?_, ?_,
    .announce rfl, .announce rfl⟩
  · change (s.value - n).toInt = _
    rw [after, total]
    omega
  · have stillClosed : 0 < (s.value - n).toInt := isClosed
    rw [after] at stillClosed
    omega
  · apply forall_update (fun d (pc : CallPc) => pc.isPending = true → d ∈ [c])
    · intro d pending
      have listed := opens.crossers d pending
      rw [first] at listed
      cases listed
    · exact fun _ => List.mem_singleton_self c
  · rw [total]
    omega
  · apply forall_update (fun _ (pc : CallPc) => pc.hasSeenOpen = true → (s.value - n).toInt ≤ 0)
    · intro d seen
      have isOpen := opens.opened d seen
      omega
    · intro seen
      cases seen

/-- The latch stays closed, or was open before. -/
private theorem fetchSub_passing (opens : Opens value s) {n : PtrDiff} (thenWait : Bool)
    (after : (s.value - n).toInt = s.value.toInt - n.toInt) (positive : 1 ≤ n.toInt)
    (crossing : crosses s.value n = false) (wasQuiet : (s.pc c).isPending = false)
    (notHeld : (s.pc c).holdsMutex = false) :
    Opens value
      { s with
        value := s.value - n
        pc := Function.update s.pc c (.afterCountDown thenWait)
        downs := s.downs ++ [(c, n.toInt)] } := by
  set s' : System :=
    { s with
      value := s.value - n
      pc := Function.update s.pc c (.afterCountDown thenWait)
      downs := s.downs ++ [(c, n.toInt)] } with after_def
  have value_eq := opens.exact
  have counted := opens.counted
  have total : s'.total = s.total + n.toInt := by simp [after_def, System.total]
  obtain ⟨nextFree, nextQuiet, nextUnseen, nextMoves, nextAwake⟩ :=
    CallPc.afterCountDown_quiet thenWait
  have stays : (s.value - n).toInt ≤ 0 → s.value.toInt ≤ 0 := by
    intro isOpen
    by_contra isClosed
    have reaches : crosses s.value n = true :=
      crosses_iff.mpr ⟨Int.not_le.mp isClosed, by omega⟩
    rw [crossing] at reaches
    cases reaches
  refine ⟨?_, opens.holder_goto (nextFree.trans notHeld.symm), fun isClosed => ?_, opens.once,
    ?_, ?_, ?_, ?_, ?_⟩
  · change (s.value - n).toInt = _
    rw [after, total]
    omega
  · apply opens.closed
    have stillClosed : 0 < (s.value - n).toInt := isClosed
    rw [after] at stillClosed
    omega
  · apply forall_update (fun d (pc : CallPc) => pc.isPending = true → d ∈ s.crossed)
      opens.crossers
    intro pending
    rw [nextQuiet] at pending
    cases pending
  · rw [total]
    omega
  · apply forall_update (fun _ (pc : CallPc) => pc.hasSeenOpen = true → (s.value - n).toInt ≤ 0)
    · intro d seen
      have isOpen := opens.opened d seen
      omega
    · intro seen
      rw [nextUnseen] at seen
      cases seen
  · apply opens.blocking.move (fun _ _ _ isOpen => stays isOpen)
    · intro blocks
      rw [nextMoves] at blocks
      cases blocks
    · intro crossing'
      rw [CallPc.isPending_of_isCrossing crossing'] at wasQuiet
      cases wasQuiet
  · apply opens.asleep.move (fun _ _ _ isOpen => stays isOpen)
    · intro sleeps
      rw [nextAwake] at sleeps
      cases sleeps
    · intro pending
      rw [wasQuiet] at pending
      cases pending

theorem fetchSub (opens : Opens value s) {n : PtrDiff} (thenWait : Bool)
    (positive : 1 ≤ n.toInt) (fits : ptrDiffMin ≤ value.toInt - (s.total + n.toInt))
    (wasQuiet : (s.pc c).isPending = false) (notHeld : (s.pc c).holdsMutex = false) :
    Opens value (fetchSub s c n thenWait) := by
  have value_eq := opens.exact
  have after : (s.value - n).toInt = s.value.toInt - n.toInt :=
    toInt_sub (by omega) (by omega)
  cases crossing : crosses s.value n with
  | true =>
      have first := opens.closed (crosses_iff.mp crossing).1
      simpa [Latch.fetchSub, crossing, first] using
        opens.fetchSub_crossing thenWait after positive crossing notHeld
  | false =>
      simpa [Latch.fetchSub, crossing] using
        opens.fetchSub_passing thenWait after positive crossing wasQuiet notHeld

/-- The crossing call takes the lock: nobody else is about to block. -/
theorem sync (opens : Opens value s) {thenWait : Bool} (here : s.pc c = .crossing thenWait)
    (free : s.holder = none) : Opens value (s.lock c (.syncing thenWait)) := by
  apply opens.move (.syncing thenWait) (some c) (opens.holder_lock free rfl)
  · exact fun _ => by rw [here]; rfl
  · intro seen
    cases seen
  · intro d blocks
    by_cases same : d = c
    · rw [same, Function.update_self] at blocks
      cases blocks
    · rw [Function.update_of_ne same] at blocks
      have held := opens.nobody_blocking blocks
      rw [free] at held
      cases held
  · exact .announce rfl

theorem unsync (opens : Opens value s) {thenWait : Bool} (here : s.pc c = .syncing thenWait) :
    Opens value (s.unlock c (.notifying thenWait)) := by
  have held : (s.pc c).holdsMutex = true := by rw [here]; rfl
  apply opens.move (.notifying thenWait) none (opens.holder_unlock held rfl)
  · exact fun _ => by rw [here]; rfl
  · intro seen
    cases seen
  · apply opens.blocking.move (fun _ _ _ isOpen => isOpen)
    · intro blocks
      cases blocks
    · intro crossing
      rw [here] at crossing
      cases crossing
  · exact .announce rfl

/-- A call that has read a positive value blocks; if the latch has opened
since, the crossing call still has to take the lock and notify. -/
theorem block (opens : Opens value s) (here : s.pc c = .blocking) :
    Opens value (s.unlock c (.waiting .blocked)) := by
  have held : (s.pc c).holdsMutex = true := by rw [here]; rfl
  apply opens.move (.waiting .blocked) none (opens.holder_unlock held rfl)
  · intro pending
    cases pending
  · intro seen
    cases seen
  · apply opens.blocking.move (fun _ _ _ isOpen => isOpen)
    · intro blocks
      cases blocks
    · intro crossing
      rw [here] at crossing
      cases crossing
  · intro d sleeps isOpen
    have attended : ∃ e, (s.pc e).isPending = true := by
      by_cases same : d = c
      · obtain ⟨e, crossing⟩ := opens.blocking c (by rw [here]; rfl) isOpen
        exact ⟨e, CallPc.isPending_of_isCrossing crossing⟩
      · rw [Function.update_of_ne same] at sleeps
        exact opens.asleep d sleeps isOpen
    obtain ⟨e, pending⟩ := attended
    refine ⟨e, ?_⟩
    have other : e ≠ c := by
      rintro rfl
      rw [here] at pending
      cases pending
    rwa [Function.update_of_ne other]

theorem notifyAll (opens : Opens value s) {thenWait : Bool}
    (here : s.pc c = .notifying thenWait) : Opens value (notifyAll s c thenWait) := by
  obtain ⟨nextFree, nextQuiet, nextUnseen, nextMoves, nextAwake⟩ :=
    CallPc.afterCountDown_quiet thenWait
  refine ⟨opens.exact, ?_, opens.closed, opens.once, ?_, opens.counted, ?_, ?_, ?_⟩
  · apply forall_update (fun d (pc : CallPc) => pc.holdsMutex = true ↔ s.holder = some d)
    · intro d
      rw [CallPc.notified_same CallPc.holdsMutex rfl]
      exact opens.holder d
    · rw [← opens.holder c, nextFree, here]
      rfl
  · apply forall_update (fun d (pc : CallPc) => pc.isPending = true → d ∈ s.crossed)
    · intro d
      rw [CallPc.notified_same CallPc.isPending rfl]
      exact opens.crossers d
    · intro pending
      rw [nextQuiet] at pending
      cases pending
  · apply forall_update (fun _ (pc : CallPc) => pc.hasSeenOpen = true → s.value.toInt ≤ 0)
    · intro d
      rw [CallPc.notified_same CallPc.hasSeenOpen rfl]
      exact opens.opened d
    · intro seen
      rw [nextUnseen] at seen
      cases seen
  · have mapped : Attended CallPc.isBlocking CallPc.isCrossing (fun _ => s.value.toInt ≤ 0)
        fun d => (s.pc d).notified := by
      intro d blocks isOpen
      rw [CallPc.notified_same CallPc.isBlocking rfl] at blocks
      obtain ⟨e, crossing⟩ := opens.blocking d blocks isOpen
      exact ⟨e, by rwa [CallPc.notified_same CallPc.isCrossing rfl]⟩
    apply mapped.move (fun _ _ _ isOpen => isOpen)
    · intro blocks
      rw [nextMoves] at blocks
      cases blocks
    · intro crossing
      rw [here] at crossing
      cases crossing
  · exact .broadcast CallPc.notified_isBlocked nextAwake

/-- The last steps of a wait, and being woken up, announce nothing. -/
theorem transition {a : Action} (opens : Opens value s) (allowed : NoUnderflow value s a)
    (moved : Transition s a s') : Opens value s' := by
  cases moved with
  | countDown c n idle =>
      exact opens.fetchSub false allowed.1 allowed.2 (by rw [idle]; rfl) (by rw [idle]; rfl)
  | wait c idle =>
      apply opens.load (by rw [idle]; rfl) (by rw [idle]; rfl) rfl (by rw [idle]; rfl) rfl rfl rfl
  | countDownAndWait c idle =>
      apply opens.load (by rw [idle]; rfl) (by rw [idle]; rfl) rfl (by rw [idle]; rfl) rfl rfl rfl
  | countOne c here =>
      exact opens.fetchSub true (by decide) (allowed here) (by rw [here]; rfl) (by rw [here]; rfl)
  | sync c thenWait here free => exact opens.sync here free
  | unsync c thenWait here => exact opens.unsync here
  | notifyAll c thenWait here => exact opens.notifyAll here
  | enter c here =>
      apply opens.load (by rw [here]; rfl) (by rw [here]; rfl) rfl (by rw [here]; rfl) rfl rfl rfl
  | lock c here free =>
      exact opens.quiet (opens.holder_lock free rfl) (by rw [here]; rfl) rfl nofun nofun rfl
  | test c here =>
      apply opens.load (by rw [here]; rfl) (by rw [here]; rfl) rfl (by rw [here]; rfl) rfl rfl rfl
  | evaluate c here =>
      apply opens.load (by rw [here]; rfl) (by rw [here]; rfl) rfl (by rw [here]; rfl) rfl rfl rfl
  | block c here => exact opens.block here
  | relock c status here unblocked free =>
      exact opens.quiet (opens.holder_lock free rfl) (by rw [here]; rfl) rfl nofun nofun rfl
  | leave c here =>
      have held : (s.pc c).holdsMutex = true := by rw [here]; rfl
      exact opens.quiet (opens.holder_unlock held rfl) (by rw [here]; rfl) rfl
        (fun _ => opens.opened c (by rw [here]; rfl)) nofun rfl
  | unblock c here =>
      exact opens.quiet (opens.holder_goto (by rw [here]; rfl)) (by rw [here]; rfl) rfl nofun nofun
        rfl

end Opens

theorem opens_of_reachable {value : PtrDiff} {s : System}
    (reachable : (machine value).ReachableUnder (NoUnderflow value) s) : Opens value s := by
  refine reachable.invariant (motive := Opens value) ?_ ?_
  · refine ⟨(Int.sub_zero _).symm, fun c => ?_, fun _ => rfl, Nat.zero_le 1, fun _ pending => ?_,
      le_refl 0, fun _ seen => ?_, fun _ blocks => ?_, fun _ sleeps => ?_⟩
    · exact iff_of_false Bool.false_ne_true (Option.some_ne_none c).symm
    · cases pending
    · cases seen
    · cases blocks
    · cases sleeps
  · exact fun _ _ _ _ opens allowed stepEq =>
      opens.transition allowed (transition_of_step stepEq)

/-! ## One decrement for each thread -/

/-- The calls with numbers below `value` call `count_down_and_wait`, each of
them once, and nobody else counts down. -/
def OnePerThread (value : PtrDiff) : Action → Prop
  | .countDown _ _ => False
  | .countDownAndWait c => (c : Int) < value.toInt
  | .wait _ | .proceed _ | .unblock _ => True

instance (value : PtrDiff) : (a : Action) → Decidable (OnePerThread value a)
  | .countDown _ _ => .isFalse id
  | .countDownAndWait c => inferInstanceAs (Decidable ((c : Int) < value.toInt))
  | .wait _ | .proceed _ | .unblock _ => .isTrue trivial

/-- Every decrement is by one and belongs to another call. -/
structure Individually (value : PtrDiff) (s : System) : Prop where
  ones : ∀ down ∈ s.downs, down.2 = 1
  distinct : (s.downs.map Prod.fst).Nodup
  before : ∀ c, s.pc c = .idle ∨ s.pc c = .loaded → c ∉ s.downs.map Prod.fst
  invited : ∀ c, s.pc c = .loaded ∨ c ∈ s.downs.map Prod.fst → (c : Int) < value.toInt

namespace Individually

variable {value : PtrDiff} {s s' : System} {c : CallId}

/-- A call goes on without a decrement. -/
theorem goto (individually : Individually value s) {now : CallPc} {holder : Option CallId}
    (begins : now ≠ .idle) (loads : now = .loaded →
      s.pc c = .idle ∧ (c : Int) < value.toInt) :
    Individually value { s with holder := holder, pc := Function.update s.pc c now } := by
  refine ⟨individually.ones, individually.distinct, ?_, ?_⟩
  · apply forall_update
      (fun d (pc : CallPc) => pc = .idle ∨ pc = .loaded → d ∉ s.downs.map Prod.fst)
      individually.before
    rintro (idle | loaded)
    · exact absurd idle begins
    · exact individually.before c (.inl (loads loaded).1)
  · apply forall_update
      (fun d (pc : CallPc) => pc = .loaded ∨ d ∈ s.downs.map Prod.fst → (d : Int) < value.toInt)
      individually.invited
    rintro (loaded | counted)
    · exact (loads loaded).2
    · exact individually.invited c (.inr counted)

theorem countOne (individually : Individually value s) (here : s.pc c = .loaded) :
    Individually value (fetchSub s c 1#64 true) := by
  have fresh := individually.before c (.inr here)
  have next : (if crosses s.value 1#64 then CallPc.crossing true else .afterCountDown true) ≠ .idle ∧
      (if crosses s.value 1#64 then CallPc.crossing true else .afterCountDown true) ≠ .loaded := by
    split <;> exact ⟨CallPc.noConfusion, CallPc.noConfusion⟩
  have downs : (fetchSub s c 1#64 true).downs.map Prod.fst = s.downs.map Prod.fst ++ [c] := by
    simp [fetchSub]
  refine ⟨fun down member => ?_, ?_, ?_, ?_⟩
  · rcases List.mem_append.mp member with old | new
    · exact individually.ones down old
    · rw [List.mem_singleton.mp new]
      exact (by decide : (1#64).toInt = 1)
  · rw [downs]
    simpa using individually.distinct.concat fresh
  · rw [downs]
    apply (Function.forall_update_iff s.pc
      (p := fun d (pc : CallPc) => pc = .idle ∨ pc = .loaded → d ∉ s.downs.map Prod.fst ++ [c])).mpr
    refine ⟨fun early => ?_, fun d other early member => ?_⟩
    · rcases early with idle | loaded
      · exact absurd idle next.1
      · exact absurd loaded next.2
    · rcases List.mem_append.mp member with old | new
      · exact individually.before d early old
      · exact other (List.mem_singleton.mp new)
  · rw [downs]
    apply forall_update
      (fun d (pc : CallPc) => pc = .loaded ∨ d ∈ s.downs.map Prod.fst ++ [c] → (d : Int) < value.toInt)
    · rintro d (loaded | member)
      · exact individually.invited d (.inl loaded)
      · rcases List.mem_append.mp member with old | new
        · exact individually.invited d (.inr old)
        · rw [List.mem_singleton.mp new]
          exact individually.invited c (.inl here)
    · exact fun _ => individually.invited c (.inl here)

/-- A call that moves on by a load. -/
theorem load (individually : Individually value s) {ready notReady : CallPc}
    (readyBegins : ready ≠ .idle ∧ ready ≠ .loaded) (notReadyBegins : notReady ≠ .idle)
    (loads : notReady = .loaded → s.pc c = .idle ∧ (c : Int) < value.toInt) :
    Individually value (load s c ready notReady) := by
  unfold Latch.load
  cases isReady s.value with
  | true => exact individually.goto readyBegins.1 fun loaded => absurd loaded readyBegins.2
  | false => exact individually.goto notReadyBegins loads

theorem notifyAll (individually : Individually value s) (thenWait : Bool) :
    Individually value (notifyAll s c thenWait) := by
  have next : CallPc.afterCountDown thenWait ≠ .idle ∧
      CallPc.afterCountDown thenWait ≠ .loaded := by
    cases thenWait <;> exact ⟨CallPc.noConfusion, CallPc.noConfusion⟩
  have kept : ∀ {pc now : CallPc}, (now = .idle ∨ now = .loaded) → pc.notified = now → pc = now := by
    intro pc now early same
    cases pc with
    | waiting status =>
        cases status <;> rcases early with rfl | rfl <;> cases same
    | _ => exact same
  refine ⟨individually.ones, individually.distinct, ?_, ?_⟩
  · apply forall_update
      (fun d (pc : CallPc) => pc = .idle ∨ pc = .loaded → d ∉ s.downs.map Prod.fst)
    · rintro d (idle | loaded)
      · exact individually.before d (.inl (kept (.inl rfl) idle))
      · exact individually.before d (.inr (kept (.inr rfl) loaded))
    · rintro (idle | loaded)
      · exact absurd idle next.1
      · exact absurd loaded next.2
  · apply forall_update
      (fun d (pc : CallPc) => pc = .loaded ∨ d ∈ s.downs.map Prod.fst → (d : Int) < value.toInt)
    · rintro d (loaded | counted)
      · exact individually.invited d (.inl (kept (.inr rfl) loaded))
      · exact individually.invited d (.inr counted)
    · rintro (loaded | counted)
      · exact absurd loaded next.2
      · exact individually.invited c (.inr counted)

theorem transition {a : Action} (individually : Individually value s)
    (allowed : OnePerThread value a) (moved : Transition s a s') : Individually value s' := by
  cases moved with
  | countDown c n idle => exact allowed.elim
  | wait c idle => exact individually.load ⟨nofun, nofun⟩ nofun nofun
  | countDownAndWait c idle =>
      exact individually.load ⟨nofun, nofun⟩ nofun fun _ => ⟨idle, allowed⟩
  | countOne c here => exact individually.countOne here
  | sync c thenWait here free => exact individually.goto nofun nofun
  | unsync c thenWait here => exact individually.goto nofun nofun
  | notifyAll c thenWait here => exact individually.notifyAll thenWait
  | enter c here => exact individually.load ⟨nofun, nofun⟩ nofun nofun
  | lock c here free => exact individually.goto nofun nofun
  | test c here => exact individually.load ⟨nofun, nofun⟩ nofun nofun
  | evaluate c here => exact individually.load ⟨nofun, nofun⟩ nofun nofun
  | block c here => exact individually.goto nofun nofun
  | relock c status here unblocked free => exact individually.goto nofun nofun
  | leave c here => exact individually.goto nofun nofun
  | unblock c here => exact individually.goto nofun nofun

/-- When the total reaches the number of calls, all of them have counted down. -/
theorem all_counted (individually : Individually value s) (reached : value.toInt ≤ s.total)
    (d : CallId) (invited : (d : Int) < value.toInt) : d ∈ s.downs.map Prod.fst := by
  have total : s.total = s.downs.length := by
    have ones : s.downs.map Prod.snd = List.replicate s.downs.length 1 := by
      rw [List.eq_replicate_iff]
      refine ⟨List.length_map _, fun one member => ?_⟩
      obtain ⟨down, isDown, rfl⟩ := List.mem_map.mp member
      exact individually.ones down isDown
    rw [System.total, ones, List.sum_replicate]
    simp
  have below : s.downs.map Prod.fst ⊆ List.range value.toInt.toNat := by
    intro c member
    have invited := individually.invited c (.inr member)
    rw [List.mem_range]
    omega
  have many : (List.range value.toInt.toNat).length ≤ (s.downs.map Prod.fst).length := by
    rw [List.length_range, List.length_map]
    omega
  have all := (individually.distinct.subperm below).perm_of_length_le many
  rw [all.mem_iff, List.mem_range]
  omega

end Individually

/-! ## Runs -/

theorem individually_of_reachable {value : PtrDiff} {s : System}
    (reachable : (machine value).ReachableUnder (fun _ a => OnePerThread value a) s) :
    Individually value s := by
  refine reachable.invariant (motive := Individually value) ?_ ?_
  · refine ⟨fun _ member => ?_, List.nodup_nil, fun c _ => List.not_mem_nil, fun c early => ?_⟩
    · cases member
    · rcases early with loaded | counted
      · cases loaded
      · cases counted
  · exact fun _ _ _ _ individually allowed stepEq =>
      individually.transition allowed (transition_of_step stepEq)

/-- Nobody returns from `wait` or `count_down_and_wait` before the total
counted down has reached the initial value, so with one decrement for each
thread nobody returns before all have decremented; at most one decrement
crosses zero; and while somebody is asleep behind an open latch, the call that
made this decrement has not notified yet. -/
theorem latch_opens (value : PtrDiff) :
    (∀ s, (machine value).ReachableUnder (NoUnderflow value) s →
      (∀ c, s.pc c = .returned → value.toInt ≤ s.total) ∧
      s.crossed.length ≤ 1 ∧
      ∀ c, s.value.toInt ≤ 0 → s.pc c = .waiting .blocked →
        ∃ d, s.crossed = [d] ∧ (s.pc d).isPending = true) ∧
    ∀ s, (machine value).ReachableUnder
        (fun s a => NoUnderflow value s a ∧ OnePerThread value a) s →
      ∀ c, s.pc c = .returned →
        ∀ d : CallId, (d : Int) < value.toInt → d ∈ s.downs.map Prod.fst := by
  have notEarly : ∀ {s : System}, Opens value s →
      ∀ c, s.pc c = .returned → value.toInt ≤ s.total := by
    intro s opens c returned
    have isOpen := opens.opened c (by rw [returned]; rfl)
    have counted := opens.exact
    omega
  refine ⟨fun s reachable => ?_, fun s reachable c returned d invited => ?_⟩
  · have opens := opens_of_reachable reachable
    refine ⟨notEarly opens, opens.once, fun c isOpen sleeps => ?_⟩
    obtain ⟨d, pending⟩ := opens.asleep c (by rw [sleeps]; rfl) isOpen
    have listed := opens.crossers d pending
    refine ⟨d, ?_, pending⟩
    have once := opens.once
    cases crossed : s.crossed with
    | nil =>
        rw [crossed] at listed
        cases listed
    | cons first rest =>
        rw [crossed, List.length_cons] at once
        obtain rfl : rest = [] := List.eq_nil_of_length_eq_zero (by omega)
        rw [crossed] at listed
        rw [List.mem_singleton.mp listed]
  · have opens := opens_of_reachable (reachable.mono fun _ _ both => both.1)
    have individually := individually_of_reachable (reachable.mono fun _ _ both => both.2)
    exact individually.all_counted (notEarly opens c returned) d invited

/-- One of two threads sleeps; the other has brought the value to zero and
still has to notify it. -/
theorem latch_opens_two_threads :
    ∃ s, (machine 2#64).ReachableUnder
        (fun s a => NoUnderflow 2#64 s a ∧ OnePerThread 2#64 a) s ∧
      s.pc 0 = .waiting .blocked ∧ ∃ d, s.crossed = [d] ∧ (s.pc d).isPending = true := by
  have run : ((machine 2#64).execUnder (fun s a => NoUnderflow 2#64 s a ∧ OnePerThread 2#64 a)
      (initial 2#64) [.countDownAndWait 0, .proceed 0, .proceed 0, .proceed 0, .proceed 0,
        .proceed 0, .proceed 0, .countDownAndWait 1, .proceed 1]).map
          (fun s => (s.pc 0, s.value)) = some (.waiting .blocked, 0) := by
    decide +kernel
  obtain ⟨s, runs, observed⟩ := Option.map_eq_some_iff.mp run
  simp only [Prod.mk.injEq] at observed
  obtain ⟨sleeps, value⟩ := observed
  have reached := Machine.reachableUnder_of_execUnder runs
  obtain ⟨_, _, signalled⟩ := (latch_opens 2#64).1 s (reached.mono fun _ _ both => both.1)
  exact ⟨s, reached, sleeps, signalled 0 (by rw [value]; decide) sleeps⟩

end Conc11.Latch
