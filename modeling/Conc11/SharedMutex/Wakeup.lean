/-
Module: Conc11.SharedMutex.Wakeup
Purpose: No lost wake-up of `SharedTimedMutex` below reader saturation.  Notifications are sent after
  the mutex is dropped, so a waiter whose gate is open is covered by a thread that has yet to notify.
Trusted boundary: none
Main exports: BelowSaturation, Signalled, Signalled.transition, no_lost_wakeup
-/
import Conc11.SharedMutex.Ownership

namespace Conc11.SharedMutex

open Library

variable {T : Type*} [Fintype T] {x : Nat}

/-- The readers have not used up the 31-bit counter. -/
def BelowSaturation (s : System T x) : Prop := s.sharedHolders < 2 ^ 31 - 1

instance (s : System T x) : Decidable (BelowSaturation s) :=
  inferInstanceAs (Decidable (s.sharedHolders < 2 ^ 31 - 1))

/-- Every un-notified waiter whose gate is open has a notification coming: at
`wgate` from a reader that has left, at `rgate` from a thread that has cleared
the writer bit. -/
structure Signalled (s : System T x) : Prop where
  wgate : ∀ t, (s.pc t).blockedAt .wgate = true → s.sharedHolders = 0 →
    ∃ u, s.pc u = .notifyingWgateOne
  rgate : ∀ t, (s.pc t).blockedAt .rgate = true → s.enteredWriters = 0 →
    ∃ u, s.pc u = .notifyingRgateAll

namespace Signalled

variable {s : System T x}

theorem initial : Signalled (initial T x) :=
  ⟨fun _ blocked => (nomatch blocked), fun _ blocked => (nomatch blocked)⟩

variable [DecidableEq T]

/-- The rule for a step that moves `t` to `pc`.  A thread may only go to sleep
at a closed gate, and a gate may only open if `t` itself goes on to notify,
unless it was open before or nobody else sleeps there. -/
theorem move (signalled : Signalled s) (t : T) (pc : ThreadPc) (state : UintFast32 x)
    {s' : System T x} (moved : s' = { state := state, pc := Function.update s.pc t pc })
    (sleepsWgate : pc.blockedAt .wgate = true → s'.sharedHolders ≠ 0)
    (sleepsRgate : pc.blockedAt .rgate = true → s'.enteredWriters ≠ 0)
    (opensWgate : s'.sharedHolders = 0 →
      pc = .notifyingWgateOne ∨
      s.sharedHolders = 0 ∧ s.pc t ≠ .notifyingWgateOne ∨
      ∀ u, u ≠ t → (s.pc u).blockedAt .wgate = false)
    (opensRgate : s'.enteredWriters = 0 →
      pc = .notifyingRgateAll ∨
      s.enteredWriters = 0 ∧ s.pc t ≠ .notifyingRgateAll ∨
      ∀ u, u ≠ t → (s.pc u).blockedAt .rgate = false) : Signalled s' := by
  have self : s'.pc t = pc := by rw [moved]; exact Function.update_self t pc s.pc
  have other : ∀ u, u ≠ t → s'.pc u = s.pc u := fun u ne => by
    rw [moved]; exact Function.update_of_ne ne pc s.pc
  have kept : ∀ p, s.pc t ≠ p → (∃ u, s.pc u = p) → ∃ u, s'.pc u = p := by
    rintro p notSelf ⟨u, isAt⟩
    exact ⟨u, by rw [other u (fun same => notSelf (same ▸ isAt)), isAt]⟩
  constructor
  · intro u blocked empty
    by_cases same : u = t
    · rw [same, self] at blocked
      exact absurd empty (sleepsWgate blocked)
    · rw [other u same] at blocked
      rcases opensWgate empty with sends | ⟨before, notSelf⟩ | nobody
      · exact ⟨t, self.trans sends⟩
      · exact kept _ notSelf (signalled.wgate u blocked before)
      · exact absurd blocked (by rw [nobody u same]; decide)
  · intro u blocked clear
    by_cases same : u = t
    · rw [same, self] at blocked
      exact absurd clear (sleepsRgate blocked)
    · rw [other u same] at blocked
      rcases opensRgate clear with sends | ⟨before, notSelf⟩ | nobody
      · exact ⟨t, self.trans sends⟩
      · exact kept _ notSelf (signalled.rgate u blocked before)
      · exact absurd blocked (by rw [nobody u same]; decide)

/-- A step that neither opens a gate nor puts anybody to sleep. -/
theorem goto (signalled : Signalled s) (t : T) (pc : ThreadPc)
    (sameShared : pc.isShared = (s.pc t).isShared)
    (sameEntered : pc.isEntered = (s.pc t).isEntered)
    (sleepsWgate : pc.blockedAt .wgate = true → s.sharedHolders ≠ 0)
    (sleepsRgate : pc.blockedAt .rgate = true → s.enteredWriters ≠ 0)
    (notWgate : s.pc t ≠ .notifyingWgateOne) (notRgate : s.pc t ≠ .notifyingRgateAll) :
    Signalled (s.goto t pc) := by
  have readers : (s.goto t pc).sharedHolders = s.sharedHolders :=
    population_update_same sameShared
  have writers : (s.goto t pc).enteredWriters = s.enteredWriters :=
    population_update_same sameEntered
  refine signalled.move t pc s.state rfl ?_ ?_ ?_ ?_
  · rw [readers]; exact sleepsWgate
  · rw [writers]; exact sleepsRgate
  · rw [readers]; exact fun empty => .inr (.inl ⟨empty, notWgate⟩)
  · rw [writers]; exact fun clear => .inr (.inl ⟨clear, notRgate⟩)

/-- The writer's path behind `rgate`: the bit closes `rgate`, and the writer
sleeps at `wgate` only while readers are left. -/
theorem passRgate (signalled : Signalled s) (owned : Owned s) {t : T} (timed : Bool)
    (clear : writerEntered s.state = false) (wasNotShared : (s.pc t).isShared = false)
    (notWgate : s.pc t ≠ .notifyingWgateOne) : Signalled (passRgate s t timed) := by
  have owned' := owned.passRgate timed clear wasNotShared
  have none := owned.writerEntered_false_iff.mp clear
  have wasNotEntered : (s.pc t).isEntered = false := population_eq_zero.mp none t
  set pc : ThreadPc :=
    if readersActive (s.state ||| writerEnteredMask x) then .atWgate timed .blocked
    else .holdsExclusive with pc_def
  have entered : pc.isEntered = true := by rw [pc_def]; split_ifs <;> rfl
  have notShared : pc.isShared = false := by rw [pc_def]; split_ifs <;> rfl
  have readers : (SharedMutex.passRgate s t timed).sharedHolders = s.sharedHolders :=
    population_update_same (notShared.trans wasNotShared.symm)
  have writers : (SharedMutex.passRgate s t timed).enteredWriters = s.enteredWriters + 1 :=
    population_update_enter wasNotEntered entered
  refine signalled.move t pc _ rfl ?_ ?_ ?_ ?_
  · intro sleeps empty
    have quiet := owned'.readersActive_false_iff.mpr empty
    rw [pc_def, if_neg (by simpa [SharedMutex.passRgate] using quiet)] at sleeps
    cases sleeps
  · intro _
    omega
  · rw [readers]
    exact fun empty => .inr (.inl ⟨empty, notWgate⟩)
  · intro zero
    omega

/-- A reader enters. -/
theorem countIn (signalled : Signalled s) {t : T} {state : UintFast32 x}
    (wasNotShared : (s.pc t).isShared = false) (wasNotEntered : (s.pc t).isEntered = false)
    (notRgate : s.pc t ≠ .notifyingRgateAll) :
    Signalled { state := state, pc := Function.update s.pc t .holdsShared } := by
  set s' : System T x := { state := state, pc := Function.update s.pc t .holdsShared } with after_def
  have readers : s'.sharedHolders = s.sharedHolders + 1 :=
    population_update_enter wasNotShared rfl
  have writers : s'.enteredWriters = s.enteredWriters :=
    population_update_same wasNotEntered.symm
  refine signalled.move t .holdsShared state after_def nofun nofun ?_ ?_
  · intro empty
    omega
  · rw [writers]
    exact fun clear => .inr (.inl ⟨clear, notRgate⟩)

/-- The writer clears its bit and goes on to notify `rgate`. -/
theorem clearBit (signalled : Signalled s) {t : T} {state : UintFast32 x}
    (wasNotShared : (s.pc t).isShared = false) (notWgate : s.pc t ≠ .notifyingWgateOne) :
    Signalled { state := state, pc := Function.update s.pc t .notifyingRgateAll } := by
  set s' : System T x :=
    { state := state, pc := Function.update s.pc t .notifyingRgateAll } with after_def
  have readers : s'.sharedHolders = s.sharedHolders :=
    population_update_same wasNotShared.symm
  refine signalled.move t .notifyingRgateAll state after_def nofun nofun ?_ (fun _ => .inl rfl)
  rw [readers]
  exact fun empty => .inr (.inl ⟨empty, notWgate⟩)

/-- One evaluation of the `rgate` condition below saturation. -/
theorem rgateTest (signalled : Signalled s) (owned : Owned s) (below : BelowSaturation s)
    {t : T} (op : GateOp) (expired : Bool)
    (wasNotShared : (s.pc t).isShared = false) (wasNotEntered : (s.pc t).isEntered = false)
    (notWgate : s.pc t ≠ .notifyingWgateOne) (notRgate : s.pc t ≠ .notifyingRgateAll) :
    Signalled (rgateTest s t op expired) := by
  have toOutside : Signalled (s.goto t .outside) :=
    signalled.goto t _ wasNotShared.symm wasNotEntered.symm nofun nofun notWgate notRgate
  have toGate : s.enteredWriters ≠ 0 → Signalled (s.goto t (.atRgate op .blocked)) :=
    fun closed => signalled.goto t _ wasNotShared.symm wasNotEntered.symm nofun
      (fun _ => closed) notWgate notRgate
  unfold SharedMutex.rgateTest
  cases op.exclusive with
  | true =>
      cases entered : writerEntered s.state with
      | false => simpa using signalled.passRgate owned op.timed entered wasNotShared notWgate
      | true =>
          have closed : s.enteredWriters ≠ 0 := by
            rw [owned.writerEntered_iff.mp entered]
            decide
          cases expired
          · simpa using toGate closed
          · simpa using toOutside
  | false =>
      cases may : readerMayEnter s.state with
      | true =>
          simpa using signalled.countIn wasNotShared wasNotEntered notRgate
      | false =>
          -- below saturation only the writer bit keeps a reader out
          have closed : s.enteredWriters ≠ 0 := by
            intro clear
            have enters := owned.readerMayEnter_iff.mpr ⟨clear, below⟩
            rw [may] at enters
            cases enters
          cases expired
          · simpa using toGate closed
          · simpa using toOutside

/-- One evaluation of the `wgate` condition: the writer goes back to sleep only
on readers, and giving up leaves it about to reopen `rgate`. -/
theorem wgateTest (signalled : Signalled s) (owned : Owned s) {t : T} {timed : Bool}
    {status : WaitStatus} (waiting : s.pc t = .atWgate timed status) (expired : Bool) :
    Signalled (wgateTest s t timed expired) := by
  have wasEntered : (s.pc t).isEntered = true := by rw [waiting]; rfl
  have wasNotShared : (s.pc t).isShared = false := by rw [waiting]; rfl
  have notWgate : s.pc t ≠ .notifyingWgateOne := by rw [waiting]; nofun
  have notRgate : s.pc t ≠ .notifyingRgateAll := by rw [waiting]; nofun
  unfold SharedMutex.wgateTest
  cases active : readersActive s.state with
  | false =>
      simpa using signalled.goto t .holdsExclusive wasNotShared.symm wasEntered.symm nofun nofun
        notWgate notRgate
  | true =>
      have readers : s.sharedHolders ≠ 0 := by
        intro empty
        rw [owned.readersActive_false_iff.mpr empty] at active
        cases active
      cases expired with
      | true => simpa using signalled.clearBit wasNotShared notWgate
      | false =>
          simpa using signalled.goto t (.atWgate timed .blocked) wasNotShared.symm
            wasEntered.symm (fun _ => readers) nofun notWgate notRgate

theorem tryLock (signalled : Signalled s) {t : T} (outside : s.pc t = .outside)
    (gotMutex : Bool) : Signalled (tryLock s t gotMutex) := by
  unfold SharedMutex.tryLock
  split
  next =>
    have readers : ({ state := writerEnteredMask x
                      pc := Function.update s.pc t .holdsExclusive } :
        System T x).sharedHolders = s.sharedHolders :=
      population_update_same (by rw [outside]; rfl)
    have writers : ({ state := writerEnteredMask x
                      pc := Function.update s.pc t .holdsExclusive } :
        System T x).enteredWriters = s.enteredWriters + 1 :=
      population_update_enter (by rw [outside]; rfl) rfl
    refine signalled.move t .holdsExclusive _ rfl nofun nofun ?_ ?_
    · rw [readers]
      exact fun empty => .inr (.inl ⟨empty, by rw [outside]; nofun⟩)
    · intro zero
      omega
  next => exact signalled

theorem tryLockShared (signalled : Signalled s) {t : T} (outside : s.pc t = .outside)
    (gotMutex : Bool) : Signalled (tryLockShared s t gotMutex) := by
  unfold SharedMutex.tryLockShared
  split
  next => exact signalled.countIn (by rw [outside]; rfl) (by rw [outside]; rfl)
            (by rw [outside]; nofun)
  next => exact signalled

/-- The last reader behind an entered writer leaves with the writer's
notification still to send. -/
theorem unlockShared (signalled : Signalled s) (owned : Owned s) {t : T}
    (held : s.pc t = .holdsShared) : Signalled (unlockShared s t) := by
  have owned' := owned.unlockShared held
  set s' := SharedMutex.unlockShared s t with after_def
  have writers : s'.enteredWriters = s.enteredWriters := by
    rw [after_def]
    unfold SharedMutex.unlockShared
    exact population_update_same (by rw [held]; split_ifs <;> rfl)
  refine signalled.move t (s'.pc t) s'.state ?_ ?_ ?_ ?_ ?_
  · rw [after_def]
    simp [SharedMutex.unlockShared]
  · intro sleeps
    exfalso
    rw [after_def] at sleeps
    simp only [SharedMutex.unlockShared, Function.update_self] at sleeps
    split_ifs at sleeps <;> cases sleeps
  · intro sleeps
    exfalso
    rw [after_def] at sleeps
    simp only [SharedMutex.unlockShared, Function.update_self] at sleeps
    split_ifs at sleeps <;> cases sleeps
  · intro empty
    by_cases entered : s.enteredWriters = 0
    · -- no writer has entered, so nobody sleeps at `wgate`
      refine .inr (.inr fun u _ => ?_)
      have notIn := population_eq_zero.mp entered u
      cases before : s.pc u <;> simp_all [ThreadPc.blockedAt, ThreadPc.isEntered]
    · left
      have bit : writerEntered s'.state = true := by
        rw [owned'.writerEntered_iff]
        have few := owned'.oneWriter
        omega
      have quiet := owned'.readersActive_false_iff.mpr empty
      rw [after_def] at bit quiet ⊢
      simp only [SharedMutex.unlockShared, readersActive, bne_eq_false_iff_eq] at bit quiet
      simp [SharedMutex.unlockShared, bit, quiet]
  · rw [writers]
    exact fun clear => .inr (.inl ⟨clear, by rw [held]; decide⟩)

/-- A broadcast leaves nobody asleep at `rgate`. -/
theorem notifyAll (signalled : Signalled s) {t : T} (sending : s.pc t = .notifyingRgateAll) :
    Signalled ((notifyAllRgate s).goto t .outside) := by
  have awake : ∀ u, ((notifyAllRgate s).pc u).blockedAt .rgate = false := by
    intro u
    simp only [notifyAllRgate]
    split
    next blocked => cases before : s.pc u <;> simp_all [ThreadPc.blockedAt, ThreadPc.notified]
    next quiet => simpa using quiet
  have sleepers : ∀ u, ((notifyAllRgate s).pc u).blockedAt .wgate = true →
      (s.pc u).blockedAt .wgate = true := by
    intro u
    simp only [notifyAllRgate]
    cases before : s.pc u with
    | atRgate op status => cases status <;> simp [ThreadPc.blockedAt, ThreadPc.notified]
    | _ => simp [ThreadPc.blockedAt]
  have senders : ∀ u, s.pc u = .notifyingWgateOne →
      (notifyAllRgate s).pc u = .notifyingWgateOne := by
    intro u isAt
    simp [notifyAllRgate, isAt, ThreadPc.blockedAt]
  have shared : (notifyAllRgate s).sharedHolders = s.sharedHolders :=
    population_congr fun u => by
      simp only [notifyAllRgate]
      split
      · cases s.pc u <;> rfl
      · rfl
  have broadcast : Signalled (notifyAllRgate s) := by
    constructor
    · intro u blocked empty
      obtain ⟨v, isAt⟩ := signalled.wgate u (sleepers u blocked) (shared ▸ empty)
      exact ⟨v, senders v isAt⟩
    · intro u blocked
      rw [awake u] at blocked
      cases blocked
  have unmoved : (notifyAllRgate s).pc t = .notifyingRgateAll := by
    simp [notifyAllRgate, sending, ThreadPc.blockedAt]
  have readers : ((notifyAllRgate s).goto t .outside).sharedHolders =
      (notifyAllRgate s).sharedHolders :=
    population_update_same (by rw [unmoved]; rfl)
  refine broadcast.move t .outside _ rfl (absurd · (by decide)) (absurd · (by decide)) ?_
    (fun _ => .inr (.inr fun u _ => awake u))
  rw [readers]
  exact fun empty => .inr (.inl ⟨empty, by rw [unmoved]; decide⟩)

/-- The sender of a `notify_one` finishes its call.  At `wgate` nobody sleeps
any more, so its notification is not missed. -/
theorem sent (signalled : Signalled s) {t : T} (gate : Gate)
    (sending : s.pc t = gate.notifyingOne)
    (reached : gate = .wgate → ∀ u, (s.pc u).blockedAt .wgate = false) :
    Signalled (s.goto t .outside) := by
  have readers : (s.goto t .outside).sharedHolders = s.sharedHolders :=
    population_update_same (by rw [sending]; cases gate <;> rfl)
  have writers : (s.goto t .outside).enteredWriters = s.enteredWriters :=
    population_update_same (by rw [sending]; cases gate <;> rfl)
  refine signalled.move t .outside s.state rfl nofun nofun ?_ ?_
  · rw [readers]
    intro empty
    cases gate with
    | rgate => exact .inr (.inl ⟨empty, by rw [sending]; nofun⟩)
    | wgate => exact .inr (.inr fun u _ => reached rfl u)
  · rw [writers]
    exact fun clear => .inr (.inl ⟨clear, by rw [sending]; cases gate <;> nofun⟩)

/-- A `notify_one` at `wgate` cannot wake the wrong thread: the sleeper it
reaches is the entered writer, and there is no other. -/
theorem notifyOne (signalled : Signalled s) (owned : Owned s) {t u : T} (gate : Gate)
    (sending : s.pc t = gate.notifyingOne) (blocked : (s.pc u).blockedAt gate = true) :
    Signalled ((s.goto u (s.pc u).notified).goto t .outside) := by
  have other : t ≠ u := by
    rintro rfl
    rw [sending] at blocked
    cases gate <;> cases blocked
  have woken : Signalled (s.goto u (s.pc u).notified) := by
    refine signalled.goto u _ (by cases s.pc u <;> rfl) (by cases s.pc u <;> rfl) ?_ ?_ ?_ ?_
    all_goals cases before : s.pc u <;> simp_all [ThreadPc.notified, ThreadPc.blockedAt]
  have unmoved : (s.goto u (s.pc u).notified).pc t = gate.notifyingOne := by
    rw [← sending]
    exact Function.update_of_ne other _ _
  apply woken.sent gate unmoved
  rintro rfl v
  by_cases same : v = u
  · subst same
    cases before : s.pc v <;> simp_all [System.goto, ThreadPc.notified, ThreadPc.blockedAt]
  · have kept : (s.goto u (s.pc u).notified).pc v = s.pc v := Function.update_of_ne same _ _
    rw [kept, ← Bool.not_eq_true]
    intro sleeps
    have entered : ∀ w, (s.pc w).blockedAt .wgate = true → (s.pc w).isEntered = true := by
      intro w isBlocked
      cases before : s.pc w <;> simp_all [ThreadPc.blockedAt, ThreadPc.isEntered]
    exact same (owned.entered_unique v u (entered v sleeps) (entered u blocked))

/-- Every transition taken below saturation keeps the invariant. -/
theorem transition {s' : System T x} (signalled : Signalled s) (owned : Owned s)
    (below : BelowSaturation s) (moved : Transition s s') : Signalled s' := by
  cases moved with
  | request t op outside =>
      exact signalled.rgateTest owned below op false (by rw [outside]; rfl)
        (by rw [outside]; rfl) (by rw [outside]; nofun) (by rw [outside]; nofun)
  | tryLock t gotMutex outside => exact signalled.tryLock outside gotMutex
  | unlock t held => exact signalled.clearBit (by rw [held]; rfl) (by rw [held]; nofun)
  | tryLockShared t gotMutex outside => exact signalled.tryLockShared outside gotMutex
  | unlockShared t held => exact signalled.unlockShared owned held
  | unblockRgate t op waiting =>
      exact signalled.goto t _ (by rw [waiting]; rfl) (by rw [waiting]; rfl) nofun nofun
        (by rw [waiting]; nofun) (by rw [waiting]; nofun)
  | unblockWgate t timed waiting =>
      exact signalled.goto t _ (by rw [waiting]; rfl) (by rw [waiting]; rfl) nofun nofun
        (by rw [waiting]; nofun) (by rw [waiting]; nofun)
  | resumeRgate t op status expired waiting _ _ =>
      exact signalled.rgateTest owned below op expired (by rw [waiting]; rfl)
        (by rw [waiting]; rfl) (by rw [waiting]; nofun) (by rw [waiting]; nofun)
  | resumeWgate t timed status expired waiting _ _ =>
      exact signalled.wgateTest owned waiting expired
  | notifyAll t sending => exact signalled.notifyAll sending
  | notifyNobody t gate sending nobody =>
      exact signalled.sent gate sending (by rintro rfl; exact nobody)
  | notifyOne t u gate sending blocked => exact signalled.notifyOne owned gate sending blocked

end Signalled

variable [DecidableEq T]

theorem signalled_of_reachable {s : System T x}
    (reachable : (machine T x).ReachableUnder (fun s _ => BelowSaturation s) s) :
    Signalled s :=
  reachable.invariant .initial fun _ _ _ before signalled below stepEq =>
    signalled.transition (owned_of_reachable before) below (transition_of_step stepEq)

/-- `SharedTimedMutex` loses no wake-up in runs whose states stay below reader
saturation: a writer asleep at `wgate` without readers is about to be notified
by a reader that has left, a thread asleep at `rgate` while the writer bit is
clear is about to be notified by the thread that cleared it, and `wgate` never
has two sleepers. -/
theorem no_lost_wakeup {s : System T x}
    (reachable : (machine T x).ReachableUnder (fun s _ => BelowSaturation s) s) :
    (∀ t, (s.pc t).blockedAt .wgate = true → readersActive s.state = false →
      ∃ u, s.pc u = .notifyingWgateOne) ∧
    (∀ t, (s.pc t).blockedAt .rgate = true → writerEntered s.state = false →
      ∃ u, s.pc u = .notifyingRgateAll) ∧
    (∀ t u, (s.pc t).blockedAt .wgate = true → (s.pc u).blockedAt .wgate = true → t = u) := by
  have signalled := signalled_of_reachable reachable
  have owned := owned_of_reachable reachable
  refine ⟨fun t blocked quiet => ?_, fun t blocked clear => ?_, fun t u first second => ?_⟩
  · exact signalled.wgate t blocked (owned.readersActive_false_iff.mp quiet)
  · exact signalled.rgate t blocked (owned.writerEntered_false_iff.mp clear)
  · apply owned.entered_unique
    · cases before : s.pc t <;> simp_all [ThreadPc.blockedAt, ThreadPc.isEntered]
    · cases before : s.pc u <;> simp_all [ThreadPc.blockedAt, ThreadPc.isEntered]

/-- The last reader has left a waiting writer and has not notified it yet. -/
theorem no_lost_wakeup_leaving_reader :
    ∃ s : System (Fin 2) 0,
      (machine (Fin 2) 0).ReachableUnder (fun s _ => BelowSaturation s) s ∧
      (s.pc 1).blockedAt .wgate = true ∧ readersActive s.state = false ∧
      ∃ u, s.pc u = .notifyingWgateOne := by
  obtain ⟨s, run, blocked, quiet⟩ : ∃ s : System (Fin 2) 0,
      (machine (Fin 2) 0).execUnder (fun s _ => BelowSaturation s) (initial (Fin 2) 0)
        [.lockShared 0, .lock 1, .unlockShared 0] = some s ∧
      (s.pc 1).blockedAt .wgate = true ∧ readersActive s.state = false :=
    ⟨_, rfl, by decide, by decide⟩
  have reached := Machine.reachableUnder_of_execUnder run
  exact ⟨s, reached, blocked, quiet, (no_lost_wakeup reached).1 1 blocked quiet⟩

end Conc11.SharedMutex
