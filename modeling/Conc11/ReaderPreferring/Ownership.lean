/-
Module: Conc11.ReaderPreferring.Ownership
Purpose: `ReaderPreferringSharedTimedMutex` is a readers-writer lock that loses no wake-up: the word says who
  holds the mutex, and whoever sleeps on a free mutex is about to be notified.
Trusted boundary: none
Main exports: Locked, Locked.transition, locked_of_reachable, reader_preferring_lock
-/
import Conc11.Library.Broadcast
import Conc11.SharedMutex.Ownership
import Conc11.ReaderPreferring.Model

namespace Conc11.ReaderPreferring

open Library Library.FlagCounter
open SharedMutex (GateOp)

variable {T : Type*} [Fintype T] {x : Nat}

/-! ## Reading the word

The masks are those of `SharedTimedMutex` under other names. -/

private theorem writerBit : 31 < 32 + x := by omega

theorem readerMayEnter_pack {flag : Bool} {count : Nat} (small : count < 2 ^ 31) :
    readerMayEnter (pack (32 + x) 31 flag count) = true ↔ flag = false ∧ count < 2 ^ 31 - 1 :=
  SharedMutex.readerMayEnter_pack small

theorem writerActiveMask_eq_pack : writerActiveMask x = pack (32 + x) 31 true 0 :=
  flagMask_eq_pack writerBit

/-- Both predicates hold of a free mutex. -/
theorem mayAcquire_zero (op : GateOp) : mayAcquire op (0#(32 + x)) = true := by
  cases exclusive : op.exclusive with
  | true => simp [mayAcquire, exclusive]
  | false =>
      have free : readerMayEnter (pack (32 + x) 31 false 0) = true :=
        (readerMayEnter_pack (by omega)).mpr ⟨rfl, by omega⟩
      unfold mayAcquire
      rw [exclusive]
      exact free

/-! ## The invariant -/

/-- The number of threads in shared ownership. -/
def System.sharedHolders (s : System T x) : Nat := population ThreadPc.isShared s.pc

/-- The number of threads in exclusive ownership. -/
def System.exclusiveHolders (s : System T x) : Nat := population ThreadPc.isExclusive s.pc

/-- What the word says about the threads, and who is going to be notified. -/
structure Locked (s : System T x) : Prop where
  word : s.state = pack (32 + x) 31 (s.exclusiveHolders == 1) s.sharedHolders
  oneWriter : s.exclusiveHolders ≤ 1
  fewReaders : s.sharedHolders < 2 ^ 31
  alone : s.exclusiveHolders = 1 → s.sharedHolders = 0
  signalled : Attended ThreadPc.isBlocked ThreadPc.isNotifying (fun _ => s.state = 0#_) s.pc

namespace Locked

variable {s : System T x}

theorem state_eq_zero (locked : Locked s) :
    s.state = 0#_ ↔ s.exclusiveHolders = 0 ∧ s.sharedHolders = 0 := by
  have few := locked.oneWriter
  rw [locked.word, pack_eq_zero writerBit locked.fewReaders, beq_eq_false_iff_ne]
  exact and_congr_left fun _ => by omega

theorem readerMayEnter_iff (locked : Locked s) :
    readerMayEnter s.state = true ↔ s.exclusiveHolders = 0 ∧ s.sharedHolders < 2 ^ 31 - 1 := by
  have few := locked.oneWriter
  rw [locked.word, readerMayEnter_pack locked.fewReaders, beq_eq_false_iff_ne]
  exact and_congr_left fun _ => by omega

theorem initial : Locked (initial T x) := by
  have noReaders : (ReaderPreferring.initial T x).sharedHolders = 0 :=
    population_eq_zero.mpr fun _ => rfl
  have noWriters : (ReaderPreferring.initial T x).exclusiveHolders = 0 :=
    population_eq_zero.mpr fun _ => rfl
  refine ⟨?_, by omega, by omega, fun _ => noReaders, fun _ sleeps => ?_⟩
  · rw [noReaders, noWriters]
    rfl
  · cases sleeps

variable [DecidableEq T] {t : T}

/-! ## The effects a step can have -/

/-- A thread moves, the word and everybody's ownership stay. -/
theorem stay (locked : Locked s) {pc : ThreadPc}
    (sameShared : pc.isShared = (s.pc t).isShared)
    (sameExclusive : pc.isExclusive = (s.pc t).isExclusive)
    (notSending : (s.pc t).isNotifying = false)
    (sleepsOnTaken : pc.isBlocked = true → s.state ≠ 0#_) : Locked (s.goto t pc) := by
  have readers : (s.goto t pc).sharedHolders = s.sharedHolders :=
    population_update_same sameShared
  have writers : (s.goto t pc).exclusiveHolders = s.exclusiveHolders :=
    population_update_same sameExclusive
  constructor
  · rw [readers, writers]
    exact locked.word
  · rw [writers]
    exact locked.oneWriter
  · rw [readers]
    exact locked.fewReaders
  · rw [readers, writers]
    exact locked.alone
  · apply locked.signalled.move (fun _ _ _ free => free) sleepsOnTaken
    intro sending
    rw [notSending] at sending
    cases sending

/-- A thread that takes the mutex or leaves it taken gives no sleeper a reason to go on. -/
private theorem signalled_of_taken (locked : Locked s) {s' : System T x} {pc : ThreadPc}
    (moved : s'.pc = Function.update s.pc t pc) (taken : s'.state ≠ 0#_)
    (notSending : (s.pc t).isNotifying = false) :
    Attended ThreadPc.isBlocked ThreadPc.isNotifying (fun _ => s'.state = 0#_) s'.pc := by
  rw [moved]
  apply locked.signalled.move
  · intro _ _ _ free
    exact absurd free taken
  · intro _ free
    exact absurd free taken
  · intro sending
    rw [notSending] at sending
    cases sending

theorem takeExclusive (locked : Locked s) (free : s.state = 0#_)
    (notHolding : (s.pc t).isShared = false) (notSending : (s.pc t).isNotifying = false) :
    Locked (s.takeExclusive t) := by
  obtain ⟨noWriter, noReader⟩ := locked.state_eq_zero.mp free
  have notExclusive : (s.pc t).isExclusive = false := population_eq_zero.mp noWriter t
  have readers : (s.takeExclusive t).sharedHolders = s.sharedHolders :=
    population_update_same notHolding.symm
  have writers : (s.takeExclusive t).exclusiveHolders = s.exclusiveHolders + 1 :=
    population_update_enter notExclusive rfl
  have word : (s.takeExclusive t).state = pack (32 + x) 31 true 0 := writerActiveMask_eq_pack
  refine ⟨?_, by omega, by omega, fun _ => by omega, ?_⟩
  · rw [word, readers, writers, noReader, noWriter]
    rfl
  · apply locked.signalled_of_taken rfl _ notSending
    rw [word, Ne, pack_eq_zero writerBit (by omega)]
    simp

theorem takeShared (locked : Locked s) (may : readerMayEnter s.state = true)
    (notHolding : (s.pc t).isShared = false) (notSending : (s.pc t).isNotifying = false) :
    Locked (s.takeShared t) := by
  obtain ⟨noWriter, room⟩ := locked.readerMayEnter_iff.mp may
  have notExclusive : (s.pc t).isExclusive = false := population_eq_zero.mp noWriter t
  have readers : (s.takeShared t).sharedHolders = s.sharedHolders + 1 :=
    population_update_enter notHolding rfl
  have writers : (s.takeShared t).exclusiveHolders = s.exclusiveHolders :=
    population_update_same notExclusive.symm
  have word : (s.takeShared t).state = pack (32 + x) 31 false (s.sharedHolders + 1) := by
    calc (s.takeShared t).state = s.state + 1#_ := rfl
      _ = pack (32 + x) 31 (s.exclusiveHolders == 1) s.sharedHolders + 1#_ := by
          rw [← locked.word]
      _ = pack (32 + x) 31 false (s.sharedHolders + 1) := by
          rw [pack_add_one, noWriter]
          rfl
  refine ⟨?_, by omega, by omega, fun _ => by omega, ?_⟩
  · rw [word, readers, writers, noWriter]
    rfl
  · apply locked.signalled_of_taken rfl _ notSending
    rw [word, Ne, pack_eq_zero writerBit (by omega)]
    simp

theorem unlock (locked : Locked s) (held : s.pc t = .holdsExclusive) : Locked (unlock s t) := by
  have readers : (ReaderPreferring.unlock s t).sharedHolders = s.sharedHolders :=
    population_update_same (by rw [held]; rfl)
  have writers : (ReaderPreferring.unlock s t).exclusiveHolders + 1 = s.exclusiveHolders :=
    population_update_leave (by rw [held]; rfl) rfl
  have few := locked.oneWriter
  have noReader := locked.alone (by omega)
  have noWriter : (ReaderPreferring.unlock s t).exclusiveHolders = 0 := by omega
  refine ⟨?_, by omega, by omega, fun _ => by omega, .announce rfl⟩
  -- 0 is the right word because an exclusive holder is alone
  rw [readers, noWriter, noReader]
  rfl

theorem unlockShared (locked : Locked s) (held : s.pc t = .holdsShared) :
    Locked (unlockShared s t) := by
  have notShared : ∀ free : Bool,
      (if free then ThreadPc.notifying else .outside).isShared = false := by decide
  have notExclusive : ∀ free : Bool,
      (if free then ThreadPc.notifying else .outside).isExclusive = false := by decide
  have readers : (ReaderPreferring.unlockShared s t).sharedHolders + 1 = s.sharedHolders :=
    population_update_leave (by rw [held]; rfl) (notShared _)
  have writers : (ReaderPreferring.unlockShared s t).exclusiveHolders = s.exclusiveHolders :=
    population_update_same (by rw [held]; exact notExclusive _)
  have few := locked.oneWriter
  have small := locked.fewReaders
  have noWriter : s.exclusiveHolders ≠ 1 := fun one => by
    have noReader := locked.alone one
    omega
  refine ⟨?_, by omega, by omega, fun one => absurd (writers ▸ one) noWriter, ?_⟩
  · calc (ReaderPreferring.unlockShared s t).state = s.state - 1#_ := rfl
      _ = pack (32 + x) 31 (s.exclusiveHolders == 1)
            ((ReaderPreferring.unlockShared s t).sharedHolders + 1) - 1#_ := by
          rw [readers, ← locked.word]
      _ = _ := by rw [pack_sub_one, writers]
  · cases free : s.state - 1#_ == 0#_ with
    | true =>
        have sends : ReaderPreferring.unlockShared s t =
            { state := s.state - 1#_, pc := Function.update s.pc t .notifying } := by
          simp [ReaderPreferring.unlockShared, free]
        rw [sends]
        exact .announce rfl
    | false =>
        apply locked.signalled_of_taken rfl _ (by rw [held]; rfl)
        exact beq_eq_false_iff_ne.mp free

theorem notifyAll (locked : Locked s) (sending : s.pc t = .notifying) :
    Locked (notifyAll s t) := by
  have itself : (s.pc t).notified = .notifying := by rw [sending]; rfl
  have readers : (ReaderPreferring.notifyAll s t).sharedHolders = s.sharedHolders :=
    (population_update_same (by rw [itself]; rfl)).trans
      (population_congr fun u => (s.pc u).isShared_notified)
  have writers : (ReaderPreferring.notifyAll s t).exclusiveHolders = s.exclusiveHolders :=
    (population_update_same (by rw [itself]; rfl)).trans
      (population_congr fun u => (s.pc u).isExclusive_notified)
  constructor
  · rw [readers, writers]
    exact locked.word
  · rw [writers]
    exact locked.oneWriter
  · rw [readers]
    exact locked.fewReaders
  · rw [readers, writers]
    exact locked.alone
  · exact .broadcast ThreadPc.isBlocked_notified rfl

/-! ## The sections of the source -/

theorem stateTest (locked : Locked s) (op : GateOp) (expired : Bool)
    (notShared : (s.pc t).isShared = false) (notExclusive : (s.pc t).isExclusive = false)
    (notSending : (s.pc t).isNotifying = false) : Locked (stateTest s t op expired) := by
  unfold ReaderPreferring.stateTest
  cases may : mayAcquire op s.state with
  | true =>
      cases exclusive : op.exclusive with
      | true =>
          have free : s.state = 0#_ := by simpa [mayAcquire, exclusive] using may
          simpa using locked.takeExclusive free notShared notSending
      | false =>
          have room : readerMayEnter s.state = true := by simpa [mayAcquire, exclusive] using may
          simpa using locked.takeShared room notShared notSending
  | false =>
      cases expired with
      | true =>
          have toOutside : Locked (s.goto t .outside) :=
            locked.stay notShared.symm notExclusive.symm notSending nofun
          simpa using toOutside
      | false =>
          -- a thread goes to sleep only on a taken mutex
          have taken : s.state ≠ 0#_ := by
            intro free
            rw [free, mayAcquire_zero] at may
            cases may
          have toCv : Locked (s.goto t (.waiting op .blocked)) :=
            locked.stay notShared.symm notExclusive.symm notSending fun _ => taken
          simpa using toCv

theorem transition {s' : System T x} (locked : Locked s) (moved : Transition s s') :
    Locked s' := by
  cases moved with
  | request t op outside =>
      exact locked.stateTest op false (by rw [outside]; rfl) (by rw [outside]; rfl)
        (by rw [outside]; rfl)
  | tryLock t gotMutex outside =>
      unfold ReaderPreferring.tryLock
      split
      next taken =>
        have free : s.state = 0#_ := by simp_all
        exact locked.takeExclusive free (by rw [outside]; rfl) (by rw [outside]; rfl)
      next => exact locked
  | tryLockShared t gotMutex outside =>
      unfold ReaderPreferring.tryLockShared
      split
      next taken =>
        rw [Bool.and_eq_true] at taken
        exact locked.takeShared taken.2 (by rw [outside]; rfl) (by rw [outside]; rfl)
      next => exact locked
  | unlock t held => exact locked.unlock held
  | unlockShared t held => exact locked.unlockShared held
  | notifyAll t sending => exact locked.notifyAll sending
  | unblock t op waiting =>
      exact locked.stay (by rw [waiting]; rfl) (by rw [waiting]; rfl) (by rw [waiting]; rfl) nofun
  | resume t op status expired waiting _ _ =>
      exact locked.stateTest op expired (by rw [waiting]; rfl) (by rw [waiting]; rfl)
        (by rw [waiting]; rfl)

end Locked

variable [DecidableEq T]

theorem locked_of_reachable {ok : System T x → Action T → Prop} {s : System T x}
    (reachable : (machine T x).ReachableUnder ok s) : Locked s :=
  reachable.invariant .initial fun _ _ _ _ locked _ stepEq =>
    locked.transition (transition_of_step stepEq)

/-- `ReaderPreferringSharedTimedMutex` is a readers-writer lock without lost
wake-ups.  The word is 2^31 under an exclusive holder and otherwise the number
of shared holders, an exclusive holder is alone, and while somebody is blocked
on a free mutex, a thread is between the release and its `notify_all`. -/
theorem reader_preferring_lock {s : System T x} (reachable : (machine T x).Reachable s) :
    ((∃ t, s.pc t = .holdsExclusive) → s.state.toNat = 2 ^ 31) ∧
      ((∀ t, s.pc t ≠ .holdsExclusive) → s.state.toNat = s.sharedHolders) ∧
      s.sharedHolders ≤ 2 ^ 31 - 1 ∧
      (∀ t u, s.pc t = .holdsExclusive → s.pc u = .holdsExclusive ∨ s.pc u = .holdsShared →
        u = t) ∧
      (s.state = 0#_ → ∀ t op, s.pc t = .waiting op .blocked → ∃ u, s.pc u = .notifying) := by
  have locked := locked_of_reachable reachable
  have few := locked.oneWriter
  have small := locked.fewReaders
  have exclusive_iff : ∀ pc : ThreadPc, pc.isExclusive = true ↔ pc = .holdsExclusive := by
    intro pc
    cases pc <;> simp [ThreadPc.isExclusive]
  have one : ∀ t, s.pc t = .holdsExclusive → s.exclusiveHolders = 1 := by
    intro t held
    have some : 0 < s.exclusiveHolders :=
      population_pos.mpr ⟨t, (exclusive_iff _).mpr held⟩
    omega
  have value := congrArg BitVec.toNat locked.word
  rw [toNat_pack writerBit small] at value
  refine ⟨?_, ?_, by omega, ?_, ?_⟩
  · rintro ⟨t, held⟩
    have noReader := locked.alone (one t held)
    simpa [one t held, noReader] using value
  · intro nobody
    have none : s.exclusiveHolders = 0 := population_eq_zero.mpr fun t => by
      rw [← Bool.not_eq_true, exclusive_iff]
      exact nobody t
    simpa [none] using value
  · intro t u held holds
    rcases holds with exclusive | shared
    · have atMostOne : (Finset.univ.filter fun v => (s.pc v).isExclusive = true).card ≤ 1 := few
      apply Finset.card_le_one.mp atMostOne
      · simpa [exclusive_iff] using exclusive
      · simpa [exclusive_iff] using held
    · have noReader : (s.pc u).isShared = false :=
        population_eq_zero.mp (locked.alone (one t held)) u
      rw [shared] at noReader
      cases noReader
  · intro free t op blocked
    obtain ⟨u, sending⟩ := locked.signalled t (by rw [blocked]; rfl) free
    refine ⟨u, ?_⟩
    cases pc : s.pc u with
    | notifying => rfl
    | _ =>
        rw [pc] at sending
        cases sending

/-- A reader and a timed writer sleep while the writer that held the mutex has
released it and has not notified yet. -/
theorem reader_preferring_lock_three_threads :
    ∃ s, (machine (Fin 3) 0).Reachable s ∧ s.pc 1 = .waiting .lockShared .blocked ∧
      s.pc 2 = .waiting .tryLockUntil .blocked ∧ ∃ u, s.pc u = .notifying := by
  have run : ((machine (Fin 3) 0).exec (initial (Fin 3) 0)
      [.lock 0, .lockShared 1, .tryLockUntil 2, .unlock 0]).map
        (fun s => (s.state, s.pc 1, s.pc 2)) =
      some (0#32, .waiting .lockShared .blocked, .waiting .tryLockUntil .blocked) := by
    decide +kernel
  obtain ⟨s, runs, observed⟩ := Option.map_eq_some_iff.mp run
  simp only [Prod.mk.injEq] at observed
  obtain ⟨free, reader, writer⟩ := observed
  have reached := Machine.reachable_of_exec runs
  obtain ⟨_, _, _, _, signalled⟩ := reader_preferring_lock reached
  exact ⟨s, reached, reader, writer, signalled free 1 .lockShared reader⟩

end Conc11.ReaderPreferring
