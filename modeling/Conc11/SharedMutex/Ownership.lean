/-
Module: Conc11.SharedMutex.Ownership
Purpose: The ownership invariant of `SharedTimedMutex`: the packed word is the writer bit over the number
  of shared holders, at most one writer has entered, and an exclusive holder excludes everybody.
Trusted boundary: none
Main exports: Owned, Owned.transition, owned_of_reachable, readers_writer_lock
-/
import Conc11.Library.FlagCounter
import Conc11.SharedMutex.Model

namespace Conc11.SharedMutex

open Library Library.FlagCounter

variable {T : Type*} [Fintype T] {x : Nat}

/-! ## Reading the word -/

private theorem bit31 : 31 < 32 + x := by omega

theorem writerEntered_pack {flag : Bool} {count : Nat} (small : count < 2 ^ 31) :
    writerEntered (pack (32 + x) 31 flag count) = flag := by
  have reads : pack (32 + x) 31 flag count &&& flagMask (32 + x) 31 = 0#_ ↔ flag = false :=
    pack_and_flagMask_eq_zero bit31 small
  change (pack (32 + x) 31 flag count &&& flagMask (32 + x) 31 != 0#_) = flag
  cases flag <;> simp_all

theorem readersActive_pack {flag : Bool} {count : Nat} (small : count < 2 ^ 31) :
    readersActive (pack (32 + x) 31 flag count) = decide (count ≠ 0) := by
  have reads : pack (32 + x) 31 flag count &&& countMask (32 + x) 31 = 0#_ ↔ count = 0 :=
    pack_and_countMask_eq_zero bit31 small
  change (pack (32 + x) 31 flag count &&& countMask (32 + x) 31 != 0#_) = _
  rw [Bool.eq_iff_iff, bne_iff_ne, decide_eq_true_iff, Ne, reads]

theorem readerMayEnter_pack {flag : Bool} {count : Nat} (small : count < 2 ^ 31) :
    readerMayEnter (pack (32 + x) 31 flag count) = true ↔
      flag = false ∧ count < 2 ^ 31 - 1 := by
  have reads : pack (32 + x) 31 flag count &&& countMask (32 + x) 31 = countMask (32 + x) 31 ↔
      count = 2 ^ 31 - 1 :=
    pack_and_countMask_eq_countMask bit31 small
  change (!writerEntered (pack (32 + x) 31 flag count) &&
    pack (32 + x) 31 flag count &&& countMask (32 + x) 31 != countMask (32 + x) 31) = true ↔ _
  rw [Bool.and_eq_true, bne_iff_ne, Ne, reads, writerEntered_pack small, Bool.not_eq_true']
  exact and_congr_right fun _ => by omega

/-! ## The invariant -/

/-- What the word says about the threads, and what the threads exclude. -/
structure Owned (s : System T x) : Prop where
  word : s.state = pack (32 + x) 31 (s.enteredWriters == 1) s.sharedHolders
  oneWriter : s.enteredWriters ≤ 1
  fewReaders : s.sharedHolders < 2 ^ 31
  alone : ∀ t, s.pc t = .holdsExclusive → s.sharedHolders = 0

namespace Owned

variable {s : System T x}

theorem writerEntered_iff (owned : Owned s) :
    writerEntered s.state = true ↔ s.enteredWriters = 1 := by
  rw [owned.word, writerEntered_pack owned.fewReaders, beq_iff_eq]

theorem writerEntered_false_iff (owned : Owned s) :
    writerEntered s.state = false ↔ s.enteredWriters = 0 := by
  have few := owned.oneWriter
  rw [← Bool.not_eq_true, owned.writerEntered_iff]
  omega

theorem readersActive_false_iff (owned : Owned s) :
    readersActive s.state = false ↔ s.sharedHolders = 0 := by
  rw [owned.word, readersActive_pack owned.fewReaders]
  simp

theorem readerMayEnter_iff (owned : Owned s) :
    readerMayEnter s.state = true ↔ s.enteredWriters = 0 ∧ s.sharedHolders < 2 ^ 31 - 1 := by
  have few := owned.oneWriter
  rw [owned.word, readerMayEnter_pack owned.fewReaders, beq_eq_false_iff_ne]
  omega

/-- At most one thread has entered as a writer. -/
theorem entered_unique (owned : Owned s) (t u : T) (first : (s.pc t).isEntered = true)
    (second : (s.pc u).isEntered = true) : t = u := by
  have few : (Finset.univ.filter fun v => (s.pc v).isEntered = true).card ≤ 1 := owned.oneWriter
  exact Finset.card_le_one.mp few t (by simpa using first) u (by simpa using second)

/-- A set writer bit has its owner. -/
theorem exists_entered (owned : Owned s) (entered : writerEntered s.state = true) :
    ∃ t, (s.pc t).isEntered = true := by
  apply population_pos.mp
  have one := owned.writerEntered_iff.mp entered
  change 0 < s.enteredWriters
  omega

theorem initial : Owned (initial T x) := by
  have noReaders : (SharedMutex.initial T x).sharedHolders = 0 :=
    population_eq_zero.mpr fun _ => rfl
  have noWriters : (SharedMutex.initial T x).enteredWriters = 0 :=
    population_eq_zero.mpr fun _ => rfl
  constructor
  · rw [noReaders, noWriters]
    rfl
  · omega
  · omega
  · intro t held
    cases held

/-- A broadcast at `rgate` changes nobody's ownership. -/
theorem notifyAllRgate (owned : Owned s) : Owned (notifyAllRgate s) := by
  have samePhase : ∀ t, (SharedMutex.notifyAllRgate s).pc t = s.pc t ∨
      ∃ op, s.pc t = .atRgate op .blocked ∧
        (SharedMutex.notifyAllRgate s).pc t = .atRgate op .notified := by
    intro t
    unfold SharedMutex.notifyAllRgate
    cases before : s.pc t with
    | atRgate op status => cases status <;> simp [before, ThreadPc.blockedAt, ThreadPc.notified]
    | _ => simp [before, ThreadPc.blockedAt]
  have readers : (SharedMutex.notifyAllRgate s).sharedHolders = s.sharedHolders :=
    population_congr fun t => by
      rcases samePhase t with same | ⟨op, before, after⟩
      · rw [same]
      · rw [before, after]; rfl
  have writers : (SharedMutex.notifyAllRgate s).enteredWriters = s.enteredWriters :=
    population_congr fun t => by
      rcases samePhase t with same | ⟨op, before, after⟩
      · rw [same]
      · rw [before, after]; rfl
  refine ⟨?_, by rw [writers]; exact owned.oneWriter, by rw [readers]; exact owned.fewReaders, ?_⟩
  · rw [readers, writers]
    exact owned.word
  · intro t held
    rw [readers]
    rcases samePhase t with same | ⟨op, _, after⟩
    · exact owned.alone t (same ▸ held)
    · rw [after] at held
      cases held

variable [DecidableEq T]

/-! ## The five effects a step can have

Every section of the source changes one thread's position and does one of
five things to the word: nothing, set the bit, clear it, count a reader in,
count a reader out. -/

/-- A step that changes neither the word nor anybody's ownership. -/
theorem stay (owned : Owned s) (t : T) (pc : ThreadPc)
    (sameShared : pc.isShared = (s.pc t).isShared)
    (sameEntered : pc.isEntered = (s.pc t).isEntered)
    (exclusive : pc = .holdsExclusive → s.sharedHolders = 0) : Owned (s.goto t pc) := by
  have readers : (s.goto t pc).sharedHolders = s.sharedHolders :=
    population_update_same sameShared
  have writers : (s.goto t pc).enteredWriters = s.enteredWriters :=
    population_update_same sameEntered
  refine ⟨?_, by rw [writers]; exact owned.oneWriter, by rw [readers]; exact owned.fewReaders, ?_⟩
  · rw [readers, writers]
    exact owned.word
  · intro u held
    rw [readers]
    by_cases same : u = t
    · subst same
      exact exclusive (by simpa [System.goto] using held)
    · exact owned.alone u (by simpa [System.goto, same] using held)

/-- A writer passes `rgate`. -/
theorem enter (owned : Owned s) (t : T) (pc : ThreadPc)
    (clear : writerEntered s.state = false)
    (wasOutside : (s.pc t).isShared = false) (notShared : pc.isShared = false)
    (entered : pc.isEntered = true)
    (exclusive : pc = .holdsExclusive → s.sharedHolders = 0) :
    Owned { state := s.state ||| writerEnteredMask x, pc := Function.update s.pc t pc } := by
  have none := owned.writerEntered_false_iff.mp clear
  have wasNotEntered : (s.pc t).isEntered = false := population_eq_zero.mp none t
  set s' : System T x :=
    { state := s.state ||| writerEnteredMask x, pc := Function.update s.pc t pc } with after_def
  have readers : s'.sharedHolders = s.sharedHolders :=
    population_update_same (notShared.trans wasOutside.symm)
  have writers : s'.enteredWriters = s.enteredWriters + 1 :=
    population_update_enter wasNotEntered entered
  refine ⟨?_, by omega, by rw [readers]; exact owned.fewReaders, ?_⟩
  · rw [readers, writers, none, after_def]
    change s.state ||| flagMask (32 + x) 31 = _
    rw [owned.word, pack_or_flagMask bit31 owned.fewReaders]
    rfl
  · intro u held
    rw [readers]
    by_cases same : u = t
    · subst same
      exact exclusive (by simpa [after_def] using held)
    · exact owned.alone u (by simpa [after_def, same] using held)

/-- The entered writer clears its bit. -/
theorem leave (owned : Owned s) {t : T} {pc : ThreadPc}
    (wasEntered : (s.pc t).isEntered = true) (notShared : pc.isShared = false)
    (notEntered : pc.isEntered = false) :
    Owned { state := s.state &&& ~~~(writerEnteredMask x), pc := Function.update s.pc t pc } := by
  have wasNotShared : (s.pc t).isShared = false := by
    cases before : s.pc t <;> simp_all [ThreadPc.isShared, ThreadPc.isEntered]
  set s' : System T x :=
    { state := s.state &&& ~~~(writerEnteredMask x), pc := Function.update s.pc t pc } with after_def
  have readers : s'.sharedHolders = s.sharedHolders :=
    population_update_same (notShared.trans wasNotShared.symm)
  have writers : s'.enteredWriters + 1 = s.enteredWriters :=
    population_update_leave wasEntered notEntered
  have few := owned.oneWriter
  have none : s'.enteredWriters = 0 := by omega
  refine ⟨?_, by omega, by rw [readers]; exact owned.fewReaders, ?_⟩
  · rw [readers, none, after_def]
    change s.state &&& ~~~(flagMask (32 + x) 31) = _
    rw [owned.word, pack_and_not_flagMask bit31 owned.fewReaders]
    rfl
  · intro u held
    have stillEntered : (s'.pc u).isEntered = true := by rw [held]; rfl
    exact absurd (population_eq_zero.mp none u) (by simp [stillEntered])

/-- A reader enters: the count stays below bit 31 because the gate tested it. -/
theorem countIn (owned : Owned s) {t : T} (may : readerMayEnter s.state = true)
    (wasNotShared : (s.pc t).isShared = false) (wasNotEntered : (s.pc t).isEntered = false) :
    Owned { state := s.state + 1#_, pc := Function.update s.pc t .holdsShared } := by
  obtain ⟨none, room⟩ := owned.readerMayEnter_iff.mp may
  set s' : System T x :=
    { state := s.state + 1#_, pc := Function.update s.pc t .holdsShared } with after_def
  have readers : s'.sharedHolders = s.sharedHolders + 1 :=
    population_update_enter wasNotShared rfl
  have writers : s'.enteredWriters = s.enteredWriters :=
    population_update_same (by rw [wasNotEntered]; rfl)
  refine ⟨?_, by rw [writers]; exact owned.oneWriter, by omega, ?_⟩
  · rw [readers, writers, after_def, ← pack_add_one, ← owned.word]
  · intro u held
    have stillEntered : (s'.pc u).isEntered = true := by rw [held]; rfl
    exact absurd (population_eq_zero.mp (writers.trans none) u) (by simp [stillEntered])

/-- A reader leaves: its own share keeps the count from borrowing. -/
theorem countOut (owned : Owned s) {t : T} {pc : ThreadPc} (held : s.pc t = .holdsShared)
    (notShared : pc.isShared = false) (notEntered : pc.isEntered = false) :
    Owned { state := s.state - 1#_, pc := Function.update s.pc t pc } := by
  set s' : System T x :=
    { state := s.state - 1#_, pc := Function.update s.pc t pc } with after_def
  have readers : s'.sharedHolders + 1 = s.sharedHolders :=
    population_update_leave (by rw [held]; rfl) notShared
  have writers : s'.enteredWriters = s.enteredWriters :=
    population_update_same (by rw [notEntered, held]; rfl)
  have few := owned.fewReaders
  refine ⟨?_, by rw [writers]; exact owned.oneWriter, by omega, ?_⟩
  · calc s'.state = s.state - 1#_ := rfl
      _ = pack (32 + x) 31 (s.enteredWriters == 1) (s'.sharedHolders + 1) - 1#_ := by
          rw [readers, ← owned.word]
      _ = pack (32 + x) 31 (s'.enteredWriters == 1) s'.sharedHolders := by
          rw [pack_sub_one, writers]
  · intro u exclusive
    by_cases same : u = t
    · subst same
      have now : pc = .holdsExclusive := by simpa [after_def] using exclusive
      rw [now] at notEntered
      cases notEntered
    · have empty := owned.alone u (by simpa [after_def, same] using exclusive)
      omega

/-! ## The sections of the source -/

theorem passRgate (owned : Owned s) {t : T} (timed : Bool)
    (clear : writerEntered s.state = false) (wasOutside : (s.pc t).isShared = false) :
    Owned (passRgate s t timed) := by
  have reading : readersActive (s.state ||| writerEnteredMask x) =
      decide (s.sharedHolders ≠ 0) := by
    change readersActive (s.state ||| flagMask (32 + x) 31) = _
    rw [owned.word, pack_or_flagMask bit31 owned.fewReaders,
      readersActive_pack owned.fewReaders]
  unfold SharedMutex.passRgate
  simp only [reading]
  by_cases readers : s.sharedHolders = 0
  · exact owned.enter t _ clear wasOutside (by simp [readers, ThreadPc.isShared])
      (by simp [readers, ThreadPc.isEntered]) (fun _ => readers)
  · exact owned.enter t _ clear wasOutside (by simp [readers, ThreadPc.isShared])
      (by simp [readers, ThreadPc.isEntered]) (by simp [readers])

theorem rgateTest (owned : Owned s) {t : T} (op : GateOp) (expired : Bool)
    (wasNotShared : (s.pc t).isShared = false) (wasNotEntered : (s.pc t).isEntered = false) :
    Owned (rgateTest s t op expired) := by
  have toOutside : Owned (s.goto t .outside) :=
    owned.stay t _ wasNotShared.symm wasNotEntered.symm nofun
  have toGate : Owned (s.goto t (.atRgate op .blocked)) :=
    owned.stay t _ wasNotShared.symm wasNotEntered.symm nofun
  unfold SharedMutex.rgateTest
  cases op.exclusive with
  | true =>
      cases entered : writerEntered s.state with
      | false => simpa using owned.passRgate op.timed entered wasNotShared
      | true => cases expired <;> simpa
  | false =>
      cases may : readerMayEnter s.state with
      | true => simpa using owned.countIn may wasNotShared wasNotEntered
      | false => cases expired <;> simpa

theorem wgateTest (owned : Owned s) {t : T} {timed : Bool} {status : WaitStatus}
    (at_gate : s.pc t = .atWgate timed status) (expired : Bool) :
    Owned (wgateTest s t timed expired) := by
  unfold SharedMutex.wgateTest
  cases active : readersActive s.state with
  | false =>
      have empty := owned.readersActive_false_iff.mp active
      simpa using owned.stay t .holdsExclusive (by rw [at_gate]; rfl) (by rw [at_gate]; rfl)
        (fun _ => empty)
  | true =>
      cases expired with
      | true => simpa using owned.leave (by rw [at_gate]; rfl) rfl rfl
      | false =>
          simpa using owned.stay t (.atWgate timed .blocked) (by rw [at_gate]; rfl)
            (by rw [at_gate]; rfl) nofun

theorem tryLock (owned : Owned s) {t : T} (outside : s.pc t = .outside) (gotMutex : Bool) :
    Owned (tryLock s t gotMutex) := by
  unfold SharedMutex.tryLock
  split
  next taken =>
    have zero : s.state = 0#_ := by simp_all
    have empty : s.sharedHolders = 0 := by
      have both := (pack_eq_zero bit31 owned.fewReaders).mp (owned.word ▸ zero)
      exact both.2
    have clear : writerEntered s.state = false := by
      rw [zero]
      simp [writerEntered]
    have entered := owned.enter t .holdsExclusive clear (by rw [outside]; rfl) rfl rfl
      (fun _ => empty)
    rwa [zero, BitVec.zero_or] at entered
  next => exact owned

theorem tryLockShared (owned : Owned s) {t : T} (outside : s.pc t = .outside)
    (gotMutex : Bool) : Owned (tryLockShared s t gotMutex) := by
  unfold SharedMutex.tryLockShared
  split
  next taken =>
    rw [Bool.and_eq_true] at taken
    exact owned.countIn taken.2 (by rw [outside]; rfl) (by rw [outside]; rfl)
  next => exact owned

theorem unlockShared (owned : Owned s) {t : T} (held : s.pc t = .holdsShared) :
    Owned (unlockShared s t) := by
  unfold SharedMutex.unlockShared
  apply owned.countOut held
  · split_ifs <;> rfl
  · split_ifs <;> rfl

/-- A notification moves the thread it reaches between two statuses of one wait. -/
theorem notifyOne (owned : Owned s) {u : T} {gate : Gate}
    (blocked : (s.pc u).blockedAt gate = true) : Owned (s.goto u (s.pc u).notified) := by
  apply owned.stay u _ (by cases s.pc u <;> rfl) (by cases s.pc u <;> rfl)
  intro exclusive
  cases before : s.pc u <;> simp_all [ThreadPc.notified, ThreadPc.blockedAt]

/-! ## Runs -/

/-- Every transition keeps the invariant. -/
theorem transition {s' : System T x} (owned : Owned s) (moved : Transition s s') :
    Owned s' := by
  cases moved with
  | request t op outside =>
      exact owned.rgateTest op false (by rw [outside]; rfl) (by rw [outside]; rfl)
  | tryLock t gotMutex outside => exact owned.tryLock outside gotMutex
  | unlock t held => exact owned.leave (by rw [held]; rfl) rfl rfl
  | tryLockShared t gotMutex outside => exact owned.tryLockShared outside gotMutex
  | unlockShared t held => exact owned.unlockShared held
  | unblockRgate t op waiting =>
      exact owned.stay t _ (by rw [waiting]; rfl) (by rw [waiting]; rfl) nofun
  | unblockWgate t timed waiting =>
      exact owned.stay t _ (by rw [waiting]; rfl) (by rw [waiting]; rfl) nofun
  | resumeRgate t op status expired waiting _ _ =>
      exact owned.rgateTest op expired (by rw [waiting]; rfl) (by rw [waiting]; rfl)
  | resumeWgate t timed status expired waiting _ _ => exact owned.wgateTest waiting expired
  | notifyAll t sending =>
      have unmoved : (SharedMutex.notifyAllRgate s).pc t = .notifyingRgateAll := by
        simp [SharedMutex.notifyAllRgate, sending, ThreadPc.blockedAt]
      exact owned.notifyAllRgate.stay t _ (by rw [unmoved]; rfl) (by rw [unmoved]; rfl) nofun
  | notifyNobody t gate sending nobody =>
      exact owned.stay t _ (by rw [sending]; cases gate <;> rfl)
        (by rw [sending]; cases gate <;> rfl) nofun
  | notifyOne t u gate sending blocked =>
      -- the sender is not blocked itself, so the receiver's move leaves it alone
      have other : t ≠ u := by
        rintro rfl
        rw [sending] at blocked
        cases gate <;> cases blocked
      have unmoved : (s.goto u (s.pc u).notified).pc t = gate.notifyingOne := by
        rw [← sending]
        exact Function.update_of_ne other _ _
      exact (owned.notifyOne blocked).stay t _ (by rw [unmoved]; cases gate <;> rfl)
        (by rw [unmoved]; cases gate <;> rfl) nofun

end Owned

variable [DecidableEq T]

/-- The invariant holds in every reachable state, whatever the steps are restricted to. -/
theorem owned_of_reachable {ok : System T x → Action T → Prop} {s : System T x}
    (reachable : (machine T x).ReachableUnder ok s) : Owned s :=
  reachable.invariant .initial fun _ _ _ _ owned _ stepEq =>
    owned.transition (transition_of_step stepEq)

/-- `SharedTimedMutex` is a readers-writer lock.  In every reachable state the
low 31 bits count the shared holders, the writer bit says whether one thread
has entered as a writer, an exclusive holder is alone, and neither `state += 1`
behind the readers' gate nor `state -= 1` by a holder touches the writer bit. -/
theorem readers_writer_lock {s : System T x} (reachable : (machine T x).Reachable s) :
    (s.state &&& numReaderMask x).toNat = s.sharedHolders ∧
    (writerEntered s.state = true ↔ ∃! t, (s.pc t).isEntered = true) ∧
    (∀ t u, (s.pc t).isEntered = true → (s.pc u).isEntered = true → t = u) ∧
    (∀ t u, s.pc t = .holdsExclusive → u ≠ t →
      s.pc u ≠ .holdsExclusive ∧ s.pc u ≠ .holdsShared) ∧
    (readerMayEnter s.state = true →
      ((s.state + 1#_) &&& numReaderMask x).toNat = s.sharedHolders + 1 ∧
      (s.state + 1#_) &&& writerEnteredMask x = s.state &&& writerEnteredMask x) ∧
    ((∃ t, s.pc t = .holdsShared) →
      ((s.state - 1#_) &&& numReaderMask x).toNat + 1 = s.sharedHolders ∧
      (s.state - 1#_) &&& writerEnteredMask x = s.state &&& writerEnteredMask x) := by
  have owned := owned_of_reachable reachable
  have small := owned.fewReaders
  have unique := owned.entered_unique
  refine ⟨?_, ⟨?_, ?_⟩, unique, ?_, ?_, ?_⟩
  · rw [owned.word]
    exact toNat_pack_and_countMask bit31 small
  · intro entered
    obtain ⟨t, isIn⟩ := owned.exists_entered entered
    exact ⟨t, isIn, fun u other => unique u t other isIn⟩
  · rintro ⟨t, isIn, _⟩
    rw [owned.writerEntered_iff]
    have some_ : 0 < s.enteredWriters := population_pos.mpr ⟨t, isIn⟩
    have few := owned.oneWriter
    omega
  · intro t u held other
    refine ⟨fun heldToo => other (unique u t (by rw [heldToo]; rfl) (by rw [held]; rfl)), ?_⟩
    intro shared
    have none := population_eq_zero.mp (owned.alone t held) u
    rw [shared] at none
    cases none
  · intro may
    obtain ⟨_, room⟩ := owned.readerMayEnter_iff.mp may
    have below : s.sharedHolders + 1 < 2 ^ 31 := by omega
    rw [owned.word, pack_add_one]
    exact ⟨toNat_pack_and_countMask bit31 below,
      (pack_and_flagMask bit31 below).trans (pack_and_flagMask bit31 small).symm⟩
  · rintro ⟨t, shared⟩
    have positive : 0 < s.sharedHolders := population_pos.mpr ⟨t, by rw [shared]; rfl⟩
    obtain ⟨count, isSucc⟩ : ∃ count, s.sharedHolders = count + 1 :=
      Nat.exists_eq_succ_of_ne_zero positive.ne'
    have below : count < 2 ^ 31 := by omega
    rw [owned.word, isSucc, pack_sub_one]
    exact ⟨congrArg (· + 1) (toNat_pack_and_countMask bit31 below),
      (pack_and_flagMask bit31 below).trans (pack_and_flagMask bit31 (isSucc ▸ small)).symm⟩

/-- Two readers, then a writer that waits behind them: the run the witness looks at. -/
theorem readers_writer_lock_waiting_writer :
    ∃ s : System (Fin 3) 32, (machine (Fin 3) 32).Reachable s ∧
      s.pc 2 = .atWgate false .blocked ∧ (s.state &&& numReaderMask 32).toNat = 2 ∧
      (writerEntered s.state = true ↔ ∃! t, (s.pc t).isEntered = true) := by
  obtain ⟨s, run, waiting⟩ : ∃ s : System (Fin 3) 32,
      (machine (Fin 3) 32).exec (initial (Fin 3) 32) [.lockShared 0, .lockShared 1, .lock 2] =
        some s ∧ s.pc 2 = .atWgate false .blocked ∧ s.sharedHolders = 2 := by
    exact ⟨_, rfl, by decide, by decide⟩
  have lock := readers_writer_lock (Machine.reachable_of_exec run)
  exact ⟨s, Machine.reachable_of_exec run, waiting.1, lock.1.trans waiting.2, lock.2.1⟩

end Conc11.SharedMutex
