/-
Module: Conc11.SharedMutex.Overtaking
Purpose: An entered writer of `SharedTimedMutex` is not overtaken.  From the step that sets the writer bit to
  the step with which the same writer clears it, nobody else acquires anything and readers only leave.
Trusted boundary: none
Main exports: Action.actor, ClearsBit, pc_of_ne_actor, entered_or_clears, shared_of_transition, Window,
  entered_writer_not_overtaken
-/
import Conc11.SharedMutex.Ownership

namespace Conc11.SharedMutex

open Library Library.FlagCounter

variable {T : Type*} {x : Nat}

/-- The thread that takes the step. -/
def Action.actor : Action T → T
  | .lock t | .tryLock t _ | .tryLockUntil t | .unlock t
  | .lockShared t | .tryLockShared t _ | .tryLockSharedUntil t | .unlockShared t
  | .unblock t | .resume t _ | .notifyAll t | .notifyOne t _ => t

/-- The thread waits at `wgate` inside `try_lock_until`. -/
def ThreadPc.inSecondWait : ThreadPc → Bool
  | .atWgate timed _ => timed
  | _ => false

/-- The steps with which writer `w` clears its bit: its `unlock`, and the
expiry of its second wait with readers left. -/
def ClearsBit (w : T) (s : System T x) : Action T → Prop
  | .unlock t => t = w
  | .resume t expired =>
      t = w ∧ expired = true ∧ (s.pc w).inSecondWait = true ∧ readersActive s.state = true
  | _ => False

instance [DecidableEq T] (w : T) (s : System T x) : (a : Action T) → Decidable (ClearsBit w s a)
  | .unlock t => inferInstanceAs (Decidable (t = w))
  | .resume t expired =>
      inferInstanceAs (Decidable
        (t = w ∧ expired = true ∧ (s.pc w).inSecondWait = true ∧ readersActive s.state = true))
  | .lock _ | .tryLock _ _ | .tryLockUntil _ | .lockShared _ | .tryLockShared _ _
  | .tryLockSharedUntil _ | .unlockShared _ | .unblock _ | .notifyAll _ | .notifyOne _ _ =>
      .isFalse id

/-! ## What a step does to the other threads -/

section Frames

variable [DecidableEq T] {s : System T x} {t u : T}

theorem rgateTest_pc_of_ne (other : u ≠ t) (op : GateOp) (expired : Bool) :
    (rgateTest s t op expired).pc u = s.pc u := by
  unfold rgateTest passRgate System.goto
  split_ifs <;> exact Function.update_of_ne other _ _

theorem wgateTest_pc_of_ne (other : u ≠ t) (timed expired : Bool) :
    (wgateTest s t timed expired).pc u = s.pc u := by
  unfold wgateTest System.goto
  split_ifs <;> exact Function.update_of_ne other _ _

theorem tryLock_pc_of_ne (other : u ≠ t) (gotMutex : Bool) :
    (tryLock s t gotMutex).pc u = s.pc u := by
  unfold tryLock
  split_ifs
  · exact Function.update_of_ne other _ _
  · rfl

theorem tryLockShared_pc_of_ne (other : u ≠ t) (gotMutex : Bool) :
    (tryLockShared s t gotMutex).pc u = s.pc u := by
  unfold tryLockShared
  split_ifs
  · exact Function.update_of_ne other _ _
  · rfl

theorem ThreadPc.isShared_of_isEntered {pc : ThreadPc} (entered : pc.isEntered = true) :
    pc.isShared = false := by
  cases pc <;> first | rfl | cases entered

/-- A notification changes the status of a wait and nothing else. -/
theorem ThreadPc.isShared_notified (pc : ThreadPc) : pc.notified.isShared = pc.isShared := by
  cases pc <;> rfl

theorem ThreadPc.isEntered_notified (pc : ThreadPc) : pc.notified.isEntered = pc.isEntered := by
  cases pc <;> rfl

variable [Fintype T]

theorem notifyOne_pc {s' : System T x} {gate : Gate} {target : Option T}
    (sent : notifyOne s gate target = some s') (u : T) :
    s'.pc u = s.pc u ∨ s'.pc u = (s.pc u).notified := by
  cases target with
  | none =>
      obtain ⟨_, same⟩ := Option.ite_none_right_eq_some.mp sent
      cases same
      exact .inl rfl
  | some v =>
      obtain ⟨_, moved⟩ := Option.ite_none_right_eq_some.mp sent
      cases moved
      by_cases receiver : u = v
      · subst receiver
        exact .inr (Function.update_self _ _ _)
      · exact .inl (goto_pc_of_ne receiver _)

/-- A step moves its own thread; the others it may notify. -/
theorem pc_of_ne_actor {s' : System T x} {a : Action T} (stepEq : step s a = some s')
    (other : u ≠ a.actor) : s'.pc u = s.pc u ∨ s'.pc u = (s.pc u).notified := by
  cases a
  case unblock t =>
    left
    dsimp only [step] at stepEq
    split at stepEq <;> cases stepEq
    all_goals exact goto_pc_of_ne other _
  case resume t expired =>
    left
    dsimp only [step] at stepEq
    split at stepEq
    next op status _ =>
      obtain ⟨_, moved⟩ := Option.ite_none_right_eq_some.mp stepEq
      cases moved
      exact rgateTest_pc_of_ne other op expired
    next timed status _ =>
      obtain ⟨_, moved⟩ := Option.ite_none_right_eq_some.mp stepEq
      cases moved
      exact wgateTest_pc_of_ne other timed expired
    next => cases stepEq
  case notifyOne t target =>
    have sends : ∀ {gate}, (notifyOne s gate target).map (fun s => s.goto t .outside) = some s' →
        s'.pc u = s.pc u ∨ s'.pc u = (s.pc u).notified := by
      intro gate ran
      obtain ⟨middle, sent, moved⟩ := Option.map_eq_some_iff.mp ran
      cases moved
      have unmoved : (middle.goto t .outside).pc u = middle.pc u := goto_pc_of_ne other _
      rw [unmoved]
      exact notifyOne_pc sent u
    dsimp only [step] at stepEq
    split at stepEq
    next => exact sends stepEq
    next => exact sends stepEq
    next => cases stepEq
  all_goals
    obtain ⟨position, moved⟩ := Option.ite_none_right_eq_some.mp stepEq
    cases moved
  case notifyAll t =>
    have unmoved : ((notifyAllRgate s).goto t .outside).pc u = (notifyAllRgate s).pc u :=
      goto_pc_of_ne other _
    rw [unmoved]
    unfold notifyAllRgate
    dsimp only
    split_ifs
    · exact .inr rfl
    · exact .inl rfl
  case lock t => exact .inl (rgateTest_pc_of_ne other _ _)
  case tryLock t gotMutex => exact .inl (tryLock_pc_of_ne other gotMutex)
  case tryLockUntil t => exact .inl (rgateTest_pc_of_ne other _ _)
  case lockShared t => exact .inl (rgateTest_pc_of_ne other _ _)
  case tryLockShared t gotMutex => exact .inl (tryLockShared_pc_of_ne other gotMutex)
  case tryLockSharedUntil t => exact .inl (rgateTest_pc_of_ne other _ _)
  case unlock t => exact .inl (Function.update_of_ne other _ _)
  case unlockShared t => exact .inl (Function.update_of_ne other _ _)

/-- Whoever has entered in a step it did not take had entered before. -/
theorem isEntered_of_ne_actor {s' : System T x} {a : Action T} (stepEq : step s a = some s')
    (other : u ≠ a.actor) : (s'.pc u).isEntered = (s.pc u).isEntered := by
  rcases pc_of_ne_actor stepEq other with same | notified
  · rw [same]
  · rw [notified, ThreadPc.isEntered_notified]

theorem isShared_of_ne_actor {s' : System T x} {a : Action T} (stepEq : step s a = some s')
    (other : u ≠ a.actor) : (s'.pc u).isShared = (s.pc u).isShared := by
  rcases pc_of_ne_actor stepEq other with same | notified
  · rw [same]
  · rw [notified, ThreadPc.isShared_notified]

/-! ## The entered writer -/

/-- An entered writer stays entered until it clears its bit. -/
theorem entered_or_clears {s' : System T x} {a : Action T} {w : T} (stepEq : step s a = some s')
    (entered : (s.pc w).isEntered = true) (keeps : ¬ ClearsBit w s a) :
    (s'.pc w).isEntered = true := by
  by_cases own : w = a.actor
  case neg => rw [isEntered_of_ne_actor stepEq own, entered]
  subst own
  have notOutside : s.pc a.actor ≠ .outside := fun outside => by
    rw [outside] at entered
    cases entered
  cases a
  case unlock t => exact absurd rfl keeps
  case unblock t =>
    dsimp only [step, Action.actor] at stepEq entered ⊢
    split at stepEq
    next op waiting =>
      rw [waiting] at entered
      cases entered
    next timed waiting =>
      cases stepEq
      simp [System.goto, ThreadPc.isEntered]
    next => cases stepEq
  case resume t expired =>
    dsimp only [step, Action.actor] at stepEq entered ⊢
    split at stepEq
    next op status waiting =>
      rw [waiting] at entered
      cases entered
    next timed status waiting =>
      obtain ⟨⟨_, deadline⟩, moved⟩ := Option.ite_none_right_eq_some.mp stepEq
      cases moved
      unfold wgateTest
      split_ifs with quiet late
      · simp [System.goto, ThreadPc.isEntered]
      · -- the expiry with readers left is the step that clears the bit
        have second : (s.pc t).inSecondWait = true := by
          rw [waiting]
          exact deadline late
        exact absurd ⟨rfl, late, second, by simpa using quiet⟩ keeps
      · simp [System.goto, ThreadPc.isEntered]
    next => cases stepEq
  case notifyOne t target =>
    dsimp only [step, Action.actor] at stepEq entered
    split at stepEq
    next sending =>
      rw [sending] at entered
      cases entered
    next sending =>
      rw [sending] at entered
      cases entered
    next => cases stepEq
  case unlockShared t =>
    obtain ⟨held, _⟩ := Option.ite_none_right_eq_some.mp stepEq
    rw [Action.actor, held] at entered
    cases entered
  case notifyAll t =>
    obtain ⟨sending, _⟩ := Option.ite_none_right_eq_some.mp stepEq
    rw [Action.actor, sending] at entered
    cases entered
  all_goals exact absurd (Option.ite_none_right_eq_some.mp stepEq).1 notOutside

end Frames

/-! ## The readers -/

section Readers

variable [Fintype T] [DecidableEq T] {s s' : System T x}

omit [Fintype T] in
/-- A section run with the writer bit set. -/
theorem rgateTest_closed (set : writerEntered s.state = true) (t : T) (op : GateOp)
    (expired : Bool) :
    rgateTest s t op expired = s.goto t .outside ∨
      rgateTest s t op expired = s.goto t (.atRgate op .blocked) := by
  unfold rgateTest readerMayEnter
  rw [set]
  cases op.exclusive <;> cases expired <;> simp

omit [Fintype T] in
theorem tryLockShared_closed (set : writerEntered s.state = true) (t : T) (gotMutex : Bool) :
    tryLockShared s t gotMutex = s := by
  simp [tryLockShared, readerMayEnter, set]

omit [Fintype T] in
/-- Nobody becomes a reader by moving to a position that is not one. -/
private theorem shared_of_update {t u : T} {pc : ThreadPc} (notShared : pc.isShared = false)
    (shared : (Function.update s.pc t pc u).isShared = true) : (s.pc u).isShared = true := by
  by_cases same : u = t
  · rw [same, Function.update_self, notShared] at shared
    cases shared
  · rwa [Function.update_of_ne same] at shared

omit [Fintype T] in
/-- While the writer bit is set nobody becomes a reader. -/
theorem shared_of_transition (moved : Transition s s') (set : writerEntered s.state = true)
    {u : T} (shared : (s'.pc u).isShared = true) : (s.pc u).isShared = true := by
  have rgate : ∀ t op expired, ((rgateTest s t op expired).pc u).isShared = true →
      (s.pc u).isShared = true := by
    intro t op expired inShared
    rcases rgateTest_closed set t op expired with gone | waits
    · rw [gone] at inShared
      exact shared_of_update rfl inShared
    · rw [waits] at inShared
      exact shared_of_update rfl inShared
  cases moved with
  | request t op outside => exact rgate t op false shared
  | resumeRgate t op status expired waiting unblocked deadline => exact rgate t op expired shared
  | tryLock t gotMutex outside =>
      unfold tryLock at shared
      split_ifs at shared
      · exact shared_of_update rfl shared
      · exact shared
  | tryLockShared t gotMutex outside =>
      rwa [tryLockShared_closed set] at shared
  | unlock t held => exact shared_of_update rfl shared
  | unlockShared t held =>
      unfold unlockShared at shared
      refine shared_of_update ?_ shared
      split_ifs <;> rfl
  | unblockRgate t op waiting => exact shared_of_update rfl shared
  | unblockWgate t timed waiting => exact shared_of_update rfl shared
  | resumeWgate t timed status expired waiting unblocked deadline =>
      unfold wgateTest at shared
      split_ifs at shared <;> exact shared_of_update rfl shared
  | notifyAll t sending =>
      have before : ((notifyAllRgate s).pc u).isShared = true := shared_of_update rfl shared
      unfold notifyAllRgate at before
      dsimp only at before
      split_ifs at before
      · rwa [ThreadPc.isShared_notified] at before
      · exact before
  | notifyNobody t gate sending nobody => exact shared_of_update rfl shared
  | notifyOne t v gate sending blocked =>
      have before : ((s.goto v (s.pc v).notified).pc u).isShared = true :=
        shared_of_update rfl shared
      by_cases receiver : u = v
      · subst receiver
        simpa [System.goto, ThreadPc.isShared_notified] using before
      · rwa [goto_pc_of_ne receiver] at before

/-! ## The window -/

/-- What holds from the step in which `w` sets its bit, taken from `s₀`, until
`w` clears it: `w` has entered, and the readers are some of those of `s₀`. -/
structure Window (s₀ : System T x) (w : T) (s : System T x) : Prop where
  entered : (s.pc w).isEntered = true
  onlyLeave : ∀ u, (s.pc u).isShared = true → (s₀.pc u).isShared = true

namespace Window

variable {s₀ s₁ : System T x} {w : T} {a : Action T}

omit [DecidableEq T] in
theorem writerEntered (window : Window s₀ w s) (owned : Owned s) :
    writerEntered s.state = true := by
  rw [owned.writerEntered_iff]
  have some_ : 0 < s.enteredWriters := population_pos.mpr ⟨w, window.entered⟩
  have few := owned.oneWriter
  omega

/-- The window opens with the step that sets the bit. -/
theorem opens (owned : Owned s₀) (stepEq : step s₀ a = some s₁) (own : a.actor = w)
    (clear : SharedMutex.writerEntered s₀.state = false)
    (set : SharedMutex.writerEntered s₁.state = true) : Window s₀ w s₁ := by
  have owned' := owned.transition (transition_of_step stepEq)
  have none := owned.writerEntered_false_iff.mp clear
  obtain ⟨t, entered⟩ := owned'.exists_entered set
  have isActor : t = w := by
    by_contra other
    have before := isEntered_of_ne_actor stepEq (u := t) (own ▸ other)
    rw [entered, population_eq_zero.mp none t] at before
    cases before
  subst isActor
  refine ⟨entered, fun u shared => ?_⟩
  by_cases same : u = t
  · -- the writer itself is not a reader after the step
    rw [same, ThreadPc.isShared_of_isEntered entered] at shared
    cases shared
  · rwa [isShared_of_ne_actor stepEq (own ▸ same)] at shared

theorem step {s' : System T x} (window : Window s₀ w s) (owned : Owned s)
    (stepEq : step s a = some s') (keeps : ¬ ClearsBit w s a) : Window s₀ w s' := by
  constructor
  · exact entered_or_clears stepEq window.entered keeps
  · intro u shared
    apply window.onlyLeave u
    exact shared_of_transition (transition_of_step stepEq) (window.writerEntered owned) shared

/-- The window is open along every run without the clearing step. -/
theorem later (reachable : (machine T x).Reachable s₀) (stepEq : SharedMutex.step s₀ a = some s₁)
    (opened : Window s₀ w s₁)
    (run : (machine T x).LaterUnder (fun s b => ¬ ClearsBit w s b) s₁ s) : Window s₀ w s := by
  have first : (machine T x).Reachable s₁ := reachable.step trivial stepEq
  induction run with
  | refl => exact opened
  | tail before moved ih =>
      obtain ⟨b, keeps, next⟩ := moved
      have reached := first.later (Machine.LaterUnder.mono (fun _ _ _ => trivial) before)
      exact ih.step (owned_of_reachable reached) next keeps

end Window

end Readers

/-! ## Runs -/

variable [Fintype T] [DecidableEq T]

/-- The readers of `state`, as threads. -/
def System.readers (s : System T x) : Finset T := Finset.univ.filter fun u => s.pc u = .holdsShared

theorem ThreadPc.isShared_iff {pc : ThreadPc} : pc.isShared = true ↔ pc = .holdsShared := by
  cases pc <;> simp [ThreadPc.isShared]

omit [DecidableEq T] in
theorem mem_readers {s : System T x} {u : T} : u ∈ s.readers ↔ (s.pc u).isShared = true := by
  simp [System.readers, ThreadPc.isShared_iff]

omit [DecidableEq T] in
theorem card_readers (s : System T x) : s.readers.card = s.sharedHolders := by
  unfold System.readers System.sharedHolders population
  simp only [ThreadPc.isShared_iff]

omit [DecidableEq T] in
/-- The reader count of the word. -/
theorem Owned.readerCount {s : System T x} (owned : Owned s) :
    (s.state &&& numReaderMask x).toNat = s.readers.card := by
  rw [card_readers, owned.word]
  exact toNat_pack_and_countMask (by omega) owned.fewReaders

omit [DecidableEq T] in
/-- With the bit clear the word is the reader count. -/
theorem Owned.toNat_state {s : System T x} (owned : Owned s)
    (clear : writerEntered s.state = false) : s.state.toNat = s.readers.card := by
  have value := congrArg BitVec.toNat owned.word
  rw [toNat_pack (by omega) owned.fewReaders, owned.writerEntered_false_iff.mp clear] at value
  rw [card_readers]
  simpa using value

/-- The failing second wait takes the bit out of the word. -/
theorem state_of_expired {s s' : System T x} {w : T} (second : (s.pc w).inSecondWait = true)
    (readersLeft : readersActive s.state = true) (stepEq : step s (.resume w true) = some s') :
    s'.state = s.state &&& ~~~(writerEnteredMask x) := by
  dsimp only [step] at stepEq
  split at stepEq
  next op status waiting =>
    rw [waiting] at second
    cases second
  next timed status waiting =>
    obtain ⟨_, moved⟩ := Option.ite_none_right_eq_some.mp stepEq
    cases moved
    simp [wgateTest, readersLeft]
  next => cases stepEq

omit [DecidableEq T] in
theorem Owned.writerEntered_cleared {s : System T x} (owned : Owned s) :
    writerEntered (s.state &&& ~~~(writerEnteredMask x)) = false := by
  have cleared : s.state &&& ~~~(flagMask (32 + x) 31) = pack (32 + x) 31 false s.sharedHolders := by
    rw [owned.word]
    exact pack_and_not_flagMask (by omega) owned.fewReaders
  change writerEntered (s.state &&& ~~~(flagMask (32 + x) 31)) = false
  rw [cleared, writerEntered_pack owned.fewReaders]

/-- An entered writer is not overtaken.  Let `w` set the writer bit in the step
from `s₀` to `s₁`, and let `s` be reached from there without the step in which
`w` clears it.  Then the bit is still set; a further such step does not raise
the reader count and makes nobody but `w` an owner of any kind; and where `w`
gives up in its second wait, the word is that of `s₀` less the readers that
have left. -/
theorem entered_writer_not_overtaken {s₀ s₁ s : System T x} {w : T} {a : Action T}
    (reachable : (machine T x).Reachable s₀)
    (setStep : (machine T x).step s₀ a = some s₁) (own : a.actor = w)
    (clear : writerEntered s₀.state = false) (set : writerEntered s₁.state = true)
    (window : (machine T x).LaterUnder (fun s b => ¬ ClearsBit w s b) s₁ s) :
    writerEntered s.state = true ∧
      (∀ b s', ¬ ClearsBit w s b → (machine T x).step s b = some s' →
        (s'.state &&& numReaderMask x).toNat ≤ (s.state &&& numReaderMask x).toNat ∧
        ∀ u, u ≠ w → s'.pc u ≠ .holdsExclusive ∧
          (s'.pc u = .holdsShared → s.pc u = .holdsShared)) ∧
      (∀ s', (s.pc w).inSecondWait = true → readersActive s.state = true →
        (machine T x).step s (.resume w true) = some s' →
        writerEntered s'.state = false ∧ s'.readers ⊆ s₀.readers ∧
          s'.state.toNat + (s₀.readers \ s'.readers).card = s₀.state.toNat) := by
  have first : (machine T x).Reachable s₁ := reachable.step trivial setStep
  have owned₀ := owned_of_reachable reachable
  have reached : (machine T x).Reachable s := first.later (Machine.LaterUnder.mono (fun _ _ _ => trivial) window)
  have owned := owned_of_reachable reached
  have inside : Window s₀ w s :=
    .later reachable setStep (.opens owned₀ setStep own clear set) window
  refine ⟨inside.writerEntered owned, ?_, ?_⟩
  · intro b s' keeps stepEq
    have moved : Transition s s' := transition_of_step stepEq
    have owned' := owned.transition moved
    have fewer : s'.readers ⊆ s.readers := fun u => by
      rw [mem_readers, mem_readers]
      exact shared_of_transition moved (inside.writerEntered owned)
    constructor
    · rw [owned'.readerCount, owned.readerCount]
      exact Finset.card_le_card fewer
    · intro u other
      have entered := (inside.step owned stepEq keeps).entered
      constructor
      · intro held
        have alsoEntered : (s'.pc u).isEntered = true := by rw [held]; rfl
        exact other (owned'.entered_unique u w alsoEntered entered)
      · intro shared
        have before := fewer (by simpa [System.readers] using shared)
        simpa [System.readers] using before
  · intro s' second readersLeft stepEq
    have moved : Transition s s' := transition_of_step (a := .resume w true) stepEq
    have owned' := owned.transition moved
    have cleared : writerEntered s'.state = false := by
      rw [state_of_expired second readersLeft stepEq]
      exact owned.writerEntered_cleared
    have fewer : s'.readers ⊆ s₀.readers := fun u => by
      rw [mem_readers, mem_readers]
      exact fun shared => inside.onlyLeave u
        (shared_of_transition moved (inside.writerEntered owned) shared)
    refine ⟨cleared, fewer, ?_⟩
    rw [owned'.toNat_state cleared, owned₀.toNat_state clear, Nat.add_comm]
    exact Finset.card_sdiff_add_card_eq_card fewer

/-- Two readers, then a timed writer that sets the bit.  One reader leaves
before the writer gives up, so one reader is left in the word. -/
theorem entered_writer_not_overtaken_expiry :
    ∃ s₀ s s' : System (Fin 3) 32, (machine (Fin 3) 32).Reachable s₀ ∧
      s₀.state.toNat = 2 ∧ writerEntered s.state = true ∧
      (machine (Fin 3) 32).step s (.resume 2 true) = some s' ∧
      s'.state.toNat + (s₀.readers \ s'.readers).card = s₀.state.toNat ∧
      (s₀.readers \ s'.readers).card = 1 := by
  obtain ⟨s₀, s₁, s, s', start, enter, window, expiry, facts⟩ :
      ∃ s₀ s₁ s s' : System (Fin 3) 32,
        (machine (Fin 3) 32).exec (initial (Fin 3) 32) [.lockShared 0, .lockShared 1] = some s₀ ∧
        (machine (Fin 3) 32).step s₀ (.tryLockUntil 2) = some s₁ ∧
        (machine (Fin 3) 32).execUnder (fun s b => ¬ ClearsBit 2 s b) s₁
          [.unlockShared 0, .unblock 2] = some s ∧
        (machine (Fin 3) 32).step s (.resume 2 true) = some s' ∧
        (s₀.state.toNat = 2 ∧ writerEntered s₀.state = false ∧ writerEntered s₁.state = true ∧
          (s.pc 2).inSecondWait = true ∧ readersActive s.state = true ∧
          (s₀.readers \ s'.readers).card = 1) :=
    ⟨_, _, _, _, rfl, rfl, rfl, rfl, by decide +kernel⟩
  obtain ⟨two, clear, set, second, left, one⟩ := facts
  have reached := Machine.reachable_of_exec start
  obtain ⟨entered, _, expires⟩ := entered_writer_not_overtaken reached enter rfl clear set
    (Machine.laterUnder_of_execUnder window)
  exact ⟨s₀, s, s', reached, two, entered, expiry, (expires s' second left expiry).2.2, one⟩

end Conc11.SharedMutex
