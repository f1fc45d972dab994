/-
Module: Conc11.ReaderPreferring.Saturation
Purpose: Readers of `ReaderPreferringSharedTimedMutex` that sleep because the reader count is at its limit.
  `unlock_shared` notifies only when the count reaches 0, so every other reader that leaves leaves its
  slot unannounced.  With the same question for `SharedTimedMutex` this settles when a reader can be left
  asleep beside a free slot.
Trusted boundary: none
Main exports: slotRoles, NoReaderAsleep, LeavesNobodyAsleep, stranded_of_step, stranded_leads_asleep,
  stranded_reachable, readers_awake
-/
import Conc11.SharedMutex.Saturation
import Conc11.ReaderPreferring.Ownership

namespace Conc11.ReaderPreferring

open Library Library.FlagCounter
open SharedMutex (GateOp)

/-- The slots are the 2^31 - 1 readers that the count has room for. -/
def slotRoles : SlotRoles ThreadPc where
  bars
    | .holdsExclusive | .notifying => true
    | _ => false
  holds := ThreadPc.isShared
  sleeps
    | .waiting op .blocked => !op.exclusive
    | _ => false
  woken
    | .waiting op .notified => !op.exclusive
    | _ => false
  wakesOne _ := false

/-- A notification that has not been sent, or that a thread has not acted on. -/
def ThreadPc.inFlight : ThreadPc → Bool
  | .notifying | .waiting _ .notified => true
  | _ => false

variable {T : Type*} {x : Nat}

/-- While the writer bit is clear, the count below `NUM_READER_MASK` and no
notification in flight, no reader is blocked. -/
def NoReaderAsleep (s : System T x) : Prop :=
  readerMayEnter s.state = true → (∀ t, (s.pc t).inFlight = false) →
    ∀ t op, op.exclusive = false → s.pc t ≠ .waiting op .blocked

variable [Fintype T]

/-- A stranded reader, at the reader count's limit. -/
abbrev Stranded (s : System T x) : Prop := slotRoles.Stranded (2 ^ 31 - 1) s.pc

abbrev Crowded (s : System T x) : Prop := slotRoles.Crowded (2 ^ 31 - 1) s.pc

/-- An `unlock_shared` takes the count to 0, and so notifies, or the slots are
not crowded. -/
def LeavesNobodyAsleep (s : System T x) : Action T → Prop
  | .unlockShared _ => s.sharedHolders = 1 ∨ ¬ Crowded s
  | _ => True

instance (s : System T x) : (a : Action T) → Decidable (LeavesNobodyAsleep s a)
  | .unlockShared _ => inferInstanceAs (Decidable (s.sharedHolders = 1 ∨ ¬ Crowded s))
  | .lock _ | .tryLock _ _ | .tryLockUntil _ | .unlock _ | .lockShared _ | .tryLockShared _ _
  | .tryLockSharedUntil _ | .notifyAll _ | .unblock _ | .resume _ _ => .isTrue trivial

variable {s s' : System T x}

/-! ## What a stranded reader says about the word -/

theorem noWriter_of_stranded (stranded : Stranded s) : s.exclusiveHolders = 0 := by
  refine population_eq_zero.mpr fun t => ?_
  have unbarred := stranded.not_bars t
  cases position : s.pc t <;> rw [position] at unbarred <;> first | rfl | cases unbarred

/-- The writer bit is clear and the count below its limit. -/
theorem mayEnter_of_stranded (locked : Locked s) (stranded : Stranded s) :
    readerMayEnter s.state = true := by
  refine locked.readerMayEnter_iff.mpr ⟨noWriter_of_stranded stranded, ?_⟩
  have room := stranded.room
  change population ThreadPc.isShared s.pc + _ + _ < _ at room
  change population ThreadPc.isShared s.pc < _
  omega

theorem waiting_of_sleeps {pc : ThreadPc} (sleeps : slotRoles.sleeps pc = true) :
    ∃ op, op.exclusive = false ∧ pc = .waiting op .blocked := by
  cases pc with
  | waiting op status =>
      cases status with
      | blocked => exact ⟨op, Bool.not_eq_true' _ ▸ sleeps, rfl⟩
      | _ => cases sleeps
  | _ => cases sleeps

/-- Somebody holds the mutex: on a free one, a sleeper is about to be notified. -/
theorem taken_of_stranded (locked : Locked s) (stranded : Stranded s) : s.state ≠ 0#_ := by
  intro free
  obtain ⟨t, sleeps⟩ := stranded.exists_sleeper
  obtain ⟨op, _, asleep⟩ := waiting_of_sleeps sleeps
  obtain ⟨u, sending⟩ := locked.signalled t (by rw [asleep]; rfl) free
  have unbarred := stranded.not_bars u
  cases position : s.pc u <;> rw [position] at unbarred sending <;>
    first | exact Bool.noConfusion unbarred | exact Bool.noConfusion sending

/-- With no notification in flight, a stranded reader is a sleeping one. -/
theorem not_noReaderAsleep (locked : Locked s) (stranded : Stranded s)
    (quiet : ∀ t, (s.pc t).inFlight = false) : ¬ NoReaderAsleep s := by
  intro awake
  obtain ⟨t, sleeps⟩ := stranded.exists_sleeper
  obtain ⟨op, shared, asleep⟩ := waiting_of_sleeps sleeps
  exact awake (mayEnter_of_stranded locked stranded) quiet t op shared asleep

/-- Without a stranded reader, no reader sleeps. -/
theorem noReaderAsleep_of_not_stranded (locked : Locked s) (safe : ¬ Stranded s) :
    NoReaderAsleep s := by
  intro may quiet t op shared blocked
  obtain ⟨noWriter, room⟩ := locked.readerMayEnter_iff.mp may
  have woken : population slotRoles.woken s.pc = 0 := population_eq_zero.mpr fun u => by
    have still := quiet u
    cases position : s.pc u with
    | waiting op status =>
        rw [position] at still
        cases status <;> first | rfl | cases still
    | _ => rfl
  have wakes : population slotRoles.wakesOne s.pc = 0 := population_eq_zero.mpr fun _ => rfl
  have asleep : 0 < population slotRoles.sleeps s.pc :=
    population_pos.mpr ⟨t, by rw [blocked]; exact Bool.not_eq_true' _ ▸ shared⟩
  refine safe ⟨population_eq_zero.mpr fun u => ?_, by omega, ?_⟩
  · have notWriter : (s.pc u).isExclusive = false := population_eq_zero.mp noWriter u
    have still := quiet u
    cases position : s.pc u <;> rw [position] at notWriter still <;>
      first | rfl | exact Bool.noConfusion still | exact Bool.noConfusion notWriter
  · unfold SlotRoles.claims
    rw [woken, wakes]
    exact room

/-! ## Which steps strand a reader -/

/-- A thread that bars the slots. -/
theorem not_stranded_of_bars {t : T} (bars : slotRoles.bars (s.pc t) = true) : ¬ Stranded s := by
  intro stranded
  rw [stranded.not_bars t] at bars
  cases bars

variable [DecidableEq T] {t : T}

theorem update_not_stranded {pc : ThreadPc} (moved : s'.pc = Function.update s.pc t pc)
    (bars : slotRoles.bars pc = true) : ¬ Stranded s' :=
  not_stranded_of_bars (t := t) (by rw [moved, Function.update_self]; exact bars)

/-- Where a thread comes from when it looks at its predicate. -/
def ThreadPc.looks (op : GateOp) (pc : ThreadPc) : Prop :=
  pc = .outside ∨ ∃ status, pc = .waiting op status ∧ status ≠ .blocked

/-- A thread that looks at its predicate neither bars nor sleeps, and claims
one slot at most; a writer claims none. -/
theorem looks_roles {op : GateOp} {pc : ThreadPc} (looks : pc.looks op) :
    slotRoles.bars pc = false ∧ slotRoles.sleeps pc = false ∧ slotRoles.share pc ≤ 1 ∧
      (op.exclusive = true → slotRoles.share pc = 0) := by
  rcases looks with rfl | ⟨status, rfl, unblocked⟩
  · exact ⟨rfl, rfl, Nat.zero_le _, fun _ => rfl⟩
  · cases status with
    | blocked => exact absurd rfl unblocked
    | notified =>
        refine ⟨rfl, rfl, by cases op <;> decide, fun exclusive => ?_⟩
        cases op <;> first | rfl | cases exclusive
    | awake => exact ⟨rfl, rfl, Nat.zero_le _, fun _ => rfl⟩

theorem stranded_takeShared {op : GateOp} (looks : (s.pc t).looks op)
    (stranded : Stranded (s.takeShared t)) : Stranded s := by
  obtain ⟨bars, sleeps, share, _⟩ := looks_roles looks
  refine SlotRoles.Stranded.unmove stranded ?_ (Nat.zero_le _) share
  rw [bars]
  exact Nat.zero_le _

theorem stranded_stateTest (locked : Locked s) (op : GateOp) (expired : Bool)
    (looks : (s.pc t).looks op) (stranded : Stranded (stateTest s t op expired)) :
    Stranded s := by
  have locked' : Locked (stateTest s t op expired) := by
    refine locked.stateTest op expired ?_ ?_ ?_ <;>
      rcases looks with outside | ⟨status, waiting, _⟩ <;> simp only [*] <;> rfl
  have stays : ∀ pc : ThreadPc, slotRoles.share pc = 0 → slotRoles.bars pc = false →
      (slotRoles.sleeps pc = true → op.exclusive = false) →
      stateTest s t op expired = s.goto t pc → mayAcquire op s.state = false → Stranded s := by
    intro pc noShare notBars sleepsShared same refused
    rw [same] at stranded locked'
    obtain ⟨bars, sleeps, share, writerShare⟩ := looks_roles looks
    cases exclusive : op.exclusive with
    | true =>
        have notSleeps : slotRoles.sleeps pc = false := by
          rw [← Bool.not_eq_true]
          intro asleep
          rw [sleepsShared asleep] at exclusive
          cases exclusive
        refine SlotRoles.Stranded.unmove stranded ?_ ?_ ?_
        · rw [bars]
          exact Nat.zero_le _
        · rw [notSleeps]
          exact Nat.zero_le _
        · rw [writerShare exclusive]
          exact Nat.zero_le _
    | false =>
        have may := mayEnter_of_stranded locked' stranded
        change readerMayEnter s.state = true at may
        rw [mayAcquire, exclusive, if_neg Bool.false_ne_true, may] at refused
        cases refused
  cases may : mayAcquire op s.state with
  | true =>
      rw [stateTest, if_pos may] at stranded
      split_ifs at stranded with exclusive
      · exact absurd stranded (update_not_stranded rfl rfl)
      · exact stranded_takeShared looks stranded
  | false =>
      have refused : ¬ mayAcquire op s.state = true := by rw [may]; exact Bool.false_ne_true
      cases late : expired with
      | true =>
          refine stays .outside rfl rfl (fun sleeps => absurd sleeps Bool.false_ne_true) ?_ may
          rw [stateTest, if_neg refused, if_pos late]
      | false =>
          refine stays (.waiting op .blocked) rfl rfl (fun sleeps => Bool.not_eq_true' _ ▸ sleeps)
            ?_ may
          rw [stateTest, if_neg refused, if_neg (by rw [late]; exact Bool.false_ne_true)]

/-- After a broadcast nobody sleeps. -/
theorem not_stranded_notifyAll : ¬ Stranded (notifyAll s t) := by
  intro stranded
  obtain ⟨u, sleeps⟩ := stranded.exists_sleeper
  obtain ⟨op, _, asleep⟩ := waiting_of_sleeps sleeps
  unfold notifyAll at asleep
  dsimp only at asleep
  by_cases isT : u = t
  · rw [isT, Function.update_self] at asleep
    cases asleep
  · rw [Function.update_of_ne isT] at asleep
    have awake := (s.pc u).isBlocked_notified
    rw [asleep] at awake
    cases awake

/-- A reader leaves: the last one notifies everybody, any other strands a
sleeper where one was stranded or the slots were crowded. -/
theorem stranded_unlockShared_iff (locked : Locked s) (held : s.pc t = .holdsShared) :
    Stranded (unlockShared s t) ↔ s.sharedHolders ≠ 1 ∧ (Stranded s ∨ Crowded s) := by
  have locked' := locked.unlockShared held
  have readers : (unlockShared s t).sharedHolders + 1 = s.sharedHolders :=
    population_update_leave (by rw [held]; rfl) (by split_ifs <;> rfl)
  have writers : (unlockShared s t).exclusiveHolders = s.exclusiveHolders :=
    population_update_same (by rw [held]; split_ifs <;> rfl)
  have free : (s.state - 1#_ == 0#_) = true ↔ s.sharedHolders = 1 := by
    have zero := locked'.state_eq_zero
    have alone := locked.alone
    have few := locked.oneWriter
    rw [beq_iff_eq]
    apply zero.trans
    omega
  have moved : (unlockShared s t).pc =
      Function.update s.pc t (if s.sharedHolders = 1 then .notifying else .outside) := by
    unfold unlockShared
    simp only [free]
  rw [Stranded, moved]
  by_cases last : s.sharedHolders = 1
  · rw [if_pos last]
    refine iff_of_false (fun stranded => ?_) fun ⟨notLast, _⟩ => notLast last
    have unbarred := stranded.not_bars t
    rw [Function.update_self] at unbarred
    cases unbarred
  · rw [if_neg last, and_iff_right last]
    apply SlotRoles.stranded_leave
    all_goals first
      | rfl
      | rw [held]; rfl

/-- A step that strands a reader is an `unlock_shared` out of crowded slots. -/
theorem stranded_of_step {a : Action T} (locked : Locked s) (stepEq : step s a = some s')
    (stranded : Stranded s') : Stranded s ∨ ¬ LeavesNobodyAsleep s a := by
  cases a
  case unblock t =>
    dsimp only [step] at stepEq
    split at stepEq
    next op waiting =>
      cases stepEq
      refine .inl (SlotRoles.Stranded.unmove stranded ?_ (Nat.zero_le _) ?_)
      all_goals
        rw [waiting]
        exact Nat.zero_le _
    next => cases stepEq
  case resume t expired =>
    dsimp only [step] at stepEq
    split at stepEq
    next op status waiting =>
      obtain ⟨⟨unblocked, _⟩, rest⟩ := Option.ite_none_right_eq_some.mp stepEq
      cases rest
      exact .inl (stranded_stateTest locked op expired (.inr ⟨status, waiting, unblocked⟩) stranded)
    next => cases stepEq
  all_goals
    obtain ⟨position, rest⟩ := Option.ite_none_right_eq_some.mp stepEq
    cases rest
  case lock t => exact .inl (stranded_stateTest locked .lock false (.inl position) stranded)
  case tryLockUntil t =>
    exact .inl (stranded_stateTest locked .tryLockUntil false (.inl position) stranded)
  case lockShared t =>
    exact .inl (stranded_stateTest locked .lockShared false (.inl position) stranded)
  case tryLockSharedUntil t =>
    exact .inl (stranded_stateTest locked .tryLockSharedUntil false (.inl position) stranded)
  case tryLock t gotMutex =>
    unfold tryLock at stranded
    split_ifs at stranded
    · exact absurd stranded (update_not_stranded rfl rfl)
    · exact .inl stranded
  case tryLockShared t gotMutex =>
    unfold tryLockShared at stranded
    split_ifs at stranded
    · exact .inl (stranded_takeShared (show (s.pc t).looks .lockShared from .inl position) stranded)
    · exact .inl stranded
  case unlock t => exact absurd stranded (update_not_stranded rfl rfl)
  case unlockShared t =>
    obtain ⟨notLast, before | crowded⟩ := (stranded_unlockShared_iff locked position).mp stranded
    · exact .inl before
    · exact .inr fun keeps => keeps.elim notLast fun notCrowded => notCrowded crowded
  case notifyAll t => exact absurd stranded not_stranded_notifyAll

/-- Every such step does strand one. -/
theorem stranded_of_not_leaves {a : Action T} (locked : Locked s) (stepEq : step s a = some s')
    (fails : ¬ LeavesNobodyAsleep s a) : Stranded s' := by
  cases a with
  | unlockShared t =>
      obtain ⟨held, same⟩ := Option.ite_none_right_eq_some.mp stepEq
      cases same
      obtain ⟨notLast, crowded⟩ := not_or.mp fails
      exact (stranded_unlockShared_iff locked held).mpr ⟨notLast, .inr (not_not.mp crowded)⟩
  | _ => exact absurd trivial fails

theorem not_stranded_of_reachable (reachable : (machine T x).ReachableUnder LeavesNobodyAsleep s) :
    ¬ Stranded s := by
  refine reachable.invariant (motive := fun s => ¬ Stranded s) ?_ ?_
  · intro stranded
    obtain ⟨t, sleeps⟩ := stranded.exists_sleeper
    cases sleeps
  · intro s a s' reached safe allowed stepEq stranded
    exact (stranded_of_step (locked_of_reachable reached) stepEq stranded).elim safe
      (fun fails => fails allowed)

/-! ## What becomes of a stranded reader -/

/-- The steps that a notification in flight still has to take. -/
def ThreadPc.flight : ThreadPc → Nat
  | .waiting _ .notified => 1
  | _ => 0

/-- While a notification is in flight, some step brings it further, and the
stranded reader stays stranded. -/
theorem stranded_flight (locked : Locked s) (stranded : Stranded s)
    (flying : ¬ ∀ t, (s.pc t).inFlight = false) :
    ∃ a s', step s a = some s' ∧ Stranded s' ∧
      total ThreadPc.flight s'.pc < total ThreadPc.flight s.pc := by
  obtain ⟨t, flies⟩ := not_forall.mp flying
  have unbarred := stranded.not_bars t
  cases position : s.pc t with
  | waiting op status =>
      rw [position] at flies
      cases status with
      | notified =>
          refine ⟨.resume t false, stateTest s t op false, by simp [step, position], ?_⟩
          cases exclusive : op.exclusive with
          | true =>
              -- a writer finds the mutex held and goes back to sleep
              have refused : mayAcquire op s.state = false := by
                simpa [mayAcquire, exclusive] using taken_of_stranded locked stranded
              have sleeps : stateTest s t op false = s.goto t (.waiting op .blocked) := by
                simp [stateTest, refused]
              rw [sleeps]
              constructor
              · apply SlotRoles.Stranded.move stranded
                all_goals
                  rw [position]
                  cases op <;> decide
              · apply total_update_lt
                rw [position]
                exact Nat.zero_lt_one
          | false =>
              have may := mayEnter_of_stranded locked stranded
              have enters : stateTest s t op false = s.takeShared t := by
                simp [stateTest, mayAcquire, exclusive, may]
              rw [enters]
              constructor
              · apply SlotRoles.Stranded.move stranded
                all_goals
                  rw [position]
                  cases op <;> first | decide | cases exclusive
              · apply total_update_lt
                rw [position]
                exact Nat.zero_lt_one
      | _ => exact absurd rfl flies
  | _ =>
      rw [position] at unbarred flies
      first | exact absurd rfl flies | exact Bool.noConfusion unbarred

/-- A stranded reader can be left asleep. -/
theorem stranded_leads_asleep (reachable : (machine T x).Reachable s) (stranded : Stranded s) :
    ∃ s', (machine T x).LaterUnder Machine.anyStep s s' ∧ ¬ NoReaderAsleep s' := by
  have arrives : ∃ s', (machine T x).LaterUnder Machine.anyStep s s' ∧
      ((machine T x).Reachable s' ∧ Stranded s') ∧ ∀ t, (s'.pc t).inFlight = false := by
    refine Machine.exists_later (fun s => total ThreadPc.flight s.pc) ?_ ⟨reachable, stranded⟩
    intro s ⟨reached, stranded⟩ flying
    obtain ⟨a, s', stepEq, still, fewer⟩ :=
      stranded_flight (locked_of_reachable reached) stranded flying
    exact ⟨a, s', trivial, stepEq, ⟨reached.step trivial stepEq, still⟩, fewer⟩
  obtain ⟨s', later, ⟨reached, still⟩, quiet⟩ := arrives
  exact ⟨s', later, not_noReaderAsleep (locked_of_reachable reached) still quiet⟩

/-! ## A run that strands a reader -/

/-- Up to the limit of the count, any threads may hold shared ownership together. -/
theorem filled_reachable (holders : Finset T) (room : holders.card ≤ 2 ^ 31 - 1) :
    ∃ s, (machine T x).Reachable s ∧ s.pc = filled .holdsShared .outside holders := by
  refine exists_filled System.pc rfl ?_ holders room
  intro s t holders reachable isFilled absent free
  have noWriter : s.exclusiveHolders = 0 := population_filled_none isFilled rfl rfl
  have held : s.sharedHolders = holders.card := population_filled isFilled rfl rfl
  have may : readerMayEnter s.state = true :=
    (locked_of_reachable reachable).readerMayEnter_iff.mpr ⟨noWriter, by omega⟩
  have enters : lockShared s t = s.takeShared t := if_pos may
  refine ⟨lockShared s t, ?_, congrArg System.pc enters⟩
  exact reachable.step (a := .lockShared t) trivial (if_pos (filled_of_notMem isFilled absent))

/-- The count is at its limit: one more reader goes to sleep, and from then on
the slots are crowded. -/
theorem crowded_of_filled {holders : Finset T}
    (isFilled : s.pc = filled .holdsShared .outside holders)
    (size : holders.card = 2 ^ 31 - 1) (outside : s.pc t = .outside) :
    (s.goto t (.waiting .lockShared .blocked)).sharedHolders = 2 ^ 31 - 1 ∧
      Crowded (s.goto t (.waiting .lockShared .blocked)) := by
  have nobody : ∀ p : ThreadPc → Bool, p .holdsShared = false → p .outside = false →
      population p s.pc = 0 := fun _ => population_filled_none isFilled
  have full : s.sharedHolders = 2 ^ 31 - 1 := (population_filled isFilled rfl rfl).trans size
  have stillFull : (s.goto t (.waiting .lockShared .blocked)).sharedHolders = 2 ^ 31 - 1 :=
    (population_update_same (by rw [outside]; rfl)).trans full
  have asleep : population slotRoles.sleeps (s.goto t (.waiting .lockShared .blocked)).pc = 1 :=
    (population_update_enter (by rw [outside]; rfl) rfl).trans
      (congrArg (· + 1) (nobody _ rfl rfl))
  have woken : population slotRoles.woken (s.goto t (.waiting .lockShared .blocked)).pc = 0 :=
    (population_update_same (by rw [outside]; rfl)).trans (nobody _ rfl rfl)
  have wakes : population slotRoles.wakesOne (s.goto t (.waiting .lockShared .blocked)).pc = 0 :=
    population_eq_zero.mpr fun _ => rfl
  refine ⟨stillFull, ?_, by omega, ?_⟩
  · exact (population_update_same (by rw [outside]; rfl)).trans (nobody _ rfl rfl)
  · unfold SlotRoles.claims
    rw [woken, wakes]
    exact stillFull

/-- With 2^31 threads a reader can be stranded: the count is at its limit, a
reader sleeps, and a holder leaves. -/
theorem stranded_reachable (many : 2 ^ 31 ≤ Fintype.card T) :
    ∃ s, (machine T x).Reachable s ∧ Stranded s := by
  obtain ⟨holders, _, size⟩ :=
    Finset.exists_subset_card_eq (s := (Finset.univ : Finset T)) (n := 2 ^ 31 - 1)
      (by rw [Finset.card_univ]; omega)
  obtain ⟨t, member⟩ := Finset.card_pos.mp (show 0 < holders.card by omega)
  obtain ⟨u, out⟩ := Finset.card_pos.mp
    (show 0 < holdersᶜ.card by rw [Finset.card_compl]; omega)
  rw [Finset.mem_compl] at out
  obtain ⟨s₀, reached₀, isFilled⟩ := filled_reachable (x := x) holders size.le
  have outside : s₀.pc u = .outside := filled_of_notMem isFilled out
  have held₀ : s₀.pc t = .holdsShared := filled_of_mem isFilled member
  have full₀ : s₀.sharedHolders = 2 ^ 31 - 1 := (population_filled isFilled rfl rfl).trans size
  -- a reader finds the count at its limit
  have sleeps : lockShared s₀ u = s₀.goto u (.waiting .lockShared .blocked) := by
    refine if_neg fun may => ?_
    have room := ((locked_of_reachable reached₀).readerMayEnter_iff.mp may).2
    omega
  have reached : (machine T x).Reachable (s₀.goto u (.waiting .lockShared .blocked)) := by
    rw [← sleeps]
    exact reached₀.step (a := .lockShared u) trivial (if_pos outside)
  obtain ⟨full, crowded⟩ := crowded_of_filled isFilled size outside
  set s := s₀.goto u (.waiting .lockShared .blocked)
  have held : s.pc t = .holdsShared :=
    (goto_pc_of_ne (fun same : t = u => out (same ▸ member)) _).trans held₀
  -- a holder leaves and notifies nobody
  refine ⟨unlockShared s t, reached.step (a := .unlockShared t) trivial (if_pos held), ?_⟩
  exact (stranded_unlockShared_iff (locked_of_reachable reached) held).mpr
    ⟨by omega, .inr crowded⟩

/-! ## The two classes -/

/-- In a run of either class whose steps meet its condition, no reader sleeps
while a slot is free and no notification is in flight.  From any step that does
not meet it, such a sleeping reader can follow. -/
theorem readers_awake (T : Type*) [Fintype T] [DecidableEq T] (x : Nat) :
    ((∀ s, (SharedMutex.machine T x).ReachableUnder SharedMutex.LeavesNobodyAsleep s →
        SharedMutex.NoReaderAsleep s) ∧
      ∀ s a s', (SharedMutex.machine T x).Reachable s → SharedMutex.step s a = some s' →
        ¬ SharedMutex.LeavesNobodyAsleep s a →
        ∃ s'', (SharedMutex.machine T x).LaterUnder Machine.anyStep s' s'' ∧
          ¬ SharedMutex.NoReaderAsleep s'') ∧
    (∀ s, (machine T x).ReachableUnder LeavesNobodyAsleep s → NoReaderAsleep s) ∧
      ∀ s a s', (machine T x).Reachable s → step s a = some s' → ¬ LeavesNobodyAsleep s a →
        ∃ s'', (machine T x).LaterUnder Machine.anyStep s' s'' ∧ ¬ NoReaderAsleep s'' := by
  refine ⟨⟨fun s reachable => ?_, fun s a s' reachable stepEq fails => ?_⟩,
    fun s reachable => ?_, fun s a s' reachable stepEq fails => ?_⟩
  · exact SharedMutex.noReaderAsleep_of_not_stranded (SharedMutex.owned_of_reachable reachable)
      (SharedMutex.not_stranded_of_reachable reachable)
  · have owned := SharedMutex.owned_of_reachable reachable
    exact SharedMutex.stranded_leads_asleep (reachable.step trivial stepEq)
      (SharedMutex.stranded_of_not_leaves owned stepEq fails)
  · exact noReaderAsleep_of_not_stranded (locked_of_reachable reachable)
      (not_stranded_of_reachable reachable)
  · have locked := locked_of_reachable reachable
    exact stranded_leads_asleep (reachable.step trivial stepEq)
      (stranded_of_not_leaves locked stepEq fails)

/-- In each class a reader sleeps under a writer, is woken and enters, and
another one comes and goes. -/
theorem readers_awake_after_writer :
    (∃ s, (SharedMutex.machine (Fin 3) 0).ReachableUnder SharedMutex.LeavesNobodyAsleep s ∧
      s.pc 1 = .holdsShared ∧ SharedMutex.NoReaderAsleep s) ∧
    ∃ s, (machine (Fin 3) 0).ReachableUnder LeavesNobodyAsleep s ∧
      s.pc 1 = .holdsShared ∧ NoReaderAsleep s := by
  have fair : ((SharedMutex.machine (Fin 3) 0).execUnder SharedMutex.LeavesNobodyAsleep
      (SharedMutex.initial (Fin 3) 0)
      [.lock 0, .lockShared 1, .unlock 0, .notifyAll 0, .resume 1 false, .lockShared 2,
        .unlockShared 2]).map (fun s => s.pc 1) = some .holdsShared := by
    decide +kernel
  have preferring : ((machine (Fin 3) 0).execUnder LeavesNobodyAsleep (initial (Fin 3) 0)
      [.lock 0, .lockShared 1, .unlock 0, .notifyAll 0, .resume 1 false, .lockShared 2,
        .unlockShared 2]).map (fun s => s.pc 1) = some .holdsShared := by
    decide +kernel
  obtain ⟨s₁, runs₁, holds₁⟩ := Option.map_eq_some_iff.mp fair
  obtain ⟨s₂, runs₂, holds₂⟩ := Option.map_eq_some_iff.mp preferring
  have reached₁ := Machine.reachableUnder_of_execUnder runs₁
  have reached₂ := Machine.reachableUnder_of_execUnder runs₂
  exact ⟨⟨s₁, reached₁, holds₁, (readers_awake (Fin 3) 0).1.1 s₁ reached₁⟩,
    s₂, reached₂, holds₂, (readers_awake (Fin 3) 0).2.1 s₂ reached₂⟩

/-- With 2^31 + 1 threads, in each class a reader can be left asleep. -/
theorem reader_left_asleep :
    (¬ ∀ s, (SharedMutex.machine (Fin (2 ^ 31 + 1)) 0).Reachable s →
      SharedMutex.NoReaderAsleep s) ∧
    ¬ ∀ s, (machine (Fin (2 ^ 31 + 1)) 0).Reachable s → NoReaderAsleep s := by
  constructor
  · intro claimed
    obtain ⟨s, reachable, stranded⟩ :=
      SharedMutex.stranded_reachable (T := Fin (2 ^ 31 + 1)) (x := 0) (by rw [Fintype.card_fin])
    obtain ⟨s', later, asleep⟩ := SharedMutex.stranded_leads_asleep reachable stranded
    exact asleep (claimed s' (reachable.later later))
  · intro claimed
    obtain ⟨s, reachable, stranded⟩ :=
      stranded_reachable (T := Fin (2 ^ 31 + 1)) (x := 0) (by rw [Fintype.card_fin]; omega)
    obtain ⟨s', later, asleep⟩ := stranded_leads_asleep reachable stranded
    exact asleep (claimed s' (reachable.later later))

end Conc11.ReaderPreferring
