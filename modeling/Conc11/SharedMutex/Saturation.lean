/-
Module: Conc11.SharedMutex.Saturation
Purpose: Readers of `SharedTimedMutex` that sleep because the reader count is at its limit.  `unlock_shared`
  wakes one of them only when it takes the count off the limit, so a second reader that leaves before
  a woken one has entered leaves its slot unannounced.
Trusted boundary: none
Main exports: slotRoles, NoReaderAsleep, LeavesNobodyAsleep, stranded_of_step, stranded_leads_asleep,
  stranded_reachable
-/
import Conc11.Library.Slots
import Conc11.SharedMutex.Overtaking

namespace Conc11.SharedMutex

open Library Library.FlagCounter

/-- The slots are the 2^31 - 1 readers that the count has room for.  A writer
that has been notified at `rgate` is going to enter or to find that another one
has, and either of them ends in a `notify_all`. -/
def slotRoles : SlotRoles ThreadPc where
  bars
    | .atWgate _ _ | .holdsExclusive | .notifyingRgateAll => true
    | .atRgate op .notified => op.exclusive
    | _ => false
  holds := ThreadPc.isShared
  sleeps
    | .atRgate op .blocked => !op.exclusive
    | _ => false
  woken
    | .atRgate op .notified => !op.exclusive
    | _ => false
  wakesOne
    | .notifyingRgateOne => true
    | _ => false

/-- A notification that has not been sent, or that a thread has not acted on. -/
def ThreadPc.inFlight : ThreadPc → Bool
  | .notifyingRgateAll | .notifyingRgateOne | .notifyingWgateOne => true
  | .atRgate _ .notified | .atWgate _ .notified => true
  | _ => false

variable {T : Type*} {x : Nat}

/-- While the writer bit is clear, the count below `NUM_READER_MASK` and no
notification in flight, no reader is blocked. -/
def NoReaderAsleep (s : System T x) : Prop :=
  readerMayEnter s.state = true → (∀ t, (s.pc t).inFlight = false) →
    ∀ t op, op.exclusive = false → s.pc t ≠ .atRgate op .blocked

variable [Fintype T]

/-- A stranded reader, at the reader count's limit. -/
abbrev Stranded (s : System T x) : Prop := slotRoles.Stranded (2 ^ 31 - 1) s.pc

abbrev Crowded (s : System T x) : Prop := slotRoles.Crowded (2 ^ 31 - 1) s.pc

/-- An `unlock_shared` takes the count off its limit, and so notifies, or the
slots are not crowded. -/
def LeavesNobodyAsleep (s : System T x) : Action T → Prop
  | .unlockShared _ => s.sharedHolders = 2 ^ 31 - 1 ∨ ¬ Crowded s
  | _ => True

instance (s : System T x) : (a : Action T) → Decidable (LeavesNobodyAsleep s a)
  | .unlockShared _ => inferInstanceAs (Decidable (s.sharedHolders = 2 ^ 31 - 1 ∨ ¬ Crowded s))
  | .lock _ | .tryLock _ _ | .tryLockUntil _ | .unlock _ | .lockShared _ | .tryLockShared _ _
  | .tryLockSharedUntil _ | .unblock _ | .resume _ _ | .notifyAll _ | .notifyOne _ _ =>
      .isTrue trivial

variable {s s' : System T x}

/-! ## What a stranded reader says about the word -/

/-- The writer bit is clear and the count below its limit. -/
theorem mayEnter_of_stranded (owned : Owned s) (stranded : Stranded s) :
    readerMayEnter s.state = true := by
  refine owned.readerMayEnter_iff.mpr ⟨population_eq_zero.mpr fun t => ?_, ?_⟩
  · have unbarred := stranded.not_bars t
    cases position : s.pc t <;> rw [position] at unbarred <;> first | rfl | cases unbarred
  · have room := stranded.room
    change population ThreadPc.isShared s.pc + _ + _ < _ at room
    change population ThreadPc.isShared s.pc < _
    omega

theorem atRgate_of_sleeps {pc : ThreadPc} (sleeps : slotRoles.sleeps pc = true) :
    ∃ op, op.exclusive = false ∧ pc = .atRgate op .blocked := by
  cases pc with
  | atRgate op status =>
      cases status with
      | blocked => exact ⟨op, Bool.not_eq_true' _ ▸ sleeps, rfl⟩
      | _ => cases sleeps
  | _ => cases sleeps

/-- With no notification in flight, a stranded reader is a sleeping one. -/
theorem not_noReaderAsleep (owned : Owned s) (stranded : Stranded s)
    (quiet : ∀ t, (s.pc t).inFlight = false) : ¬ NoReaderAsleep s := by
  intro awake
  obtain ⟨t, sleeps⟩ := stranded.exists_sleeper
  obtain ⟨op, shared, asleep⟩ := atRgate_of_sleeps sleeps
  exact awake (mayEnter_of_stranded owned stranded) quiet t op shared asleep

/-- Without a stranded reader, no reader sleeps. -/
theorem noReaderAsleep_of_not_stranded (owned : Owned s) (safe : ¬ Stranded s) :
    NoReaderAsleep s := by
  intro may quiet t op shared blocked
  have idle : ∀ p : ThreadPc, p.inFlight = false →
      slotRoles.woken p = false ∧ slotRoles.wakesOne p = false := by
    intro p still
    cases p with
    | atRgate op status => cases status <;> first | exact ⟨rfl, rfl⟩ | cases still
    | _ => first | exact ⟨rfl, rfl⟩ | cases still
  obtain ⟨noWriter, room⟩ := owned.readerMayEnter_iff.mp may
  have woken : population slotRoles.woken s.pc = 0 :=
    population_eq_zero.mpr fun u => (idle _ (quiet u)).1
  have wakes : population slotRoles.wakesOne s.pc = 0 :=
    population_eq_zero.mpr fun u => (idle _ (quiet u)).2
  have asleep : 0 < population slotRoles.sleeps s.pc :=
    population_pos.mpr ⟨t, by rw [blocked]; exact Bool.not_eq_true' _ ▸ shared⟩
  refine safe ⟨population_eq_zero.mpr fun u => ?_, by omega, ?_⟩
  · have outside : (s.pc u).isEntered = false := population_eq_zero.mp noWriter u
    have still := quiet u
    cases position : s.pc u with
    | atRgate op status =>
        rw [position] at still
        cases status <;> first | rfl | cases still
    | _ =>
        rw [position] at outside still
        first | rfl | exact Bool.noConfusion still | exact Bool.noConfusion outside
  · unfold SlotRoles.claims
    rw [woken, wakes]
    exact room

/-! ## Which steps strand a reader -/

/-- A thread that bars the slots. -/
theorem not_stranded_of_bars {t : T} (bars : slotRoles.bars (s.pc t) = true) : ¬ Stranded s := by
  intro stranded
  rw [stranded.not_bars t] at bars
  cases bars

variable [DecidableEq T] {t : T}

theorem update_not_stranded {pc : ThreadPc} (moved : s'.pc = Function.update s.pc t pc)
    (bars : slotRoles.bars pc = true) : ¬ Stranded s' :=
  not_stranded_of_bars (t := t) (by rw [moved, Function.update_self]; exact bars)

/-- Where a reader enters from. -/
def ThreadPc.comesToRgate (op : GateOp) (pc : ThreadPc) : Prop :=
  pc = .outside ∨ ∃ status, pc = .atRgate op status ∧ status ≠ .blocked

/-- A reader that comes to `rgate` neither bars nor sleeps, and claims one slot
at most. -/
theorem comesToRgate_roles {op : GateOp} {pc : ThreadPc} (comes : pc.comesToRgate op)
    (shared : op.exclusive = false) : slotRoles.bars pc = false ∧ slotRoles.sleeps pc = false ∧
      slotRoles.wakesOne pc = false ∧ slotRoles.share pc ≤ 1 := by
  rcases comes with rfl | ⟨status, rfl, unblocked⟩
  · decide
  · cases status with
    | blocked => exact absurd rfl unblocked
    | notified => exact ⟨shared, rfl, rfl, by cases op <;> decide⟩
    | awake => exact ⟨rfl, rfl, rfl, Nat.zero_le _⟩

/-- A reader takes a slot. -/
theorem stranded_countIn {op : GateOp} {state : UintFast32 x} (comes : (s.pc t).comesToRgate op)
    (shared : op.exclusive = false) :
    Stranded ({ state := state, pc := Function.update s.pc t .holdsShared } : System T x) →
      Stranded s := by
  intro stranded
  obtain ⟨bars, sleeps, wakes, share⟩ := comesToRgate_roles comes shared
  refine SlotRoles.Stranded.unmove stranded ?_ ?_ share
  · rw [bars]
    exact Nat.zero_le _
  · rw [wakes]
    exact Nat.zero_le _

theorem stranded_rgateTest (owned : Owned s) (op : GateOp) (expired : Bool)
    (comes : (s.pc t).comesToRgate op) (stranded : Stranded (rgateTest s t op expired)) :
    Stranded s := by
  have owned' : Owned (rgateTest s t op expired) := by
    refine owned.rgateTest op expired ?_ ?_ <;>
      rcases comes with outside | ⟨status, waiting, _⟩ <;> simp only [*] <;> rfl
  -- a thread that stays outside or goes to sleep leaves the word closed
  have refused : (rgateTest s t op expired).state = s.state → readerMayEnter s.state = false →
      Stranded s := by
    intro same closed
    have may := mayEnter_of_stranded owned' stranded
    rw [same, closed] at may
    cases may
  unfold rgateTest at stranded refused
  cases exclusive : op.exclusive with
  | true =>
      rw [if_pos exclusive] at stranded refused
      cases entered : writerEntered s.state with
      | false =>
          rw [entered] at stranded
          refine absurd stranded (update_not_stranded rfl ?_)
          split_ifs <;> rfl
      | true =>
          rw [entered] at refused
          apply refused (by cases expired <;> rfl)
          simp [readerMayEnter, entered]
  | false =>
      rw [if_neg (Bool.not_eq_true _ ▸ exclusive)] at stranded refused
      cases may : readerMayEnter s.state with
      | true =>
          rw [if_pos may] at stranded
          exact stranded_countIn comes exclusive stranded
      | false =>
          rw [if_neg (Bool.not_eq_true _ ▸ may)] at refused
          exact refused (by cases expired <;> rfl) may

theorem not_stranded_wgateTest (timed expired : Bool) :
    ¬ Stranded (wgateTest s t timed expired) := by
  unfold wgateTest
  split_ifs <;> exact update_not_stranded rfl rfl

/-- A broadcast at `rgate`. -/
theorem not_stranded_notifyAll : ¬ Stranded ((notifyAllRgate s).goto t .outside) := by
  intro stranded
  obtain ⟨u, sleeps⟩ := stranded.exists_sleeper
  by_cases isT : u = t
  · rw [isT, goto_pc] at sleeps
    cases sleeps
  · rw [goto_pc_of_ne isT] at sleeps
    unfold notifyAllRgate at sleeps
    dsimp only at sleeps
    cases position : s.pc u with
    | atRgate op status =>
        rw [position] at sleeps
        cases status <;> cases sleeps
    | _ =>
        rw [position] at sleeps
        cases sleeps

/-- A notification arrives at `rgate` or `wgate`. -/
theorem stranded_notifyOne {u : T} {gate : Gate} (sending : s.pc t = gate.notifyingOne)
    (blocked : (s.pc u).blockedAt gate = true)
    (stranded : Stranded ((s.goto u (s.pc u).notified).goto t .outside)) : Stranded s := by
  have ne : t ≠ u := by
    rintro rfl
    rw [sending] at blocked
    cases gate <;> cases blocked
  -- a writer that has been notified bars the slots
  have unbarred := stranded.not_bars u
  rw [goto_pc_of_ne (Ne.symm ne), goto_pc] at unbarred
  cases gate with
  | wgate =>
      cases position : s.pc u
      all_goals
        rw [position] at blocked unbarred
        first | exact Bool.noConfusion blocked | exact Bool.noConfusion unbarred
  | rgate =>
      cases position : s.pc u with
      | atRgate op status =>
          rw [position] at blocked unbarred
          cases status with
          | blocked =>
              have shared : op.exclusive = false := unbarred
              refine (SlotRoles.stranded_deliver ne ?_ ?_ ?_).mp stranded
              all_goals
                rw [position, sending]
                cases op <;> first | rfl | cases shared
          | _ => cases blocked
      | _ =>
          rw [position] at blocked
          cases blocked

theorem unlockShared_pc (owned : Owned s) (held : s.pc t = .holdsShared) :
    ∃ pc, (unlockShared s t).pc = Function.update s.pc t pc ∧
      (s.sharedHolders = 2 ^ 31 - 1 → pc = .notifyingRgateOne) ∧
      (s.sharedHolders ≠ 2 ^ 31 - 1 → pc = .outside ∨ pc = .notifyingWgateOne) := by
  have owned' := owned.unlockShared held
  have small := owned'.fewReaders
  have readers : (unlockShared s t).sharedHolders + 1 = s.sharedHolders :=
    population_update_leave (by rw [held]; rfl) (by split_ifs <;> rfl)
  have word : s.state - 1#_ = _ := owned'.word
  have zero : (s.state - 1#_ &&& numReaderMask x == 0#_) = true ↔
      (unlockShared s t).sharedHolders = 0 := by
    rw [beq_iff_eq, word]
    exact pack_and_countMask_eq_zero (by omega) small
  have pred : (s.state - 1#_ &&& numReaderMask x == numReaderMask x - 1#_) = true ↔
      s.sharedHolders = 2 ^ 31 - 1 := by
    rw [beq_iff_eq, word, ← readers]
    exact pack_and_countMask_eq_pred (by omega) small (by omega)
  refine ⟨_, rfl, fun full => ?_, fun notFull => ?_⟩
  · rw [if_neg (by rw [Bool.and_eq_true, zero]; omega), if_pos (pred.mpr full)]
  · rw [if_neg (c := (s.state - 1#_ &&& numReaderMask x == numReaderMask x - 1#_) = true)
      (fun isPred => notFull (pred.mp isPred))]
    split_ifs
    · exact .inr rfl
    · exact .inl rfl

/-- A reader leaves: it strands a sleeper where the slots were crowded, unless
it takes the count off its limit. -/
theorem stranded_unlockShared_iff (owned : Owned s) (held : s.pc t = .holdsShared) :
    Stranded (unlockShared s t) ↔ Stranded s ∨ s.sharedHolders ≠ 2 ^ 31 - 1 ∧ Crowded s := by
  obtain ⟨pc, moved, whenFull, otherwise⟩ := unlockShared_pc owned held
  rw [Stranded, moved]
  by_cases full : s.sharedHolders = 2 ^ 31 - 1
  · cases whenFull full
    constructor
    · intro stranded
      refine .inl (stranded.unmove ?_ ?_ ?_)
      all_goals rw [held]; decide
    · rintro (stranded | ⟨notFull, _⟩)
      · have room := (owned.readerMayEnter_iff.mp (mayEnter_of_stranded owned stranded)).2
        omega
      · exact absurd full notFull
  · rw [and_iff_right full]
    apply SlotRoles.stranded_leave
    all_goals first
      | rw [held]; rfl
      | rcases otherwise full with rfl | rfl <;> rfl

theorem stranded_of_transition (owned : Owned s) (moved : Transition s s') (stranded : Stranded s') :
    Stranded s ∨ ∃ t, s.pc t = .holdsShared ∧ s' = unlockShared s t := by
  cases moved with
  | request t op outside =>
      exact .inl (stranded_rgateTest owned op false (.inl outside) stranded)
  | tryLock t gotMutex outside =>
      unfold tryLock at stranded
      split_ifs at stranded
      · exact absurd stranded (update_not_stranded rfl rfl)
      · exact .inl stranded
  | tryLockShared t gotMutex outside =>
      unfold tryLockShared at stranded
      split_ifs at stranded
      · exact .inl (stranded_countIn (show (s.pc t).comesToRgate .lockShared from .inl outside) rfl stranded)
      · exact .inl stranded
  | unlock t held => exact absurd stranded (update_not_stranded rfl rfl)
  | unlockShared t held => exact .inr ⟨t, held, rfl⟩
  | unblockRgate t op waiting =>
      refine .inl (SlotRoles.Stranded.unmove stranded ?_ ?_ ?_)
      all_goals
        rw [waiting]
        cases op <;> decide
  | unblockWgate t timed waiting => exact absurd stranded (update_not_stranded rfl rfl)
  | resumeRgate t op status expired waiting unblocked deadline =>
      exact .inl (stranded_rgateTest owned op expired (.inr ⟨status, waiting, unblocked⟩) stranded)
  | resumeWgate t timed status expired waiting unblocked deadline =>
      exact absurd stranded (not_stranded_wgateTest timed expired)
  | notifyAll t sending => exact absurd stranded not_stranded_notifyAll
  | notifyNobody t gate sending nobody =>
      cases gate with
      | wgate =>
          refine .inl (SlotRoles.Stranded.unmove stranded ?_ ?_ ?_)
          all_goals
            rw [sending]
            decide
      | rgate =>
          obtain ⟨u, sleeps⟩ := stranded.exists_sleeper
          have quiet := nobody u
          by_cases isT : u = t
          · rw [isT, goto_pc] at sleeps
            cases sleeps
          · rw [goto_pc_of_ne isT] at sleeps
            cases position : s.pc u with
            | atRgate op status =>
                rw [position] at sleeps quiet
                cases status <;>
                  first | exact Bool.noConfusion sleeps | exact Bool.noConfusion quiet
            | _ =>
                rw [position] at sleeps
                cases sleeps
  | notifyOne t u gate sending blocked => exact .inl (stranded_notifyOne sending blocked stranded)

/-! ## Runs -/

/-- Only its own `unlock_shared` ends a thread's shared ownership. -/
theorem unlockShared_of_leaves {a : Action T} (stepEq : step s a = some s')
    (held : s.pc t = .holdsShared) (leaves : (s'.pc t).isShared = false) : a = .unlockShared t := by
  have isActor : t = a.actor := by
    by_contra other
    rw [isShared_of_ne_actor stepEq other, held] at leaves
    cases leaves
  subst isActor
  cases a <;> simp_all [step, Action.actor]

/-- A step that strands a reader is an `unlock_shared` out of crowded slots. -/
theorem stranded_of_step {a : Action T} (owned : Owned s) (stepEq : step s a = some s')
    (stranded : Stranded s') : Stranded s ∨ ¬ LeavesNobodyAsleep s a := by
  rcases stranded_of_transition owned (transition_of_step stepEq) stranded with
    before | ⟨t, held, rfl⟩
  · exact .inl before
  · rcases (stranded_unlockShared_iff owned held).mp stranded with before | ⟨notFull, crowded⟩
    · exact .inl before
    · obtain ⟨pc, moved, whenFull, otherwise⟩ := unlockShared_pc owned held
      have leaves : ((unlockShared s t).pc t).isShared = false := by
        rw [moved, Function.update_self]
        rcases otherwise notFull with rfl | rfl <;> rfl
      cases unlockShared_of_leaves stepEq held leaves
      exact .inr fun keeps => keeps.elim notFull fun notCrowded => notCrowded crowded

/-- Every such step does strand one. -/
theorem stranded_of_not_leaves {a : Action T} (owned : Owned s) (stepEq : step s a = some s')
    (fails : ¬ LeavesNobodyAsleep s a) : Stranded s' := by
  cases a with
  | unlockShared t =>
      obtain ⟨held, same⟩ := Option.ite_none_right_eq_some.mp stepEq
      cases same
      obtain ⟨notFull, crowded⟩ := not_or.mp fails
      exact (stranded_unlockShared_iff owned held).mpr (.inr ⟨notFull, not_not.mp crowded⟩)
  | _ => exact absurd trivial fails

theorem not_stranded_of_reachable (reachable : (machine T x).ReachableUnder LeavesNobodyAsleep s) :
    ¬ Stranded s := by
  refine reachable.invariant (motive := fun s => ¬ Stranded s) ?_ ?_
  · intro stranded
    obtain ⟨t, sleeps⟩ := stranded.exists_sleeper
    cases sleeps
  · intro s a s' reached safe allowed stepEq stranded
    exact (stranded_of_step (owned_of_reachable reached) stepEq stranded).elim safe
      (fun fails => fails allowed)

/-! ## What becomes of a stranded reader -/

/-- The steps that a notification in flight still has to take. -/
def ThreadPc.flight : ThreadPc → Nat
  | .notifyingRgateOne => 2
  | .notifyingWgateOne | .atRgate _ .notified => 1
  | _ => 0

/-- Some step brings a notification further, and the stranded reader stays stranded. -/
def FlightGoesOn (s : System T x) : Prop :=
  ∃ a s', step s a = some s' ∧ Stranded s' ∧
    total ThreadPc.flight s'.pc < total ThreadPc.flight s.pc

/-- A reader on its way out wakes the sleeper of the read gate. -/
theorem flight_notifyingRgateOne (stranded : Stranded s) (position : s.pc t = .notifyingRgateOne) :
    FlightGoesOn s := by
  obtain ⟨u, sleeps⟩ := stranded.exists_sleeper
  obtain ⟨op, shared, asleep⟩ := atRgate_of_sleeps sleeps
  have ne : t ≠ u := by
    rintro rfl
    rw [position] at asleep
    cases asleep
  have blocked : (s.pc u).blockedAt .rgate = true := by rw [asleep]; rfl
  refine ⟨.notifyOne t (some u), (s.goto u (s.pc u).notified).goto t .outside, ?_, ?_, ?_⟩
  · simp only [step, position, notifyOne, if_pos blocked, Option.map_some]
  · refine (SlotRoles.stranded_deliver ne ?_ ?_ ?_).mpr stranded
    all_goals
      rw [position, asleep]
      cases op <;> first | rfl | cases shared
  · have moved := total_update_pair ThreadPc.flight s.pc ne (s.pc u).notified .outside
    rw [position, asleep] at moved
    change _ + 2 = _ + 1 at moved
    change total ThreadPc.flight (Function.update (Function.update s.pc u _) t _) < _
    rw [asleep]
    omega

/-- The notification of the write gate reaches nobody: a writer there would bar. -/
theorem flight_notifyingWgateOne (stranded : Stranded s) (position : s.pc t = .notifyingWgateOne) :
    FlightGoesOn s := by
  have nobody : ∀ u, (s.pc u).blockedAt .wgate = false := by
    intro u
    have notWriter := stranded.not_bars u
    cases isAt : s.pc u <;> rw [isAt] at notWriter <;> first | rfl | cases notWriter
  refine ⟨.notifyOne t none, s.goto t .outside, ?_, ?_, ?_⟩
  · simp only [step, position, notifyOne, if_pos nobody, Option.map_some]
  · apply SlotRoles.Stranded.move stranded
    all_goals
      rw [position]
      decide
  · apply total_update_lt
    rw [position]
    decide

/-- A notified reader takes a slot. -/
theorem flight_atRgate (owned : Owned s) (stranded : Stranded s) {op : GateOp}
    (position : s.pc t = .atRgate op .notified) : FlightGoesOn s := by
  have shared : op.exclusive = false := by
    have unbarred := stranded.not_bars t
    rw [position] at unbarred
    exact unbarred
  have enters : rgateTest s t op false =
      { state := s.state + 1#_, pc := Function.update s.pc t .holdsShared } := by
    simp [rgateTest, shared, mayEnter_of_stranded owned stranded]
  refine ⟨.resume t false, rgateTest s t op false, ?_, ?_, ?_⟩
  · simp [step, position]
  · rw [enters]
    apply SlotRoles.Stranded.move stranded
    all_goals
      rw [position]
      cases op <;> first | decide | cases shared
  · rw [enters]
    apply total_update_lt
    rw [position]
    exact Nat.zero_lt_one

/-- While a notification is in flight, some step brings it further. -/
theorem stranded_flight (owned : Owned s) (stranded : Stranded s)
    (flying : ¬ ∀ t, (s.pc t).inFlight = false) : FlightGoesOn s := by
  obtain ⟨t, flies⟩ := not_forall.mp flying
  have unbarred := stranded.not_bars t
  cases position : s.pc t with
  | notifyingRgateOne => exact flight_notifyingRgateOne stranded position
  | notifyingWgateOne => exact flight_notifyingWgateOne stranded position
  | atRgate op status =>
      rw [position] at flies
      cases status with
      | notified => exact flight_atRgate owned stranded position
      | _ => exact absurd rfl flies
  | _ =>
      rw [position] at unbarred flies
      first | exact absurd rfl flies | exact Bool.noConfusion unbarred

/-- A stranded reader can be left asleep: once every notification in flight has
arrived, a slot is free and it sleeps. -/
theorem stranded_leads_asleep (reachable : (machine T x).Reachable s) (stranded : Stranded s) :
    ∃ s', (machine T x).LaterUnder Machine.anyStep s s' ∧ ¬ NoReaderAsleep s' := by
  have arrives : ∃ s', (machine T x).LaterUnder Machine.anyStep s s' ∧
      ((machine T x).Reachable s' ∧ Stranded s') ∧ ∀ t, (s'.pc t).inFlight = false := by
    refine Machine.exists_later (fun s => total ThreadPc.flight s.pc) ?_ ⟨reachable, stranded⟩
    intro s ⟨reached, stranded⟩ flying
    obtain ⟨a, s', stepEq, still, fewer⟩ :=
      stranded_flight (owned_of_reachable reached) stranded flying
    exact ⟨a, s', trivial, stepEq, ⟨reached.step trivial stepEq, still⟩, fewer⟩
  obtain ⟨s', later, ⟨reached, still⟩, quiet⟩ := arrives
  exact ⟨s', later, not_noReaderAsleep (owned_of_reachable reached) still quiet⟩

/-! ## A run that strands a reader -/

/-- Up to the limit of the count, any threads may hold shared ownership together. -/
theorem filled_reachable (holders : Finset T) (room : holders.card ≤ 2 ^ 31 - 1) :
    ∃ s, (machine T x).Reachable s ∧ s.pc = filled .holdsShared .outside holders := by
  refine exists_filled System.pc rfl ?_ holders room
  intro s t holders reachable isFilled absent free
  have noWriter : s.enteredWriters = 0 := population_filled_none isFilled rfl rfl
  have held : s.sharedHolders = holders.card := population_filled isFilled rfl rfl
  have may : readerMayEnter s.state = true :=
    (owned_of_reachable reachable).readerMayEnter_iff.mpr ⟨noWriter, by omega⟩
  have enters : lockShared s t =
      { state := s.state + 1#_, pc := Function.update s.pc t .holdsShared } := if_pos may
  refine ⟨lockShared s t, ?_, congrArg System.pc enters⟩
  exact reachable.step (a := .lockShared t) trivial (if_pos (filled_of_notMem isFilled absent))

/-- A reader that finds the count at its limit goes to sleep. -/
theorem lockShared_full (owned : Owned s) (full : s.sharedHolders = 2 ^ 31 - 1) :
    lockShared s t = s.goto t (.atRgate .lockShared .blocked) := by
  refine if_neg fun may => ?_
  have room := (owned.readerMayEnter_iff.mp may).2
  omega

/-- The count is at its limit, `sleepers` readers sleep and nothing else is going on. -/
structure Packed (s : System T x) (sleepers : Nat) : Prop where
  full : s.sharedHolders = 2 ^ 31 - 1
  asleep : population slotRoles.sleeps s.pc = sleepers
  unbarred : population slotRoles.bars s.pc = 0
  woken : population slotRoles.woken s.pc = 0
  wakesOne : population slotRoles.wakesOne s.pc = 0

namespace Packed

theorem of_filled {holders : Finset T}
    (isFilled : s.pc = filled .holdsShared .outside holders)
    (size : holders.card = 2 ^ 31 - 1) : Packed s 0 where
  full := (population_filled isFilled rfl rfl).trans size
  asleep := population_filled_none isFilled rfl rfl
  unbarred := population_filled_none isFilled rfl rfl
  woken := population_filled_none isFilled rfl rfl
  wakesOne := population_filled_none isFilled rfl rfl

/-- One more reader goes to sleep. -/
theorem sleep {sleepers : Nat} (packed : Packed s sleepers) (outside : s.pc t = .outside) :
    Packed (s.goto t (.atRgate .lockShared .blocked)) (sleepers + 1) := by
  constructor
  · exact (population_update_same (by rw [outside]; rfl)).trans packed.full
  · exact (population_update_enter (by rw [outside]; rfl) rfl).trans (congrArg (· + 1) packed.asleep)
  · exact (population_update_same (by rw [outside]; rfl)).trans packed.unbarred
  · exact (population_update_same (by rw [outside]; rfl)).trans packed.woken
  · exact (population_update_same (by rw [outside]; rfl)).trans packed.wakesOne

/-- The first holder that leaves wakes one sleeper; with a second sleeper the
slots are crowded. -/
theorem crowded {sleepers : Nat} (packed : Packed s sleepers) (two : 2 ≤ sleepers)
    (owned : Owned s) (held : s.pc t = .holdsShared) : Crowded (unlockShared s t) := by
  obtain ⟨pc, moved, whenFull, _⟩ := unlockShared_pc owned held
  cases whenFull packed.full
  have sleeps : population slotRoles.sleeps (unlockShared s t).pc = sleepers := by
    rw [moved]
    exact (population_update_same (by rw [held]; rfl)).trans packed.asleep
  have wakes : population slotRoles.wakesOne (unlockShared s t).pc = 1 := by
    rw [moved]
    exact (population_update_enter (by rw [held]; rfl) rfl).trans (congrArg (· + 1) packed.wakesOne)
  have claims := slotRoles.claims_update s.pc t .notifyingRgateOne
  have before : slotRoles.claims s.pc = 2 ^ 31 - 1 := by
    unfold SlotRoles.claims
    rw [packed.woken, packed.wakesOne]
    exact packed.full
  refine ⟨?_, by omega, ?_⟩
  · rw [moved]
    exact (population_update_same (by rw [held]; rfl)).trans packed.unbarred
  · rw [held] at claims
    rw [moved]
    change _ + 1 = _ + 1 at claims
    omega

end Packed

/-- With 2^31 + 1 threads a reader can be stranded: the count is at its limit,
two readers sleep, and two holders leave. -/
theorem stranded_reachable (many : 2 ^ 31 + 1 ≤ Fintype.card T) :
    ∃ s, (machine T x).Reachable s ∧ Stranded s := by
  obtain ⟨holders, _, size⟩ :=
    Finset.exists_subset_card_eq (s := (Finset.univ : Finset T)) (n := 2 ^ 31 - 1)
      (by rw [Finset.card_univ]; omega)
  obtain ⟨t₁, held₁, t₂, held₂, leavers⟩ := Finset.one_lt_card.mp (show 1 < holders.card by omega)
  obtain ⟨u₁, out₁, u₂, out₂, sleepers⟩ := Finset.one_lt_card.mp
    (show 1 < holdersᶜ.card by rw [Finset.card_compl]; omega)
  rw [Finset.mem_compl] at out₁ out₂
  have sleepStep : ∀ {s : System T x} {k u}, (machine T x).Reachable s → Packed s k →
      s.pc u = .outside → (machine T x).Reachable (s.goto u (.atRgate .lockShared .blocked)) := by
    intro s k u reached packed outside
    rw [← lockShared_full (owned_of_reachable reached) packed.full]
    exact reached.step (a := .lockShared u) trivial (if_pos outside)
  have leaveStep : ∀ {s : System T x} {t}, (machine T x).Reachable s → s.pc t = .holdsShared →
      (machine T x).Reachable (unlockShared s t) := fun {_ t} reached held =>
    reached.step (a := .unlockShared t) trivial (if_pos held)
  obtain ⟨s₀, reached₀, isFilled⟩ := filled_reachable (x := x) holders size.le
  have packed₀ : Packed s₀ 0 := .of_filled isFilled size
  have outside₁ : s₀.pc u₁ = .outside := filled_of_notMem isFilled out₁
  have reached₁ := sleepStep reached₀ packed₀ outside₁
  have packed₁ := packed₀.sleep outside₁
  set s₁ := s₀.goto u₁ (.atRgate .lockShared .blocked)
  have outside₂ : s₁.pc u₂ = .outside := by
    rw [goto_pc_of_ne (Ne.symm sleepers)]
    exact filled_of_notMem isFilled out₂
  have reached₂ := sleepStep reached₁ packed₁ outside₂
  have packed₂ := packed₁.sleep outside₂
  set s₂ := s₁.goto u₂ (.atRgate .lockShared .blocked)
  have holds : ∀ t ∈ holders, s₂.pc t = .holdsShared := by
    intro t member
    have other₁ : t ≠ u₁ := fun same => out₁ (same ▸ member)
    have other₂ : t ≠ u₂ := fun same => out₂ (same ▸ member)
    rw [goto_pc_of_ne other₂, goto_pc_of_ne other₁]
    exact filled_of_mem isFilled member
  have crowded := packed₂.crowded (by omega) (owned_of_reachable reached₂) (holds t₁ held₁)
  have reached₃ := leaveStep reached₂ (holds t₁ held₁)
  have fewer : (unlockShared s₂ t₁).sharedHolders + 1 = s₂.sharedHolders :=
    population_update_leave (by rw [holds t₁ held₁]; rfl) (by split_ifs <;> rfl)
  have full := packed₂.full
  have holdsStill : (unlockShared s₂ t₁).pc t₂ = .holdsShared :=
    (Function.update_of_ne (Ne.symm leavers) ..).trans (holds t₂ held₂)
  refine ⟨unlockShared (unlockShared s₂ t₁) t₂, leaveStep reached₃ holdsStill, ?_⟩
  exact (stranded_unlockShared_iff (owned_of_reachable reached₃) holdsStill).mpr
    (.inr ⟨by omega, crowded⟩)

end Conc11.SharedMutex
