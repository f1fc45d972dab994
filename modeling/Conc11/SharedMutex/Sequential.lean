/-
Module: Conc11.SharedMutex.Sequential
Purpose: `SharedTimedMutex` used by one caller at a time is the abstract readers-writer lock, whatever spurious
  wakeups the waits of a call have.
Trusted boundary: `interface` says what a complete call is.
Main exports: interface, embed, Midway, implements_lock
-/
import Conc11.SharedMutex.Holders

namespace Conc11.SharedMutex

open Library Library.FlagCounter

variable {T : Type*} {x : Nat}

/-! ## Complete calls -/

/-- The first label of a call.  Nobody else uses `mtx`, so `std::try_to_lock` gets it. -/
def Call.start : Call T → Action T
  | .lock t => .lock t
  | .tryLock t => .tryLock t true
  | .tryLockUntil t => .tryLockUntil t
  | .unlock t => .unlock t
  | .lockShared t => .lockShared t
  | .tryLockShared t => .tryLockShared t true
  | .tryLockSharedUntil t => .tryLockSharedUntil t
  | .unlockShared t => .unlockShared t

/-- The thread that goes on in a call with this label. -/
def Action.continuedBy : Action T → Option T
  | .unblock t | .resume t _ | .notifyAll t | .notifyOne t _ => some t
  | _ => none

/-- Neither waiting nor about to notify. -/
def ThreadPc.atRest : ThreadPc → Bool
  | .outside | .holdsExclusive | .holdsShared => true
  | _ => false

def ThreadPc.holds : ThreadPc → Bool
  | .holdsExclusive | .holdsShared => true
  | _ => false

/-- Calls by one caller at a time.  What is seen of a call is what it returns
and `state`. -/
def interface (T : Type*) (x : Nat) :
    Interface (System T x) (Action T) (Call T) (Option Bool × UintFast32 x) :=
  { start := Call.start
    continues := fun call a => a.continuedBy = some call.caller
    returned := fun call s => (s.pc call.caller).atRest = true
    observe := fun call s => (call.result (s.pc call.caller).holds, s.state) }

/-! ## Between calls -/

def Position.pc : Position → ThreadPc
  | .outside => .outside
  | .exclusive => .holdsExclusive
  | .shared => .holdsShared

theorem Position.holds_pc (position : Position) : position.pc.holds = position.holds := by
  cases position <;> rfl

variable [Fintype T]

/-- The mutex between two calls. -/
def embed (x : Nat) (h : Holders T) : System T x :=
  { state := h.word x, pc := fun t => (h.position t).pc }

variable {h q : Holders T} {t : T} {op : GateOp} {s s' : System T x} {outcome : Option (Holders T)}

theorem pc_eq_outside : (embed x h).pc t = .outside ↔ h.position t = .outside := by
  change (h.position t).pc = .outside ↔ _
  cases h.position t <;> simp [Position.pc]

theorem pc_eq_exclusive : (embed x h).pc t = .holdsExclusive ↔ h.position t = .exclusive := by
  change (h.position t).pc = .holdsExclusive ↔ _
  cases h.position t <;> simp [Position.pc]

theorem pc_eq_shared : (embed x h).pc t = .holdsShared ↔ h.position t = .shared := by
  change (h.position t).pc = .holdsShared ↔ _
  cases h.position t <;> simp [Position.pc]

theorem atRest_embed : ((embed x h).pc t).atRest = true := by
  change (h.position t).pc.atRest = true
  cases h.position t <;> rfl

/-- Nobody is blocked between two calls. -/
theorem blockedAt_embed (gate : Gate) (u : T) : ((embed x h).pc u).blockedAt gate = false := by
  change (h.position u).pc.blockedAt gate = false
  cases h.position u <;> cases gate <;> rfl

/-- A call has changed the position of its owner and the word accordingly. -/
theorem embed_eq [DecidableEq T] {position : Position} {state : UintFast32 x}
    (moved : q.position = Function.update h.position t position) (word : state = q.word x) :
    ({ state := state, pc := Function.update (embed x h).pc t position.pc } : System T x) =
      embed x q := by
  have pcs : Function.update (embed x h).pc t position.pc = (embed x q).pc := by
    funext u
    change _ = (q.position u).pc
    rw [moved]
    by_cases same : u = t
    · rw [same, Function.update_self, Function.update_self]
    · rw [Function.update_of_ne same, Function.update_of_ne same]
      rfl
  rw [pcs, word]
  rfl

theorem writerEntered_embed : writerEntered (embed x h).state = decide ¬h.NoWriter :=
  writerEntered_pack h.fits

theorem readerMayEnter_embed : readerMayEnter (embed x h).state = decide h.MayShare := by
  rw [Bool.eq_iff_iff, decide_eq_true_iff]
  apply (readerMayEnter_pack h.fits).trans
  rw [decide_eq_false_iff_not, not_not]
  rfl

/-- Clearing the bit that `t` has set restores the word. -/
theorem clear_entered (noWriter : h.NoWriter) :
    (h.word x ||| writerEnteredMask x) &&& ~~~(writerEnteredMask x) = h.word x := by
  have fits : h.readers < 2 ^ 31 := h.fits
  have bit : 31 < 32 + x := by omega
  change (h.word x ||| flagMask (32 + x) 31) &&& ~~~(flagMask (32 + x) 31) = h.word x
  rw [Holders.word, decide_eq_false (not_not.mpr noWriter), pack_or_flagMask bit fits,
    pack_and_not_flagMask bit fits]

/-- While `t` has set the bit, the readers are still counted. -/
theorem readersActive_entered (readers : h.readers ≠ 0) :
    readersActive (h.word x ||| writerEnteredMask x) = true := by
  have fits : h.readers < 2 ^ 31 := h.fits
  have set : h.word x ||| flagMask (32 + x) 31 = pack (32 + x) 31 true h.readers :=
    pack_or_flagMask (by omega) fits
  change readersActive (h.word x ||| flagMask (32 + x) 31) = true
  rw [set, readersActive_pack fits, decide_eq_true readers]

/-! ## Within a call -/

/-- The condition of `op` at `rgate`. -/
def GateOp.passes (op : GateOp) (state : UintFast32 x) : Bool :=
  if op.exclusive then !writerEntered state else readerMayEnter state

variable [DecidableEq T]

/-- The caller `t` has set the bit and is at `wgate`. -/
def entered (h : Holders T) (x : Nat) (t : T) (timed : Bool) (status : WaitStatus) : System T x :=
  { state := h.word x ||| writerEnteredMask x
    pc := Function.update (embed x h).pc t (.atWgate timed status) }

/-- A state of a call that `t` makes in `h` and that can only come to `outcome`. -/
inductive Midway (h : Holders T) (t : T) : Option (Holders T) → System T x → Prop
  | done (q : Holders T) : Midway h t (some q) (embed x q)
  | notifyingAll (q : Holders T) (outside : q.position t = .outside) :
      Midway h t (some q) ((embed x q).goto t .notifyingRgateAll)
  | notifyingOne (q : Holders T) (gate : Gate) (outside : q.position t = .outside) :
      Midway h t (some q) ((embed x q).goto t gate.notifyingOne)
  | atRgate (op : GateOp) (status : WaitStatus) (outside : h.position t = .outside)
      (closed : op.passes (embed x h).state = false) :
      Midway h t (if op.timed then some h else none) ((embed x h).goto t (.atRgate op status))
  | atWgate (timed : Bool) (status : WaitStatus) (outside : h.position t = .outside)
      (noWriter : h.NoWriter) (readers : h.readers ≠ 0) :
      Midway h t (if timed then some h else none) (entered h x t timed status)

omit [Fintype T] in
theorem goto_goto (s : System T x) (t : T) (pc pc' : ThreadPc) :
    (s.goto t pc).goto t pc' = s.goto t pc' := by
  rw [System.goto, System.goto, Function.update_idem]
  rfl

theorem entered_pc (timed : Bool) (status : WaitStatus) :
    (entered h x t timed status).pc t = .atWgate timed status :=
  Function.update_self ..

theorem entered_goto (timed : Bool) (status status' : WaitStatus) :
    (entered h x t timed status).goto t (.atWgate timed status') = entered h x t timed status' :=
  congrArg (System.mk _) (Function.update_idem ..)

/-- A caller that leaves without ownership is where it was. -/
theorem goto_outside (outside : h.position t = .outside) :
    (embed x h).goto t .outside = embed x h := by
  have same : (embed x h).pc t = .outside := pc_eq_outside.mpr outside
  rw [System.goto, ← same, Function.update_eq_self]

omit [Fintype T] in
theorem rgateTest_refused (s : System T x) (t : T) (expired : Bool)
    (closed : op.passes s.state = false) :
    rgateTest s t op expired = if expired then s.goto t .outside else s.goto t (.atRgate op .blocked) := by
  unfold GateOp.passes at closed
  unfold rgateTest
  by_cases exclusive : op.exclusive = true
  · rw [if_pos exclusive] at closed ⊢
    rw [closed, if_neg Bool.false_ne_true]
  · rw [if_neg exclusive] at closed ⊢
    rw [closed, if_neg Bool.false_ne_true]

/-! ### The first section of a call -/

theorem request_refused (outside : h.position t = .outside)
    (closed : op.passes (embed x h).state = false) (refused : h.acquire t op.exclusive = none) :
    Midway h t (h.attempt t op) (rgateTest (embed x h) t op false) := by
  rw [rgateTest_refused _ t false closed, Holders.attempt_of_none refused,
    if_neg Bool.false_ne_true]
  exact .atRgate op .blocked outside closed

theorem exclusive_midway (outside : h.position t = .outside) (exclusive : op.exclusive = true) :
    Midway h t (h.attempt t op) (rgateTest (embed x h) t op false) := by
  have entered := writerEntered_embed (x := x) (h := h)
  by_cases noWriter : h.NoWriter
  · rw [decide_eq_false (not_not.mpr noWriter)] at entered
    have passed : rgateTest (embed x h) t op false = passRgate (embed x h) t op.timed := by
      rw [rgateTest, if_pos exclusive, entered]
      rfl
    rw [passed, passRgate]
    by_cases readers : h.readers = 0
    · have free : h.Free := Holders.free_iff.mpr ⟨noWriter, readers⟩
      have acquired : h.acquire t op.exclusive = some (h.takeExclusive t free) := by
        rw [exclusive, Holders.acquire_exclusive free]
      have word : (embed x h).state ||| writerEnteredMask x = (h.takeExclusive t free).word x := by
        have fits : h.readers < 2 ^ 31 := h.fits
        change h.word x ||| flagMask (32 + x) 31 = _
        rw [Holders.word_takeExclusive, Holders.word, pack_or_flagMask (by omega) fits, readers]
      have noReaders : readersActive ((h.takeExclusive t free).word x) = false := by
        rw [Holders.word_takeExclusive, readersActive_pack (Nat.two_pow_pos 31)]
        rfl
      rw [Holders.attempt_of_some acquired, word, noReaders, if_neg Bool.false_ne_true]
      have done := embed_eq (x := x) (Holders.takeExclusive_position (t := t) free) rfl
      rw [Position.pc] at done
      rw [done]
      exact .done _
    · have busy : ¬ h.Free := fun free => readers (Holders.free_iff.mp free).2
      have refused : h.acquire t op.exclusive = none := by
        rw [exclusive, Holders.acquire_exclusive_none busy]
      rw [Holders.attempt_of_none refused]
      change Midway h t _ { state := h.word x ||| writerEnteredMask x, pc := _ }
      have active : readersActive ((embed x h).state ||| writerEnteredMask x) = true :=
        readersActive_entered readers
      rw [if_pos active]
      exact .atWgate op.timed .blocked outside noWriter readers
  · rw [decide_eq_true noWriter] at entered
    refine request_refused outside ?_ ?_
    · rw [GateOp.passes, if_pos exclusive, entered]
      rfl
    · rw [exclusive, Holders.acquire_exclusive_none fun free => noWriter (Holders.free_iff.mp free).1]

theorem shared_midway (outside : h.position t = .outside) (shared : op.exclusive = false) :
    Midway h t (h.attempt t op) (rgateTest (embed x h) t op false) := by
  have enters := readerMayEnter_embed (x := x) (h := h)
  by_cases may : h.MayShare
  · rw [decide_eq_true may] at enters
    have acquired : h.acquire t op.exclusive = some (h.takeShared t may) := by
      rw [shared, Holders.acquire_shared may]
    rw [rgateTest, shared, if_neg Bool.false_ne_true, if_pos enters,
      Holders.attempt_of_some acquired]
    have done := embed_eq (x := x) (Holders.takeShared_position (t := t) may)
      (Holders.word_takeShared may outside).symm
    rw [Position.pc] at done
    exact done ▸ .done _
  · rw [decide_eq_false may] at enters
    refine request_refused outside ?_ ?_
    · rw [GateOp.passes, shared, if_neg Bool.false_ne_true, enters]
    · rw [shared, Holders.acquire_shared_none may]

/-- A request either gets what is to be had at once or waits. -/
theorem request_midway (outside : h.position t = .outside) (op : GateOp) :
    Midway h t (h.attempt t op) (rgateTest (embed x h) t op false) := by
  cases exclusive : op.exclusive with
  | true => exact exclusive_midway outside exclusive
  | false => exact shared_midway outside exclusive

theorem tryLock_midway :
    Midway h t (some ((h.acquire t true).getD h)) (tryLock (embed x h) t true) := by
  unfold tryLock
  by_cases free : h.Free
  · have zero : ((embed x h).state == 0#_) = true := beq_iff_eq.mpr (Holders.word_eq_zero.mpr free)
    rw [Holders.acquire_exclusive free, Option.getD_some, zero, Bool.and_self, if_pos rfl]
    have word : writerEnteredMask x = (h.takeExclusive t free).word x := by
      rw [Holders.word_takeExclusive]
      exact flagMask_eq_pack (by omega)
    have done := embed_eq (Holders.takeExclusive_position (t := t) free) word
    rw [Position.pc] at done
    exact done ▸ .done _
  · have nonzero : ((embed x h).state == 0#_) = false :=
      beq_eq_false_iff_ne.mpr fun zero => free (Holders.word_eq_zero.mp zero)
    rw [Holders.acquire_exclusive_none free, Option.getD_none, nonzero, Bool.and_false,
      if_neg Bool.false_ne_true]
    exact .done h

theorem tryLockShared_midway (outside : h.position t = .outside) :
    Midway h t (some ((h.acquire t false).getD h)) (tryLockShared (embed x h) t true) := by
  unfold tryLockShared
  rw [readerMayEnter_embed, Bool.true_and]
  by_cases may : h.MayShare
  · rw [Holders.acquire_shared may, Option.getD_some, decide_eq_true may, if_pos rfl]
    have done := embed_eq (x := x) (Holders.takeShared_position (t := t) may)
      (Holders.word_takeShared may outside).symm
    rw [Position.pc] at done
    exact done ▸ .done _
  · rw [Holders.acquire_shared_none may, Option.getD_none, decide_eq_false may,
      if_neg Bool.false_ne_true]
    exact .done h

/-- A released owner, in front of the end of its call. -/
theorem embed_release {pc : ThreadPc} {state : UintFast32 x} (word : state = (h.release t).word x) :
    ({ state := state, pc := Function.update (embed x h).pc t pc } : System T x) =
      (embed x (h.release t)).goto t pc := by
  rw [← embed_eq (x := x) (Holders.release_position (h := h) (t := t)) word, System.goto,
    Function.update_idem]

theorem unlock_midway (held : h.position t = .exclusive) :
    Midway h t (some (h.release t)) (unlock (embed x h) t) := by
  have fits : h.readers < 2 ^ 31 := h.fits
  have word : (embed x h).state &&& ~~~(writerEnteredMask x) = (h.release t).word x := by
    change h.word x &&& ~~~(flagMask (32 + x) 31) = _
    rw [Holders.word_release_exclusive held, Holders.word, pack_and_not_flagMask (by omega) fits,
      Holders.readers_of_exclusive held]
  rw [unlock, embed_release word]
  exact .notifyingAll _ (Function.update_self ..)

/-- Between calls no writer waits for the last reader. -/
theorem unlockShared_midway (held : h.position t = .shared) :
    Midway h t (some (h.release t)) (unlockShared (embed x h) t) := by
  have word : (embed x h).state - 1#_ = (h.release t).word x := (Holders.word_release_shared held).symm
  have released : (h.release t).position t = .outside := Function.update_self ..
  have noWriter : writerEntered ((h.release t).word x) = false :=
    writerEntered_embed.trans (decide_eq_false (not_not.mpr (Holders.noWriter_release held)))
  unfold unlockShared
  dsimp only
  rw [embed_release word, word, noWriter, Bool.false_and, if_neg Bool.false_ne_true]
  by_cases full : ((h.release t).word x &&& numReaderMask x == numReaderMask x - 1#_) = true
  · rw [if_pos full]
    exact .notifyingOne _ .rgate released
  · rw [if_neg full, goto_outside released]
    exact .done _

/-! ### The rest of a call -/

/-- The first section of a call leads to a state of this call. -/
theorem first_midway (call : Call T) {first : System T x}
    (started : step (embed x h) call.start = some first) :
    Midway h call.caller (h.after call) first := by
  cases call
  all_goals
    obtain ⟨position, rest⟩ := Option.ite_none_right_eq_some.mp started
    cases rest
  case unlock t =>
    have held := pc_eq_exclusive.mp position
    rw [Holders.after, if_pos held]
    exact unlock_midway held
  case unlockShared t =>
    have held := pc_eq_shared.mp position
    rw [Holders.after, if_pos held]
    exact unlockShared_midway held
  all_goals
    have outside := pc_eq_outside.mp position
    rw [Holders.after, if_pos outside]
  case lock t => exact request_midway outside .lock
  case tryLock t => exact tryLock_midway
  case tryLockUntil t => exact request_midway outside .tryLockUntil
  case lockShared t => exact request_midway outside .lockShared
  case tryLockShared t => exact tryLockShared_midway outside
  case tryLockSharedUntil t => exact request_midway outside .tryLockSharedUntil

/-- A call that the abstract lock completes can be started. -/
theorem step_start (call : Call T) (after : h.after call = some q) :
    ∃ first, step (embed x h) call.start = some first := by
  cases call
  all_goals
    obtain ⟨position, rest⟩ := Option.ite_none_right_eq_some.mp after
  case unlock t => exact ⟨_, if_pos (pc_eq_exclusive.mpr position)⟩
  case unlockShared t => exact ⟨_, if_pos (pc_eq_shared.mpr position)⟩
  all_goals exact ⟨_, if_pos (pc_eq_outside.mpr position)⟩

/-! ### The rest of a call -/

/-- A caller that has returned takes no further step in its call. -/
theorem step_of_atRest {a : Action T} (rests : (s.pc t).atRest = true)
    (mine : a.continuedBy = some t) : step s a = none := by
  cases a <;> cases mine <;> cases position : s.pc t <;>
    simp_all [step, ThreadPc.atRest]

/-- A caller about to notify leaves nobody blocked. -/
theorem blockedAt_goto {pc : ThreadPc} (gate : Gate) (awake : pc.blockedAt gate = false) :
    ∀ u, (((embed x q).goto t pc).pc u).blockedAt gate = false :=
  forall_update (fun _ (pc : ThreadPc) => pc.blockedAt gate = false) (blockedAt_embed gate) awake

theorem goesOn_notifyingAll {a : Action T} (outside : q.position t = .outside)
    (mine : a.continuedBy = some t)
    (stepEq : step ((embed x q).goto t .notifyingRgateAll) a = some s') : s' = embed x q := by
  cases a
  case notifyAll u =>
    obtain rfl : u = t := Option.some.inj mine
    have nobody : ∀ v, (((embed x q).goto u .notifyingRgateAll).pc v).blockedAt .rgate = false :=
      blockedAt_goto .rgate rfl
    have unheard : notifyAllRgate ((embed x q).goto u .notifyingRgateAll) =
        (embed x q).goto u .notifyingRgateAll := by
      unfold notifyAllRgate
      simp only [nobody, Bool.false_eq_true, if_false]
    rw [step, goto_pc, if_pos rfl, unheard, goto_goto, goto_outside outside] at stepEq
    exact (Option.some.inj stepEq).symm
  all_goals cases mine <;> simp [step, goto_pc] at stepEq

/-- `notify_one` reaches nobody. -/
theorem notifyOne_nobody {gate : Gate} {target : Option T}
    (nobody : ∀ u, (s.pc u).blockedAt gate = false) (sent : notifyOne s gate target = some s') :
    s' = s := by
  cases target with
  | none =>
      rw [notifyOne, if_pos nobody] at sent
      exact (Option.some.inj sent).symm
  | some u =>
      rw [notifyOne, nobody u, if_neg Bool.false_ne_true] at sent
      cases sent

theorem goesOn_notifyingOne {a : Action T} (gate : Gate) (outside : q.position t = .outside)
    (mine : a.continuedBy = some t)
    (stepEq : step ((embed x q).goto t gate.notifyingOne) a = some s') : s' = embed x q := by
  cases a
  case notifyOne u target =>
    obtain rfl : u = t := Option.some.inj mine
    have awake : gate.notifyingOne.blockedAt gate = false := by cases gate <;> rfl
    have unfolded : step ((embed x q).goto u gate.notifyingOne) (.notifyOne u target) =
        (notifyOne ((embed x q).goto u gate.notifyingOne) gate target).map (·.goto u .outside) := by
      cases gate <;> rw [step, goto_pc] <;> rfl
    rw [unfolded] at stepEq
    obtain ⟨middle, sent, rfl⟩ := Option.map_eq_some_iff.mp stepEq
    rw [notifyOne_nobody (blockedAt_goto gate awake) sent, goto_goto, goto_outside outside]
  all_goals cases mine <;> cases gate <;> simp [step, goto_pc, Gate.notifyingOne] at stepEq

theorem goesOn_atRgate {a : Action T} {status : WaitStatus} (outside : h.position t = .outside)
    (closed : op.passes (embed x h).state = false) (mine : a.continuedBy = some t)
    (stepEq : step ((embed x h).goto t (.atRgate op status)) a = some s') :
    Midway h t (if op.timed then some h else none) s' := by
  cases a
  case unblock u =>
    obtain rfl : u = t := Option.some.inj mine
    cases status <;> simp only [step, goto_pc, reduceCtorEq] at stepEq
    rw [goto_goto] at stepEq
    cases stepEq
    exact .atRgate op .awake outside closed
  case resume u expired =>
    obtain rfl : u = t := Option.some.inj mine
    simp only [step, goto_pc] at stepEq
    obtain ⟨⟨_, deadline⟩, rest⟩ := Option.ite_none_right_eq_some.mp stepEq
    rw [rgateTest_refused ((embed x h).goto u _) u expired closed, goto_goto, goto_goto,
      goto_outside outside] at rest
    cases rest
    cases expired with
    | false => exact .atRgate op .blocked outside closed
    | true =>
        rw [if_pos rfl, if_pos (deadline rfl)]
        exact .done h
  all_goals cases mine <;> simp [step, goto_pc] at stepEq

theorem goesOn_atWgate {a : Action T} {timed : Bool} {status : WaitStatus}
    (outside : h.position t = .outside) (noWriter : h.NoWriter) (readers : h.readers ≠ 0)
    (mine : a.continuedBy = some t) (stepEq : step (entered h x t timed status) a = some s') :
    Midway h t (if timed then some h else none) s' := by
  cases a
  case unblock u =>
    obtain rfl : u = t := Option.some.inj mine
    cases status <;> simp only [step, entered_pc, reduceCtorEq] at stepEq
    rw [entered_goto] at stepEq
    cases stepEq
    exact .atWgate timed .awake outside noWriter readers
  case resume u expired =>
    obtain rfl : u = t := Option.some.inj mine
    simp only [step, entered_pc] at stepEq
    obtain ⟨⟨_, deadline⟩, rest⟩ := Option.ite_none_right_eq_some.mp stepEq
    have active : readersActive (entered h x u timed status).state = true :=
      readersActive_entered readers
    cases rest
    rw [wgateTest, active, Bool.not_true, if_neg Bool.false_ne_true]
    cases expired with
    | false =>
        rw [if_neg Bool.false_ne_true, entered_goto]
        exact .atWgate timed .blocked outside noWriter readers
    | true =>
        have cleared : (entered h x u timed status).state &&& ~~~(writerEnteredMask x) =
            h.word x := clear_entered noWriter
        have restored : Function.update (entered h x u timed status).pc u .notifyingRgateAll =
            Function.update (embed x h).pc u .notifyingRgateAll := Function.update_idem ..
        rw [if_pos rfl, cleared, restored, if_pos (deadline rfl)]
        exact .notifyingAll h outside
  all_goals cases mine <;> simp [step, entered_pc] at stepEq

theorem goesOn {a : Action T} (midway : Midway h t outcome s) (mine : a.continuedBy = some t)
    (stepEq : step s a = some s') : Midway h t outcome s' := by
  cases midway with
  | done q =>
      rw [step_of_atRest atRest_embed mine] at stepEq
      cases stepEq
  | notifyingAll q outside =>
      rw [goesOn_notifyingAll outside mine stepEq]
      exact .done q
  | notifyingOne q gate outside =>
      rw [goesOn_notifyingOne gate outside mine stepEq]
      exact .done q
  | atRgate op status outside closed => exact goesOn_atRgate outside closed mine stepEq
  | atWgate timed status outside noWriter readers =>
      exact goesOn_atWgate outside noWriter readers mine stepEq

theorem rests (midway : Midway h t outcome s) (atRest : (s.pc t).atRest = true) :
    ∃ q, outcome = some q ∧ s = embed x q := by
  cases midway with
  | done q => exact ⟨q, rfl, rfl⟩
  | notifyingAll q _ =>
      rw [goto_pc] at atRest
      cases atRest
  | notifyingOne q gate _ =>
      rw [goto_pc] at atRest
      cases gate <;> cases atRest
  | atRgate op status _ _ =>
      rw [goto_pc] at atRest
      cases atRest
  | atWgate timed status _ _ _ =>
      rw [entered_pc] at atRest
      cases atRest

/-! ### The end of a call -/

/-- `t` goes on in its call. -/
def Continues (t : T) : System T x → Action T → Prop := fun _ a => a.continuedBy = some t

theorem finishes_notifyingAll (outside : q.position t = .outside) :
    (machine T x).LaterUnder (Continues t) ((embed x q).goto t .notifyingRgateAll) (embed x q) := by
  have sends : ∃ s', step ((embed x q).goto t .notifyingRgateAll) (.notifyAll t) = some s' := by
    rw [step, goto_pc, if_pos rfl]
    exact ⟨_, rfl⟩
  obtain ⟨s', stepEq⟩ := sends
  obtain rfl := goesOn_notifyingAll outside rfl stepEq
  exact .head (a := Action.notifyAll t) rfl stepEq (.refl _)

theorem finishes_notifyingOne (gate : Gate) (outside : q.position t = .outside) :
    (machine T x).LaterUnder (Continues t) ((embed x q).goto t gate.notifyingOne) (embed x q) := by
  have sends : ∃ s', step ((embed x q).goto t gate.notifyingOne) (.notifyOne t none) = some s' := by
    have awake : gate.notifyingOne.blockedAt gate = false := by cases gate <;> rfl
    have nobody := blockedAt_goto (x := x) (q := q) (t := t) gate awake
    have sent : notifyOne ((embed x q).goto t gate.notifyingOne) gate none =
        some ((embed x q).goto t gate.notifyingOne) := if_pos nobody
    refine ⟨((embed x q).goto t gate.notifyingOne).goto t .outside, ?_⟩
    cases gate <;> rw [step, goto_pc] <;> exact congrArg (Option.map _) sent
  obtain ⟨s', stepEq⟩ := sends
  obtain rfl := goesOn_notifyingOne gate outside rfl stepEq
  exact .head (a := Action.notifyOne t none) rfl stepEq (.refl _)

theorem finishes_atRgate {status : WaitStatus} (outside : h.position t = .outside)
    (closed : op.passes (embed x h).state = false) (timed : op.timed = true) :
    (machine T x).LaterUnder (Continues t) ((embed x h).goto t (.atRgate op status))
      (embed x h) := by
  have expires : ∀ status, status ≠ .blocked → (machine T x).LaterUnder (Continues t)
      ((embed x h).goto t (.atRgate op status)) (embed x h) := by
    intro status unblocked
    have stepEq : step ((embed x h).goto t (.atRgate op status)) (.resume t true) =
        some (embed x h) := by
      simp only [step, goto_pc]
      rw [if_pos ⟨unblocked, fun _ => timed⟩,
        rgateTest_refused ((embed x h).goto t _) t true closed, if_pos rfl, goto_goto,
        goto_outside outside]
    exact .head (a := Action.resume t true) rfl stepEq (.refl _)
  cases status with
  | blocked =>
      have stepEq : step ((embed x h).goto t (.atRgate op .blocked)) (.unblock t) =
          some ((embed x h).goto t (.atRgate op .awake)) := by
        simp only [step, goto_pc]
        rw [goto_goto]
      exact .head (a := Action.unblock t) rfl stepEq (expires .awake WaitStatus.noConfusion)
  | notified => exact expires .notified WaitStatus.noConfusion
  | awake => exact expires .awake WaitStatus.noConfusion

/-- The failed writer clears its bit and notifies. -/
theorem finishes_atWgate {status : WaitStatus} (outside : h.position t = .outside)
    (noWriter : h.NoWriter) (readers : h.readers ≠ 0) :
    (machine T x).LaterUnder (Continues t) (entered h x t true status) (embed x h) := by
  have expires : ∀ status, status ≠ .blocked → (machine T x).LaterUnder (Continues t)
      (entered h x t true status) (embed x h) := by
    intro status unblocked
    have active : readersActive (entered h x t true status).state = true :=
      readersActive_entered readers
    have cleared : (entered h x t true status).state &&& ~~~(writerEnteredMask x) = h.word x :=
      clear_entered noWriter
    have restored : Function.update (entered h x t true status).pc t .notifyingRgateAll =
        Function.update (embed x h).pc t .notifyingRgateAll := Function.update_idem ..
    have stepEq : step (entered h x t true status) (.resume t true) =
        some ((embed x h).goto t .notifyingRgateAll) := by
      simp only [step, entered_pc]
      rw [if_pos ⟨unblocked, fun _ => trivial⟩, wgateTest, active, Bool.not_true,
        if_neg Bool.false_ne_true, if_pos rfl, cleared, restored]
      rfl
    exact .head (a := Action.resume t true) rfl stepEq (finishes_notifyingAll outside)
  cases status with
  | blocked =>
      have stepEq : step (entered h x t true .blocked) (.unblock t) =
          some (entered h x t true .awake) := by
        simp only [step, entered_pc]
        rw [entered_goto]
      exact .head (a := Action.unblock t) rfl stepEq (expires .awake WaitStatus.noConfusion)
  | notified => exact expires .notified WaitStatus.noConfusion
  | awake => exact expires .awake WaitStatus.noConfusion

theorem finishes (midway : Midway h t (some q) s) :
    (machine T x).LaterUnder (Continues t) s (embed x q) := by
  generalize outcomeEq : some q = outcome at midway
  cases midway with
  | done q' =>
      cases outcomeEq
      exact .refl _
  | notifyingAll q' outside =>
      cases outcomeEq
      exact finishes_notifyingAll outside
  | notifyingOne q' gate outside =>
      cases outcomeEq
      exact finishes_notifyingOne gate outside
  | atRgate op status outside closed =>
      obtain ⟨timed, same⟩ := Option.ite_none_right_eq_some.mp outcomeEq.symm
      cases same
      exact finishes_atRgate outside closed timed
  | atWgate timed status outside noWriter readers =>
      obtain ⟨rfl, same⟩ := Option.ite_none_right_eq_some.mp outcomeEq.symm
      cases same
      exact finishes_atWgate outside noWriter readers

/-- Used by one caller at a time, `SharedTimedMutex` is the abstract lock. -/
theorem implements_lock (T : Type*) [Fintype T] [DecidableEq T] (x : Nat) :
    Implements (interface T x) (machine T x) (sequentialLock T x) (embed x) := by
  refine Implements.of_midway 
    (fun h call q after => step_start call after)
    (fun h call first started => first_midway call started)
    (fun h call outcome s a s' midway mine stepEq => goesOn midway mine stepEq)
    (fun h call outcome s midway returned => rests midway returned)
    (fun h call q s midway => finishes midway)
    (fun h call q after => atRest_embed) (fun call h => ?_)
  change (call.result ((h.position call.caller).pc).holds, h.word x) = _
  rw [Position.holds_pc]
  rfl

end Conc11.SharedMutex
