/-
Module: Conc11.ReaderPreferring.Sequential
Purpose: `ReaderPreferringSharedTimedMutex` used by one caller at a time is the abstract readers-writer lock, so
  on sequential histories it cannot be told from `SharedTimedMutex`.
Trusted boundary: `interface` says what a complete call is.
Main exports: interface, embed, Midway, implements_lock, AgreeOn, sequential_agreement
-/
import Conc11.ReaderPreferring.Ownership
import Conc11.SharedMutex.Sequential

namespace Conc11.ReaderPreferring

open Library Library.FlagCounter
open SharedMutex (UintFast32 GateOp Call Position Holders sequentialLock)

variable {T : Type*} {x : Nat}

/-! ## Complete calls -/

/-- The first label of a call.  Nobody else uses `mtx`, so `std::try_to_lock` gets it. -/
def start : Call T → Action T
  | .lock t => .lock t
  | .tryLock t => .tryLock t true
  | .tryLockUntil t => .tryLockUntil t
  | .unlock t => .unlock t
  | .lockShared t => .lockShared t
  | .tryLockShared t => .tryLockShared t true
  | .tryLockSharedUntil t => .tryLockSharedUntil t
  | .unlockShared t => .unlockShared t

/-- The thread that goes on in a call with this label. -/
def Action.continuedBy : Action T → Option T
  | .unblock t | .resume t _ | .notifyAll t => some t
  | _ => none

/-- Neither waiting nor about to notify. -/
def ThreadPc.atRest : ThreadPc → Bool
  | .outside | .holdsExclusive | .holdsShared => true
  | _ => false

def ThreadPc.holds : ThreadPc → Bool
  | .holdsExclusive | .holdsShared => true
  | _ => false

/-- Calls by one caller at a time.  What is seen of a call is what it returns
and `state`. -/
def interface (T : Type*) (x : Nat) :
    Interface (System T x) (Action T) (Call T) (Option Bool × UintFast32 x) :=
  { start := start
    continues := fun call a => a.continuedBy = some call.caller
    returned := fun call s => (s.pc call.caller).atRest = true
    observe := fun call s => (call.result (s.pc call.caller).holds, s.state) }

/-! ## Between calls -/

/-- The position of an owner between two calls. -/
def restPc : Position → ThreadPc
  | .outside => .outside
  | .exclusive => .holdsExclusive
  | .shared => .holdsShared

theorem holds_restPc (position : Position) : (restPc position).holds = position.holds := by
  cases position <;> rfl

variable [Fintype T]

/-- The mutex between two calls. -/
def embed (x : Nat) (h : Holders T) : System T x :=
  { state := h.word x, pc := fun t => restPc (h.position t) }

variable {h q : Holders T} {t : T} {op : GateOp} {s s' : System T x} {outcome : Option (Holders T)}

theorem pc_eq_outside : (embed x h).pc t = .outside ↔ h.position t = .outside := by
  change restPc (h.position t) = .outside ↔ _
  cases h.position t <;> simp [restPc]

theorem pc_eq_exclusive : (embed x h).pc t = .holdsExclusive ↔ h.position t = .exclusive := by
  change restPc (h.position t) = .holdsExclusive ↔ _
  cases h.position t <;> simp [restPc]

theorem pc_eq_shared : (embed x h).pc t = .holdsShared ↔ h.position t = .shared := by
  change restPc (h.position t) = .holdsShared ↔ _
  cases h.position t <;> simp [restPc]

theorem atRest_embed : ((embed x h).pc t).atRest = true := by
  change (restPc (h.position t)).atRest = true
  cases h.position t <;> rfl

/-- Nobody is blocked between two calls. -/
theorem notified_embed (u : T) : ((embed x h).pc u).notified = (embed x h).pc u := by
  change (restPc (h.position u)).notified = restPc (h.position u)
  cases h.position u <;> rfl

/-- A call has changed the position of its owner and the word accordingly. -/
theorem embed_eq [DecidableEq T] {position : Position} {state : UintFast32 x}
    (moved : q.position = Function.update h.position t position) (word : state = q.word x) :
    ({ state := state, pc := Function.update (embed x h).pc t (restPc position) } : System T x) =
      embed x q := by
  have pcs : Function.update (embed x h).pc t (restPc position) = (embed x q).pc := by
    funext u
    change _ = restPc (q.position u)
    rw [moved]
    by_cases same : u = t
    · rw [same, Function.update_self, Function.update_self]
    · rw [Function.update_of_ne same, Function.update_of_ne same]
      rfl
  rw [pcs, word]
  rfl

theorem mayAcquire_exclusive (exclusive : op.exclusive = true) :
    mayAcquire op (embed x h).state = decide h.Free := by
  rw [mayAcquire, if_pos exclusive, Bool.eq_iff_iff, decide_eq_true_iff, beq_iff_eq]
  exact Holders.word_eq_zero

theorem mayAcquire_shared (shared : op.exclusive = false) :
    mayAcquire op (embed x h).state = decide h.MayShare := by
  rw [mayAcquire, shared, if_neg Bool.false_ne_true]
  exact SharedMutex.readerMayEnter_embed

/-! ## Within a call -/

variable [DecidableEq T]

/-- A state of a call that `t` makes in `h` and that can only come to `outcome`. -/
inductive Midway (h : Holders T) (t : T) : Option (Holders T) → System T x → Prop
  | done (q : Holders T) : Midway h t (some q) (embed x q)
  | notifying (q : Holders T) (outside : q.position t = .outside) :
      Midway h t (some q) ((embed x q).goto t .notifying)
  | waiting (op : GateOp) (status : WaitStatus) (outside : h.position t = .outside)
      (closed : mayAcquire op (embed x h).state = false) :
      Midway h t (if op.timed then some h else none) ((embed x h).goto t (.waiting op status))

omit [Fintype T] in
theorem goto_goto (s : System T x) (t : T) (pc pc' : ThreadPc) :
    (s.goto t pc).goto t pc' = s.goto t pc' :=
  congrArg (System.mk _) (Function.update_idem ..)

/-- A caller that leaves without ownership is where it was. -/
theorem goto_outside (outside : h.position t = .outside) :
    (embed x h).goto t .outside = embed x h := by
  have same : (embed x h).pc t = .outside := pc_eq_outside.mpr outside
  rw [System.goto, ← same, Function.update_eq_self]

/-! ### The first section of a call -/

theorem takeExclusive_embed (free : h.Free) :
    (embed x h).takeExclusive t = embed x (h.takeExclusive t free) := by
  have word : writerActiveMask x = (h.takeExclusive t free).word x := by
    rw [Holders.word_takeExclusive, writerActiveMask_eq_pack]
  exact embed_eq (Holders.takeExclusive_position free) word

theorem takeShared_embed (may : h.MayShare) (outside : h.position t = .outside) :
    (embed x h).takeShared t = embed x (h.takeShared t may) :=
  embed_eq (Holders.takeShared_position may) (Holders.word_takeShared may outside).symm

/-- Ownership that is to be had at once is taken. -/
theorem request_acquired (outside : h.position t = .outside)
    (acquired : h.acquire t op.exclusive = some q) :
    stateTest (embed x h) t op false = embed x q := by
  unfold Holders.acquire at acquired
  unfold stateTest
  cases exclusive : op.exclusive with
  | true =>
      rw [exclusive, if_pos rfl] at acquired
      by_cases free : h.Free
      · rw [dif_pos free] at acquired
        cases acquired
        rw [mayAcquire_exclusive exclusive, decide_eq_true free, if_pos rfl, if_pos rfl,
          takeExclusive_embed free]
      · rw [dif_neg free] at acquired
        cases acquired
  | false =>
      rw [exclusive, if_neg Bool.false_ne_true] at acquired
      by_cases may : h.MayShare
      · rw [dif_pos may] at acquired
        cases acquired
        rw [mayAcquire_shared exclusive, decide_eq_true may, if_pos rfl,
          if_neg Bool.false_ne_true, takeShared_embed may outside]
      · rw [dif_neg may] at acquired
        cases acquired

theorem closed_of_refused (refused : h.acquire t op.exclusive = none) :
    mayAcquire op (embed x h).state = false := by
  cases exclusive : op.exclusive with
  | true =>
      rw [mayAcquire_exclusive exclusive]
      refine decide_eq_false fun free => ?_
      rw [exclusive, Holders.acquire_exclusive free] at refused
      cases refused
  | false =>
      rw [mayAcquire_shared exclusive]
      refine decide_eq_false fun may => ?_
      rw [exclusive, Holders.acquire_shared may] at refused
      cases refused

/-- A request either gets what is to be had at once or waits. -/
theorem request_midway (outside : h.position t = .outside) (op : GateOp) :
    Midway h t (h.attempt t op) (stateTest (embed x h) t op false) := by
  cases acquired : h.acquire t op.exclusive with
  | some q =>
      rw [Holders.attempt_of_some acquired, request_acquired outside acquired]
      exact .done q
  | none =>
      have closed := closed_of_refused (x := x) acquired
      rw [Holders.attempt_of_none acquired, stateTest, closed, if_neg Bool.false_ne_true,
        if_neg Bool.false_ne_true]
      exact .waiting op .blocked outside closed

theorem tryLock_midway :
    Midway h t (some ((h.acquire t true).getD h)) (tryLock (embed x h) t true) := by
  have tests : ((embed x h).state == 0#_) = decide h.Free :=
    mayAcquire_exclusive (show GateOp.lock.exclusive = true from rfl)
  rw [tryLock, tests, Bool.true_and]
  by_cases free : h.Free
  · rw [decide_eq_true free, if_pos rfl, Holders.acquire_exclusive free, Option.getD_some,
      takeExclusive_embed free]
    exact .done _
  · rw [decide_eq_false free, if_neg Bool.false_ne_true, Holders.acquire_exclusive_none free,
      Option.getD_none]
    exact .done h

theorem tryLockShared_midway (outside : h.position t = .outside) :
    Midway h t (some ((h.acquire t false).getD h)) (tryLockShared (embed x h) t true) := by
  have tests : readerMayEnter (embed x h).state = decide h.MayShare :=
    mayAcquire_shared (show GateOp.lockShared.exclusive = false from rfl)
  rw [tryLockShared, tests, Bool.true_and]
  by_cases may : h.MayShare
  · rw [decide_eq_true may, if_pos rfl, Holders.acquire_shared may, Option.getD_some,
      takeShared_embed may outside]
    exact .done _
  · rw [decide_eq_false may, if_neg Bool.false_ne_true, Holders.acquire_shared_none may,
      Option.getD_none]
    exact .done h

/-- A released owner, in front of the end of its call. -/
theorem embed_release {pc : ThreadPc} {state : UintFast32 x} (word : state = (h.release t).word x) :
    ({ state := state, pc := Function.update (embed x h).pc t pc } : System T x) =
      (embed x (h.release t)).goto t pc := by
  rw [← embed_eq (x := x) (Holders.release_position (h := h) (t := t)) word, System.goto,
    Function.update_idem]

/-- The exclusive owner's word is only its bit, so overwriting it clears nothing else. -/
theorem unlock_midway (held : h.position t = .exclusive) :
    Midway h t (some (h.release t)) (unlock (embed x h) t) := by
  have word : 0#(32 + x) = (h.release t).word x := (Holders.word_release_exclusive held).symm
  rw [unlock, embed_release word]
  exact .notifying _ (Function.update_self ..)

theorem unlockShared_midway (held : h.position t = .shared) :
    Midway h t (some (h.release t)) (unlockShared (embed x h) t) := by
  have word : (embed x h).state - 1#_ = (h.release t).word x := (Holders.word_release_shared held).symm
  have released : (h.release t).position t = .outside := Function.update_self ..
  unfold unlockShared
  dsimp only
  rw [embed_release word, word]
  by_cases last : ((h.release t).word x == 0#_) = true
  · rw [if_pos last]
    exact .notifying _ released
  · rw [if_neg last, goto_outside released]
    exact .done _

/-- The first section of a call leads to a state of this call. -/
theorem first_midway (call : Call T) {first : System T x}
    (started : step (embed x h) (start call) = some first) :
    Midway h call.caller (h.after call) first := by
  cases call
  all_goals
    obtain ⟨position, rest⟩ := Option.ite_none_right_eq_some.mp started
    cases rest
  case unlock t =>
    have held := pc_eq_exclusive.mp position
    rw [Holders.after, if_pos held]
    exact unlock_midway held
  case unlockShared t =>
    have held := pc_eq_shared.mp position
    rw [Holders.after, if_pos held]
    exact unlockShared_midway held
  all_goals
    have outside := pc_eq_outside.mp position
    rw [Holders.after, if_pos outside]
  case lock t => exact request_midway outside .lock
  case tryLock t => exact tryLock_midway
  case tryLockUntil t => exact request_midway outside .tryLockUntil
  case lockShared t => exact request_midway outside .lockShared
  case tryLockShared t => exact tryLockShared_midway outside
  case tryLockSharedUntil t => exact request_midway outside .tryLockSharedUntil

/-- A call that the abstract lock completes can be started. -/
theorem step_start (call : Call T) (after : h.after call = some q) :
    ∃ first, step (embed x h) (start call) = some first := by
  cases call
  all_goals
    obtain ⟨position, rest⟩ := Option.ite_none_right_eq_some.mp after
  case unlock t => exact ⟨_, if_pos (pc_eq_exclusive.mpr position)⟩
  case unlockShared t => exact ⟨_, if_pos (pc_eq_shared.mpr position)⟩
  all_goals exact ⟨_, if_pos (pc_eq_outside.mpr position)⟩

/-! ### The rest of a call -/

omit [Fintype T] in
/-- A caller that has returned takes no further step in its call. -/
theorem step_of_atRest {a : Action T} (rests : (s.pc t).atRest = true)
    (mine : a.continuedBy = some t) : step s a = none := by
  cases a <;> cases mine <;> cases position : s.pc t <;>
    simp_all [step, ThreadPc.atRest]

theorem notifyAll_goto (outside : q.position t = .outside) :
    notifyAll ((embed x q).goto t .notifying) t = embed x q := by
  have others : (fun u => (((embed x q).goto t .notifying).pc u).notified) =
      ((embed x q).goto t .notifying).pc := by
    funext u
    exact forall_update (fun _ (pc : ThreadPc) => pc.notified = pc) notified_embed rfl u
  rw [notifyAll, others]
  exact (goto_goto (embed x q) t .notifying .outside).trans (goto_outside outside)

theorem goesOn_notifying {a : Action T} (outside : q.position t = .outside)
    (mine : a.continuedBy = some t)
    (stepEq : step ((embed x q).goto t .notifying) a = some s') : s' = embed x q := by
  cases a
  case notifyAll u =>
    obtain rfl : u = t := Option.some.inj mine
    rw [step, goto_pc, if_pos rfl, notifyAll_goto outside] at stepEq
    exact (Option.some.inj stepEq).symm
  all_goals cases mine <;> simp [step, goto_pc] at stepEq

theorem resume_closed (expired : Bool) (outside : h.position t = .outside)
    (closed : mayAcquire op (embed x h).state = false) (pc : ThreadPc) :
    stateTest ((embed x h).goto t pc) t op expired =
      if expired then embed x h else (embed x h).goto t (.waiting op .blocked) := by
  have stillClosed : mayAcquire op ((embed x h).goto t pc).state = false := closed
  rw [stateTest, stillClosed, if_neg Bool.false_ne_true, goto_goto, goto_goto,
    goto_outside outside]

theorem goesOn_waiting {a : Action T} {status : WaitStatus} (outside : h.position t = .outside)
    (closed : mayAcquire op (embed x h).state = false) (mine : a.continuedBy = some t)
    (stepEq : step ((embed x h).goto t (.waiting op status)) a = some s') :
    Midway h t (if op.timed then some h else none) s' := by
  cases a
  case unblock u =>
    obtain rfl : u = t := Option.some.inj mine
    cases status <;> simp only [step, goto_pc, reduceCtorEq] at stepEq
    rw [goto_goto] at stepEq
    cases stepEq
    exact .waiting op .awake outside closed
  case resume u expired =>
    obtain rfl : u = t := Option.some.inj mine
    simp only [step, goto_pc] at stepEq
    obtain ⟨⟨_, deadline⟩, rest⟩ := Option.ite_none_right_eq_some.mp stepEq
    rw [resume_closed expired outside closed] at rest
    cases rest
    cases expired with
    | false => exact .waiting op .blocked outside closed
    | true =>
        rw [if_pos rfl, if_pos (deadline rfl)]
        exact .done h
  all_goals cases mine <;> simp [step, goto_pc] at stepEq

theorem goesOn {a : Action T} (midway : Midway h t outcome s) (mine : a.continuedBy = some t)
    (stepEq : step s a = some s') : Midway h t outcome s' := by
  cases midway with
  | done q =>
      rw [step_of_atRest atRest_embed mine] at stepEq
      cases stepEq
  | notifying q outside =>
      rw [goesOn_notifying outside mine stepEq]
      exact .done q
  | waiting op status outside closed => exact goesOn_waiting outside closed mine stepEq

theorem rests (midway : Midway h t outcome s) (atRest : (s.pc t).atRest = true) :
    ∃ q, outcome = some q ∧ s = embed x q := by
  cases midway with
  | done q => exact ⟨q, rfl, rfl⟩
  | notifying q _ =>
      rw [goto_pc] at atRest
      cases atRest
  | waiting op status _ _ =>
      rw [goto_pc] at atRest
      cases atRest

/-! ### The end of a call -/

/-- `t` goes on in its call. -/
def Continues (t : T) : System T x → Action T → Prop := fun _ a => a.continuedBy = some t

theorem finishes_waiting {status : WaitStatus} (outside : h.position t = .outside)
    (closed : mayAcquire op (embed x h).state = false) (timed : op.timed = true) :
    (machine T x).LaterUnder (Continues t) ((embed x h).goto t (.waiting op status))
      (embed x h) := by
  have expires : ∀ status, status ≠ .blocked → (machine T x).LaterUnder (Continues t)
      ((embed x h).goto t (.waiting op status)) (embed x h) := by
    intro status unblocked
    have stepEq : step ((embed x h).goto t (.waiting op status)) (.resume t true) =
        some (embed x h) := by
      simp only [step, goto_pc]
      rw [if_pos ⟨unblocked, fun _ => timed⟩, resume_closed true outside closed, if_pos rfl]
    exact .head (a := Action.resume t true) rfl stepEq (.refl _)
  cases status with
  | blocked =>
      have stepEq : step ((embed x h).goto t (.waiting op .blocked)) (.unblock t) =
          some ((embed x h).goto t (.waiting op .awake)) := by
        simp only [step, goto_pc]
        rw [goto_goto]
      exact .head (a := Action.unblock t) rfl stepEq (expires .awake WaitStatus.noConfusion)
  | notified => exact expires .notified WaitStatus.noConfusion
  | awake => exact expires .awake WaitStatus.noConfusion

theorem finishes (midway : Midway h t (some q) s) :
    (machine T x).LaterUnder (Continues t) s (embed x q) := by
  generalize outcomeEq : some q = outcome at midway
  cases midway with
  | done q' =>
      cases outcomeEq
      exact .refl _
  | notifying q' outside =>
      cases outcomeEq
      have stepEq : step ((embed x q).goto t .notifying) (.notifyAll t) = some (embed x q) := by
        rw [step, goto_pc, if_pos rfl, notifyAll_goto outside]
      exact .head (a := Action.notifyAll t) rfl stepEq (.refl _)
  | waiting op status outside closed =>
      obtain ⟨timed, same⟩ := Option.ite_none_right_eq_some.mp outcomeEq.symm
      cases same
      exact finishes_waiting outside closed timed

/-- Used by one caller at a time, `ReaderPreferringSharedTimedMutex` is the
abstract lock. -/
theorem implements_lock (T : Type*) [Fintype T] [DecidableEq T] (x : Nat) :
    Implements (interface T x) (machine T x) (sequentialLock T x) (embed x) := by
  refine Implements.of_midway
    (fun h call q after => step_start call after)
    (fun h call first started => first_midway call started)
    (fun h call outcome s a s' midway mine stepEq => goesOn midway mine stepEq)
    (fun h call outcome s midway returned => rests midway returned)
    (fun h call q s midway => finishes midway)
    (fun h call q after => atRest_embed) (fun call h => ?_)
  change (call.result (restPc (h.position call.caller)).holds, h.word x) = _
  rw [holds_restPc]
  rfl

/-! ## The two classes -/

omit [DecidableEq T] in
theorem initial_eq_embed : initial T x = embed x (Holders.unlocked T) := by
  have word : (Holders.unlocked T).word x = 0#_ := Holders.word_eq_zero.mpr fun _ => rfl
  rw [embed, word]
  rfl

omit [DecidableEq T] in
theorem shared_initial_eq_embed :
    SharedMutex.initial T x = SharedMutex.embed x (Holders.unlocked T) := by
  have word : (Holders.unlocked T).word x = 0#_ := Holders.word_eq_zero.mpr fun _ => rfl
  rw [SharedMutex.embed, word]
  rfl

/-- A timed exclusive attempt without success leaves the abstract lock alone. -/
theorem after_tryLockUntil (after : h.after (.tryLockUntil t) = some q)
    (failed : (q.position t).holds = false) : q = h := by
  obtain ⟨_, attempted⟩ := Option.ite_none_right_eq_some.mp after
  by_cases free : h.Free
  · rw [Holders.acquire_exclusive free, Option.getD_some] at attempted
    cases attempted
    rw [Holders.takeExclusive_position, Function.update_self] at failed
    cases failed
  · rw [Holders.acquire_exclusive_none free, Option.getD_none] at attempted
    exact (Option.some.inj attempted).symm

/-- What the two classes have in common on a sequence of complete calls: both
allow it or neither does, what is seen after each call is the same, and a
failed `try_lock_until` after it leaves no trace. -/
structure AgreeOn (T : Type*) [Fintype T] [DecidableEq T] (x : Nat) (calls : List (Call T)) :
    Prop where
  allowed : (∃ seen s, (SharedMutex.interface T x).History (SharedMutex.machine T x)
      (SharedMutex.initial T x) calls seen s) ↔
    ∃ seen s, (interface T x).History (machine T x) (initial T x) calls seen s
  same : ∀ seen s seen' s', (SharedMutex.interface T x).History (SharedMutex.machine T x)
      (SharedMutex.initial T x) calls seen s →
    (interface T x).History (machine T x) (initial T x) calls seen' s' → seen = seen'
  noTrace_shared : ∀ seen s t s', (SharedMutex.interface T x).History (SharedMutex.machine T x)
      (SharedMutex.initial T x) calls seen s →
    (SharedMutex.interface T x).Completes (SharedMutex.machine T x) s (.tryLockUntil t) s' →
    (s'.pc t).holds = false → s' = s
  noTrace_readerPreferring : ∀ seen s t s',
    (interface T x).History (machine T x) (initial T x) calls seen s →
    (interface T x).Completes (machine T x) s (.tryLockUntil t) s' →
    (s'.pc t).holds = false → s' = s

/-- On every sequence of complete calls `SharedTimedMutex` and
`ReaderPreferringSharedTimedMutex` agree. -/
theorem sequential_agreement (T : Type*) [Fintype T] [DecidableEq T] (x : Nat)
    (calls : List (Call T)) : AgreeOn T x calls := by
  have shared := SharedMutex.implements_lock T x
  have readerPreferring := implements_lock T x
  have initialShared : SharedMutex.initial T x = SharedMutex.embed x (Holders.unlocked T) :=
    shared_initial_eq_embed
  have initialReader : initial T x = embed x (Holders.unlocked T) := initial_eq_embed
  constructor
  · rw [initialShared, initialReader]
    constructor
    · rintro ⟨seen, s, history⟩
      obtain ⟨q, ran, _⟩ := shared.run_eq history
      exact ⟨seen, embed x q, readerPreferring.history_of_run ran⟩
    · rintro ⟨seen, s, history⟩
      obtain ⟨q, ran, _⟩ := readerPreferring.run_eq history
      exact ⟨seen, SharedMutex.embed x q, shared.history_of_run ran⟩
  · rw [initialShared, initialReader]
    intro seen s seen' s' history history'
    obtain ⟨q, ran, _⟩ := shared.run_eq history
    obtain ⟨q', ran', _⟩ := readerPreferring.run_eq history'
    rw [ran] at ran'
    exact (Prod.mk.inj (Option.some.inj ran')).2
  · rw [initialShared]
    intro seen s t s' history completes failed
    obtain ⟨h, _, rfl⟩ := shared.run_eq history
    obtain ⟨q, after, rfl⟩ := shared.sound h _ s' completes
    rw [after_tryLockUntil after ((SharedMutex.Position.holds_pc _).symm.trans failed)]
  · rw [initialReader]
    intro seen s t s' history completes failed
    obtain ⟨h, _, rfl⟩ := readerPreferring.run_eq history
    obtain ⟨q, after, rfl⟩ := readerPreferring.sound h _ s' completes
    rw [after_tryLockUntil after ((holds_restPc _).symm.trans failed)]

/-- A timed writer fails against a reader, with the word as before. -/
example : ((sequentialLock (Fin 2) 0).run (Holders.unlocked (Fin 2))
    [.lockShared 0, .tryLockUntil 1, .unlockShared 0, .tryLock 1]).map Prod.snd =
      some [(none, 1#32), (some false, 1#32), (none, 0#32), (some true, 2147483648#32)] := by
  decide

end Conc11.ReaderPreferring
