/-
Module: Conc11.SpinLock.SpinLock
Purpose: `SpinLock` of concurrency/spin_lock.h as a machine over any finite set of threads, one step for each access
  to the flag, with the patience of the spinning threads; its exclusion, its yields and its lack of order.
Trusted boundary: human-reviewed model; accesses to the flag are taken to be sequentially consistent
Main exports: TestAndSet.ThreadPc, TestAndSet.System, TestAndSet.turn, TestAndSet.step, TestAndSet.machine,
  TestAndSet.Excludes, TestAndSet.spinLock, TestAndSet.Spins, TestAndSet.overtaken,
  TestAndSet.excludes_and_yields
-/
import Conc11.Library.Monitor
import Conc11.Library.Threads

namespace Conc11.SpinLock.TestAndSet

open Library

/-- `uint_fast16_t` has at least 16 bits; `x` is the number of further bits. -/
abbrev UintFast16 (x : Nat) := BitVec (16 + x)

/-- `SPIN_CYCLES_BEFORE_YIELD`. -/
def spinCyclesBeforeYield (x : Nat) : UintFast16 x := 100#(16 + x)

/-- Where a thread stands: outside, in the loop of `lock`, or owning the lock.
The turns that found the flag set and the yields are history. -/
inductive ThreadPc (x : Nat) where
  | outside
  | spinning (patience : UintFast16 x) (turns yields : Nat)
  | holding
deriving DecidableEq, Repr

def ThreadPc.isHolding {x : Nat} : ThreadPc x → Bool
  | .holding => true
  | _ => false

/-- The flag and the threads; `entered` are the threads in the order in which
they got the lock. -/
structure System (T : Type*) (x : Nat) where
  flag : Bool
  pc : T → ThreadPc x
  entered : List T

section Steps

variable {T : Type*} [DecidableEq T] {x : Nat} (s : System T x) (t : T)

/-- The first line of `lock`. -/
def lock : System T x :=
  { s with pc := Function.update s.pc t (.spinning (spinCyclesBeforeYield x) 0 0) }

/-- `l.test_and_set()` found the flag clear. -/
def take : System T x :=
  { flag := true, pc := Function.update s.pc t .holding, entered := s.entered ++ [t] }

/-- The body of the loop: `patience--`, and a yield when it is used up. -/
def losePatience (patience : UintFast16 x) (turns yields : Nat) : ThreadPc x :=
  let patience := patience - 1#_
  if patience == 0#_ then .spinning (spinCyclesBeforeYield x) (turns + 1) (yields + 1)
  else .spinning patience (turns + 1) yields

/-- One evaluation of `l.test_and_set()` in `lock`, with the body of the loop. -/
def turn (patience : UintFast16 x) (turns yields : Nat) : System T x :=
  if s.flag then { s with pc := Function.update s.pc t (losePatience patience turns yields) }
  else take s t

/-- `try_lock`. -/
def tryLock : System T x := if s.flag then s else take s t

/-- `unlock`. -/
def unlock : System T x := { s with flag := false, pc := Function.update s.pc t .outside }

end Steps

/-- The labels.  A thread acquires from outside, and only the owner unlocks. -/
inductive Action (T : Type*) where
  | lock (t : T)
  | turn (t : T)
  | tryLock (t : T)
  | unlock (t : T)
deriving DecidableEq, Repr

variable {T : Type*} [DecidableEq T] {x : Nat}

def step (s : System T x) : Action T → Option (System T x)
  | .lock t => if s.pc t = .outside then some (lock s t) else none
  | .turn t =>
      match s.pc t with
      | .spinning patience turns yields => some (turn s t patience turns yields)
      | _ => none
  | .tryLock t => if s.pc t = .outside then some (tryLock s t) else none
  | .unlock t => if s.pc t = .holding then some (unlock s t) else none

def initial (T : Type*) (x : Nat) : System T x :=
  { flag := false, pc := fun _ => .outside, entered := [] }

/-- The lock used by the threads `T`. -/
def machine (T : Type*) [DecidableEq T] (x : Nat) : Machine (System T x) (Action T) :=
  { initial := initial T x, step := step }

/-- The inversion of `step`: a thread starts to spin, loses patience, gets the
lock, fails to get it, or drops it. -/
inductive Transition (s : System T x) : Action T → System T x → Prop where
  | lock (t : T) (outside : s.pc t = .outside) : Transition s (.lock t) (lock s t)
  | spin (t : T) (patience : UintFast16 x) (turns yields : Nat)
      (spinning : s.pc t = .spinning patience turns yields) (set : s.flag = true) :
      Transition s (.turn t)
        { s with pc := Function.update s.pc t (losePatience patience turns yields) }
  | take (a : Action T) (t : T) (label : a = .turn t ∨ a = .tryLock t)
      (waiting : s.pc t ≠ .holding) (clear : s.flag = false) : Transition s a (take s t)
  | refuse (t : T) (outside : s.pc t = .outside) (set : s.flag = true) :
      Transition s (.tryLock t) s
  | unlock (t : T) (holding : s.pc t = .holding) : Transition s (.unlock t) (unlock s t)

theorem transition_of_step {s s' : System T x} {a : Action T} (stepEq : step s a = some s') :
    Transition s a s' := by
  cases a with
  | lock t =>
      obtain ⟨outside, moved⟩ := Option.ite_none_right_eq_some.mp stepEq
      cases moved
      exact .lock t outside
  | turn t =>
      dsimp only [step] at stepEq
      split at stepEq
      next patience turns yields spinning =>
        cases stepEq
        unfold turn
        split
        next set => exact .spin t patience turns yields spinning set
        next clear =>
          exact .take _ t (.inl rfl) (by rw [spinning]; exact nofun) (Bool.not_eq_true _ ▸ clear)
      next => cases stepEq
  | tryLock t =>
      obtain ⟨outside, moved⟩ := Option.ite_none_right_eq_some.mp stepEq
      cases moved
      unfold tryLock
      split
      next set => exact .refuse t outside set
      next clear =>
        exact .take _ t (.inr rfl) (by rw [outside]; exact nofun) (Bool.not_eq_true _ ▸ clear)
  | unlock t =>
      obtain ⟨holding, moved⟩ := Option.ite_none_right_eq_some.mp stepEq
      cases moved
      exact .unlock t holding

/-! ## The invariant -/

/-- A spinning thread has some patience left, and has yielded once in every
hundred turns. -/
def Patient (pc : ThreadPc x) : Prop :=
  ∀ patience turns yields, pc = .spinning patience turns yields →
    0 < patience.toNat ∧ patience.toNat ≤ 100 ∧ turns + patience.toNat = 100 * yields + 100

theorem patient_of_ne {pc : ThreadPc x}
    (elsewhere : ∀ patience turns yields, pc ≠ .spinning patience turns yields) : Patient pc :=
  fun patience turns yields spinning => absurd spinning (elsewhere patience turns yields)

theorem toNat_ofNat {n : Nat} (small : n < 2 ^ 16) : (BitVec.ofNat (16 + x) n).toNat = n := by
  have wider : (2 : Nat) ^ 16 ≤ 2 ^ (16 + x) := Nat.pow_le_pow_right (by omega) (by omega)
  rw [BitVec.toNat_ofNat, Nat.mod_eq_of_lt (by omega)]

theorem patient_start : Patient (.spinning (spinCyclesBeforeYield x) 0 0) := by
  rintro patience turns yields same
  cases same
  rw [spinCyclesBeforeYield, toNat_ofNat (by omega)]
  omega

/-- `patience--` finds at least 1, so it does not wrap. -/
theorem patient_losePatience {patience : UintFast16 x} {turns yields : Nat}
    (patient : Patient (.spinning patience turns yields)) :
    Patient (losePatience patience turns yields) := by
  obtain ⟨positive, small, count⟩ := patient patience turns yields rfl
  have one : (1#(16 + x)).toNat = 1 := toNat_ofNat (by omega)
  have less : (patience - 1#(16 + x)).toNat = patience.toNat - 1 := by
    rw [BitVec.toNat_sub_of_le (BitVec.le_def.mpr (by omega)), one]
  unfold losePatience
  dsimp only
  split
  next usedUp =>
    have zero : (patience - 1#(16 + x)).toNat = 0 := by
      rw [beq_iff_eq.mp usedUp]
      exact toNat_ofNat (by omega)
    rintro patience' turns' yields' same
    cases same
    rw [spinCyclesBeforeYield, toNat_ofNat (by omega)]
    omega
  next remains =>
    have nonzero : (patience - 1#(16 + x)).toNat ≠ 0 := by
      intro zero
      apply remains
      rw [beq_iff_eq]
      exact BitVec.eq_of_toNat_eq (zero.trans (toNat_ofNat (by omega)).symm)
    rintro patience' turns' yields' same
    cases same
    omega

/-- The flag is set by the one owner. -/
structure Excludes (s : System T x) : Prop where
  flag : s.flag = true ↔ ∃ t, s.pc t = .holding
  unique : ∀ t u, s.pc t = .holding → s.pc u = .holding → t = u
  patient : ∀ t, Patient (s.pc t)

namespace Excludes

variable {s s' : System T x} {t : T}

omit [DecidableEq T] in
theorem nobody (excludes : Excludes s) (clear : s.flag = false) (u : T) : s.pc u ≠ .holding := by
  intro holding
  have set := excludes.flag.mpr ⟨u, holding⟩
  rw [clear] at set
  cases set

/-- A thread moves between places without the lock. -/
theorem wait (excludes : Excludes s) {pc : ThreadPc x} (before : s.pc t ≠ .holding)
    (after : pc ≠ .holding) (patient : Patient pc) :
    Excludes { s with pc := Function.update s.pc t pc } := by
  have same : ∀ u, Function.update s.pc t pc u = .holding ↔ s.pc u = .holding := by
    intro u
    by_cases isT : u = t
    · subst isT
      rw [Function.update_self]
      exact iff_of_false after before
    · rw [Function.update_of_ne isT]
  refine ⟨?_, fun u v holdsU holdsV =>
    excludes.unique u v ((same u).mp holdsU) ((same v).mp holdsV), ?_⟩
  · simp only [same]
    exact excludes.flag
  · exact forall_update (fun _ => Patient) excludes.patient patient

theorem take (excludes : Excludes s) (clear : s.flag = false) : Excludes (take s t) := by
  have itself : ∀ u, (TestAndSet.take s t).pc u = .holding → u = t := by
    intro u holding
    by_contra other
    change Function.update s.pc t .holding u = _ at holding
    rw [Function.update_of_ne other] at holding
    exact excludes.nobody clear u holding
  refine ⟨iff_of_true rfl ⟨t, Function.update_self ..⟩, fun u v holdsU holdsV => ?_, ?_⟩
  · rw [itself u holdsU, itself v holdsV]
  · exact forall_update (fun _ => Patient) excludes.patient (patient_of_ne nofun)

theorem unlock (excludes : Excludes s) (holding : s.pc t = .holding) : Excludes (unlock s t) := by
  have nobody : ∀ u, (TestAndSet.unlock s t).pc u ≠ .holding := by
    intro u holdsU
    by_cases isT : u = t
    · subst isT
      change Function.update s.pc u .outside u = _ at holdsU
      rw [Function.update_self] at holdsU
      cases holdsU
    · change Function.update s.pc t .outside u = _ at holdsU
      rw [Function.update_of_ne isT] at holdsU
      exact isT (excludes.unique u t holdsU holding)
  refine ⟨iff_of_false Bool.false_ne_true fun ⟨u, holdsU⟩ => nobody u holdsU,
    fun u _ holdsU => absurd holdsU (nobody u), ?_⟩
  exact forall_update (fun _ => Patient) excludes.patient (patient_of_ne nofun)

theorem losePatience_ne {patience : UintFast16 x} {turns yields : Nat} :
    losePatience patience turns yields ≠ .holding := by
  unfold losePatience
  dsimp only
  split <;> exact nofun

theorem transition {a : Action T} (excludes : Excludes s) (moved : Transition s a s') :
    Excludes s' := by
  cases moved with
  | lock t outside =>
      exact excludes.wait (by rw [outside]; exact nofun) nofun patient_start
  | spin t patience turns yields spinning set =>
      have patient := excludes.patient t
      rw [spinning] at patient
      exact excludes.wait (by rw [spinning]; exact nofun) losePatience_ne
        (patient_losePatience patient)
  | take _ t _ _ clear => exact excludes.take clear
  | refuse t outside set => exact excludes
  | unlock t holding => exact excludes.unlock holding

end Excludes

theorem excludes_of_reachable {ok : System T x → Action T → Prop} {s : System T x}
    (reachable : (machine T x).ReachableUnder ok s) : Excludes s := by
  refine reachable.invariant ?_ fun _ _ _ _ excludes _ stepEq =>
    excludes.transition (transition_of_step stepEq)
  refine ⟨iff_of_false Bool.false_ne_true ?_, nofun, fun _ => patient_of_ne nofun⟩
  rintro ⟨t, holding⟩
  cases holding

/-! ## The lock for its users -/

theorem pc_kept {s s' : System T x} {a : Action T} {t : T} (stepEq : step s a = some s')
    (holding : s.pc t = .holding) (kept : a ≠ .unlock t) : s'.pc t = .holding := by
  have other : ∀ {u : T}, s.pc u ≠ .holding → ∀ pc, Function.update s.pc u pc t = .holding := by
    intro u elsewhere pc
    have ne : t ≠ u := by
      rintro rfl
      exact elsewhere holding
    rw [Function.update_of_ne ne, holding]
  cases transition_of_step stepEq with
  | lock u outside => exact other (by rw [outside]; exact nofun) _
  | spin u patience turns yields spinning _ => exact other (by rw [spinning]; exact nofun) _
  | take _ u _ waiting _ => exact other waiting _
  | refuse u _ _ => exact holding
  | unlock u holdsU =>
      have ne : t ≠ u := by
        rintro rfl
        exact kept rfl
      change Function.update s.pc u .outside t = _
      rw [Function.update_of_ne ne, holding]

/-- `SpinLock`, seen by the threads that lock and unlock it. -/
def spinLock (T : Type*) [DecidableEq T] (x : Nat) : Lock (System T x) (Action T) T :=
  { machine := machine T x
    holds := fun s t => if s.pc t = .holding then some .exclusive else none
    begins := fun
      | .lock t | .tryLock t => some (t, .exclusive)
      | _ => none
    releases := fun
      | .unlock t => some t
      | _ => none
    alone := fun s reachable t u owned beside => by
      obtain ⟨holdsT, _⟩ := Option.ite_none_right_eq_some.mp owned
      have holdsU : s.pc u = .holding := by
        by_contra elsewhere
        exact beside (if_neg elsewhere)
      exact (excludes_of_reachable reachable).unique u t holdsU holdsT
    keeps := fun s a s' _ stepEq t mode owned kept => by
      obtain ⟨holding, isMode⟩ := Option.ite_none_right_eq_some.mp owned
      have still : s'.pc t = .holding := pc_kept stepEq holding (by rintro rfl; exact kept rfl)
      rw [if_pos still, ← isMode]
    drops := fun s a s' t _ stepEq released => by
      cases a with
      | unlock u =>
          cases released
          obtain ⟨_, moved⟩ := Option.ite_none_right_eq_some.mp stepEq
          cases moved
          apply if_neg
          change Function.update s.pc t .outside t ≠ _
          rw [Function.update_self]
          exact nofun
      | _ => cases released }

/-! ## What the lock promises, and what it does not -/

/-- The thread is in the loop of `lock`. -/
def Spins (s : System T x) (t : T) : Prop :=
  ∃ patience turns yields, s.pc t = .spinning patience turns yields

theorem losePatience_turns (patience : UintFast16 x) (turns yields : Nat) :
    ∃ patience' yields', losePatience patience turns yields =
      .spinning patience' (turns + 1) yields' := by
  unfold losePatience
  dsimp only
  split
  next => exact ⟨_, _, rfl⟩
  next => exact ⟨_, _, rfl⟩

/-- `u` takes the lock, `t` tries in vain, and `u` drops the lock. -/
theorem takes_once_more {s : System T x} {t u : T} {patience : UintFast16 x} {turns yields : Nat}
    (other : t ≠ u) (clear : s.flag = false) (spinning : s.pc t = .spinning patience turns yields)
    (outside : s.pc u = .outside) :
    ∃ s', (machine T x).LaterUnder (fun s _ => Spins s t) s s' ∧ s'.flag = false ∧
      (∃ patience' yields', s'.pc t = .spinning patience' (turns + 1) yields') ∧
      s'.pc u = .outside ∧ s'.entered = s.entered ++ [u] := by
  have taken : (machine T x).step s (.tryLock u) = some (take s u) := by
    change (if s.pc u = .outside then some (tryLock s u) else none) = _
    rw [if_pos outside, tryLock, clear, if_neg Bool.false_ne_true]
  have still : (take s u).pc t = .spinning patience turns yields := by
    change Function.update s.pc u .holding t = _
    rw [Function.update_of_ne other, spinning]
  have tried : (machine T x).step (take s u) (.turn t) =
      some (turn (take s u) t patience turns yields) := by
    change step (take s u) (.turn t) = _
    rw [step, still]
  have missed : turn (take s u) t patience turns yields =
      { take s u with
        pc := Function.update (take s u).pc t (losePatience patience turns yields) } := rfl
  rw [missed] at tried
  obtain ⟨patience', yields', lost⟩ := losePatience_turns patience turns yields
  rw [lost] at tried
  set next : System T x :=
    { take s u with
      pc := Function.update (take s u).pc t (.spinning patience' (turns + 1) yields') }
  have spinsOn : next.pc t = .spinning patience' (turns + 1) yields' := Function.update_self ..
  have owns : next.pc u = .holding :=
    (Function.update_of_ne other.symm _ _).trans (Function.update_self ..)
  have dropped : (machine T x).step next (.unlock u) = some (unlock next u) := if_pos owns
  have run : (machine T x).LaterUnder (fun s _ => Spins s t) s (unlock next u) :=
    .head ⟨_, _, _, spinning⟩ taken <| .head ⟨_, _, _, still⟩ tried <|
      .head ⟨_, _, _, spinsOn⟩ dropped <| .refl _
  refine ⟨unlock next u, run, rfl, ⟨patience', yields', ?_⟩, Function.update_self .., rfl⟩
  exact (Function.update_of_ne other _ _).trans spinsOn

theorem overtaken {s : System T x} {t u : T} {patience : UintFast16 x} {turns yields : Nat}
    (other : t ≠ u) (clear : s.flag = false) (spinning : s.pc t = .spinning patience turns yields)
    (outside : s.pc u = .outside) (n : Nat) :
    ∃ s', (machine T x).LaterUnder (fun s _ => Spins s t) s s' ∧ s'.flag = false ∧
      (∃ patience' yields', s'.pc t = .spinning patience' (turns + n) yields') ∧
      s'.pc u = .outside ∧ s'.entered = s.entered ++ List.replicate n u := by
  induction n with
  | zero =>
      exact ⟨s, .refl s, clear, ⟨patience, yields, spinning⟩, outside, (List.append_nil _).symm⟩
  | succ n ih =>
      obtain ⟨s', later, clear', ⟨patience', yields', spinning'⟩, outside', entered'⟩ := ih
      obtain ⟨s'', more, clear'', spinning'', outside'', entered''⟩ :=
        takes_once_more other clear' spinning' outside'
      refine ⟨s'', later.trans more, clear'', spinning'', outside'', ?_⟩
      rw [entered'', entered', List.replicate_succ', List.append_assoc]

/-- A thread has begun to spin, and nobody has had the lock yet. -/
theorem started (t : T) : (machine T x).Reachable (lock (initial T x) t) := by
  have begun : (machine T x).step (machine T x).initial (.lock t) =
      some (lock (initial T x) t) := by
    change (if (initial T x).pc t = .outside then some (lock (initial T x) t) else none) = _
    exact if_pos rfl
  exact Machine.ReachableUnder.initial.step trivial begun

/-- `SpinLock` excludes: the flag is set exactly while somebody owns the lock, and
only one thread does.  A turn of the loop of `lock` and a `try_lock` get the lock
exactly if nobody owns it.  A spinning thread yields once in every hundred turns
and `patience` never wraps.  But the lock keeps no order: for each `n` there is a
run in which a thread spins all the while and tries `n` times, and another one
gets the lock `n` times. -/
theorem excludes_and_yields :
    (∀ s : System T x, (machine T x).Reachable s →
      (s.flag = true ↔ ∃! t, s.pc t = .holding) ∧
      (∀ a t s', a = .turn t ∨ a = .tryLock t → step s a = some s' →
        (s'.pc t = .holding ↔ ∀ u, s.pc u ≠ .holding)) ∧
      ∀ t patience turns yields, s.pc t = .spinning patience turns yields →
        0 < patience.toNat ∧ yields = turns / 100) ∧
    ∀ t u : T, t ≠ u → ∀ n, ∃ s s', (machine T x).Reachable s ∧
      (∃ patience yields, s.pc t = .spinning patience 0 yields) ∧ s.entered = [] ∧
      (machine T x).LaterUnder (fun s _ => Spins s t) s s' ∧
      (∃ patience yields, s'.pc t = .spinning patience n yields) ∧
      s'.entered = List.replicate n u := by
  refine ⟨fun s reachable => ?_, fun t u other n => ?_⟩
  · have excludes := excludes_of_reachable reachable
    refine ⟨⟨fun set => ?_, fun ⟨t, holding, _⟩ => excludes.flag.mpr ⟨t, holding⟩⟩,
      fun a t s' label stepEq => ?_, fun t patience turns yields spinning => ?_⟩
    · obtain ⟨t, holding⟩ := excludes.flag.mp set
      exact ⟨t, holding, fun u holdsU => excludes.unique u t holdsU holding⟩
    · have owned : s.flag = true ↔ ¬ ∀ u, s.pc u ≠ .holding := by
        rw [excludes.flag, not_forall]
        exact exists_congr fun u => not_not.symm
      cases transition_of_step stepEq with
      | lock _ _ => rcases label with isTurn | isTry <;> contradiction
      | spin v patience turns yields spinning set =>
          obtain rfl : v = t := by simpa using label
          refine iff_of_false ?_ (owned.mp set)
          change Function.update s.pc v (losePatience patience turns yields) v ≠ .holding
          rw [Function.update_self]
          exact Excludes.losePatience_ne
      | take _ v isLabel _ clear =>
          obtain rfl : v = t := by
            rcases isLabel with rfl | rfl <;> simpa using label
          exact iff_of_true (Function.update_self ..) (excludes.nobody clear)
      | refuse v outside set =>
          obtain rfl : v = t := by simpa using label
          exact iff_of_false (by rw [outside]; exact nofun) (owned.mp set)
      | unlock _ _ => rcases label with isTurn | isTry <;> contradiction
    · obtain ⟨positive, _, count⟩ := excludes.patient t patience turns yields spinning
      exact ⟨positive, by omega⟩
  · have spinning : (lock (initial T x) t).pc t = .spinning (spinCyclesBeforeYield x) 0 0 :=
      Function.update_self ..
    obtain ⟨s', later, _, still, _, entered⟩ :=
      overtaken other rfl spinning (Function.update_of_ne other.symm _ _) n
    rw [Nat.zero_add] at still
    exact ⟨_, s', started t, ⟨_, _, spinning⟩, rfl, later, still, entered⟩

/-- The first thread owns the lock, the second has tried 150 times. -/
theorem excludes_and_yields_waiting :
    ∃ s : System (Fin 2) 48, (machine (Fin 2) 48).Reachable s ∧
      s.pc 1 = .spinning 50#64 150 1 ∧ (∃! t, s.pc t = .holding) ∧ 1 = 150 / 100 := by
  obtain ⟨s, run, set, spinning⟩ : ∃ s : System (Fin 2) 48,
      (machine (Fin 2) 48).exec (initial (Fin 2) 48)
        ([.lock 0, .turn 0, .lock 1] ++ List.replicate 150 (.turn 1)) = some s ∧
      s.flag = true ∧ s.pc 1 = .spinning 50#64 150 1 :=
    ⟨_, rfl, by decide, by decide⟩
  have reached := Machine.reachable_of_exec run
  obtain ⟨flag, _, yields⟩ := excludes_and_yields.1 s reached
  exact ⟨s, reached, spinning, flag.mp set, (yields 1 _ _ _ spinning).2⟩

end Conc11.SpinLock.TestAndSet
