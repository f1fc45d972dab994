/-
Module: Conc11.SharedMutex.Holders
Purpose: The readers-writer lock that both shared mutexes are for one caller at a time: who holds it, what each
  complete call makes of that, and the word that stands for it.
Trusted boundary: human-reviewed specification
Main exports: Call, Position, Holders, Holders.acquire, Holders.after, Holders.word, sequentialLock
-/
import Conc11.Library.Sequential
import Conc11.SharedMutex.Ownership

namespace Conc11.SharedMutex

open Library Library.FlagCounter

/-- The calls of a shared mutex on behalf of an owner `t`. -/
inductive Call (T : Type*) where
  | lock (t : T)
  | tryLock (t : T)
  | tryLockUntil (t : T)
  | unlock (t : T)
  | lockShared (t : T)
  | tryLockShared (t : T)
  | tryLockSharedUntil (t : T)
  | unlockShared (t : T)
deriving DecidableEq, Repr

namespace Call

variable {T : Type*}

def caller : Call T → T
  | .lock t | .tryLock t | .tryLockUntil t | .unlock t | .lockShared t | .tryLockShared t
  | .tryLockSharedUntil t | .unlockShared t => t

/-- What a call returns when its owner holds the lock afterwards, or does not. -/
def result : Call T → Bool → Option Bool
  | .tryLock _, holds | .tryLockUntil _, holds | .tryLockShared _, holds
  | .tryLockSharedUntil _, holds => some holds
  | .lock _, _ | .unlock _, _ | .lockShared _, _ | .unlockShared _, _ => none

end Call

/-- What an owner has. -/
inductive Position where
  | outside
  | exclusive
  | shared
deriving DecidableEq, Repr

namespace Position

def isShared : Position → Bool
  | .shared => true
  | _ => false

def isExclusive : Position → Bool
  | .exclusive => true
  | _ => false

def holds : Position → Bool
  | .outside => false
  | _ => true

end Position

variable {T : Type*} [Fintype T]

/-- Who holds the lock: one owner alone, or fewer than 2^31 together. -/
structure Holders (T : Type*) [Fintype T] where
  position : T → Position
  apart : ∀ t u, position t = .exclusive → u ≠ t → position u = .outside
  fits : population Position.isShared position < 2 ^ 31

namespace Holders

variable {h : Holders T} {t : T}

/-- The number of owners that share the lock. -/
def readers (h : Holders T) : Nat := population Position.isShared h.position

/-- Nobody holds the lock exclusively. -/
def NoWriter (h : Holders T) : Prop := ∀ t, h.position t ≠ .exclusive

def Free (h : Holders T) : Prop := ∀ t, h.position t = .outside

/-- There is room for one more reader. -/
def MayShare (h : Holders T) : Prop := h.NoWriter ∧ h.readers < 2 ^ 31 - 1

instance (h : Holders T) : Decidable h.NoWriter := Fintype.decidableForallFintype

instance (h : Holders T) : Decidable h.Free := Fintype.decidableForallFintype

instance (h : Holders T) : Decidable h.MayShare := instDecidableAnd

/-- The lock after its construction. -/
def unlocked (T : Type*) [Fintype T] : Holders T :=
  { position := fun _ => .outside
    apart := fun _ _ _ _ => rfl
    fits := Nat.lt_of_le_of_lt (Nat.le_of_eq (population_eq_zero.mpr fun _ => rfl))
      (Nat.two_pow_pos 31) }

/-- The lock as a word: a writer bit over the number of readers. -/
def word (h : Holders T) (x : Nat) : UintFast32 x := pack (32 + x) 31 (decide ¬h.NoWriter) h.readers

theorem free_iff : h.Free ↔ h.NoWriter ∧ h.readers = 0 := by
  refine ⟨fun free => ⟨fun t => ?_, population_eq_zero.mpr fun t => ?_⟩, fun empty t => ?_⟩
  · rw [free t]
    exact Position.noConfusion
  · rw [free t]
    rfl
  · cases position : h.position t with
    | outside => rfl
    | exclusive => exact absurd position (empty.1 t)
    | shared =>
        have none := population_eq_zero.mp empty.2 t
        rw [position] at none
        cases none

/-- Beside an exclusive holder there are no readers. -/
theorem readers_of_exclusive (held : h.position t = .exclusive) : h.readers = 0 := by
  refine population_eq_zero.mpr fun u => ?_
  by_cases same : u = t
  · rw [same, held]
    rfl
  · rw [h.apart t u held same]
    rfl

variable [DecidableEq T]

/-! ## What the calls do -/

def takeExclusive (h : Holders T) (t : T) (free : h.Free) : Holders T :=
  { position := Function.update h.position t .exclusive
    apart := fun u v held other => by
      by_cases same : u = t
      · subst same
        rw [Function.update_of_ne other]
        exact free v
      · rw [Function.update_of_ne same, free u] at held
        cases held
    fits := by
      have kept : population Position.isShared (Function.update h.position t .exclusive) =
          h.readers :=
        population_update_same (by rw [free t]; rfl)
      rw [kept]
      exact h.fits }

def takeShared (h : Holders T) (t : T) (may : h.MayShare) : Holders T :=
  { position := Function.update h.position t .shared
    apart := fun u v held _ => by
      by_cases same : u = t
      · rw [same, Function.update_self] at held
        cases held
      · rw [Function.update_of_ne same] at held
        exact absurd held (may.1 u)
    fits := by
      have balance := population_update Position.isShared h.position t .shared
      have room : population Position.isShared h.position < 2 ^ 31 - 1 := may.2
      have atMost := Bool.toNat_le (Position.isShared .shared)
      omega }

def release (h : Holders T) (t : T) : Holders T :=
  { position := Function.update h.position t .outside
    apart := fun u v held other => by
      by_cases same : u = t
      · rw [same, Function.update_self] at held
        cases held
      · rw [Function.update_of_ne same] at held
        by_cases isT : v = t
        · rw [isT, Function.update_self]
        · rw [Function.update_of_ne isT]
          exact h.apart u v held other
    fits := by
      have balance := population_update Position.isShared h.position t .outside
      have before := h.fits
      have nothing : (Position.isShared .outside).toNat = 0 := rfl
      omega }

/-- Exclusive or shared ownership for `t`, where it is to be had at once. -/
def acquire (h : Holders T) (t : T) (exclusive : Bool) : Option (Holders T) :=
  if exclusive then
    if free : h.Free then some (h.takeExclusive t free) else none
  else
    if may : h.MayShare then some (h.takeShared t may) else none

/-- The lock after a complete call.  A call to `lock` or `lock_shared` that
would block does not complete, and a failed attempt changes nothing. -/
def after (h : Holders T) : Call T → Option (Holders T)
  | .lock t => if h.position t = .outside then h.acquire t true else none
  | .tryLock t | .tryLockUntil t =>
      if h.position t = .outside then some ((h.acquire t true).getD h) else none
  | .unlock t => if h.position t = .exclusive then some (h.release t) else none
  | .lockShared t => if h.position t = .outside then h.acquire t false else none
  | .tryLockShared t | .tryLockSharedUntil t =>
      if h.position t = .outside then some ((h.acquire t false).getD h) else none
  | .unlockShared t => if h.position t = .shared then some (h.release t) else none

@[simp] theorem takeExclusive_position (free : h.Free) :
    (h.takeExclusive t free).position = Function.update h.position t .exclusive := rfl

@[simp] theorem takeShared_position (may : h.MayShare) :
    (h.takeShared t may).position = Function.update h.position t .shared := rfl

@[simp] theorem release_position :
    (h.release t).position = Function.update h.position t .outside := rfl

/-! ### Acquiring -/

variable {q : Holders T} {op : GateOp}

/-- The outcome of an attempt: ownership, and otherwise nothing or no return. -/
def attempt (h : Holders T) (t : T) (op : GateOp) : Option (Holders T) :=
  if op.timed then some ((h.acquire t op.exclusive).getD h) else h.acquire t op.exclusive

theorem acquire_exclusive (free : h.Free) :
    h.acquire t true = some (h.takeExclusive t free) := by
  rw [acquire, if_pos rfl, dif_pos free]

theorem acquire_exclusive_none (busy : ¬ h.Free) : h.acquire t true = none := by
  rw [acquire, if_pos rfl, dif_neg busy]

theorem acquire_shared (may : h.MayShare) :
    h.acquire t false = some (h.takeShared t may) := by
  rw [acquire, if_neg Bool.false_ne_true, dif_pos may]

theorem acquire_shared_none (full : ¬ h.MayShare) : h.acquire t false = none := by
  rw [acquire, if_neg Bool.false_ne_true, dif_neg full]

theorem attempt_of_some (acquired : h.acquire t op.exclusive = some q) :
    h.attempt t op = some q := by
  rw [attempt, acquired, Option.getD_some, ite_self]

theorem attempt_of_none (refused : h.acquire t op.exclusive = none) :
    h.attempt t op = if op.timed then some h else none := by
  rw [attempt, refused, Option.getD_none]

/-! ## What they do to the word -/

variable {x : Nat}

/-- An owner that changes to something else than exclusive ownership leaves no writer behind. -/
theorem noWriter_of_update {h' : Holders T} {position : Position} (notExclusive : position ≠ .exclusive)
    (moved : h'.position = Function.update h.position t position)
    (others : ∀ u, u ≠ t → h.position u ≠ .exclusive) : h'.NoWriter := by
  intro u
  rw [moved]
  by_cases same : u = t
  · rw [same, Function.update_self]
    exact notExclusive
  · rw [Function.update_of_ne same]
    exact others u same

theorem word_takeExclusive (free : h.Free) :
    (h.takeExclusive t free).word x = pack (32 + x) 31 true 0 := by
  have held : (h.takeExclusive t free).position t = .exclusive := Function.update_self ..
  have writer : ¬ (h.takeExclusive t free).NoWriter := fun noWriter => noWriter t held
  rw [word, readers_of_exclusive held, decide_eq_true writer]

theorem word_takeShared (may : h.MayShare) (outside : h.position t = .outside) :
    (h.takeShared t may).word x = h.word x + 1#_ := by
  have entered : (h.takeShared t may).readers = h.readers + 1 :=
    population_update_enter (by rw [outside]; rfl) rfl
  have noWriter : (h.takeShared t may).NoWriter :=
    noWriter_of_update Position.noConfusion (takeShared_position may) fun u _ => may.1 u
  rw [word, word, entered, decide_eq_false (not_not.mpr noWriter),
    decide_eq_false (not_not.mpr may.1), pack_add_one]

theorem word_release_exclusive (held : h.position t = .exclusive) :
    (h.release t).word x = pack (32 + x) 31 false 0 := by
  have free : (h.release t).Free := by
    intro u
    by_cases same : u = t
    · rw [same]
      exact Function.update_self ..
    · exact (Function.update_of_ne same ..).trans (h.apart t u held same)
  obtain ⟨noWriter, empty⟩ := free_iff.mp free
  rw [word, empty, decide_eq_false (not_not.mpr noWriter)]

omit [DecidableEq T] in
/-- A reader excludes a writer. -/
theorem noWriter_of_shared (held : h.position t = .shared) : h.NoWriter := by
  intro u exclusive
  have other : t ≠ u := fun same => by
    rw [same, exclusive] at held
    cases held
  rw [h.apart u t exclusive other] at held
  cases held

theorem readers_release (held : h.position t = .shared) : (h.release t).readers + 1 = h.readers :=
  population_update_leave (by rw [held]; rfl) rfl

theorem noWriter_release (held : h.position t = .shared) : (h.release t).NoWriter :=
  noWriter_of_update Position.noConfusion release_position fun u _ => noWriter_of_shared held u

theorem word_release_shared (held : h.position t = .shared) :
    (h.release t).word x = h.word x - 1#_ := by
  rw [word, word, ← readers_release held, decide_eq_false (not_not.mpr (noWriter_release held)),
    decide_eq_false (not_not.mpr (noWriter_of_shared held)), pack_sub_one]

omit [DecidableEq T] in
theorem word_eq_zero : h.word x = 0#_ ↔ h.Free := by
  have fits : h.readers < 2 ^ 31 := h.fits
  rw [word, pack_eq_zero (by omega) fits, free_iff, decide_eq_false_iff_not, not_not]

end Holders

/-- The abstract lock, of which a caller sees the result and the word. -/
def sequentialLock (T : Type*) [Fintype T] [DecidableEq T] (x : Nat) :
    Sequential (Holders T) (Call T) (Option Bool × UintFast32 x) :=
  { after := Holders.after
    observe := fun call h => (call.result (h.position call.caller).holds, h.word x) }

end Conc11.SharedMutex
