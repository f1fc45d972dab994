/-
Module: Conc11.SharedLocks.Misuse
Purpose: `SharedLock` used in any way while it lives: `lock` and the attempts also without a mutex or with an
  ownership, `unlock` also without one; and for each object the ownerships that it is responsible for.
Trusted boundary: human-reviewed model
Main exports: Stmt.possible, Stmt.misuses, charge, Charged, Charged.step, anyUse, Responsible, Refused,
  responsible_without_misuse
-/
import Mathlib.Algebra.BigOperators.Group.Finset.Piecewise
import Mathlib.Data.Multiset.Count
import Mathlib.Data.Multiset.AddSub
import Conc11.SharedLocks.Accounting

namespace Conc11.SharedLocks

open Library

/-! ## Any use -/

section Model

variable {O M : Type} [DecidableEq O] [DecidableEq M]

/-- There is a mutex and an ownership. -/
def isHolding : Option (SharedLock M) → Bool
  | some l => l.mtx.isSome && l.owns
  | none => false

/-- Objects are made once and used while they live, and callers give and unlock
what they hold. -/
def Stmt.possible (w : World O M) : Stmt (Option O) M → Bool
  | .lock n | .unlock n | .tryLock n _ | .tryLockFor n _ | .tryLockUntil n _ => (w.objects n).isSome
  | s => s.legal w

/-- `lock` or an attempt on an object that owns or has no mutex, `unlock` on one
that does not own or has no mutex. -/
def Stmt.misuses (w : World O M) : Stmt (Option O) M → Bool
  | .lock n | .tryLock n _ | .tryLockFor n _ | .tryLockUntil n _ => !isUnlocked (w.objects n)
  | .unlock n => !isHolding (w.objects n)
  | _ => false

def Op.possible (w : World O M) : Op O M → Bool
  | .stmt s => (s.rename some).possible w
  | .moveAssign this rhs => (Op.moveAssign this rhs).legal w

/-- The mutexes of the ownerships that each object is responsible for. -/
abbrev Duty (O M : Type) := Option O → Multiset M

/-- The object gets an ownership of its mutex. -/
def takeOn (w : World O M) (duty : Duty O M) (n : Option O) (got : Bool) : Duty O M :=
  match got, (w.objects n).bind SharedLock.mtx with
  | true, some m => Function.update duty n (m ::ₘ duty n)
  | _, _ => duty

/-- The object gives an ownership of its mutex back, if it is responsible for one. -/
def giveUp (w : World O M) (duty : Duty O M) (n : Option O) : Duty O M :=
  match (w.objects n).bind SharedLock.mtx with
  | some m => Function.update duty n ((duty n).erase m)
  | none => duty

/-- What a statement does to the responsibility: an ownership is taken on where
the mutex or a caller gives it, moves and swaps pass it on, and it ends with
`unlock`, with `release` or with the object. -/
def charge (w : World O M) (duty : Duty O M) : Stmt (Option O) M → Duty O M
  | .constructDefault n | .constructDefer n _ | .destroy n | .release n => Function.update duty n 0
  | .constructLocking n m | .constructAdopt n m => Function.update duty n {m}
  | .constructTry n m got | .constructFor n m got | .constructUntil n m got =>
      Function.update duty n (if got then {m} else 0)
  | .lock n => takeOn w duty n true
  | .tryLock n got | .tryLockFor n got | .tryLockUntil n got => takeOn w duty n got
  | .unlock n => giveUp w duty n
  | .moveConstruct n rhs => Function.update (Function.update duty n (duty rhs)) rhs 0
  | .swap n rhs => Function.update (Function.update duty n (duty rhs)) rhs (duty n)
  | .callerLock _ | .callerUnlock _ => duty

/-- A system of `SharedLock`s with the responsibilities. -/
structure Charged (O M : Type) where
  sys : System O M
  duty : Duty O M

def Charged.step (s : Charged O M) : Label O M → Option (Charged O M)
  | .call op =>
      if s.sys.todo.isEmpty && op.possible s.sys.world then
        some { s with sys := { s.sys with todo := op.body } }
      else none
  | .go =>
      match s.sys.todo with
      | [] => none
      | stmt :: rest =>
          (exec s.sys.world stmt).map fun w =>
            { sys := { world := w, todo := rest }, duty := charge s.sys.world s.duty stmt }

/-- Any sequence of operations, one statement at a time. -/
def anyUse (O M : Type) [DecidableEq O] [DecidableEq M] : Machine (Charged O M) (Label O M) where
  initial := { sys := initial O M, duty := fun _ => 0 }
  step := Charged.step

/-- The operation that is called is no misuse. -/
def NoMisuse (s : Charged O M) : Label O M → Prop
  | .call (.stmt stmt) => (stmt.rename some).misuses s.sys.world = false
  | _ => True

instance (s : Charged O M) : (label : Label O M) → Decidable (NoMisuse s label)
  | .call (.stmt stmt) => inferInstanceAs (Decidable ((stmt.rename some).misuses s.sys.world = false))
  | .call (.moveAssign _ _) => .isTrue trivial
  | .go => .isTrue trivial

/-- The statement returns without a change of a mutex or of a flag. -/
def Refused (w : World O M) (stmt : Stmt (Option O) M) : Prop :=
  ∃ w', exec w stmt = some w' ∧ w'.shared = w.shared ∧
    ∀ n, (w'.objects n).map SharedLock.owns = (w.objects n).map SharedLock.owns

/-- An object owns exactly if it is responsible for one ownership, and each
mutex has the ownerships of the callers and those that objects are responsible
for. -/
def Responsible [Fintype O] (w : World O M) (duty : Duty O M) : Prop :=
  (∀ n l, w.objects n = some l → (l.owns = true ↔ (duty n).card = 1)) ∧
    ∀ m, w.shared m = w.callers m + total (Multiset.count m) duty

end Model

variable {O M : Type} [DecidableEq O] [DecidableEq M]
variable {w w' : World O M} {n rhs : Option O} {m : M} {l : SharedLock M}
  {stmt : Stmt (Option O) M}

/-! ## A misused call takes effect -/

omit [DecidableEq O] [DecidableEq M] in
theorem legal_of_possible (possible : stmt.possible w = true) (proper : stmt.misuses w = false) :
    stmt.legal w = true := by
  cases stmt with
  | lock n | tryLock n got | tryLockFor n got | tryLockUntil n got =>
      exact Bool.not_eq_eq_eq_not.mp proper
  | unlock n =>
      have holding : isHolding (w.objects n) = true := Bool.not_eq_eq_eq_not.mp proper
      change isOwning (w.objects n) = true
      cases live : w.objects n with
      | none =>
          rw [live] at holding
          cases holding
      | some l =>
          rw [live] at holding
          exact (Bool.and_eq_true_iff.mp holding).2
  | _ => exact possible

omit [DecidableEq O] [DecidableEq M] in
/-- Without a mutex or with an ownership. -/
theorem exists_of_not_isUnlocked (live : (w.objects n).isSome = true)
    (misuse : (!isUnlocked (w.objects n)) = true) :
    ∃ l, w.objects n = some l ∧ (l.mtx = none ∨ ∃ m, l = { mtx := some m, owns := true }) := by
  obtain ⟨⟨mtx, owns⟩, isObject⟩ := Option.isSome_iff_exists.mp live
  refine ⟨_, isObject, ?_⟩
  rw [isObject] at misuse
  cases mtx with
  | none => exact .inl rfl
  | some m =>
      cases owns with
      | false => cases misuse
      | true => exact .inr ⟨m, rfl⟩

omit [DecidableEq O] [DecidableEq M] in
theorem exists_of_not_isHolding (live : (w.objects n).isSome = true)
    (misuse : (!isHolding (w.objects n)) = true) :
    ∃ l, w.objects n = some l ∧ (l.mtx = none ∨ ∃ m, l = { mtx := some m, owns := false }) := by
  obtain ⟨⟨mtx, owns⟩, isObject⟩ := Option.isSome_iff_exists.mp live
  refine ⟨_, isObject, ?_⟩
  rw [isObject] at misuse
  cases mtx with
  | none => exact .inl rfl
  | some m =>
      cases owns with
      | false => exact .inr ⟨m, rfl⟩
      | true => cases misuse

theorem lock_eq (live : w.objects n = some l) :
    lock w n = l.mtx.map fun m => (lockShared w m).put n { l with owns := true } := by
  simp only [lock, live, Option.bind_eq_bind, Option.bind_some, Option.pure_def]
  cases l.mtx <;> rfl

theorem tryLock_eq (live : w.objects n = some l) (got : Bool) :
    tryLock w n got = l.mtx.map fun m => (tryLockShared w m got).put n { l with owns := got } := by
  simp only [tryLock, live, Option.bind_eq_bind, Option.bind_some, Option.pure_def]
  cases l.mtx <;> rfl

theorem unlock_eq (live : w.objects n = some l) :
    unlock w n = l.mtx.bind fun m =>
      (unlockShared w m).map fun w' => w'.put n { l with owns := false } := by
  simp only [unlock, live, Option.bind_eq_bind, Option.bind_some, Option.pure_def]
  cases l.mtx with
  | none => rfl
  | some m =>
      rw [Option.bind_some, Option.bind_some]
      cases unlockShared w m <;> rfl

theorem bump_ne (count : M → Nat) (m : M) : bump count m ≠ count := by
  intro same
  have here := congrFun same m
  rw [bump, Function.update_self] at here
  exact Nat.succ_ne_self _ here

theorem drop_ne {count : M → Nat} {m : M} (positive : count m ≠ 0) : drop count m ≠ count := by
  intro same
  have here := congrFun same m
  rw [drop, Function.update_self] at here
  omega

/-- A second attempt to lock: a mutex without an object is undefined, a second
ownership is counted, and after a failure the first one is forgotten. -/
theorem tryLock_not_refused {got : Bool} (live : w.objects n = some l)
    (misuse : l.mtx = none ∨ ∃ m, l = { mtx := some m, owns := true })
    (executed : tryLock w n got = some w') :
    w'.shared ≠ w.shared ∨ (w'.objects n).map SharedLock.owns ≠ (w.objects n).map SharedLock.owns := by
  rw [tryLock_eq live] at executed
  rcases misuse with noMutex | ⟨m, rfl⟩
  · rw [noMutex] at executed
    cases executed
  · cases executed
    cases got with
    | true => exact .inl (bump_ne w.shared m)
    | false =>
        right
        rw [put_self, live]
        exact fun same => Bool.false_ne_true (Option.some.inj same)

/-- No misused call is refused. -/
theorem not_refused (possible : stmt.possible w = true) (misuse : stmt.misuses w = true) :
    ¬ Refused w stmt := by
  rintro ⟨w', executed, shared, owns⟩
  cases stmt with
  | lock n =>
      obtain ⟨l, live, bad⟩ := exists_of_not_isUnlocked possible misuse
      have again : tryLock w n true = some w' := by
        rw [tryLock_eq live]
        exact (lock_eq live).symm.trans executed
      rcases tryLock_not_refused live bad again with changed | changed
      · exact changed shared
      · exact changed (owns n)
  | tryLock n got | tryLockFor n got | tryLockUntil n got =>
      obtain ⟨l, live, bad⟩ := exists_of_not_isUnlocked possible misuse
      rcases tryLock_not_refused live bad executed with changed | changed
      · exact changed shared
      · exact changed (owns n)
  | unlock n =>
      obtain ⟨l, live, bad⟩ := exists_of_not_isHolding possible misuse
      have unlocked : unlock w n = some w' := executed
      rw [unlock_eq live] at unlocked
      rcases bad with noMutex | ⟨m, rfl⟩
      · rw [noMutex] at unlocked
        cases unlocked
      · obtain ⟨middle, given, rfl⟩ := Option.map_eq_some_iff.mp unlocked
        obtain ⟨positive, rest⟩ := Option.ite_none_left_eq_some.mp given
        cases rest
        exact drop_ne positive shared
  | _ => cases misuse

/-! ## Responsibility as the flags say it -/

/-- What an object with these members should be responsible for. -/
def dutyOf : Option (SharedLock M) → Multiset M
  | some { mtx := some m, owns := true } => {m}
  | _ => 0

theorem count_dutyOf (m : M) (object : Option (SharedLock M)) :
    (dutyOf object).count m = (ownsOf m object).toNat := by
  match object with
  | none => rfl
  | some { mtx := none, owns := owns } => cases owns <;> rfl
  | some { mtx := some m', owns := false } => rfl
  | some { mtx := some m', owns := true } =>
      change Multiset.count m {m'} = _
      rw [Multiset.count_singleton]
      by_cases same : m = m'
      · simp [ownsOf, same]
      · simp [ownsOf, same, Ne.symm same]

omit [DecidableEq M] in
theorem card_dutyOf (owning : l.owns = true → l.mtx.isSome = true) :
    l.owns = true ↔ (dutyOf (some l)).card = 1 := by
  match l, owning with
  | { mtx := none, owns := false }, _ => exact iff_of_false Bool.false_ne_true Nat.zero_ne_one
  | { mtx := none, owns := true }, owning => exact absurd (owning rfl) Bool.false_ne_true
  | { mtx := some m, owns := false }, _ => exact iff_of_false Bool.false_ne_true Nat.zero_ne_one
  | { mtx := some m, owns := true }, _ => exact iff_of_true rfl (Multiset.card_singleton m)

omit [DecidableEq O] in
theorem total_dutyOf [Fintype O] (w : World O M) (m : M) :
    total (Multiset.count m) (dutyOf ∘ w.objects) = w.owners m := by
  rw [World.owners, population, Finset.card_filter, total]
  refine Finset.sum_congr rfl fun n _ => ?_
  rw [Function.comp_apply, count_dutyOf]
  cases ownsOf m (w.objects n) <;> rfl

omit [DecidableEq O] in
theorem Accounts.responsible [Fintype O] (accounts : Accounts w) :
    Responsible w (dutyOf ∘ w.objects) := by
  refine ⟨fun n l live => ?_, fun m => ?_⟩
  · rw [Function.comp_apply, live]
    exact card_dutyOf (accounts.owning n l live)
  · rw [total_dutyOf]
    exact accounts.sharing m

omit [DecidableEq M] in
theorem dutyOf_update {object : Option (SharedLock M)}
    (objects : w'.objects = Function.update w.objects n object) :
    dutyOf ∘ w'.objects = Function.update (dutyOf ∘ w.objects) n (dutyOf object) := by
  rw [objects, Function.comp_update]

omit [DecidableEq M] in
theorem dutyOf_put (w : World O M) (n : Option O) (l : SharedLock M) :
    dutyOf ∘ (w.put n l).objects = Function.update (dutyOf ∘ w.objects) n (dutyOf (some l)) :=
  Function.comp_update ..

theorem release_objects (released : release w n = some w') :
    w'.objects = Function.update w.objects n (some { mtx := none, owns := false }) := by
  simp only [release, Option.bind_eq_bind, Option.bind_eq_some_iff, Option.pure_def,
    Option.some.injEq] at released
  obtain ⟨this, live, rfl⟩ := released
  split <;> rfl

omit [DecidableEq M] in
theorem takeOn_got {duty : Duty O M} {owns : Bool}
    (live : w.objects n = some { mtx := some m, owns := owns }) :
    takeOn w duty n true = Function.update duty n (m ::ₘ duty n) := by
  have mutex : (w.objects n).bind SharedLock.mtx = some m := by
    rw [live]
    rfl
  unfold takeOn
  rw [mutex]

theorem giveUp_some {duty : Duty O M} {owns : Bool}
    (live : w.objects n = some { mtx := some m, owns := owns }) :
    giveUp w duty n = Function.update duty n ((duty n).erase m) := by
  have mutex : (w.objects n).bind SharedLock.mtx = some m := by
    rw [live]
    rfl
  unfold giveUp
  rw [mutex]

/-- An attempt on an object that does not own. -/
theorem takeOn_dutyOf {got : Bool} (unlocked : w.objects n = some { mtx := some m, owns := false })
    (attempted : tryLock w n got = some w') :
    takeOn w (dutyOf ∘ w.objects) n got = dutyOf ∘ w'.objects := by
  rw [tryLock_eq unlocked] at attempted
  cases attempted
  cases got with
  | true =>
      rw [takeOn_got unlocked, Function.comp_apply, unlocked]
      exact (Function.comp_update dutyOf w.objects n (some { mtx := some m, owns := true })).symm
  | false =>
      have same : Function.update w.objects n (some { mtx := some m, owns := false }) =
          w.objects := by rw [← unlocked, Function.update_eq_self]
      exact congrArg (dutyOf ∘ ·) same.symm

theorem giveUp_dutyOf (owned : w.objects n = some { mtx := some m, owns := true })
    (unlocked : unlock w n = some w') :
    giveUp w (dutyOf ∘ w.objects) n = dutyOf ∘ w'.objects := by
  rw [unlock_eq owned] at unlocked
  obtain ⟨middle, given, rfl⟩ := Option.map_eq_some_iff.mp unlocked
  have objects : (middle.put n { mtx := some m, owns := false }).objects =
      Function.update w.objects n (some { mtx := some m, owns := false }) :=
    congrArg (Function.update · n _) (unlockShared_objects given)
  rw [dutyOf_update objects, giveUp_some owned, Function.comp_apply, owned]
  exact congrArg (Function.update _ n) (Multiset.erase_singleton m)

omit [DecidableEq M] in
theorem swap_dutyOf (swapped : swap w n rhs = some w') :
    dutyOf ∘ w'.objects =
      Function.update (Function.update (dutyOf ∘ w.objects) n (dutyOf (w.objects rhs))) rhs
        (dutyOf (w.objects n)) := by
  simp only [swap, Option.bind_eq_bind, Option.bind_eq_some_iff, Option.pure_def,
    Option.some.injEq] at swapped
  obtain ⟨this, live, other, liveOther, rfl⟩ := swapped
  rw [dutyOf_put, dutyOf_put, live, liveOther]

/-- Under legal use the responsibilities stay what the flags say. -/
theorem charge_dutyOf [Fintype O] (accounts : Accounts w) (legal : stmt.legal w = true)
    (executed : exec w stmt = some w') :
    charge w (dutyOf ∘ w.objects) stmt = dutyOf ∘ w'.objects := by
  cases stmt with
  | constructDefault n =>
      cases executed
      exact (Function.comp_update dutyOf w.objects n (some { mtx := none, owns := false })).symm
  | constructDefer n m =>
      cases executed
      exact (Function.comp_update dutyOf w.objects n (some { mtx := some m, owns := false })).symm
  | constructLocking n m | constructAdopt n m =>
      cases executed
      exact (Function.comp_update dutyOf w.objects n (some { mtx := some m, owns := true })).symm
  | constructTry n m got | constructFor n m got | constructUntil n m got =>
      cases executed
      cases got with
      | false =>
          exact (Function.comp_update dutyOf w.objects n (some { mtx := some m, owns := false })).symm
      | true =>
          exact (Function.comp_update dutyOf w.objects n (some { mtx := some m, owns := true })).symm
  | moveConstruct n rhs =>
      obtain ⟨absent, live⟩ := Bool.and_eq_true_iff.mp legal
      have different : rhs ≠ n := by
        rintro rfl
        rw [Option.isNone_iff_eq_none.mp absent] at live
        cases live
      have made : dutyOf ∘ (constructDefault w n).objects =
          Function.update (dutyOf ∘ w.objects) n 0 := dutyOf_put ..
      rw [swap_dutyOf executed, made, Function.update_idem]
      rw [constructDefault, put_of_ne different, put_self]
      rfl
  | destroy n => exact (dutyOf_update (destroy_objects executed)).symm
  | release n => exact (dutyOf_update (release_objects executed)).symm
  | lock n =>
      obtain ⟨m, unlocked⟩ := exists_unlocked legal
      have attempted : tryLock w n true = some w' := by
        rw [tryLock_eq unlocked]
        exact (lock_eq unlocked).symm.trans executed
      exact takeOn_dutyOf unlocked attempted
  | tryLock n got | tryLockFor n got | tryLockUntil n got =>
      obtain ⟨m, unlocked⟩ := exists_unlocked legal
      exact takeOn_dutyOf unlocked executed
  | unlock n =>
      obtain ⟨l, live, owns⟩ := exists_owning legal
      obtain ⟨m, owned⟩ := accounts.exists_owned live owns
      exact giveUp_dutyOf owned executed
  | swap n rhs => exact (swap_dutyOf executed).symm
  | callerLock m | callerUnlock m =>
      cases executed
      rfl

/-! ## Runs -/

variable [Fintype O]

/-- The account, the statements under way, and every responsibility as the flag
of its object says. -/
structure Kept (s : Charged O M) : Prop where
  accounts : Accounts s.sys.world
  ready : Ready s.sys.world s.sys.todo
  duties : s.duty = dutyOf ∘ s.sys.world.objects

theorem kept_step {s s' : Charged O M} {label : Label O M} (kept : Kept s)
    (proper : NoMisuse s label) (stepEq : s.step label = some s') : Kept s' := by
  obtain ⟨⟨world, todo⟩, duty⟩ := s
  obtain ⟨accounts, ready, duties⟩ := kept
  cases label with
  | call op =>
      obtain ⟨both, rest⟩ := Option.ite_none_right_eq_some.mp stepEq
      obtain ⟨idle, possible⟩ := Bool.and_eq_true_iff.mp both
      cases rest
      have legal : op.legal world = true := by
        cases op with
        | stmt stmt => exact legal_of_possible possible proper
        | moveAssign this rhs => exact possible
      obtain rfl : todo = [] := List.isEmpty_iff.mp idle
      exact ⟨accounts, ready.call legal, duties⟩
  | go =>
      cases todo with
      | nil => cases stepEq
      | cons stmt rest =>
          obtain ⟨w', executed, moved⟩ := Option.map_eq_some_iff.mp stepEq
          cases moved
          obtain ⟨w'', alsoExecuted, after⟩ := accounts.exec stmt ready.legal
          rw [executed] at alsoExecuted
          cases alsoExecuted
          refine ⟨after, ready.next executed, ?_⟩
          rw [duties]
          exact charge_dutyOf accounts ready.legal executed

theorem kept_of_reachable {s : Charged O M} (reachable : (anyUse O M).ReachableUnder NoMisuse s) :
    Kept s := by
  refine reachable.invariant (motive := Kept) ?_ fun s label s' _ kept proper stepEq =>
    kept_step kept proper stepEq
  obtain ⟨accounts, ready⟩ := accounts_of_reachable (s := initial O M) Machine.ReachableUnder.initial
  exact ⟨accounts, ready, rfl⟩

omit [Fintype O] in
/-- After a second attempt the object is responsible for two ownerships, or for
one that its flag has forgotten. -/
theorem tryLock_not_responsible {got : Bool}
    (owned : w.objects n = some { mtx := some m, owns := true })
    (attempted : tryLock w n got = some w') :
    ∃ l, w'.objects n = some l ∧
      ¬ (l.owns = true ↔ (takeOn w (dutyOf ∘ w.objects) n got n).card = 1) := by
  rw [tryLock_eq owned] at attempted
  cases attempted
  refine ⟨{ mtx := some m, owns := got }, put_self .., ?_⟩
  have before : (dutyOf ∘ w.objects) n = {m} := by rw [Function.comp_apply, owned]; rfl
  cases got with
  | true =>
      rw [takeOn_got owned, Function.update_self, before, Multiset.card_cons,
        Multiset.card_singleton]
      exact fun exactly => absurd (exactly.mp rfl) (by decide)
  | false =>
      have kept : takeOn w (dutyOf ∘ w.objects) n false = dutyOf ∘ w.objects := rfl
      rw [kept, before, Multiset.card_singleton]
      exact fun exactly => Bool.false_ne_true (exactly.mpr rfl)

/-- An ownership that is given back by an object without one is missing. -/
theorem unlock_not_responsible (sharing : Responsible w (dutyOf ∘ w.objects))
    (unlocked : w.objects n = some { mtx := some m, owns := false })
    (executed : unlock w n = some w') :
    w'.shared m ≠
      w'.callers m + total (Multiset.count m) (giveUp w (dutyOf ∘ w.objects) n) := by
  rw [unlock_eq unlocked] at executed
  obtain ⟨middle, given, rfl⟩ := Option.map_eq_some_iff.mp executed
  obtain ⟨positive, rest⟩ := Option.ite_none_left_eq_some.mp given
  cases rest
  have nothing : (dutyOf ∘ w.objects) n = 0 := by rw [Function.comp_apply, unlocked]; rfl
  have kept : giveUp w (dutyOf ∘ w.objects) n = dutyOf ∘ w.objects := by
    rw [giveUp_some unlocked, nothing, Multiset.erase_zero, ← nothing, Function.update_eq_self]
  have before := sharing.2 m
  have fewer : drop w.shared m m = w.shared m - 1 := Function.update_self ..
  rw [kept]
  change drop w.shared m m ≠ w.callers m + _
  omega

/-- A misused call leaves an object that owns without being responsible for one
ownership, or is responsible for one without owning, or a mutex that lacks an
ownership that a caller or an object is responsible for. -/
theorem not_responsible {duty : Duty O M} (accounts : Accounts w)
    (duties : duty = dutyOf ∘ w.objects) (possible : stmt.possible w = true)
    (misuse : stmt.misuses w = true) (executed : exec w stmt = some w') :
    ¬ Responsible w' (charge w duty stmt) := by
  subst duties
  rintro ⟨owns, sharing⟩
  cases stmt with
  | lock n =>
      obtain ⟨l, live, noMutex | ⟨m, rfl⟩⟩ := exists_of_not_isUnlocked possible misuse
      · have undefined := (lock_eq live).symm.trans executed
        rw [noMutex] at undefined
        cases undefined
      · have again : tryLock w n true = some w' := by
          rw [tryLock_eq live]
          exact (lock_eq live).symm.trans executed
        obtain ⟨l, after, broken⟩ := tryLock_not_responsible live again
        exact broken (owns n l after)
  | tryLock n got | tryLockFor n got | tryLockUntil n got =>
      obtain ⟨l, live, noMutex | ⟨m, rfl⟩⟩ := exists_of_not_isUnlocked possible misuse
      · have undefined := (tryLock_eq live got).symm.trans executed
        rw [noMutex] at undefined
        cases undefined
      · obtain ⟨l, after, broken⟩ := tryLock_not_responsible live executed
        exact broken (owns n l after)
  | unlock n =>
      obtain ⟨l, live, noMutex | ⟨m, rfl⟩⟩ := exists_of_not_isHolding possible misuse
      · have undefined := (unlock_eq live).symm.trans executed
        rw [noMutex] at undefined
        cases undefined
      · exact unlock_not_responsible accounts.responsible live executed (sharing m)
  | _ => cases misuse

/-- Without misuse each object owns exactly if it is responsible for one
ownership, at every point of every run, and every operation goes on.  No
misused call is refused, in any state; and after one in a run that had none
before, the rule no longer holds. -/
theorem responsible_without_misuse :
    (∀ s : Charged O M, (anyUse O M).ReachableUnder NoMisuse s →
      Responsible s.sys.world s.duty ∧ (s.sys.todo ≠ [] → ∃ s', s.step .go = some s') ∧
      ∀ stmt : Stmt (Option O) M, stmt.possible s.sys.world = true →
        stmt.misuses s.sys.world = true → ∀ w', exec s.sys.world stmt = some w' →
          ¬ Responsible w' (charge s.sys.world s.duty stmt)) ∧
    ∀ (w : World O M) (stmt : Stmt (Option O) M), stmt.possible w = true →
      stmt.misuses w = true → ¬ Refused w stmt := by
  refine ⟨fun s reachable => ?_, fun w stmt => not_refused⟩
  have kept := kept_of_reachable reachable
  refine ⟨?_, fun busy => ?_, fun stmt possible misuse w' executed =>
    not_responsible kept.accounts kept.duties possible misuse executed⟩
  · rw [kept.duties]
    exact kept.accounts.responsible
  · obtain ⟨⟨world, todo⟩, duty⟩ := s
    cases todo with
    | nil => exact absurd rfl busy
    | cons stmt rest =>
        obtain ⟨w', executed, _⟩ := kept.accounts.exec stmt kept.ready.legal
        exact ⟨_, congrArg (Option.map _) executed⟩

/-- A lock that is moved while it owns and then unlocked. -/
theorem responsible_without_misuse_moved :
    ∃ s, (anyUse (Fin 2) (Fin 1)).ReachableUnder NoMisuse s ∧
      Responsible s.sys.world s.duty ∧ s.duty (some 1) = {0} := by
  have run : ((anyUse (Fin 2) (Fin 1)).execUnder NoMisuse (anyUse (Fin 2) (Fin 1)).initial
      [.call (.stmt (.constructLocking 0 0)), .go, .call (.stmt (.moveConstruct 1 0)), .go]).map
      (fun s => s.duty (some 1)) = some {0} := by
    decide
  obtain ⟨s, runs, observed⟩ := Option.map_eq_some_iff.mp run
  have reached := Machine.reachableUnder_of_execUnder runs
  exact ⟨s, reached, (responsible_without_misuse.1 s reached).1, observed⟩

/-- What is seen of an object and of its mutex after a run of two calls. -/
def afterTwo (o : O) (m : M) (first second : Stmt O M) :
    Option (Nat × Nat × Option (SharedLock M)) :=
  ((anyUse O M).exec (anyUse O M).initial
    [.call (.stmt first), .go, .call (.stmt second), .go]).map fun s =>
      (s.sys.world.shared m, (s.duty (some o)).card, s.sys.world.objects (some o))

/-- After a second `lock` the owner is responsible for two ownerships, and after
a second attempt that failed it does not own the one it is responsible for. -/
theorem locked_twice :
    afterTwo (0 : Fin 2) (0 : Fin 1) (.constructLocking 0 0) (.lock 0) =
      some (2, 2, some { mtx := some 0, owns := true }) ∧
    afterTwo (0 : Fin 2) (0 : Fin 1) (.constructLocking 0 0) (.tryLock 0 false) =
      some (1, 1, some { mtx := some 0, owns := false }) := by
  decide

end Conc11.SharedLocks
