/-
Module: Conc11.SharedLocks.Accounting
Purpose: The account of `SharedLock`: at every point, also within a move assignment, each mutex has as many
  shared ownerships through the objects as there are objects that own it.
Trusted boundary: none
Main exports: World.owners, Accounts, Accounts.exec, Ready, accounts_of_reachable, shared_lock_accounts
-/
import Mathlib.Data.Fintype.Option
import Conc11.SharedLocks.Model

namespace Conc11.SharedLocks

open Library

variable {O M : Type} [DecidableEq O] [DecidableEq M]

/-! ## The account -/

/-- The object owns a shared ownership of `m`. -/
def ownsOf (m : M) : Option (SharedLock M) → Bool
  | some l => l.owns && decide (l.mtx = some m)
  | none => false

/-- The number of live objects that own `m`. -/
def World.owners [Fintype O] (w : World O M) (m : M) : Nat := population (ownsOf m) w.objects

/-- What the objects acquired and adopted is what they returned, what they
released and what they own; and nobody else but the callers holds a mutex. -/
structure Accounts [Fintype O] (w : World O M) : Prop where
  account : ∀ m, w.acquired m + w.adopted m = w.returned m + w.released m + w.owners m
  sharing : ∀ m, w.shared m = w.callers m + w.owners m
  owning : ∀ n l, w.objects n = some l → l.owns = true → l.mtx.isSome = true

theorem bump_apply (count : M → Nat) (m m' : M) :
    bump count m m' = count m' + (decide (m = m')).toNat := by
  by_cases same : m = m'
  · subst same
    simp [bump]
  · simp [bump, Function.update_of_ne (Ne.symm same), same]

theorem drop_apply {count : M → Nat} {m : M} (positive : 0 < count m) (m' : M) :
    drop count m m' + (decide (m = m')).toNat = count m' := by
  by_cases same : m = m'
  · subst same
    simp [drop]
    omega
  · simp [drop, Function.update_of_ne (Ne.symm same), same]

theorem ownsOf_some (m m' : M) (owns : Bool) :
    (ownsOf m' (some { mtx := some m, owns := owns })).toNat =
      if owns then (decide (m = m')).toNat else 0 := by
  cases owns <;> simp [ownsOf]

theorem ownsOf_unowned {now : Option (SharedLock M)} (unowned : ∀ l, now = some l → l.owns = false)
    (m : M) : ownsOf m now = false := by
  cases isNow : now with
  | none => rfl
  | some l => simp [ownsOf, unowned l isNow]

omit [DecidableEq M] in
@[simp] theorem put_self (w : World O M) (n : Option O) (l : SharedLock M) :
    (w.put n l).objects n = some l :=
  Function.update_self ..

omit [DecidableEq M] in
theorem put_of_ne {w : World O M} {n n' : Option O} {l : SharedLock M} (other : n' ≠ n) :
    (w.put n l).objects n' = w.objects n' :=
  Function.update_of_ne other ..

variable {w w' : World O M} {n rhs : Option O} {m : M} {l : SharedLock M}

omit [DecidableEq O] in
theorem unowned (live : w.objects n = some l) (owns : l.owns = false) (m : M) :
    ownsOf m (w.objects n) = false :=
  ownsOf_unowned (fun l' same => by rw [live] at same; cases same; exact owns) m

variable [Fintype O]

namespace Accounts

/-- The rule for a statement that changes one object: for every mutex its
change of the account is the change in what the object owns. -/
theorem change (accounts : Accounts w) {now : Option (SharedLock M)}
    (objects : w'.objects = Function.update w.objects n now)
    (owning : ∀ l, now = some l → l.owns = true → l.mtx.isSome = true)
    (account : ∀ m, w'.acquired m + w'.adopted m + w.returned m + w.released m +
        (ownsOf m (w.objects n)).toNat =
      w.acquired m + w.adopted m + w'.returned m + w'.released m + (ownsOf m now).toNat)
    (sharing : ∀ m, w'.shared m + w.callers m + (ownsOf m (w.objects n)).toNat =
      w.shared m + w'.callers m + (ownsOf m now).toNat) : Accounts w' := by
  have balance : ∀ m, w'.owners m + (ownsOf m (w.objects n)).toNat =
      w.owners m + (ownsOf m now).toNat := by
    intro m
    rw [World.owners, objects]
    exact population_update (ownsOf m) w.objects n now
  refine ⟨fun m => ?_, fun m => ?_, fun n' l live => ?_⟩
  · have before := accounts.account m
    have moved := account m
    have owners := balance m
    omega
  · have before := accounts.sharing m
    have moved := sharing m
    have owners := balance m
    omega
  · rw [objects] at live
    by_cases same : n' = n
    · rw [same, Function.update_self] at live
      exact owning l live
    · rw [Function.update_of_ne same] at live
      exact accounts.owning n' l live

omit [DecidableEq O] in
/-- An owning object's mutex has a shared ownership. -/
theorem shared_pos (accounts : Accounts w)
    (live : w.objects n = some { mtx := some m, owns := true }) : 0 < w.shared m := by
  have owner : 0 < w.owners m := population_pos.mpr ⟨n, by rw [live]; simp [ownsOf]⟩
  have sharing := accounts.sharing m
  omega

/-! ### Constructors -/

/-- An object without ownership is made, ended or changed to another one. -/
theorem replaceUnowned (accounts : Accounts w) (before : ∀ m, ownsOf m (w.objects n) = false)
    {now : Option (SharedLock M)} (unowned : ∀ l, now = some l → l.owns = false) :
    Accounts { w with objects := Function.update w.objects n now } := by
  have nothing := ownsOf_unowned unowned
  refine accounts.change rfl (fun l same owns => ?_) (fun m => ?_) fun m => ?_
  · rw [unowned l same] at owns
    cases owns
  · rw [before m, nothing m]
  · rw [before m, nothing m]

theorem putUnowned (accounts : Accounts w) (before : ∀ m, ownsOf m (w.objects n) = false)
    (unowned : l.owns = false) : Accounts (w.put n l) :=
  accounts.replaceUnowned before fun l' same => by
    cases same
    exact unowned

/-- An attempt to lock, with its outcome in the object. -/
theorem putAttempt (accounts : Accounts w) (before : ∀ m, ownsOf m (w.objects n) = false)
    (m : M) (got : Bool) :
    Accounts ((tryLockShared w m got).put n { mtx := some m, owns := got }) := by
  cases got with
  | false => exact accounts.putUnowned before rfl
  | true =>
      refine accounts.change rfl (fun l' same _ => ?_) (fun m' => ?_) fun m' => ?_
      · cases same
        rfl
      · rw [before m', ownsOf_some]
        change bump w.acquired m m' + _ + _ + _ + _ = _
        rw [bump_apply]
        simp only [World.put, tryLockShared, lockShared, if_true, Bool.toNat_false]
        omega
      · rw [before m', ownsOf_some]
        change bump w.shared m m' + _ + _ = _
        rw [bump_apply]
        simp only [World.put, tryLockShared, lockShared, if_true, Bool.toNat_false]
        omega

theorem constructAdopt (accounts : Accounts w) (before : ∀ m, ownsOf m (w.objects n) = false)
    (held : 0 < w.callers m) : Accounts (constructAdopt w n m) := by
  refine accounts.change rfl (fun l' same _ => ?_) (fun m' => ?_) fun m' => ?_
  · cases same
    rfl
  · rw [before m', ownsOf_some]
    change _ + bump w.adopted m m' + _ + _ + _ = _
    rw [bump_apply]
    simp only [SharedLocks.constructAdopt, World.put, if_true, Bool.toNat_false]
    omega
  · rw [before m', ownsOf_some]
    have dropped := drop_apply held m'
    simp only [SharedLocks.constructAdopt, World.put, if_true, Bool.toNat_false]
    omega

/-! ### Objects that exchange what they own -/

theorem swap (accounts : Accounts w) {this other : SharedLock M} (live : w.objects n = some this)
    (liveOther : w.objects rhs = some other) :
    ∃ w', SharedLocks.swap w n rhs = some w' ∧ Accounts w' := by
  refine ⟨(w.put n other).put rhs this, ?_, ?_⟩
  · simp only [SharedLocks.swap, live, liveOther, Option.bind_eq_bind, Option.bind_some,
      Option.pure_def]
  · have same : ∀ m, World.owners ((w.put n other).put rhs this) m = w.owners m := by
      intro m
      rw [World.owners, World.owners, ← population_swap (ownsOf m) w.objects n rhs, live, liveOther]
      rfl
    refine ⟨fun m => ?_, fun m => ?_, fun n' l found owns => ?_⟩
    · rw [same m]
      exact accounts.account m
    · rw [same m]
      exact accounts.sharing m
    · by_cases isRhs : n' = rhs
      · rw [isRhs, put_self] at found
        cases found
        exact accounts.owning n this live owns
      · rw [put_of_ne isRhs] at found
        by_cases isThis : n' = n
        · rw [isThis, put_self] at found
          cases found
          exact accounts.owning rhs other liveOther owns
        · rw [put_of_ne isThis] at found
          exact accounts.owning n' l found owns

/-! ### Locking -/

theorem lock (accounts : Accounts w) (unlocked : w.objects n = some { mtx := some m, owns := false }) :
    ∃ w', SharedLocks.lock w n = some w' ∧ Accounts w' := by
  refine ⟨(lockShared w m).put n { mtx := some m, owns := true }, ?_, ?_⟩
  · simp only [SharedLocks.lock, unlocked, Option.bind_eq_bind, Option.bind_some, Option.pure_def]
  · exact accounts.putAttempt (fun m => by rw [unlocked]; rfl) m true

theorem tryLock (accounts : Accounts w)
    (unlocked : w.objects n = some { mtx := some m, owns := false }) (got : Bool) :
    ∃ w', SharedLocks.tryLock w n got = some w' ∧ Accounts w' := by
  refine ⟨(tryLockShared w m got).put n { mtx := some m, owns := got }, ?_, ?_⟩
  · simp only [SharedLocks.tryLock, unlocked, Option.bind_eq_bind, Option.bind_some,
      Option.pure_def]
  · exact accounts.putAttempt (fun m => by rw [unlocked]; rfl) m got

/-- An owning object that unlocks, and what becomes of it then. -/
theorem giveBack (accounts : Accounts w) (live : w.objects n = some { mtx := some m, owns := true })
    (now : Option (SharedLock M)) (unowned : ∀ l, now = some l → l.owns = false) :
    ∃ w', unlockShared w m = some w' ∧
      Accounts { w' with objects := Function.update w'.objects n now } := by
  have positive := accounts.shared_pos live
  refine ⟨_, if_neg (Nat.pos_iff_ne_zero.mp positive), ?_⟩
  have nothing := ownsOf_unowned unowned
  refine accounts.change rfl (fun l same owns => ?_) (fun m' => ?_) fun m' => ?_
  · rw [unowned l same] at owns
    cases owns
  · rw [live, nothing m', ownsOf_some]
    change _ + _ + _ + _ + _ = _ + _ + bump w.returned m m' + _ + _
    rw [bump_apply]
    simp only [if_true, Bool.toNat_false]
    omega
  · rw [live, nothing m', ownsOf_some]
    have dropped := drop_apply positive m'
    simp only [if_true, Bool.toNat_false]
    omega

theorem unlock (accounts : Accounts w) (live : w.objects n = some { mtx := some m, owns := true }) :
    ∃ w', SharedLocks.unlock w n = some w' ∧ Accounts w' := by
  obtain ⟨w', unlocked, after⟩ := accounts.giveBack live
    (some { mtx := some m, owns := false }) fun l same => by cases same; rfl
  refine ⟨w'.put n { mtx := some m, owns := false }, ?_, after⟩
  simp only [SharedLocks.unlock, live, unlocked, Option.bind_eq_bind, Option.bind_some,
    Option.pure_def]

omit [DecidableEq O] in
theorem exists_owned (accounts : Accounts w) (live : w.objects n = some l) (owns : l.owns = true) :
    ∃ m, w.objects n = some { mtx := some m, owns := true } := by
  obtain ⟨m, hasMutex⟩ := Option.isSome_iff_exists.mp (accounts.owning n l live owns)
  exact ⟨m, by rw [live, ← hasMutex, ← owns]⟩

theorem destroy (accounts : Accounts w) (live : w.objects n = some l) :
    ∃ w', SharedLocks.destroy w n = some w' ∧ Accounts w' := by
  cases owns : l.owns with
  | false =>
      refine ⟨{ w with objects := Function.update w.objects n none }, ?_,
        accounts.replaceUnowned (unowned live owns) nofun⟩
      simp only [SharedLocks.destroy, live, owns, Option.bind_eq_bind, Option.bind_some,
        Bool.false_eq_true, if_false, Option.pure_def]
  | true =>
      obtain ⟨m, owned⟩ := accounts.exists_owned live owns
      obtain ⟨w', unlocked, after⟩ := accounts.giveBack owned none nofun
      refine ⟨{ w' with objects := Function.update w'.objects n none }, ?_, after⟩
      simp only [SharedLocks.destroy, owned, unlocked, Option.bind_eq_bind, Option.bind_some,
        if_true, Option.pure_def]

/-- An ownership that is released goes from the object to a caller. -/
theorem release (accounts : Accounts w) (live : w.objects n = some l) :
    ∃ w', SharedLocks.release w n = some w' ∧ Accounts w' := by
  cases owns : l.owns with
  | false =>
      refine ⟨w.put n { mtx := none, owns := false }, ?_,
        accounts.putUnowned (unowned live owns) rfl⟩
      simp only [SharedLocks.release, live, owns, Option.bind_eq_bind, Option.bind_some,
        Option.pure_def]
  | true =>
      obtain ⟨m, owned⟩ := accounts.exists_owned live owns
      refine ⟨{ w with callers := bump w.callers m, released := bump w.released m }.put n
        { mtx := none, owns := false }, ?_, ?_⟩
      · simp only [SharedLocks.release, owned, Option.bind_eq_bind, Option.bind_some,
          Option.pure_def]
      · refine accounts.change rfl (fun l' same owns => ?_) (fun m' => ?_) fun m' => ?_
        · cases same
          cases owns
        · rw [owned, ownsOf_some]
          change _ + _ + _ + _ + _ = _ + _ + _ + bump w.released m m' + 0
          rw [bump_apply]
          simp only [World.put, if_true]
          omega
        · rw [owned, ownsOf_some]
          change _ + _ + _ = _ + bump w.callers m m' + 0
          rw [bump_apply]
          simp only [World.put, if_true]
          omega

/-! ### The callers' own ownerships -/

omit [DecidableEq O] in
theorem callerLock (accounts : Accounts w) (m : M) : Accounts (callerLock w m) := by
  refine ⟨accounts.account, fun m' => ?_, accounts.owning⟩
  have sharing := accounts.sharing m'
  change bump w.shared m m' = bump w.callers m m' + w.owners m'
  rw [bump_apply, bump_apply]
  omega

omit [DecidableEq O] in
theorem callerUnlock (accounts : Accounts w) (held : 0 < w.callers m) :
    Accounts (callerUnlock w m) := by
  refine ⟨accounts.account, fun m' => ?_, accounts.owning⟩
  have sharing := accounts.sharing m'
  have positive : 0 < w.shared m := by
    have sharing := accounts.sharing m
    omega
  have shared := drop_apply positive m'
  have callers := drop_apply held m'
  change drop w.shared m m' = drop w.callers m m' + w.owners m'
  omega

end Accounts

/-! ## Statements -/

omit [DecidableEq M] in
theorem exists_unlocked {object : Option (SharedLock M)} (unlocked : isUnlocked object = true) :
    ∃ m, object = some { mtx := some m, owns := false } := by
  match object, unlocked with
  | some { mtx := some m, owns := false }, _ => exact ⟨m, rfl⟩

omit [DecidableEq M] in
theorem exists_owning {object : Option (SharedLock M)} (owning : isOwning object = true) :
    ∃ l, object = some l ∧ l.owns = true := by
  match object, owning with
  | some l, owns => exact ⟨l, rfl, owns⟩

omit [Fintype O] [DecidableEq O] in
theorem ownsOf_isNone (absent : (w.objects n).isNone = true) (m : M) :
    ownsOf m (w.objects n) = false := by
  rw [Option.isNone_iff_eq_none.mp absent]
  rfl

/-- A legal statement is defined and keeps the account. -/
theorem Accounts.exec (accounts : Accounts w) (s : Stmt (Option O) M) (legal : s.legal w = true) :
    ∃ w', exec w s = some w' ∧ Accounts w' := by
  cases s with
  | constructDefault n => exact ⟨_, rfl, accounts.putUnowned (ownsOf_isNone legal) rfl⟩
  | constructLocking n m => exact ⟨_, rfl, accounts.putAttempt (ownsOf_isNone legal) m true⟩
  | constructDefer n m => exact ⟨_, rfl, accounts.putUnowned (ownsOf_isNone legal) rfl⟩
  | constructTry n m got | constructFor n m got | constructUntil n m got =>
      exact ⟨_, rfl, accounts.putAttempt (ownsOf_isNone legal) m got⟩
  | constructAdopt n m =>
      obtain ⟨absent, held⟩ := Bool.and_eq_true_iff.mp legal
      exact ⟨_, rfl, accounts.constructAdopt (ownsOf_isNone absent) (of_decide_eq_true held)⟩
  | moveConstruct n rhs =>
      obtain ⟨absent, live⟩ := Bool.and_eq_true_iff.mp legal
      obtain ⟨other, liveOther⟩ := Option.isSome_iff_exists.mp live
      have different : rhs ≠ n := by
        rintro rfl
        rw [liveOther] at absent
        cases absent
      have made : Accounts (constructDefault w n) := accounts.putUnowned (ownsOf_isNone absent) rfl
      exact made.swap (put_self ..) ((put_of_ne different).trans liveOther)
  | destroy n =>
      obtain ⟨l, live⟩ := Option.isSome_iff_exists.mp legal
      exact accounts.destroy live
  | lock n =>
      obtain ⟨m, unlocked⟩ := exists_unlocked legal
      exact accounts.lock unlocked
  | unlock n =>
      obtain ⟨l, live, owns⟩ := exists_owning legal
      obtain ⟨m, owned⟩ := accounts.exists_owned live owns
      exact accounts.unlock owned
  | tryLock n got | tryLockFor n got | tryLockUntil n got =>
      obtain ⟨m, unlocked⟩ := exists_unlocked legal
      exact accounts.tryLock unlocked got
  | swap n rhs =>
      obtain ⟨live, liveOther⟩ := Bool.and_eq_true_iff.mp legal
      obtain ⟨this, isThis⟩ := Option.isSome_iff_exists.mp live
      obtain ⟨other, isOther⟩ := Option.isSome_iff_exists.mp liveOther
      exact accounts.swap isThis isOther
  | release n =>
      obtain ⟨l, live⟩ := Option.isSome_iff_exists.mp legal
      exact accounts.release live
  | callerLock m => exact ⟨_, rfl, accounts.callerLock m⟩
  | callerUnlock m => exact ⟨_, rfl, accounts.callerUnlock (of_decide_eq_true legal)⟩

/-! ## Which objects live -/

section Live

omit [Fintype O]

omit [DecidableEq M] in
theorem isSome_put {n' : Option O} (live : (w.objects n).isSome = true) :
    ((w.put n l).objects n').isSome = (w.objects n').isSome := by
  by_cases same : n' = n
  · rw [same, put_self, live]
    rfl
  · rw [put_of_ne same]

omit [DecidableEq O] in
theorem tryLockShared_objects (got : Bool) : (tryLockShared w m got).objects = w.objects := by
  cases got <;> rfl

omit [DecidableEq O] in
theorem unlockShared_objects (unlocked : unlockShared w m = some w') : w'.objects = w.objects := by
  obtain ⟨_, rest⟩ := Option.ite_none_left_eq_some.mp unlocked
  cases rest
  rfl

omit [DecidableEq M] in
theorem swap_isSome (swapped : swap w n rhs = some w') (n' : Option O) :
    (w'.objects n').isSome = (w.objects n').isSome := by
  simp only [swap, Option.bind_eq_bind, Option.bind_eq_some_iff, Option.pure_def,
    Option.some.injEq] at swapped
  obtain ⟨this, live, other, liveOther, rfl⟩ := swapped
  have first : ∀ n', ((w.put n other).objects n').isSome = (w.objects n').isSome :=
    fun n' => isSome_put (by rw [live]; rfl)
  rw [isSome_put, first]
  rw [first, liveOther]
  rfl

theorem tryLock_isSome {got : Bool} (attempted : tryLock w n got = some w') (n' : Option O) :
    (w'.objects n').isSome = (w.objects n').isSome := by
  simp only [tryLock, Option.bind_eq_bind, Option.bind_eq_some_iff, Option.pure_def,
    Option.some.injEq] at attempted
  obtain ⟨this, live, m, _, rfl⟩ := attempted
  rw [isSome_put] <;> rw [tryLockShared_objects]
  rw [live]
  rfl

theorem lock_isSome (locked : lock w n = some w') (n' : Option O) :
    (w'.objects n').isSome = (w.objects n').isSome := by
  simp only [lock, Option.bind_eq_bind, Option.bind_eq_some_iff, Option.pure_def,
    Option.some.injEq] at locked
  obtain ⟨this, live, m, _, rfl⟩ := locked
  exact isSome_put (w := lockShared w m) (Option.isSome_of_eq_some live)

theorem unlock_isSome (unlocked : unlock w n = some w') (n' : Option O) :
    (w'.objects n').isSome = (w.objects n').isSome := by
  simp only [unlock, Option.bind_eq_bind, Option.bind_eq_some_iff, Option.pure_def,
    Option.some.injEq] at unlocked
  obtain ⟨this, live, m, _, middle, given, rfl⟩ := unlocked
  have objects := unlockShared_objects given
  rw [isSome_put] <;> rw [objects]
  exact Option.isSome_of_eq_some live

theorem release_isSome (released : release w n = some w') (n' : Option O) :
    (w'.objects n').isSome = (w.objects n').isSome := by
  simp only [release, Option.bind_eq_bind, Option.bind_eq_some_iff, Option.pure_def,
    Option.some.injEq] at released
  obtain ⟨this, live, rfl⟩ := released
  have live := Option.isSome_of_eq_some live
  split
  · exact isSome_put (w := { w with callers := _, released := _ }) live
  · exact isSome_put live

theorem destroy_objects (destroyed : destroy w n = some w') :
    w'.objects = Function.update w.objects n none := by
  obtain ⟨this, _, rest⟩ := Option.bind_eq_some_iff.mp destroyed
  split at rest
  · obtain ⟨middle, given, ended⟩ := Option.bind_eq_some_iff.mp rest
    obtain ⟨m, _, unlocked⟩ := Option.bind_eq_some_iff.mp given
    cases ended
    exact congrArg (Function.update · n none) (unlockShared_objects unlocked)
  · cases rest
    rfl

/-- A statement makes and ends the objects it says, and no others. -/
theorem exec_isSome {s : Stmt (Option O) M} (executed : exec w s = some w') {n' : Option O}
    (notMade : s.makes ≠ some n') (notEnded : s.ends ≠ some n') :
    (w'.objects n').isSome = (w.objects n').isSome := by
  have other : ∀ n, s.makes = some n → n' ≠ n := fun n makes same => notMade (same ▸ makes)
  cases s with
  | constructDefault n | constructLocking n m | constructDefer n m | constructAdopt n m =>
      cases executed
      exact congrArg Option.isSome (put_of_ne (other n rfl))
  | constructTry n m got | constructFor n m got | constructUntil n m got =>
      cases executed
      refine congrArg Option.isSome ((put_of_ne (other n rfl)).trans ?_)
      rw [tryLockShared_objects]
  | moveConstruct n rhs =>
      exact (swap_isSome executed n').trans (congrArg Option.isSome (put_of_ne (other n rfl)))
  | destroy n =>
      have different : n' ≠ n := fun same => notEnded (same ▸ rfl)
      rw [destroy_objects executed, Function.update_of_ne different]
  | lock n => exact lock_isSome executed n'
  | unlock n => exact unlock_isSome executed n'
  | tryLock n got | tryLockFor n got | tryLockUntil n got => exact tryLock_isSome executed n'
  | swap n rhs => exact swap_isSome executed n'
  | release n => exact release_isSome executed n'
  | callerLock m | callerUnlock m =>
      cases executed
      rfl

omit [DecidableEq M] in
theorem moveConstruct_isSome (made : moveConstruct w n rhs = some w') :
    (w'.objects n).isSome = true := by
  rw [swap_isSome made, constructDefault, put_self]
  rfl

/-! ## Runs -/

/-- What the world is like before the statements left of an operation. -/
inductive Ready (w : World O M) : List (Stmt (Option O) M) → Prop
  | rest (noTemporary : (w.objects none).isSome = false) : Ready w []
  | single (s : Stmt O M) (noTemporary : (w.objects none).isSome = false)
      (legal : (s.rename some).legal w = true) : Ready w [s.rename some]
  | assign (this rhs : O) (noTemporary : (w.objects none).isSome = false)
      (live : (w.objects (some this)).isSome = true)
      (liveOther : (w.objects (some rhs)).isSome = true) :
      Ready w [.moveConstruct none (some rhs), .swap none (some this), .destroy none]
  | swap (this : O) (temporary : (w.objects none).isSome = true)
      (live : (w.objects (some this)).isSome = true) :
      Ready w [.swap none (some this), .destroy none]
  | destroy (temporary : (w.objects none).isSome = true) : Ready w [.destroy none]

omit [DecidableEq O] [DecidableEq M] in
theorem rename_makes (s : Stmt O M) : (s.rename some).makes ≠ some none := by
  cases s <;> simp [Stmt.rename, Stmt.makes]

omit [DecidableEq O] [DecidableEq M] in
theorem rename_ends (s : Stmt O M) : (s.rename some).ends ≠ some none := by
  cases s <;> simp [Stmt.rename, Stmt.ends]

namespace Ready

variable {stmt : Stmt (Option O) M} {rest : List (Stmt (Option O) M)}

omit [DecidableEq O] [DecidableEq M] in
/-- The next statement is legal. -/
theorem legal (ready : Ready w (stmt :: rest)) : stmt.legal w = true := by
  cases ready with
  | single s _ legal => exact legal
  | assign this rhs noTemporary live liveOther =>
      simp [Stmt.legal, liveOther, Option.isSome_eq_false_iff.mp noTemporary]
  | swap this temporary live => simp [Stmt.legal, temporary, live]
  | destroy temporary => exact temporary

/-- The statements after it are ready when it has been executed. -/
theorem next (ready : Ready w (stmt :: rest)) (executed : exec w stmt = some w') :
    Ready w' rest := by
  cases ready with
  | single s noTemporary _ =>
      refine .rest ?_
      rw [exec_isSome executed (rename_makes s) (rename_ends s), noTemporary]
  | assign this rhs noTemporary live liveOther =>
      refine .swap this (moveConstruct_isSome executed) ?_
      rw [exec_isSome executed (by simp [Stmt.makes]) (by simp [Stmt.ends]), live]
  | swap this temporary live =>
      refine .destroy ?_
      rw [exec_isSome executed (by simp [Stmt.makes]) (by simp [Stmt.ends]), temporary]
  | destroy temporary =>
      refine .rest ?_
      rw [destroy_objects executed, Function.update_self]
      rfl

omit [DecidableEq O] [DecidableEq M] in
theorem call {op : Op O M} (ready : Ready w []) (legal : op.legal w = true) :
    Ready w op.body := by
  cases ready with
  | rest noTemporary =>
      cases op with
      | stmt s => exact .single s noTemporary legal
      | moveAssign this rhs =>
          obtain ⟨live, liveOther⟩ := Bool.and_eq_true_iff.mp legal
          exact .assign this rhs noTemporary live liveOther

end Ready

end Live

theorem accounts_of_reachable {s : System O M} (reachable : (machine O M).Reachable s) :
    Accounts s.world ∧ Ready s.world s.todo := by
  refine reachable.invariant (motive := fun s => Accounts s.world ∧ Ready s.world s.todo) ?_ ?_
  · have nobody : ∀ m, (machine O M).initial.world.owners m = 0 := fun m =>
      population_eq_zero.mpr fun _ => rfl
    refine ⟨⟨fun m => ?_, fun m => ?_, fun _ _ live => by cases live⟩, .rest rfl⟩
    · rw [nobody m]
      rfl
    · rw [nobody m]
      rfl
  · intro s label s' _ holds _ stepEq
    obtain ⟨accounts, ready⟩ := holds
    cases label with
    | call op =>
        obtain ⟨both, rest⟩ := Option.ite_none_right_eq_some.mp stepEq
        obtain ⟨idle, legal⟩ := Bool.and_eq_true_iff.mp both
        cases rest
        rw [List.isEmpty_iff.mp idle] at ready
        exact ⟨accounts, ready.call legal⟩
    | go =>
        obtain ⟨world, todo⟩ := s
        cases todo with
        | nil => cases stepEq
        | cons stmt rest =>
            obtain ⟨w', executed, moved⟩ := Option.map_eq_some_iff.mp stepEq
            cases moved
            obtain ⟨w'', alsoExecuted, after⟩ := accounts.exec stmt ready.legal
            rw [executed] at alsoExecuted
            cases alsoExecuted
            exact ⟨after, ready.next executed⟩

/-- At every point of every run each mutex has as many shared ownerships through
`SharedLock` objects as there are objects that own it, beside those of the
callers; every operation that is under way can go on, so no mutex is unlocked
without an ownership; and once all objects are gone, what they acquired and
adopted has been returned or released, each ownership once. -/
theorem shared_lock_accounts {s : System O M} (reachable : (machine O M).Reachable s) :
    (∀ m, s.world.acquired m + s.world.adopted m =
        s.world.returned m + s.world.released m + s.world.owners m) ∧
      (∀ m, s.world.shared m = s.world.callers m + s.world.owners m) ∧
      (s.todo ≠ [] → ∃ s', step s .go = some s') ∧
      ((∀ n, s.world.objects n = none) → ∀ m,
        s.world.acquired m + s.world.adopted m = s.world.returned m + s.world.released m ∧
          s.world.shared m = s.world.callers m) := by
  obtain ⟨accounts, ready⟩ := accounts_of_reachable reachable
  refine ⟨accounts.account, accounts.sharing, fun busy => ?_, fun gone m => ?_⟩
  · obtain ⟨world, todo⟩ := s
    cases todo with
    | nil => exact absurd rfl busy
    | cons stmt rest =>
        obtain ⟨w', executed, _⟩ := accounts.exec stmt ready.legal
        refine ⟨{ world := w', todo := rest }, ?_⟩
        exact congrArg (Option.map fun w => System.mk w rest) executed
  · have nobody : s.world.owners m = 0 := population_eq_zero.mpr fun n => by rw [gone n]; rfl
    have account := accounts.account m
    have sharing := accounts.sharing m
    rw [nobody] at account sharing
    exact ⟨account, sharing⟩

/-- Two objects of which one is assigned to the other, both owning before. -/
def assignCalls : List (Label (Fin 2) (Fin 2)) :=
  [.call (.stmt (.constructLocking 0 0)), .go, .call (.stmt (.constructLocking 1 1)), .go,
    .call (.moveAssign 0 1), .go, .go]

/-- In the middle of the assignment the temporary owns the mutex that is given
up, and the statement that is left returns it. -/
theorem shared_lock_accounts_assigning :
    ∃ s, (machine (Fin 2) (Fin 2)).Reachable s ∧
      s.world.objects none = some { mtx := some 0, owns := true } ∧
      (∀ m, s.world.shared m = s.world.callers m + s.world.owners m) ∧
      ∃ s', step s .go = some s' := by
  have run : ((machine (Fin 2) (Fin 2)).exec (initial (Fin 2) (Fin 2)) assignCalls).map
      (fun s => (s.world.objects none, s.todo.isEmpty)) =
        some (some { mtx := some 0, owns := true }, false) := by
    decide
  obtain ⟨s, runs, observed⟩ := Option.map_eq_some_iff.mp run
  obtain ⟨temporary, busy⟩ := Prod.mk.inj observed
  have reached := Machine.reachable_of_exec runs
  obtain ⟨_, sharing, goesOn, _⟩ := shared_lock_accounts reached
  refine ⟨s, reached, temporary, sharing, goesOn fun idle => ?_⟩
  rw [idle] at busy
  cases busy

end Conc11.SharedLocks
