/-
Module: Conc11.SharedLocks.Model
Purpose: `SharedLock` of concurrency/shared_mutex.h: any number of objects over any number of mutexes, with an
  account of every shared ownership that passes through the objects.
Trusted boundary: human-reviewed model.  Of the template parameter `Mutex` only the number of shared
  ownerships is modelled, and whether an attempt succeeds is the mutex's choice.
Main exports: SharedLock, World, lock, tryLock, unlock, swap, moveConstruct, destroy, release, Stmt, exec, Op,
  Op.body, System, Label, step, machine
-/
import Mathlib.Logic.Function.Basic
import Conc11.Library.Machine
import Conc11.Library.Threads

namespace Conc11.SharedLocks

open Library

/-- The data members. -/
structure SharedLock (M : Type) where
  mtx : Option M
  owns : Bool
deriving DecidableEq, Repr

/-- The live objects, where `none` names the temporary of the move assignment;
for each mutex the number of its shared ownerships and of those that callers
hold without a `SharedLock`; and the account: what the objects have acquired
and adopted, and what they have returned to the mutex or released to a caller. -/
structure World (O M : Type) where
  objects : Option O → Option (SharedLock M)
  shared : M → Nat
  callers : M → Nat
  acquired : M → Nat
  adopted : M → Nat
  returned : M → Nat
  released : M → Nat

section Calls

variable {O M : Type} [DecidableEq O] [DecidableEq M]

def bump (count : M → Nat) (m : M) : M → Nat := Function.update count m (count m + 1)

def drop (count : M → Nat) (m : M) : M → Nat := Function.update count m (count m - 1)

variable (w : World O M) (n rhs : Option O) (m : M)

/-! ## Calls of the mutex -/

/-- `lock_shared`. -/
def lockShared : World O M :=
  { w with shared := bump w.shared m, acquired := bump w.acquired m }

/-- `try_lock_shared`, `try_lock_shared_for` and `try_lock_shared_until`; `got`
is what they return. -/
def tryLockShared (got : Bool) : World O M := if got then lockShared w m else w

/-- `unlock_shared`, which is undefined without a shared ownership. -/
def unlockShared : Option (World O M) :=
  if w.shared m = 0 then none
  else some { w with shared := drop w.shared m, returned := bump w.returned m }

/-! ## Constructors, destructor and assignment -/

def World.put (l : SharedLock M) : World O M :=
  { w with objects := Function.update w.objects n (some l) }

/-- `SharedLock()`. -/
def constructDefault : World O M := w.put n { mtx := none, owns := false }

/-- `SharedLock(mutex)`. -/
def constructLocking : World O M := (lockShared w m).put n { mtx := some m, owns := true }

/-- `SharedLock(mutex, std::defer_lock)`. -/
def constructDefer : World O M := w.put n { mtx := some m, owns := false }

/-- `SharedLock(mutex, std::try_to_lock)`. -/
def constructTry (got : Bool) : World O M :=
  (tryLockShared w m got).put n { mtx := some m, owns := got }

/-- `SharedLock(mutex, std::adopt_lock)`: a caller's ownership becomes the object's. -/
def constructAdopt : World O M :=
  { w with callers := drop w.callers m, adopted := bump w.adopted m }.put n
    { mtx := some m, owns := true }

/-- `SharedLock(mutex, timeout_duration)`. -/
def constructFor (got : Bool) : World O M :=
  (tryLockShared w m got).put n { mtx := some m, owns := got }

/-- `SharedLock(mutex, timeout_time)`. -/
def constructUntil (got : Bool) : World O M :=
  (tryLockShared w m got).put n { mtx := some m, owns := got }

/-- `swap`: both members, also of an object with itself. -/
def swap : Option (World O M) := do
  let this ← w.objects n
  let other ← w.objects rhs
  return (w.put n other).put rhs this

/-- `SharedLock(SharedLock&& rhs)`. -/
def moveConstruct : Option (World O M) := swap (constructDefault w n) n rhs

/-- `~SharedLock`. -/
def destroy : Option (World O M) := do
  let this ← w.objects n
  let w ← if this.owns then this.mtx.bind fun m => unlockShared w m else some w
  return { w with objects := Function.update w.objects n none }

/-! ## Locking -/

/-- `lock`.  A null `mtx` is dereferenced. -/
def lock : Option (World O M) := do
  let this ← w.objects n
  let m ← this.mtx
  return (lockShared w m).put n { this with owns := true }

/-- `unlock`. -/
def unlock : Option (World O M) := do
  let this ← w.objects n
  let m ← this.mtx
  let w ← unlockShared w m
  return w.put n { this with owns := false }

/-- `try_lock`. -/
def tryLock (got : Bool) : Option (World O M) := do
  let this ← w.objects n
  let m ← this.mtx
  return (tryLockShared w m got).put n { this with owns := got }

/-- `try_lock_for`. -/
def tryLockFor (got : Bool) : Option (World O M) := tryLock w n got

/-- `try_lock_until`. -/
def tryLockUntil (got : Bool) : Option (World O M) := tryLock w n got

/-- `release`: an ownership stays with the caller, who gets the mutex back. -/
def release : Option (World O M) := do
  let this ← w.objects n
  let w := match this.owns, this.mtx with
    | true, some m => { w with callers := bump w.callers m, released := bump w.released m }
    | _, _ => w
  return w.put n { mtx := none, owns := false }

/-! ## The callers' own ownerships -/

def callerLock : World O M := { w with shared := bump w.shared m, callers := bump w.callers m }

def callerUnlock : World O M := { w with shared := drop w.shared m, callers := drop w.callers m }

end Calls

/-! ## Statements -/

/-- What can be done with objects of names `N`. -/
inductive Stmt (N M : Type) where
  | constructDefault (n : N)
  | constructLocking (n : N) (m : M)
  | constructDefer (n : N) (m : M)
  | constructTry (n : N) (m : M) (got : Bool)
  | constructAdopt (n : N) (m : M)
  | constructFor (n : N) (m : M) (got : Bool)
  | constructUntil (n : N) (m : M) (got : Bool)
  | moveConstruct (n rhs : N)
  | destroy (n : N)
  | lock (n : N)
  | unlock (n : N)
  | tryLock (n : N) (got : Bool)
  | tryLockFor (n : N) (got : Bool)
  | tryLockUntil (n : N) (got : Bool)
  | swap (n rhs : N)
  | release (n : N)
  | callerLock (m : M)
  | callerUnlock (m : M)

namespace Stmt

variable {N N' M : Type}

/-- The same statement for other names. -/
def rename (f : N → N') : Stmt N M → Stmt N' M
  | .constructDefault n => .constructDefault (f n)
  | .constructLocking n m => .constructLocking (f n) m
  | .constructDefer n m => .constructDefer (f n) m
  | .constructTry n m got => .constructTry (f n) m got
  | .constructAdopt n m => .constructAdopt (f n) m
  | .constructFor n m got => .constructFor (f n) m got
  | .constructUntil n m got => .constructUntil (f n) m got
  | .moveConstruct n rhs => .moveConstruct (f n) (f rhs)
  | .destroy n => .destroy (f n)
  | .lock n => .lock (f n)
  | .unlock n => .unlock (f n)
  | .tryLock n got => .tryLock (f n) got
  | .tryLockFor n got => .tryLockFor (f n) got
  | .tryLockUntil n got => .tryLockUntil (f n) got
  | .swap n rhs => .swap (f n) (f rhs)
  | .release n => .release (f n)
  | .callerLock m => .callerLock m
  | .callerUnlock m => .callerUnlock m

/-- The object that a statement makes. -/
def makes : Stmt N M → Option N
  | .constructDefault n | .constructLocking n _ | .constructDefer n _ | .constructTry n _ _
  | .constructAdopt n _ | .constructFor n _ _ | .constructUntil n _ _ | .moveConstruct n _ => some n
  | _ => none

/-- The object that a statement ends. -/
def ends : Stmt N M → Option N
  | .destroy n => some n
  | _ => none

end Stmt

section Machine

variable {O M : Type} [DecidableEq O] [DecidableEq M]

def exec (w : World O M) : Stmt (Option O) M → Option (World O M)
  | .constructDefault n => some (constructDefault w n)
  | .constructLocking n m => some (constructLocking w n m)
  | .constructDefer n m => some (constructDefer w n m)
  | .constructTry n m got => some (constructTry w n m got)
  | .constructAdopt n m => some (constructAdopt w n m)
  | .constructFor n m got => some (constructFor w n m got)
  | .constructUntil n m got => some (constructUntil w n m got)
  | .moveConstruct n rhs => moveConstruct w n rhs
  | .destroy n => destroy w n
  | .lock n => lock w n
  | .unlock n => unlock w n
  | .tryLock n got => tryLock w n got
  | .tryLockFor n got => tryLockFor w n got
  | .tryLockUntil n got => tryLockUntil w n got
  | .swap n rhs => swap w n rhs
  | .release n => release w n
  | .callerLock m => some (callerLock w m)
  | .callerUnlock m => some (callerUnlock w m)

/-- There is a mutex and no ownership. -/
def isUnlocked : Option (SharedLock M) → Bool
  | some l => l.mtx.isSome && !l.owns
  | none => false

def isOwning : Option (SharedLock M) → Bool
  | some l => l.owns
  | none => false

/-- The use that the interface allows: objects are made once and used while
they live, `lock` and the attempts need a mutex that is not owned, `unlock`
needs ownership, and callers adopt and unlock what they hold themselves. -/
def Stmt.legal (w : World O M) : Stmt (Option O) M → Bool
  | .constructDefault n | .constructLocking n _ | .constructDefer n _ | .constructTry n _ _
  | .constructFor n _ _ | .constructUntil n _ _ => (w.objects n).isNone
  | .constructAdopt n m => (w.objects n).isNone && decide (0 < w.callers m)
  | .moveConstruct n rhs => (w.objects n).isNone && (w.objects rhs).isSome
  | .destroy n | .release n => (w.objects n).isSome
  | .lock n | .tryLock n _ | .tryLockFor n _ | .tryLockUntil n _ => isUnlocked (w.objects n)
  | .unlock n => isOwning (w.objects n)
  | .swap n rhs => (w.objects n).isSome && (w.objects rhs).isSome
  | .callerLock _ => true
  | .callerUnlock m => decide (0 < w.callers m)

/-- The operations of the callers. -/
inductive Op (O M : Type) where
  | stmt (s : Stmt O M)
  | moveAssign (this rhs : O)

/-- `operator=` makes a temporary from `rhs`, swaps it with `*this` and ends it. -/
def Op.body : Op O M → List (Stmt (Option O) M)
  | .stmt s => [s.rename some]
  | .moveAssign this rhs =>
      [.moveConstruct none (some rhs), .swap none (some this), .destroy none]

def Op.legal (w : World O M) : Op O M → Bool
  | .stmt s => (s.rename some).legal w
  | .moveAssign this rhs => (w.objects (some this)).isSome && (w.objects (some rhs)).isSome

/-- The world and the statements left of the current operation. -/
structure System (O M : Type) where
  world : World O M
  todo : List (Stmt (Option O) M)

/-- The next operation is called, or the current one goes on. -/
inductive Label (O M : Type) where
  | call (op : Op O M)
  | go

def step (s : System O M) : Label O M → Option (System O M)
  | .call op =>
      if s.todo.isEmpty && op.legal s.world then some { s with todo := op.body } else none
  | .go =>
      match s.todo with
      | [] => none
      | stmt :: rest => (exec s.world stmt).map fun w => { world := w, todo := rest }

/-- No objects, and nobody holds a mutex. -/
def initial (O M : Type) : System O M :=
  { world :=
      { objects := fun _ => none
        shared := fun _ => 0
        callers := fun _ => 0
        acquired := fun _ => 0
        adopted := fun _ => 0
        returned := fun _ => 0
        released := fun _ => 0 }
    todo := [] }

/-- Any sequence of legal operations, one statement at a time. -/
def machine (O M : Type) [DecidableEq O] [DecidableEq M] :
    Machine (System O M) (Label O M) :=
  { initial := initial O M, step := step }

end Machine

end Conc11.SharedLocks
