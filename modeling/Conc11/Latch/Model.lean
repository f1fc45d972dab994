/-
Module: Conc11.Latch.Model
Purpose: `Latch` of concurrency/latch.h as a machine of any number of calls.  One step is one access to
  `value`, one operation on `mtx`, one notification, or the moment at which a wait drops `mtx` and blocks.
Trusted boundary: human-reviewed model; accesses to `value` are taken to be sequentially consistent
Main exports: isReady, CallPc, System, fetchSub, proceed, Action, step, Transition, transition_of_step, machine
-/
import Mathlib.Algebra.BigOperators.Group.List.Basic
import Conc11.Library.Machine
import Conc11.Library.Threads

namespace Conc11.Latch

open Library

/-- `std::ptrdiff_t`. -/
abbrev PtrDiff := BitVec 64

/-- Calls of `count_down`, `wait` and `count_down_and_wait` are told apart by a
number. -/
abbrev CallId := Nat

/-- The test of `is_ready`, which `wait` and `count_down_and_wait` make in place. -/
def isReady (value : PtrDiff) : Bool := value.sle 0#64

/-- `0 < v && v <= n`: the call brings the value to zero or below. -/
def crosses (v n : PtrDiff) : Bool := (0#64).slt v && v.sle n

/-- Where a call stands.  `thenWait` tells the `count_down` inside
`count_down_and_wait` from one on its own.

* `loaded`: `count_down_and_wait` has read a positive value.
* `crossing`, `syncing`, `notifying`: in `count_down` before the lock, with the
  lock, and before `notify_all`.
* `entering`, `locking`: in `wait` before the first load and before the lock.
* `testing`, `evaluating`, `blocking`: with the lock before the second load,
  before a load of the predicate, and before the wait itself.
* `leaving`: with the lock, behind a load that found the latch open.
* `counted` and `returned`: a `count_down`, and one of the other two, is over. -/
inductive CallPc where
  | idle
  | loaded
  | crossing (thenWait : Bool)
  | syncing (thenWait : Bool)
  | notifying (thenWait : Bool)
  | counted
  | entering
  | locking
  | testing
  | evaluating
  | blocking
  | waiting (status : WaitStatus)
  | leaving
  | returned
deriving DecidableEq, Repr

namespace CallPc

/-- Where a call goes on behind `count_down`. -/
def afterCountDown (thenWait : Bool) : CallPc := if thenWait then .entering else .counted

def holdsMutex : CallPc → Bool
  | .syncing _ | .testing | .evaluating | .blocking | .leaving => true
  | _ => false

/-- The call has not taken the lock that orders its notification. -/
def isCrossing : CallPc → Bool
  | .crossing _ => true
  | _ => false

/-- The call is between its `fetch_sub`, which crossed zero, and its `notify_all`. -/
def isPending : CallPc → Bool
  | .crossing _ | .syncing _ | .notifying _ => true
  | _ => false

def isBlocking : CallPc → Bool
  | .blocking => true
  | _ => false

/-- The call is blocked on `cv` and no notification has reached it. -/
def isBlocked : CallPc → Bool
  | .waiting .blocked => true
  | _ => false

/-- The call has found the latch open. -/
def hasSeenOpen : CallPc → Bool
  | .leaving | .returned => true
  | _ => false

/-- The effect of `notify_all` on a call. -/
def notified : CallPc → CallPc
  | .waiting .blocked => .waiting .notified
  | pc => pc

end CallPc

/-- The members, the calls and their history: `holder` is the call that holds
`mtx`, `downs` are the decrements so far with their calls, and `crossed` the
calls whose decrement crossed zero. -/
structure System where
  value : PtrDiff
  holder : Option CallId
  pc : CallId → CallPc
  downs : List (CallId × Int)
  crossed : List CallId

/-- The total counted down. -/
def System.total (s : System) : Int := (s.downs.map Prod.snd).sum

section Steps

variable (s : System) (c : CallId)

/-- Call `c` moves and nothing else changes. -/
def System.goto (pc : CallPc) : System :=
  { s with pc := Function.update s.pc c pc }

/-- Call `c` takes `mtx` and moves. -/
def System.lock (pc : CallPc) : System :=
  { s with holder := some c, pc := Function.update s.pc c pc }

/-- Call `c` drops `mtx` and moves. -/
def System.unlock (pc : CallPc) : System :=
  { s with holder := none, pc := Function.update s.pc c pc }

/-- `value.fetch_sub(n)` in `count_down`, with the test of its result. -/
def fetchSub (n : PtrDiff) (thenWait : Bool) : System :=
  { s with
    value := s.value - n
    pc := Function.update s.pc c
      (if crosses s.value n then .crossing thenWait else .afterCountDown thenWait)
    downs := s.downs ++ [(c, n.toInt)]
    crossed := if crosses s.value n then s.crossed ++ [c] else s.crossed }

/-- `cv.notify_all()`, the end of `count_down`. -/
def notifyAll (thenWait : Bool) : System :=
  { s with
    pc := Function.update (fun d => (s.pc d).notified) c (.afterCountDown thenWait) }

/-- A load of `value` that goes to `ready` if the latch is open. -/
def load (ready notReady : CallPc) : System :=
  s.goto c (if isReady s.value then ready else notReady)

/-- The next step of a call that has begun. -/
def proceed : Option System :=
  match s.pc c with
  | .loaded => some (fetchSub s c 1#64 true)
  | .crossing thenWait => if s.holder = none then some (s.lock c (.syncing thenWait)) else none
  | .syncing thenWait => some (s.unlock c (.notifying thenWait))
  | .notifying thenWait => some (notifyAll s c thenWait)
  | .entering => some (load s c .returned .locking)
  | .locking => if s.holder = none then some (s.lock c .testing) else none
  | .testing => some (load s c .leaving .evaluating)
  | .evaluating => some (load s c .leaving .blocking)
  | .blocking => some (s.unlock c (.waiting .blocked))
  | .waiting .notified | .waiting .awake =>
      if s.holder = none then some (s.lock c .evaluating) else none
  | .leaving => some (s.unlock c .returned)
  | .idle | .counted | .waiting .blocked | .returned => none

end Steps

/-- The labels: the first step of each operation, any further step of a call,
and a wait that is left without a notification. -/
inductive Action where
  | countDown (c : CallId) (n : PtrDiff)
  | wait (c : CallId)
  | countDownAndWait (c : CallId)
  | proceed (c : CallId)
  | unblock (c : CallId)
deriving DecidableEq, Repr

def step (s : System) : Action → Option System
  | .countDown c n => if s.pc c = .idle then some (fetchSub s c n false) else none
  | .wait c => if s.pc c = .idle then some (load s c .returned .locking) else none
  | .countDownAndWait c => if s.pc c = .idle then some (load s c .returned .loaded) else none
  | .proceed c => proceed s c
  | .unblock c =>
      if s.pc c = .waiting .blocked then some (s.goto c (.waiting .awake)) else none

/-- The inversion of `step`. -/
inductive Transition (s : System) : Action → System → Prop where
  | countDown (c : CallId) (n : PtrDiff) (idle : s.pc c = .idle) :
      Transition s (.countDown c n) (fetchSub s c n false)
  | wait (c : CallId) (idle : s.pc c = .idle) :
      Transition s (.wait c) (load s c .returned .locking)
  | countDownAndWait (c : CallId) (idle : s.pc c = .idle) :
      Transition s (.countDownAndWait c) (load s c .returned .loaded)
  | countOne (c : CallId) (here : s.pc c = .loaded) :
      Transition s (.proceed c) (fetchSub s c 1#64 true)
  | sync (c : CallId) (thenWait : Bool) (here : s.pc c = .crossing thenWait)
      (free : s.holder = none) : Transition s (.proceed c) (s.lock c (.syncing thenWait))
  | unsync (c : CallId) (thenWait : Bool) (here : s.pc c = .syncing thenWait) :
      Transition s (.proceed c) (s.unlock c (.notifying thenWait))
  | notifyAll (c : CallId) (thenWait : Bool) (here : s.pc c = .notifying thenWait) :
      Transition s (.proceed c) (notifyAll s c thenWait)
  | enter (c : CallId) (here : s.pc c = .entering) :
      Transition s (.proceed c) (load s c .returned .locking)
  | lock (c : CallId) (here : s.pc c = .locking) (free : s.holder = none) :
      Transition s (.proceed c) (s.lock c .testing)
  | test (c : CallId) (here : s.pc c = .testing) :
      Transition s (.proceed c) (load s c .leaving .evaluating)
  | evaluate (c : CallId) (here : s.pc c = .evaluating) :
      Transition s (.proceed c) (load s c .leaving .blocking)
  | block (c : CallId) (here : s.pc c = .blocking) :
      Transition s (.proceed c) (s.unlock c (.waiting .blocked))
  | relock (c : CallId) (status : WaitStatus) (here : s.pc c = .waiting status)
      (unblocked : status ≠ .blocked) (free : s.holder = none) :
      Transition s (.proceed c) (s.lock c .evaluating)
  | leave (c : CallId) (here : s.pc c = .leaving) :
      Transition s (.proceed c) (s.unlock c .returned)
  | unblock (c : CallId) (here : s.pc c = .waiting .blocked) :
      Transition s (.unblock c) (s.goto c (.waiting .awake))

theorem transition_of_step {s s' : System} {a : Action} (stepEq : step s a = some s') :
    Transition s a s' := by
  cases a with
  | countDown c n =>
      obtain ⟨idle, rest⟩ := Option.ite_none_right_eq_some.mp stepEq
      cases rest
      exact .countDown c n idle
  | wait c =>
      obtain ⟨idle, rest⟩ := Option.ite_none_right_eq_some.mp stepEq
      cases rest
      exact .wait c idle
  | countDownAndWait c =>
      obtain ⟨idle, rest⟩ := Option.ite_none_right_eq_some.mp stepEq
      cases rest
      exact .countDownAndWait c idle
  | unblock c =>
      obtain ⟨here, rest⟩ := Option.ite_none_right_eq_some.mp stepEq
      cases rest
      exact .unblock c here
  | proceed c =>
      dsimp only [step, proceed] at stepEq
      cases here : s.pc c with
      | loaded => simp only [here] at stepEq; cases stepEq; exact .countOne c here
      | crossing thenWait =>
          simp only [here, Option.ite_none_right_eq_some, Option.some.injEq] at stepEq
          obtain ⟨free, rfl⟩ := stepEq
          exact .sync c thenWait here free
      | syncing thenWait => simp only [here] at stepEq; cases stepEq; exact .unsync c thenWait here
      | notifying thenWait =>
          simp only [here] at stepEq; cases stepEq; exact .notifyAll c thenWait here
      | entering => simp only [here] at stepEq; cases stepEq; exact .enter c here
      | locking =>
          simp only [here, Option.ite_none_right_eq_some, Option.some.injEq] at stepEq
          obtain ⟨free, rfl⟩ := stepEq
          exact .lock c here free
      | testing => simp only [here] at stepEq; cases stepEq; exact .test c here
      | evaluating => simp only [here] at stepEq; cases stepEq; exact .evaluate c here
      | blocking => simp only [here] at stepEq; cases stepEq; exact .block c here
      | waiting status =>
          cases status with
          | blocked => simp only [here] at stepEq; cases stepEq
          | notified =>
              simp only [here, Option.ite_none_right_eq_some, Option.some.injEq] at stepEq
              obtain ⟨free, rfl⟩ := stepEq
              exact .relock c .notified here (by decide) free
          | awake =>
              simp only [here, Option.ite_none_right_eq_some, Option.some.injEq] at stepEq
              obtain ⟨free, rfl⟩ := stepEq
              exact .relock c .awake here (by decide) free
      | leaving => simp only [here] at stepEq; cases stepEq; exact .leave c here
      | idle => simp only [here] at stepEq; cases stepEq
      | counted => simp only [here] at stepEq; cases stepEq
      | returned => simp only [here] at stepEq; cases stepEq

/-- The constructor. -/
def initial (value : PtrDiff) : System :=
  { value := value, holder := none, pc := fun _ => .idle, downs := [], crossed := [] }

/-- The latch with the given initial value. -/
def machine (value : PtrDiff) : Machine System Action :=
  { initial := initial value, step := step }

end Conc11.Latch
