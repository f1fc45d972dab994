/-
Module: Conc11.LocalPtr.Model
Purpose: `PThreadLocalPtr` of pthread_wrapper/pthread_local_ptr.h over the thread-specific data of POSIX: any
  number of pointers and threads, from the creation of a key to the deleters that run when a thread exits.
Trusted boundary: human-reviewed model.  `pthread_key_create`, `pthread_getspecific`, `pthread_setspecific`,
  `pthread_key_delete` and the exit of a thread behave as POSIX documents them.  A call that POSIX or the
  language leaves undefined (a key that is not in use, a pointer that has been destroyed) is not a step.
Main exports: Key, Specifics, PThreadLocalPtr, PtrState, Frame, Phase, System, Made, Label, step, machine,
  Transition, transition_of_step
-/
import Mathlib.Data.List.Nodup
import Mathlib.Logic.Function.Basic
import Conc11.Library.Machine

namespace Conc11.LocalPtr

open Library

/-! ## Thread-specific data -/

/-- `pthread_key_t`. -/
abbrev Key := Nat

/-- The keys in use, and the value of each thread under each key.  `none` is
the null pointer. -/
structure Specifics (T V : Type) where
  inUse : List Key
  value : T → Key → Option V

namespace Specifics

variable {T V : Type} [DecidableEq T]

/-- `pthread_key_create` with the key it chose: null becomes the value of every
thread. -/
def keyCreate (d : Specifics T V) (key : Key) : Specifics T V :=
  { inUse := key :: d.inUse
    value := fun t k => if k = key then none else d.value t k }

/-- `pthread_key_delete`, which calls no destructor. -/
def keyDelete (d : Specifics T V) (key : Key) : Specifics T V :=
  { d with inUse := d.inUse.erase key }

/-- `pthread_setspecific`. -/
def setSpecific (d : Specifics T V) (t : T) (key : Key) (v : Option V) : Specifics T V :=
  { d with value := Function.update d.value t (Function.update (d.value t) key v) }

/-- The keys under which `t` has a value other than null. -/
def outstanding (d : Specifics T V) (t : T) : List Key :=
  d.inUse.filter fun key => (d.value t key).isSome

end Specifics

/-! ## The pointers -/

/-- The data members.  When `pthread_key_create` fails it writes no key, and an
object of static storage, which is what the header asks for, then has key 0. -/
structure PThreadLocalPtr where
  key : Key
  valid : Bool
deriving DecidableEq, Repr

/-- The objects of the T's are numbered in the order of their construction. -/
abbrev Address := Nat

inductive PtrState where
  | unborn
  | alive (this : PThreadLocalPtr)
  | destroyed
deriving DecidableEq, Repr

/-- User code that a thread runs for a pointer: the constructor of a T called by
`get`, or the destructor of the T at an address, called by `deleter`.  Both may
call `get` themselves. -/
inductive Frame where
  | constructing (p : Nat)
  | deleting (a : Address)
deriving DecidableEq, Repr

/-- Whether a thread is running, or calls its destructors in some round, in which
it has come to the keys of `visited`. -/
inductive Phase where
  | running
  | exiting (round : Nat) (visited : List Key)
  | gone
deriving DecidableEq, Repr

/-- `objects` says for each address which thread constructed the object there, in
a `get` of which pointer.  `gotten` are the results of the calls of `get`. -/
structure System (T : Type) where
  ptrs : Nat → PtrState
  data : Specifics T Address
  frames : T → List Frame
  phase : T → Phase
  objects : List (T × Nat)
  deleted : List Address
  gotten : List (T × Nat × Address)

/-- How `initializer_func` ends: by an exception, or with an object, for which
`pthread_setspecific` then succeeds or fails.  `get` does not look at its result. -/
inductive Made where
  | threw
  | made (stored : Bool)
deriving DecidableEq, Repr

inductive Label (T : Type) where
  /-- `PThreadLocalPtr(args...)`, with the key that `pthread_key_create` returned.  Without
  `bound`, the `std::bind` behind it threw. -/
  | create (p : Nat) (key : Option Key) (bound : Bool)
  /-- `~PThreadLocalPtr()`. -/
  | destroy (p : Nat)
  /-- `get()` up to the test of `t`. -/
  | get (t : T) (p : Nat)
  /-- The rest of the innermost `get()`. -/
  | construct (t : T) (outcome : Made)
  /-- The start routine returns. -/
  | exit (t : T)
  /-- The thread sets a value to null and calls `deleter` with it. -/
  | destruct (t : T) (key : Key)
  /-- The destructor of the T returns. -/
  | deleteEnd (t : T)
  | nextRound (t : T)
  | finish (t : T)
deriving DecidableEq, Repr

namespace System

variable {T : Type} [DecidableEq T] (s : System T)

/-- The constructor.  When it throws there is no object, and a key that it has
created stays in use. -/
def create (p : Nat) (key : Option Key) (bound : Bool) : System T :=
  { s with
    ptrs := Function.update s.ptrs p
      (if bound then .alive { key := key.getD 0, valid := key.isSome } else .destroyed)
    data :=
      match key with
      | some key => s.data.keyCreate key
      | none => s.data }

/-- The destructor, which does not look at `valid`. -/
def destroy (p : Nat) (this : PThreadLocalPtr) : System T :=
  { s with ptrs := Function.update s.ptrs p .destroyed, data := s.data.keyDelete this.key }

/-- `get` up to the call of `initializer_func`. -/
def get (t : T) (p : Nat) (this : PThreadLocalPtr) : System T :=
  match s.data.value t this.key with
  | some a => { s with gotten := s.gotten ++ [(t, p, a)] }
  | none => { s with frames := Function.update s.frames t (.constructing p :: s.frames t) }

/-- `get` from the end of `initializer_func` on. -/
def construct (t : T) (p : Nat) (this : PThreadLocalPtr) (rest : List Frame) : Made → System T
  | .threw => { s with frames := Function.update s.frames t rest }
  | .made stored =>
      let a := s.objects.length
      { s with
        frames := Function.update s.frames t rest
        objects := s.objects ++ [(t, p)]
        data := if stored then s.data.setSpecific t this.key (some a) else s.data
        gotten := s.gotten ++ [(t, p, a)] }

/-- The call of `deleter` for the value under a key. -/
def destruct (t : T) (key : Key) (a : Address) (round : Nat) (visited : List Key) : System T :=
  { s with
    data := s.data.setSpecific t key none
    phase := Function.update s.phase t (.exiting round (key :: visited))
    frames := Function.update s.frames t [.deleting a] }

end System

variable {T : Type} [DecidableEq T]

/-- The steps.  `iterations` is PTHREAD_DESTRUCTOR_ITERATIONS: after that many
rounds a thread may end with values left. -/
def step (iterations : Nat) (s : System T) : Label T → Option (System T)
  | .create p key bound =>
      if s.ptrs p = .unborn ∧ ∀ k ∈ s.data.inUse, key ≠ some k then some (s.create p key bound)
      else none
  | .destroy p =>
      match s.ptrs p with
      | .alive this => some (s.destroy p this)
      | _ => none
  | .get t p =>
      match s.ptrs p with
      | .alive this =>
          if this.key ∈ s.data.inUse ∧ (s.phase t = .running ∨ s.frames t ≠ []) then
            some (s.get t p this)
          else none
      | _ => none
  | .construct t outcome =>
      match s.frames t with
      | .constructing p :: rest =>
          match s.ptrs p with
          | .alive this =>
              if this.key ∈ s.data.inUse then some (s.construct t p this rest outcome) else none
          | _ => none
      | _ => none
  | .exit t =>
      if s.phase t = .running ∧ s.frames t = [] then
        some { s with phase := Function.update s.phase t (.exiting 1 []) }
      else none
  | .destruct t key =>
      match s.phase t, s.data.value t key with
      | .exiting round visited, some a =>
          if s.frames t = [] ∧ key ∈ s.data.inUse ∧ key ∉ visited then
            some (s.destruct t key a round visited)
          else none
      | _, _ => none
  | .deleteEnd t =>
      match s.frames t with
      | .deleting a :: rest =>
          some { s with
            frames := Function.update s.frames t rest
            deleted := s.deleted ++ [a] }
      | _ => none
  | .nextRound t =>
      match s.phase t with
      | .exiting round visited =>
          if s.frames t = [] ∧ ∀ key ∈ s.data.outstanding t, key ∈ visited then
            some { s with phase := Function.update s.phase t (.exiting (round + 1) []) }
          else none
      | _ => none
  | .finish t =>
      match s.phase t with
      | .exiting round visited =>
          if s.frames t = [] ∧ (s.data.outstanding t = [] ∨
              (∀ key ∈ s.data.outstanding t, key ∈ visited) ∧ iterations ≤ round) then
            some { s with phase := Function.update s.phase t .gone }
          else none
      | _ => none

/-- Before the first pointer is constructed. -/
def initial : System T :=
  { ptrs := fun _ => .unborn
    data := { inUse := [], value := fun _ _ => none }
    frames := fun _ => []
    phase := fun _ => .running
    objects := []
    deleted := []
    gotten := [] }

/-- The pointers and threads of a program. -/
def machine (T : Type) [DecidableEq T] (iterations : Nat) : Machine (System T) (Label T) :=
  { initial := initial, step := step iterations }

/-! ## What a step can do -/

/-- The inversion of `step`. -/
inductive Transition (iterations : Nat) (s : System T) : Label T → System T → Prop where
  | create (p : Nat) (key : Option Key) (bound : Bool) (unborn : s.ptrs p = .unborn)
      (fresh : ∀ k ∈ s.data.inUse, key ≠ some k) :
      Transition iterations s (.create p key bound) (s.create p key bound)
  | destroy (p : Nat) (this : PThreadLocalPtr) (alive : s.ptrs p = .alive this) :
      Transition iterations s (.destroy p) (s.destroy p this)
  | get (t : T) (p : Nat) (this : PThreadLocalPtr) (alive : s.ptrs p = .alive this)
      (inUse : this.key ∈ s.data.inUse) (here : s.phase t = .running ∨ s.frames t ≠ []) :
      Transition iterations s (.get t p) (s.get t p this)
  | construct (t : T) (p : Nat) (this : PThreadLocalPtr) (rest : List Frame) (outcome : Made)
      (frames : s.frames t = .constructing p :: rest) (alive : s.ptrs p = .alive this)
      (inUse : this.key ∈ s.data.inUse) :
      Transition iterations s (.construct t outcome) (s.construct t p this rest outcome)
  | exit (t : T) (running : s.phase t = .running) (frames : s.frames t = []) :
      Transition iterations s (.exit t)
        { s with phase := Function.update s.phase t (.exiting 1 []) }
  | destruct (t : T) (key : Key) (a : Address) (round : Nat) (visited : List Key)
      (exiting : s.phase t = .exiting round visited) (frames : s.frames t = [])
      (inUse : key ∈ s.data.inUse) (value : s.data.value t key = some a) :
      Transition iterations s (.destruct t key) (s.destruct t key a round visited)
  | deleteEnd (t : T) (a : Address) (rest : List Frame)
      (frames : s.frames t = .deleting a :: rest) :
      Transition iterations s (.deleteEnd t)
        { s with
          frames := Function.update s.frames t rest
          deleted := s.deleted ++ [a] }
  | nextRound (t : T) (round : Nat) (visited : List Key)
      (exiting : s.phase t = .exiting round visited) (frames : s.frames t = []) :
      Transition iterations s (.nextRound t)
        { s with phase := Function.update s.phase t (.exiting (round + 1) []) }
  | finish (t : T) (round : Nat) (visited : List Key)
      (exiting : s.phase t = .exiting round visited) (frames : s.frames t = [])
      (done : s.data.outstanding t = [] ∨ iterations ≤ round) :
      Transition iterations s (.finish t) { s with phase := Function.update s.phase t .gone }

/-- Every enabled label is one of the transitions. -/
theorem transition_of_step {iterations : Nat} {s s' : System T} {l : Label T}
    (stepEq : step iterations s l = some s') : Transition iterations s l s' := by
  cases l with
  | create p key bound =>
      obtain ⟨⟨unborn, fresh⟩, same⟩ := Option.ite_none_right_eq_some.mp stepEq
      cases same
      exact .create p key bound unborn fresh
  | destroy p =>
      simp only [step] at stepEq
      split at stepEq
      next this alive => cases stepEq; exact .destroy p this alive
      next => cases stepEq
  | get t p =>
      simp only [step] at stepEq
      split at stepEq
      next this alive =>
        obtain ⟨⟨inUse, here⟩, same⟩ := Option.ite_none_right_eq_some.mp stepEq
        cases same
        exact .get t p this alive inUse here
      next => cases stepEq
  | construct t outcome =>
      simp only [step] at stepEq
      split at stepEq
      next p rest frames =>
        split at stepEq
        next this alive =>
          obtain ⟨inUse, same⟩ := Option.ite_none_right_eq_some.mp stepEq
          cases same
          exact .construct t p this rest outcome frames alive inUse
        next => cases stepEq
      next => cases stepEq
  | exit t =>
      obtain ⟨⟨running, frames⟩, same⟩ := Option.ite_none_right_eq_some.mp stepEq
      cases same
      exact .exit t running frames
  | destruct t key =>
      simp only [step] at stepEq
      split at stepEq
      next round visited a exiting value =>
        obtain ⟨⟨frames, inUse, _⟩, same⟩ := Option.ite_none_right_eq_some.mp stepEq
        cases same
        exact .destruct t key a round visited exiting frames inUse value
      next => cases stepEq
  | deleteEnd t =>
      simp only [step] at stepEq
      split at stepEq
      next a rest frames => cases stepEq; exact .deleteEnd t a rest frames
      next => cases stepEq
  | nextRound t =>
      simp only [step] at stepEq
      split at stepEq
      next round visited exiting =>
        obtain ⟨⟨frames, _⟩, same⟩ := Option.ite_none_right_eq_some.mp stepEq
        cases same
        exact .nextRound t round visited exiting frames
      next => cases stepEq
  | finish t =>
      simp only [step] at stepEq
      split at stepEq
      next round visited exiting =>
        obtain ⟨⟨frames, done⟩, same⟩ := Option.ite_none_right_eq_some.mp stepEq
        cases same
        exact .finish t round visited exiting frames (done.imp_right And.right)
      next => cases stepEq

end Conc11.LocalPtr
