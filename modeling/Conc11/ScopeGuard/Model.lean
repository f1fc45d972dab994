/-
Module: Conc11.ScopeGuard.Model
Purpose: `ScopeGuardBase` and `ScopeGuardImpl` of util/bits/scope_guard.h, and the guards of one action type from
  their creation by `make_scope_guard` to their destruction.
Trusted boundary: human-reviewed model.  An action is known by the number of the `make_scope_guard` that got it;
  one that has been moved from can no longer be called, and a move of it that throws leaves it as it was.  A
  `make_scope_guard` that exits by an exception makes no guard and is no step here; an action that throws when a
  destructor calls it ends the program.
Main exports: ScopeGuardBase, ScopeGuardImpl, Call, System, Label, step, machine, Transition,
  transition_of_step, OntoArmed, ThrowsArmed
-/
import Mathlib.Logic.Function.Basic
import Conc11.Library.Machine

namespace Conc11.ScopeGuard

open Library

/-! ## The classes -/

structure ScopeGuardBase where
  released : Bool
deriving DecidableEq, Repr

namespace ScopeGuardBase

def new : ScopeGuardBase := { released := false }

/-- `release`, which is `const`: the flag is mutable. -/
def release (this : ScopeGuardBase) : ScopeGuardBase := { this with released := true }

def isReleased (this : ScopeGuardBase) : Bool := this.released

/-- The move constructor, with what it leaves in `rhs`. -/
def moveConstruct (rhs : ScopeGuardBase) : ScopeGuardBase × ScopeGuardBase :=
  ({ released := rhs.released }, { rhs with released := true })

/-- The move assignment of distinct objects. -/
def moveAssign (this rhs : ScopeGuardBase) : ScopeGuardBase × ScopeGuardBase :=
  ({ this with released := rhs.released }, { rhs with released := true })

end ScopeGuardBase

/-- A call of the `pre` or the `post` that the n-th `make_scope_guard` got. -/
inductive Call where
  | pre (n : Nat)
  | post (n : Nat)
deriving DecidableEq, Repr

/-- `post` is the action, nothing after it has been moved from. -/
structure ScopeGuardImpl extends ScopeGuardBase where
  post : Option Nat
deriving DecidableEq, Repr

namespace ScopeGuardImpl

/-- The constructors: the action is stored, and `pre`, if there is one, is called. -/
def new (n : Nat) (withPre : Bool) (calls : List Call) : ScopeGuardImpl × List Call :=
  ({ toScopeGuardBase := .new, post := some n }, if withPre then calls ++ [.pre n] else calls)

/-- The defaulted move constructor: first the base, then the action.  If the
action's own move throws there is no new guard, and `rhs` stays released. -/
def moveConstruct (rhs : ScopeGuardImpl) (throws : Bool) :
    Option ScopeGuardImpl × ScopeGuardImpl :=
  let (base, rest) := rhs.toScopeGuardBase.moveConstruct
  if throws then (none, { rhs with toScopeGuardBase := rest })
  else
    (some { toScopeGuardBase := base, post := rhs.post }, { toScopeGuardBase := rest, post := none })

/-- The defaulted move assignment: first the base, then the action.  If the
action's own move throws, the flags have been assigned and the actions have not. -/
def moveAssign (this rhs : ScopeGuardImpl) (throws : Bool) : ScopeGuardImpl × ScopeGuardImpl :=
  let (base, rest) := this.toScopeGuardBase.moveAssign rhs.toScopeGuardBase
  if throws then ({ this with toScopeGuardBase := base }, { rhs with toScopeGuardBase := rest })
  else ({ toScopeGuardBase := base, post := rhs.post }, { toScopeGuardBase := rest, post := none })

def release (this : ScopeGuardImpl) : ScopeGuardImpl :=
  { this with toScopeGuardBase := this.toScopeGuardBase.release }

/-- `~ScopeGuardImpl`.  No result if it calls an action that has been moved from. -/
def destroy (this : ScopeGuardImpl) (calls : List Call) : Option (List Call) :=
  if this.isReleased then some calls else this.post.map fun n => calls ++ [.post n]

end ScopeGuardImpl

/-! ## The guards -/

/-- The live guards, how often `make_scope_guard` has been called, the calls of
actions so far, and the actions that a guard was released from. -/
structure System (G : Type) where
  guards : G → Option ScopeGuardImpl
  made : Nat
  calls : List Call
  relieved : List Nat

/-- `throws` says that the action's own move throws. -/
inductive Label (G : Type) where
  | make (g : G) (withPre : Bool)
  | moveConstruct (g rhs : G) (throws : Bool)
  | moveAssign (g rhs : G) (throws : Bool)
  | release (g : G)
  | destroy (g : G)
deriving DecidableEq, Repr

section

variable {G : Type} [DecidableEq G]

omit [DecidableEq G] in
def initial : System G :=
  { guards := fun _ => none
    made := 0
    calls := []
    relieved := [] }

namespace System

variable (s : System G) (g rhs : G)

/-- `make_scope_guard`, whose result is constructed in place. -/
def make (withPre : Bool) : Option (System G) :=
  if s.guards g = none then
    let (this, calls) := ScopeGuardImpl.new s.made withPre s.calls
    some { s with
      guards := Function.update s.guards g (some this)
      made := s.made + 1
      calls := calls }
  else none

def moveConstruct (throws : Bool) : Option (System G) := do
  let source ← s.guards rhs
  let (this, rest) := source.moveConstruct throws
  if s.guards g = none then
    return { s with
      guards := Function.update (Function.update s.guards rhs (some rest)) g this }
  else none

/-- The assertion excludes that both are the same object. -/
def moveAssign (throws : Bool) : Option (System G) := do
  let target ← s.guards g
  let source ← s.guards rhs
  let (this, rest) := target.moveAssign source throws
  if g = rhs then none
  else return { s with
    guards := Function.update (Function.update s.guards rhs (some rest)) g (some this) }

def release : Option (System G) := do
  let this ← s.guards g
  return { s with
    guards := Function.update s.guards g (some this.release)
    relieved := if this.isReleased then s.relieved else s.relieved ++ this.post.toList }

def destroy : Option (System G) := do
  let this ← s.guards g
  let calls ← this.destroy s.calls
  return { s with
    guards := Function.update s.guards g none
    calls := calls }

end System

def step (s : System G) : Label G → Option (System G)
  | .make g withPre => s.make g withPre
  | .moveConstruct g rhs throws => s.moveConstruct g rhs throws
  | .moveAssign g rhs throws => s.moveAssign g rhs throws
  | .release g => s.release g
  | .destroy g => s.destroy g

def machine (G : Type) [DecidableEq G] : Machine (System G) (Label G) :=
  { initial := initial
    step := step }

/-- The inversion of `step`. -/
inductive Transition (s : System G) : Label G → System G → Prop where
  | make {g : G} (withPre : Bool) (free : s.guards g = none) :
      Transition s (.make g withPre)
        { s with
          guards := Function.update s.guards g
            (some (ScopeGuardImpl.new s.made withPre s.calls).1)
          made := s.made + 1
          calls := (ScopeGuardImpl.new s.made withPre s.calls).2 }
  | moveConstruct {g rhs : G} {source : ScopeGuardImpl} (live : s.guards rhs = some source)
      (free : s.guards g = none) :
      Transition s (.moveConstruct g rhs false)
        { s with
          guards := Function.update
            (Function.update s.guards rhs (some { released := true, post := none })) g
            (some source) }
  | moveConstructThrows {g rhs : G} {source : ScopeGuardImpl} (live : s.guards rhs = some source)
      (free : s.guards g = none) :
      Transition s (.moveConstruct g rhs true)
        { s with
          guards := Function.update
            (Function.update s.guards rhs (some { source with released := true })) g none }
  | moveAssign {g rhs : G} {target source : ScopeGuardImpl} (isTarget : s.guards g = some target)
      (live : s.guards rhs = some source) (apart : g ≠ rhs) :
      Transition s (.moveAssign g rhs false)
        { s with
          guards := Function.update
            (Function.update s.guards rhs (some { released := true, post := none })) g
            (some source) }
  | moveAssignThrows {g rhs : G} {target source : ScopeGuardImpl}
      (isTarget : s.guards g = some target) (live : s.guards rhs = some source) (apart : g ≠ rhs) :
      Transition s (.moveAssign g rhs true)
        { s with
          guards := Function.update
            (Function.update s.guards rhs (some { source with released := true })) g
            (some { target with released := source.released }) }
  | release {g : G} {this : ScopeGuardImpl} (live : s.guards g = some this) :
      Transition s (.release g)
        { s with
          guards := Function.update s.guards g (some this.release)
          relieved := if this.isReleased then s.relieved else s.relieved ++ this.post.toList }
  | destroy {g : G} {this : ScopeGuardImpl} {calls : List Call} (live : s.guards g = some this)
      (destroyed : this.destroy s.calls = some calls) :
      Transition s (.destroy g)
        { s with
          guards := Function.update s.guards g none
          calls := calls }

theorem transition_of_step {s s' : System G} {label : Label G} (stepEq : step s label = some s') :
    Transition s label s' := by
  cases label with
  | make g withPre =>
      obtain ⟨free, made⟩ := Option.ite_none_right_eq_some.mp stepEq
      cases made
      exact .make withPre free
  | moveConstruct g rhs throws =>
      obtain ⟨source, live, rest⟩ := Option.bind_eq_some_iff.mp stepEq
      obtain ⟨free, moved⟩ := Option.ite_none_right_eq_some.mp rest
      cases moved
      cases throws with
      | false => exact .moveConstruct live free
      | true => exact .moveConstructThrows live free
  | moveAssign g rhs throws =>
      obtain ⟨target, isTarget, rest⟩ := Option.bind_eq_some_iff.mp stepEq
      obtain ⟨source, live, rest⟩ := Option.bind_eq_some_iff.mp rest
      obtain ⟨apart, moved⟩ := Option.ite_none_left_eq_some.mp rest
      cases moved
      cases throws with
      | false => exact .moveAssign isTarget live apart
      | true => exact .moveAssignThrows isTarget live apart
  | release g =>
      obtain ⟨this, live, released⟩ := Option.bind_eq_some_iff.mp stepEq
      cases released
      exact .release live
  | destroy g =>
      obtain ⟨this, live, rest⟩ := Option.bind_eq_some_iff.mp stepEq
      obtain ⟨calls, destroyed, last⟩ := Option.bind_eq_some_iff.mp rest
      cases last
      exact .destroy live destroyed

/-- Guard `g` has not been released. -/
def System.IsArmed (s : System G) (g : G) : Prop :=
  (s.guards g).any (fun this => !this.isReleased) = true

instance (s : System G) (g : G) : Decidable (s.IsArmed g) :=
  inferInstanceAs (Decidable ((s.guards g).any (fun this => !this.isReleased) = true))

/-- The step assigns to a guard that has not been released. -/
def OntoArmed (s : System G) : Label G → Prop
  | .moveAssign g _ _ => s.IsArmed g
  | _ => False

/-- The step moves from a guard that has not been released, and the action's
own move throws. -/
def ThrowsArmed (s : System G) : Label G → Prop
  | .moveConstruct _ rhs true | .moveAssign _ rhs true => s.IsArmed rhs
  | _ => False

instance (s : System G) (label : Label G) : Decidable (OntoArmed s label) :=
  match label with
  | .moveAssign g _ _ => inferInstanceAs (Decidable (s.IsArmed g))
  | .make _ _ | .moveConstruct _ _ _ | .release _ | .destroy _ => inferInstanceAs (Decidable False)

instance (s : System G) (label : Label G) : Decidable (ThrowsArmed s label) :=
  match label with
  | .moveConstruct _ rhs true | .moveAssign _ rhs true => inferInstanceAs (Decidable (s.IsArmed rhs))
  | .moveConstruct _ _ false | .moveAssign _ _ false | .make _ _ | .release _ | .destroy _ =>
      inferInstanceAs (Decidable False)

end

end Conc11.ScopeGuard
