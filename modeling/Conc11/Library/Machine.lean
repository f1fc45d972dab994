/-
Module: Conc11.Library.Machine
Purpose: Labelled machines with an executable step function, the states their runs reach and the invariant
  rule.  Nothing here names a particular program.
Trusted boundary: none
Main exports: Machine, Machine.ReachableUnder, Machine.Reachable, Machine.LaterUnder,
  Machine.ReachableUnder.invariant, Machine.LaterUnder.invariant, Machine.exists_later
-/
import Mathlib.Logic.Relation

namespace Conc11.Library

/-- A machine with one initial state.  A label carries every choice of the
environment (the scheduler, the clock, the allocator), so a step is a partial
function of the state and the label; `none` means the label is not enabled. -/
structure Machine (σ : Type*) (α : Type*) where
  initial : σ
  step : σ → α → Option σ

namespace Machine

variable {σ α : Type*} (M : Machine σ α)

/-- One step whose source state and label satisfy `ok`. -/
def StepUnder (ok : σ → α → Prop) (s s' : σ) : Prop :=
  ∃ a, ok s a ∧ M.step s a = some s'

/-- `s'` is reached from `s` by steps that all satisfy `ok`. -/
def LaterUnder (ok : σ → α → Prop) : σ → σ → Prop :=
  Relation.ReflTransGen (M.StepUnder ok)

/-- The states of the runs whose steps all satisfy `ok`. -/
def ReachableUnder (ok : σ → α → Prop) (s : σ) : Prop :=
  M.LaterUnder ok M.initial s

/-- The side condition that restricts nothing. -/
def anyStep : σ → α → Prop := fun _ _ => True

/-- The states of all runs. -/
def Reachable (s : σ) : Prop := M.ReachableUnder anyStep s

/-- Perform a list of labels, stopping at the first one that is not enabled. -/
def exec (s : σ) : List α → Option σ
  | [] => some s
  | a :: labels => (M.step s a).bind fun s' => exec s' labels

/-- The same, stopping also at the first label that violates `ok`. -/
def execUnder (ok : σ → α → Prop) [∀ s a, Decidable (ok s a)] (s : σ) : List α → Option σ
  | [] => some s
  | a :: labels =>
      if ok s a then (M.step s a).bind fun s' => execUnder ok s' labels else none

variable {M} {ok : σ → α → Prop}

namespace LaterUnder

theorem refl (s : σ) : M.LaterUnder ok s s := Relation.ReflTransGen.refl

theorem tail {s s' s'' : σ} {a : α} (later : M.LaterUnder ok s s')
    (allowed : ok s' a) (step : M.step s' a = some s'') : M.LaterUnder ok s s'' :=
  Relation.ReflTransGen.tail later ⟨a, allowed, step⟩

theorem trans {s s' s'' : σ} (first : M.LaterUnder ok s s')
    (second : M.LaterUnder ok s' s'') : M.LaterUnder ok s s'' :=
  Relation.ReflTransGen.trans first second

theorem head {s s' s'' : σ} {a : α} (allowed : ok s a) (step : M.step s a = some s')
    (later : M.LaterUnder ok s' s'') : M.LaterUnder ok s s'' :=
  Relation.ReflTransGen.head ⟨a, allowed, step⟩ later

/-- A weaker side condition allows at least the same runs. -/
theorem mono {ok' : σ → α → Prop} (weaker : ∀ s a, ok s a → ok' s a) {s s' : σ}
    (later : M.LaterUnder ok s s') : M.LaterUnder ok' s s' := by
  induction later with
  | refl => exact refl _
  | tail _ step ih =>
      obtain ⟨a, allowed, stepEq⟩ := step
      exact ih.tail (weaker _ a allowed) stepEq

end LaterUnder

namespace ReachableUnder

theorem initial : M.ReachableUnder ok M.initial := LaterUnder.refl _

theorem step {s s' : σ} {a : α} (reachable : M.ReachableUnder ok s)
    (allowed : ok s a) (stepEq : M.step s a = some s') : M.ReachableUnder ok s' :=
  LaterUnder.tail reachable allowed stepEq

theorem later {s s' : σ} (reachable : M.ReachableUnder ok s)
    (after : M.LaterUnder ok s s') : M.ReachableUnder ok s' :=
  LaterUnder.trans reachable after

theorem mono {ok' : σ → α → Prop} (weaker : ∀ s a, ok s a → ok' s a) {s : σ}
    (reachable : M.ReachableUnder ok s) : M.ReachableUnder ok' s :=
  LaterUnder.mono weaker reachable

theorem reachable {s : σ} (reached : M.ReachableUnder ok s) : M.Reachable s :=
  reached.mono fun _ _ _ => trivial

/-- The invariant rule.  A step may use that its source state is reachable,
so invariants can be proved one after the other. -/
theorem invariant {motive : σ → Prop} (base : motive M.initial)
    (preserved : ∀ s a s', M.ReachableUnder ok s → motive s → ok s a →
      M.step s a = some s' → motive s')
    {s : σ} (reachable : M.ReachableUnder ok s) : motive s := by
  induction reachable with
  | refl => exact base
  | tail before step ih =>
      obtain ⟨a, allowed, stepEq⟩ := step
      exact preserved _ a _ before ih allowed stepEq

end ReachableUnder

/-- The invariant rule along the rest of a run: what holds in `s` and is
preserved by every later step holds from `s` on. -/
theorem LaterUnder.invariant {motive : σ → Prop} {s s' : σ}
    (reachable : M.ReachableUnder ok s) (base : motive s)
    (preserved : ∀ s a s', M.ReachableUnder ok s → motive s → ok s a →
      M.step s a = some s' → motive s')
    (later : M.LaterUnder ok s s') : motive s' := by
  induction later with
  | refl => exact base
  | tail before step ih =>
      obtain ⟨a, allowed, stepEq⟩ := step
      exact preserved _ a _ (reachable.later before) ih allowed stepEq

/-- What can always be brought about: as long as `goal` is missing, some step
keeps `motive` and lowers the measure. -/
theorem exists_later {motive goal : σ → Prop} (measure : σ → Nat)
    (descends : ∀ s, motive s → ¬ goal s →
      ∃ a s', ok s a ∧ M.step s a = some s' ∧ motive s' ∧ measure s' < measure s)
    {s : σ} (base : motive s) : ∃ s', M.LaterUnder ok s s' ∧ motive s' ∧ goal s' := by
  induction size : measure s using Nat.strongRecOn generalizing s with
  | _ n ih =>
      by_cases reached : goal s
      · exact ⟨s, .refl s, base, reached⟩
      · obtain ⟨a, next, allowed, stepEq, kept, lower⟩ := descends s base reached
        obtain ⟨last, later, holds, arrived⟩ := ih (measure next) (size ▸ lower) kept rfl
        exact ⟨last, LaterUnder.head allowed stepEq later, holds, arrived⟩

/-- A computed execution is a run. -/
theorem laterUnder_of_execUnder [∀ s a, Decidable (ok s a)] {s s' : σ} {labels : List α}
    (run : M.execUnder ok s labels = some s') : M.LaterUnder ok s s' := by
  induction labels generalizing s with
  | nil =>
      cases run
      exact .refl _
  | cons a labels ih =>
      obtain ⟨allowed, rest⟩ := Option.ite_none_right_eq_some.mp run
      obtain ⟨middle, stepEq, after⟩ := Option.bind_eq_some_iff.mp rest
      exact LaterUnder.head allowed stepEq (ih after)

theorem laterUnder_of_exec {s s' : σ} {labels : List α}
    (run : M.exec s labels = some s') : M.LaterUnder anyStep s s' := by
  induction labels generalizing s with
  | nil =>
      cases run
      exact .refl _
  | cons a labels ih =>
      obtain ⟨middle, stepEq, after⟩ := Option.bind_eq_some_iff.mp run
      exact LaterUnder.head trivial stepEq (ih after)

/-- A computed execution from the initial state ends in a reachable state. -/
theorem reachable_of_exec {s : σ} {labels : List α}
    (run : M.exec M.initial labels = some s) : M.Reachable s :=
  laterUnder_of_exec run

theorem reachableUnder_of_execUnder [∀ s a, Decidable (ok s a)] {s : σ} {labels : List α}
    (run : M.execUnder ok M.initial labels = some s) : M.ReachableUnder ok s :=
  laterUnder_of_execUnder run

end Machine

end Conc11.Library
