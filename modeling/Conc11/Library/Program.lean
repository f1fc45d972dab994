/-
Module: Conc11.Library.Program
Purpose: Programs that work on a shared state by atomic actions.  Other threads may come in between two actions,
  so a program is the tree of what is still to be done; `run` is what it does when nobody comes in between.
Trusted boundary: none
Main exports: Program, Program.run, Program.run_bind, Program.Reads, Program.Reads.run_eq, Program.runAll,
  Program.runAll_concat
-/
import Mathlib.Data.Option.Basic

namespace Conc11.Library

universe u

/-- A program over the state `σ` with a result in `ρ`.  An action that is
undefined in a state has no outcome there. -/
inductive Program (σ ρ : Type u) : Type (u + 1) where
  | done (result : ρ)
  | act {β : Type u} (action : σ → Option (σ × β)) (next : β → Program σ ρ)

namespace Program

variable {σ ρ τ β : Type u}

/-- The program without interruption. -/
def run : Program σ ρ → σ → Option (σ × ρ)
  | .done result, s => some (s, result)
  | .act action next, s => (action s).bind fun after => (next after.2).run after.1

def bind : Program σ ρ → (ρ → Program σ τ) → Program σ τ
  | .done result, rest => rest result
  | .act action next, rest => .act action fun outcome => (next outcome).bind rest

instance : Monad (Program σ) where
  pure := .done
  bind := .bind

/-- A single action. -/
def atomic (action : σ → Option (σ × β)) : Program σ β := .act action .done

/-- An action that only looks. -/
def look (observe : σ → β) : Program σ β := atomic fun s => some (s, observe s)

/-- An action that changes the state and gives nothing back. -/
def update (change : σ → Option σ) : Program σ PUnit :=
  atomic fun s => (change s).map fun s' => (s', .unit)

theorem run_act (action : σ → Option (σ × β)) (next : β → Program σ ρ) (s : σ) :
    (act action next).run s = (action s).bind fun after => (next after.2).run after.1 := rfl

@[simp] theorem run_pure (result : ρ) (s : σ) :
    (pure result : Program σ ρ).run s = some (s, result) := rfl

@[simp] theorem run_bind (program : Program σ ρ) (rest : ρ → Program σ τ) (s : σ) :
    (program >>= rest).run s =
      (program.run s).bind fun after => (rest after.2).run after.1 := by
  change (program.bind rest).run s = _
  induction program generalizing s with
  | done result => rfl
  | act action next ih =>
      simp only [Program.bind, run, ih, Option.bind_assoc]

@[simp] theorem run_atomic (action : σ → Option (σ × β)) (s : σ) :
    (atomic action).run s = action s := by
  change ((action s).bind fun after => some (after.1, after.2)) = action s
  cases action s with
  | none => rfl
  | some after => rfl

@[simp] theorem run_look (observe : σ → β) (s : σ) :
    (look observe).run s = some (s, observe s) := run_atomic _ s

@[simp] theorem run_update (change : σ → Option σ) (s : σ) :
    (update change).run s = (change s).map fun s' => (s', .unit) := run_atomic _ s

/-! ## Programs that only read -/

/-- No action changes the state. -/
def Reads : Program σ ρ → Prop
  | .done _ => True
  | .act action next =>
      (∀ s after, action s = some after → after.1 = s) ∧ ∀ outcome, (next outcome).Reads

theorem reads_look (observe : σ → β) : (look observe).Reads := by
  refine ⟨fun s after looked => ?_, fun _ => trivial⟩
  cases looked
  rfl

/-- Whatever such a program has still to do, the state stays as it is. -/
theorem Reads.run_eq {program : Program σ ρ} (reads : program.Reads) {s s' : σ} {result : ρ}
    (ran : program.run s = some (s', result)) : s' = s := by
  induction program generalizing s with
  | done value =>
      cases ran
      rfl
  | act action next ih =>
      obtain ⟨after, acted, rest⟩ := Option.bind_eq_some_iff.mp ran
      have same := reads.1 s after acted
      rw [ih after.2 (reads.2 after.2) rest, same]

/-! ## One program after the other -/

variable {κ : Type*} (program : κ → Program σ ρ)

/-- The programs of a list of calls, each run without interruption, with their
results. -/
def runAll (s : σ) : List κ → Option (σ × List ρ)
  | [] => some (s, [])
  | call :: calls =>
      ((program call).run s).bind fun after =>
        (runAll after.1 calls).map fun last => (last.1, after.2 :: last.2)

/-- One more call at the end. -/
theorem runAll_concat {s middle s' : σ} {calls : List κ} {results : List ρ} {call : κ}
    {result : ρ} (before : runAll program s calls = some (middle, results))
    (ran : (program call).run middle = some (s', result)) :
    runAll program s (calls ++ [call]) = some (s', results ++ [result]) := by
  induction calls generalizing s results with
  | nil =>
      cases before
      simp only [List.nil_append, runAll, ran, Option.bind_some, Option.map_some]
  | cons first calls ih =>
      obtain ⟨after, ranFirst, mapped⟩ := Option.bind_eq_some_iff.mp before
      obtain ⟨last, ranRest, same⟩ := Option.map_eq_some_iff.mp mapped
      cases same
      simp only [List.cons_append, runAll, ranFirst, Option.bind_some, ih ranRest, Option.map_some]

/-- What every complete call keeps holds after any number of them. -/
theorem runAll_invariant {motive : σ → Prop}
    (preserved : ∀ s call after, motive s → (program call).run s = some after → motive after.1)
    {s s' : σ} {calls : List κ} {results : List ρ} (base : motive s)
    (ran : runAll program s calls = some (s', results)) : motive s' := by
  induction calls generalizing s results with
  | nil =>
      cases ran
      exact base
  | cons call calls ih =>
      obtain ⟨after, ranCall, mapped⟩ := Option.bind_eq_some_iff.mp ran
      obtain ⟨last, ranRest, same⟩ := Option.map_eq_some_iff.mp mapped
      cases same
      exact ih (preserved s call after base ranCall) ranRest

end Program

end Conc11.Library
