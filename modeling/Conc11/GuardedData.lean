/-
Module: Conc11.GuardedData
Purpose: What the locks of the library are for.  Data of any type behind any of them are used as if each section
  ran alone: readers see no half-done update, and nobody else is beside a writer.
Trusted boundary: none
Main exports: Undisturbed, guarded_data_undisturbed
-/
import Conc11.SharedMutex.AsLock
import Conc11.ReaderPreferring.AsLock
import Conc11.SpinLock.AsLock
import Conc11.SpinLock.SpinLock

namespace Conc11

open Library

section

variable {L A T κ : Type*} {σ ρ : Type} [DecidableEq T]

/-- The results of the calls that have returned are those of the same calls one
after the other in the order of their returns, which leave `data`.  Unless a
writer is in its section the guarded object is `data`; whoever is in a section
goes on as if it had begun on `data` and stays alone; only readers share the
lock; and no action in a section is undefined if none is in the calls alone. -/
def Undisturbed (M : Monitor κ σ ρ) (s : Monitor.System L T κ σ ρ) : Prop :=
  ∃ data,
    Program.runAll M.program M.object (s.returned.map fun call => call.2.1) =
      some (data, s.returned.map fun call => call.2.2) ∧
    ((∀ t call rest, s.pc t = .inside call rest → M.mode call = .shared) → s.object = data) ∧
    (∀ t call rest, s.pc t = .inside call rest →
      rest.run s.object = (M.program call).run data) ∧
    (∀ t u call rest other rest', s.pc t = .inside call rest → s.pc u = .inside other rest' →
      t ≠ u → M.mode call = .shared ∧ M.mode other = .shared) ∧
    ∀ sound : σ → Prop, sound M.object →
      (∀ s call, sound s → ∃ after, (M.program call).run s = some after ∧ sound after.1) →
      ∀ t call rest, s.pc t = .inside call rest → ∃ after, rest.run s.object = some after

theorem undisturbed (M : Monitor κ σ ρ) (lock : Lock L A T) {s : Monitor.System L T κ σ ρ}
    (reachable : (M.machine lock).Reachable s) : Undisturbed M s := by
  obtain ⟨data, serial⟩ := Monitor.serial_of_reachable reachable
  refine ⟨data, serial.legal, serial.quiet, serial.midway,
    fun t u call rest other rest' inside beside differ => ⟨?_, ?_⟩,
    fun sound base ends t call rest inside => serial.defined base ends inside⟩
  · cases mode : M.mode call with
    | shared => rfl
    | exclusive => exact absurd (serial.alone inside mode beside).symm differ
  · cases mode : M.mode other with
    | shared => rfl
    | exclusive => exact absurd (serial.alone beside mode inside) differ

end

/-- Data behind a `SharedTimedMutex`, a `ReaderPreferringSharedTimedMutex`, a
`SpinLock` or a `FairSpinLock`. -/
theorem guarded_data_undisturbed {κ T : Type*} {σ ρ : Type} [Fintype T] [DecidableEq T]
    (M : Monitor κ σ ρ) (x w : Nat) :
    (∀ s, (M.machine (SharedMutex.sharedTimedMutex T x)).Reachable s → Undisturbed M s) ∧
    (∀ s, (M.machine (ReaderPreferring.readerPreferringSharedTimedMutex T x)).Reachable s →
      Undisturbed M s) ∧
    (∀ s, (M.machine (SpinLock.TestAndSet.spinLock T x)).Reachable s → Undisturbed M s) ∧
    ∀ fewThreads : Fintype.card T < 2 ^ w, ∀ s,
      (M.machine (SpinLock.fairSpinLock T w fewThreads)).Reachable s → Undisturbed M s :=
  ⟨fun _ => undisturbed M _, fun _ => undisturbed M _, fun _ => undisturbed M _,
    fun _ _ => undisturbed M _⟩

/-- Readers and writers of a number; a writer first reads and then writes. -/
inductive CounterCall where
  | read
  | add (n : Nat)

def counter : Monitor CounterCall Nat Nat :=
  { object := 0
    program := fun
      | .read => Program.look id
      | .add n => do
          let before ← Program.look id
          Program.update fun _ => some (before + n)
          return before
    mode := fun
      | .read => .shared
      | .add _ => .exclusive
    reads := fun
      | .read, _ => Program.reads_look id }

/-- The number behind a `SharedTimedMutex`. -/
def guardedCounter : Machine
    (Monitor.System (SharedMutex.System (Fin 2) 32) (Fin 2) CounterCall Nat Nat)
    (Monitor.Action (SharedMutex.Action (Fin 2)) (Fin 2) CounterCall) :=
  counter.machine (SharedMutex.sharedTimedMutex (Fin 2) 32)

/-- A reader arrives while a writer is between its two actions. -/
theorem guarded_data_undisturbed_counter :
    ∃ s, guardedCounter.Reachable s ∧ (s.returned.map fun call => call.2.2) = [0, 5] ∧
      Undisturbed counter s := by
  have run : (guardedCounter.exec guardedCounter.initial
        [.call 0 (.add 5), .lock (.lock 0), .enter 0, .act 0, .call 1 .read, .lock (.lockShared 1),
          .act 0, .lock (.unlock 0), .lock (.notifyAll 0), .lock (.resume 1 false), .enter 1, .act 1,
          .lock (.unlockShared 1)]).map (fun s => s.returned.map fun call => call.2.2) =
      some [0, 5] := by
    rfl
  obtain ⟨s, ran, results⟩ := Option.map_eq_some_iff.mp run
  have reached := Machine.reachable_of_exec ran
  exact ⟨s, reached, results, (guarded_data_undisturbed counter 32 32).1 s reached⟩

end Conc11
