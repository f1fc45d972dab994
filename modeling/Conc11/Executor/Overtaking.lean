/-
Module: Conc11.Executor.Overtaking
Purpose: How far the tasks of a pool may leave their order.  A task is taken only when fewer tasks before it are
  unfinished than the pool may have threads, so a task waits for every one that was inserted before it but for
  those few, and a pool of one thread is a serial executor.
Trusted boundary: none
Main exports: card_held_add, overtaken_of_reachable, bounded_overtaking
-/
import Conc11.Executor.Tasks

namespace Conc11.Executor

open Library

variable {corePoolSize maxPoolSize : SizeT} {s : System}

/-- A worker holds one task at most, before its start or after it. -/
theorem card_held_add (s : System) : s.held.1.card + s.held.2.card ≤ s.workerIds.length := by
  have one : ∀ pc : WorkerPc, pc.held.1.card + pc.held.2.card ≤ 1 := by
    intro pc
    cases pc <;> simp [WorkerPc.held]
  unfold System.held
  induction s.workerIds with
  | nil => simp
  | cons w rest ih =>
      have here := one (s.pc w)
      simp only [List.map_cons, List.sum_cons, Prod.fst_add, Prod.snd_add, Multiset.card_add,
        List.length_cons]
      omega

theorem overtaken_of_reachable (reachable : (machine corePoolSize maxPoolSize).Reachable s) :
    s.ledger.Overtaken (max corePoolSize.toNat maxPoolSize.toNat) := by
  refine reachable.invariant
    (motive := fun s => s.ledger.Overtaken (max corePoolSize.toNat maxPoolSize.toNat)) ?_ ?_
  · change (initial corePoolSize maxPoolSize).ledger.Overtaken _
    rw [ledger_initial]
    intro early job before
    have empty := List.prefix_nil.mp before
    simp at empty
  · intro s a s' reached overtaken _ stepEq
    have after := reached.step trivial stepEq
    obtain ⟨dead, table⟩ := tabled_of_reachable after
    obtain ⟨core, maximum⟩ := sizes_of_reachable after
    have size := table.size
    rw [core, maximum] at size
    exact overtaken.step (accounted_of_reachable reached) ((card_held_add s').trans size)
      (ledger_transition (tabled_of_reachable reached) (numbered_of_reachable reached)
        (transition_of_step stepEq))

/-- From the moment a worker has taken a task on, fewer of the tasks inserted before
it are unfinished than the pool may have threads. -/
theorem bounded_overtaking (corePoolSize maxPoolSize : SizeT) {s : System}
    (reachable : (machine corePoolSize maxPoolSize).Reachable s) {early : List TaskBase}
    {task : TaskBase} (before : early ++ [task] <+: s.inserted)
    (taken : task ∈ s.fetched.map Prod.snd) :
    early.countP (fun other => other ∉ s.finished.map Prod.fst) <
      max corePoolSize.toNat maxPoolSize.toNat := by
  have accounted := accounted_of_reachable reachable
  refine overtaken_of_reachable reachable early task ?_
  rcases List.prefix_or_prefix_of_prefix before accounted.fetched_prefix with isPrefix | shorter
  · exact isPrefix
  · rcases List.prefix_concat_iff.mp shorter with same | shorter
    · rw [same]
    · -- the task has been fetched, and no task is inserted twice
      have twice : task ∈ early := shorter.subset taken
      have distinct : (early ++ [task]).Nodup := accounted.distinct.sublist before.sublist
      exact absurd rfl ((List.nodup_append.mp distinct).2.2 task twice task (by simp))

/-- Two threads: the second task has ended while the first one goes on. -/
theorem bounded_overtaking_two_threads :
    ∃ s, (machine 2#64 2#64).Reachable s ∧ s.inserted = [⟨0, .task⟩, ⟨1, .task⟩] ∧
      s.finished = [(⟨1, .task⟩, .normal)] ∧
      [TaskBase.mk 0 .task].countP (fun other => other ∉ s.finished.map Prod.fst) < 2 := by
  have run : ((machine 2#64 2#64).exec (initial 2#64 2#64)
      [.shutLoad .task, .shutLoad .task, .insert ⟨0, .task⟩ none, .insert ⟨1, .task⟩ none,
        .enterLoop 1, .enterLoop 2, .start 1, .start 2, .finish 2 .normal]).map
        (fun s => (s.inserted, s.fetched, s.finished)) =
      some ([⟨0, .task⟩, ⟨1, .task⟩], [(1, ⟨0, .task⟩), (2, ⟨1, .task⟩)],
        [(⟨1, .task⟩, .normal)]) := by
    decide
  obtain ⟨s, runs, observed⟩ := Option.map_eq_some_iff.mp run
  simp only [Prod.mk.injEq] at observed
  obtain ⟨inserted, fetched, finished⟩ := observed
  have reached := Machine.reachable_of_exec runs
  have before : [TaskBase.mk 0 .task] ++ [TaskBase.mk 1 .task] <+: s.inserted := by
    rw [inserted]
    exact List.prefix_rfl
  have early := bounded_overtaking 2#64 2#64 reached before (by rw [fetched]; decide)
  exact ⟨s, reached, inserted, finished, early⟩

end Conc11.Executor
