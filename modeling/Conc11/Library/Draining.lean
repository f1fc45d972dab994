/-
Module: Conc11.Library.Draining
Purpose: A measure for threads that finish their calls, and may fall asleep and be woken on the way.  Every position
  of a thread has an effort, what is left of the call, and a bounded restlessness, how far the thread is from
  sleep.  A step that lowers the effort of one thread may disturb all the others.
Trusted boundary: none
Main exports: Workload, Workload.stepsLeft, Workload.Eases, Workload.Eases.stepsLeft_lt,
  Workload.stepsLeft_woken, sum_map_update_le
-/
import Mathlib.Algebra.BigOperators.Group.Finset.Piecewise
import Mathlib.Algebra.Order.BigOperators.Group.Finset
import Mathlib.Algebra.Order.BigOperators.Group.List
import Conc11.Library.Threads

namespace Conc11.Library

/-- What the positions of a thread cost. -/
structure Workload (P : Type*) where
  effort : P → Nat
  restless : P → Nat
  most : Nat
  restless_le : ∀ p, restless p ≤ most

namespace Workload

variable {T P : Type*} (w : Workload P)

/-- One unit of effort pays for waking all the threads. -/
def stepsLeft (threads : Finset T) (phase : T → P) : Nat :=
  (threads.card * w.most + 1) * (∑ t ∈ threads, w.effort (phase t)) +
    ∑ t ∈ threads, w.restless (phase t)

/-- Thread `t` gets on with its call, or comes closer to sleep while nobody else moves. -/
inductive Eases (phase phase' : T → P) (t : T) : Prop where
  | works (own : w.effort (phase' t) < w.effort (phase t))
      (others : ∀ u, u ≠ t → w.effort (phase' u) ≤ w.effort (phase u))
  | settles (own : w.effort (phase' t) ≤ w.effort (phase t))
      (calmer : w.restless (phase' t) < w.restless (phase t))
      (others : ∀ u, u ≠ t → phase' u = phase u)

variable {w} {threads : Finset T} {phase phase' : T → P} {t : T}

/-- The restlessness of all threads is worth less than one unit of effort. -/
theorem sum_restless_le : ∑ u ∈ threads, w.restless (phase u) ≤ threads.card * w.most := by
  calc ∑ u ∈ threads, w.restless (phase u)
      ≤ ∑ _u ∈ threads, w.most := Finset.sum_le_sum fun u _ => w.restless_le (phase u)
    _ = threads.card * w.most := Finset.sum_const_nat fun _ _ => rfl

/-- A weight that is lowered at one thread of the set and raised at none. -/
private theorem sum_lt {weight : P → Nat} (member : t ∈ threads)
    (own : weight (phase' t) < weight (phase t))
    (others : ∀ u, u ≠ t → weight (phase' u) ≤ weight (phase u)) :
    ∑ u ∈ threads, weight (phase' u) < ∑ u ∈ threads, weight (phase u) := by
  refine Finset.sum_lt_sum (fun u _ => ?_) ⟨t, member, own⟩
  by_cases same : u = t
  · rw [same]
    exact own.le
  · exact others u same

theorem Eases.stepsLeft_lt (eases : w.Eases phase phase' t) (member : t ∈ threads) :
    w.stepsLeft threads phase' < w.stepsLeft threads phase := by
  unfold stepsLeft
  cases eases with
  | works own others =>
      have effort := sum_lt member own others
      have woken : ∑ u ∈ threads, w.restless (phase' u) ≤ threads.card * w.most := sum_restless_le
      generalize threads.card * w.most = all at woken ⊢
      calc (all + 1) * (∑ u ∈ threads, w.effort (phase' u)) + ∑ u ∈ threads, w.restless (phase' u)
          < (all + 1) * (∑ u ∈ threads, w.effort (phase' u)) + (all + 1) :=
            Nat.add_lt_add_left (Nat.lt_succ_of_le woken) _
        _ = (all + 1) * (∑ u ∈ threads, w.effort (phase' u) + 1) := (Nat.mul_succ _ _).symm
        _ ≤ (all + 1) * (∑ u ∈ threads, w.effort (phase u)) := Nat.mul_le_mul_left _ effort
        _ ≤ _ := Nat.le_add_right _ _
  | settles own calmer others =>
      refine Nat.add_lt_add_of_le_of_lt (Nat.mul_le_mul_left _ (Finset.sum_le_sum fun u _ => ?_))
        (sum_lt member calmer fun u other => by rw [others u other])
      by_cases same : u = t
      · rw [same]
        exact own
      · rw [others u same]

/-- A thread that is woken without getting on costs no more than the way back to sleep. -/
theorem stepsLeft_woken (own : w.effort (phase' t) ≤ w.effort (phase t))
    (others : ∀ u, u ≠ t → phase' u = phase u) :
    w.stepsLeft threads phase' ≤ w.stepsLeft threads phase + w.most := by
  classical
  have effort : ∑ u ∈ threads, w.effort (phase' u) ≤ ∑ u ∈ threads, w.effort (phase u) := by
    refine Finset.sum_le_sum fun u _ => ?_
    by_cases same : u = t
    · rw [same]
      exact own
    · rw [others u same]
  have restless : ∑ u ∈ threads, w.restless (phase' u) ≤
      ∑ u ∈ threads, (w.restless (phase u) + if u = t then w.most else 0) := by
    refine Finset.sum_le_sum fun u _ => ?_
    by_cases same : u = t
    · rw [if_pos same]
      exact (w.restless_le _).trans (Nat.le_add_left _ _)
    · rw [others u same]
      exact Nat.le_add_right _ _
  have once : (∑ u ∈ threads, if u = t then w.most else 0) ≤ w.most := by
    rw [Finset.sum_ite_eq' threads t]
    split
    · exact Nat.le_refl _
    · exact Nat.zero_le _
  rw [Finset.sum_add_distrib] at restless
  have paid := Nat.mul_le_mul_left (threads.card * w.most + 1) effort
  unfold stepsLeft
  omega

end Workload

/-- A thread that gives up its weight takes it out of the sum, at least once. -/
theorem sum_map_update_le {T P : Type*} [DecidableEq T] {weight : P → Nat} (phase : T → P)
    {t : T} {v : P} {threads : List T} (member : t ∈ threads) (light : weight v = 0) :
    (threads.map fun u => weight (Function.update phase t v u)).sum + weight (phase t) ≤
      (threads.map fun u => weight (phase u)).sum := by
  have each : ∀ rest : List T, (rest.map fun u => weight (Function.update phase t v u)).sum ≤
      (rest.map fun u => weight (phase u)).sum := by
    intro rest
    refine List.sum_le_sum fun u _ => ?_
    by_cases same : u = t
    · rw [same, Function.update_self, light]
      exact Nat.zero_le _
    · rw [Function.update_of_ne same]
  obtain ⟨before, after, rfl⟩ := List.append_of_mem member
  simp only [List.map_append, List.map_cons, List.sum_append, List.sum_cons, Function.update_self,
    light]
  have early := each before
  have late := each after
  omega

end Conc11.Library
