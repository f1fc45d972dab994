/-
Module: Conc11.Library.Threads
Purpose: Counting the threads in a given phase.  A system keeps one phase per thread in a function
  that steps update at one thread; the lemmas say how the count of a set of phases moves with such
  an update, over a finite type of threads and over a duplicate-free list of thread names.
Trusted boundary: none
Main exports: WaitStatus, forall_update, population, population_update, population_eq_zero, population_pos,
  population_swap, filled, population_filled, total, total_update, total_update_pair, countP_update, sum_map_update
-/
import Mathlib.Data.Fintype.Card
import Mathlib.Data.Finset.Piecewise
import Mathlib.Data.List.Nodup
import Mathlib.Logic.Function.Basic
import Mathlib.Algebra.BigOperators.Group.List.Basic
import Mathlib.Algebra.BigOperators.Group.Finset.Basic
import Mathlib.Tactic.Abel

namespace Conc11.Library

/-- Where a thread inside a condition variable's `wait` stands.  `blocked`
threads can be notified.  A thread leaves `blocked` by a notification, or
without one (spuriously or because its deadline passed); either way it still
has to re-acquire the mutex before it looks at its predicate. -/
inductive WaitStatus where
  | blocked
  | notified
  | awake
deriving DecidableEq, Repr, Inhabited

/-- What holds of every thread in its phase still holds after one thread has
moved to a phase for which it holds. -/
theorem forall_update {T P : Type*} [DecidableEq T] (holds : T → P → Prop) {phase : T → P} {t : T}
    {now : P} (others : ∀ u, holds u (phase u)) (itself : holds t now) :
    ∀ u, holds u (Function.update phase t now u) :=
  (Function.forall_update_iff phase (p := holds)).mpr ⟨itself, fun u _ => others u⟩

section Population

variable {T P : Type*} [Fintype T] [DecidableEq T]

/-- The number of threads whose phase satisfies `p`. -/
def population (p : P → Bool) (phase : T → P) : Nat :=
  (Finset.univ.filter fun t => p (phase t) = true).card

omit [DecidableEq T] in
theorem population_eq_zero {p : P → Bool} {phase : T → P} :
    population p phase = 0 ↔ ∀ t, p (phase t) = false := by
  simp [population, Finset.filter_eq_empty_iff]

omit [DecidableEq T] in
theorem population_pos {p : P → Bool} {phase : T → P} :
    0 < population p phase ↔ ∃ t, p (phase t) = true := by
  simp [population, Finset.card_pos, Finset.filter_nonempty_iff]

omit [DecidableEq T] in
/-- Two phase functions with the same members of `p` have the same count. -/
theorem population_congr {p : P → Bool} {phase phase' : T → P}
    (same : ∀ t, p (phase' t) = p (phase t)) :
    population p phase' = population p phase := by
  simp [population, same]

/-- The balance of one update: the updated thread's old contribution leaves
the count and its new contribution enters. -/
theorem population_update (p : P → Bool) (phase : T → P) (t : T) (v : P) :
    population p (Function.update phase t v) + (p (phase t)).toNat =
      population p phase + (p v).toNat := by
  have others : ∀ phase' : T → P, (∀ u, u ≠ t → phase' u = phase u) →
      population p phase' =
        ((Finset.univ.erase t).filter fun u => p (phase u) = true).card +
          (p (phase' t)).toNat := by
    intro phase' agree
    have split : (Finset.univ : Finset T) = insert t (Finset.univ.erase t) := by simp
    have rest : (Finset.univ.erase t).filter (fun u => p (phase' u) = true) =
        (Finset.univ.erase t).filter (fun u => p (phase u) = true) := by
      apply Finset.filter_congr
      intro u member
      rw [agree u (Finset.ne_of_mem_erase member)]
    rw [population, split, Finset.filter_insert, rest]
    cases p (phase' t) <;> simp
  rw [others (Function.update phase t v) (fun u ne => Function.update_of_ne ne v phase),
    others phase (fun _ _ => rfl)]
  simp only [Function.update_self]
  omega

/-- A thread that moves between two phases outside `p` does not change the count. -/
theorem population_update_same {p : P → Bool} {phase : T → P} {t : T} {v : P}
    (same : p v = p (phase t)) :
    population p (Function.update phase t v) = population p phase := by
  have balance := population_update p phase t v
  rw [same] at balance
  omega

/-- A thread that enters `p` is counted once more. -/
theorem population_update_enter {p : P → Bool} {phase : T → P} {t : T} {v : P}
    (before : p (phase t) = false) (after : p v = true) :
    population p (Function.update phase t v) = population p phase + 1 := by
  have balance := population_update p phase t v
  simp only [before, after, Bool.toNat_false, Bool.toNat_true] at balance
  omega

/-- A thread that leaves `p` is counted once less. -/
theorem population_update_leave {p : P → Bool} {phase : T → P} {t : T} {v : P}
    (before : p (phase t) = true) (after : p v = false) :
    population p (Function.update phase t v) + 1 = population p phase := by
  have balance := population_update p phase t v
  simp only [before, after, Bool.toNat_false, Bool.toNat_true] at balance
  omega

/-- Two threads that exchange their phases do not change the count. -/
theorem population_swap (p : P → Bool) (phase : T → P) (t u : T) :
    population p (Function.update (Function.update phase t (phase u)) u (phase t)) =
      population p phase := by
  have first := population_update p phase t (phase u)
  have second := population_update p (Function.update phase t (phase u)) u (phase t)
  have current : Function.update phase t (phase u) u = phase u := by
    by_cases same : u = t
    · rw [same, Function.update_self]
    · rw [Function.update_of_ne same]
  rw [current] at second
  omega

/-- The threads of `members` in one phase, and all others in another one. -/
def filled (inside outside : P) (members : Finset T) : T → P :=
  members.piecewise (fun _ => inside) fun _ => outside

section Filled

variable {phase : T → P} {inside outside : P} {members : Finset T}

omit [Fintype T] in
theorem filled_of_mem {t : T} (isFilled : phase = filled inside outside members)
    (member : t ∈ members) : phase t = inside := by
  rw [isFilled]
  exact Finset.piecewise_eq_of_mem _ _ _ member

omit [Fintype T] in
theorem filled_of_notMem {t : T} (isFilled : phase = filled inside outside members)
    (absent : t ∉ members) : phase t = outside := by
  rw [isFilled]
  exact Finset.piecewise_eq_of_notMem _ _ _ absent

theorem population_filled {p : P → Bool} (isFilled : phase = filled inside outside members)
    (counted : p inside = true) (notCounted : p outside = false) :
    population p phase = members.card := by
  have reads : ∀ t, p (phase t) = true ↔ t ∈ members := by
    intro t
    by_cases member : t ∈ members
    · rw [filled_of_mem isFilled member]
      exact iff_of_true counted member
    · rw [filled_of_notMem isFilled member, notCounted]
      exact iff_of_false Bool.false_ne_true member
  simp only [population, reads, Finset.filter_mem_eq_inter, Finset.univ_inter]

theorem population_filled_none {p : P → Bool} (isFilled : phase = filled inside outside members)
    (notInside : p inside = false) (notOutside : p outside = false) : population p phase = 0 := by
  refine population_eq_zero.mpr fun t => ?_
  by_cases member : t ∈ members
  · rw [filled_of_mem isFilled member, notInside]
  · rw [filled_of_notMem isFilled member, notOutside]

end Filled

/-- The sum of a weight over all threads. -/
def total (weight : P → Nat) (phase : T → P) : Nat := ∑ t, weight (phase t)

/-- The balance of one update for a total. -/
theorem total_update (weight : P → Nat) (phase : T → P) (t : T) (v : P) :
    total weight (Function.update phase t v) + weight (phase t) =
      total weight phase + weight v := by
  have others : ∑ u ∈ Finset.univ.erase t, weight (Function.update phase t v u) =
      ∑ u ∈ Finset.univ.erase t, weight (phase u) := by
    refine Finset.sum_congr rfl fun u member => ?_
    rw [Function.update_of_ne (Finset.ne_of_mem_erase member)]
  unfold total
  rw [← Finset.add_sum_erase _ (fun u => weight (Function.update phase t v u)) (Finset.mem_univ t),
    ← Finset.add_sum_erase _ (fun u => weight (phase u)) (Finset.mem_univ t), others,
    Function.update_self]
  omega

/-- A thread that moves to a phase of less weight lowers the total. -/
theorem total_update_lt {weight : P → Nat} {phase : T → P} {t : T} {v : P}
    (lighter : weight v < weight (phase t)) :
    total weight (Function.update phase t v) < total weight phase := by
  have balance := total_update weight phase t v
  omega

/-- The balance when two threads move. -/
theorem total_update_pair (weight : P → Nat) (phase : T → P) {t u : T} (ne : t ≠ u) (v v' : P) :
    total weight (Function.update (Function.update phase u v) t v') +
        (weight (phase u) + weight (phase t)) =
      total weight phase + (weight v + weight v') := by
  have first := total_update weight phase u v
  have second := total_update weight (Function.update phase u v) t v'
  rw [Function.update_of_ne ne] at second
  omega

end Population

section Lists

variable {T P : Type*} [DecidableEq T]

/-- An update at a thread outside the list is not seen by a count over it. -/
theorem countP_update_of_notMem {p : P → Bool} {phase : T → P} {t : T} {v : P}
    {threads : List T} (absent : t ∉ threads) :
    threads.countP (fun u => p (Function.update phase t v u)) =
      threads.countP (fun u => p (phase u)) := by
  apply List.countP_congr
  intro u member
  have ne : u ≠ t := fun equal => absent (equal ▸ member)
  rw [Function.update_of_ne ne]

/-- The balance of one update over a duplicate-free list of threads. -/
theorem countP_update {p : P → Bool} (phase : T → P) {t : T} (v : P)
    {threads : List T} (nodup : threads.Nodup) (member : t ∈ threads) :
    threads.countP (fun u => p (Function.update phase t v u)) + (p (phase t)).toNat =
      threads.countP (fun u => p (phase u)) + (p v).toNat := by
  induction threads with
  | nil => simp at member
  | cons head rest ih =>
      obtain ⟨headFresh, restNodup⟩ := List.nodup_cons.mp nodup
      by_cases atHead : t = head
      · subst atHead
        rw [List.countP_cons, List.countP_cons, countP_update_of_notMem headFresh,
          Function.update_self]
        cases p (phase t) <;> cases p v <;> simp
      · have inRest : t ∈ rest := (List.mem_cons.mp member).resolve_left atHead
        have balance := ih restNodup inRest
        rw [List.countP_cons, List.countP_cons, Function.update_of_ne (Ne.symm atHead)]
        omega

/-! ### What the listed threads hold -/

variable {M : Type*} [AddCommMonoid M]

theorem sum_map_update_of_notMem {hold : P → M} {phase : T → P} {t : T} {v : P}
    {threads : List T} (absent : t ∉ threads) :
    (threads.map fun u => hold (Function.update phase t v u)).sum =
      (threads.map fun u => hold (phase u)).sum := by
  congr 1
  refine List.map_congr_left fun u member => ?_
  have ne : u ≠ t := fun equal => absent (equal ▸ member)
  rw [Function.update_of_ne ne]

/-- The balance of one update for the sum of what the threads hold. -/
theorem sum_map_update {hold : P → M} (phase : T → P) {t : T} (v : P) {threads : List T}
    (nodup : threads.Nodup) (member : t ∈ threads) :
    (threads.map fun u => hold (Function.update phase t v u)).sum + hold (phase t) =
      (threads.map fun u => hold (phase u)).sum + hold v := by
  have absent : t ∉ threads.erase t := nodup.not_mem_erase
  rw [← List.sum_map_erase (fun u => hold (Function.update phase t v u)) member,
    ← List.sum_map_erase (fun u => hold (phase u)) member, sum_map_update_of_notMem absent,
    Function.update_self]
  abel

end Lists

end Conc11.Library
