/-
Module: Conc11.Library.SwapRemove
Purpose: Removing a list element by moving the last element into its place, the constant-time removal
  from an unordered vector: which elements remain, and which positions change.
Trusted boundary: none
Main exports: swapRemove, swapRemove_perm, mem_swapRemove, getElem?_swapRemove
-/
import Mathlib.Data.List.Nodup
import Mathlib.Tactic.Common

namespace Conc11.Library

variable {α : Type*}

/-- Put the last element at position `i` and drop the last position. -/
def swapRemove (l : List α) (i : Nat) : List α :=
  match l.getLast? with
  | none => []
  | some b => (l.set i b).dropLast

theorem swapRemove_concat (init : List α) (b : α) (i : Nat) :
    swapRemove (init ++ [b]) i = init.set i b := by
  rw [swapRemove, List.getLast?_concat]
  by_cases inside : i < init.length
  · simp [inside]
  · have same : init.set i b = init := List.set_eq_of_length_le (by omega)
    simp only [List.set_append, inside, if_false, same]
    cases i - init.length <;> simp

/-- The removed element and the remaining ones are the old ones. -/
theorem swapRemove_perm {l : List α} {i : Nat} {a : α} (found : l[i]? = some a) :
    (a :: swapRemove l i).Perm l := by
  rcases List.eq_nil_or_concat' l with rfl | ⟨init, b, rfl⟩
  · simp at found
  · rw [swapRemove_concat]
    by_cases inside : i < init.length
    · rw [List.getElem?_append_left inside] at found
      obtain ⟨_, rfl⟩ := List.getElem?_eq_some_iff.mp found
      have parts : init = init.take i ++ init[i] :: init.drop (i + 1) := by simp
      rw [List.set_eq_take_append_cons_drop, if_pos inside]
      have toEnd : (init.take i ++ b :: init.drop (i + 1)).Perm
          ((init.take i ++ init.drop (i + 1)) ++ [b]) := by
        rw [List.append_assoc]
        exact List.Perm.append_left _ (List.perm_append_singleton _ _).symm
      have back : (init[i] :: (init.take i ++ init.drop (i + 1))).Perm init := by
        conv_rhs => rw [parts]
        exact List.perm_middle.symm
      exact (toEnd.cons _).trans (back.append_right [b])
    · rw [List.set_eq_of_length_le (by omega)]
      have atEnd : i = init.length := by
        have bound := (List.getElem?_eq_some_iff.mp found).1
        simp only [List.length_append, List.length_singleton] at bound
        omega
      subst atEnd
      simp only [List.getElem?_concat_length, Option.some.injEq] at found
      subst found
      exact (List.perm_append_singleton b init).symm

theorem swapRemove_nodup {l : List α} {i : Nat} {a : α} (found : l[i]? = some a)
    (nodup : l.Nodup) : (swapRemove l i).Nodup :=
  (List.nodup_cons.mp ((swapRemove_perm found).nodup_iff.mpr nodup)).2

/-- In a duplicate-free list exactly the element at `i` goes. -/
theorem mem_swapRemove {l : List α} {i : Nat} {a : α} (found : l[i]? = some a)
    (nodup : l.Nodup) (c : α) : c ∈ swapRemove l i ↔ c ∈ l ∧ c ≠ a := by
  have perm := swapRemove_perm found
  have fresh := (List.nodup_cons.mp (perm.nodup_iff.mpr nodup)).1
  rw [← perm.mem_iff, List.mem_cons]
  constructor
  · intro member
    exact ⟨.inr member, fun same => fresh (same ▸ member)⟩
  · rintro ⟨same | member, ne⟩
    · exact absurd same ne
    · exact member

theorem length_swapRemove {l : List α} {i : Nat} {a : α} (found : l[i]? = some a) :
    (swapRemove l i).length + 1 = l.length :=
  (swapRemove_perm found).length_eq

theorem countP_swapRemove {l : List α} {i : Nat} {a : α} (found : l[i]? = some a)
    (p : α → Bool) : (swapRemove l i).countP p + (p a).toNat = l.countP p := by
  rw [← (swapRemove_perm found).countP_eq, List.countP_cons]
  cases p a <;> simp

/-- Every position but `i` keeps its element, and `i` holds the former last one. -/
theorem getElem?_swapRemove {l : List α} {i j : Nat} {a c : α}
    (found : l[i]? = some a) (at_j : (swapRemove l i)[j]? = some c) :
    j = i ∧ l.getLast? = some c ∨ j ≠ i ∧ l[j]? = some c := by
  rcases List.eq_nil_or_concat' l with rfl | ⟨init, b, rfl⟩
  · simp at found
  · rw [swapRemove_concat] at at_j
    by_cases same : j = i
    · subst same
      rw [List.getElem?_set_self'] at at_j
      left
      obtain ⟨_, _, rfl⟩ := Option.map_eq_some_iff.mp at_j
      simp
    · rw [List.getElem?_set_ne (Ne.symm same)] at at_j
      right
      exact ⟨same, by
        rw [List.getElem?_append_left (List.getElem?_eq_some_iff.mp at_j).1, at_j]⟩

end Conc11.Library
