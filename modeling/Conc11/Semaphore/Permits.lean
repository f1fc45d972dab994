/-
Module: Conc11.Semaphore.Permits
Purpose: What the two semaphores of concurrency/semaphore.h share: requests, call names, and the comparisons
  between `int` and `unsigned int` for numbers up to INT_MAX.
Trusted boundary: none
Main exports: Request, CallId, intMax, sle_iff, toNat_sub
-/
import Mathlib.Algebra.Order.Ring.Nat

namespace Conc11.Semaphore

/-- A number of permits as the calls take it: `unsigned int`. -/
abbrev Request := BitVec 32

/-- Calls of `acquire`, `try_acquire` and `try_acquire_for` are told apart by
a number.  A thread that makes several calls is several calls in a row. -/
abbrev CallId := Nat

/-- INT_MAX. -/
def intMax : Nat := 2 ^ 31 - 1

/-! ## Arithmetic below INT_MAX -/

section Arithmetic

variable {a b : BitVec 32}

theorem toInt_eq (small : a.toNat ≤ intMax) : a.toInt = a.toNat := by
  apply BitVec.toInt_eq_toNat_of_lt
  unfold intMax at small
  omega

theorem sle_iff (smallA : a.toNat ≤ intMax) (smallB : b.toNat ≤ intMax) :
    a.sle b = true ↔ a.toNat ≤ b.toNat := by
  rw [BitVec.sle, decide_eq_true_iff, toInt_eq smallA, toInt_eq smallB]
  omega

theorem toNat_sub (enough : a.toNat ≤ b.toNat) : (b - a).toNat = b.toNat - a.toNat :=
  BitVec.toNat_sub_of_le (BitVec.le_def.mpr enough)

theorem not_negative (small : a.toNat ≤ intMax) : a.slt 0#32 = false := by
  rw [BitVec.slt, toInt_eq small]
  simp

theorem small_of_nonneg (nonneg : 0 ≤ a.toInt) : a.toNat ≤ intMax := by
  rw [BitVec.toInt] at nonneg
  unfold intMax
  split at nonneg <;> omega

end Arithmetic

end Conc11.Semaphore
