/-
Module: Conc11.Library.FlagCounter
Purpose: A machine word that packs a flag (one bit) over a counter (the bits below it), and how masking,
  setting, clearing, incrementing and decrementing act on the pair.
Trusted boundary: none
Main exports: flagMask, countMask, pack, pack_and_flagMask_eq_zero, pack_and_countMask_eq_zero,
  pack_and_countMask_eq_countMask, pack_or_flagMask, pack_and_not_flagMask, pack_add_one, pack_sub_one
-/
import Mathlib.Data.Nat.Bitwise
import Mathlib.Tactic.Common

namespace Conc11.Library.FlagCounter

variable {w p : Nat}

/-- The flag bit: bit `p` of a `w`-bit word. -/
def flagMask (w p : Nat) : BitVec w := 1#w <<< p

/-- The counter bits: the bits below bit `p`. -/
def countMask (w p : Nat) : BitVec w := flagMask w p - 1#w

/-- The word with the given flag and counter. -/
def pack (w p : Nat) (flag : Bool) (count : Nat) : BitVec w :=
  BitVec.ofNat w ((if flag then 2 ^ p else 0) + count)

section Values

variable (fits : p < w)
include fits

theorem toNat_flagMask : (flagMask w p).toNat = 2 ^ p := by
  have one : 1 % 2 ^ w = 1 := Nat.mod_eq_of_lt (Nat.one_lt_two_pow (by omega))
  have below : 2 ^ p < 2 ^ w := Nat.pow_lt_pow_right (by omega) fits
  simp [flagMask, BitVec.toNat_shiftLeft, one, Nat.shiftLeft_eq, Nat.mod_eq_of_lt below]

theorem toNat_countMask : (countMask w p).toNat = 2 ^ p - 1 := by
  have one : 1 % 2 ^ w = 1 := Nat.mod_eq_of_lt (Nat.one_lt_two_pow (by omega))
  have below : 2 ^ p < 2 ^ w := Nat.pow_lt_pow_right (by omega) fits
  have positive : 0 < 2 ^ p := Nat.two_pow_pos p
  rw [countMask, BitVec.toNat_sub, toNat_flagMask fits, BitVec.toNat_ofNat, one]
  rw [show 2 ^ w - 1 + 2 ^ p = 2 ^ p - 1 + 2 ^ w by omega, Nat.add_mod_right,
    Nat.mod_eq_of_lt (by omega)]

theorem toNat_pack {flag : Bool} {count : Nat} (small : count < 2 ^ p) :
    (pack w p flag count).toNat = (if flag then 2 ^ p else 0) + count := by
  have twice : 2 ^ (p + 1) ≤ 2 ^ w := Nat.pow_le_pow_right (by omega) fits
  rw [pack, BitVec.toNat_ofNat, Nat.mod_eq_of_lt]
  rw [Nat.pow_succ] at twice
  split <;> omega

/-- The bits of a packed word: the counter's below the flag, then the flag. -/
theorem testBit_pack {flag : Bool} {count : Nat} (small : count < 2 ^ p) (i : Nat) :
    (pack w p flag count).toNat.testBit i =
      if i < p then count.testBit i else (decide (i = p) && flag) := by
  rw [toNat_pack fits small]
  have high : ∀ j, p ≤ j → count.testBit j = false := fun j above =>
    Nat.testBit_lt_two_pow (Nat.lt_of_lt_of_le small (Nat.pow_le_pow_right (by omega) above))
  cases flag with
  | false =>
      by_cases below : i < p
      · simp [below]
      · simp [below, high i (by omega)]
  | true =>
      simp only [if_true, Bool.and_true]
      rw [← Nat.mul_one (2 ^ p), Nat.two_pow_add_eq_or_of_lt small, Nat.mul_one,
        Nat.testBit_or, Nat.testBit_two_pow]
      by_cases below : i < p
      · have ne : p ≠ i := by omega
        simp [below, ne]
      · simp [below, high i (by omega), eq_comm]

theorem pack_and_flagMask {flag : Bool} {count : Nat} (small : count < 2 ^ p) :
    pack w p flag count &&& flagMask w p = if flag then flagMask w p else 0#w := by
  apply BitVec.eq_of_toNat_eq
  apply Nat.eq_of_testBit_eq
  intro i
  rw [BitVec.toNat_and, Nat.testBit_and, testBit_pack fits small, toNat_flagMask fits,
    Nat.testBit_two_pow]
  cases flag with
  | false =>
      have flagless : i < p → p ≠ i := fun below => by omega
      by_cases below : i < p <;> simp [below, flagless]
  | true =>
      rw [if_pos rfl, toNat_flagMask fits, Nat.testBit_two_pow]
      by_cases at_flag : p = i
      · simp [at_flag]
      · simp [at_flag]

theorem flagMask_ne_zero : flagMask w p ≠ 0#w := by
  intro equal
  have values := congrArg BitVec.toNat equal
  rw [toNat_flagMask fits, BitVec.toNat_ofNat, Nat.zero_mod] at values
  exact absurd values (Nat.two_pow_pos p).ne'

/-- The flag test reads the flag. -/
theorem pack_and_flagMask_eq_zero {flag : Bool} {count : Nat} (small : count < 2 ^ p) :
    pack w p flag count &&& flagMask w p = 0#w ↔ flag = false := by
  rw [pack_and_flagMask fits small]
  cases flag with
  | false => simp
  | true => simpa using flagMask_ne_zero fits

/-- Masking with the counter bits reads the counter. -/
theorem toNat_pack_and_countMask {flag : Bool} {count : Nat} (small : count < 2 ^ p) :
    (pack w p flag count &&& countMask w p).toNat = count := by
  rw [BitVec.toNat_and, toNat_countMask fits, Nat.and_two_pow_sub_one_eq_mod,
    toNat_pack fits small]
  cases flag <;> simp [Nat.mod_eq_of_lt small]

theorem pack_and_countMask_eq_zero {flag : Bool} {count : Nat} (small : count < 2 ^ p) :
    pack w p flag count &&& countMask w p = 0#w ↔ count = 0 := by
  rw [← BitVec.toNat_inj, toNat_pack_and_countMask fits small]
  simp

theorem pack_and_countMask_eq_countMask {flag : Bool} {count : Nat} (small : count < 2 ^ p) :
    pack w p flag count &&& countMask w p = countMask w p ↔ count = 2 ^ p - 1 := by
  rw [← BitVec.toNat_inj, toNat_pack_and_countMask fits small, toNat_countMask fits]

/-- Masking with the counter bits reads one less than the counter's limit. -/
theorem pack_and_countMask_eq_pred {flag : Bool} {count : Nat} (small : count < 2 ^ p)
    (room : 2 ≤ 2 ^ p) :
    pack w p flag count &&& countMask w p = countMask w p - 1#w ↔ count + 1 = 2 ^ p - 1 := by
  have one : 1 % 2 ^ w = 1 := Nat.mod_eq_of_lt (Nat.one_lt_two_pow (by omega))
  have below : 2 ^ p < 2 ^ w := Nat.pow_lt_pow_right (by omega) fits
  have pred : (countMask w p - 1#w).toNat = 2 ^ p - 2 := by
    rw [BitVec.toNat_sub, toNat_countMask fits, BitVec.toNat_ofNat, one,
      show 2 ^ w - 1 + (2 ^ p - 1) = 2 ^ p - 2 + 2 ^ w by omega, Nat.add_mod_right,
      Nat.mod_eq_of_lt (by omega)]
  rw [← BitVec.toNat_inj, toNat_pack_and_countMask fits small, pred]
  omega

theorem pack_or_flagMask {flag : Bool} {count : Nat} (small : count < 2 ^ p) :
    pack w p flag count ||| flagMask w p = pack w p true count := by
  apply BitVec.eq_of_toNat_eq
  apply Nat.eq_of_testBit_eq
  intro i
  rw [BitVec.toNat_or, Nat.testBit_or, testBit_pack fits small, testBit_pack fits small,
    toNat_flagMask fits, Nat.testBit_two_pow]
  by_cases below : i < p
  · have ne : p ≠ i := by omega
    simp [below, ne]
  · by_cases at_flag : i = p
    · simp [at_flag]
    · have ne : p ≠ i := Ne.symm at_flag
      simp [below, at_flag, ne]

theorem pack_and_not_flagMask {flag : Bool} {count : Nat} (small : count < 2 ^ p) :
    pack w p flag count &&& ~~~(flagMask w p) = pack w p false count := by
  apply BitVec.eq_of_getLsbD_eq
  intro i inWord
  have flagBit : (flagMask w p).getLsbD i = decide (p = i) := by
    rw [BitVec.getLsbD, toNat_flagMask fits, Nat.testBit_two_pow]
  rw [BitVec.getLsbD_and, BitVec.getLsbD_not, flagBit, BitVec.getLsbD, BitVec.getLsbD,
    testBit_pack fits small, testBit_pack fits small]
  by_cases below : i < p
  · have ne : p ≠ i := by omega
    simp [below, ne, inWord]
  · by_cases at_flag : i = p
    · simp [at_flag]
    · simp [below, at_flag]

theorem pack_eq_zero {flag : Bool} {count : Nat} (small : count < 2 ^ p) :
    pack w p flag count = 0#w ↔ flag = false ∧ count = 0 := by
  rw [← BitVec.toNat_inj, toNat_pack fits small]
  have positive : 0 < 2 ^ p := Nat.two_pow_pos p
  cases flag with
  | false => simp
  | true => simp

theorem flagMask_eq_pack : flagMask w p = pack w p true 0 := by
  apply BitVec.eq_of_toNat_eq
  rw [toNat_flagMask fits, toNat_pack fits (Nat.two_pow_pos p), if_pos rfl, Nat.add_zero]

end Values

/-- Counting up does not carry into the flag below the counter's limit. -/
theorem pack_add_one (flag : Bool) (count : Nat) :
    pack w p flag count + 1#w = pack w p flag (count + 1) := by
  rw [pack, pack, ← BitVec.ofNat_add, Nat.add_assoc]

/-- Counting down does not borrow from the flag above zero. -/
theorem pack_sub_one (flag : Bool) (count : Nat) :
    pack w p flag (count + 1) - 1#w = pack w p flag count := by
  rw [← pack_add_one, BitVec.add_sub_cancel]

end Conc11.Library.FlagCounter
