/-
Module: Conc11.SpinLock.AsLock
Purpose: `FairSpinLock` as a lock in the sense of its users, for any number of threads below the number of values
  of its counters.
Trusted boundary: none
Main exports: fewInFlight_of_reachable, fairSpinLock
-/
import Conc11.Library.Monitor
import Conc11.SpinLock.FairSpinLock

namespace Conc11.SpinLock

open Library

variable {T : Type*} [DecidableEq T] {w : Nat} {s s' : System T w} {a : Action T}

/-- With fewer threads than values no run brings too many of them in flight. -/
theorem fewInFlight_of_reachable [Fintype T] (fewThreads : Fintype.card T < 2 ^ w)
    (reachable : (machine T w).Reachable s) : (machine T w).ReachableUnder FewInFlight s := by
  refine reachable.invariant .initial fun s a s' _ reached _ stepEq => reached.step ?_ stepEq
  cases a with
  | take t =>
      obtain ⟨outside, _⟩ := Option.ite_none_right_eq_some.mp stepEq
      have notInFlight : t ∉ Finset.univ.filter fun u => (s.pc u).isInFlight = true := by
        have notIn : (s.pc t).isInFlight = false := by
          rw [outside]
          rfl
        simp [notIn]
      have fewer : s.inFlight < Fintype.card T := Finset.card_lt_univ_of_notMem notInFlight
      change s.inFlight + 1 < 2 ^ w
      omega
  | spin t => trivial
  | unlock t => trivial

theorem isHolding_kept {t : T} (stepEq : step s a = some s') (holding : (s.pc t).isHolding = true)
    (kept : a ≠ .unlock t) : (s'.pc t).isHolding = true := by
  have other : ∀ {u : T}, (s.pc u).isHolding = false →
      ∀ pc, (Function.update s.pc u pc t).isHolding = true := by
    intro u elsewhere pc
    have ne : t ≠ u := by
      rintro rfl
      rw [holding] at elsewhere
      cases elsewhere
    rw [Function.update_of_ne ne, holding]
  cases a with
  | take u =>
      obtain ⟨outside, moved⟩ := Option.ite_none_right_eq_some.mp stepEq
      cases moved
      exact other (by rw [outside]; rfl) _
  | spin u =>
      dsimp only [step] at stepEq
      split at stepEq
      next ticket spinning =>
        cases stepEq
        unfold spin
        split
        next => exact holding
        next => exact other (by rw [spinning]; rfl) _
      next => cases stepEq
  | unlock u =>
      obtain ⟨_, moved⟩ := Option.ite_none_right_eq_some.mp stepEq
      cases moved
      have ne : t ≠ u := by
        rintro rfl
        exact kept rfl
      change (Function.update s.pc u .outside t).isHolding = true
      rw [Function.update_of_ne ne, holding]

/-- `FairSpinLock`, seen by the threads that lock and unlock it. -/
def fairSpinLock (T : Type*) [Fintype T] [DecidableEq T] (w : Nat)
    (fewThreads : Fintype.card T < 2 ^ w) : Lock (System T w) (Action T) T :=
  { machine := machine T w
    holds := fun s t => if (s.pc t).isHolding then some .exclusive else none
    begins := fun
      | .take t => some (t, .exclusive)
      | _ => none
    releases := fun
      | .unlock t => some t
      | _ => none
    alone := fun s reachable t u owned beside => by
      obtain ⟨holdsT, _⟩ := Option.ite_none_right_eq_some.mp owned
      have holdsU : (s.pc u).isHolding = true := by
        by_contra elsewhere
        exact beside (if_neg elsewhere)
      obtain ⟨_, _, inLine⟩ := inLine_of_reachable (fewInFlight_of_reachable fewThreads reachable)
      cases pcT : s.pc t with
      | holding _ =>
          cases pcU : s.pc u with
          | holding _ => exact inLine.unique pcU pcT
          | _ =>
              rw [pcU] at holdsU
              cases holdsU
      | _ =>
          rw [pcT] at holdsT
          cases holdsT
    keeps := fun s a s' _ stepEq t mode owned kept => by
      obtain ⟨holding, isMode⟩ := Option.ite_none_right_eq_some.mp owned
      have still := isHolding_kept stepEq holding (by rintro rfl; exact kept rfl)
      rw [if_pos still, ← isMode]
    drops := fun s a s' t _ stepEq released => by
      cases a with
      | unlock u =>
          cases released
          obtain ⟨_, moved⟩ := Option.ite_none_right_eq_some.mp stepEq
          cases moved
          apply if_neg
          change ¬ (Function.update s.pc t .outside t).isHolding = true
          rw [Function.update_self]
          exact Bool.false_ne_true
      | _ => cases released }

end Conc11.SpinLock
