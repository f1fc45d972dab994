/-
Module: Conc11.Library.Broadcast
Purpose: Condition variables whose notification is sent to all sleepers, possibly some time after the change
  that makes it necessary.  As long as a change that lets a sleeper go on leaves its author with the
  notification still to send, no sleeper is forgotten.
Trusted boundary: none
Main exports: Attended, Attended.announce, Attended.move, Attended.broadcast
-/
import Mathlib.Logic.Function.Basic
import Mathlib.Tactic.Common

namespace Conc11.Library

section Attended

variable {T P : Type*} [DecidableEq T]

/-- Whoever is asleep although `wants` holds of its phase is going to be
notified: some thread is about to send a notification. -/
def Attended (asleep sends : P → Bool) (wants : P → Prop) (phase : T → P) : Prop :=
  ∀ t, asleep (phase t) = true → wants (phase t) → ∃ u, sends (phase u) = true

variable {asleep sends : P → Bool} {wants wants' : P → Prop} {phase : T → P} {t : T} {now : P}

namespace Attended

/-- Whatever a thread changes, it may do so if it then goes on to notify. -/
theorem announce (sending : sends now = true) :
    Attended asleep sends wants (Function.update phase t now) := by
  intro u _ _
  exact ⟨t, by rwa [Function.update_self]⟩

/-- A thread that wakes nobody up keeps its own notification, goes to sleep
only where nothing is wanted of it, and gives the others no new reason to go on. -/
theorem move (attended : Attended asleep sends wants phase)
    (others : ∀ u, u ≠ t → asleep (phase u) = true → wants' (phase u) → wants (phase u))
    (itself : asleep now = true → ¬ wants' now)
    (keeps : sends (phase t) = true → sends now = true) :
    Attended asleep sends wants' (Function.update phase t now) := by
  intro u sleeps wanted
  by_cases same : u = t
  · rw [same, Function.update_self] at sleeps wanted
    exact absurd wanted (itself sleeps)
  · rw [Function.update_of_ne same] at sleeps wanted
    obtain ⟨v, sending⟩ := attended u sleeps (others u same sleeps wanted)
    refine ⟨v, ?_⟩
    by_cases isT : v = t
    · rw [isT, Function.update_self]
      exact keeps (isT ▸ sending)
    · rwa [Function.update_of_ne isT]

/-- After a notification nobody is asleep. -/
theorem broadcast {wake : P → P} (woken : ∀ p, asleep (wake p) = false)
    (itself : asleep now = false) :
    Attended asleep sends wants (Function.update (fun u => wake (phase u)) t now) := by
  intro u sleeps
  exfalso
  by_cases same : u = t
  · rw [same, Function.update_self, itself] at sleeps
    cases sleeps
  · rw [Function.update_of_ne same, woken] at sleeps
    cases sleeps

end Attended

end Attended

end Conc11.Library
