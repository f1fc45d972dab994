/-
Module: Conc11.Library.Sequential
Purpose: A machine used by one caller at a time.  A call is a start label and then the caller's own labels until
  it has returned; a machine whose calls do what an abstract object says has the histories of that object.
Trusted boundary: none
Main exports: Interface, Interface.Completes, Interface.History, Sequential, Sequential.run, Implements,
  Implements.run_eq, Implements.history_of_run, Implements.of_midway
-/
import Conc11.Library.Machine

namespace Conc11.Library

/-- How calls are made: the label that starts a call, the labels with which its
caller goes on, the states in which it has returned, and what is seen then. -/
structure Interface (σ α κ ω : Type*) where
  start : κ → α
  continues : κ → α → Prop
  returned : κ → σ → Prop
  observe : κ → σ → ω

namespace Interface

variable {σ α κ ω : Type*} (I : Interface σ α κ ω) (M : Machine σ α)

/-- The call runs alone from `s` and returns in `s'`. -/
def Completes (s : σ) (call : κ) (s' : σ) : Prop :=
  ∃ first, M.step s (I.start call) = some first ∧
    M.LaterUnder (fun _ a => I.continues call a) first s' ∧ I.returned call s'

/-- Complete calls one after the other, with what each of them shows. -/
inductive History : σ → List κ → List ω → σ → Prop
  | nil (s : σ) : History s [] [] s
  | cons {s middle s' : σ} {call : κ} {calls : List κ} {seen : List ω}
      (completes : I.Completes M s call middle) (rest : History middle calls seen s') :
      History s (call :: calls) (I.observe call middle :: seen) s'

end Interface

/-- An abstract object: what a call makes of it, where the call is allowed and
returns, and what the call shows then. -/
structure Sequential (π κ ω : Type*) where
  after : π → κ → Option π
  observe : κ → π → ω

namespace Sequential

variable {π κ ω : Type*} (spec : Sequential π κ ω)

/-- A sequence of calls on the object. -/
def run (p : π) : List κ → Option (π × List ω)
  | [] => some (p, [])
  | call :: calls =>
      (spec.after p call).bind fun middle =>
        (run middle calls).map fun rest => (rest.1, spec.observe call middle :: rest.2)

end Sequential

section Implements

variable {σ α κ ω π : Type*}

/-- `embed` gives the machine's state for each state of the object; a call
completes exactly as on the object. -/
structure Implements (I : Interface σ α κ ω) (M : Machine σ α) (spec : Sequential π κ ω)
    (embed : π → σ) : Prop where
  sound : ∀ p call s', I.Completes M (embed p) call s' →
    ∃ p', spec.after p call = some p' ∧ s' = embed p'
  complete : ∀ p call p', spec.after p call = some p' → I.Completes M (embed p) call (embed p')
  same : ∀ call p, I.observe call (embed p) = spec.observe call p

variable {I : Interface σ α κ ω} {M : Machine σ α} {spec : Sequential π κ ω} {embed : π → σ}
  {p : π} {s' : σ} {calls : List κ} {seen : List ω}

namespace Implements

theorem run_eq (implements : Implements I M spec embed)
    (history : I.History M (embed p) calls seen s') :
    ∃ p', spec.run p calls = some (p', seen) ∧ s' = embed p' := by
  generalize startEq : embed p = s at history
  induction history generalizing p with
  | nil s => exact ⟨p, rfl, startEq.symm⟩
  | @cons _ _ _ call calls seen completes rest ih =>
      subst startEq
      obtain ⟨middle, after, rfl⟩ := implements.sound p _ _ completes
      obtain ⟨p', ran, rfl⟩ := ih rfl
      refine ⟨p', ?_, rfl⟩
      rw [Sequential.run, after, Option.bind_some, ran, Option.map_some, implements.same]

theorem history_of_run (implements : Implements I M spec embed) {p' : π}
    (ran : spec.run p calls = some (p', seen)) :
    I.History M (embed p) calls seen (embed p') := by
  induction calls generalizing p seen with
  | nil =>
      cases ran
      exact .nil _
  | cons call calls ih =>
      obtain ⟨middle, after, mapped⟩ := Option.bind_eq_some_iff.mp ran
      obtain ⟨⟨p'', rest⟩, ranRest, split⟩ := Option.map_eq_some_iff.mp mapped
      obtain ⟨rfl, rfl⟩ := Prod.mk.inj split
      rw [← implements.same]
      exact .cons (implements.complete p call middle after) (ih ranRest)

/-- The rule for `Implements`: `Midway p call outcome s` says of a state `s` of
a call made in `p` what the call can still come to. -/
theorem of_midway {Midway : π → κ → Option π → σ → Prop}
    (enabled : ∀ p call p', spec.after p call = some p' →
      ∃ first, M.step (embed p) (I.start call) = some first)
    (started : ∀ p call first, M.step (embed p) (I.start call) = some first →
      Midway p call (spec.after p call) first)
    (goesOn : ∀ p call outcome s a s', Midway p call outcome s → I.continues call a →
      M.step s a = some s' → Midway p call outcome s')
    (rests : ∀ p call outcome s, Midway p call outcome s → I.returned call s →
      ∃ p', outcome = some p' ∧ s = embed p')
    (finishes : ∀ p call p' s, Midway p call (some p') s →
      M.LaterUnder (fun _ a => I.continues call a) s (embed p'))
    (returns : ∀ p call p', spec.after p call = some p' → I.returned call (embed p'))
    (same : ∀ call p, I.observe call (embed p) = spec.observe call p) :
    Implements I M spec embed := by
  refine ⟨fun p call s' completes => ?_, fun p call p' after => ?_, same⟩
  · obtain ⟨first, firstStep, later, returned⟩ := completes
    have midway : Midway p call (spec.after p call) s' := by
      clear returned
      induction later with
      | refl => exact started p call first firstStep
      | tail _ step ih =>
          obtain ⟨a, continues, stepEq⟩ := step
          exact goesOn p call _ _ a _ ih continues stepEq
    exact rests p call _ s' midway returned
  · obtain ⟨first, firstStep⟩ := enabled p call p' after
    have midway := started p call first firstStep
    rw [after] at midway
    exact ⟨first, firstStep, finishes p call p' first midway, returns p call p' after⟩

end Implements

end Implements

end Conc11.Library
