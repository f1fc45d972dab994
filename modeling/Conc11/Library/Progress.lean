/-
Module: Conc11.Library.Progress
Purpose: Runs that must end.  Where every allowed label lowers a measure, a run of allowed labels is no
  longer than the measure of its first state, and some such run ends where no allowed label is enabled.
  Disturbances from outside, each of which raises the measure by no more than a fixed cost, prolong a run
  by that much each.
Trusted boundary: none
Main exports: Machine.RunUnder, Machine.RunUnder.later, Machine.RunUnder.invariant, Machine.RunUnder.crossing,
  Machine.Descends, Machine.Withstands, Machine.Descends.length_le, Machine.Descends.length_le_disturbed,
  Machine.Descends.exists_rest, Machine.Drained, Machine.DrainedDespite, Machine.Descends.drainedDespite,
  Machine.Descends.drained
-/
import Conc11.Library.Machine
import Mathlib.Tactic.Common

namespace Conc11.Library.Machine

variable {σ α : Type*} (M : Machine σ α)

/-- The labels take `s` to `s'`, and every one of them satisfies `ok` where it is performed. -/
def RunUnder (ok : σ → α → Prop) : σ → List α → σ → Prop
  | s, [], s' => s = s'
  | s, a :: labels, s' => ∃ middle, ok s a ∧ M.step s a = some middle ∧ RunUnder ok middle labels s'

/-- No label that satisfies `ok` is enabled. -/
def RestsUnder (ok : σ → α → Prop) (s : σ) : Prop := ∀ a, ok s a → M.step s a = none

variable {M} {ok : σ → α → Prop}

theorem RunUnder.later {s s' : σ} {labels : List α} (run : M.RunUnder ok s labels s') :
    M.LaterUnder ok s s' := by
  induction labels generalizing s with
  | nil =>
      cases run
      exact .refl _
  | cons a labels ih =>
      obtain ⟨middle, allowed, stepEq, rest⟩ := run
      exact LaterUnder.head allowed stepEq (ih rest)

/-- A weaker side condition allows at least the same runs. -/
theorem RunUnder.mono {ok' : σ → α → Prop} (weaker : ∀ s a, ok s a → ok' s a) {s s' : σ}
    {labels : List α} (run : M.RunUnder ok s labels s') : M.RunUnder ok' s labels s' := by
  induction labels generalizing s with
  | nil => exact run
  | cons a labels ih =>
      obtain ⟨middle, allowed, stepEq, rest⟩ := run
      exact ⟨middle, weaker s a allowed, stepEq, ih rest⟩

/-- What every step of a run preserves. -/
theorem RunUnder.invariant {motive : σ → Prop}
    (preserved : ∀ s a s', motive s → ok s a → M.step s a = some s' → motive s') {s s' : σ}
    {labels : List α} (run : M.RunUnder ok s labels s') (base : motive s) : motive s' := by
  induction labels generalizing s with
  | nil =>
      cases run
      exact base
  | cons a labels ih =>
      obtain ⟨middle, allowed, stepEq, rest⟩ := run
      exact ih rest (preserved s a middle base allowed stepEq)

/-- One step more. -/
theorem RunUnder.concat {s m s' : σ} {labels : List α} {a : α} (run : M.RunUnder ok s labels m)
    (allowed : ok m a) (stepEq : M.step m a = some s') :
    M.RunUnder ok s (labels ++ [a]) s' := by
  induction labels generalizing s with
  | nil =>
      cases run
      exact ⟨s', allowed, stepEq, rfl⟩
  | cons b labels ih =>
      obtain ⟨middle, allowedB, stepB, rest⟩ := run
      exact ⟨middle, allowedB, stepB, ih rest⟩

/-- A run that begins inside `p` and ends outside leaves it with one of its steps. -/
theorem RunUnder.crossing {p : σ → Prop} {s s' : σ} {labels : List α}
    (run : M.RunUnder ok s labels s') (inside : p s) (outside : ¬ p s') :
    ∃ before a after m m', labels = before ++ a :: after ∧ M.RunUnder ok s before m ∧ p m ∧
      ok m a ∧ M.step m a = some m' ∧ ¬ p m' ∧ M.RunUnder ok m' after s' := by
  induction labels generalizing s with
  | nil =>
      cases run
      exact absurd inside outside
  | cons a labels ih =>
      obtain ⟨middle, allowed, stepEq, rest⟩ := run
      by_cases stays : p middle
      · obtain ⟨before, b, after, m, m', rfl, upTo, isIn, allowedB, stepB, isOut, onwards⟩ :=
          ih rest stays
        exact ⟨a :: before, b, after, m, m', rfl, ⟨middle, allowed, stepEq, upTo⟩, isIn, allowedB,
          stepB, isOut, onwards⟩
      · exact ⟨[], a, labels, s, middle, rfl, rfl, inside, allowed, stepEq, stays, rest⟩

/-- In the states of `inv`, an allowed label keeps `inv` and lowers `measure`. -/
structure Descends (M : Machine σ α) (inv : σ → Prop) (ok : σ → α → Prop) (measure : σ → Nat) :
    Prop where
  keeps : ∀ {s a s'}, inv s → ok s a → M.step s a = some s' → inv s'
  falls : ∀ {s a s'}, inv s → ok s a → M.step s a = some s' → measure s' < measure s

/-- The label is allowed, or it is a disturbance. -/
def AllowedOr (ok : σ → α → Prop) (disturbs : α → Bool) (s : σ) (a : α) : Prop :=
  ok s a ∨ disturbs a = true

/-- In the states of `inv`, a disturbance keeps `inv` and raises `measure` by
`cost` at most. -/
structure Withstands (M : Machine σ α) (inv : σ → Prop) (disturbs : α → Bool) (measure : σ → Nat)
    (cost : Nat) : Prop where
  keeps : ∀ {s a s'}, inv s → disturbs a = true → M.step s a = some s' → inv s'
  rises : ∀ {s a s'}, inv s → disturbs a = true → M.step s a = some s' →
    measure s' ≤ measure s + cost

/-- Where nothing disturbs. -/
theorem Withstands.none (M : Machine σ α) (inv : σ → Prop) (measure : σ → Nat) :
    M.Withstands inv (fun _ => false) measure 0 :=
  ⟨fun _ disturbed => absurd disturbed Bool.false_ne_true,
    fun _ disturbed => absurd disturbed Bool.false_ne_true⟩

namespace Descends

variable {inv : σ → Prop} {measure : σ → Nat} {disturbs : α → Bool} {cost : Nat}

theorem keeps_disturbed (descends : M.Descends inv ok measure)
    (withstands : M.Withstands inv disturbs measure cost) {s s' : σ} {labels : List α}
    (holds : inv s) (run : M.RunUnder (AllowedOr ok disturbs) s labels s') : inv s' := by
  refine run.invariant (fun s a s' before allowed stepEq => ?_) holds
  rcases allowed with isOk | disturbed
  · exact descends.keeps before isOk stepEq
  · exact withstands.keeps before disturbed stepEq

/-- A run pays for each of its steps out of the measure, and a disturbance pays
for itself and for what it costs. -/
theorem length_add_le (descends : M.Descends inv ok measure)
    (withstands : M.Withstands inv disturbs measure cost) {s s' : σ} {labels : List α}
    (holds : inv s) (run : M.RunUnder (AllowedOr ok disturbs) s labels s') :
    labels.length + measure s' ≤ measure s + (cost + 1) * labels.countP disturbs := by
  induction labels generalizing s with
  | nil =>
      cases run
      simp
  | cons a labels ih =>
      obtain ⟨middle, allowed, stepEq, rest⟩ := run
      rw [List.length_cons]
      cases disturbed : disturbs a with
      | true =>
          have later := ih (withstands.keeps holds disturbed stepEq) rest
          have raised := withstands.rises holds disturbed stepEq
          rw [List.countP_cons_of_pos disturbed, Nat.mul_succ]
          omega
      | false =>
          have isOk : ok s a := allowed.resolve_right (Bool.eq_false_iff.mp disturbed)
          have later := ih (descends.keeps holds isOk stepEq) rest
          have paid := descends.falls holds isOk stepEq
          rw [List.countP_cons_of_neg (Bool.eq_false_iff.mp disturbed)]
          omega

theorem length_le_disturbed (descends : M.Descends inv ok measure)
    (withstands : M.Withstands inv disturbs measure cost) {s s' : σ} {labels : List α}
    (holds : inv s) (run : M.RunUnder (AllowedOr ok disturbs) s labels s') :
    labels.length ≤ measure s + (cost + 1) * labels.countP disturbs :=
  Nat.le_trans (Nat.le_add_right _ _) (descends.length_add_le withstands holds run)

theorem length_le (descends : M.Descends inv ok measure) {s s' : σ} {labels : List α}
    (holds : inv s) (run : M.RunUnder ok s labels s') : labels.length ≤ measure s := by
  have bound := descends.length_le_disturbed (.none M inv measure) holds (run.mono fun _ _ => .inl)
  simpa using bound

/-- Whoever goes on as long as he can comes to rest. -/
theorem exists_rest (descends : M.Descends inv ok measure) {s : σ} (holds : inv s) :
    ∃ labels s', M.RunUnder ok s labels s' ∧ M.RestsUnder ok s' := by
  induction size : measure s using Nat.strongRecOn generalizing s with
  | _ n ih =>
      by_cases rests : M.RestsUnder ok s
      · exact ⟨[], s, rfl, rests⟩
      · simp only [RestsUnder, not_forall] at rests
        obtain ⟨a, allowed, enabled⟩ := rests
        obtain ⟨middle, stepEq⟩ := Option.ne_none_iff_exists'.mp enabled
        have lower := descends.falls holds allowed stepEq
        obtain ⟨labels, s', run, atRest⟩ :=
          ih (measure middle) (size ▸ lower) (descends.keeps holds allowed stepEq) rfl
        exact ⟨a :: labels, s', ⟨middle, allowed, stepEq, run⟩, atRest⟩

end Descends

/-- The runs of allowed labels from `s` on are bounded and can be ended.  Where
they end, `quiet` holds, and everybody who waited in `s` has been served on the
way. -/
structure Drained {ι : Type*} (M : Machine σ α) (ok : σ → α → Prop) (bound : Nat)
    (quiet : σ → Prop) (waits served : ι → σ → Prop) (s : σ) : Prop where
  bounded : ∀ labels s', M.RunUnder ok s labels s' → labels.length ≤ bound
  ends : ∃ labels s', M.RunUnder ok s labels s' ∧ M.RestsUnder ok s'
  quiet : ∀ labels s', M.RunUnder ok s labels s' → M.RestsUnder ok s' → quiet s'
  served : ∀ labels s', M.RunUnder ok s labels s' → M.RestsUnder ok s' → ∀ i, waits i s →
    ∃ before after middle, labels = before ++ after ∧ M.RunUnder ok s before middle ∧
      served i middle ∧ M.RunUnder ok middle after s'

/-- The same in spite of disturbances, which may come between the allowed labels
and prolong the run by `cost` labels each: wherever a run has come to, it can be
ended by allowed labels, and no allowed label is enabled only where `quiet` holds. -/
structure DrainedDespite {ι : Type*} (M : Machine σ α) (ok : σ → α → Prop) (disturbs : α → Bool)
    (cost bound : Nat) (quiet : σ → Prop) (waits served : ι → σ → Prop) (s : σ) : Prop where
  bounded : ∀ labels s', M.RunUnder (AllowedOr ok disturbs) s labels s' →
    labels.length ≤ bound + (cost + 1) * labels.countP disturbs
  ends : ∀ labels s', M.RunUnder (AllowedOr ok disturbs) s labels s' →
    ∃ more s'', M.RunUnder ok s' more s'' ∧ M.RestsUnder ok s''
  quiet : ∀ labels s', M.RunUnder (AllowedOr ok disturbs) s labels s' → M.RestsUnder ok s' →
    quiet s'
  served : ∀ labels s', M.RunUnder (AllowedOr ok disturbs) s labels s' → M.RestsUnder ok s' →
    ∀ i, waits i s → ∃ before after middle, labels = before ++ after ∧
      M.RunUnder (AllowedOr ok disturbs) s before middle ∧ served i middle ∧
      M.RunUnder (AllowedOr ok disturbs) middle after s'

namespace Descends

variable {ι : Type*} {inv : σ → Prop} {measure : σ → Nat} {quiet : σ → Prop}
  {waits served : ι → σ → Prop} {disturbs : α → Bool} {cost : Nat}

/-- Nobody who waits is given up, and in a quiet state nobody waits. -/
theorem drainedDespite (descends : M.Descends inv ok measure)
    (withstands : M.Withstands inv disturbs measure cost)
    (quiet_of_rests : ∀ s, inv s → M.RestsUnder ok s → quiet s)
    (goesOn : ∀ {s a s'} i, inv s → AllowedOr ok disturbs s a → M.step s a = some s' → waits i s →
      waits i s' ∨ served i s')
    (noneLeft : ∀ {s} i, inv s → quiet s → ¬ waits i s) {s : σ} (holds : inv s) :
    M.DrainedDespite ok disturbs cost (measure s) quiet waits served s := by
  have keeps : ∀ labels s', M.RunUnder (AllowedOr ok disturbs) s labels s' → inv s' :=
    fun _ _ run => descends.keeps_disturbed withstands holds run
  refine ⟨fun _ _ run => descends.length_le_disturbed withstands holds run,
    fun labels s' run => descends.exists_rest (keeps labels s' run),
    fun labels s' run rests => quiet_of_rests s' (keeps labels s' run) rests,
    fun labels s' run rests i waiting => ?_⟩
  obtain ⟨before, a, after, m, m', rfl, upTo, inside, allowed, stepEq, outside, onwards⟩ :=
    run.crossing waiting (noneLeft i (keeps _ s' run) (quiet_of_rests s' (keeps _ s' run) rests))
  exact ⟨before ++ [a], after, m', by rw [List.append_assoc]; rfl, upTo.concat allowed stepEq,
    (goesOn i (keeps before m upTo) allowed stepEq inside).resolve_left outside, onwards⟩

theorem drained (descends : M.Descends inv ok measure)
    (quiet_of_rests : ∀ s, inv s → M.RestsUnder ok s → quiet s)
    (goesOn : ∀ {s a s'} i, inv s → ok s a → M.step s a = some s' → waits i s →
      waits i s' ∨ served i s')
    (noneLeft : ∀ {s} i, inv s → quiet s → ¬ waits i s) {s : σ} (holds : inv s) :
    M.Drained ok (measure s) quiet waits served s := by
  have isOk : ∀ s a, AllowedOr ok (fun _ => false) s a → ok s a := fun _ _ allowed =>
    allowed.resolve_right Bool.false_ne_true
  have despite := descends.drainedDespite (.none M inv measure) quiet_of_rests
    (fun i before allowed => goesOn i before (isOk _ _ allowed)) noneLeft holds
  refine ⟨fun _ _ run => descends.length_le holds run, descends.exists_rest holds,
    fun labels s' run rests => despite.quiet labels s' (run.mono fun _ _ => .inl) rests,
    fun labels s' run rests i waiting => ?_⟩
  obtain ⟨before, after, middle, split, upTo, isServed, onwards⟩ :=
    despite.served labels s' (run.mono fun _ _ => .inl) rests i waiting
  exact ⟨before, after, middle, split, upTo.mono isOk, isServed, onwards.mono isOk⟩

end Descends

end Conc11.Library.Machine
