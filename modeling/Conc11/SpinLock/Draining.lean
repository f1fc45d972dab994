/-
Module: Conc11.SpinLock.Draining
Purpose: No starvation on `FairSpinLock`, across wrap-around.  However many threads arrive, a thread gets the lock
  after exactly the unlocks of the threads before it; and while nobody arrives, the calls under way come to an end
  with the lock free, and on the way every spinning thread has had the lock.
Trusted boundary: none
Main exports: Action.isUnlock, ahead_of_step, ahead_of_run, Draining, effort, unused_of_rests, descends,
  fair_spin_lock_drains
-/
import Conc11.Library.Draining
import Conc11.Library.Progress
import Conc11.SpinLock.FairSpinLock

namespace Conc11.SpinLock

open Library

variable {T : Type*} [DecidableEq T] {w : Nat} {s s' : System T w} {a : Action T} {t : T}
  {early line : List T} {ticket : BitVec w}

/-! ## The threads before a thread -/

def Action.isUnlock : Action T → Bool
  | .unlock _ => true
  | .take _ | .spin _ => false

omit [DecidableEq T] in
/-- The place of a thread in line, read off its ticket. -/
theorem InLine.ahead_eq {waiting : List T} (inLine : InLine s early waiting) {i : Nat}
    (place : waiting[i]? = some t) (has : (s.pc t).ticket = some ticket) :
    (ticket - s.active).toNat = i := by
  have same := inLine.tickets.ticket i t place
  have below : i < waiting.length := (List.getElem?_eq_some_iff.mp place).1
  rw [has] at same
  rw [Option.some.inj same]
  exact Ticketed.toNat_place (below.trans inLine.tickets.few)

/-- An unlock moves everybody else in line up by one. -/
theorem InLine.ahead_unlock (inLine : InLine s early line) {u : T} {served : BitVec w}
    (holds : s.pc u = .holding served) (other : t ≠ u) (has : (s.pc t).ticket = some ticket) :
    1 + (ticket - (SpinLock.unlock s u).active).toNat = (ticket - s.active).toNat := by
  obtain ⟨rest, rfl, after⟩ := inLine.unlock holds
  have still : ((SpinLock.unlock s u).pc t).ticket = some ticket := by
    change (Function.update s.pc u .outside t).ticket = some ticket
    rw [Function.update_of_ne other, has]
  have place := after.tickets.place still
  have before : (u :: rest)[(ticket - (SpinLock.unlock s u).active).toNat + 1]? = some t := by
    rw [List.getElem?_cons_succ, place]
  rw [inLine.ahead_eq before has, Nat.add_comm]

/-- No step but an unlock changes how many threads stand before `t`, a step of
`take` by another thread least of all. -/
theorem InLine.ahead_of_step (inLine : InLine s early line) (stepEq : step s a = some s')
    (kept : a ≠ .unlock t) (has : (s.pc t).ticket = some ticket) :
    (s'.pc t).ticket = some ticket ∧
      (if a.isUnlock then 1 else 0) + (ticket - s'.active).toNat = (ticket - s.active).toNat := by
  cases a with
  | take u =>
      obtain ⟨outside, taken⟩ := Option.ite_none_right_eq_some.mp stepEq
      cases taken
      have other : t ≠ u := by
        rintro rfl
        rw [outside] at has
        cases has
      refine ⟨?_, Nat.zero_add _⟩
      change (Function.update s.pc u _ t).ticket = some ticket
      rw [Function.update_of_ne other, has]
  | spin u =>
      dsimp only [step] at stepEq
      split at stepEq
      next own spinning =>
        cases stepEq
        unfold spin
        split
        next => exact ⟨has, Nat.zero_add _⟩
        next =>
          refine ⟨?_, Nat.zero_add _⟩
          change (Function.update s.pc u _ t).ticket = some ticket
          by_cases same : t = u
          · rw [same] at has ⊢
            rw [Function.update_self, ← has, spinning]
            rfl
          · rw [Function.update_of_ne same, has]
      next => cases stepEq
  | unlock u =>
      obtain ⟨isHolding, moved⟩ := Option.ite_none_right_eq_some.mp stepEq
      cases moved
      have other : t ≠ u := by
        rintro rfl
        exact kept rfl
      cases pc : s.pc u with
      | holding served =>
          refine ⟨?_, inLine.ahead_unlock pc other has⟩
          change (Function.update s.pc u _ t).ticket = some ticket
          rw [Function.update_of_ne other, has]
      | _ =>
          rw [pc] at isHolding
          cases isHolding

variable [Fintype T]

/-- As long as `t` keeps its ticket, the unlocks are those of the threads
before it. -/
theorem ahead_of_run (reachable : (machine T w).ReachableUnder FewInFlight s)
    {labels : List (Action T)} (run : (machine T w).RunUnder FewInFlight s labels s')
    (kept : .unlock t ∉ labels) (has : (s.pc t).ticket = some ticket) :
    (s'.pc t).ticket = some ticket ∧
      labels.countP Action.isUnlock + (ticket - s'.active).toNat = (ticket - s.active).toNat := by
  induction labels generalizing s with
  | nil =>
      cases run
      exact ⟨has, Nat.zero_add _⟩
  | cons a labels ih =>
      obtain ⟨middle, allowed, stepEq, rest⟩ := run
      obtain ⟨early, line, inLine⟩ := inLine_of_reachable reachable
      obtain ⟨notNow, notLater⟩ := not_or.mp (mt List.mem_cons.mpr kept)
      obtain ⟨still, moved⟩ := inLine.ahead_of_step stepEq (fun same => notNow same.symm) has
      obtain ⟨last, later⟩ := ih (reachable.step allowed stepEq) rest notLater still
      refine ⟨last, ?_⟩
      rw [List.countP_cons]
      omega

/-! ## Rest -/

/-- The steps that get a call on: a turn of the loop that finds its ticket due,
and an unlock.  Every other turn leaves the lock as it was. -/
def Draining (s : System T w) : Action T → Prop
  | .take _ => False
  | .spin t => s.pc t = .spinning s.active
  | .unlock _ => True

def effort : ThreadPc w → Nat
  | .outside => 0
  | .holding _ => 1
  | .spinning _ => 2

def workload (w : Nat) : Workload (ThreadPc w) :=
  { effort := effort
    restless := fun _ => 0
    most := 0
    restless_le := fun _ => Nat.le_refl 0 }

/-- Nobody has a ticket: the next one to be drawn is due at once. -/
def Unused (s : System T w) : Prop := s.next = s.active ∧ ∀ t, s.pc t = .outside

omit [Fintype T] in
theorem spin_eq_self (spinning : s.pc t = .spinning ticket) (early : ticket ≠ s.active) :
    (machine T w).step s (.spin t) = some s := by
  change step s (.spin t) = some s
  have notDue : (s.active != ticket) = true := bne_iff_ne.mpr early.symm
  simp only [step, spinning, spin, notDue, if_true]

omit [Fintype T] in
theorem spin_due (due : s.pc t = .spinning s.active) :
    step s (.spin t) = some
      { s with
        pc := Function.update s.pc t (.holding s.active)
        entered := s.entered ++ [t] } := by
  simp [step, due, spin]

omit [Fintype T] in
/-- The first in line can always go on. -/
theorem InLine.unused_of_rests (inLine : InLine s early line)
    (rests : (machine T w).RestsUnder Draining s) : Unused s := by
  cases line with
  | nil =>
      refine ⟨inLine.tickets.next.trans (BitVec.add_zero _), fun t => ?_⟩
      have without : (s.pc t).ticket.isSome ≠ true :=
        fun has => List.not_mem_nil ((inLine.tickets.member t).mp has)
      cases pc : s.pc t with
      | outside => rfl
      | _ =>
          rw [pc] at without
          exact absurd rfl without
  | cons first rest =>
      have due := inLine.tickets.ticket 0 first rfl
      have isActive : (s.pc first).ticket = some s.active := due.trans (by simp)
      cases pc : s.pc first with
      | outside =>
          rw [pc] at isActive
          cases isActive
      | spinning own =>
          rw [pc] at isActive
          cases isActive
          have stays : step s (.spin first) = none := rests (.spin first) pc
          rw [spin_due pc] at stays
          cases stays
      | holding own =>
          have stays : step s (.unlock first) = none := rests (.unlock first) trivial
          simp [step, pc, ThreadPc.isHolding] at stays

omit [Fintype T] in
/-- A draining step gets one thread on. -/
theorem eases_of_draining (allowed : Draining s a) (stepEq : step s a = some s') :
    ∃ t, (workload w).Eases s.pc s'.pc t := by
  have moves : ∀ (t : T) (now : ThreadPc w), effort now < effort (s.pc t) →
      (workload w).Eases s.pc (Function.update s.pc t now) t := by
    intro t now less
    refine .works ?_ fun u other => ?_
    · rwa [Function.update_self]
    · rw [Function.update_of_ne other]
  cases a with
  | take t => exact allowed.elim
  | spin t =>
      rw [spin_due allowed] at stepEq
      cases stepEq
      have due : s.pc t = .spinning s.active := allowed
      exact ⟨t, moves t _ (by rw [due]; exact Nat.one_lt_two)⟩
  | unlock t =>
      obtain ⟨isHolding, moved⟩ := Option.ite_none_right_eq_some.mp stepEq
      cases moved
      refine ⟨t, moves t _ ?_⟩
      cases pc : s.pc t with
      | holding own => exact Nat.zero_lt_one
      | _ =>
          rw [pc] at isHolding
          cases isHolding

omit [Fintype T] in
/-- A spinning thread goes on spinning or gets the lock. -/
theorem goes_on (stepEq : step s a = some s') (spinning : s.pc t = .spinning ticket) :
    s'.pc t = .spinning ticket ∨ s'.pc t = .holding ticket := by
  have other : ∀ {u : T} {now : ThreadPc w}, s.pc u ≠ s.pc t →
      Function.update s.pc u now t = .spinning ticket := by
    intro u now differs
    rw [Function.update_of_ne fun same => differs (by rw [same]), spinning]
  cases a with
  | take u =>
      obtain ⟨outside, moved⟩ := Option.ite_none_right_eq_some.mp stepEq
      cases moved
      exact .inl (other (by rw [outside, spinning]; exact nofun))
  | spin u =>
      dsimp only [step] at stepEq
      split at stepEq
      next own spinningU =>
        cases stepEq
        unfold spin
        split
        next => exact .inl spinning
        next =>
          by_cases same : t = u
          · subst same
            rw [spinning] at spinningU
            cases spinningU
            exact .inr (Function.update_self ..)
          · left
            change Function.update s.pc u _ t = _
            rw [Function.update_of_ne same, spinning]
      next => cases stepEq
  | unlock u =>
      obtain ⟨isHolding, moved⟩ := Option.ite_none_right_eq_some.mp stepEq
      cases moved
      refine .inl (other fun same => ?_)
      rw [same, spinning] at isHolding
      cases isHolding

theorem descends : (machine T w).Descends ((machine T w).ReachableUnder FewInFlight) Draining
    fun s => (workload w).stepsLeft Finset.univ s.pc :=
  { keeps := fun {_ a _} reachable allowed stepEq => by
      refine reachable.step ?_ stepEq
      cases a with
      | take t => exact allowed.elim
      | _ => trivial
    falls := fun _ allowed stepEq => by
      obtain ⟨t, eases⟩ := eases_of_draining allowed stepEq
      exact eases.stepsLeft_lt (Finset.mem_univ t) }

/-- No starvation.  Until `t` unlocks it keeps its ticket, and the threads that
unlock are those before it, whoever arrives.  Once nobody arrives any more the
calls take boundedly many steps; where nothing is left to do nobody has a
ticket, and on the way every thread that was spinning has had the lock. -/
theorem fair_spin_lock_drains (reachable : (machine T w).ReachableUnder FewInFlight s) :
    (∀ labels s', (machine T w).RunUnder FewInFlight s labels s' →
      ∀ t ticket, (s.pc t).ticket = some ticket → .unlock t ∉ labels →
        (s'.pc t).ticket = some ticket ∧
          labels.countP Action.isUnlock + (ticket - s'.active).toNat =
            (ticket - s.active).toNat) ∧
      (∀ t ticket, s.pc t = .spinning ticket → ¬ Draining s (.spin t) →
        (machine T w).step s (.spin t) = some s) ∧
      (machine T w).Drained Draining (∑ t, effort (s.pc t)) Unused
        (fun (caller : T × BitVec w) s => s.pc caller.1 = .spinning caller.2)
        (fun caller s => s.pc caller.1 = .holding caller.2) s := by
  refine ⟨fun labels s' run t ticket has kept => ahead_of_run reachable run kept has,
    fun t ticket spinning notDue => ?_, ?_⟩
  · refine spin_eq_self spinning fun due => notDue ?_
    change s.pc t = .spinning s.active
    rw [spinning, due]
  · have drained : (machine T w).Drained Draining ((workload w).stepsLeft Finset.univ s.pc) Unused
        (fun (caller : T × BitVec w) s => s.pc caller.1 = .spinning caller.2)
        (fun caller s => s.pc caller.1 = .holding caller.2) s := by
      refine descends.drained ?_ ?_ ?_ reachable
      · intro s reached rests
        obtain ⟨_, _, inLine⟩ := inLine_of_reachable reached
        exact inLine.unused_of_rests rests
      · exact fun _ _ _ stepEq spinning => goes_on stepEq spinning
      · intro s caller _ unused spinning
        rw [unused.2 caller.1] at spinning
        cases spinning
    simpa [Workload.stepsLeft, workload] using drained

/-- With two bits: the counter has wrapped between the holder and the threads
that wait, and the last of them has lost a turn; it gets the lock. -/
theorem fair_spin_lock_drains_wrapped :
    ∃ (s : System (Fin 3) 2) (labels : List (Action (Fin 3))) (s' : System (Fin 3) 2),
      (machine (Fin 3) 2).ReachableUnder FewInFlight s ∧ s.pc 0 = .holding 3 ∧
      s.pc 2 = .spinning 1 ∧ (machine (Fin 3) 2).step s (.spin 2) = some s ∧
      (machine (Fin 3) 2).RunUnder Draining s labels s' ∧ labels.length ≤ 5 ∧ Unused s' ∧
      ∃ before after middle, labels = before ++ after ∧
        (machine (Fin 3) 2).RunUnder Draining s before middle ∧ middle.pc 2 = .holding 1 := by
  obtain ⟨s, run, holds, spins, due, work⟩ : ∃ s : System (Fin 3) 2,
      (machine (Fin 3) 2).execUnder FewInFlight (initial (Fin 3) 2)
        [.take 0, .spin 0, .unlock 0, .take 1, .spin 1, .unlock 1, .take 0, .spin 0, .unlock 0,
          .take 0, .take 1, .take 2, .spin 2, .spin 0] = some s ∧
      s.pc 0 = .holding 3 ∧ s.pc 2 = .spinning 1 ∧ s.active = 3 ∧ ∑ t, effort (s.pc t) = 5 :=
    ⟨_, rfl, by decide, by decide, by decide, by decide⟩
  have reached := Machine.reachableUnder_of_execUnder run
  obtain ⟨_, lost, drained⟩ := fair_spin_lock_drains reached
  obtain ⟨labels, s', onwards, rests⟩ := drained.ends
  obtain ⟨before, after, middle, parts, upTo, owns, _⟩ :=
    drained.served labels s' onwards rests (2, 1) spins
  have notDue : ¬ Draining s (.spin 2) := by
    change s.pc 2 ≠ .spinning s.active
    rw [spins, due]
    decide
  exact ⟨s, labels, s', reached, holds, spins, lost 2 1 spins notDue, onwards,
    work ▸ drained.bounded labels s' onwards, drained.quiet labels s' onwards rests,
    before, after, middle, parts, upTo, owns⟩

end Conc11.SpinLock
