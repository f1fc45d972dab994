/-
Module: Conc11.Semaphore.MovingUp
Purpose: What the waiting calls of `QueuedSemaphore` get when no further call comes, with one common request size
  and without untimed `try_acquire`.  The woken calls pass the signal on until the permits are used up, so
  exactly the first of the queue are served, as many as there were permits for.
Trusted boundary: none
Main exports: InLine, Orderly, Upkeep, Moved, line_moves_up
-/
import Conc11.Semaphore.Recovery
import Conc11.Semaphore.Uniform

namespace Conc11.Semaphore

open Library

/-- The calls that wait, in the order of the queue. -/
def InLine (s : System) (calls : List CallId) : Prop :=
  ∃ line : List Waiter, Waiting s.pc line ∧ (∃ cache, s.sem.queue.Holds (line.map Waiter.node) cache) ∧
    line.map Waiter.call = calls

/-- Calls that wait at the same nodes in the same order are the same. -/
theorem calls_of_nodes {whole line line' : List Waiter} (nodup : (whole.map Waiter.node).Nodup)
    (here : line ⊆ whole) (there : line' ⊆ whole)
    (nodes : line.map Waiter.node = line'.map Waiter.node) : line = line' := by
  induction line generalizing line' with
  | nil => exact (List.map_eq_nil_iff.mp nodes.symm).symm
  | cons w rest ih =>
      cases line' with
      | nil => cases nodes
      | cons w' rest' =>
          obtain ⟨first, others⟩ := List.cons.inj nodes
          obtain ⟨inW, inRest⟩ := List.cons_subset.mp here
          obtain ⟨inW', inRest'⟩ := List.cons_subset.mp there
          rw [List.inj_on_of_nodup_map nodup inW inW' first, ih inRest inRest' others]

/-- There is one such order. -/
theorem InLine.unique {s : System} {calls calls' : List CallId} (here : InLine s calls)
    (there : InLine s calls') : calls = calls' := by
  obtain ⟨line, waiting, ⟨cache, holds⟩, rfl⟩ := here
  obtain ⟨line', waiting', ⟨cache', holds'⟩, rfl⟩ := there
  obtain ⟨nodes, _⟩ := holds.unique holds'
  rw [calls_of_nodes holds.queue.nodup (List.Subset.refl line)
    (fun w inLine' => (waiting w).mp ((waiting' w).mpr inLine')) nodes]

/-- The runs with one request size, no excess of INT_MAX and no untimed `try_acquire`. -/
abbrev Orderly (n : BitVec 32) (request : Request) (s : System) (a : Action) : Prop :=
  AsksFor n request s a ∧ isUntimedTry a = false

/-- What is known about the line in such a run. -/
structure Upkeep (n : BitVec 32) (request : Request) (s : System) (line : List Waiter)
    (record : Multiset Nat) : Prop where
  conserved : Conserved n s
  lined : Lined s line record
  covered : (toLine s line record).Covered
  uniform : (toLine s line record).Uniform request.toNat
  funded : (toLine s line record).Funded request.toNat
  inTurn : (toLine s line record).InTurn
  signalled : (toLine s line record).HeadSignalled

variable {n : BitVec 32} {request : Request} {s s' : System} {line : List Waiter}
  {record : Multiset Nat}

theorem upkeep_of_reachable (nonneg : 0 ≤ n.toInt) (small : request.toNat ≤ intMax)
    (reachable : (machine n).ReachableUnder (Orderly n request) s) :
    ∃ line record, Upkeep n request s line record := by
  have conserved := conserved_of_reachable nonneg
    (reachable.mono fun _ _ both => AsksFor.totals small both.1)
  obtain ⟨_, _, ⟨lined', _⟩, _, signalled⟩ :=
    uniform_of_reachable nonneg small (reachable.mono fun _ _ both => both.1)
  obtain ⟨line, record, ⟨lined, covered⟩, uniform, funded, inTurn⟩ :=
    turns_of_reachable nonneg small reachable
  exact ⟨line, record, conserved, lined, covered, uniform, funded, inTurn,
    (lined.headSignalled_iff conserved).mpr ((lined'.headSignalled_iff conserved).mp signalled)⟩

theorem within_of_orderly (small : request.toNat ≤ intMax) {a : Action}
    (orderly : Orderly n request s a) : WithinInt n s a := by
  obtain ⟨asks, noTry⟩ := orderly
  cases a with
  | tryAcquire0 c timed asked budget =>
      have same : asked = request := asks
      exact same ▸ small
  | tryAcquire c asked => cases noTry
  | release count => exact asks
  | wake c budget => trivial
  | timeout c => trivial

theorem orderly_of_serving {a : Action} (serving : Serving s a) : Orderly n request s a := by
  cases a with
  | wake c budget => exact ⟨trivial, rfl⟩
  | timeout c => exact ⟨trivial, rfl⟩
  | _ => cases serving

/-- Between `s` and `s'` the calls `served` have got their permits, others have given
up whose wait had a deadline, and nobody has begun to wait. -/
structure Moved (request : Request) (s s' : System) (line line' : List Waiter)
    (record record' : Multiset Nat) (served : List CallId) : Prop where
  lines : (toLine s line record).MovedUp request.toNat (toLine s' line' record') served
  gone : ∀ c ∈ s'.left, c ∈ s.left ∨ ∃ asked node, s.pc c = .waiting true asked node
  waited : ∀ c timed asked node, s'.pc c = .waiting timed asked node →
    s.pc c = .waiting timed asked node

namespace Moved

variable {s₁ s₂ : System} {line₁ line₂ : List Waiter} {record₁ record₂ : Multiset Nat}
  {served more : List CallId}

theorem refl : Moved request s s line line record record [] :=
  ⟨.refl _ _, fun _ => .inl, fun _ _ _ _ => id⟩

theorem trans (first : Moved request s s₁ line line₁ record record₁ served)
    (second : Moved request s₁ s₂ line₁ line₂ record₁ record₂ more) :
    Moved request s s₂ line line₂ record record₂ (served ++ more) := by
  refine ⟨first.lines.trans second.lines, fun c left => ?_, fun c timed asked node waits =>
    first.waited c timed asked node (second.waited c timed asked node waits)⟩
  rcases second.gone c left with before | ⟨asked, node, waits⟩
  · exact first.gone c before
  · exact .inr ⟨asked, node, first.waited c true asked node waits⟩

end Moved

namespace Upkeep

/-- Such a step is the last one of a call that waits: whoever is woken is served. -/
theorem returns {a : Action} (upkeep : Upkeep n request s line record) (serving : Serving s a)
    (stepEq : step s a = some s') :
    ∃ c timed asked node result, s.pc c = .waiting timed asked node ∧ s'.arrived = s.arrived ∧
      s'.pc = Function.update s.pc c (.returned result) := by
  cases a with
  | wake c budget =>
      cases transition_of_step stepEq with
      | wake _ _ timed asked node _ _ waits wakeable _ =>
          have inLine := (upkeep.lined.waiting ⟨c, timed, asked, node⟩).mp waits
          have small := upkeep.lined.small upkeep.conserved inLine
          obtain ⟨rest, rfl⟩ := upkeep.lined.front (w := ⟨c, timed, asked, node⟩) waits wakeable
          have same : asked.toNat = request.toNat :=
            upkeep.uniform.waiters (c, asked.toNat) List.mem_cons_self
          have enough : asked.sle s.sem.permits = true := by
            rw [sle_iff small upkeep.conserved.small, same]
            exact upkeep.funded wakeable
          obtain ⟨arrived, pc, _⟩ := wake_spec upkeep.conserved.small waits small enough stepEq
          exact ⟨c, timed, asked, node, true, waits, arrived, pc⟩
  | timeout c =>
      obtain ⟨asked, node, waits, _, arrived, pc, _⟩ := timeout_spec stepEq
      exact ⟨c, true, asked, node, false, waits, arrived, pc⟩
  | _ => cases serving

/-- The step of a call that waits serves the first in line, or the call gives up. -/
theorem step {a : Action} (upkeep : Upkeep n request s line record) (small : request.toNat ≤ intMax)
    (serving : Serving s a) (stepEq : step s a = some s') :
    ∃ line' record' served, Upkeep n request s' line' record' ∧
      Moved request s s' line line' record record' served := by
  obtain ⟨asks, noTry⟩ : Orderly n request s a := orderly_of_serving serving
  have allowed := asks.totals small
  have transition := transition_of_step stepEq
  obtain ⟨line', record', e, lined', shown, moved⟩ :=
    upkeep.lined.transition upkeep.conserved upkeep.covered allowed transition
  have notRequeue : e ≠ .requeue := fun same =>
    upkeep.funded.not_requeue upkeep.uniform (same ▸ moved)
  have asksEvent := asks.event shown
  have queues := queues_of_shown noTry shown
  have upkeep' : Upkeep n request s' line' record' :=
    { conserved := upkeep.conserved.transition allowed transition
      lined := lined'
      covered := upkeep.covered.step moved
      uniform := upkeep.uniform.step asksEvent moved
      funded := upkeep.funded.step upkeep.uniform upkeep.covered asksEvent queues moved
      inTurn := upkeep.inTurn.step queues notRequeue moved
      signalled := upkeep.uniform.headSignalled upkeep.covered upkeep.signalled moved }
  have waited : ∀ d timed asked node, s'.pc d = .waiting timed asked node →
      s.pc d = .waiting timed asked node := by
    intro d timed asked node waits
    obtain ⟨c, _, _, _, result, _, _, pc⟩ := upkeep.returns serving stepEq
    rw [pc] at waits
    by_cases same : d = c
    · rw [same, Function.update_self] at waits
      cases waits
    · rwa [Function.update_of_ne same] at waits
  cases shown with
  | serve c budget timed asked node waits enough =>
      obtain ⟨d, lines⟩ := Line.MovedUp.of_serve upkeep.uniform upkeep.inTurn moved
      refine ⟨line', record', [d], upkeep', lines, fun b gone => ?_, waited⟩
      cases transition with
      | wake => exact .inl gone
  | requeue => exact absurd rfl notRequeue
  | leave c =>
      refine ⟨line', record', [], upkeep', .of_leave moved, fun b gone => ?_, waited⟩
      cases transition with
      | timeout _ asked node waits _ =>
          rcases List.mem_append.mp gone with before | now
          · exact .inl before
          · rw [List.mem_singleton.mp now]
            exact .inr ⟨asked, node, waits⟩
  | _ => cases serving

/-- What a whole run of such steps does. -/
theorem run {labels : List Action} (upkeep : Upkeep n request s line record)
    (small : request.toNat ≤ intMax) (run : (machine n).RunUnder Serving s labels s') :
    ∃ line' record' served, Upkeep n request s' line' record' ∧
      Moved request s s' line line' record record' served := by
  induction labels generalizing s line record with
  | nil =>
      cases run
      exact ⟨line, record, [], upkeep, .refl⟩
  | cons a labels ih =>
      obtain ⟨middle, serving, stepEq, rest⟩ := run
      obtain ⟨line₁, record₁, first, upkeep₁, moved₁⟩ := upkeep.step small serving stepEq
      obtain ⟨line₂, record₂, more, upkeep₂, moved₂⟩ := ih upkeep₁ rest
      exact ⟨line₂, record₂, first ++ more, upkeep₂, moved₁.trans moved₂⟩

/-- Where nobody can go on, the queue is empty or the permits do not suffice for
its head. -/
theorem halt_of_rests (upkeep : Upkeep n request s line record)
    (rests : (machine n).RestsUnder Serving s) :
    (toLine s line record).waiters = [] ∨ (toLine s line record).permits < request.toNat := by
  cases line with
  | nil => exact .inl rfl
  | cons w rest =>
      right
      apply Nat.lt_of_not_le
      intro enough
      have same : w.request.toNat = request.toNat :=
        upkeep.uniform.waiters (w.call, w.request.toNat) List.mem_cons_self
      have inLine : w ∈ w :: rest := List.mem_cons_self
      have wakeable : s.sem.queue.wakeableOf w.node = true :=
        upkeep.signalled _ _ rfl (same.trans_le enough)
      have fits : w.request.sle s.sem.permits = true := by
        rw [sle_iff (upkeep.lined.small upkeep.conserved inLine) upkeep.conserved.small]
        exact same.trans_le enough
      obtain ⟨s', stepEq, _⟩ := wake_grants upkeep.conserved upkeep.lined upkeep.covered
        ((upkeep.lined.waiting w).mpr inLine) wakeable fits none
      have stuck := rests (.wake w.call none) trivial
      cases stuck.symm.trans stepEq

end Upkeep

/-- Every step of a waiting call ends its wait. -/
theorem orderly_descends (nonneg : 0 ≤ n.toInt) (small : request.toNat ≤ intMax) :
    (machine n).Descends (fun s => (machine n).ReachableUnder (Orderly n request) s) Serving
      System.sleepers :=
  { keeps := fun reachable serving stepEq => reachable.step (orderly_of_serving serving) stepEq
    falls := by
      intro s a s' reachable serving stepEq
      obtain ⟨line, record, upkeep⟩ := upkeep_of_reachable nonneg small reachable
      obtain ⟨c, timed, asked, node, result, waits, arrived, pc⟩ := upkeep.returns serving stepEq
      have came := arrived_of_waiting nonneg
        (reachable.mono fun _ _ => within_of_orderly small) waits
      have fewer := sum_of_returned (fun pc => pc.isWaiting.toNat) came arrived pc rfl
      rw [waits] at fewer
      exact fewer }

/-- When no further call comes, the waiting calls with one common request come to
rest: of those that have not timed out exactly the first ones have been served
in the order of the queue, as many as there were permits for, and the others
wait on in this order. -/
theorem line_moves_up (nonneg : 0 ≤ n.toInt) (small : request.toNat ≤ intMax)
    (positive : 0 < request.toNat) (reachable : (machine n).ReachableUnder (Orderly n request) s) :
    (∀ labels s', (machine n).RunUnder Serving s labels s' → labels.length ≤ s.sleepers) ∧
    (∃ labels s', (machine n).RunUnder Serving s labels s' ∧ (machine n).RestsUnder Serving s') ∧
    (∃ calls, InLine s calls) ∧
    ∀ calls, InLine s calls → ∀ labels s', (machine n).RunUnder Serving s labels s' →
      (machine n).RestsUnder Serving s' →
        ∃ stayed, stayed = calls.filter (fun c => c ∉ s'.left) ∧
          (∀ c ∈ calls, c ∉ stayed → ∃ asked node, s.pc c = .waiting true asked node) ∧
          s'.grants.map Prod.fst =
            s.grants.map Prod.fst ++ stayed.take (s.sem.permits.toNat / request.toNat) ∧
          InLine s' (stayed.drop (s.sem.permits.toNat / request.toNat)) := by
  have descends := orderly_descends nonneg small
  obtain ⟨line, record, upkeep⟩ := upkeep_of_reachable nonneg small reachable
  have inLine : InLine s (line.map Waiter.call) :=
    ⟨line, upkeep.lined.waiting, upkeep.lined.held, rfl⟩
  refine ⟨fun labels s' run => descends.length_le reachable run, descends.exists_rest reachable,
    ⟨_, inLine⟩, fun calls isLine labels s' run rests => ?_⟩
  obtain rfl := isLine.unique inLine
  obtain ⟨line', record', served, upkeep', moved⟩ := upkeep.run small run
  obtain ⟨first, behind⟩ := moved.lines.halted upkeep.inTurn upkeep'.inTurn positive
    (upkeep'.halt_of_rests rests)
  have calls : (toLine s line record).waiters.map Prod.fst = line.map Waiter.call := List.map_map
  have calls' : (toLine s' line' record').waiters.map Prod.fst = line'.map Waiter.call :=
    List.map_map
  rw [calls] at first behind
  rw [calls'] at behind
  refine ⟨_, rfl, fun c inLine gone => ?_, ?_, line', upkeep'.lined.waiting, upkeep'.lined.held, behind⟩
  · have left : c ∈ s'.left := by
      by_contra stays
      exact gone (List.mem_filter.mpr ⟨inLine, decide_eq_true stays⟩)
    refine (moved.gone c left).resolve_left fun before => ?_
    have served := upkeep.inTurn.served
    rw [calls] at served
    have all := List.mem_append_right
      ((toLine s line record).granted.filter fun c => c ∈ (toLine s line record).queued) inLine
    rw [served] at all
    exact of_decide_eq_true (List.mem_filter.mp all).2 before
  · have granted := moved.lines.granted
    rw [first] at granted
    exact granted

/-- Three calls of `acquire(2)` wait and five permits come: in every schedule the
first two are served and the third waits on. -/
theorem line_moves_up_three_calls :
    ∃ (s : System) (labels : List Action) (s' : System),
      (machine 0#32).ReachableUnder (Orderly 0#32 2) s ∧ InLine s [0, 1, 2] ∧
      (machine 0#32).RunUnder Serving s labels s' ∧ (machine 0#32).RestsUnder Serving s' ∧
      labels.length ≤ 3 ∧ s'.grants.map Prod.fst = [0, 1] ∧ InLine s' [2] := by
  have run : ((machine 0#32).execUnder (Orderly 0#32 2) (initial 0#32)
        [.tryAcquire0 0 false 2 none, .tryAcquire0 1 false 2 none, .tryAcquire0 2 false 2 none,
          .release 5]).map
          (fun s => ([s.queued, s.left, s.grants.map Prod.fst], [s.pc 0, s.pc 1, s.pc 2],
            s.sem.permits, s.sleepers)) =
      some ([[0, 1, 2], [], []],
        [.waiting false 2 255, .waiting false 2 254, .waiting false 2 253], 5, 3) := by
    decide +kernel
  obtain ⟨s, runs, observed⟩ := Option.map_eq_some_iff.mp run
  simp only [Prod.mk.injEq, List.cons.injEq, and_true] at observed
  obtain ⟨⟨queued, left, grants⟩, ⟨first, second, third⟩, permits, sleepers⟩ := observed
  have reached := Machine.reachableUnder_of_execUnder runs
  obtain ⟨bounded, ⟨labels, s', onwards, rests⟩, ⟨calls, inLine⟩, moves⟩ :=
    line_moves_up (by decide) (by decide) (by decide) reached
  obtain ⟨line, record, upkeep⟩ := upkeep_of_reachable (by decide) (by decide) reached
  have three : calls = [0, 1, 2] := by
    have inTurn := upkeep.inTurn.served
    have lineCalls : (toLine s line record).waiters.map Prod.fst = line.map Waiter.call :=
      List.map_map
    rw [lineCalls] at inTurn
    rw [inLine.unique ⟨line, upkeep.lined.waiting, upkeep.lined.held, rfl⟩]
    simpa [toLine, queued, left, grants] using inTurn
  subst three
  obtain ⟨stayed, isStayed, gone, served, behind⟩ := moves _ inLine labels s' onwards rests
  have all : stayed = [0, 1, 2] := by
    have patient : ∀ c ∈ [0, 1, 2], c ∈ stayed := by
      intro c member
      by_contra absent
      obtain ⟨asked, node, waits⟩ := gone c member absent
      simp only [List.mem_cons, List.not_mem_nil, or_false] at member
      rcases member with rfl | rfl | rfl
      · cases first.symm.trans waits
      · cases second.symm.trans waits
      · cases third.symm.trans waits
    rw [isStayed] at patient ⊢
    exact List.filter_eq_self.mpr fun c member => (List.mem_filter.mp (patient c member)).2
  rw [all, permits, grants] at served
  rw [all, permits] at behind
  exact ⟨s, labels, s', reached, inLine, onwards, rests, sleepers ▸ bounded labels s' onwards, served,
    behind⟩

end Conc11.Semaphore
