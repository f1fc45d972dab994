/-
Module: Conc11.Semaphore.Uniform
Purpose: With one common request size `QueuedSemaphore` is a counting semaphore with a first-come-first-served
  queue: no signal is lost, and without untimed `try_acquire` whoever is woken is served, in the order of
  the queue.
Trusted boundary: none
Main exports: AsksFor, ServedInTurn, uniform_of_reachable, turns_of_reachable, counting_semaphore
-/
import Conc11.Library.UniformLine
import Conc11.Semaphore.Fairness
import Conc11.Semaphore.Refinement
import Conc11.Semaphore.Wakeup

namespace Conc11.Semaphore

open Library

/-- Every call that may wait asks for `request` permits, and no total exceeds
INT_MAX.  The untimed `try_acquire` may ask for anything. -/
def AsksFor (initialPermits : BitVec 32) (request : Request) (s : System) : Action → Prop
  | .tryAcquire0 _ _ asked _ => asked = request
  | .release count => initialPermits.toNat + s.released + count.toNat ≤ intMax
  | .tryAcquire _ _ | .wake _ _ | .timeout _ => True

instance (initialPermits : BitVec 32) (request : Request) (s : System) :
    (a : Action) → Decidable (AsksFor initialPermits request s a)
  | .tryAcquire0 _ _ asked _ => inferInstanceAs (Decidable (asked = request))
  | .release count =>
      inferInstanceAs (Decidable (initialPermits.toNat + s.released + count.toNat ≤ intMax))
  | .tryAcquire _ _ | .wake _ _ | .timeout _ => .isTrue trivial

theorem AsksFor.totals {n : BitVec 32} {request : Request} (small : request.toNat ≤ intMax)
    {s : System} {a : Action} (asks : AsksFor n request s a) : TotalsWithinInt n s a := by
  cases a with
  | tryAcquire0 c timed asked budget =>
      have same : asked = request := asks
      exact same ▸ small
  | release count => exact asks
  | tryAcquire c asked => trivial
  | wake c budget => trivial
  | timeout c => trivial

/-- The calls that had to wait are granted their requests in the order in
which they were enqueued: those granted so far and those that are in the queue
now, in this order, are all that were enqueued and have not timed out. -/
def ServedInTurn (s : System) : Prop :=
  s.queued.Nodup ∧ ∃ line : List Waiter, Waiting s.pc line ∧
    (∃ cache, s.sem.queue.Holds (line.map Waiter.node) cache) ∧
    ((s.grants.map Prod.fst).filter fun c => c ∈ s.queued) ++ line.map Waiter.call =
      s.queued.filter fun c => c ∉ s.left

section Moves

variable {n : BitVec 32} {request : Request} {s : System} {a : Action} {e : Line.Event CallId}

theorem AsksFor.event (asks : AsksFor n request s a) (shown : Shows s a e) :
    e.AsksFor request.toNat := by
  cases shown with
  | join c timed asked budget => exact congrArg BitVec.toNat (asks : asked = request)
  | fail c timed asked budget => exact congrArg BitVec.toNat (asks : asked = request)
  | _ => trivial

theorem queues_of_shown (noTry : isUntimedTry a = false) (shown : Shows s a e) : e.Queues := by
  cases shown with
  | barge c asked => cases noTry
  | _ => trivial

/-- A woken call that finds enough permits returns with them. -/
theorem wake_grants {line : List Waiter} {record : Multiset Nat} (conserved : Conserved n s)
    (lined : Lined s line record) (covered : (toLine s line record).Covered) {w : Waiter}
    (waits : s.pc w.call = w.pc) (wakeable : s.sem.queue.wakeableOf w.node = true)
    (enough : w.request.sle s.sem.permits = true) (budget : Option Nat) :
    ∃ s', step s (.wake w.call budget) = some s' ∧ s'.pc w.call = .returned true := by
  have inLine := (lined.waiting w).mp waits
  have recorded : w.request.toNat ∈ record :=
    covered.recorded (w := (w.call, w.request.toNat)) (List.mem_map_of_mem inLine)
  obtain ⟨rest, rfl⟩ := lined.front waits wakeable
  obtain ⟨cache, holds⟩ := lined.held
  rcases ran : ({ s.sem with queue := s.sem.queue.dequeue } : QueuedSemaphore).leaveLoop w.request
    with ⟨sem, result⟩
  have woken : s.sem.woken w.request budget = some (sem, result) := by
    rw [QueuedSemaphore.woken, if_pos enough, ran]
  obtain ⟨rfl, _⟩ := woken_served holds lined.records recorded conserved.small enough woken
  have pc : s.pc w.call = .waiting w.timed w.request w.node := waits
  refine ⟨s.settle w.call w.timed w.request sem .granted, ?_, ?_⟩
  · simp [step, conserved.running, pc, wakeable, woken]
  · simp [System.settle]

end Moves

/-! ## Runs -/

section Runs

variable {n : BitVec 32} {request : Request} {s : System}

/-- Behind the semaphore is a line of calls with the same request, and its
first is signalled if it can be served. -/
theorem uniform_of_reachable (nonneg : 0 ≤ n.toInt) (small : request.toNat ≤ intMax)
    (reachable : (machine n).ReachableUnder (AsksFor n request) s) :
    ∃ line record, Implements s line record ∧ (toLine s line record).Uniform request.toNat ∧
      (toLine s line record).HeadSignalled := by
  refine reachable.invariant
    (motive := fun s => ∃ line record, Implements s line record ∧
      (toLine s line record).Uniform request.toNat ∧ (toLine s line record).HeadSignalled) ?_ ?_
  · refine ⟨[], 0, implements_initial n, ⟨fun w inLine => ?_, fun recorded member => ?_⟩, ?_⟩
    · exact absurd inLine List.not_mem_nil
    · exact absurd member (Multiset.notMem_zero recorded)
    · intro w rest line
      cases line
  · rintro s a s' reached ⟨line, record, ⟨lined, covered⟩, uniform, signalled⟩ asks stepEq
    have totals := reached.mono fun _ _ asks => AsksFor.totals small asks
    have conserved := conserved_of_reachable nonneg totals
    obtain ⟨line', record', e, lined', shown, moved⟩ :=
      lined.transition conserved covered (asks.totals small) (transition_of_step stepEq)
    exact ⟨line', record', ⟨lined', covered.step moved⟩, uniform.step (asks.event shown) moved,
      uniform.headSignalled covered signalled moved⟩

/-- Without untimed `try_acquire` the line moves on in its own order. -/
theorem turns_of_reachable (nonneg : 0 ≤ n.toInt) (small : request.toNat ≤ intMax)
    (reachable : (machine n).ReachableUnder
      (fun s a => AsksFor n request s a ∧ isUntimedTry a = false) s) :
    ∃ line record, Implements s line record ∧ (toLine s line record).Uniform request.toNat ∧
      (toLine s line record).Funded request.toNat ∧ (toLine s line record).InTurn := by
  refine reachable.invariant
    (motive := fun s => ∃ line record, Implements s line record ∧
      (toLine s line record).Uniform request.toNat ∧
      (toLine s line record).Funded request.toNat ∧ (toLine s line record).InTurn) ?_ ?_
  · refine ⟨[], 0, implements_initial n, ⟨fun w inLine => ?_, fun recorded member => ?_⟩,
      fun awake => ?_, List.nodup_nil, fun c isKnown => ?_, rfl⟩
    · exact absurd inLine List.not_mem_nil
    · exact absurd member (Multiset.notMem_zero recorded)
    · cases awake
    · rcases isKnown with waits | served | gone
      · exact waits
      · exact served
      · exact gone
  · rintro s a s' reached ⟨line, record, ⟨lined, covered⟩, uniform, funded, inTurn⟩ ⟨asks, noTry⟩
      stepEq
    have totals := reached.mono fun _ _ both => AsksFor.totals small both.1
    have conserved := conserved_of_reachable nonneg totals
    obtain ⟨line', record', e, lined', shown, moved⟩ :=
      lined.transition conserved covered (asks.totals small) (transition_of_step stepEq)
    have asksEvent := asks.event shown
    have queues := queues_of_shown noTry shown
    have served : e ≠ .requeue := fun same => funded.not_requeue uniform (same ▸ moved)
    exact ⟨line', record', ⟨lined', covered.step moved⟩, uniform.step asksEvent moved,
      funded.step uniform covered asksEvent queues moved, inTurn.step queues served moved⟩

end Runs

/-- With one common request size the head of the queue is wakeable whenever
the permits suffice for it; and without untimed `try_acquire` every call that
is woken finds enough permits and returns, and the queue is served in its own
order. -/
theorem counting_semaphore (n : BitVec 32) (nonneg : 0 ≤ n.toInt) (request : Request)
    (small : request.toNat ≤ intMax) :
    (∀ s, (machine n).ReachableUnder (AsksFor n request) s →
      ∀ node, s.sem.queue.head = some node → request.sle s.sem.permits = true →
        s.sem.queue.wakeableOf node = true) ∧
    ∀ s, (machine n).ReachableUnder
        (fun s a => AsksFor n request s a ∧ isUntimedTry a = false) s →
      (∀ c timed asked node, s.pc c = .waiting timed asked node →
        s.sem.queue.wakeableOf node = true → request.sle s.sem.permits = true ∧
          ∀ budget, ∃ s', step s (.wake c budget) = some s' ∧ s'.pc c = .returned true) ∧
      ServedInTurn s := by
  refine ⟨fun s reachable node isHead enough => ?_, fun s reachable => ⟨?_, ?_⟩⟩
  · have totals := reachable.mono fun _ _ asks => AsksFor.totals small asks
    have conserved := conserved_of_reachable nonneg totals
    obtain ⟨line, record, ⟨lined, covered⟩, uniform, signalled⟩ :=
      uniform_of_reachable nonneg small reachable
    obtain ⟨cache, holds⟩ := lined.held
    rw [sle_iff small conserved.small] at enough
    rw [holds.queue.head_eq] at isHead
    cases line with
    | nil => cases isHead
    | cons w rest =>
        obtain rfl : w.node = node := Option.some.inj isHead
        have same : w.request.toNat = request.toNat :=
          uniform.waiters (w.call, w.request.toNat) List.mem_cons_self
        exact signalled (w.call, w.request.toNat) _ rfl (same.trans_le enough)
  · intro c timed asked node waits wakeable
    have totals := reachable.mono fun _ _ both => AsksFor.totals small both.1
    have conserved := conserved_of_reachable nonneg totals
    obtain ⟨line, record, ⟨lined, covered⟩, uniform, funded, inTurn⟩ :=
      turns_of_reachable nonneg small reachable
    obtain ⟨rest, rfl⟩ := lined.front (w := ⟨c, timed, asked, node⟩) waits wakeable
    have same : asked = request :=
      BitVec.eq_of_toNat_eq (uniform.waiters (c, asked.toNat) List.mem_cons_self)
    have enough : request.sle s.sem.permits = true := by
      rw [sle_iff small conserved.small]
      exact funded wakeable
    refine ⟨enough, fun budget => ?_⟩
    exact wake_grants conserved lined covered (w := ⟨c, timed, asked, node⟩) waits wakeable
      (same ▸ enough) budget
  · obtain ⟨line, record, ⟨lined, covered⟩, uniform, funded, inTurn⟩ :=
      turns_of_reachable nonneg small reachable
    refine ⟨inTurn.queued, line, lined.waiting, lined.held, ?_⟩
    have served := inTurn.served
    have calls : (toLine s line record).waiters.map Prod.fst = line.map Waiter.call :=
      List.map_map
    rw [calls] at served
    exact served

/-- Three calls wait for two permits each, the second one gives up, and four
permits come: the head is woken and served, and so is the next one. -/
theorem counting_semaphore_three_calls :
    ∃ s, (machine 0#32).ReachableUnder
        (fun s a => AsksFor 0#32 2 s a ∧ isUntimedTry a = false) s ∧
      s.queued = [0, 1, 2] ∧ s.left = [1] ∧ s.grants.map Prod.fst = [0] ∧
      s.sem.queue.wakeableOf 253 = true ∧
      (∃ s', step s (.wake 2 none) = some s' ∧ s'.pc 2 = .returned true) ∧ ServedInTurn s := by
  have run : ((machine 0#32).execUnder (fun s a => AsksFor 0#32 2 s a ∧ isUntimedTry a = false)
      (initial 0#32) [.tryAcquire0 0 false 2 none, .tryAcquire0 1 true 2 none,
        .tryAcquire0 2 false 2 none, .timeout 1, .release 4, .wake 0 none]).map
          (fun s => ([s.queued, s.left, s.grants.map Prod.fst], s.pc 2, s.sem.queue.head,
            s.sem.permits)) =
      some ([[0, 1, 2], [1], [0]], .waiting false 2 253, some 253, 2) := by
    decide +kernel
  obtain ⟨s, runs, observed⟩ := Option.map_eq_some_iff.mp run
  simp only [Prod.mk.injEq, List.cons.injEq] at observed
  obtain ⟨⟨queued, left, grants, _⟩, waits, isHead, permits⟩ := observed
  have reached := Machine.reachableUnder_of_execUnder runs
  obtain ⟨signalled, served⟩ := counting_semaphore 0#32 (by decide) 2 (by decide)
  have wakeable := signalled s (reached.mono fun _ _ both => both.1) 253 isHead
    (by rw [permits]; decide)
  obtain ⟨onFirstWake, inTurn⟩ := served s reached
  exact ⟨s, reached, queued, left, grants, wakeable, (onFirstWake 2 false 2 253 waits wakeable).2 none,
    inTurn⟩

end Conc11.Semaphore
