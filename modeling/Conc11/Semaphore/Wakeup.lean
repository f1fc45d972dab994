/-
Module: Conc11.Semaphore.Wakeup
Purpose: Which steps of `QueuedSemaphore` keep the head of the queue signalled.  Two of them put another
  node in front without looking at its request: a woken call that finds too few permits goes to the
  tail, and a call whose wait has timed out leaves the head.
Trusted boundary: none
Main exports: HeadSignalled, ServableBehind, KeepsSignal, headSignalled_iff, head_signalled
-/
import Conc11.Semaphore.Refinement

namespace Conc11.Semaphore

open Library

/-- If the permits suffice for the call whose node is the head, the node is
wakeable. -/
def HeadSignalled (s : System) : Prop :=
  ∀ c timed request node, s.pc c = .waiting timed request node →
    s.sem.queue.head = some node → request.sle s.sem.permits = true →
    s.sem.queue.wakeableOf node = true

/-- The permits suffice for the call right behind `node`. -/
def ServableBehind (s : System) (node : NodeId) : Prop :=
  ∃ c timed request behind, s.sem.queue.nextOf node = some behind ∧
    s.pc c = .waiting timed request behind ∧ request.sle s.sem.permits = true

/-- When the head goes without taking permits, the permits do not suffice for
the call behind it. -/
def KeepsSignal (s : System) : Action → Prop
  | .wake c _ => ∀ timed request node, s.pc c = .waiting timed request node →
      request.sle s.sem.permits = true ∨ ¬ ServableBehind s node
  | .timeout c => ∀ timed request node, s.pc c = .waiting timed request node →
      s.sem.queue.head = some node → ¬ ServableBehind s node
  | _ => True

namespace Lined

variable {n : BitVec 32} {s : System} {line : List Waiter} {record : Multiset Nat}

theorem small (conserved : Conserved n s) (lined : Lined s line record) {w : Waiter}
    (inLine : w ∈ line) : w.request.toNat ≤ intMax :=
  conserved.requests w.call w.timed w.request w.node ((lined.waiting w).mpr inLine)

/-- The node tells whose it is. -/
theorem node_unique (lined : Lined s line record) {v w : Waiter} (hereV : v ∈ line)
    (hereW : w ∈ line) (same : v.node = w.node) : v = w := by
  obtain ⟨cache, holds⟩ := lined.held
  exact List.inj_on_of_nodup_map holds.queue.nodup hereV hereW same

/-- The call whose node is the head is the first in line. -/
theorem head_iff (lined : Lined s line record) {w : Waiter} (inLine : w ∈ line) :
    s.sem.queue.head = some w.node ↔ ∃ rest, line = w :: rest := by
  obtain ⟨cache, holds⟩ := lined.held
  rw [holds.queue.head_eq]
  constructor
  · intro isHead
    cases line with
    | nil => cases inLine
    | cons first rest =>
        have same : first.node = w.node := Option.some.inj isHead
        rw [lined.node_unique List.mem_cons_self inLine same]
        exact ⟨rest, rfl⟩
  · rintro ⟨rest, rfl⟩
    rfl

theorem servableBehind_iff (conserved : Conserved n s) {w : Waiter} {rest : List Waiter}
    (lined : Lined s (w :: rest) record) :
    ServableBehind s w.node ↔
      ∃ v more, rest = v :: more ∧ v.request.toNat ≤ s.sem.permits.toNat := by
  obtain ⟨cache, holds⟩ := lined.held
  have next : s.sem.queue.nextOf w.node = (rest.map Waiter.node).head? :=
    holds.queue.next_eq (l := [])
  constructor
  · rintro ⟨c, timed, request, behind, isNext, waits, enough⟩
    have inLine := (lined.waiting ⟨c, timed, request, behind⟩).mp waits
    rw [sle_iff (lined.small conserved inLine) conserved.small] at enough
    rw [next] at isNext
    cases rest with
    | nil => cases isNext
    | cons v more =>
        have same : v.node = behind := Option.some.inj isNext
        obtain rfl := lined.node_unique (w := ⟨c, timed, request, behind⟩)
          (List.mem_cons_of_mem w List.mem_cons_self) inLine same
        exact ⟨_, more, rfl, enough⟩
  · rintro ⟨v, more, rfl, enough⟩
    have inLine : v ∈ w :: v :: more := List.mem_cons_of_mem w List.mem_cons_self
    refine ⟨v.call, v.timed, v.request, v.node, next, (lined.waiting v).mpr inLine, ?_⟩
    rwa [sle_iff (lined.small conserved inLine) conserved.small]

/-! ## The line and the nodes speak of the same calls -/

theorem headSignalled_iff (conserved : Conserved n s) (lined : Lined s line record) :
    (toLine s line record).HeadSignalled ↔ HeadSignalled s := by
  constructor
  · intro kept c timed request node waits isHead enough
    have inLine := (lined.waiting ⟨c, timed, request, node⟩).mp waits
    obtain ⟨rest, rfl⟩ := (lined.head_iff inLine).mp isHead
    rw [sle_iff (lined.small conserved inLine) conserved.small] at enough
    exact kept _ _ rfl enough
  · intro kept v rest front enough
    cases line with
    | nil => cases front
    | cons w others =>
        obtain ⟨rfl, rfl⟩ := List.cons.inj front
        have inLine : w ∈ w :: others := List.mem_cons_self
        refine kept w.call w.timed w.request w.node ((lined.waiting w).mpr inLine)
          ((lined.head_iff inLine).mpr ⟨others, rfl⟩) ?_
        rwa [sle_iff (lined.small conserved inLine) conserved.small]

theorem keepsSignal_iff (conserved : Conserved n s) (lined : Lined s line record) {a : Action}
    {e : Line.Event CallId} (shown : Shows s a e) :
    (toLine s line record).KeepsSignal e ↔ KeepsSignal s a := by
  cases shown with
  | serve c budget timed request node waits enough =>
      refine iff_of_true trivial fun timed' request' node' waits' => .inl ?_
      obtain ⟨_, rfl, _⟩ := CallPc.waiting.inj (waits.symm.trans waits')
      exact enough
  | requeue c budget timed request node waits wakeable short =>
      obtain ⟨rest, rfl⟩ := lined.front (w := ⟨c, timed, request, node⟩) waits wakeable
      have behind := lined.servableBehind_iff conserved
      constructor
      · intro keeps timed' request' node' waits'
        obtain ⟨_, _, rfl⟩ := CallPc.waiting.inj (waits.symm.trans waits')
        refine .inr fun servable => ?_
        obtain ⟨v, more, rfl, enough⟩ := behind.mp servable
        exact Nat.not_lt.mpr enough (keeps _ _ _ rfl)
      · intro keeps w v more front
        rcases keeps timed request node waits with enough | notServable
        · rw [short] at enough
          cases enough
        · cases rest with
          | nil => cases front
          | cons next others =>
              obtain ⟨_, tails⟩ := List.cons.inj front
              obtain ⟨rfl, _⟩ := List.cons.inj tails
              exact Nat.lt_of_not_le fun enough =>
                notServable (behind.mpr ⟨next, others, rfl, enough⟩)
  | leave c =>
      constructor
      · intro keeps timed request node waits isHead servable
        have inLine := (lined.waiting ⟨c, timed, request, node⟩).mp waits
        obtain ⟨rest, rfl⟩ := (lined.head_iff inLine).mp isHead
        obtain ⟨v, more, rfl, enough⟩ := (lined.servableBehind_iff conserved).mp servable
        exact Nat.not_lt.mpr enough (keeps _ _ _ rfl)
      · intro keeps request v rest front
        match line, lined, front with
        | w :: next :: others, lined, front =>
            obtain ⟨firsts, tails⟩ := List.cons.inj front
            obtain ⟨rfl, _⟩ := List.cons.inj tails
            obtain ⟨rfl, _⟩ := Prod.mk.inj firsts
            have inLine : w ∈ w :: next :: others := List.mem_cons_self
            refine Nat.lt_of_not_le fun enough => keeps w.timed w.request w.node
              ((lined.waiting w).mpr inLine) ((lined.head_iff inLine).mpr ⟨_, rfl⟩) ?_
            exact (lined.servableBehind_iff conserved).mpr ⟨next, others, rfl, enough⟩
  | _ => exact Iff.rfl

end Lined

/-- One step: the head is still signalled exactly if the step keeps the signal. -/
theorem headSignalled_step {n : BitVec 32} (nonneg : 0 ≤ n.toInt) {s s' : System} {a : Action}
    (reachable : (machine n).ReachableUnder (WithinInt n) s) (signalled : HeadSignalled s)
    (allowed : WithinInt n s a) (stepEq : step s a = some s') :
    HeadSignalled s' ↔ KeepsSignal s a := by
  have totals := reachable.mono fun _ _ => WithinInt.totals
  have conserved := conserved_of_reachable nonneg totals
  have moved := transition_of_step stepEq
  obtain ⟨line, record, lined, covered⟩ := line_of_reachable nonneg totals
  obtain ⟨line', record', e, lined', shown, lineMoved⟩ :=
    lined.transition conserved covered allowed.totals moved
  rw [← lined'.headSignalled_iff (conserved.transition allowed.totals moved),
    ← lined.keepsSignal_iff conserved shown]
  exact Line.headSignalled_iff covered ((lined.headSignalled_iff conserved).mpr signalled) lineMoved

/-- In every run of steps that keep the signal the head is signalled whenever
the permits suffice for its call; a step that does not keep it loses it at
once.  The head always belongs to a waiting call. -/
theorem head_signalled (n : BitVec 32) (nonneg : 0 ≤ n.toInt) :
    (∀ s, (machine n).ReachableUnder (fun s a => WithinInt n s a ∧ KeepsSignal s a) s →
      HeadSignalled s) ∧
    (∀ s a s', (machine n).ReachableUnder (WithinInt n) s → HeadSignalled s →
      WithinInt n s a → step s a = some s' → (HeadSignalled s' ↔ KeepsSignal s a)) ∧
    ∀ s, (machine n).ReachableUnder (WithinInt n) s → ∀ node, s.sem.queue.head = some node →
      ∃ c timed request, s.pc c = .waiting timed request node := by
  refine ⟨fun s reachable => ?_, fun s a s' reachable signalled allowed stepEq =>
    headSignalled_step nonneg reachable signalled allowed stepEq, fun s reachable node isHead => ?_⟩
  · refine reachable.invariant (motive := HeadSignalled) ?_ ?_
    · exact fun c timed request node waits => CallPc.noConfusion waits
    · intro s a s' reached signalled allowed stepEq
      have within := reached.mono fun _ _ both => both.1
      exact (headSignalled_step nonneg within signalled allowed.1 stepEq).mpr allowed.2
  · obtain ⟨line, record, lined, _⟩ :=
      line_of_reachable nonneg (reachable.mono fun _ _ => WithinInt.totals)
    obtain ⟨cache, holds⟩ := lined.held
    rw [holds.queue.head_eq] at isHead
    cases line with
    | nil => cases isHead
    | cons w rest =>
        obtain rfl : w.node = node := Option.some.inj isHead
        exact ⟨w.call, w.timed, w.request, (lined.waiting w).mpr List.mem_cons_self⟩

/-- Call 0 wants two permits and call 1 behind it one.  One permit comes; call
0 is woken, has too few and goes to the tail, and nobody wakes call 1. -/
def lostSignalRun : List Action :=
  [.tryAcquire0 0 false 2 none, .tryAcquire0 1 false 1 none, .release 1, .wake 0 none]

theorem head_signalled_counterexample :
    ¬ ∀ n : BitVec 32, 0 ≤ n.toInt → ∀ s, (machine n).ReachableUnder (WithinInt n) s →
      HeadSignalled s := by
  intro claimed
  have run : ((machine 0#32).execUnder (WithinInt 0#32) (initial 0#32) lostSignalRun).map
      (fun s => (s.pc 1, s.sem.queue.head, s.sem.permits, s.sem.queue.wakeableOf 254)) =
      some (.waiting false 1 254, some 254, 1, false) := by
    decide +kernel
  obtain ⟨s, runs, observed⟩ := Option.map_eq_some_iff.mp run
  simp only [Prod.mk.injEq] at observed
  obtain ⟨waits, isHead, permits, asleep⟩ := observed
  have awake := claimed 0#32 (by decide) s (Machine.reachableUnder_of_execUnder runs) 1 false 1 254
    waits isHead (by rw [permits]; decide)
  rw [asleep] at awake
  cases awake

/-- One permit for a call that waits for one: the call is signalled. -/
theorem head_signalled_one_permit :
    ∃ s, (machine 0#32).ReachableUnder (fun s a => WithinInt 0#32 s a ∧ KeepsSignal s a) s ∧
      s.pc 0 = .waiting false 1 255 ∧ s.sem.permits = 1 ∧ s.sem.queue.wakeableOf 255 = true := by
  have run : ((machine 0#32).execUnder
      (fun s a => WithinInt 0#32 s a ∧ (a matches .tryAcquire0 .. | .release ..)) (initial 0#32)
      [.tryAcquire0 0 false 1 none, .tryAcquire0 1 true 2 none, .release 1]).map
        (fun s => (s.pc 0, s.sem.queue.head, s.sem.permits)) =
      some (.waiting false 1 255, some 255, 1) := by
    decide +kernel
  obtain ⟨s, runs, observed⟩ := Option.map_eq_some_iff.mp run
  simp only [Prod.mk.injEq] at observed
  obtain ⟨waits, isHead, permits⟩ := observed
  have reached : (machine 0#32).ReachableUnder
      (fun s a => WithinInt 0#32 s a ∧ KeepsSignal s a) s := by
    refine (Machine.reachableUnder_of_execUnder runs).mono fun s a both => ⟨both.1, ?_⟩
    cases a with
    | wake c budget => cases both.2
    | timeout c => cases both.2
    | _ => trivial
  refine ⟨s, reached, waits, permits, ?_⟩
  exact (head_signalled 0#32 (by decide)).1 s reached 0 false 1 255 waits isHead
    (by rw [permits]; decide)

end Conc11.Semaphore
