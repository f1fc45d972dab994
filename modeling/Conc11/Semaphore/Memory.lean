/-
Module: Conc11.Semaphore.Memory
Purpose: How many nodes the `WaitQueue` of a `QueuedSemaphore` allocates.  A node is made only when none is free, and
  then no more of them than there are already; so the memory stays within twice the number of calls that have
  waited at the same time, and up to 256 of them none is made after the constructor.  The nodes of the map
  `request_record` are not counted.
Trusted boundary: none
Main exports: WaitQueue.Modest, WaitQueue.Modest.enqueue, memory_bounded
-/
import Conc11.Semaphore.Recovery
import Conc11.Semaphore.Teardown

namespace Conc11.Semaphore

open Library

namespace WaitQueue

variable {q q' : WaitQueue} {xs cache : List NodeId} {m : Nat}

/-- The number of nodes that have been made. -/
def size (q : WaitQueue) : Nat := q.nextNode

/-- The numbers that a refill depends on and changes. -/
def SameStock (q' q : WaitQueue) : Prop :=
  q'.size = q.size ∧ q'.curQueueCapacity = q.curQueueCapacity

/-! ## Only a depleted cache costs memory -/

theorem stock_linkAtTail (cur : NodeId) : (q.linkAtTail cur).SameStock q := by
  unfold linkAtTail
  dsimp only
  split <;> exact ⟨rfl, rfl⟩

theorem stock_bypass (node : NodeId) : (q.bypass node).SameStock q := by
  unfold bypass
  cases (q.nodes node).prev <;> dsimp only <;> split <;> exact ⟨rfl, rfl⟩

theorem stock_releases (node : NodeId) :
    (((q.releaseOnly node).releaseHead node).releaseTail node).SameStock q := by
  unfold releaseOnly releaseHead releaseTail
  split_ifs <;> exact ⟨rfl, rfl⟩

theorem stock_remove (node : Option NodeId) : (q.remove node).SameStock q := by
  cases node with
  | none => exact ⟨rfl, rfl⟩
  | some node =>
      obtain ⟨released, kept⟩ := stock_releases (q := q) node
      obtain ⟨bypassed, still⟩ :=
        stock_bypass (q := ((q.releaseOnly node).releaseHead node).releaseTail node) node
      exact ⟨bypassed.trans released, still.trans kept⟩

theorem stock_wakeHead : q.wakeHead.SameStock q := by
  unfold wakeHead
  split <;> exact ⟨rfl, rfl⟩

/-- The loop of `alloc_cache` makes a node in each turn, unless an allocation throws. -/
theorem stock_allocCache (turns : Nat) (budget : Option Nat) :
    (q.allocCache turns budget).1.curQueueCapacity = q.curQueueCapacity ∧
      q.size ≤ (q.allocCache turns budget).1.size ∧
      (q.allocCache turns budget).1.size ≤ q.size + turns ∧
      ((q.allocCache turns budget).2 = true →
        (q.allocCache turns budget).1.size = q.size + turns) := by
  induction turns generalizing q budget with
  | zero => exact ⟨rfl, Nat.le_refl _, Nat.le_refl _, fun _ => rfl⟩
  | succ turns ih =>
      by_cases spent : budget = some 0
      · subst spent
        exact ⟨rfl, Nat.le_refl _, Nat.le_add_right _ _, nofun⟩
      · have unfolds : q.allocCache (turns + 1) budget =
            q.allocNode.allocCache turns (budget.map Nat.pred) := by
          rw [WaitQueue.allocCache]
          exact spent
        obtain ⟨capacity, grows, within, full⟩ := ih (q := q.allocNode) (budget.map Nat.pred)
        have one : q.allocNode.size = q.size + 1 := rfl
        rw [unfolds]
        refine ⟨capacity, by omega, by omega, fun ran => ?_⟩
        have all := full ran
        omega

theorem allocCache_succeeds (turns : Nat) : (q.allocCache turns none).2 = true := by
  induction turns generalizing q with
  | zero => rfl
  | succ turns ih => exact ih

/-! ## The bound -/

/-- The next refill makes no more nodes than there are, and there are the 256 of
the constructor or at most twice `m`. -/
structure Modest (m : Nat) (q : WaitQueue) : Prop where
  capacity : q.curQueueCapacity.toNat ≤ q.size
  atLeast : 256 ≤ q.size
  within : q.size = 256 ∨ 256 ≤ m ∧ q.size ≤ 2 * m

namespace Modest

theorem congr (modest : Modest m q) (same : q'.SameStock q) : Modest m q' := by
  obtain ⟨nodes, capacity⟩ := same
  refine ⟨?_, nodes ▸ modest.atLeast, nodes ▸ modest.within⟩
  rw [nodes, capacity]
  exact modest.capacity

theorem new : Modest m WaitQueue.new := by
  obtain ⟨capacity, _, _, full⟩ := stock_allocCache (q := blank) 256 none
  have size : WaitQueue.new.size = 256 := full (allocCache_succeeds 256)
  have kept : WaitQueue.new.curQueueCapacity = 256#64 := capacity
  refine ⟨?_, Nat.le_of_eq size.symm, .inl size⟩
  rw [kept, size]
  exact Nat.le_refl _

/-- Without a free node every node is queued. -/
theorem depleted (full : Full q) (holds : Holds q xs cache) (empty : q.cacheHead = none) :
    q.size = xs.length := by
  obtain ⟨xs', cache', holds', count⟩ := full
  obtain ⟨rfl, rfl⟩ := holds'.unique holds
  have noFree : cache' = [] := by
    have start := holds.free.start_eq
    rw [empty] at start
    exact List.head?_eq_none_iff.mp start.symm
  rw [size, ← count, noFree, List.length_nil, Nat.add_zero]

theorem fillCache (modest : Modest m q) (full : Full q) (holds : Holds q xs cache)
    (few : xs.length ≤ m) (budget : Option Nat) :
    Modest m (q.fillCache budget).1 ∧ (m < 256 → (q.fillCache budget).2 = true) := by
  unfold WaitQueue.fillCache
  split
  next empty =>
    have all := depleted full holds (Option.isNone_iff_eq_none.mp empty)
    have atLeast := modest.atLeast
    have bounded := modest.capacity
    obtain ⟨capacity, grows, within, ranAll⟩ := stock_allocCache (q := q) q.curQueueCapacity.toNat budget
    split
    next q₁ ran =>
      rw [ran] at capacity grows within ranAll
      have made : q₁.size = q.size + q.curQueueCapacity.toNat := ranAll rfl
      have twice : q₁.size ≤ 2 * m := by omega
      refine ⟨⟨?_, atLeast.trans grows, .inr ⟨by omega, twice⟩⟩, fun _ => rfl⟩
      change (q₁.curQueueCapacity <<< 1).toNat ≤ q₁.size
      rw [capacity, BitVec.toNat_shiftLeft, Nat.shiftLeft_eq]
      refine Nat.le_trans (Nat.mod_le _ _) ?_
      omega
    next q₁ ran =>
      rw [ran] at capacity grows within
      have twice : q₁.size ≤ 2 * m := by
        change q₁.size ≤ _ at within
        omega
      refine ⟨⟨?_, atLeast.trans grows, .inr ⟨by omega, twice⟩⟩, fun few' => by omega⟩
      exact (congrArg BitVec.toNat capacity).trans_le (bounded.trans grows)
  next => exact ⟨modest, fun _ => rfl⟩

/-- `enqueue`; up to 256 queued nodes it does not throw. -/
theorem enqueue (modest : Modest m q) (full : Full q) (holds : Holds q xs cache)
    (few : xs.length ≤ m) {budget : Option Nat} {node : Option NodeId}
    (called : q.enqueue budget = some (q', node)) : Modest m q' ∧ (m < 256 → node ≠ none) := by
  obtain ⟨filled, succeeds⟩ := modest.fillCache full holds few budget
  unfold WaitQueue.enqueue at called
  split at called
  next q₁ ran =>
    cases called
    rw [ran] at filled succeeds
    exact ⟨filled, fun few' => absurd (succeeds few') Bool.false_ne_true⟩
  next q₁ ran =>
    rw [ran] at filled
    split at called
    next => cases called
    next cur first =>
      cases called
      exact ⟨filled.congr (stock_linkAtTail cur), fun _ => Option.some_ne_none cur⟩

end Modest

end WaitQueue

/-! ## Runs -/

open WaitQueue (Modest)

variable {m : Nat} {sem sem' : QueuedSemaphore} {request : Request} {budget : Option Nat}
  {result : Result} {s s' : System}

theorem modest_wakeIfDue (modest : Modest m sem.queue) : Modest m sem.wakeIfDue.queue := by
  unfold QueuedSemaphore.wakeIfDue
  split
  · exact modest.congr WaitQueue.stock_wakeHead
  · exact modest

theorem modest_enqueueAndWait {xs cache : List NodeId} (modest : Modest m sem.queue)
    (full : sem.queue.Full) (holds : sem.queue.Holds xs cache) (few : xs.length ≤ m)
    (ran : sem.enqueueAndWait budget = some (sem', result)) :
    Modest m sem'.queue ∧ (m < 256 → result ≠ .threw) := by
  unfold QueuedSemaphore.enqueueAndWait at ran
  split at ran
  next => cases ran
  next queue called =>
    cases ran
    obtain ⟨kept, succeeds⟩ := modest.enqueue full holds few called
    exact ⟨kept, fun few' => absurd rfl (succeeds few')⟩
  next queue node called =>
    cases ran
    exact ⟨(modest.enqueue full holds few called).1, fun _ => Result.noConfusion⟩

theorem modest_tryAcquire0 {xs cache : List NodeId} (modest : Modest m sem.queue)
    (full : sem.queue.Full) (holds : sem.queue.Holds xs cache) (few : xs.length ≤ m)
    (ran : sem.tryAcquire0 request budget = some (sem', result)) :
    Modest m sem'.queue ∧ (m < 256 → result ≠ .threw) := by
  unfold QueuedSemaphore.tryAcquire0 at ran
  split at ran
  · cases ran
    exact ⟨modest, fun _ => Result.noConfusion⟩
  · rw [← @queue_requestRecordInsert sem request] at modest full holds
    exact modest_enqueueAndWait modest full holds few ran

theorem modest_woken {node : NodeId} {rest cache : List NodeId} (modest : Modest m sem.queue)
    (full : sem.queue.Full) (holds : sem.queue.Holds (node :: rest) cache) (few : rest.length ≤ m)
    (ran : sem.woken request budget = some (sem', result)) :
    Modest m sem'.queue ∧ (m < 256 → result ≠ .threw) := by
  have modest' : Modest m sem.queue.dequeue := modest.congr (WaitQueue.stock_remove _)
  unfold QueuedSemaphore.woken at ran
  dsimp only at ran
  split at ran
  · have left := Option.some.inj ran
    unfold QueuedSemaphore.leaveLoop at left
    dsimp only at left
    have after : Modest m (({ sem with queue := sem.queue.dequeue } :
        QueuedSemaphore).requestRecordRemove request).queue := by
      rw [queue_requestRecordRemove]
      exact modest'
    split at left
    · cases left
      exact ⟨modest_wakeIfDue after, fun _ => Result.noConfusion⟩
    · cases left
      exact ⟨modest_wakeIfDue after, fun _ => Result.noConfusion⟩
  · exact modest_enqueueAndWait modest' full.dequeue holds.dequeue.1 few ran

/-- Every call that is not idle has come. -/
theorem came_of_reachable {n : BitVec 32} (reachable : (machine n).Reachable s) :
    ∀ c, s.pc c ≠ .idle → c ∈ s.arrived := by
  refine reachable.invariant (motive := fun s => ∀ c, s.pc c ≠ .idle → c ∈ s.arrived)
    (fun c notIdle => absurd rfl notIdle) ?_
  intro s a s' _ came _ stepEq
  have others : ∀ {c : CallId} {now : CallPc}, c ∈ s.arrived →
      ∀ d, Function.update s.pc c now d ≠ .idle → d ∈ s.arrived := by
    intro c now here d notIdle
    by_cases same : d = c
    · exact same ▸ here
    · rw [Function.update_of_ne same] at notIdle
      exact came d notIdle
  have new : ∀ {c : CallId} {now : CallPc} (d : CallId), Function.update s.pc c now d ≠ .idle →
      d ∈ s.arrived ++ [c] := by
    intro c now d notIdle
    by_cases same : d = c
    · exact List.mem_append_right _ (List.mem_singleton.mpr same)
    · rw [Function.update_of_ne same] at notIdle
      exact List.mem_append_left _ (came d notIdle)
  cases transition_of_step stepEq with
  | tryAcquire0 c timed request budget sem result idle ran => exact new
  | tryAcquire c request idle => exact new
  | release request => exact came
  | wake c budget timed request node sem result waits wakeable ran =>
      exact others (came c (by rw [waits]; exact CallPc.noConfusion))
  | timeout c request node waits asleep =>
      exact others (came c (by rw [waits]; exact CallPc.noConfusion))

theorem sleepers_eq : s.sleepers = (s.arrived.filter fun c => (s.pc c).isWaiting).length := by
  unfold System.sleepers System.sum
  induction s.arrived with
  | nil => rfl
  | cons c rest ih =>
      rw [List.map_cons, List.sum_cons, List.filter_cons, ih]
      split
      next waits => simp [waits, Nat.add_comm]
      next idle => simp [idle]

/-- As many nodes are queued as calls wait. -/
theorem length_le_sleepers {n : BitVec 32} (reachable : (machine n).Reachable s)
    {line : List Waiter} (seated : Seated s.sem.queue s.pc line) : line.length ≤ s.sleepers := by
  have nodup := seated.waiting.distinct seated.nodup
  have waiting : line.map Waiter.call ⊆ s.arrived.filter fun c => (s.pc c).isWaiting := by
    intro c member
    obtain ⟨w, inLine, rfl⟩ := List.mem_map.mp member
    have waits := (seated.waiting w).mpr inLine
    refine List.mem_filter.mpr ⟨came_of_reachable reachable _ ?_, ?_⟩
    · rw [waits]
      exact CallPc.noConfusion
    · rw [waits]
      rfl
  have counted := (nodup.subperm waiting).length_le
  rw [List.length_map] at counted
  exact counted.trans (Nat.le_of_eq sleepers_eq.symm)

theorem update_not_threw {c : CallId} {now : CallPc} (notThrown : now ≠ .threw)
    (before : ∀ d, s.pc d ≠ .threw) : ∀ d, Function.update s.pc c now d ≠ .threw := by
  intro d
  by_cases same : d = c
  · rwa [same, Function.update_self]
  · rw [Function.update_of_ne same]
    exact before d

/-- A call ends by an exception only where an allocation has thrown. -/
theorem settle_not_threw (c : CallId) (timed : Bool) (request : Request) (sem : QueuedSemaphore)
    (notThrown : result ≠ .threw) (before : ∀ d, s.pc d ≠ .threw) :
    ∀ d, (s.settle c timed request sem result).pc d ≠ .threw := by
  refine update_not_threw ?_ before
  cases result <;> first | exact CallPc.noConfusion | exact absurd rfl notThrown

/-- In every state with at most `m` waiting calls a step keeps the stock modest. -/
theorem modest_step {n : BitVec 32} {a : Action} (reachable : (machine n).Reachable s)
    (few : s.sleepers ≤ m) (modest : Modest m s.sem.queue) (stepEq : step s a = some s') :
    Modest m s'.sem.queue ∧
      (m < 256 → (∀ c, s.pc c ≠ .threw) → ∀ c, s'.pc c ≠ .threw) := by
  obtain ⟨line, seated⟩ := seated_of_reachable reachable
  obtain ⟨cache, holds⟩ := seated.held
  have full := full_of_reachable reachable
  have fits : (line.map Waiter.node).length ≤ m := by
    rw [List.length_map]
    exact (length_le_sleepers reachable seated).trans few
  cases transition_of_step stepEq with
  | tryAcquire0 c timed request budget sem result idle ran =>
      obtain ⟨modest', succeeds⟩ := modest_tryAcquire0 modest full holds fits ran
      exact ⟨modest', fun few' => settle_not_threw c timed request sem (succeeds few')⟩
  | tryAcquire c request idle =>
      unfold QueuedSemaphore.tryAcquire
      split
      · exact ⟨modest, fun _ => update_not_threw CallPc.noConfusion⟩
      · exact ⟨modest, fun _ => update_not_threw CallPc.noConfusion⟩
  | release request => exact ⟨modest_wakeIfDue modest, fun _ before => before⟩
  | wake c budget timed request node sem result waits wakeable ran =>
      obtain ⟨rest, rfl⟩ := seated.front (w := ⟨c, timed, request, node⟩) waits wakeable
      have fewer : (rest.map Waiter.node).length ≤ m := (Nat.le_succ _).trans fits
      obtain ⟨modest', succeeds⟩ := modest_woken modest full holds fewer ran
      exact ⟨modest', fun few' => settle_not_threw c timed request sem (succeeds few')⟩
  | timeout c request node waits asleep =>
      exact ⟨modest.congr (WaitQueue.stock_remove _),
        fun _ => update_not_threw CallPc.noConfusion⟩

/-- As long as no more than `m` calls wait at the same time there are the 256 nodes
of the constructor or, from 256 waiting calls on, at most `2 * m`; with fewer
than 256 nothing is ever allocated, so no `acquire` ends by `bad_alloc`. -/
theorem memory_bounded (n : BitVec 32) (m : Nat)
    (reachable : (machine n).ReachableUnder (fun s _ => s.sleepers ≤ m) s) :
    (s.sem.queue.nextNode = 256 ∨ 256 ≤ m ∧ s.sem.queue.nextNode ≤ 2 * m) ∧
      (m < 256 → ∀ c, s.pc c ≠ .threw) := by
  have kept : Modest m s.sem.queue ∧ (m < 256 → ∀ c, s.pc c ≠ .threw) := by
    refine reachable.invariant
      (motive := fun s => Modest m s.sem.queue ∧ (m < 256 → ∀ c, s.pc c ≠ .threw)) ?_ ?_
    · exact ⟨.new, fun _ _ => CallPc.noConfusion⟩
    · rintro s a s' before ⟨modest, none⟩ few stepEq
      obtain ⟨modest', noneNow⟩ := modest_step before.reachable few modest stepEq
      exact ⟨modest', fun few' => noneNow few' (none few')⟩
  exact ⟨kept.1.within, kept.2⟩

/-- With no memory left three calls come to wait all the same. -/
theorem memory_bounded_no_allocation :
    ∃ s, (machine 0#32).ReachableUnder (fun s _ => s.sleepers ≤ 2) s ∧ s.sleepers = 3 ∧
      s.sem.queue.nextNode = 256 ∧ ∀ c, s.pc c ≠ .threw := by
  have run : ((machine 0#32).execUnder (fun s _ => s.sleepers ≤ 2) (initial 0#32)
      [.tryAcquire0 0 false 1 (some 0), .tryAcquire0 1 false 2 (some 0),
        .tryAcquire0 2 true 1 (some 0)]).map System.sleepers = some 3 := by
    decide +kernel
  obtain ⟨s, runs, three⟩ := Option.map_eq_some_iff.mp run
  have reached := Machine.reachableUnder_of_execUnder runs
  obtain ⟨nodes, noneThrew⟩ := memory_bounded 0#32 2 reached
  exact ⟨s, reached, three, nodes.resolve_right fun grown => absurd grown.1 (by decide),
    noneThrew (by decide)⟩

end Conc11.Semaphore
