/-
Module: Conc11.Semaphore.Teardown
Purpose: The destructor of `QueuedSemaphore::WaitQueue` and `num_waiting_nodes`, which both walk the lists.  From
  every reachable state, also after allocations that threw, the destructor deletes every node that was ever
  allocated, once, and reads none that it has deleted.
Trusted boundary: human-reviewed model
Main exports: WaitQueue.deleteFrom, WaitQueue.destroy, WaitQueue.Full, full_of_reachable, destroyed_once
-/
import Conc11.Semaphore.FifoQueue
import Conc11.Semaphore.Record

namespace Conc11.Semaphore

open Library

/-! ## The walks -/

namespace WaitQueue

/-- A loop of `~WaitQueue`, which reads `next` of a node and then deletes it.  No
result if `fuel` runs out, or if a node is read that has been deleted. -/
def deleteFrom (q : WaitQueue) : Nat → Option NodeId → List NodeId → Option (List NodeId)
  | _, none, deleted => some deleted
  | 0, some _, _ => none
  | fuel + 1, some a, deleted =>
      if a ∈ deleted then none else q.deleteFrom fuel (q.nextOf a) (deleted ++ [a])

/-- `~WaitQueue`: the nodes it deletes, in order. -/
def destroy (q : WaitQueue) (fuel : Nat) : Option (List NodeId) :=
  (q.deleteFrom fuel q.head []).bind (q.deleteFrom fuel q.cacheHead)

variable {q q' : WaitQueue} {xs cache xs' cache' deleted : List NodeId} {start : Option NodeId}

/-- The deleting loop runs to the end of a list of nodes that are still there. -/
theorem deleteFrom_path (path : Path q.nextOf start xs) (nodup : xs.Nodup)
    (present : ∀ a ∈ xs, a ∉ deleted) {fuel : Nat} (enough : xs.length ≤ fuel) :
    q.deleteFrom fuel start deleted = some (deleted ++ xs) := by
  induction xs generalizing start deleted fuel with
  | nil =>
      rw [show start = none from path, deleteFrom, List.append_nil]
  | cons x rest ih =>
      obtain ⟨rfl, onwards⟩ := path
      obtain ⟨fresh, restNodup⟩ := List.nodup_cons.mp nodup
      cases fuel with
      | zero => simp at enough
      | succ fuel =>
          have later : ∀ a ∈ rest, a ∉ deleted ++ [x] := by
            intro a member now
            rcases List.mem_append.mp now with old | isX
            · exact present a (List.mem_cons_of_mem x member) old
            · exact fresh (List.mem_singleton.mp isX ▸ member)
          rw [deleteFrom, if_neg (present x List.mem_cons_self),
            ih onwards restNodup later (Nat.le_of_succ_le_succ enough), List.append_assoc]
          rfl

/-- `num_waiting_nodes` on a list: a count past `INT_MAX` is undefined. -/
theorem numWaitingNodes_path (path : Path q.nextOf q.head xs) {fuel : Nat}
    (enough : xs.length ≤ fuel) :
    q.numWaitingNodes fuel = if xs.length ≤ intMax then some xs.length else none := by
  rw [q.numWaitingNodes_eq fuel]
  split
  next fits =>
    have counted := countNodes_path path enough (by rwa [Nat.zero_add])
    rwa [Nat.zero_add] at counted
  next long =>
    apply countNodes_overflow path fuel (Nat.zero_le _)
    rw [Nat.zero_add]
    exact Nat.lt_of_not_le long

/-! ## No node gets out of the lists -/

/-- Every node that has been allocated is queued or free. -/
def Full (q : WaitQueue) : Prop :=
  ∃ xs cache, Holds q xs cache ∧ xs.length + cache.length = q.nextNode

namespace Full

theorem allocNode (full : Full q) : Full q.allocNode := by
  obtain ⟨xs, cache, holds, count⟩ := full
  refine ⟨xs, q.nextNode :: cache, holds.allocNode, ?_⟩
  rw [List.length_cons, ← Nat.add_assoc, count]
  rfl

/-- The loop may be left by an exception at any turn. -/
theorem allocCache (full : Full q) (turns : Nat) (budget : Option Nat) :
    Full (q.allocCache turns budget).1 := by
  induction turns generalizing q budget with
  | zero => exact full
  | succ turns ih =>
      by_cases spent : budget = some 0
      · subst spent
        exact full
      · have unfolds : q.allocCache (turns + 1) budget =
            q.allocNode.allocCache turns (budget.map Nat.pred) := by
          rw [WaitQueue.allocCache]
          exact spent
        rw [unfolds]
        exact ih full.allocNode _

theorem fillCache (full : Full q) (budget : Option Nat) : Full (q.fillCache budget).1 := by
  unfold WaitQueue.fillCache
  have filled := full.allocCache q.curQueueCapacity.toNat budget
  split
  · split
    next q' ran =>
      rw [ran] at filled
      obtain ⟨xs, cache, holds, count⟩ := filled
      exact ⟨xs, cache, ⟨holds.queue, holds.free, holds.cacheNodup, holds.disjoint, holds.unlinked,
        holds.queueBound, holds.cacheBound⟩, count⟩
    next q' ran =>
      rw [ran] at filled
      exact filled
  · exact full

theorem linkAtTail {cur : NodeId} (full : Full q) (isFirst : q.cacheHead = some cur) :
    Full (q.linkAtTail cur) := by
  obtain ⟨xs, cache, holds, count⟩ := full
  obtain ⟨rest, rfl⟩ : ∃ rest, cache = cur :: rest := by
    have start := holds.free.start_eq
    rw [isFirst] at start
    exact List.head?_eq_some_iff.mp start.symm
  obtain ⟨_, _, _, _, _, _, nextNode⟩ :=
    linkAtTail_spec (holds.unlinked cur List.mem_cons_self)
  refine ⟨xs ++ [cur], rest, holds.linkAtTail.1, ?_⟩
  rw [nextNode, ← count]
  simp only [List.length_append, List.length_cons, List.length_nil]
  omega

/-- `enqueue`, also when an allocation throws. -/
theorem enqueue {budget : Option Nat} {node : Option NodeId} (full : Full q)
    (called : q.enqueue budget = some (q', node)) : Full q' := by
  have filled := full.fillCache budget
  unfold WaitQueue.enqueue at called
  split at called
  next q₁ ran =>
    cases called
    rw [ran] at filled
    exact filled
  next q₁ ran =>
    rw [ran] at filled
    split at called
    next => cases called
    next cur first =>
      cases called
      exact filled.linkAtTail first

theorem remove {node : NodeId} (full : Full q) (holds : Holds q xs' cache') (member : node ∈ xs') :
    Full (q.remove (some node)) := by
  obtain ⟨xs, cache, mine, count⟩ := full
  obtain ⟨rfl, rfl⟩ := mine.unique holds
  obtain ⟨l, r, rfl⟩ := List.append_of_mem member
  obtain ⟨_, _, _, _, _, _, nextNode⟩ := mine.remove_fields
  refine ⟨l ++ r, node :: cache, mine.remove.1, ?_⟩
  rw [nextNode, ← count]
  simp only [List.length_append, List.length_cons]
  omega

theorem dequeue (full : Full q) : Full q.dequeue := by
  unfold WaitQueue.dequeue
  cases isHead : q.head with
  | none => exact full
  | some x =>
      obtain ⟨xs, cache, holds, count⟩ := full
      have first := holds.queue.head_eq
      rw [isHead] at first
      exact remove ⟨xs, cache, holds, count⟩ holds (List.mem_of_mem_head? first.symm)

theorem wakeHead (full : Full q) : Full q.wakeHead := by
  obtain ⟨xs, cache, holds, count⟩ := full
  refine ⟨xs, cache, holds.wakeHead.1, count.trans ?_⟩
  unfold WaitQueue.wakeHead
  split <;> rfl

theorem new : Full WaitQueue.new := by
  have blank : Holds WaitQueue.blank [] [] :=
    ⟨.nil, rfl, List.nodup_nil, by simp, by simp, by simp, by simp⟩
  have start : Full WaitQueue.blank := ⟨[], [], blank, rfl⟩
  exact start.allocCache _ none

/-- The nodes of the two lists are all that were allocated. -/
theorem perm (holds : Holds q xs cache) (count : xs.length + cache.length = q.nextNode) :
    (xs ++ cache).Perm (List.range q.nextNode) := by
  have nodup : (xs ++ cache).Nodup := List.nodup_append.mpr
    ⟨holds.queue.nodup, holds.cacheNodup, fun a queued b free same =>
      holds.disjoint a queued (same ▸ free)⟩
  have below : xs ++ cache ⊆ List.range q.nextNode := by
    intro a member
    rw [List.mem_range]
    rcases List.mem_append.mp member with queued | free
    · exact holds.queueBound a queued
    · exact holds.cacheBound a free
  have length : (List.range q.nextNode).length ≤ (xs ++ cache).length := by
    rw [List.length_range, List.length_append, count]
  exact (nodup.subperm below).perm_of_length_le length

end Full

end WaitQueue

/-! ## Runs -/

theorem full_wakeIfDue {sem : QueuedSemaphore} (full : sem.queue.Full) : sem.wakeIfDue.queue.Full := by
  unfold QueuedSemaphore.wakeIfDue
  split
  · exact full.wakeHead
  · exact full

theorem full_enqueueAndWait {sem sem' : QueuedSemaphore} {budget : Option Nat} {result : Result}
    (full : sem.queue.Full) (ran : sem.enqueueAndWait budget = some (sem', result)) :
    sem'.queue.Full := by
  unfold QueuedSemaphore.enqueueAndWait at ran
  split at ran
  next => cases ran
  next queue called =>
    cases ran
    exact full.enqueue called
  next queue node called =>
    cases ran
    exact full.enqueue called

theorem full_woken {sem sem' : QueuedSemaphore} {request : Request} {budget : Option Nat}
    {result : Result} (full : sem.queue.Full)
    (ran : sem.woken request budget = some (sem', result)) : sem'.queue.Full := by
  unfold QueuedSemaphore.woken at ran
  dsimp only at ran
  split at ran
  · have left := Option.some.inj ran
    unfold QueuedSemaphore.leaveLoop at left
    dsimp only at left
    have after : (({ sem with queue := sem.queue.dequeue } : QueuedSemaphore).requestRecordRemove
        request).queue.Full := by
      rw [queue_requestRecordRemove]
      exact full.dequeue
    split at left
    · cases left
      exact full_wakeIfDue after
    · cases left
      exact full_wakeIfDue after
  · exact full_enqueueAndWait full.dequeue ran

theorem full_transition {s s' : System} {a : Action} {line : List Waiter}
    (seated : Seated s.sem.queue s.pc line) (full : s.sem.queue.Full) (moved : Transition s a s') :
    s'.sem.queue.Full := by
  cases moved with
  | tryAcquire0 c timed request budget sem result _ ran =>
      unfold QueuedSemaphore.tryAcquire0 at ran
      split at ran
      · cases ran
        exact full
      · refine full_enqueueAndWait ?_ ran
        rw [queue_requestRecordInsert]
        exact full
  | tryAcquire c request _ =>
      change (s.sem.tryAcquire request).1.queue.Full
      unfold QueuedSemaphore.tryAcquire
      split <;> exact full
  | release request => exact full_wakeIfDue full
  | wake c budget timed request node sem result _ _ ran => exact full_woken full ran
  | timeout c request node waiting _ =>
      obtain ⟨cache, holds⟩ := seated.held
      have inLine := (seated.waiting ⟨c, true, request, node⟩).mp waiting
      exact full.remove holds (List.mem_map_of_mem (f := Waiter.node) inLine)

theorem full_of_reachable {n : BitVec 32} {s : System} (reachable : (machine n).Reachable s) :
    s.sem.queue.Full := by
  refine reachable.invariant (motive := fun s => s.sem.queue.Full) .new ?_
  intro s a s' before full _ stepEq
  obtain ⟨line, seated⟩ := seated_of_reachable before
  exact full_transition seated full (transition_of_step stepEq)

/-- Whenever a semaphore is destroyed, its destructor ends, reads no node that it
has deleted, and deletes every node that was ever allocated exactly once; and
`num_waiting_nodes` is the number of the calls that wait, as far as an `int` goes. -/
theorem destroyed_once (n : BitVec 32) {s : System} (reachable : (machine n).Reachable s)
    {fuel : Nat} (enough : s.sem.queue.nextNode ≤ fuel) :
    (∃ deleted, s.sem.queue.destroy fuel = some deleted ∧
      deleted.Perm (List.range s.sem.queue.nextNode)) ∧
    ∃ calls : List CallId, calls.Nodup ∧
      (∀ c, c ∈ calls ↔ ∃ timed request node, s.pc c = .waiting timed request node) ∧
      s.sem.queue.numWaitingNodes fuel =
        if calls.length ≤ intMax then some calls.length else none := by
  obtain ⟨xs, cache, holds, count⟩ := full_of_reachable reachable
  have enoughQueue : xs.length ≤ fuel :=
    Nat.le_trans (Nat.le_add_right _ cache.length) (count ▸ enough)
  have enoughFree : cache.length ≤ fuel :=
    Nat.le_trans (Nat.le_add_left _ xs.length) (count ▸ enough)
  constructor
  · refine ⟨xs ++ cache, ?_, WaitQueue.Full.perm holds count⟩
    have queued : s.sem.queue.deleteFrom fuel s.sem.queue.head [] = some ([] ++ xs) :=
      WaitQueue.deleteFrom_path holds.queue.forward holds.queue.nodup
        (fun _ _ => List.not_mem_nil) enoughQueue
    have free := WaitQueue.deleteFrom_path holds.free holds.cacheNodup
      (fun a isFree isQueued => holds.disjoint a isQueued isFree) enoughFree
    rw [WaitQueue.destroy, queued]
    exact free
  · obtain ⟨line, seated⟩ := seated_of_reachable reachable
    obtain ⟨cache', holds'⟩ := seated.held
    obtain ⟨rfl, _⟩ := holds.unique holds'
    refine ⟨line.map Waiter.call, seated.waiting.distinct seated.nodup, fun c => ?_, ?_⟩
    · constructor
      · intro member
        obtain ⟨w, inLine, rfl⟩ := List.mem_map.mp member
        exact ⟨w.timed, w.request, w.node, (seated.waiting w).mpr inLine⟩
      · rintro ⟨timed, request, node, waiting⟩
        exact List.mem_map_of_mem (f := Waiter.call)
          ((seated.waiting ⟨c, timed, request, node⟩).mp waiting)
    · have counted := WaitQueue.numWaitingNodes_path holds.queue.forward enoughQueue
      rwa [List.length_map] at counted ⊢

/-- Of three calls that waited the second has timed out: the destructor deletes
all 256 nodes of the constructor, and two calls are counted. -/
theorem destroyed_once_timed_out :
    ∃ s deleted, (machine 0#32).Reachable s ∧ s.pc 1 = .returned false ∧
      s.sem.queue.destroy 256 = some deleted ∧ deleted.Perm (List.range 256) ∧
      s.sem.queue.numWaitingNodes 256 = some 2 := by
  have run : ((machine 0#32).exec (initial 0#32)
      [.tryAcquire0 0 false 1 none, .tryAcquire0 1 true 1 none, .tryAcquire0 2 true 1 none,
        .timeout 1]).map (fun s =>
        (s.pc 1, s.sem.queue.nextNode, s.sem.queue.numWaitingNodes 256)) =
      some (.returned false, 256, some 2) := by
    decide +kernel
  obtain ⟨s, runs, observed⟩ := Option.map_eq_some_iff.mp run
  simp only [Prod.mk.injEq] at observed
  obtain ⟨timedOut, allocated, counted⟩ := observed
  have reached := Machine.reachable_of_exec runs
  obtain ⟨⟨deleted, ran, all⟩, _⟩ := destroyed_once 0#32 reached (Nat.le_of_eq allocated)
  exact ⟨s, deleted, reached, timedOut, ran, allocated ▸ all, counted⟩

end Conc11.Semaphore
