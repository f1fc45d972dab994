/-
Module: Conc11.Semaphore.FifoQueue
Purpose: `WaitQueue` as an object of its own: its operations in any order, next to the list of nodes they are
  meant to keep, with the walk of `num_waiting_nodes` and the number of nodes that queue and cache hold.
Trusted boundary: human-reviewed model
Main exports: WaitQueue.numWaitingNodes, Tracked, fifo, Stocked, queue_keeps_line
-/
import Conc11.Library.Machine
import Conc11.Semaphore.Permits
import Conc11.Semaphore.WaitQueue

namespace Conc11.Semaphore

open Library

namespace WaitQueue

/-- The loop of `num_waiting_nodes` from the node `p` on, with `fuel` turns.  A
count past `INT_MAX` is a signed overflow, and the result is undefined. -/
def countNodes (q : WaitQueue) : Nat → Option NodeId → Nat → Option Nat
  | _, none, ctr => some ctr
  | 0, some _, _ => none
  | fuel + 1, some p, ctr =>
      if ctr < intMax then q.countNodes fuel (q.nodes p).next (ctr + 1) else none

/-- `num_waiting_nodes`. -/
def numWaitingNodes (q : WaitQueue) (fuel : Nat) : Option Nat :=
  if q.head.isNone then some 0 else q.countNodes fuel q.head 0

end WaitQueue

/-- The calls on a `WaitQueue`. -/
inductive QueueOp where
  | enqueue
  | dequeue
  | remove (node : Option NodeId)
  | wakeHead
deriving DecidableEq, Repr

/-- The queue next to the list that its operations are meant to keep. -/
structure Tracked where
  queue : WaitQueue
  line : List NodeId

namespace Tracked

/-- One call, with all allocations succeeding, and what it is to do to the
list: append the node it returns, drop the first, delete its argument. -/
def apply (s : Tracked) : QueueOp → Option Tracked
  | .enqueue =>
      match s.queue.enqueue none with
      | some (queue, some node) => some { queue := queue, line := s.line ++ [node] }
      | _ => none
  | .dequeue => some { queue := s.queue.dequeue, line := s.line.tail }
  | .remove none => some { s with queue := s.queue.remove none }
  | .remove (some node) =>
      some { queue := s.queue.remove (some node), line := s.line.erase node }
  | .wakeHead => some { s with queue := s.queue.wakeHead }

/-- `remove` is called with a queued node, and `cur_queue_capacity <<= 1` does
not overflow. -/
def Permitted (s : Tracked) : QueueOp → Prop
  | .enqueue => s.queue.cacheHead = none → s.queue.curQueueCapacity.toNat * 2 < 2 ^ 64
  | .remove (some node) => node ∈ s.line
  | _ => True

end Tracked

/-- A fresh queue and any calls on it. -/
def fifo : Machine Tracked QueueOp where
  initial := { queue := .new, line := [] }
  step := Tracked.apply

namespace WaitQueue

/-! ## The capacity -/

section Capacity

variable (q : WaitQueue)

@[simp] theorem allocCache_capacity (turns : Nat) (budget : Option Nat) :
    (q.allocCache turns budget).1.curQueueCapacity = q.curQueueCapacity := by
  induction turns generalizing q budget with
  | zero => rfl
  | succ turns ih =>
      by_cases spent : budget = some 0
      · subst spent
        rfl
      · have unfolds : q.allocCache (turns + 1) budget =
            q.allocNode.allocCache turns (budget.map Nat.pred) := by
          rw [allocCache]
          exact spent
        rw [unfolds, ih]
        rfl

@[simp] theorem linkAtTail_capacity (cur : NodeId) :
    (q.linkAtTail cur).curQueueCapacity = q.curQueueCapacity := by
  unfold linkAtTail
  dsimp only
  split
  · rfl
  · rfl

theorem releaseEnds_capacity (node : NodeId) :
    (((q.releaseOnly node).releaseHead node).releaseTail node).curQueueCapacity =
      q.curQueueCapacity := by
  have only : (q.releaseOnly node).curQueueCapacity = q.curQueueCapacity := by
    unfold releaseOnly
    split <;> rfl
  have heads (q : WaitQueue) : (q.releaseHead node).curQueueCapacity = q.curQueueCapacity := by
    unfold releaseHead
    split <;> rfl
  have tails (q : WaitQueue) : (q.releaseTail node).curQueueCapacity = q.curQueueCapacity := by
    unfold releaseTail
    split <;> rfl
  rw [tails, heads, only]

theorem bypass_capacity (node : NodeId) :
    (q.bypass node).curQueueCapacity = q.curQueueCapacity := by
  unfold bypass
  dsimp only
  split <;> split <;> rfl

@[simp] theorem remove_capacity (node : Option NodeId) :
    (q.remove node).curQueueCapacity = q.curQueueCapacity := by
  cases node with
  | none => rfl
  | some node => exact (bypass_capacity _ node).trans (releaseEnds_capacity q node)

@[simp] theorem wakeHead_capacity : q.wakeHead.curQueueCapacity = q.curQueueCapacity := by
  unfold wakeHead
  split <;> rfl

end Capacity

/-! ## The count -/

/-- The walk counts what is left of the queue, as long as the count fits. -/
theorem countNodes_path {q : WaitQueue} {start : Option NodeId} {xs : List NodeId}
    (path : Path q.nextOf start xs) {fuel ctr : Nat} (enough : xs.length ≤ fuel)
    (fits : ctr + xs.length ≤ intMax) : q.countNodes fuel start ctr = some (ctr + xs.length) := by
  induction xs generalizing start fuel ctr with
  | nil =>
      obtain rfl : start = none := path
      simp [countNodes]
  | cons x rest ih =>
      obtain ⟨rfl, onwards⟩ := path
      rw [List.length_cons] at enough fits
      obtain ⟨fuel, rfl⟩ : ∃ less, fuel = less + 1 := ⟨fuel - 1, by omega⟩
      have room : ctr < intMax := by omega
      have enoughAfter : rest.length ≤ fuel := by omega
      have fitsAfter : ctr + 1 + rest.length ≤ intMax := by omega
      have rest := ih onwards enoughAfter fitsAfter
      rw [countNodes, if_pos room]
      refine rest.trans (congrArg some ?_)
      rw [List.length_cons]
      omega

/-- A longer queue is not counted by any number of turns. -/
theorem countNodes_overflow {q : WaitQueue} {start : Option NodeId} {xs : List NodeId}
    (path : Path q.nextOf start xs) (fuel : Nat) {ctr : Nat} (small : ctr ≤ intMax)
    (long : intMax < ctr + xs.length) : q.countNodes fuel start ctr = none := by
  induction xs generalizing start fuel ctr with
  | nil => exact absurd long (by simpa using small)
  | cons x rest ih =>
      obtain ⟨rfl, onwards⟩ := path
      rw [List.length_cons] at long
      cases fuel with
      | zero => rfl
      | succ fuel =>
          by_cases room : ctr < intMax
          · rw [countNodes, if_pos room]
            exact ih onwards fuel room (by omega)
          · rw [countNodes, if_neg room]

/-- The test for an empty queue does not matter. -/
theorem numWaitingNodes_eq (q : WaitQueue) (fuel : Nat) :
    q.numWaitingNodes fuel = q.countNodes fuel q.head 0 := by
  unfold numWaitingNodes
  split
  next empty => rw [Option.isNone_iff_eq_none.mp empty, countNodes]
  next => rfl

end WaitQueue

/-! ## The nodes -/

/-- `Holds`, with every node that has been allocated in one of the two lists. -/
structure Stocked (q : WaitQueue) (xs cache : List NodeId) : Prop where
  holds : q.Holds xs cache
  count : xs.length + cache.length = q.curQueueCapacity.toNat
  positive : 0 < q.curQueueCapacity.toNat

namespace Stocked

variable {q : WaitQueue} {xs cache : List NodeId}

theorem nodup (stocked : Stocked q xs cache) : (xs ++ cache).Nodup :=
  List.nodup_append.mpr ⟨stocked.holds.queue.nodup, stocked.holds.cacheNodup,
    fun a queued _ free same => stocked.holds.disjoint a queued (same ▸ free)⟩

theorem new : ∃ cache, Stocked .new [] cache := by
  have blank : WaitQueue.blank.Holds [] [] :=
    ⟨.nil, rfl, List.nodup_nil, by simp, by simp, by simp, by simp⟩
  obtain ⟨more, holds, _, filled⟩ :=
    blank.allocCache WaitQueue.blank.curQueueCapacity.toNat none
  have capacity : WaitQueue.new.curQueueCapacity = 256#64 := WaitQueue.allocCache_capacity ..
  refine ⟨more ++ [], holds, ?_, ?_⟩
  · rw [List.append_nil, filled rfl, capacity]
    rfl
  · rw [capacity]
    decide

/-- A depleted cache gets as many nodes as there are, and the capacity is twice
what it was. -/
theorem fillCache (stocked : Stocked q xs cache)
    (fits : q.cacheHead = none → q.curQueueCapacity.toNat * 2 < 2 ^ 64) :
    ∃ q' cur rest, q.fillCache none = (q', true) ∧ q'.cacheHead = some cur ∧
      Stocked q' xs (cur :: rest) := by
  by_cases depleted : q.cacheHead = none
  · obtain ⟨more, holds, _, filled⟩ :=
      stocked.holds.allocCache q.curQueueCapacity.toNat none
    have length : more.length = q.curQueueCapacity.toNat := filled rfl
    have empty : cache = [] := by
      have start := stocked.holds.free.start_eq
      rw [depleted] at start
      exact List.head?_eq_none_iff.mp start.symm
    rcases allocated : q.allocCache q.curQueueCapacity.toNat none with ⟨q₁, done⟩
    have ran : done = true := by
      have unlimited := q.allocCache_unlimited q.curQueueCapacity.toNat
      rwa [allocated] at unlimited
    have capacity : q₁.curQueueCapacity = q.curQueueCapacity := by
      have kept := q.allocCache_capacity q.curQueueCapacity.toNat none
      rwa [allocated] at kept
    rw [allocated, empty, List.append_nil] at holds
    subst ran
    have doubled : (q₁.curQueueCapacity <<< 1).toNat = q.curQueueCapacity.toNat * 2 := by
      rw [capacity, BitVec.toNat_shiftLeft, Nat.shiftLeft_eq, Nat.pow_one]
      exact Nat.mod_eq_of_lt (fits depleted)
    have positive := stocked.positive
    obtain ⟨cur, rest, rfl⟩ : ∃ cur rest, more = cur :: rest :=
      List.exists_cons_of_length_pos (by rw [length]; exact positive)
    refine ⟨{ q₁ with curQueueCapacity := q₁.curQueueCapacity <<< 1 }, cur, rest, ?_,
      holds.free.start_eq, ?_, ?_, ?_⟩
    · rw [WaitQueue.fillCache, if_pos (Option.isNone_iff_eq_none.mpr depleted), allocated]
    · exact ⟨holds.queue, holds.free, holds.cacheNodup, holds.disjoint, holds.unlinked,
        holds.queueBound, holds.cacheBound⟩
    · have before := stocked.count
      rw [empty, List.length_nil] at before
      change xs.length + (cur :: rest).length = (q₁.curQueueCapacity <<< 1).toNat
      rw [length, doubled, Nat.mul_two, Nat.add_right_cancel_iff]
      exact before
    · change 0 < (q₁.curQueueCapacity <<< 1).toNat
      rw [doubled]
      exact Nat.mul_pos positive Nat.two_pos
  · obtain ⟨cur, isCur⟩ := Option.ne_none_iff_exists'.mp depleted
    obtain ⟨rest, rfl⟩ : ∃ rest, cache = cur :: rest := by
      have start := stocked.holds.free.start_eq
      rw [isCur] at start
      exact List.head?_eq_some_iff.mp start.symm
    refine ⟨q, cur, rest, if_neg ?_, isCur, stocked⟩
    exact fun none => depleted (Option.isNone_iff_eq_none.mp none)

/-- `enqueue` appends a node that was free. -/
theorem enqueue (stocked : Stocked q xs cache)
    (fits : q.cacheHead = none → q.curQueueCapacity.toNat * 2 < 2 ^ 64) :
    ∃ q' cur cache', q.enqueue none = some (q', some cur) ∧ cur ∉ xs ∧
      Stocked q' (xs ++ [cur]) cache' := by
  obtain ⟨q₁, cur, rest, filled, free, stocked₁⟩ := stocked.fillCache fits
  refine ⟨q₁.linkAtTail cur, cur, rest, ?_, ?_, stocked₁.holds.linkAtTail.1, ?_, ?_⟩
  · unfold WaitQueue.enqueue
    rw [filled]
    dsimp only
    rw [free]
  · exact fun queued => stocked₁.holds.disjoint cur queued List.mem_cons_self
  · have before := stocked₁.count
    rw [WaitQueue.linkAtTail_capacity, ← before]
    simp only [List.length_append, List.length_cons, List.length_nil]
    omega
  · rw [WaitQueue.linkAtTail_capacity]
    exact stocked₁.positive

/-- `remove` deletes its argument from the queue. -/
theorem remove {node : NodeId} (stocked : Stocked q xs cache) (queued : node ∈ xs) :
    Stocked (q.remove (some node)) (xs.erase node) (node :: cache) := by
  obtain ⟨l, r, rfl⟩ := List.append_of_mem queued
  have nodup := List.nodup_append.mp stocked.holds.queue.nodup
  have notBefore : node ∉ l := fun isIn => nodup.2.2 node isIn node List.mem_cons_self rfl
  rw [List.erase_append_right _ notBefore, List.erase_cons_head]
  refine ⟨stocked.holds.remove.1, ?_, ?_⟩
  · have before := stocked.count
    rw [WaitQueue.remove_capacity, ← before]
    simp only [List.length_append, List.length_cons]
    omega
  · rw [WaitQueue.remove_capacity]
    exact stocked.positive

/-- `dequeue` drops the first node, if there is one. -/
theorem dequeue (stocked : Stocked q xs cache) : ∃ cache', Stocked q.dequeue xs.tail cache' := by
  have head : q.head = xs.head? := stocked.holds.queue.head_eq
  rw [WaitQueue.dequeue, head]
  cases xs with
  | nil => exact ⟨cache, stocked⟩
  | cons x rest =>
      have removed := stocked.remove (List.mem_cons_self : x ∈ x :: rest)
      rw [List.erase_cons_head] at removed
      exact ⟨x :: cache, removed⟩

theorem wakeHead (stocked : Stocked q xs cache) : Stocked q.wakeHead xs cache := by
  refine ⟨stocked.holds.wakeHead.1, ?_, ?_⟩
  · rw [WaitQueue.wakeHead_capacity]
    exact stocked.count
  · rw [WaitQueue.wakeHead_capacity]
    exact stocked.positive

/-- `num_waiting_nodes` is the length of the queue as long as an `int` can hold it. -/
theorem numWaitingNodes (stocked : Stocked q xs cache) {fuel : Nat} (enough : xs.length ≤ fuel)
    (fits : xs.length ≤ intMax) : q.numWaitingNodes fuel = some xs.length := by
  have counted := WaitQueue.countNodes_path stocked.holds.queue.forward enough
    (show 0 + xs.length ≤ intMax by rwa [Nat.zero_add])
  rwa [q.numWaitingNodes_eq fuel, ← Nat.zero_add xs.length]

theorem numWaitingNodes_overflow (stocked : Stocked q xs cache) (fuel : Nat)
    (long : intMax < xs.length) : q.numWaitingNodes fuel = none := by
  rw [q.numWaitingNodes_eq fuel]
  apply WaitQueue.countNodes_overflow stocked.holds.queue.forward fuel (Nat.zero_le _)
  rwa [Nat.zero_add]

/-- The capacity cannot overflow while less than half of the address space is
queued. -/
theorem fits (stocked : Stocked q xs cache) (short : xs.length < 2 ^ 63) :
    q.cacheHead = none → q.curQueueCapacity.toNat * 2 < 2 ^ 64 := by
  intro depleted
  have start := stocked.holds.free.start_eq
  rw [depleted] at start
  have count := stocked.count
  rw [List.head?_eq_none_iff.mp start.symm, List.length_nil] at count
  omega

end Stocked

/-! ## Every run -/

/-- What one call preserves; an allowed call always returns. -/
theorem Tracked.apply_stocked {s : Tracked} {op : QueueOp} {cache : List NodeId}
    (stocked : Stocked s.queue s.line cache) (permitted : s.Permitted op) :
    ∃ s' cache', s.apply op = some s' ∧ Stocked s'.queue s'.line cache' ∧
      (op = .enqueue → ∃ node, s'.line = s.line ++ [node] ∧ node ∉ s.line) := by
  cases op with
  | enqueue =>
      obtain ⟨queue, cur, cache', called, fresh, stocked'⟩ := stocked.enqueue permitted
      refine ⟨⟨queue, s.line ++ [cur]⟩, cache', ?_, stocked', fun _ => ⟨cur, rfl, fresh⟩⟩
      rw [apply, called]
  | dequeue =>
      obtain ⟨cache', stocked'⟩ := stocked.dequeue
      exact ⟨_, cache', rfl, stocked', QueueOp.noConfusion⟩
  | remove node =>
      cases node with
      | none => exact ⟨_, cache, rfl, stocked, QueueOp.noConfusion⟩
      | some node => exact ⟨_, _, rfl, stocked.remove permitted, QueueOp.noConfusion⟩
  | wakeHead => exact ⟨_, cache, rfl, stocked.wakeHead, QueueOp.noConfusion⟩

theorem stocked_of_reachable {s : Tracked} (reachable : fifo.ReachableUnder Tracked.Permitted s) :
    ∃ cache, Stocked s.queue s.line cache := by
  refine reachable.invariant (motive := fun s => ∃ cache, Stocked s.queue s.line cache)
    Stocked.new ?_
  rintro s op s' _ ⟨cache, stocked⟩ permitted called
  obtain ⟨after, cache', called', stocked', _⟩ := Tracked.apply_stocked stocked permitted
  obtain rfl : after = s' := Option.some.inj (called'.symm.trans called)
  exact ⟨cache', stocked'⟩

/-- Any number of calls of `enqueue` below the limit of the capacity. -/
theorem enqueue_many (n : Nat) (s : Tracked) {cache : List NodeId}
    (stocked : Stocked s.queue s.line cache) (short : s.line.length + n ≤ 2 ^ 63) :
    ∃ s', fifo.exec s (List.replicate n .enqueue) = some s' ∧
      fifo.LaterUnder Tracked.Permitted s s' ∧ s'.line.length = s.line.length + n := by
  induction n generalizing s cache with
  | zero => exact ⟨s, rfl, .refl s, rfl⟩
  | succ n ih =>
      have permitted : s.Permitted .enqueue := stocked.fits (by omega)
      obtain ⟨s₁, cache₁, called, stocked₁, appended⟩ := Tracked.apply_stocked stocked permitted
      obtain ⟨node, line, _⟩ := appended rfl
      have longer : s₁.line.length = s.line.length + 1 := by rw [line, List.length_append]; rfl
      obtain ⟨s', ran, later, length⟩ := ih s₁ stocked₁ (by omega)
      refine ⟨s', ?_, .head permitted called later, by omega⟩
      rw [List.replicate_succ, Machine.exec]
      exact (congrArg (Option.bind · _) called).trans ran

/-- In every run the pointers keep the list that the calls describe, each node
is in exactly one of queue and cache, and every allowed call returns. -/
theorem queue_keeps_line {s : Tracked} (reachable : fifo.ReachableUnder Tracked.Permitted s) :
    DList s.queue.prevOf s.queue.nextOf s.queue.head s.queue.tail s.line ∧
    (s.queue.isEmpty = true ↔ s.line = []) ∧
    (s.line.length ≤ intMax → ∀ fuel, s.line.length ≤ fuel →
      s.queue.numWaitingNodes fuel = some s.line.length) ∧
    (∃ cache, Path s.queue.nextOf s.queue.cacheHead cache ∧
      (∀ a ∈ cache, s.queue.prevOf a = none) ∧ (s.line ++ cache).Nodup ∧
      (s.line ++ cache).length = s.queue.curQueueCapacity.toNat) ∧
    ∀ op, s.Permitted op → ∃ s', fifo.step s op = some s' ∧
      (op = .enqueue → ∃ node, s'.line = s.line ++ [node] ∧ node ∉ s.line) := by
  obtain ⟨cache, stocked⟩ := stocked_of_reachable reachable
  refine ⟨stocked.holds.queue, stocked.holds.isEmpty_iff, fun fits fuel enough => ?_,
    ⟨cache, stocked.holds.free, stocked.holds.unlinked, stocked.nodup, ?_⟩, fun op permitted => ?_⟩
  · exact stocked.numWaitingNodes enough fits
  · rw [List.length_append, stocked.count]
  · obtain ⟨s', _, called, _, appended⟩ := Tracked.apply_stocked stocked permitted
    exact ⟨s', called, appended⟩

theorem queue_keeps_line_twice :
    ∃ s, fifo.ReachableUnder Tracked.Permitted s ∧ s.line.length = 2 ∧
      s.queue.numWaitingNodes 2 = some 2 := by
  obtain ⟨cache, stocked⟩ := Stocked.new
  obtain ⟨s, _, reachable, length⟩ := enqueue_many 2 fifo.initial stocked (by simp [fifo])
  have two : s.line.length = 2 := length
  obtain ⟨_, _, counted, _⟩ := queue_keeps_line reachable
  have counts := counted (two ▸ by decide) 2 (Nat.le_of_eq two)
  exact ⟨s, reachable, two, two ▸ counts⟩

/-- 2^31 queued nodes are more than `num_waiting_nodes` can count. -/
theorem count_past_int_max :
    ∃ s, fifo.exec fifo.initial (List.replicate (2 ^ 31) .enqueue) = some s ∧
      fifo.ReachableUnder Tracked.Permitted s ∧ s.line.length = 2 ^ 31 ∧
      ∀ fuel, s.queue.numWaitingNodes fuel ≠ some s.line.length := by
  obtain ⟨cache, stocked⟩ := Stocked.new
  obtain ⟨s, ran, reachable, length⟩ := enqueue_many (2 ^ 31) fifo.initial stocked (by simp [fifo])
  have count : s.line.length = 2 ^ 31 := by
    rw [length]
    exact Nat.zero_add _
  obtain ⟨cache', stocked'⟩ := stocked_of_reachable reachable
  refine ⟨s, ran, reachable, count, fun fuel => ?_⟩
  rw [stocked'.numWaitingNodes_overflow fuel (by rw [count]; exact Nat.sub_lt (by simp) Nat.one_pos)]
  exact (Option.some_ne_none _).symm

end Conc11.Semaphore
