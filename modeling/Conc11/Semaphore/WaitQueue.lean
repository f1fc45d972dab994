/-
Module: Conc11.Semaphore.WaitQueue
Purpose: `QueuedSemaphore::WaitQueue` of concurrency/semaphore.h, a doubly linked queue of wait nodes with a
  singly linked cache of free ones, on an explicit heap of nodes; and what its operations do to the
  list of queued nodes.
Trusted boundary: human-reviewed model
Main exports: WaitNode, WaitQueue, WaitQueue.enqueue, WaitQueue.remove, WaitQueue.dequeue,
  WaitQueue.wakeHead, WaitQueue.Holds, WaitQueue.Holds.enqueue, WaitQueue.Holds.remove
-/
import Mathlib.Logic.Function.Basic
import Conc11.Library.Links

namespace Conc11.Semaphore

open Library

/-- The address of a `WaitNode`. -/
abbrev NodeId := Nat

/-- The condition variable of a node holds no data: waiting on it and
notifying it are effects of the machine. -/
structure WaitNode where
  wakeable : Bool
  prev : Option NodeId
  next : Option NodeId
deriving DecidableEq, Repr

/-- `nextNode` is the address that the next `new WaitNode()` returns; no node
is deleted before the queue itself is. -/
structure WaitQueue where
  nodes : NodeId → WaitNode
  head : Option NodeId
  tail : Option NodeId
  cacheHead : Option NodeId
  curQueueCapacity : BitVec 64
  nextNode : NodeId

namespace WaitQueue

def setWakeable (q : WaitQueue) (a : NodeId) (wakeable : Bool) : WaitQueue :=
  { q with nodes := Function.update q.nodes a { q.nodes a with wakeable := wakeable } }

def setPrev (q : WaitQueue) (a : NodeId) (prev : Option NodeId) : WaitQueue :=
  { q with nodes := Function.update q.nodes a { q.nodes a with prev := prev } }

def setNext (q : WaitQueue) (a : NodeId) (next : Option NodeId) : WaitQueue :=
  { q with nodes := Function.update q.nodes a { q.nodes a with next := next } }

/-- One turn of the loop of `alloc_cache`. -/
def allocNode (q : WaitQueue) : WaitQueue :=
  { q with
    nodes := Function.update q.nodes q.nextNode
      { wakeable := false, prev := none, next := q.cacheHead }
    cacheHead := some q.nextNode
    nextNode := q.nextNode + 1 }

/-- `alloc_cache` with `turns` turns of its loop to go.  `budget` is the number
of allocations that still succeed, `none` standing for all of them; the
result says whether the loop ran to its end or was left by `bad_alloc`. -/
def allocCache (q : WaitQueue) : Nat → Option Nat → WaitQueue × Bool
  | 0, _ => (q, true)
  | _ + 1, some 0 => (q, false)
  | turns + 1, budget => q.allocNode.allocCache turns (budget.map Nat.pred)

/-- The default member initializers. -/
def blank : WaitQueue :=
  { nodes := fun _ => { wakeable := false, prev := none, next := none }
    head := none
    tail := none
    cacheHead := none
    curQueueCapacity := 256#64
    nextNode := 0 }

/-- The constructor, with all allocations succeeding. -/
def new : WaitQueue := (blank.allocCache blank.curQueueCapacity.toNat none).1

/-- The first lines of `enqueue`: a depleted cache is filled.  `false` means
that an allocation threw. -/
def fillCache (q : WaitQueue) (budget : Option Nat) : WaitQueue × Bool :=
  if q.cacheHead.isNone then
    match q.allocCache q.curQueueCapacity.toNat budget with
    | (q, true) => ({ q with curQueueCapacity := q.curQueueCapacity <<< 1 }, true)
    | (q, false) => (q, false)
  else (q, true)

/-- The rest of `enqueue` for the node `cur` at the head of the cache. -/
def linkAtTail (q : WaitQueue) (cur : NodeId) : WaitQueue :=
  let q := { q with cacheHead := (q.nodes cur).next }
  let q := q.setWakeable cur false
  let q := q.setNext cur none
  match q.tail with
  | none => { q with head := some cur, tail := some cur }
  | some tail =>
      let q := q.setNext tail (some cur)
      let q := q.setPrev cur (some tail)
      { q with tail := some cur }

/-- `enqueue`.  The result is the node, or null when an allocation threw; the
call is undefined when the cache is still empty after it has been filled,
that is, when the capacity has wrapped to zero. -/
def enqueue (q : WaitQueue) (budget : Option Nat) : Option (WaitQueue × Option NodeId) :=
  match q.fillCache budget with
  | (q, false) => some (q, none)
  | (q, true) =>
      match q.cacheHead with
      | none => none
      | some cur => some (q.linkAtTail cur, some cur)

/-- The three tests on the ends of the queue in `remove`, in order: the last
node, the head, the tail. -/
def releaseOnly (q : WaitQueue) (node : NodeId) : WaitQueue :=
  if q.head = some node ∧ q.head = q.tail then { q with head := none, tail := none } else q

def releaseHead (q : WaitQueue) (node : NodeId) : WaitQueue :=
  if q.head = some node then { q with head := (q.nodes node).next } else q

def releaseTail (q : WaitQueue) (node : NodeId) : WaitQueue :=
  if q.tail = some node then { q with tail := (q.nodes node).prev } else q

/-- The two tests on the neighbours in `remove`: they are linked to each other. -/
def bypass (q : WaitQueue) (node : NodeId) : WaitQueue :=
  let q := match (q.nodes node).prev with
    | some prev => q.setNext prev (q.nodes node).next
    | none => q
  match (q.nodes node).next with
  | some next => q.setPrev next (q.nodes node).prev
  | none => q

/-- `remove`. -/
def remove (q : WaitQueue) : Option NodeId → WaitQueue
  | none => q
  | some node =>
      let q := ((q.releaseOnly node).releaseHead node).releaseTail node
      let q := q.bypass node
      let q := q.setPrev node none
      let q := q.setNext node q.cacheHead
      { q with cacheHead := some node }

/-- `dequeue`. -/
def dequeue (q : WaitQueue) : WaitQueue := q.remove q.head

/-- `wake_head` without its `notify_all`: a waiting thread goes by `wakeable`. -/
def wakeHead (q : WaitQueue) : WaitQueue :=
  match q.head with
  | none => q
  | some head => q.setWakeable head true

/-- `is_empty`. -/
def isEmpty (q : WaitQueue) : Bool := q.head.isNone

/-! ## The fields as functions of the address -/

def prevOf (q : WaitQueue) (a : NodeId) : Option NodeId := (q.nodes a).prev

def nextOf (q : WaitQueue) (a : NodeId) : Option NodeId := (q.nodes a).next

def wakeableOf (q : WaitQueue) (a : NodeId) : Bool := (q.nodes a).wakeable

section Setters

variable (q : WaitQueue) (a : NodeId) (link : Option NodeId) (wakeable : Bool)

private theorem apply_update {β : Type*} (field : WaitNode → β) (node : WaitNode) :
    (fun b => field (Function.update q.nodes a node b)) =
      Function.update (fun b => field (q.nodes b)) a (field node) := by
  funext b
  by_cases same : b = a
  · subst same; simp
  · simp [Function.update_of_ne same]

@[simp] theorem setWakeable_prevOf : (q.setWakeable a wakeable).prevOf = q.prevOf :=
  (apply_update q a WaitNode.prev _).trans (Function.update_eq_self a q.prevOf)

@[simp] theorem setWakeable_nextOf : (q.setWakeable a wakeable).nextOf = q.nextOf :=
  (apply_update q a WaitNode.next _).trans (Function.update_eq_self a q.nextOf)

@[simp] theorem setWakeable_wakeableOf :
    (q.setWakeable a wakeable).wakeableOf = Function.update q.wakeableOf a wakeable :=
  apply_update q a WaitNode.wakeable _

@[simp] theorem setPrev_prevOf : (q.setPrev a link).prevOf = Function.update q.prevOf a link :=
  apply_update q a WaitNode.prev _

@[simp] theorem setPrev_nextOf : (q.setPrev a link).nextOf = q.nextOf :=
  (apply_update q a WaitNode.next _).trans (Function.update_eq_self a q.nextOf)

@[simp] theorem setPrev_wakeableOf : (q.setPrev a link).wakeableOf = q.wakeableOf :=
  (apply_update q a WaitNode.wakeable _).trans (Function.update_eq_self a q.wakeableOf)

@[simp] theorem setNext_prevOf : (q.setNext a link).prevOf = q.prevOf :=
  (apply_update q a WaitNode.prev _).trans (Function.update_eq_self a q.prevOf)

@[simp] theorem setNext_nextOf : (q.setNext a link).nextOf = Function.update q.nextOf a link :=
  apply_update q a WaitNode.next _

@[simp] theorem setNext_wakeableOf : (q.setNext a link).wakeableOf = q.wakeableOf :=
  (apply_update q a WaitNode.wakeable _).trans (Function.update_eq_self a q.wakeableOf)

end Setters

/-! ## The links -/

theorem allocCache_unlimited (q : WaitQueue) (turns : Nat) : (q.allocCache turns none).2 = true := by
  induction turns generalizing q with
  | zero => rfl
  | succ turns ih => exact ih q.allocNode

/-- `enqueue` links the node behind the old tail; its null `prev` is kept in an
empty queue. -/
theorem linkAtTail_spec {q : WaitQueue} {cur : NodeId} (unlinked : q.prevOf cur = none) :
    (q.linkAtTail cur).nextOf = redirect (Function.update q.nextOf cur none) q.tail (some cur) ∧
    (q.linkAtTail cur).prevOf = Function.update q.prevOf cur q.tail ∧
    (q.linkAtTail cur).wakeableOf = Function.update q.wakeableOf cur false ∧
    (q.linkAtTail cur).head = (if q.tail = none then some cur else q.head) ∧
    (q.linkAtTail cur).tail = some cur ∧ (q.linkAtTail cur).cacheHead = q.nextOf cur ∧
    (q.linkAtTail cur).nextNode = q.nextNode := by
  set q₁ := ({ q with cacheHead := q.nextOf cur }.setWakeable cur false).setNext cur none with q₁_def
  have linked : q.linkAtTail cur = match q.tail with
    | none => { q₁ with head := some cur, tail := some cur }
    | some tail => { (q₁.setNext tail (some cur)).setPrev cur (some tail) with
        tail := some cur } := rfl
  have nexts : q₁.nextOf = Function.update q.nextOf cur none :=
    (setNext_nextOf ..).trans (congrArg (Function.update · cur none) (setWakeable_nextOf ..))
  have prevs : q₁.prevOf = q.prevOf := (setNext_prevOf ..).trans (setWakeable_prevOf ..)
  have wakeables : q₁.wakeableOf = Function.update q.wakeableOf cur false :=
    (setNext_wakeableOf ..).trans (setWakeable_wakeableOf ..)
  rw [linked]
  cases q.tail with
  | none =>
      refine ⟨nexts, prevs.trans ?_, wakeables, rfl, rfl, rfl, rfl⟩
      rw [← unlinked, Function.update_eq_self]
  | some tail =>
      refine ⟨(setPrev_nextOf ..).trans ((setNext_nextOf ..).trans ?_),
        (setPrev_prevOf ..).trans ?_,
        (setPrev_wakeableOf ..).trans ((setNext_wakeableOf ..).trans wakeables), rfl, rfl, rfl, rfl⟩
      · rw [nexts]
        rfl
      · rw [setNext_prevOf, prevs]

section Bypass

variable {q : WaitQueue} {x : NodeId}

/-- The neighbours of `x` point to each other, and nothing else has changed. -/
theorem bypass_spec (notSelf : q.prevOf x ≠ some x) :
    (q.bypass x).nextOf = redirect q.nextOf (q.prevOf x) (q.nextOf x) ∧
    (q.bypass x).prevOf = redirect q.prevOf (q.nextOf x) (q.prevOf x) ∧
    (q.bypass x).wakeableOf = q.wakeableOf ∧
    (q.bypass x).head = q.head ∧ (q.bypass x).tail = q.tail ∧
    (q.bypass x).cacheHead = q.cacheHead ∧ (q.bypass x).nextNode = q.nextNode := by
  set q₁ := match q.prevOf x with
    | some prev => q.setNext prev (q.nextOf x)
    | none => q with q₁_def
  have bypassed : q.bypass x = match q₁.nextOf x with
    | some next => q₁.setPrev next (q₁.prevOf x)
    | none => q₁ := rfl
  have half : q₁.nextOf = redirect q.nextOf (q.prevOf x) (q.nextOf x) ∧
      q₁.prevOf = q.prevOf ∧ q₁.wakeableOf = q.wakeableOf ∧ q₁.head = q.head ∧
      q₁.tail = q.tail ∧ q₁.cacheHead = q.cacheHead ∧ q₁.nextNode = q.nextNode := by
    rw [q₁_def]
    cases q.prevOf x with
    | none => exact ⟨rfl, rfl, rfl, rfl, rfl, rfl, rfl⟩
    | some prev =>
        exact ⟨setNext_nextOf .., setNext_prevOf .., setNext_wakeableOf .., rfl, rfl, rfl, rfl⟩
  obtain ⟨nexts, prevs, wakeables, ends⟩ := half
  have next : q₁.nextOf x = q.nextOf x := by
    rw [nexts]
    exact redirect_of_ne notSelf
  rw [bypassed, next, prevs]
  cases isNext : q.nextOf x with
  | none =>
      rw [isNext] at nexts
      exact ⟨nexts, prevs, wakeables, ends⟩
  | some next =>
      rw [isNext] at nexts
      refine ⟨(setPrev_nextOf ..).trans nexts, (setPrev_prevOf ..).trans ?_,
        (setPrev_wakeableOf ..).trans wakeables, ends⟩
      rw [prevs]
      rfl

end Bypass

/-! ## The lists behind the pointers -/

/-- `xs` are the queued nodes in order and `cache` the free ones. -/
structure Holds (q : WaitQueue) (xs cache : List NodeId) : Prop where
  queue : DList q.prevOf q.nextOf q.head q.tail xs
  free : Path q.nextOf q.cacheHead cache
  cacheNodup : cache.Nodup
  disjoint : ∀ a ∈ xs, a ∉ cache
  unlinked : ∀ a ∈ cache, q.prevOf a = none
  queueBound : ∀ a ∈ xs, a < q.nextNode
  cacheBound : ∀ a ∈ cache, a < q.nextNode

namespace Holds

variable {q : WaitQueue} {xs cache l r : List NodeId}

/-- The pointers determine the lists. -/
theorem unique {xs' cache' : List NodeId} (holds : Holds q xs cache) (other : Holds q xs' cache') :
    xs = xs' ∧ cache = cache' :=
  ⟨holds.queue.forward.unique other.queue.forward, holds.free.unique other.free⟩

theorem isEmpty_iff (holds : Holds q xs cache) : q.isEmpty = true ↔ xs = [] := by
  rw [isEmpty, holds.queue.head_eq, Option.isNone_iff_eq_none, List.head?_eq_none_iff]

/-- A new node comes to the front of the cache. -/
theorem allocNode (holds : Holds q xs cache) : Holds q.allocNode xs (q.nextNode :: cache) := by
  have nextOf : q.allocNode.nextOf = Function.update q.nextOf q.nextNode q.cacheHead :=
    apply_update q q.nextNode WaitNode.next _
  have prevOf : q.allocNode.prevOf = Function.update q.prevOf q.nextNode none :=
    apply_update q q.nextNode WaitNode.prev _
  have inQueue : ∀ a ∈ xs, a ≠ q.nextNode := fun a member => Nat.ne_of_lt (holds.queueBound a member)
  have inCache : ∀ a ∈ cache, a ≠ q.nextNode :=
    fun a member => Nat.ne_of_lt (holds.cacheBound a member)
  refine ⟨?_, ?_, ?_, ?_, ?_, ?_, ?_⟩
  · refine holds.queue.congr (fun a member => ?_) fun a member => ?_
    · rw [prevOf, Function.update_of_ne (inQueue a member)]
    · rw [nextOf, Function.update_of_ne (inQueue a member)]
  · refine holds.free.cons ?_ fun a member => ?_
    · rw [nextOf, Function.update_self]
    · rw [nextOf, Function.update_of_ne (inCache a member)]
  · exact List.nodup_cons.mpr ⟨fun member => inCache _ member rfl, holds.cacheNodup⟩
  · intro a queued free
    rcases List.mem_cons.mp free with rfl | old
    · exact inQueue _ queued rfl
    · exact holds.disjoint a queued old
  · intro a member
    rw [prevOf]
    by_cases same : a = q.nextNode
    · rw [same, Function.update_self]
    · rw [Function.update_of_ne same]
      exact holds.unlinked a (List.mem_of_ne_of_mem same member)
  · exact fun a member => Nat.lt_succ_of_lt (holds.queueBound a member)
  · intro a member
    rcases List.mem_cons.mp member with rfl | old
    · exact Nat.lt_succ_self _
    · exact Nat.lt_succ_of_lt (holds.cacheBound a old)

theorem allocNode_wakeableOf (holds : Holds q xs cache) {a : NodeId} (member : a ∈ xs) :
    q.allocNode.wakeableOf a = q.wakeableOf a := by
  have other : a ≠ q.nextNode := Nat.ne_of_lt (holds.queueBound a member)
  simp [WaitQueue.allocNode, wakeableOf, Function.update_of_ne other]

/-- The loop of `alloc_cache`; with all its allocations it makes one node a turn. -/
theorem allocCache (holds : Holds q xs cache) (turns : Nat) (budget : Option Nat) :
    ∃ more, Holds (q.allocCache turns budget).1 xs (more ++ cache) ∧
      (∀ a ∈ xs, (q.allocCache turns budget).1.wakeableOf a = q.wakeableOf a) ∧
      (budget = none → more.length = turns) := by
  induction turns generalizing q cache budget with
  | zero => exact ⟨[], holds, fun _ _ => rfl, fun _ => rfl⟩
  | succ turns ih =>
      by_cases spent : budget = some 0
      · subst spent
        exact ⟨[], holds, fun _ _ => rfl, fun unlimited => absurd unlimited (Option.some_ne_none 0)⟩
      · have unfolds : q.allocCache (turns + 1) budget =
            q.allocNode.allocCache turns (budget.map Nat.pred) := by
          rw [WaitQueue.allocCache]
          exact spent
        obtain ⟨more, after, kept, filled⟩ := ih holds.allocNode (budget.map Nat.pred)
        refine ⟨more ++ [q.nextNode], ?_, fun a member => ?_, fun unlimited => ?_⟩
        · rw [unfolds, List.append_assoc]
          exact after
        · rw [unfolds, kept a member, holds.allocNode_wakeableOf member]
        · rw [List.length_append, filled (by rw [unlimited]; rfl)]
          rfl

theorem fillCache (holds : Holds q xs cache) (budget : Option Nat) :
    ∃ more, Holds (q.fillCache budget).1 xs (more ++ cache) ∧
      ∀ a ∈ xs, (q.fillCache budget).1.wakeableOf a = q.wakeableOf a := by
  by_cases depleted : q.cacheHead.isNone
  · obtain ⟨more, after, kept, _⟩ := holds.allocCache q.curQueueCapacity.toNat budget
    refine ⟨more, ?_⟩
    simp only [WaitQueue.fillCache, depleted, if_true]
    rcases filled : q.allocCache q.curQueueCapacity.toNat budget with ⟨q', _ | _⟩
    · rw [filled] at after kept
      exact ⟨after, kept⟩
    · rw [filled] at after kept
      exact ⟨⟨after.queue, after.free, after.cacheNodup, after.disjoint, after.unlinked,
        after.queueBound, after.cacheBound⟩, kept⟩
  · refine ⟨[], ?_⟩
    rw [WaitQueue.fillCache, if_neg depleted]
    exact ⟨holds, fun _ _ => rfl⟩

/-- The first node of the cache goes to the end of the queue. -/
theorem linkAtTail {cur : NodeId} (holds : Holds q xs (cur :: cache)) :
    Holds (q.linkAtTail cur) (xs ++ [cur]) cache ∧
      (q.linkAtTail cur).wakeableOf = Function.update q.wakeableOf cur false := by
  have fresh : cur ∉ xs := fun member => holds.disjoint cur member List.mem_cons_self
  obtain ⟨notFree, cacheNodup⟩ := List.nodup_cons.mp holds.cacheNodup
  have other : ∀ a ∈ cache, a ≠ cur := fun a member same => notFree (same ▸ member)
  obtain ⟨nexts, prevs, wakeables, head, tail, cacheHead, nextNode⟩ :=
    linkAtTail_spec (holds.unlinked cur List.mem_cons_self)
  refine ⟨⟨?_, ?_, cacheNodup, fun a queued free => ?_, fun a member => ?_, fun a member => ?_,
    fun a member => ?_⟩, wakeables⟩
  · rw [prevs, nexts, head, tail]
    exact holds.queue.snoc fresh
  · rw [cacheHead, nexts]
    apply holds.free.2.congr
    intro a member
    have notTail : q.tail ≠ some a := by
      rw [holds.queue.tail_eq]
      exact fun isLast =>
        holds.disjoint a (List.mem_of_getLast? isLast) (List.mem_cons_of_mem cur member)
    rw [redirect_of_ne notTail, Function.update_of_ne (other a member)]
  · rcases List.mem_append.mp queued with old | new
    · exact holds.disjoint a old (List.mem_cons_of_mem cur free)
    · exact other a free (List.mem_singleton.mp new)
  · rw [prevs, Function.update_of_ne (other a member)]
    exact holds.unlinked a (List.mem_cons_of_mem cur member)
  · rw [nextNode]
    rcases List.mem_append.mp member with old | new
    · exact holds.queueBound a old
    · rw [List.mem_singleton.mp new]
      exact holds.cacheBound cur List.mem_cons_self
  · rw [nextNode]
    exact holds.cacheBound a (List.mem_cons_of_mem cur member)

section Remove

variable {x : NodeId}

theorem head_iff (holds : Holds q (l ++ x :: r) cache) : q.head = some x ↔ l = [] := by
  rw [holds.queue.head_eq]
  constructor
  · intro isHead
    rcases l with _ | ⟨first, others⟩
    · rfl
    · obtain rfl : first = x := Option.some.inj isHead
      exact absurd holds.queue.nodup (by simp)
  · rintro rfl
    rfl

theorem tail_iff (holds : Holds q (l ++ x :: r) cache) : q.tail = some x ↔ r = [] := by
  rw [holds.queue.tail_eq]
  constructor
  · intro isTail
    rcases List.eq_nil_or_concat' r with none | ⟨before, last, rfl⟩
    · exact none
    · rw [← List.cons_append, ← List.append_assoc, List.getLast?_concat] at isTail
      obtain rfl : last = x := Option.some.inj isTail
      obtain ⟨_, fromHere, _⟩ := List.nodup_append.mp holds.queue.nodup
      exact absurd (List.mem_append_right before (List.mem_singleton_self last))
        (List.nodup_cons.mp fromHere).1
  · rintro rfl
    exact List.getLast?_concat ..

/-- The ends after `x` has been let go of. -/
theorem releaseEnds (holds : Holds q (l ++ x :: r) cache) :
    ((q.releaseOnly x).releaseHead x).releaseTail x =
      { q with head := (l ++ r).head?, tail := (l ++ r).getLast? } := by
  have next : (q.nodes x).next = r.head? := holds.queue.next_eq
  have prev : (q.nodes x).prev = l.getLast? := holds.queue.prev_eq
  have head := holds.queue.head_eq
  have tail := holds.queue.tail_eq
  rw [List.head?_append] at head
  rw [List.getLast?_append] at tail
  by_cases first : l = []
  · have isHead := holds.head_iff.mpr first
    by_cases last : r = []
    · have only : q.releaseOnly x = { q with head := none, tail := none } :=
        if_pos ⟨isHead, isHead.trans (holds.tail_iff.mpr last).symm⟩
      rw [only, first, last]
      rfl
    · have notTail : q.tail ≠ some x := fun isTail => last (holds.tail_iff.mp isTail)
      have only : q.releaseOnly x = q :=
        if_neg fun ⟨isHead, same⟩ => notTail (same.symm.trans isHead)
      have heads : q.releaseHead x = { q with head := (q.nodes x).next } := if_pos isHead
      have tails : ({ q with head := (q.nodes x).next } : WaitQueue).releaseTail x =
          { q with head := (q.nodes x).next } := if_neg notTail
      have kept : q.tail = ([] ++ r).getLast? := by
        obtain ⟨y, more, rfl⟩ := List.exists_cons_of_ne_nil last
        rw [tail, List.getLast?_cons_cons, List.nil_append, List.getLast?_cons, Option.some_or]
      rw [only, heads, tails, next, first, ← kept, List.nil_append]
  · have notHead : q.head ≠ some x := fun isHead => first (holds.head_iff.mp isHead)
    have only : q.releaseOnly x = q := if_neg fun both => notHead both.1
    have heads : q.releaseHead x = q := if_neg notHead
    have kept : q.head = (l ++ r).head? := by
      obtain ⟨y, more, rfl⟩ := List.exists_cons_of_ne_nil first
      exact head
    by_cases last : r = []
    · have tails : q.releaseTail x = { q with tail := (q.nodes x).prev } :=
        if_pos (holds.tail_iff.mpr last)
      rw [only, heads, tails, prev, ← kept, last, List.append_nil]
    · have notTail : q.tail ≠ some x := fun isTail => last (holds.tail_iff.mp isTail)
      have tails : q.releaseTail x = q := if_neg notTail
      have keptTail : q.tail = (l ++ r).getLast? := by
        obtain ⟨y, more, rfl⟩ := List.exists_cons_of_ne_nil last
        rw [tail, List.getLast?_append, List.getLast?_cons_cons]
      rw [only, heads, tails, ← kept, ← keptTail]

/-- A queued node is not among the others. -/
theorem ne_of_mem_rest (holds : Holds q (l ++ x :: r) cache) {b : NodeId} (isIn : b ∈ l ++ r) :
    b ≠ x := by
  have nodup := List.perm_middle.nodup_iff.mp holds.queue.nodup
  exact fun same => (List.nodup_cons.mp nodup).1 (same ▸ isIn)

/-- What `remove` writes. -/
theorem remove_fields (holds : Holds q (l ++ x :: r) cache) :
    (q.remove (some x)).nextOf =
        Function.update (redirect q.nextOf (q.prevOf x) (q.nextOf x)) x q.cacheHead ∧
      (q.remove (some x)).prevOf =
        Function.update (redirect q.prevOf (q.nextOf x) (q.prevOf x)) x none ∧
      (q.remove (some x)).wakeableOf = q.wakeableOf ∧
      (q.remove (some x)).head = (l ++ r).head? ∧
      (q.remove (some x)).tail = (l ++ r).getLast? ∧
      (q.remove (some x)).cacheHead = some x ∧
      (q.remove (some x)).nextNode = q.nextNode := by
  have prev : q.prevOf x = l.getLast? := holds.queue.prev_eq
  have notSelf : q.prevOf x ≠ some x := by
    rw [prev]
    exact fun isLast =>
      holds.ne_of_mem_rest (List.mem_append_left r (List.mem_of_getLast? isLast)) rfl
  set q₀ : WaitQueue := { q with head := (l ++ r).head?, tail := (l ++ r).getLast? } with q₀_def
  obtain ⟨nexts, prevs, wakeables, head, tail, cacheHead, nextNode⟩ :=
    bypass_spec (q := q₀) (x := x) notSelf
  have removed : q.remove (some x) =
      { ((q₀.bypass x).setPrev x none).setNext x (q₀.bypass x).cacheHead with
        cacheHead := some x } := by
    rw [q₀_def, ← holds.releaseEnds]
    rfl
  rw [removed]
  refine ⟨?_, ?_, ?_, head, tail, rfl, nextNode⟩
  · rw [cacheHead]
    exact (setNext_nextOf _ x _).trans (congrArg (Function.update · x q.cacheHead)
      ((setPrev_nextOf _ x none).trans nexts))
  · exact (setNext_prevOf _ x _).trans ((setPrev_prevOf _ x none).trans
      (congrArg (Function.update · x none) prevs))
  · exact (setNext_wakeableOf _ x _).trans ((setPrev_wakeableOf _ x none).trans wakeables)

/-- A queued node goes to the front of the cache. -/
theorem remove (holds : Holds q (l ++ x :: r) cache) :
    Holds (q.remove (some x)) (l ++ r) (x :: cache) ∧
      (q.remove (some x)).wakeableOf = q.wakeableOf := by
  have member : ∀ b ∈ l ++ r, b ∈ l ++ x :: r := fun b isIn =>
    ((List.sublist_cons_self x r).append_left l).subset isIn
  have other : ∀ b ∈ l ++ r, b ≠ x := fun _ => holds.ne_of_mem_rest
  have notFree : x ∉ cache := holds.disjoint x (by simp)
  have prev : q.prevOf x = l.getLast? := holds.queue.prev_eq
  have next : q.nextOf x = r.head? := holds.queue.next_eq
  obtain ⟨nextOf, prevOf, wakeableOf, head, tail, start, bound⟩ := holds.remove_fields
  refine ⟨⟨?_, ?_, ?_, ?_, ?_, ?_, ?_⟩, wakeableOf⟩
  · have unlinked := holds.queue.unlink
    rw [head, tail, nextOf, prevOf, ← unlinked.head_eq, ← unlinked.tail_eq]
    apply unlinked.congr
    · exact fun b isIn => Function.update_of_ne (other b isIn) ..
    · exact fun b isIn => Function.update_of_ne (other b isIn) ..
  · rw [start, nextOf]
    refine holds.free.cons (Function.update_self ..) fun b free => ?_
    have notX : b ≠ x := fun same => notFree (same ▸ free)
    rw [Function.update_of_ne notX]
    apply redirect_of_ne
    rw [prev]
    exact fun isLast => holds.disjoint b
      (member b (List.mem_append_left r (List.mem_of_getLast? isLast))) free
  · exact List.nodup_cons.mpr ⟨notFree, holds.cacheNodup⟩
  · intro a isIn free
    rcases List.mem_cons.mp free with rfl | old
    · exact other a isIn rfl
    · exact holds.disjoint a (member a isIn) old
  · intro a free
    rw [prevOf]
    by_cases same : a = x
    · rw [same, Function.update_self]
    · have old := List.mem_of_ne_of_mem same free
      have notFirst : q.nextOf x ≠ some a := by
        rw [next]
        exact fun isFirst => holds.disjoint a
          (member a (List.mem_append_right l (List.mem_of_head? isFirst))) old
      rw [Function.update_of_ne same, redirect_of_ne notFirst]
      exact holds.unlinked a old
  · intro a isIn
    rw [bound]
    exact holds.queueBound a (member a isIn)
  · intro a free
    rw [bound]
    rcases List.mem_cons.mp free with rfl | old
    · exact holds.queueBound a (by simp)
    · exact holds.cacheBound a old

end Remove

/-- `dequeue` on a queue that is not empty. -/
theorem dequeue {x : NodeId} (holds : Holds q (x :: xs) cache) :
    Holds q.dequeue xs (x :: cache) ∧ q.dequeue.wakeableOf = q.wakeableOf := by
  have head : q.head = some x := holds.queue.head_eq
  rw [WaitQueue.dequeue, head]
  exact remove (l := []) holds

/-- `enqueue`: its node was free and stands at the end, not wakeable; and an
exception leaves the queue as it was. -/
theorem enqueue {q' : WaitQueue} {budget : Option Nat} {node : Option NodeId}
    (holds : Holds q xs cache) (called : q.enqueue budget = some (q', node)) :
    (∀ a ∈ xs, q'.wakeableOf a = q.wakeableOf a) ∧
      match node with
      | none => q.cacheHead = none ∧ ∃ cache', Holds q' xs cache'
      | some cur =>
          cur ∉ xs ∧ q'.wakeableOf cur = false ∧ ∃ cache', Holds q' (xs ++ [cur]) cache' := by
  obtain ⟨more, filled, kept⟩ := holds.fillCache budget
  unfold WaitQueue.enqueue at called
  rcases result : q.fillCache budget with ⟨q₁, done⟩
  rw [result] at called filled kept
  cases done with
  | false =>
      cases called
      refine ⟨kept, ?_, _, filled⟩
      by_contra stocked
      have skipped : q.fillCache budget = (q, true) :=
        if_neg fun depleted => stocked (Option.isNone_iff_eq_none.mp depleted)
      rw [skipped] at result
      cases result
  | true =>
      dsimp only at called
      rcases free : q₁.cacheHead with _ | cur
      · rw [free] at called
        cases called
      · rw [free] at called
        cases called
        obtain ⟨rest, cells⟩ : ∃ rest, more ++ cache = cur :: rest := by
          have start := filled.free.start_eq
          rw [free] at start
          exact List.head?_eq_some_iff.mp start.symm
        rw [cells] at filled
        obtain ⟨linked, wakeableOf⟩ := filled.linkAtTail
        have fresh : cur ∉ xs := fun isIn => filled.disjoint cur isIn List.mem_cons_self
        refine ⟨fun a isIn => ?_, fresh, by rw [wakeableOf, Function.update_self], rest, linked⟩
        have other : a ≠ cur := fun same => fresh (same ▸ isIn)
        rw [wakeableOf, Function.update_of_ne other]
        exact kept a isIn

/-- `wake_head` marks the head and nothing else. -/
theorem wakeHead (holds : Holds q xs cache) :
    Holds q.wakeHead xs cache ∧
      ∀ a, q.wakeHead.wakeableOf a = true ↔ q.wakeableOf a = true ∨ xs.head? = some a := by
  have head := holds.queue.head_eq
  rcases first : xs.head? with _ | x
  · have same : q.wakeHead = q := by rw [WaitQueue.wakeHead, head, first]
    rw [same]
    exact ⟨holds, fun a => by simp⟩
  · have marked : q.wakeHead = q.setWakeable x true := by rw [WaitQueue.wakeHead, head, first]
    have prevOf : q.wakeHead.prevOf = q.prevOf := by rw [marked, setWakeable_prevOf]
    have nextOf : q.wakeHead.nextOf = q.nextOf := by rw [marked, setWakeable_nextOf]
    refine ⟨⟨?_, ?_, holds.cacheNodup, holds.disjoint, ?_, ?_, ?_⟩, fun a => ?_⟩
    · rw [prevOf, nextOf, marked]
      exact holds.queue
    · rw [nextOf, marked]
      exact holds.free
    · rw [prevOf]
      exact holds.unlinked
    · rw [marked]
      exact holds.queueBound
    · rw [marked]
      exact holds.cacheBound
    · rw [marked, setWakeable_wakeableOf]
      by_cases same : a = x
      · subst same
        simp
      · rw [Function.update_of_ne same]
        simp [Ne.symm same]

/-- A fresh queue is empty. -/
theorem new : ∃ cache, Holds WaitQueue.new [] cache := by
  have blank : Holds WaitQueue.blank [] [] :=
    ⟨.nil, rfl, List.nodup_nil, by simp, by simp, by simp, by simp⟩
  obtain ⟨more, filled, _, _⟩ := blank.allocCache WaitQueue.blank.curQueueCapacity.toNat none
  exact ⟨_, filled⟩

end Holds

end WaitQueue

end Conc11.Semaphore
