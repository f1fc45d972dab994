/-
Module: Conc11.Semaphore.NodeOwnership
Purpose: Who owns which wait node of `QueuedSemaphore`.  `dequeue()` removes whatever stands at the head and
  `remove(wait_node)` trusts that the node is still queued; both hit the caller's own node, because the
  queued nodes are those of the waiting calls and only the head is ever made wakeable.
Trusted boundary: none
Main exports: System.WaitsAt, NodesOwned, pc_of_transition, nodesOwned_of_seated, wait_nodes_owned
-/
import Conc11.Semaphore.Record

namespace Conc11.Semaphore

open Library

/-- Call `c` is inside the waiting part of `try_acquire0`, with `node` as its `wait_node`. -/
def System.WaitsAt (s : System) (c : CallId) (node : NodeId) : Prop :=
  ∃ timed request, s.pc c = .waiting timed request node

/-- The queue links the nodes `queued` and the cache the nodes `cache`.  Every
waiting call owns one node, no two own the same, and the owned nodes are those
in the queue; of these only the head can be wakeable. -/
structure NodesOwned (s : System) (queued cache : List NodeId) : Prop where
  contents : s.sem.queue.Holds queued cache
  one : ∀ c node node', s.WaitsAt c node → s.WaitsAt c node' → node = node'
  distinct : ∀ c d node, s.WaitsAt c node → s.WaitsAt d node → c = d
  queued_iff : ∀ node, node ∈ queued ↔ ∃ c, s.WaitsAt c node
  wakeable : ∀ node ∈ queued, s.sem.queue.wakeableOf node = true → s.sem.queue.head = some node

variable {s s' : System} {a : Action}

theorem waitsAt_one (c : CallId) (node node' : NodeId) (here : s.WaitsAt c node)
    (there : s.WaitsAt c node') : node = node' := by
  obtain ⟨timed, request, waits⟩ := here
  obtain ⟨timed', request', waits'⟩ := there
  exact (CallPc.waiting.inj (waits.symm.trans waits')).2.2

/-- The calls in line and the nodes they own. -/
theorem Seated.waitsAt_iff {line : List Waiter} (seated : Seated s.sem.queue s.pc line)
    (c : CallId) (node : NodeId) :
    s.WaitsAt c node ↔ ∃ w ∈ line, w.call = c ∧ w.node = node := by
  constructor
  · rintro ⟨timed, request, waits⟩
    exact ⟨⟨c, timed, request, node⟩, (seated.waiting _).mp waits, rfl, rfl⟩
  · rintro ⟨w, inLine, rfl, rfl⟩
    exact ⟨w.timed, w.request, (seated.waiting w).mpr inLine⟩

theorem nodesOwned_of_seated {line : List Waiter} (seated : Seated s.sem.queue s.pc line) :
    ∃ cache, NodesOwned s (line.map Waiter.node) cache := by
  obtain ⟨cache, holds⟩ := seated.held
  refine ⟨cache, holds, waitsAt_one, fun c d node here there => ?_, fun node => ?_,
    fun node queued awake => ?_⟩
  · obtain ⟨v, inLine, rfl, sameNode⟩ := (seated.waitsAt_iff c node).mp here
    obtain ⟨w, alsoInLine, rfl, rfl⟩ := (seated.waitsAt_iff d node).mp there
    exact congrArg Waiter.call
      (List.inj_on_of_nodup_map seated.nodup inLine alsoInLine sameNode)
  · constructor
    · intro queued
      obtain ⟨w, inLine, rfl⟩ := List.mem_map.mp queued
      exact ⟨w.call, (seated.waitsAt_iff w.call w.node).mpr ⟨w, inLine, rfl, rfl⟩⟩
    · rintro ⟨c, waits⟩
      obtain ⟨w, inLine, _, rfl⟩ := (seated.waitsAt_iff c node).mp waits
      exact List.mem_map_of_mem inLine
  · obtain ⟨w, inLine, rfl⟩ := List.mem_map.mp queued
    obtain ⟨rest, rfl⟩ := seated.front ((seated.waiting w).mpr inLine) awake
    rw [holds.queue.head_eq]
    rfl

/-- A step moves one call at most. -/
theorem pc_of_transition (moved : Transition s a s') : ∃ c, ∀ d, d ≠ c → s'.pc d = s.pc d := by
  cases moved with
  | tryAcquire0 c _ _ _ _ _ _ _ | tryAcquire c _ _ | wake c _ _ _ _ _ _ _ _ _ | timeout c _ _ _ _ =>
      exact ⟨c, fun d other => Function.update_of_ne other _ _⟩
  | release request => exact ⟨0, fun _ _ => rfl⟩

/-! ## Runs -/

/-- In every reachable state the wait nodes are owned by the waiting calls.  A
woken call finds its own node at the head, a call that times out finds its
node still in the queue, and no step hands a call the node of another one that
waits on it. -/
theorem wait_nodes_owned (n : BitVec 32) (reachable : (machine n).Reachable s) :
    ∃ queued cache, NodesOwned s queued cache ∧
      (∀ c node, s.WaitsAt c node → node ∉ cache) ∧
      (∀ c budget s', step s (.wake c budget) = some s' →
        ∃ node, s.WaitsAt c node ∧ s.sem.queue.head = some node) ∧
      (∀ c s', step s (.timeout c) = some s' → ∃ node ∈ queued, s.WaitsAt c node) ∧
      ∀ a s' c d node node', step s a = some s' → c ≠ d → s.WaitsAt c node →
        s'.WaitsAt d node' → node' ≠ node := by
  obtain ⟨line, seated⟩ := seated_of_reachable reachable
  obtain ⟨cache, owned⟩ := nodesOwned_of_seated seated
  refine ⟨line.map Waiter.node, cache, owned, fun c node waits => ?_, fun c budget s' stepEq => ?_,
    fun c s' stepEq => ?_, ?_⟩
  · exact owned.contents.disjoint node ((owned.queued_iff node).mpr ⟨c, waits⟩)
  · cases transition_of_step stepEq with
    | wake _ _ timed request node _ _ waits wakeable _ =>
        have here : s.WaitsAt c node := ⟨timed, request, waits⟩
        exact ⟨node, here, owned.wakeable node ((owned.queued_iff node).mpr ⟨c, here⟩) wakeable⟩
  · cases transition_of_step stepEq with
    | timeout _ request node waits _ =>
        have here : s.WaitsAt c node := ⟨true, request, waits⟩
        exact ⟨node, (owned.queued_iff node).mpr ⟨c, here⟩, here⟩
  · intro a s' c d node node' stepEq apart here there sameNode
    subst sameNode
    obtain ⟨mover, others⟩ := pc_of_transition (transition_of_step stepEq)
    by_cases moves : d = mover
    · -- `c` has not moved, so it still owns the node in the new state
      have stays : s'.WaitsAt c node' := by
        obtain ⟨timed, request, waits⟩ := here
        exact ⟨timed, request, by rw [others c (moves ▸ apart), waits]⟩
      have reached : (machine n).Reachable s' := reachable.step (a := a) trivial stepEq
      obtain ⟨_, seated'⟩ := seated_of_reachable reached
      obtain ⟨_, owned'⟩ := nodesOwned_of_seated seated'
      exact apart (owned'.distinct c d node' stays there)
    · have before : s.WaitsAt d node' := by
        obtain ⟨timed, request, waits⟩ := there
        exact ⟨timed, request, by rw [← others d moves, waits]⟩
      exact apart (owned.distinct c d node' here before)

/-- Three calls have waited, the second has timed out and a release has woken
the first: the node at the head is its own. -/
theorem wait_nodes_owned_woken_head :
    ∃ s, (machine 0#32).Reachable s ∧ s.pc 0 = .waiting false 1 255 ∧
      s.pc 1 = .returned false ∧ s.pc 2 = .waiting true 1 253 ∧
      s.sem.queue.head = some 255 := by
  have run : ((machine 0#32).exec (initial 0#32)
      [.tryAcquire0 0 false 1 none, .tryAcquire0 1 true 1 none, .tryAcquire0 2 true 1 none,
        .timeout 1, .release 1]).bind (fun s =>
        (step s (.wake 0 none)).map fun s' => (s.pc 0, s.pc 1, s.pc 2, s'.pc 0)) =
      some (.waiting false 1 255, .returned false, .waiting true 1 253, .returned true) := by
    decide +kernel
  obtain ⟨s, runs, last⟩ := Option.bind_eq_some_iff.mp run
  obtain ⟨s', stepEq, observed⟩ := Option.map_eq_some_iff.mp last
  simp only [Prod.mk.injEq] at observed
  obtain ⟨first, second, third, _⟩ := observed
  have reached := Machine.reachable_of_exec runs
  obtain ⟨_, _, owned, _, woken, _⟩ := wait_nodes_owned 0#32 reached
  obtain ⟨node, ⟨timed, request, waits⟩, head⟩ := woken 0 none s' stepEq
  obtain ⟨_, _, rfl⟩ := CallPc.waiting.inj (first.symm.trans waits)
  exact ⟨s, reached, first, second, third, head⟩

end Conc11.Semaphore
