/-
Module: Conc11.Semaphore.Record
Purpose: Which steps of `QueuedSemaphore` keep `request_record` equal to the requests of the calls in the
  queue.  A wait that times out and an allocation that fails both leave `try_acquire0` without
  `request_record_remove`.
Trusted boundary: none
Main exports: RecordExact, NodeAvailable, KeepsRecord, seated_of_reachable, recordExact_step, record_exact
-/
import Conc11.Semaphore.RequestRecord
import Conc11.Semaphore.Seating

namespace Conc11.Semaphore

open Library

/-- The nodes of the queue are those of the waiting calls, and
`request_record` holds the requests of these calls. -/
def RecordExact (s : System) : Prop :=
  ∃ line : List Waiter, (∃ cache, s.sem.queue.Holds (line.map Waiter.node) cache) ∧
    Waiting s.pc line ∧
    Tallied s.sem.requestRecord (line.map Waiter.request : Multiset Request)

/-- `enqueue` gets a node: one is free, or enough allocations succeed. -/
def NodeAvailable (queue : WaitQueue) (budget : Option Nat) : Prop :=
  queue.cacheHead ≠ none ∨
    ∀ successes, budget = some successes → queue.curQueueCapacity.toNat ≤ successes

/-- No wait times out, and a call that has to wait gets a node for it. -/
def KeepsRecord (s : System) : Action → Prop
  | .tryAcquire0 _ _ request budget =>
      (request.sle s.sem.permits = true ∧ s.sem.queue.isEmpty = true) ∨
        NodeAvailable s.sem.queue budget
  | .timeout _ => False
  | _ => True

/-! ## When an allocation fails -/

theorem allocCache_limited (q : WaitQueue) (turns successes : Nat) :
    (q.allocCache turns (some successes)).2 = true ↔ turns ≤ successes := by
  induction turns generalizing q successes with
  | zero => exact iff_of_true rfl (Nat.zero_le successes)
  | succ turns ih =>
      cases successes with
      | zero => exact iff_of_false Bool.false_ne_true (Nat.not_succ_le_zero turns)
      | succ successes => exact (ih q.allocNode successes).trans Nat.succ_le_succ_iff.symm

theorem fillCache_done (q : WaitQueue) (budget : Option Nat) :
    (q.fillCache budget).2 = true ↔ NodeAvailable q budget := by
  unfold WaitQueue.fillCache NodeAvailable
  split
  next depleted =>
    rw [or_iff_right (not_not_intro (Option.isNone_iff_eq_none.mp depleted))]
    have filled : (q.allocCache q.curQueueCapacity.toNat budget).2 = true ↔
        ∀ successes, budget = some successes → q.curQueueCapacity.toNat ≤ successes := by
      cases budget with
      | none => simp [WaitQueue.allocCache_unlimited]
      | some successes => simp [allocCache_limited]
    rw [← filled]
    split
    next q' ran => simp [ran]
    next q' ran => simp [ran]
  next stocked =>
    exact iff_of_true rfl (.inl fun none => stocked (Option.isNone_iff_eq_none.mpr none))

/-- `enqueue` returns a node exactly if it gets one. -/
theorem enqueue_node {q q' : WaitQueue} {budget : Option Nat} {node : Option NodeId}
    (called : q.enqueue budget = some (q', node)) :
    node.isSome = true ↔ NodeAvailable q budget := by
  rw [← fillCache_done]
  unfold WaitQueue.enqueue at called
  split at called
  next q₁ ran =>
    cases called
    simp [ran]
  next q₁ ran =>
    split at called
    next => cases called
    next =>
      cases called
      simp [ran]

theorem enqueueAndWait_waits {sem sem' : QueuedSemaphore} {budget : Option Nat} {result : Result}
    (ran : sem.enqueueAndWait budget = some (sem', result)) :
    (∃ node, result = .waiting node) ↔ NodeAvailable sem.queue budget := by
  unfold QueuedSemaphore.enqueueAndWait at ran
  split at ran
  next => cases ran
  next queue called =>
    cases ran
    rw [← enqueue_node called]
    simp
  next queue node called =>
    cases ran
    rw [← enqueue_node called]
    simp

/-! ## What the sections do to the record and to the line -/

/-- What a step does to the record and to the requests in line.  Two kinds of
step change one of them only. -/
inductive Booked (s : System) (a : Action) (s' : System) (pending pending' : Multiset Request) :
    Prop where
  | same (keeps : KeepsRecord s a) (record : s'.sem.requestRecord = s.sem.requestRecord)
      (line : pending' = pending)
  | enter (keeps : KeepsRecord s a) (request : Request)
      (record : s'.sem.requestRecord = (s.sem.requestRecordInsert request).requestRecord)
      (line : pending' = request ::ₘ pending)
  | finish (keeps : KeepsRecord s a) (request : Request)
      (record : s'.sem.requestRecord = (s.sem.requestRecordRemove request).requestRecord)
      (line : pending = request ::ₘ pending')
  | fail (loses : ¬ KeepsRecord s a) (request : Request)
      (record : s'.sem.requestRecord = (s.sem.requestRecordInsert request).requestRecord)
      (line : pending' = pending)
  | giveUp (loses : ¬ KeepsRecord s a) (request : Request)
      (record : s'.sem.requestRecord = s.sem.requestRecord)
      (line : pending = request ::ₘ pending')

private theorem cons_ne (request : Request) (requests : Multiset Request) :
    request ::ₘ requests ≠ requests := by
  intro same
  have card := congrArg Multiset.card same
  rw [Multiset.card_cons] at card
  exact Nat.succ_ne_self _ card

theorem Booked.tallied_iff {s s' : System} {a : Action} {pending pending' : Multiset Request}
    (booked : Booked s a s' pending pending') (tallied : Tallied s.sem.requestRecord pending) :
    Tallied s'.sem.requestRecord pending' ↔ KeepsRecord s a := by
  cases booked with
  | same keeps record line =>
      rw [record, line]
      exact iff_of_true tallied keeps
  | enter keeps request record line =>
      rw [record, line]
      exact iff_of_true tallied.requestRecordInsert keeps
  | finish keeps request record line =>
      have recorded : request ∈ pending := by
        rw [line]
        exact Multiset.mem_cons_self request pending'
      have removed := tallied.requestRecordRemove recorded
      rw [line, Multiset.erase_cons_head] at removed
      rw [record]
      exact iff_of_true removed keeps
  | fail loses request record line =>
      rw [record, line]
      refine iff_of_false (fun still => ?_) loses
      exact cons_ne request pending ((tallied.requestRecordInsert).unique still)
  | giveUp loses request record line =>
      rw [record]
      refine iff_of_false (fun still => ?_) loses
      rw [line] at tallied
      exact cons_ne request pending' (tallied.unique still)

/-- The requests of the calls in line. -/
def pending (line : List Waiter) : Multiset Request := (line.map Waiter.request : Multiset Request)

namespace Seated

variable {s s' : System} {line : List Waiter}

theorem tryAcquire0 (seated : Seated s.sem.queue s.pc line) {c : CallId} {timed : Bool}
    {request : Request} {budget : Option Nat} {sem : QueuedSemaphore} {result : Result}
    (idle : s.pc c = .idle) (ran : s.sem.tryAcquire0 request budget = some (sem, result)) :
    ∃ line', Seated sem.queue (s.arrive c timed request sem result).pc line' ∧
      Booked s (.tryAcquire0 c timed request budget) (s.arrive c timed request sem result)
        (pending line) (pending line') := by
  have outside : ∀ w : Waiter, s.pc c ≠ w.pc := fun w => by rw [idle]; exact CallPc.noConfusion
  obtain ⟨cache, holds⟩ := seated.held
  unfold QueuedSemaphore.tryAcquire0 at ran
  split at ran
  next fits =>
    cases ran
    refine ⟨line, ?_, .same (.inl (Bool.and_eq_true_iff.mp fits)) rfl rfl⟩
    exact seated.skip ⟨cache, holds⟩ (fun _ _ => rfl) outside fun w => CallPc.noConfusion
  next misfit =>
    have waits := enqueueAndWait_waits ran
    rw [queue_requestRecordInsert] at waits
    obtain ⟨record, kept, ended⟩ :=
      enqueueAndWait_spec _ (by rw [queue_requestRecordInsert]; exact holds) ran
    rw [queue_requestRecordInsert, List.forall_mem_map] at kept
    rcases ended with ⟨rfl, _, after⟩ | ⟨node, rfl, asleep, after⟩
    · refine ⟨line, ?_, .fail (fun keeps => ?_) request record rfl⟩
      · exact seated.skip after kept outside fun w => CallPc.noConfusion
      · rcases keeps with fits | available
        · exact misfit (Bool.and_eq_true_iff.mpr fits)
        · obtain ⟨node, waiting⟩ := waits.mpr available
          cases waiting
    · refine ⟨line ++ [⟨c, timed, request, node⟩], ?_,
        .enter (.inr (waits.mp ⟨node, rfl⟩)) request record ?_⟩
      · exact seated.join (w := ⟨c, timed, request, node⟩) after kept asleep outside
      · exact Multiset.coe_eq_coe.mpr (by simp)

theorem woken (seated : Seated s.sem.queue s.pc line) {c : CallId} {timed : Bool}
    {request : Request} {node : NodeId} {budget : Option Nat} {sem : QueuedSemaphore}
    {result : Result} (waits : s.pc c = .waiting timed request node)
    (wakeable : s.sem.queue.wakeableOf node = true)
    (ran : s.sem.woken request budget = some (sem, result)) :
    ∃ line', Seated sem.queue (s.settle c timed request sem result).pc line' ∧
      Booked s (.wake c budget) (s.settle c timed request sem result) (pending line)
        (pending line') := by
  obtain ⟨rest, rfl⟩ := seated.front (w := ⟨c, timed, request, node⟩) waits wakeable
  obtain ⟨cache, holds⟩ := seated.held
  cases fits : request.sle s.sem.permits with
  | true =>
      obtain ⟨ended, _, record, after, signals⟩ := woken_leaves holds fits ran
      refine ⟨rest, ?_, .finish trivial request record rfl⟩
      -- the call is granted its request, or the program ends
      split at ended
      next =>
        cases ended
        exact seated.serve after signals fun v => CallPc.noConfusion
      next =>
        cases ended
        exact seated.serve after signals fun v => CallPc.noConfusion
  | false =>
      obtain ⟨record, kept, node', rfl, asleep, after⟩ := woken_requeued holds fits ran
      rw [List.forall_mem_map] at kept
      refine ⟨rest ++ [Waiter.mk c timed request node'], (seated.requeue after kept asleep).1,
        .same trivial record ?_⟩
      exact Multiset.coe_eq_coe.mpr (by simp)

theorem transition {a : Action} (seated : Seated s.sem.queue s.pc line)
    (moved : Transition s a s') :
    ∃ line', Seated s'.sem.queue s'.pc line' ∧ Booked s a s' (pending line) (pending line') := by
  cases moved with
  | tryAcquire0 c timed request budget sem result idle ran => exact seated.tryAcquire0 idle ran
  | tryAcquire c request idle =>
      have outside : ∀ w : Waiter, s.pc c ≠ w.pc :=
        fun w => by rw [idle]; exact CallPc.noConfusion
      refine ⟨line, ?_, ?_⟩
      · unfold QueuedSemaphore.tryAcquire
        split
        next =>
          exact seated.skip seated.held (fun _ _ => rfl) outside fun w => CallPc.noConfusion
        next =>
          exact seated.skip seated.held (fun _ _ => rfl) outside fun w => CallPc.noConfusion
      · refine .same trivial ?_ rfl
        change (s.sem.tryAcquire request).1.requestRecord = s.sem.requestRecord
        unfold QueuedSemaphore.tryAcquire
        split <;> rfl
  | release request =>
      obtain ⟨cache, holds⟩ := seated.held
      obtain ⟨after, record, woken⟩ :=
        wakeIfDue_holds { s.sem with permits := s.sem.permits + request } holds
      exact ⟨line, seated.wake ⟨cache, after⟩ woken, .same trivial record rfl⟩
  | wake c budget timed request node sem result waits wakeable ran =>
      exact seated.woken waits wakeable ran
  | timeout c request node waits asleep =>
      obtain ⟨l, r, rfl⟩ :=
        List.append_of_mem ((seated.waiting ⟨c, true, request, node⟩).mp waits)
      have refused : ∀ v : Waiter, CallPc.returned false ≠ v.pc := fun v => CallPc.noConfusion
      refine ⟨l ++ r, (seated.leave refused).1, .giveUp (fun keeps => keeps) request rfl ?_⟩
      exact Multiset.coe_eq_coe.mpr (by simp)

theorem recordExact_iff (seated : Seated s.sem.queue s.pc line) :
    RecordExact s ↔ Tallied s.sem.requestRecord (pending line) := by
  constructor
  · rintro ⟨line', ⟨cache, holds⟩, waiting, tallied⟩
    have same : line'.Perm line := by
      apply (List.perm_ext_iff_of_nodup holds.queue.nodup.of_map seated.nodup.of_map).mpr
      exact fun w => (waiting w).symm.trans (seated.waiting w)
    have requests : pending line' = pending line :=
      Multiset.coe_eq_coe.mpr (same.map Waiter.request)
    exact requests ▸ tallied
  · exact fun tallied => ⟨line, seated.held, seated.waiting, tallied⟩

end Seated

/-! ## Runs -/

theorem seated_of_reachable {n : BitVec 32} {s : System} (reachable : (machine n).Reachable s) :
    ∃ line, Seated s.sem.queue s.pc line := by
  refine Machine.ReachableUnder.invariant
    (motive := fun s : System => ∃ line, Seated s.sem.queue s.pc line) ?_ ?_ reachable
  · exact ⟨[], Seated.initial n⟩
  · rintro s a s' _ ⟨line, seated⟩ _ stepEq
    obtain ⟨line', seated', _⟩ := seated.transition (transition_of_step stepEq)
    exact ⟨line', seated'⟩

/-- One step: the record is still exact exactly if the step keeps it. -/
theorem recordExact_step {n : BitVec 32} {s s' : System} {a : Action}
    (reachable : (machine n).Reachable s) (recorded : RecordExact s) (stepEq : step s a = some s') :
    RecordExact s' ↔ KeepsRecord s a := by
  obtain ⟨line, seated⟩ := seated_of_reachable reachable
  obtain ⟨line', seated', booked⟩ := seated.transition (transition_of_step stepEq)
  rw [seated'.recordExact_iff]
  exact booked.tallied_iff (seated.recordExact_iff.mp recorded)

/-- With an exact record `request_record_min` is the smallest pending request. -/
theorem RecordExact.min {s : System} (recorded : RecordExact s) :
    (s.sem.queue.isEmpty = false →
      (∃ c timed node, s.pc c = .waiting timed s.sem.requestRecordMin node) ∧
      ∀ c timed request node, s.pc c = .waiting timed request node →
        s.sem.requestRecordMin.ule request = true) ∧
    (s.sem.queue.isEmpty = true → s.sem.requestRecord.isEmpty = true) := by
  obtain ⟨line, ⟨cache, holds⟩, waiting, tallied⟩ := recorded
  have isEmpty : s.sem.queue.isEmpty = true ↔ line = [] := by
    rw [holds.isEmpty_iff, List.map_eq_nil_iff]
  constructor
  · intro someone
    rcases tallied.min with ⟨none, _⟩ | ⟨member, least⟩
    · have empty : line = [] := List.map_eq_nil_iff.mp (Multiset.coe_eq_zero _ |>.mp none)
      rw [isEmpty.mpr empty] at someone
      cases someone
    · obtain ⟨w, inLine, request⟩ := List.mem_map.mp (Multiset.mem_coe.mp member)
      refine ⟨⟨w.call, w.timed, w.node, ?_⟩, fun c timed request node waits => ?_⟩
      · rw [← request]
        exact (waiting w).mpr inLine
      · have inLine := (waiting ⟨c, timed, request, node⟩).mp waits
        rw [BitVec.ule, decide_eq_true_iff]
        exact least request (Multiset.mem_coe.mpr (List.mem_map_of_mem inLine))
  · intro nobody
    rw [tallied.isEmpty_iff, isEmpty.mp nobody]
    rfl

/-- In every run in which no wait times out and every call that has to wait
gets a node, the record is exact; a step that breaks this condition breaks an
exact record at once. -/
theorem record_exact (n : BitVec 32) :
    (∀ s, (machine n).ReachableUnder KeepsRecord s → RecordExact s) ∧
    (∀ s a s', (machine n).Reachable s → RecordExact s → step s a = some s' →
      (RecordExact s' ↔ KeepsRecord s a)) ∧
    ∀ s, RecordExact s →
      (s.sem.queue.isEmpty = false →
        (∃ c timed node, s.pc c = .waiting timed s.sem.requestRecordMin node) ∧
        ∀ c timed request node, s.pc c = .waiting timed request node →
          s.sem.requestRecordMin.ule request = true) ∧
      (s.sem.queue.isEmpty = true → s.sem.requestRecord.isEmpty = true) := by
  refine ⟨fun s reachable => ?_, fun s a s' reachable recorded stepEq =>
    recordExact_step reachable recorded stepEq, fun s recorded => recorded.min⟩
  refine reachable.invariant (motive := RecordExact) ?_ ?_
  · exact ((Seated.initial n).recordExact_iff).mpr Tallied.empty
  · intro s a s' reached recorded keeps stepEq
    exact (recordExact_step reached.reachable recorded stepEq).mpr keeps

/-- A call waits for one permit and times out: the queue is empty and its
request is still recorded. -/
theorem record_exact_counterexample :
    ¬ ∀ n : BitVec 32, ∀ s, (machine n).Reachable s → RecordExact s := by
  intro claimed
  have run : ((machine 0#32).exec (initial 0#32) [.tryAcquire0 0 true 1 none, .timeout 0]).map
      (fun s => (s.pc 0, s.sem.queue.isEmpty, s.sem.requestRecord.isEmpty)) =
      some (.returned false, true, false) := by
    decide +kernel
  obtain ⟨s, runs, observed⟩ := Option.map_eq_some_iff.mp run
  simp only [Prod.mk.injEq] at observed
  obtain ⟨_, emptyQueue, stale⟩ := observed
  have recorded := claimed 0#32 s (Machine.reachable_of_exec runs)
  have empty := recorded.min.2 emptyQueue
  rw [stale] at empty
  cases empty

/-- Two calls wait, for three permits and for two: the smaller request is
recorded as the smallest. -/
theorem record_exact_two_calls :
    ∃ s, (machine 0#32).ReachableUnder KeepsRecord s ∧ RecordExact s ∧
      s.sem.queue.isEmpty = false ∧ s.sem.requestRecordMin.ule 2 = true := by
  have run : ((machine 0#32).execUnder (fun _ a => a matches .tryAcquire0 _ _ _ none)
      (initial 0#32) [.tryAcquire0 0 false 3 none, .tryAcquire0 1 true 2 none]).map
        (fun s => (s.pc 1, s.sem.queue.isEmpty)) = some (.waiting true 2 254, false) := by
    decide +kernel
  obtain ⟨s, runs, observed⟩ := Option.map_eq_some_iff.mp run
  simp only [Prod.mk.injEq] at observed
  obtain ⟨waits, someone⟩ := observed
  have reached : (machine 0#32).ReachableUnder KeepsRecord s := by
    refine (Machine.reachableUnder_of_execUnder runs).mono fun s a unlimited => ?_
    cases a with
    | tryAcquire0 c timed request budget =>
        cases budget with
        | none =>
            refine .inr (.inr fun successes limited => ?_)
            cases limited
        | some successes => cases unlimited
    | timeout c => cases unlimited
    | _ => trivial
  obtain ⟨runs, _, least⟩ := record_exact 0#32
  have recorded := runs s reached
  exact ⟨s, reached, recorded, someone, ((least s recorded).1 someone).2 1 true 2 254 waits⟩

end Conc11.Semaphore
