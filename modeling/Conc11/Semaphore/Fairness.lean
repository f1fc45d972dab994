/-
Module: Conc11.Semaphore.Fairness
Purpose: `QueuedSemaphore` grants requests in order of arrival as long as no woken call has to give up its
  place: the waiting loop dequeues a call before it looks at the permits, and a call for which they do
  not suffice gets behind all that came after it.  The order of the line needs no bound on any request or
  count, and no exact `request_record`.
Trusted boundary: none
Main exports: Fair, isUntimedTry, givesUpPlace, toTurns, InArrivalOrder, ordered_of_reachable, grants_fair
-/
import Conc11.Library.WaitingLine
import Conc11.Semaphore.Seating

namespace Conc11.Semaphore

open Library

/-- A call that had to wait and has not timed out is granted its request
before every call that came later. -/
def Fair (s : System) : Prop :=
  ∀ x y, Precedes s.arrived x y → x ∈ s.queued → x ∉ s.left →
    y ∈ s.grants.map Prod.fst → Precedes (s.grants.map Prod.fst) x y

/-- The untimed `try_acquire` is documented as not fair. -/
def isUntimedTry : Action → Bool
  | .tryAcquire _ _ => true
  | _ => false

/-- A woken call goes to the tail with too few permits, and it is not the only
one in the queue. -/
def givesUpPlace (s : System) : Action → Bool
  | .wake c _ =>
      match s.pc c with
      | .waiting _ request node =>
          !request.sle s.sem.permits && (s.sem.queue.nextOf node).isSome
      | _ => false
  | _ => false

/-! ## The line behind the queue -/

/-- The calls in line with the histories of the semaphore. -/
def toTurns (s : System) (line : List Waiter) : Turns CallId :=
  { line := line.map Waiter.call
    arrived := s.arrived
    queued := s.queued
    granted := s.grants.map Prod.fst
    left := s.left }

/-- The queued nodes belong to the calls in `line`, and the line and the grants
follow the order of arrival. -/
structure InArrivalOrder (s : System) (line : List Waiter) : Prop where
  seated : Seated s.sem.queue s.pc line
  came : ∀ c ∈ s.arrived, s.pc c ≠ .idle
  ordered : (toTurns s line).Ordered

namespace InArrivalOrder

variable {s s' : System} {line line' : List Waiter}

theorem fresh (inOrder : InArrivalOrder s line) {c : CallId} (idle : s.pc c = .idle) :
    c ∉ s.arrived :=
  fun arrived => inOrder.came c arrived idle

theorem outside {c : CallId} (idle : s.pc c = .idle) (w : Waiter) : s.pc c ≠ w.pc := by
  rw [idle]
  exact CallPc.noConfusion

theorem moved (inOrder : InArrivalOrder s line) (seated : Seated s'.sem.queue s'.pc line')
    (came : ∀ c ∈ s'.arrived, s'.pc c ≠ .idle)
    (step : (toTurns s line).Step (toTurns s' line')) : InArrivalOrder s' line' :=
  ⟨seated, came, inOrder.ordered.step step⟩

theorem tryAcquire0 (inOrder : InArrivalOrder s line) {c : CallId} {timed : Bool}
    {request : Request} {budget : Option Nat} {sem : QueuedSemaphore} {result : Result}
    (idle : s.pc c = .idle) (ran : s.sem.tryAcquire0 request budget = some (sem, result)) :
    ∃ line', InArrivalOrder (s.arrive c timed request sem result) line' := by
  have fresh := inOrder.fresh idle
  have seated := inOrder.seated
  obtain ⟨cache, holds⟩ := seated.held
  unfold QueuedSemaphore.tryAcquire0 at ran
  split at ran
  next fits =>
    cases ran
    obtain rfl := seated.isEmpty_iff.mp (Bool.and_eq_true_iff.mp fits).2
    refine ⟨[], inOrder.moved ?_ (came_concat inOrder.came CallPc.noConfusion) ?_⟩
    · exact seated.skip seated.held (fun _ _ => rfl) (outside idle) fun w => CallPc.noConfusion
    · have passed := Turns.Step.pass (t := toTurns s []) c fresh rfl
      simpa [toTurns, System.arrive, System.settle] using passed
  next misfit =>
    obtain ⟨_, kept, ⟨rfl, _, after⟩ | ⟨node, rfl, asleep, after⟩⟩ :=
      enqueueAndWait_spec _ (by rw [queue_requestRecordInsert]; exact holds) ran
    all_goals rw [queue_requestRecordInsert, List.forall_mem_map] at kept
    · refine ⟨line, inOrder.moved ?_ (came_concat inOrder.came CallPc.noConfusion) ?_⟩
      · exact seated.skip after kept (outside idle) fun w => CallPc.noConfusion
      · have came := Turns.Step.come (t := toTurns s line) c fresh
        simpa [toTurns, System.arrive, System.settle] using came
    · refine ⟨line ++ [⟨c, timed, request, node⟩],
        inOrder.moved ?_ (came_concat inOrder.came CallPc.noConfusion) ?_⟩
      · exact seated.join (w := ⟨c, timed, request, node⟩) after kept asleep (outside idle)
      · have joined := Turns.Step.join (t := toTurns s line) c fresh
        simpa [toTurns, System.arrive, System.settle] using joined

/-- A woken call is granted its request in its turn, or it goes back to where it
was, alone in line; or the program ends and nobody is granted anything. -/
theorem woken (inOrder : InArrivalOrder s line) {c : CallId} {timed : Bool} {request : Request}
    {node : NodeId} {budget : Option Nat} {sem : QueuedSemaphore} {result : Result}
    (stays : givesUpPlace s (.wake c budget) = false) (waits : s.pc c = .waiting timed request node)
    (wakeable : s.sem.queue.wakeableOf node = true)
    (ran : s.sem.woken request budget = some (sem, result)) :
    (∃ line', InArrivalOrder (s.settle c timed request sem result) line') ∨
      result = .terminated := by
  have seated := inOrder.seated
  obtain ⟨rest, rfl⟩ := seated.front (w := ⟨c, timed, request, node⟩) waits wakeable
  obtain ⟨cache, holds⟩ := seated.held
  cases fits : request.sle s.sem.permits with
  | true =>
      obtain ⟨ended, _, _, after, signals⟩ := woken_leaves holds fits ran
      split at ended
      next => exact .inr ended
      next =>
        subst ended
        refine .inl ⟨rest, inOrder.moved ?_ (came_update inOrder.came CallPc.noConfusion) ?_⟩
        · exact seated.serve after signals fun v => CallPc.noConfusion
        · have served := Turns.Step.serve
            (t := toTurns s (⟨c, timed, request, node⟩ :: rest)) c (rest.map Waiter.call) rfl
          simpa [toTurns, System.settle] using served
  | false =>
      obtain ⟨_, kept, node', rfl, asleep, after⟩ := woken_requeued holds fits ran
      rw [List.forall_mem_map] at kept
      -- nobody else is in line, so the end of the line is where the call stood
      have next : s.sem.queue.nextOf node = (rest.map Waiter.node).head? :=
        holds.queue.next_eq (l := [])
      have alone : s.sem.queue.nextOf node = none := by
        simpa [givesUpPlace, waits, fits] using stays
      obtain rfl : rest = [] := by simpa [alone] using next
      refine .inl ⟨[⟨c, timed, request, node'⟩],
        inOrder.moved ?_ (came_update inOrder.came CallPc.noConfusion) ?_⟩
      · exact (seated.requeue after kept asleep).1
      · have stayed := Turns.Step.stay (t := toTurns s [⟨c, timed, request, node⟩])
        simpa [toTurns, System.settle] using stayed

theorem timeout (inOrder : InArrivalOrder s line) {c : CallId} {request : Request} {node : NodeId}
    (waits : s.pc c = .waiting true request node) :
    ∃ line', InArrivalOrder (s.leave c request node) line' := by
  obtain ⟨l, r, rfl⟩ :=
    List.append_of_mem ((inOrder.seated.waiting ⟨c, true, request, node⟩).mp waits)
  have refused : ∀ v : Waiter, CallPc.returned false ≠ v.pc := fun v => CallPc.noConfusion
  refine ⟨l ++ r, inOrder.moved (inOrder.seated.leave refused).1
    (came_update inOrder.came CallPc.noConfusion) ?_⟩
  have left := Turns.Step.leave (t := toTurns s (l ++ ⟨c, true, request, node⟩ :: r)) c
    (l.map Waiter.call) (r.map Waiter.call) (by simp [toTurns])
  simpa [toTurns, System.leave, System.settle, QueuedSemaphore.timedOut] using left

/-- Every section keeps the order of arrival; only `std::terminate` leaves a call
without a place, and after it no more requests are granted. -/
theorem transition (inOrder : InArrivalOrder s line) {a : Action} (queues : isUntimedTry a = false)
    (stays : givesUpPlace s a = false) (moved : Transition s a s') :
    (∃ line', InArrivalOrder s' line') ∨ s'.aborted = true ∧ Fair s' := by
  cases moved with
  | tryAcquire0 c timed request budget sem result idle ran =>
      exact .inl (inOrder.tryAcquire0 idle ran)
  | tryAcquire c request idle => cases queues
  | release request =>
      obtain ⟨cache, holds⟩ := inOrder.seated.held
      obtain ⟨after, _, woken⟩ :=
        wakeIfDue_holds { s.sem with permits := s.sem.permits + request } holds
      exact .inl ⟨line, inOrder.seated.wake ⟨cache, after⟩ woken, inOrder.came, inOrder.ordered⟩
  | wake c budget timed request node sem result waits wakeable ran =>
      rcases inOrder.woken stays waits wakeable ran with still | rfl
      · exact .inl still
      · exact .inr ⟨Bool.or_true s.aborted, inOrder.ordered.fair⟩
  | timeout c request node waits asleep => exact .inl (inOrder.timeout waits)

end InArrivalOrder

/-! ## Runs -/

/-- In every run the line follows the order of arrival until the program ends. -/
theorem ordered_of_reachable {n : BitVec 32} {s : System}
    (reachable : (machine n).ReachableUnder
      (fun s a => isUntimedTry a = false ∧ givesUpPlace s a = false) s) :
    (∃ line, InArrivalOrder s line) ∨ s.aborted = true ∧ Fair s := by
  refine reachable.invariant
    (motive := fun s => (∃ line, InArrivalOrder s line) ∨ s.aborted = true ∧ Fair s) ?_ ?_
  · refine .inl ⟨[], Seated.initial n, ?_, Turns.Ordered.empty⟩
    exact fun c arrived => absurd arrived List.not_mem_nil
  · rintro s a s' _ (⟨line, inOrder⟩ | ⟨aborted, _⟩) ⟨queues, stays⟩ stepEq
    · exact inOrder.transition queues stays (transition_of_step stepEq)
    · exact absurd aborted (running_of_step stepEq)

/-- Without untimed `try_acquire`, and as long as no woken call gives up its
place, requests are granted in the order of arrival. -/
theorem grants_fair (n : BitVec 32) {s : System}
    (reachable : (machine n).ReachableUnder
      (fun s a => isUntimedTry a = false ∧ givesUpPlace s a = false) s) : Fair s := by
  rcases ordered_of_reachable reachable with ⟨line, inOrder⟩ | ⟨_, fair⟩
  · exact inOrder.ordered.fair
  · exact fair

/-- The count starts below zero, so three permits are needed before the two
calls in line are served, the first one first. -/
theorem grants_fair_two_calls :
    ∃ s, (machine (-1#32)).ReachableUnder
        (fun s a => isUntimedTry a = false ∧ givesUpPlace s a = false) s ∧
      s.arrived = [0, 1] ∧ s.grants = [(0, 1), (1, 1)] ∧ Precedes (s.grants.map Prod.fst) 0 1 := by
  have run : ((machine (-1#32)).execUnder
      (fun s a => isUntimedTry a = false ∧ givesUpPlace s a = false)
      (initial (-1#32)) [.tryAcquire0 0 false 1 none, .tryAcquire0 1 true 1 none, .release 1,
        .release 1, .wake 0 none, .release 1, .wake 1 none]).map
          (fun s => (s.arrived, s.queued, s.left, s.grants)) =
      some ([0, 1], [0, 1], [], [(0, 1), (1, 1)]) := by
    decide +kernel
  obtain ⟨s, runs, observed⟩ := Option.map_eq_some_iff.mp run
  simp only [Prod.mk.injEq] at observed
  obtain ⟨arrived, queued, left, grants⟩ := observed
  have reached := Machine.reachableUnder_of_execUnder runs
  refine ⟨s, reached, arrived, grants, ?_⟩
  apply grants_fair (-1#32) reached 0 1
  · rw [arrived]
    exact List.Sublist.refl _
  · rw [queued]
    decide
  · rw [left]
    decide
  · rw [grants]
    decide

/-- Call 0 wants two permits and call 1 behind it one.  Call 0 is woken for a
single permit and goes behind call 1, which then gets its permit first. -/
def overtakingRun : List Action :=
  [.tryAcquire0 0 false 2 none, .tryAcquire0 1 false 1 none, .release 1, .wake 0 none, .release 1,
    .wake 1 none]

theorem grants_fair_counterexample :
    ¬ ∀ (n : BitVec 32) s,
      (machine n).ReachableUnder (fun _ a => isUntimedTry a = false) s → Fair s := by
  intro claimed
  have run : ((machine 0#32).execUnder (fun _ a => isUntimedTry a = false) (initial 0#32)
      overtakingRun).map (fun s => (s.arrived, s.queued, s.left, s.grants)) =
      some ([0, 1], [0, 1], [], [(1, 1)]) := by
    decide +kernel
  obtain ⟨s, runs, observed⟩ := Option.map_eq_some_iff.mp run
  simp only [Prod.mk.injEq] at observed
  obtain ⟨arrived, queued, left, grants⟩ := observed
  have fair := claimed 0#32 s (Machine.reachableUnder_of_execUnder runs) 0 1
    (by rw [arrived]; exact List.Sublist.refl _) (by rw [queued]; decide) (by rw [left]; decide)
    (by rw [grants]; decide)
  rw [grants] at fair
  exact absurd fair.length_le (by decide)

end Conc11.Semaphore
