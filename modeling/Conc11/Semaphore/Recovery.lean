/-
Module: Conc11.Semaphore.Recovery
Purpose: What a sufficient release does for `QueuedSemaphore`, whose signals may have been lost before.  Every release
  signals the head of the queue if the permits suffice for it; when they suffice for all the waiting calls
  together, each woken call passes the signal on, and all of them are served.
Trusted boundary: none
Main exports: CallPc.asks, System.sum, Serving, Suffices, headSignalled_release, Suffices.descends, release_serves_all
-/
import Conc11.Library.Draining
import Conc11.Library.Progress
import Conc11.Semaphore.Wakeup

namespace Conc11.Semaphore

open Library

namespace CallPc

/-- The permits that a waiting call asks for. -/
def asks : CallPc → Nat
  | .waiting _ request _ => request.toNat
  | _ => 0

def isWaiting : CallPc → Bool
  | .waiting _ _ _ => true
  | _ => false

end CallPc

/-- The sum of a weight over the calls that have come. -/
def System.sum (weight : CallPc → Nat) (s : System) : Nat :=
  (s.arrived.map fun c => weight (s.pc c)).sum

/-- The number of waiting calls. -/
def System.sleepers (s : System) : Nat := s.sum fun pc => pc.isWaiting.toNat

/-- The steps of the calls that wait: one that has been woken goes on, and one
that has not may time out. -/
def Serving (_ : System) : Action → Prop
  | .wake _ _ | .timeout _ => True
  | _ => False

/-- The permits suffice for all the waiting calls, and the first of them has
been signalled. -/
structure Suffices (n : BitVec 32) (s : System) : Prop where
  reachable : (machine n).ReachableUnder (WithinInt n) s
  signalled : HeadSignalled s
  enough : s.sum CallPc.asks ≤ s.sem.permits.toNat

variable {n : BitVec 32} {s s' : System} {c : CallId}

/-- A waiting call has come. -/
theorem arrived_of_waiting (nonneg : 0 ≤ n.toInt)
    (reachable : (machine n).ReachableUnder (WithinInt n) s) {timed : Bool} {request : Request}
    {node : NodeId} (waits : s.pc c = .waiting timed request node) : c ∈ s.arrived := by
  obtain ⟨line, record, lined, covered⟩ :=
    line_of_reachable nonneg (reachable.mono fun _ _ => WithinInt.totals)
  have inLine := (lined.waiting ⟨c, timed, request, node⟩).mp waits
  exact covered.came c (List.mem_map_of_mem (f := Prod.fst)
    (List.mem_map_of_mem (f := fun w : Waiter => (w.call, w.request.toNat)) inLine))

/-- Whatever was lost before, a release signals the head if the permits now
suffice for it: the request of the head is recorded, so the smallest recorded
request is no larger. -/
theorem headSignalled_release (nonneg : 0 ≤ n.toInt)
    (reachable : (machine n).ReachableUnder (WithinInt n) s) {request : Request}
    (allowed : WithinInt n s (.release request)) : HeadSignalled (s.release request) := by
  have totals := reachable.mono fun _ _ => WithinInt.totals
  have conserved := conserved_of_reachable nonneg totals
  obtain ⟨line, record, lined, covered⟩ := line_of_reachable nonneg totals
  obtain ⟨line', record', e, lined', shown, moved⟩ := lined.release conserved allowed
  cases shown
  exact (lined'.headSignalled_iff
    (conserved.transition (a := .release request) allowed (.release request))).mp
    (covered.headSignalled_release moved)

/-- A call that returns takes its weight out of the sum. -/
theorem sum_of_returned (weight : CallPc → Nat) (member : c ∈ s.arrived)
    (arrived : s'.arrived = s.arrived) {result : Bool}
    (pc : s'.pc = Function.update s.pc c (.returned result))
    (light : weight (.returned result) = 0) : s'.sum weight + weight (s.pc c) ≤ s.sum weight := by
  unfold System.sum
  rw [arrived, pc]
  exact sum_map_update_le s.pc member light

theorem timeout_spec (stepEq : step s (.timeout c) = some s') :
    ∃ request node, s.pc c = .waiting true request node ∧
      s.sem.queue.wakeableOf node = false ∧ s'.arrived = s.arrived ∧
      s'.pc = Function.update s.pc c (.returned false) ∧ s'.sem.permits = s.sem.permits := by
  cases transition_of_step stepEq with
  | timeout _ request node waits asleep => exact ⟨request, node, waits, asleep, rfl, rfl, rfl⟩

/-- The section of a woken call that finds enough permits. -/
theorem wake_spec (small : s.sem.permits.toNat ≤ intMax) {budget : Option Nat}
    {timed : Bool} {request : Request} {node : NodeId}
    (waits : s.pc c = .waiting timed request node) (requestSmall : request.toNat ≤ intMax)
    (enough : request.sle s.sem.permits = true) (stepEq : step s (.wake c budget) = some s') :
    s'.arrived = s.arrived ∧ s'.pc = Function.update s.pc c (.returned true) ∧
      s'.sem.permits.toNat = s.sem.permits.toNat - request.toNat := by
  cases transition_of_step stepEq with
  | wake _ _ _ asked _ sem result here _ ran =>
      obtain ⟨_, same, _⟩ := CallPc.waiting.inj (here.symm.trans waits)
      subst same
      have leaves := ran
      unfold QueuedSemaphore.woken at leaves
      dsimp only at leaves
      rw [if_pos enough] at leaves
      cases woken_effect small requestSmall ran with
      | debit fits permits => exact ⟨rfl, rfl, by rw [← toNat_sub fits, ← permits]; rfl⟩
      | keep _ notGranted runs _ =>
          -- behind the loop a call is granted, or the program ends
          exfalso
          unfold QueuedSemaphore.leaveLoop at leaves
          dsimp only at leaves
          split at leaves
          · exact runs (Prod.mk.inj (Option.some.inj leaves)).2.symm
          · exact notGranted (Prod.mk.inj (Option.some.inj leaves)).2.symm

namespace Suffices

/-- Every waiting call would find enough permits. -/
theorem fits (suffices_ : Suffices n s) (nonneg : 0 ≤ n.toInt) {timed : Bool} {request : Request}
    {node : NodeId} (waits : s.pc c = .waiting timed request node) :
    request.toNat ≤ intMax ∧ request.sle s.sem.permits = true := by
  have conserved := conserved_of_reachable nonneg
    (suffices_.reachable.mono fun _ _ => WithinInt.totals)
  have small := conserved.requests c timed request node waits
  refine ⟨small, (sle_iff small conserved.small).mpr (Nat.le_trans ?_ suffices_.enough)⟩
  have member : (s.pc c).asks ∈ s.arrived.map fun d => (s.pc d).asks :=
    List.mem_map_of_mem (arrived_of_waiting nonneg suffices_.reachable waits)
  rw [waits] at member
  exact List.single_le_sum (fun _ _ => Nat.zero_le _) _ member

/-- Neither step of the waiting calls loses the signal: a woken call is served,
and the head does not time out, since it has been signalled. -/
theorem keepsSignal (suffices_ : Suffices n s) (nonneg : 0 ≤ n.toInt) {a : Action}
    (serving : Serving s a) (stepEq : step s a = some s') : KeepsSignal s a := by
  cases a with
  | wake c budget =>
      exact fun timed request node waits => .inl (suffices_.fits nonneg waits).2
  | timeout c =>
      intro timed request node waits isHead
      obtain ⟨_, _, here, asleep, _⟩ := timeout_spec stepEq
      obtain ⟨rfl, rfl, rfl⟩ := CallPc.waiting.inj (here.symm.trans waits)
      have awake := suffices_.signalled c _ _ _ waits isHead (suffices_.fits nonneg waits).2
      rw [asleep] at awake
      cases awake
  | _ => cases serving

/-- What a step does to the waiting calls: one of them returns, and if it takes
permits, then those it asked for. -/
theorem serves (suffices_ : Suffices n s) (nonneg : 0 ≤ n.toInt) {a : Action}
    (serving : Serving s a) (stepEq : step s a = some s') :
    ∃ c timed request node result, s.pc c = .waiting timed request node ∧
      (timed = false → result = true) ∧ s'.arrived = s.arrived ∧
      s'.pc = Function.update s.pc c (.returned result) ∧
      s.sem.permits.toNat ≤ s'.sem.permits.toNat + request.toNat := by
  cases a with
  | wake c budget =>
      cases transition_of_step stepEq with
      | wake _ _ timed request node _ _ waits _ _ =>
          have conserved := conserved_of_reachable nonneg
            (suffices_.reachable.mono fun _ _ => WithinInt.totals)
          obtain ⟨small, enough⟩ := suffices_.fits nonneg waits
          obtain ⟨arrived, pc, permits⟩ := wake_spec conserved.small waits small enough stepEq
          exact ⟨c, timed, request, node, true, waits, fun _ => rfl, arrived, pc, by omega⟩
  | timeout c =>
      obtain ⟨request, node, waits, _, arrived, pc, permits⟩ := timeout_spec stepEq
      exact ⟨c, true, request, node, false, waits, nofun, arrived, pc,
        by rw [permits]; exact Nat.le_add_right _ _⟩
  | _ => cases serving

theorem step (suffices_ : Suffices n s) (nonneg : 0 ≤ n.toInt) {a : Action}
    (serving : Serving s a) (stepEq : Semaphore.step s a = some s') : Suffices n s' := by
  have allowed : WithinInt n s a := by
    cases a with
    | wake c budget => trivial
    | timeout c => trivial
    | _ => cases serving
  have keeps := suffices_.keepsSignal nonneg serving stepEq
  refine ⟨suffices_.reachable.step allowed stepEq,
    (headSignalled_step nonneg suffices_.reachable suffices_.signalled allowed stepEq).mpr keeps, ?_⟩
  obtain ⟨c, timed, request, node, result, waits, _, arrived, pc, permits⟩ :=
    suffices_.serves nonneg serving stepEq
  have fewer := sum_of_returned CallPc.asks
    (arrived_of_waiting nonneg suffices_.reachable waits) arrived pc rfl
  have enough := suffices_.enough
  rw [waits] at fewer
  change _ + request.toNat ≤ _ at fewer
  omega

/-- Each step ends the wait of one call. -/
theorem descends (nonneg : 0 ≤ n.toInt) :
    (machine n).Descends (Suffices n) Serving System.sleepers :=
  { keeps := fun suffices_ serving stepEq => suffices_.step nonneg serving stepEq
    falls := by
      intro s a s' suffices_ serving stepEq
      obtain ⟨c, timed, request, node, result, waits, _, arrived, pc, _⟩ :=
        suffices_.serves nonneg serving stepEq
      have fewer := sum_of_returned (fun pc => pc.isWaiting.toNat)
        (arrived_of_waiting nonneg suffices_.reachable waits) arrived pc rfl
      rw [waits] at fewer
      exact fewer }

/-- As long as a call waits, the head has been signalled and can go on. -/
theorem nobody_waits (suffices_ : Suffices n s) (nonneg : 0 ≤ n.toInt)
    (rests : (machine n).RestsUnder Serving s) (c : CallId) : (s.pc c).isWaiting = false := by
  by_contra still
  obtain ⟨timed, request, node, waits⟩ :
      ∃ timed request node, s.pc c = .waiting timed request node := by
    cases here : s.pc c <;> simp [here, CallPc.isWaiting] at still ⊢
  have totals := suffices_.reachable.mono fun _ _ => WithinInt.totals
  have conserved := conserved_of_reachable nonneg totals
  obtain ⟨line, record, lined, covered⟩ := line_of_reachable nonneg totals
  have inLine := (lined.waiting ⟨c, timed, request, node⟩).mp waits
  cases line with
  | nil => cases inLine
  | cons first rest =>
      have firstWaits := (lined.waiting first).mpr List.mem_cons_self
      have isHead := (lined.head_iff List.mem_cons_self).mpr ⟨rest, rfl⟩
      have enough := (suffices_.fits nonneg firstWaits).2
      have awake := suffices_.signalled first.call _ _ _ firstWaits isHead enough
      have stays := rests (.wake first.call none) trivial
      simp [machine, Semaphore.step, conserved.running, firstWaits, Waiter.pc, awake,
        QueuedSemaphore.woken, enough] at stays

end Suffices

/-- A release after which the permits suffice for all the waiting calls
together serves them, whatever signals were lost before: the calls take at most
one step each, and however these are scheduled, nobody waits at the end and
every call without a deadline has got its permits. -/
theorem release_serves_all (nonneg : 0 ≤ n.toInt)
    (reachable : (machine n).ReachableUnder (WithinInt n) s) {request : Request}
    (allowed : WithinInt n s (.release request))
    (enough : (s.release request).sum CallPc.asks ≤ (s.release request).sem.permits.toNat) :
    (machine n).Drained Serving (s.release request).sleepers
      (fun s => ∀ c, (s.pc c).isWaiting = false)
      (fun c s => ∃ request node, s.pc c = .waiting false request node)
      (fun c s => s.pc c = .returned true) (s.release request) := by
  have released : step s (.release request) = some (s.release request) := by
    have running := (conserved_of_reachable nonneg
      (reachable.mono fun _ _ => WithinInt.totals)).running
    simp [step, running]
  have start : Suffices n (s.release request) :=
    ⟨reachable.step allowed released, headSignalled_release nonneg reachable allowed, enough⟩
  refine (Suffices.descends nonneg).drained ?_ ?_ ?_ start
  · exact fun s suffices_ rests c => suffices_.nobody_waits nonneg rests c
  · rintro s a s' c suffices_ serving stepEq ⟨asked, node, waits⟩
    obtain ⟨d, timed, _, _, result, waitsD, untimed, _, pc, _⟩ :=
      suffices_.serves nonneg serving stepEq
    rw [pc]
    by_cases same : c = d
    · subst same
      obtain ⟨rfl, _, _⟩ := CallPc.waiting.inj (waits.symm.trans waitsD)
      right
      rw [Function.update_self, untimed rfl]
    · left
      rw [Function.update_of_ne same]
      exact ⟨asked, node, waits⟩
  · rintro s c _ nobody ⟨asked, node, waits⟩
    have stays := nobody c
    rw [waits] at stays
    cases stays

/-- After the run that loses a signal a release of two more permits serves both calls. -/
theorem release_serves_all_lost_signal :
    ∃ (s : System) (labels : List Action) (s' middle : System),
      (machine 0#32).ReachableUnder (WithinInt 0#32) s ∧ ¬ HeadSignalled s ∧
      (machine 0#32).RunUnder Serving (s.release 2) labels s' ∧ labels.length ≤ 2 ∧
      (∀ c, (s'.pc c).isWaiting = false) ∧
      (machine 0#32).LaterUnder Serving (s.release 2) middle ∧ middle.pc 1 = .returned true := by
  have run : ((machine 0#32).execUnder (WithinInt 0#32) (initial 0#32) lostSignalRun).map
      (fun s => ((s.pc 1, s.sem.queue.head, s.sem.permits, s.sem.queue.wakeableOf 254),
        s.released, (s.release 2).sum CallPc.asks, (s.release 2).sem.permits, (s.release 2).sleepers)) =
      some ((.waiting false 1 254, some 254, 1, false), 1, 3, 3, 2) := by
    decide +kernel
  obtain ⟨s, runs, observed⟩ := Option.map_eq_some_iff.mp run
  simp only [Prod.mk.injEq] at observed
  obtain ⟨⟨waits, isHead, permits, asleep⟩, released, asked, after, two⟩ := observed
  have reached := Machine.reachableUnder_of_execUnder runs
  have lost : ¬ HeadSignalled s := by
    intro signalled
    have awake := signalled 1 false 1 254 waits isHead (by rw [permits]; decide)
    rw [asleep] at awake
    cases awake
  have waits' : (s.release 2).pc 1 = .waiting false 1 254 := waits
  have allowed : WithinInt 0#32 s (.release 2) := by
    change _ + s.released + _ ≤ _
    rw [released]
    decide
  have served := release_serves_all (by decide) reached allowed (by rw [asked, after]; decide)
  obtain ⟨labels, s', onwards, rests⟩ := served.ends
  obtain ⟨_, _, middle, _, upTo, granted, _⟩ :=
    served.served labels s' onwards rests 1 ⟨1, 254, waits'⟩
  exact ⟨s, labels, s', middle, reached, lost, onwards, two ▸ served.bounded labels s' onwards,
    served.quiet labels s' onwards rests, upTo.later, granted⟩

end Conc11.Semaphore
