/-
Module: Conc11.SimpleSemaphore.Settling
Purpose: What becomes of the calls of `SimpleSemaphore` while nobody begins a new one.  They take boundedly many steps,
  and where they have nothing left to do, whoever sleeps asks for more than there is; if the permits suffice for
  all the waiting calls together, every wait without a deadline is granted.  A wake-up without a notification,
  spurious or by a deadline, may come at any time, and then costs one more step.
Trusted boundary: none
Main exports: CallPc.asks, System.asked, workload, Proceeding, Action.wakes, Begun, Settled, settled_of_rests,
  simple_semaphore_settles
-/
import Conc11.Library.Draining
import Conc11.Library.Progress
import Conc11.SimpleSemaphore.Adapter
import Conc11.SimpleSemaphore.Safety

namespace Conc11.SimpleSemaphore

open Library
open Semaphore (Request CallId intMax sle_iff toNat_sub)

namespace CallPc

def effort : CallPc → Nat
  | .waiting _ _ _ => 2
  | .notifying => 1
  | _ => 0

/-- A call that has been woken may find too few permits and sleep again. -/
def restless : CallPc → Nat
  | .waiting _ _ .notified | .waiting _ _ .awake => 1
  | _ => 0

/-- The permits that a waiting call asks for. -/
def asks : CallPc → Nat
  | .waiting _ request _ => request.toNat
  | _ => 0

theorem restless_le (pc : CallPc) : pc.restless ≤ 1 := by
  unfold restless
  split <;> omega

theorem restless_waiting {timed : Bool} {request : Request} {status : WaitStatus}
    (unblocked : status ≠ .blocked) : (CallPc.waiting timed request status).restless = 1 := by
  cases status <;> first | rfl | exact absurd rfl unblocked

theorem effort_notified (pc : CallPc) : pc.notified.effort = pc.effort := by
  cases pc with
  | waiting timed request status => cases status <;> rfl
  | _ => rfl

theorem asks_notified (pc : CallPc) : pc.notified.asks = pc.asks := by
  cases pc with
  | waiting timed request status => cases status <;> rfl
  | _ => rfl

end CallPc

def workload : Workload CallPc :=
  { effort := CallPc.effort
    restless := CallPc.restless
    most := 1
    restless_le := CallPc.restless_le }

/-- The steps of calls that have begun. -/
def Proceeding (_ : System) : Action → Prop
  | .notifyAll _ | .resume _ _ => True
  | _ => False

/-- A wake-up without a notification: spurious, or because a deadline has passed. -/
def Action.wakes : Action → Bool
  | .unblock _ => true
  | .acquire _ _ | .tryAcquire _ _ | .tryAcquireFor _ _ | .tryAcquireUntil _ _ | .release _ _
  | .notifyAll _ | .resume _ _ => false

/-- What the waiting calls with numbers below `m` ask for together. -/
def System.asked (m : Nat) (s : System) : Nat := ((List.range m).map fun c => (s.pc c).asks).sum

section

variable {n : BitVec 32} {m : Nat} {s s' : System} {a : Action}

/-- What such a step can be: the end of a release, or a look of a woken call, which
gives up by its deadline, sleeps again or takes its permits. -/
inductive Proceeds (s : System) : CallId → System → Prop where
  | notifyAll (c : CallId) (sending : s.pc c = .notifying) : Proceeds s c (notifyAll s c)
  | expire (c : CallId) (request : Request) (status : WaitStatus)
      (waiting : s.pc c = .waiting true request status) :
      Proceeds s c (s.goto c (.returned false))
  | sleep (c : CallId) (timed : Bool) (request : Request) (status : WaitStatus)
      (waiting : s.pc c = .waiting timed request status) (unblocked : status ≠ .blocked)
      (short : s.count.toNat < request.toNat) :
      Proceeds s c (s.goto c (.waiting timed request .blocked))
  | grant (c : CallId) (timed : Bool) (request : Request) (status : WaitStatus)
      (waiting : s.pc c = .waiting timed request status)
      (enough : request.toNat ≤ s.count.toNat) : Proceeds s c (s.grant c request)

theorem proceeds_of_step (safe : Safe n s) (proceeding : Proceeding s a)
    (stepEq : step s a = some s') : Proceeds s a.call s' := by
  cases transition_of_step stepEq with
  | notifyAll c sending => exact .notifyAll c sending
  | resume c timed request status expired waiting unblocked deadline =>
      have fits : s.count.slt request = false ↔ request.toNat ≤ s.count.toNat := by
        rw [← sle_iff (safe.requests c timed request status waiting) safe.small,
          BitVec.sle_eq_not_slt, Bool.not_eq_true']
      cases expired with
      | true =>
          obtain rfl := deadline rfl
          exact .expire c request status waiting
      | false =>
          change Proceeds s c (loopTest s c timed request)
          unfold loopTest
          split
          next short =>
            refine .sleep c timed request status waiting unblocked (Nat.lt_of_not_le fun enough => ?_)
            rw [fits.mpr enough] at short
            cases short
          next enough =>
            exact .grant c timed request status waiting (fits.mp (Bool.eq_false_iff.mpr enough))
  | _ => cases proceeding

/-- Every step of a call gets it on, or puts it back to sleep. -/
theorem eases_of_proceeds {c : CallId} (moved : Proceeds s c s') :
    workload.Eases s.pc s'.pc c := by
  have works : ∀ now : CallPc, now.effort < (s.pc c).effort →
      workload.Eases s.pc (Function.update s.pc c now) c := by
    refine fun now less => .works ?_ fun d other => ?_
    · rw [Function.update_self]
      exact less
    · rw [Function.update_of_ne other]
  cases moved with
  | notifyAll sending =>
      refine .works ?_ fun d other => ?_
      · change (Function.update (fun d => (s.pc d).notified) c _ c).effort < (s.pc c).effort
        rw [Function.update_self, sending]
        decide
      · change (Function.update (fun d => (s.pc d).notified) c _ d).effort ≤ (s.pc d).effort
        rw [Function.update_of_ne other]
        exact (s.pc d).effort_notified.le
  | expire request status waiting =>
      apply works
      rw [waiting]
      exact Nat.zero_lt_two
  | sleep timed request status waiting unblocked _ =>
      refine .settles ?_ ?_ fun d other => Function.update_of_ne other _ _
      · change (Function.update s.pc c _ c).effort ≤ (s.pc c).effort
        rw [Function.update_self, waiting]
        rfl
      · change (Function.update s.pc c _ c).restless < (s.pc c).restless
        rw [Function.update_self, waiting, CallPc.restless_waiting unblocked]
        exact Nat.zero_lt_one
  | grant timed request status waiting _ =>
      apply works
      rw [waiting]
      exact Nat.zero_lt_two

/-! ## Runs -/

/-- The calls with numbers below `m` are all that have begun. -/
structure Begun (n : BitVec 32) (m : Nat) (s : System) : Prop where
  reachable : (machine n).ReachableUnder (WithinInt n) s
  below : ∀ c, m ≤ c → s.pc c = .idle

/-- A call that the step is not for stays outside. -/
theorem idle_of_step {c : CallId} (stepEq : step s a = some s') (other : c ≠ a.call)
    (idle : s.pc c = .idle) : s'.pc c = .idle := by
  rcases pc_of_other (transition_of_step stepEq) other with same | notified
  · rw [same, idle]
  · rw [notified, idle]
    rfl

/-- Calls that no step was for have not begun. -/
theorem idle_of_reachable {ok : System → Action → Prop}
    (reachable : (machine n).ReachableUnder (fun s a => ok s a ∧ a.call < m) s) :
    ∀ c, m ≤ c → s.pc c = .idle := by
  refine reachable.invariant (motive := fun s => ∀ c, m ≤ c → s.pc c = .idle) (fun _ _ => rfl) ?_
  intro s a s' _ idle allowed stepEq c large
  exact idle_of_step stepEq (fun same => Nat.not_lt.mpr large (same ▸ allowed.2)) (idle c large)

/-- A run is for finitely many calls. -/
theorem exists_begun (reachable : (machine n).ReachableUnder (WithinInt n) s) :
    ∃ m, ∀ c, m ≤ c → s.pc c = .idle := by
  refine reachable.invariant (motive := fun s => ∃ m, ∀ c, m ≤ c → s.pc c = .idle)
    ⟨0, fun _ _ => rfl⟩ ?_
  rintro s a s' _ ⟨m, idle⟩ _ stepEq
  refine ⟨max m (a.call + 1), fun c large => ?_⟩
  obtain ⟨old, new⟩ := Nat.max_le.mp large
  exact idle_of_step stepEq (Nat.ne_of_gt new) (idle c old)

namespace Begun

theorem safe (begun : Begun n m s) (nonneg : 0 ≤ n.toInt) : Safe n s :=
  safe_of_reachable nonneg begun.reachable

/-- Only a call that has begun takes steps. -/
theorem mem_range (begun : Begun n m s) {c : CallId} (notIdle : s.pc c ≠ .idle) :
    c ∈ List.range m := by
  rw [List.mem_range]
  by_contra large
  exact notIdle (begun.below c (Nat.le_of_not_lt large))

theorem not_idle {c : CallId} (moved : Proceeds s c s') : s.pc c ≠ .idle := by
  cases moved with
  | notifyAll here | expire _ _ here | sleep _ _ _ here _ _ | grant _ _ _ here _ =>
      rw [here]
      nofun

theorem step (begun : Begun n m s) (nonneg : 0 ≤ n.toInt) (proceeding : Proceeding s a)
    (stepEq : SimpleSemaphore.step s a = some s') : Begun n m s' := by
  have allowed : WithinInt n s a := by
    cases a with
    | notifyAll c => trivial
    | resume c expired => trivial
    | _ => cases proceeding
  refine ⟨begun.reachable.step allowed stepEq, fun d large => ?_⟩
  have moved := proceeds_of_step (begun.safe nonneg) proceeding stepEq
  have other : d ≠ a.call := fun own => not_idle moved (begun.below a.call (own ▸ large))
  rcases pc_of_other (transition_of_step stepEq) other with same | notified
  · rw [same, begun.below d large]
  · rw [notified, begun.below d large]
    rfl

/-- A waiting call asks for no more than all of them together. -/
theorem asks_le (begun : Begun n m s) {c : CallId} {timed : Bool} {request : Request}
    {status : WaitStatus} (waiting : s.pc c = .waiting timed request status) :
    request.toNat ≤ s.asked m := by
  have asks : (s.pc c).asks ∈ (List.range m).map fun d => (s.pc d).asks :=
    List.mem_map_of_mem (begun.mem_range (by rw [waiting]; nofun))
  rw [waiting] at asks
  exact List.single_le_sum (fun _ _ => Nat.zero_le _) _ asks

/-- What suffices for all the waiting calls still suffices for those that are left. -/
theorem enough (begun : Begun n m s) {c : CallId} (moved : Proceeds s c s')
    (enough : s.asked m ≤ s.count.toNat) : s'.asked m ≤ s'.count.toNat := by
  have member := begun.mem_range (not_idle moved)
  have leaves : ∀ now : CallPc, now.asks = 0 →
      ((List.range m).map fun d => (Function.update s.pc c now d).asks).sum + (s.pc c).asks ≤
        s.asked m := fun now light => sum_map_update_le s.pc member light
  cases moved with
  | notifyAll sending =>
      refine Nat.le_trans (List.sum_le_sum fun d _ => ?_) enough
      change (Function.update (fun d => (s.pc d).notified) c _ d).asks ≤ _
      by_cases own : d = c
      · rw [own, Function.update_self]
        exact Nat.zero_le _
      · rw [Function.update_of_ne own]
        exact (s.pc d).asks_notified.le
  | expire request status waiting =>
      exact Nat.le_trans (Nat.le_of_add_right_le (leaves (.returned false) rfl)) enough
  | sleep timed request status waiting _ short =>
      -- the call would have found enough
      exact absurd (Nat.le_trans (begun.asks_le waiting) enough) (Nat.not_le.mpr short)
  | grant timed request status waiting fits =>
      have left := leaves (.returned true) rfl
      rw [waiting] at left
      change _ ≤ (s.count - request).toNat
      rw [toNat_sub fits]
      change _ + request.toNat ≤ _ at left
      exact Nat.le_sub_of_add_le (Nat.le_trans left enough)

theorem wake (begun : Begun n m s) (wakes : a.wakes = true)
    (stepEq : SimpleSemaphore.step s a = some s') : Begun n m s' := by
  cases transition_of_step stepEq with
  | unblock c timed request waiting =>
      refine ⟨begun.reachable.step (a := .unblock c) trivial stepEq, fun d large => ?_⟩
      have other : d ≠ c := by
        rintro rfl
        rw [begun.below d large] at waiting
        cases waiting
      exact (Function.update_of_ne other _ _).trans (begun.below d large)
  | _ => cases wakes

theorem withstands : (machine n).Withstands (Begun n m) Action.wakes
    (fun s => workload.stepsLeft (Finset.range m) s.pc) 1 :=
  { keeps := fun begun wakes stepEq => begun.wake wakes stepEq
    rises := by
      intro s a s' _ wakes stepEq
      cases transition_of_step stepEq with
      | unblock c timed request waiting =>
          refine Workload.stepsLeft_woken (t := c) ?_ fun d other => Function.update_of_ne other _ _
          change (Function.update s.pc c (.waiting timed request .awake) c).effort ≤ (s.pc c).effort
          rw [Function.update_self, waiting]
          exact Nat.le_refl _
      | _ => cases wakes }

theorem descends (nonneg : 0 ≤ n.toInt) : (machine n).Descends (Begun n m) Proceeding
    fun s => workload.stepsLeft (Finset.range m) s.pc :=
  { keeps := fun begun proceeding stepEq => begun.step nonneg proceeding stepEq
    falls := by
      intro s a s' begun proceeding stepEq
      have moved := proceeds_of_step (begun.safe nonneg) proceeding stepEq
      refine (eases_of_proceeds moved).stepsLeft_lt (Finset.mem_range.mpr ?_)
      exact List.mem_range.mp (begun.mem_range (not_idle moved)) }

end Begun

/-- No notification is on its way, and whoever still waits is asleep and asks for more
than there is. -/
def Settled (s : System) : Prop :=
  ∀ c, s.pc c ≠ .notifying ∧ ∀ timed request status, s.pc c = .waiting timed request status →
    status = .blocked ∧ s.count.toNat < request.toNat

theorem settled_of_rests (safe : Safe n s) (rests : (machine n).RestsUnder Proceeding s) :
    Settled s := by
  have quiet : ∀ c, s.pc c ≠ .notifying := by
    intro c sending
    have stays := rests (.notifyAll c) trivial
    simp [machine, step, sending] at stays
  refine fun c => ⟨quiet c, fun timed request status waiting => ?_⟩
  obtain rfl : status = .blocked := by
    by_contra unblocked
    have stays := rests (.resume c false) trivial
    simp [machine, step, waiting, unblocked] at stays
  refine ⟨rfl, Nat.lt_of_not_le fun fits => ?_⟩
  have requestSmall := safe.requests c timed request .blocked waiting
  obtain ⟨d, sending⟩ := safe.signalled c (by rw [waiting]; rfl) (by
    rw [waiting]
    exact (sle_iff requestSmall safe.small).mpr fits)
  refine quiet d ?_
  cases here : s.pc d <;> rw [here] at sending <;> first | rfl | cases sending

/-- A call that is woken without a notification waits on for the same permits. -/
theorem waiting_of_wakes {c : CallId} {request : Request} {status : WaitStatus}
    (wakes : a.wakes = true) (stepEq : step s a = some s')
    (waiting : s.pc c = .waiting false request status) :
    (∃ request status, s'.pc c = .waiting false request status) ∧ s'.count = s.count ∧
      s'.asked m = s.asked m := by
  cases transition_of_step stepEq with
  | unblock d timed asked here =>
      refine ⟨?_, rfl, congrArg List.sum (List.map_congr_left fun e _ => ?_)⟩
      · by_cases own : c = d
        · subst own
          obtain ⟨rfl, rfl, rfl⟩ := CallPc.waiting.inj (waiting.symm.trans here)
          exact ⟨request, .awake, Function.update_self ..⟩
        · exact ⟨request, status, (Function.update_of_ne own _ _).trans waiting⟩
      · change (Function.update s.pc d (.waiting timed asked .awake) e).asks = (s.pc e).asks
        by_cases own : e = d
        · rw [own, Function.update_self, here]
          rfl
        · rw [Function.update_of_ne own]
  | _ => cases wakes

/-- While nobody begins a call, the calls of the semaphore, finitely many at any
time, take boundedly many steps, and one more for each wake-up without a
notification, and can come to rest.  There whoever waits asks for more than there is; and if the permits suffice for all the waiting calls
together, every one of them without a deadline has been granted. -/
theorem simple_semaphore_settles (nonneg : 0 ≤ n.toInt)
    (reachable : (machine n).ReachableUnder (WithinInt n) s) :
    (∃ m, ∀ c, m ≤ c → s.pc c = .idle) ∧
    ∀ m, (∀ c, m ≤ c → s.pc c = .idle) →
      (machine n).DrainedDespite Proceeding Action.wakes 1
        (workload.stepsLeft (Finset.range m) s.pc) Settled
        (fun c s => (∃ request status, s.pc c = .waiting false request status) ∧
          s.asked m ≤ s.count.toNat)
        (fun c s => s.pc c = .returned true) s := by
  refine ⟨exists_begun reachable, fun m below => ?_⟩
  refine (Begun.descends nonneg).drainedDespite Begun.withstands ?_ ?_ ?_ ⟨reachable, below⟩
  · exact fun s begun rests => settled_of_rests (begun.safe nonneg) rests
  · rintro s a s' c begun (proceeding | wakes) stepEq ⟨⟨request, status, waiting⟩, enough⟩
    case inr =>
      obtain ⟨waits, count, asked⟩ := waiting_of_wakes (m := m) wakes stepEq waiting
      exact .inl ⟨waits, by rw [count, asked]; exact enough⟩
    have moved := proceeds_of_step (begun.safe nonneg) proceeding stepEq
    have enough' := begun.enough moved enough
    by_cases own : c = a.call
    · rw [← own] at moved
      right
      cases moved with
      | notifyAll sending =>
          rw [waiting] at sending
          cases sending
      | expire _ _ here =>
          rw [waiting] at here
          cases here
      | sleep timed asked _ here _ short =>
          obtain ⟨_, rfl, _⟩ := CallPc.waiting.inj (waiting.symm.trans here)
          exact absurd (Nat.le_trans (begun.asks_le waiting) enough) (Nat.not_le.mpr short)
      | grant _ _ _ _ _ => exact Function.update_self ..
    · left
      refine ⟨?_, enough'⟩
      rcases pc_of_other (transition_of_step stepEq) own with same | notified
      · exact ⟨request, status, same.trans waiting⟩
      · rw [waiting] at notified
        cases status
        · exact ⟨request, .notified, notified⟩
        · exact ⟨request, .notified, notified⟩
        · exact ⟨request, .awake, notified⟩
  · rintro s c begun settled ⟨⟨request, status, waiting⟩, enough⟩
    have short := ((settled c).2 false request status waiting).2
    exact absurd (Nat.le_trans (begun.asks_le waiting) enough) (Nat.not_le.mpr short)

end

/-- Two calls sleep, and a release that suffices for both has not notified yet when the
first one wakes up by itself: both are granted. -/
theorem simple_semaphore_settles_release_under_way :
    ∃ (s : System) (labels : List Action) (s' middle : System),
      (machine 0#32).ReachableUnder (WithinInt 0#32) s ∧
      s.pc 0 = .waiting false 2 .blocked ∧ s.pc 1 = .waiting false 1 .blocked ∧
      (machine 0#32).RunUnder (Machine.AllowedOr Proceeding Action.wakes) s
        (.unblock 0 :: labels) s' ∧ Settled s' ∧
      (machine 0#32).Reachable middle ∧ middle.pc 0 = .returned true := by
  have run : ((machine 0#32).execUnder (fun s a => WithinInt 0#32 s a ∧ a.call < 3)
      (initial 0#32) [.acquire 0 2, .acquire 1 1, .release 2 3]).map
        (fun s => (s.pc 0, s.pc 1, s.asked 3, s.count)) =
      some (.waiting false 2 .blocked, .waiting false 1 .blocked, 3, 3) := by
    decide +kernel
  obtain ⟨s, runs, observed⟩ := Option.map_eq_some_iff.mp run
  simp only [Prod.mk.injEq] at observed
  obtain ⟨first, second, asked, count⟩ := observed
  have bounded := Machine.reachableUnder_of_execUnder runs
  have reached := bounded.mono fun _ _ both => both.1
  obtain ⟨_, settles⟩ := simple_semaphore_settles (by decide) reached
  have settled := settles 3 (idle_of_reachable bounded)
  have wakesUp : (machine 0#32).step s (.unblock 0) =
      some (s.goto 0 (.waiting false 2 .awake)) := by
    simp [machine, step, first]
  obtain ⟨labels, s', onwards, rests⟩ := settled.ends [.unblock 0] _ ⟨_, .inr rfl, wakesUp, rfl⟩
  have whole : (machine 0#32).RunUnder (Machine.AllowedOr Proceeding Action.wakes) s
      (.unblock 0 :: labels) s' := ⟨_, .inr rfl, wakesUp, onwards.mono fun _ _ => .inl⟩
  obtain ⟨_, _, middle, _, upTo, granted, _⟩ := settled.served _ s' whole rests 0
    ⟨⟨2, .blocked, first⟩, by rw [asked, count]; decide⟩
  exact ⟨s, labels, s', middle, reached, first, second, whole, settled.quiet _ s' whole rests,
    reached.reachable.later (upTo.later.mono fun _ _ _ => trivial), granted⟩

end Conc11.SimpleSemaphore
