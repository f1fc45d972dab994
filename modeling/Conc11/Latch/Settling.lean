/-
Module: Conc11.Latch.Settling
Purpose: What becomes of the calls of a latch while nobody begins a new one.  They take boundedly many steps, and
  where they have nothing left to do they are over, but for waits behind a latch that is still closed.  If the
  decrements under way suffice to open the latch, every wait returns.  A spurious wake-up may come at any
  time; it sends a wait round its loop once more.
Trusted boundary: none
Main exports: CallPc.insideWait, Action.wakes, System.loaded, workload, Room, Settled, settled_of_rests,
  latch_settles
-/
import Conc11.Latch.Opening
import Conc11.Library.Draining
import Conc11.Library.Progress

namespace Conc11.Latch

open Library

namespace CallPc

/-- What is left of a call; a wait that goes round its loop is no further. -/
def effort : CallPc → Nat
  | .loaded => 9
  | .crossing _ => 8
  | .syncing _ => 7
  | .notifying _ => 6
  | .entering => 5
  | .locking => 4
  | .testing => 3
  | .evaluating | .blocking | .waiting _ => 2
  | .leaving => 1
  | .idle | .counted | .returned => 0

/-- How far a call in that loop is from sleep. -/
def restless : CallPc → Nat
  | .waiting .notified | .waiting .awake => 3
  | .evaluating => 2
  | .blocking => 1
  | _ => 0

/-- A call of `wait` or `count_down_and_wait` is under way. -/
def insideWait : CallPc → Bool
  | .crossing thenWait | .syncing thenWait | .notifying thenWait => thenWait
  | .idle | .counted | .returned => false
  | _ => true

/-- The call has read a positive value and has yet to count down. -/
def isLoaded : CallPc → Bool
  | .loaded => true
  | _ => false

theorem restless_le (pc : CallPc) : pc.restless ≤ 3 := by
  unfold restless
  split <;> omega

theorem restless_waiting {status : WaitStatus} (unblocked : status ≠ .blocked) :
    (CallPc.waiting status).restless = 3 := by
  cases status <;> first | rfl | exact absurd rfl unblocked

theorem effort_afterCountDown (thenWait : Bool) : (afterCountDown thenWait).effort < 6 := by
  cases thenWait <;> decide

theorem insideWait_afterCountDown (thenWait : Bool) :
    (afterCountDown thenWait).insideWait = thenWait := by
  cases thenWait <;> rfl

theorem isLoaded_afterCountDown (thenWait : Bool) :
    (afterCountDown thenWait).isLoaded = false := by
  cases thenWait <;> rfl

end CallPc

def workload : Workload CallPc :=
  { effort := CallPc.effort
    restless := CallPc.restless
    most := 3
    restless_le := CallPc.restless_le }

/-- The call that takes the step. -/
def Action.call : Action → CallId
  | .countDown c _ | .wait c | .countDownAndWait c | .proceed c | .unblock c => c

/-- A further step of a call that has begun. -/
def Proceeding (_ : System) (a : Action) : Prop := ∃ c, a = .proceed c

/-- A spurious wake-up. -/
def Action.wakes : Action → Bool
  | .unblock _ => true
  | .countDown _ _ | .wait _ | .countDownAndWait _ | .proceed _ => false

/-- The number of decrements that `count_down_and_wait` calls are about to make. -/
def System.loaded (n : Nat) (s : System) : Nat :=
  (List.range n).countP fun c => (s.pc c).isLoaded

section

variable {s s' : System} {c : CallId}

theorem eases_update {now : CallPc} (less : now.effort < (s.pc c).effort) :
    workload.Eases s.pc (Function.update s.pc c now) c := by
  refine .works ?_ fun d other => ?_
  · rw [Function.update_self]
    exact less
  · rw [Function.update_of_ne other]

theorem eases_update_settles {now : CallPc} (same : now.effort = (s.pc c).effort)
    (calmer : now.restless < (s.pc c).restless) :
    workload.Eases s.pc (Function.update s.pc c now) c := by
  refine .settles ?_ ?_ fun d other => Function.update_of_ne other _ _
  · rw [Function.update_self]
    exact same.le
  · rw [Function.update_self]
    exact calmer

/-- Every step of a call gets it on, or takes it closer to sleep. -/
theorem eases_of_proceed (stepEq : step s (.proceed c) = some s') :
    workload.Eases s.pc s'.pc c := by
  cases transition_of_step stepEq with
  | countOne _ here =>
      apply eases_update
      rw [here]
      split <;> decide
  | sync _ thenWait here _ | unsync _ thenWait here =>
      apply eases_update
      rw [here]
      exact Nat.lt_succ_self _
  | notifyAll _ thenWait here =>
      refine .works ?_ fun d other => ?_
      · change (Function.update (fun d => (s.pc d).notified) c _ c).effort < (s.pc c).effort
        rw [Function.update_self, here]
        exact CallPc.effort_afterCountDown thenWait
      · change (Function.update (fun d => (s.pc d).notified) c _ d).effort ≤ (s.pc d).effort
        rw [Function.update_of_ne other, CallPc.notified_same CallPc.effort rfl]
  | enter _ here | test _ here =>
      apply eases_update
      rw [here]
      split <;> decide
  | lock _ here _ | leave _ here =>
      apply eases_update
      rw [here]
      decide
  | evaluate _ here =>
      unfold load
      cases isReady s.value with
      | true =>
          apply eases_update
          rw [here]
          decide
      | false =>
          apply eases_update_settles <;> rw [here]
          · rfl
          · decide
  | block _ here =>
      apply eases_update_settles <;> rw [here]
      · rfl
      · decide
  | relock _ status here unblocked _ =>
      apply eases_update_settles <;> rw [here]
      · rfl
      · rw [CallPc.restless_waiting unblocked]
        decide

/-- A step of one call moves no other, but may notify it. -/
theorem pc_of_ne_call {a : Action} {d : CallId} (stepEq : step s a = some s') (other : d ≠ a.call) :
    s'.pc d = s.pc d ∨ s'.pc d = (s.pc d).notified := by
  cases transition_of_step stepEq with
  | notifyAll c thenWait _ =>
      right
      have apart : d ≠ c := other
      change Function.update (fun d => (s.pc d).notified) c (.afterCountDown thenWait) d = _
      rw [Function.update_of_ne apart]
  | _ => exact .inl (Function.update_of_ne other _ _)

theorem not_idle_of_proceed (stepEq : step s (.proceed c) = some s') : s.pc c ≠ .idle := by
  intro idle
  simp [step, proceed, idle] at stepEq

/-- A wait goes on, or it is over. -/
theorem insideWait_of_proceed {d : CallId} (stepEq : step s (.proceed c) = some s')
    (inside : (s.pc d).insideWait = true) :
    (s'.pc d).insideWait = true ∨ s'.pc d = .returned := by
  by_cases own : d = c
  · subst own
    have moves : ∀ {now : CallPc}, now.insideWait = true ∨ now = .returned →
        (Function.update s.pc d now d).insideWait = true ∨
          Function.update s.pc d now d = .returned := by
      intro now next
      rwa [Function.update_self]
    cases transition_of_step stepEq with
    | countOne _ _ =>
        apply moves
        split <;> exact .inl rfl
    | sync _ thenWait here _ | unsync _ thenWait here =>
        rw [here] at inside
        exact moves (.inl inside)
    | notifyAll _ thenWait here =>
        rw [here] at inside
        left
        change (Function.update (fun d => (s.pc d).notified) d _ d).insideWait = true
        rw [Function.update_self, CallPc.insideWait_afterCountDown]
        exact inside
    | enter _ _ | test _ _ | evaluate _ _ =>
        apply moves
        split
        · first | exact .inr rfl | exact .inl rfl
        · exact .inl rfl
    | lock _ _ _ | block _ _ | relock _ _ _ _ _ => exact moves (.inl rfl)
    | leave _ _ => exact moves (.inr rfl)
  · left
    rcases pc_of_ne_call stepEq own with same | notified
    · rw [same, inside]
    · rw [notified, CallPc.notified_same CallPc.insideWait rfl, inside]

variable {n : Nat}

/-- Only a call that has begun takes steps. -/
theorem mem_range_of_proceed (below : ∀ d, n ≤ d → s.pc d = .idle)
    (stepEq : step s (.proceed c) = some s') : c ∈ List.range n := by
  rw [List.mem_range]
  by_contra large
  exact not_idle_of_proceed stepEq (below c (Nat.le_of_not_lt large))

theorem loaded_update_same {now : CallPc} (same : now.isLoaded = (s.pc c).isLoaded) :
    (List.range n).countP (fun d => (Function.update s.pc c now d).isLoaded) = s.loaded n := by
  refine List.countP_congr fun d _ => ?_
  by_cases own : d = c
  · rw [own, Function.update_self, same]
  · rw [Function.update_of_ne own]

/-- Only the decrement of a `count_down_and_wait` changes the value or the
number of those to come, and then both. -/
theorem loaded_of_proceed (below : ∀ d, n ≤ d → s.pc d = .idle)
    (stepEq : step s (.proceed c) = some s') :
    (s'.value = s.value ∧ s'.total = s.total ∧ s'.loaded n = s.loaded n) ∨
      (s.pc c = .loaded ∧ s'.total = s.total + 1 ∧ s'.loaded n + 1 = s.loaded n) := by
  have unchanged : ∀ {now : CallPc}, now.isLoaded = false → (s.pc c).isLoaded = false →
      (List.range n).countP (fun d => (Function.update s.pc c now d).isLoaded) = s.loaded n :=
    fun after before => loaded_update_same (after.trans before.symm)
  cases transition_of_step stepEq with
  | countOne _ here =>
      refine .inr ⟨here, ?_, ?_⟩
      · simp only [System.total, fetchSub, List.map_append, List.sum_append]
        rfl
      · have now : (if crosses s.value 1#64 then CallPc.crossing true
            else .afterCountDown true).isLoaded = false := by
          split <;> rfl
        have balance := countP_update (p := CallPc.isLoaded) s.pc
          (if crosses s.value 1#64 then .crossing true else .afterCountDown true)
          List.nodup_range (mem_range_of_proceed below stepEq)
        rw [now, here] at balance
        exact balance
  | notifyAll _ thenWait here =>
      refine .inl ⟨rfl, rfl, List.countP_congr fun d _ => ?_⟩
      by_cases own : d = c
      · change (Function.update (fun d => (s.pc d).notified) c _ d).isLoaded = true ↔ _
        rw [own, Function.update_self, CallPc.isLoaded_afterCountDown, here]
        rfl
      · change (Function.update (fun d => (s.pc d).notified) c _ d).isLoaded = true ↔ _
        rw [Function.update_of_ne own, CallPc.notified_same CallPc.isLoaded rfl]
  | enter _ here | test _ here | evaluate _ here =>
      refine .inl ⟨rfl, rfl, unchanged ?_ (by rw [here]; rfl)⟩
      split <;> rfl
  | sync _ _ here _ | unsync _ _ here | lock _ here _ | block _ here | relock _ _ here _ _
  | leave _ here => exact .inl ⟨rfl, rfl, unchanged rfl (by rw [here]; rfl)⟩

/-! ## Runs -/

/-- A call that the step is not for stays outside. -/
theorem idle_of_step {a : Action} (stepEq : step s a = some s') (other : c ≠ a.call)
    (idle : s.pc c = .idle) : s'.pc c = .idle := by
  rcases pc_of_ne_call stepEq other with same | notified
  · rw [same, idle]
  · rw [notified, idle]
    rfl

/-- Calls that no step was for have not begun. -/
theorem idle_of_reachable {ok : System → Action → Prop} {value : PtrDiff}
    (reachable : (machine value).ReachableUnder (fun s a => ok s a ∧ a.call < n) s) :
    ∀ c, n ≤ c → s.pc c = .idle := by
  refine reachable.invariant (motive := fun s => ∀ c, n ≤ c → s.pc c = .idle) (fun _ _ => rfl) ?_
  intro s a s' _ idle allowed stepEq c large
  exact idle_of_step stepEq (fun same => Nat.not_lt.mpr large (same ▸ allowed.2)) (idle c large)

/-- A run is for finitely many calls. -/
theorem exists_begun {ok : System → Action → Prop} {value : PtrDiff}
    (reachable : (machine value).ReachableUnder ok s) : ∃ n, ∀ c, n ≤ c → s.pc c = .idle := by
  refine reachable.invariant (motive := fun s => ∃ n, ∀ c, n ≤ c → s.pc c = .idle)
    ⟨0, fun _ _ => rfl⟩ ?_
  rintro s a s' _ ⟨n, idle⟩ _ stepEq
  refine ⟨max n (a.call + 1), fun c large => ?_⟩
  obtain ⟨old, new⟩ := Nat.max_le.mp large
  exact idle_of_step stepEq (Nat.ne_of_gt new) (idle c old)

/-- The calls with numbers below `n` are all that have begun, and the
decrements to come do not underflow. -/
structure Room (value : PtrDiff) (n : Nat) (s : System) : Prop where
  reachable : (machine value).ReachableUnder (NoUnderflow value) s
  below : ∀ c, n ≤ c → s.pc c = .idle
  room : ptrDiffMin ≤ s.value.toInt - s.loaded n

variable {value : PtrDiff}

namespace Room

/-- The decrement of a call that is about to count down fits. -/
theorem allowed (room : Room value n s) (stepEq : step s (.proceed c) = some s') :
    NoUnderflow value s (.proceed c) := by
  intro here
  have balance := (opens_of_reachable room.reachable).exact
  have fits := room.room
  have counted : 0 < s.loaded n := List.countP_pos_iff.mpr
    ⟨c, mem_range_of_proceed room.below stepEq, by rw [here]; rfl⟩
  omega

/-- What the decrements to come leave of the value is settled already. -/
theorem settled (room : Room value n s) (stepEq : step s (.proceed c) = some s') :
    s'.value.toInt - s'.loaded n = s.value.toInt - s.loaded n := by
  have before := (opens_of_reachable room.reachable).exact
  have after := (opens_of_reachable (room.reachable.step (room.allowed stepEq) stepEq)).exact
  rcases loaded_of_proceed room.below stepEq with ⟨value, total, loaded⟩ | ⟨_, total, loaded⟩
  · rw [value, loaded]
  · omega

theorem step (room : Room value n s) (stepEq : step s (.proceed c) = some s') :
    Room value n s' := by
  refine ⟨room.reachable.step (room.allowed stepEq) stepEq, fun d large => ?_, ?_⟩
  · have other : d ≠ c := fun own => not_idle_of_proceed stepEq (room.below c (own ▸ large))
    rcases pc_of_ne_call stepEq other with same | notified
    · rw [same, room.below d large]
    · rw [notified, room.below d large]
      rfl
  · rw [room.settled stepEq]
    exact room.room

theorem wake {a : Action} (room : Room value n s) (wakes : a.wakes = true)
    (stepEq : Latch.step s a = some s') : Room value n s' := by
  cases transition_of_step stepEq with
  | unblock c here =>
      refine ⟨room.reachable.step (a := .unblock c) trivial stepEq, fun d large => ?_, ?_⟩
      · have other : d ≠ c := by
          rintro rfl
          rw [room.below d large] at here
          cases here
        exact (Function.update_of_ne other _ _).trans (room.below d large)
      · have loaded : (s.goto c (.waiting .awake)).loaded n = s.loaded n :=
          loaded_update_same (by rw [here]; rfl)
        rw [loaded]
        exact room.room
  | _ => cases wakes

theorem withstands : (machine value).Withstands (Room value n) Action.wakes
    (fun s => workload.stepsLeft (Finset.range n) s.pc) 3 :=
  { keeps := fun room wakes stepEq => room.wake wakes stepEq
    rises := by
      intro s a s' _ wakes stepEq
      cases transition_of_step stepEq with
      | unblock c here =>
          refine Workload.stepsLeft_woken (t := c) ?_ fun d other => Function.update_of_ne other _ _
          change (Function.update s.pc c (.waiting .awake) c).effort ≤ (s.pc c).effort
          rw [Function.update_self, here]
          exact Nat.le_refl _
      | _ => cases wakes }

theorem descends : (machine value).Descends (Room value n) Proceeding
    fun s => workload.stepsLeft (Finset.range n) s.pc :=
  { keeps := by
      rintro s _ s' room ⟨c, rfl⟩ stepEq
      exact room.step stepEq
    falls := by
      rintro s _ s' room ⟨c, rfl⟩ stepEq
      refine (eases_of_proceed stepEq).stepsLeft_lt (Finset.mem_range.mpr ?_)
      exact List.mem_range.mp (mem_range_of_proceed room.below stepEq) }

end Room

/-- Every call is over or has not begun, but for waits asleep behind a closed latch. -/
def Settled (s : System) : Prop :=
  ∀ c, s.pc c = .idle ∨ s.pc c = .counted ∨ s.pc c = .returned ∨
    s.pc c = .waiting .blocked ∧ 0 < s.value.toInt

/-- Nothing but a wait holds a call back: the holder of the mutex can go on, so
at rest it has none. -/
theorem positions_of_rests (opens : Opens value s)
    (rests : (machine value).RestsUnder Proceeding s) (c : CallId) :
    s.pc c = .idle ∨ s.pc c = .counted ∨ s.pc c = .returned ∨ s.pc c = .waiting .blocked := by
  have stays : ∀ d, proceed s d = none := fun d => rests (.proceed d) ⟨d, rfl⟩
  have free : s.holder = none := by
    by_contra held
    obtain ⟨d, isHolder⟩ := Option.ne_none_iff_exists'.mp held
    have holds := (opens.holder d).mpr isHolder
    have stuck := stays d
    cases here : s.pc d <;> rw [here] at holds
    case syncing | testing | evaluating | blocking | leaving => simp [proceed, here] at stuck
    all_goals cases holds
  have stuck := stays c
  cases here : s.pc c with
  | idle => exact .inl rfl
  | counted => exact .inr (.inl rfl)
  | returned => exact .inr (.inr (.inl rfl))
  | waiting status =>
      cases status with
      | blocked => exact .inr (.inr (.inr rfl))
      | notified | awake => simp [proceed, here, free] at stuck
  | _ => simp [proceed, here, free] at stuck

/-- Nobody sleeps behind an open latch: the call that opened it would have its
notification to send. -/
theorem settled_of_rests (opens : Opens value s)
    (rests : (machine value).RestsUnder Proceeding s) : Settled s := by
  have positions := positions_of_rests opens rests
  intro c
  rcases positions c with idle | counted | returned | asleep
  · exact .inl idle
  · exact .inr (.inl counted)
  · exact .inr (.inr (.inl returned))
  · refine .inr (.inr (.inr ⟨asleep, ?_⟩))
    by_contra isOpen
    obtain ⟨d, pending⟩ := opens.asleep c (by rw [asleep]; rfl) (Int.not_lt.mp isOpen)
    rcases positions d with is | is | is | is <;> rw [is] at pending <;> cases pending

/-- A wait that wakes up spuriously goes on. -/
theorem insideWait_of_wakes {a : Action} (wakes : a.wakes = true) (stepEq : step s a = some s')
    (inside : (s.pc c).insideWait = true) :
    (s'.pc c).insideWait = true ∧ s'.value = s.value ∧ s'.loaded n = s.loaded n := by
  cases transition_of_step stepEq with
  | unblock d here =>
      refine ⟨?_, rfl, loaded_update_same (by rw [here]; rfl)⟩
      by_cases own : c = d
      · rw [own]
        change (Function.update s.pc d (.waiting .awake) d).insideWait = true
        rw [Function.update_self]
        rfl
      · change (Function.update s.pc d (.waiting .awake) c).insideWait = true
        rw [Function.update_of_ne own]
        exact inside
  | _ => cases wakes

/-- While nobody begins a call, the calls of a latch, finitely many at any time,
take boundedly many steps, and three more for each spurious wake-up, and can come
to rest, provided their decrements do not underflow.  There every call is over, but for waits behind a latch that is
still closed; and if those decrements open the latch, every one of its waits
returns. -/
theorem latch_settles (reachable : (machine value).ReachableUnder (NoUnderflow value) s) :
    (∃ n, ∀ c, n ≤ c → s.pc c = .idle) ∧
    ∀ n, (∀ c, n ≤ c → s.pc c = .idle) → ptrDiffMin ≤ s.value.toInt - s.loaded n →
      (machine value).DrainedDespite Proceeding Action.wakes 3
        (workload.stepsLeft (Finset.range n) s.pc) Settled
        (fun c s => (s.pc c).insideWait = true ∧ s.value.toInt ≤ s.loaded n)
        (fun c s => s.pc c = .returned) s := by
  refine ⟨exists_begun reachable, fun n below fits => ?_⟩
  refine Room.descends.drainedDespite Room.withstands ?_ ?_ ?_ ⟨reachable, below, fits⟩
  · exact fun s room rests => settled_of_rests (opens_of_reachable room.reachable) rests
  · rintro s a s' c room (⟨d, rfl⟩ | wakes) stepEq ⟨inside, suffices_⟩
    · have balance := room.settled stepEq
      rcases insideWait_of_proceed stepEq inside with goesOn | returned
      · exact .inl ⟨goesOn, by omega⟩
      · exact .inr returned
    · obtain ⟨goesOn, value, loaded⟩ := insideWait_of_wakes (n := n) wakes stepEq inside
      exact .inl ⟨goesOn, by rw [value, loaded]; exact suffices_⟩
  · rintro s c _ settled ⟨inside, suffices_⟩
    have none : s.loaded n = 0 := by
      rw [System.loaded, List.countP_eq_zero]
      intro d _ loaded
      rcases settled d with is | is | is | ⟨is, _⟩ <;> rw [is] at loaded <;> cases loaded
    rcases settled c with is | is | is | ⟨_, closed⟩
    · rw [is] at inside
      cases inside
    · rw [is] at inside
      cases inside
    · rw [is] at inside
      cases inside
    · omega

end

/-- A call sleeps and wakes up once too early, and another one is about to count
down for the second time: both return. -/
theorem latch_settles_last_decrement :
    ∃ (s : System) (labels : List Action) (s' middle : System),
      (machine 2#64).ReachableUnder (NoUnderflow 2#64) s ∧
      s.pc 0 = .waiting .blocked ∧ s.pc 1 = .loaded ∧
      (machine 2#64).RunUnder (Machine.AllowedOr Proceeding Action.wakes) s
        (.unblock 0 :: labels) s' ∧ Settled s' ∧
      (machine 2#64).Reachable middle ∧ middle.pc 0 = .returned := by
  have run : ((machine 2#64).execUnder (fun s a => NoUnderflow 2#64 s a ∧ a.call < 2)
      (initial 2#64) [.countDownAndWait 0, .proceed 0, .proceed 0, .proceed 0, .proceed 0,
        .proceed 0, .proceed 0, .countDownAndWait 1]).map
          (fun s => (s.pc 0, s.pc 1, s.value, s.loaded 2)) =
      some (.waiting .blocked, .loaded, 1#64, 1) := by
    decide +kernel
  obtain ⟨s, runs, observed⟩ := Option.map_eq_some_iff.mp run
  simp only [Prod.mk.injEq] at observed
  obtain ⟨asleep, last, value, counted⟩ := observed
  have bounded := Machine.reachableUnder_of_execUnder runs
  have reached := bounded.mono fun _ _ both => both.1
  obtain ⟨_, settles⟩ := latch_settles reached
  have drained := settles 2 (idle_of_reachable bounded) (by rw [value, counted]; decide)
  have wakesUp : (machine 2#64).step s (.unblock 0) = some (s.goto 0 (.waiting .awake)) :=
    if_pos asleep
  obtain ⟨labels, s', onwards, rests⟩ := drained.ends [.unblock 0] _ ⟨_, .inr rfl, wakesUp, rfl⟩
  have whole : (machine 2#64).RunUnder (Machine.AllowedOr Proceeding Action.wakes) s
      (.unblock 0 :: labels) s' := ⟨_, .inr rfl, wakesUp, onwards.mono fun _ _ => .inl⟩
  obtain ⟨_, _, middle, _, upTo, returned, _⟩ := drained.served _ s' whole rests 0
    ⟨by rw [asleep]; rfl, by rw [value, counted]; decide⟩
  exact ⟨s, labels, s', middle, reached, asleep, last, whole, drained.quiet _ s' whole rests,
    reached.reachable.later (upTo.later.mono fun _ _ _ => trivial), returned⟩

end Conc11.Latch
