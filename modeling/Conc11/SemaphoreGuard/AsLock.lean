/-
Module: Conc11.SemaphoreGuard.AsLock
Purpose: Critical sections between the constructor and the destructor of a `SemaphoreGuard`.  Where the requests of
  a reader and a writer exceed the permits together, the guards are a readers-writer lock; with one permit and
  one kind of section they are a mutex.
Trusted boundary: none
Main exports: Shares, Shares.mode, sections, guardLock, guarded_by_permits
-/
import Conc11.GuardedData
import Conc11.SemaphoreGuard.Guards

namespace Conc11.SemaphoreGuard

open Library
open Semaphore (Request CallId intMax)

/-- What readers and writers ask for: there are not enough permits for a writer
and anybody else. -/
structure Shares (permits : BitVec 32) where
  reader : Request
  writer : Request
  differ : reader ≠ writer
  small : reader.toNat ≤ intMax ∧ writer.toNat ≤ intMax
  apart : permits.toNat < writer.toNat + reader.toNat
  alone : permits.toNat < writer.toNat + writer.toNat

/-- The kind of section that asks for `request`. -/
def Shares.mode {permits : BitVec 32} (shares : Shares permits) (request : Request) : Option Mode :=
  if request = shares.writer then some .exclusive
  else if request = shares.reader then some .shared
  else none

namespace Shares

variable {permits : BitVec 32} {shares : Shares permits} {request other : Request}

theorem mode_exclusive (is : shares.mode request = some .exclusive) : request = shares.writer := by
  unfold mode at is
  split at is
  next same => exact same
  next => split at is <;> cases is

theorem isSmall {mode : Mode} (is : shares.mode request = some mode) : request.toNat ≤ intMax := by
  unfold Shares.mode at is
  split at is
  next same => exact same ▸ shares.small.2
  next =>
    split at is
    next same => exact same ▸ shares.small.1
    next => cases is

/-- A writer and anybody else ask for more than there is. -/
theorem exceeds {mode : Mode} (writes : shares.mode request = some .exclusive)
    (is : shares.mode other = some mode) : permits.toNat < request.toNat + other.toNat := by
  rw [mode_exclusive writes]
  unfold Shares.mode at is
  split at is
  next same => exact same ▸ shares.alone
  next =>
    split at is
    next same => exact same ▸ shares.apart
    next => cases is

end Shares

section

variable {σ α : Type} (S : SemType σ α) (shares : Shares S.initialPermits)

/-- The section that a constructor begins. -/
def opens : Label α → Option (CallId × Mode)
  | .construct a =>
      match S.use a with
      | .acquire g request => (shares.mode request).map fun mode => (g, mode)
      | _ => none
  | _ => none

/-- The section that a destructor ends. -/
def closes : Label α → Option CallId
  | .destroy g _ => some g
  | _ => none

/-- The guards of sections that ask for what their kind is given. -/
def sections : Machine (System σ) (Label α) :=
  { initial := (machine S).initial
    step := fun s l =>
      match l with
      | .construct a => if (opens S shares (.construct a)).isSome then step S s (.construct a) else none
      | l => step S s l }

/-- What a guard that exists was constructed for. -/
def ownedMode (s : System σ) (g : CallId) : Option Mode :=
  if s.Live S g then
    match s.guards.find? fun guard => guard.1 == g with
    | some guard => shares.mode guard.2
    | none => none
  else none

end

section

variable {σ α : Type} {S : SemType σ α} {shares : Shares S.initialPermits} {s s' : System σ}
  {l : Label α} {g h : CallId} {request : Request} {mode : Mode}

theorem transition_of_sections (stepEq : (sections S shares).step s l = some s') :
    SmallRequests S s l ∧ Transition S s l s' := by
  cases l with
  | construct a =>
      obtain ⟨opened, ran⟩ := Option.ite_none_right_eq_some.mp stepEq
      refine ⟨fun g request use => ?_, transition_of_step S ran⟩
      simp only [opens, use, Option.isSome_map] at opened
      obtain ⟨mode, is⟩ := Option.isSome_iff_exists.mp opened
      exact Shares.isSmall is
  | goOn a => exact ⟨trivial, transition_of_step S stepEq⟩
  | destroy g a => exact ⟨trivial, transition_of_step S stepEq⟩

theorem shared_of_sections (reachable : (sections S shares).Reachable s) : Shared S s := by
  refine reachable.invariant (motive := Shared S) ?_ fun _ _ _ _ shared _ stepEq => ?_
  · exact shared_of_reachable Machine.ReachableUnder.initial
  · obtain ⟨small, moved⟩ := transition_of_sections stepEq
    exact shared.transition small moved

theorem find_guard (shared : Shared S s) (guard : (g, request) ∈ s.guards) :
    s.guards.find? (fun guard => guard.1 == g) = some (g, request) := by
  cases found : s.guards.find? (fun guard => guard.1 == g) with
  | none =>
      have notName := List.find?_eq_none.mp found (g, request) guard
      exact absurd (beq_self_eq_true g) notName
  | some other =>
      obtain ⟨name, asked⟩ := other
      have isName : name = g := by simpa using List.find?_some found
      subst isName
      rw [shared.request_unique (List.mem_of_find?_eq_some found) guard]

/-- A guard owns a section if it exists and asked for the share of the section. -/
theorem ownedMode_iff (shared : Shared S s) : ownedMode S shares s g = some mode ↔
    s.Live S g ∧ ∃ request, (g, request) ∈ s.guards ∧ shares.mode request = some mode := by
  constructor
  · intro owned
    obtain ⟨live, rest⟩ := Option.ite_none_right_eq_some.mp owned
    obtain ⟨⟨name, request⟩, guard, isName⟩ := List.mem_map.mp (shared.acquired g live.1)
    have isG : name = g := isName
    subst isG
    rw [find_guard shared guard] at rest
    exact ⟨live, request, guard, rest⟩
  · rintro ⟨live, request, guard, is⟩
    rw [ownedMode, if_pos live, find_guard shared guard]
    exact is

theorem alone_of_shared (shared : Shared S s) (owned : ownedMode S shares s g = some .exclusive)
    (beside : ownedMode S shares s h ≠ none) : h = g := by
  by_contra differ
  obtain ⟨liveG, r, guardG, writes⟩ := (ownedMode_iff shared).mp owned
  obtain ⟨mode, owns⟩ := Option.ne_none_iff_exists'.mp beside
  obtain ⟨liveH, q, guardH, is⟩ := (ownedMode_iff shared).mp owns
  have fits := shared.two_le (Ne.symm differ) guardG guardH liveG liveH
  have exceeds := Shares.exceeds writes is
  omega

/-- A section of an `acquire` takes no guard away. -/
theorem Change.live {begun : Option (CallId × Request)} {sem : σ}
    (change : Change S.toCounts begun s.sem sem) (live : s.Live S g) :
    S.acquired sem g = true := by
  cases change with
  | grant c request asks notYet enough permits acquired pending =>
      rw [acquired]
      by_cases same : g = c
      · rw [same, Function.update_self]
      · rw [Function.update_of_ne same]
        exact live.1
  | keep permits acquired pending =>
      rw [acquired]
      exact live.1

/-- A guard that exists stays until its own destructor. -/
theorem live_kept (shared : Shared S s) (small : SmallRequests S s l) (moved : Transition S s l s')
    (live : s.Live S g) (kept : closes l ≠ some g) :
    s'.Live S g ∧ ∀ request, (g, request) ∈ s.guards → (g, request) ∈ s'.guards := by
  cases moved with
  | construct a c request sem use fresh ran =>
      obtain ⟨_, changed⟩ := S.acquires shared.inv use (small c request use) ran
      exact ⟨⟨changed.live live, live.2⟩, fun _ => List.mem_append_left _⟩
  | goOn a sem use ran =>
      obtain ⟨_, changed⟩ := S.goesOn shared.inv use ran
      exact ⟨⟨changed.live live, live.2⟩, fun _ => id⟩
  | destroy c a request sem use guard liveC ran =>
      have balance := shared.balance
      have holds := Shared.held_ge guard liveC
      have nonneg := Semaphore.small_of_nonneg S.nonneg
      obtain ⟨_, _, acquired, _⟩ := S.releases shared.inv use (by omega) ran
      have other : g ≠ c := fun same => kept (same ▸ rfl)
      refine ⟨⟨?_, fun member => ?_⟩, fun _ => id⟩
      · rw [acquired]
        exact live.1
      · rcases List.mem_append.mp member with old | new
        · exact live.2 old
        · exact other (List.mem_singleton.mp new)

theorem ownedMode_kept (shared : Shared S s) (stepEq : (sections S shares).step s l = some s')
    (owned : ownedMode S shares s g = some mode) (kept : closes l ≠ some g) :
    ownedMode S shares s' g = some mode := by
  obtain ⟨small, moved⟩ := transition_of_sections stepEq
  obtain ⟨live, request, guard, is⟩ := (ownedMode_iff shared).mp owned
  obtain ⟨still, stays⟩ := live_kept shared small moved live kept
  exact (ownedMode_iff (shared.transition small moved)).mpr ⟨still, request, stays request guard, is⟩

theorem ownedMode_dropped (stepEq : (sections S shares).step s l = some s')
    (closed : closes l = some g) : ownedMode S shares s' g = none := by
  obtain ⟨_, moved⟩ := transition_of_sections stepEq
  cases moved with
  | construct | goOn => cases closed
  | destroy c a request sem use guard live ran =>
      cases closed
      refine if_neg fun still => still.2 ?_
      exact List.mem_append_right _ List.mem_cons_self

end

/-- The guards of a semaphore, seen by the sections between their constructors
and destructors; each section is known by its guard. -/
def guardLock {σ α : Type} (S : SemType σ α) (shares : Shares S.initialPermits) :
    Lock (System σ) (Label α) CallId :=
  { machine := sections S shares
    holds := ownedMode S shares
    begins := opens S shares
    releases := closes
    alone := fun _ reachable _ _ => alone_of_shared (shared_of_sections reachable)
    keeps := fun _ _ _ reachable stepEq _ _ => ownedMode_kept (shared_of_sections reachable) stepEq
    drops := fun _ _ _ _ _ stepEq => ownedMode_dropped stepEq }

/-- Data of any type used between the constructor and the destructor of guards of
a semaphore with `n` permits, if a writer and anybody else ask for more than
`n` together: no section comes in the middle of another one's write. -/
theorem guarded_by_permits {κ : Type} {σ ρ : Type} (M : Monitor κ σ ρ) (n : BitVec 32)
    (nonneg : 0 ≤ n.toInt) (shares : Shares n) :
    (∀ s, (M.machine (guardLock (queuedSemaphore n nonneg) shares)).Reachable s →
      Undisturbed M s) ∧
    (∀ s, (M.machine (guardLock (simpleSemaphore n nonneg) shares)).Reachable s →
      Undisturbed M s) :=
  ⟨fun _ => undisturbed M _, fun _ => undisturbed M _⟩

/-- Two permits: a reader takes one of them, a writer both. -/
def twoReaders : Shares 2#32 :=
  { reader := 1#32, writer := 2#32, differ := by decide, small := by decide, apart := by decide
    alone := by decide }

/-- A number that is read and written under guards of a semaphore with two permits. -/
def permitCounter : Machine (Monitor.System (System Semaphore.System) CallId CounterCall Nat Nat)
    (Monitor.Action (Label Semaphore.Action) CallId CounterCall) :=
  counter.machine (guardLock (queuedSemaphore 2#32 (by decide)) twoReaders)

/-- A writer waits while two readers are in their sections; a third reader waits
for the writer. -/
theorem guarded_by_permits_two_readers :
    ∃ s, permitCounter.Reachable s ∧ (s.returned.map fun call => call.2.2) = [0, 0, 0, 5] ∧
      Undisturbed counter s := by
  have run : (permitCounter.exec permitCounter.initial
        [.call 0 .read, .call 1 .read, .call 2 (.add 5), .call 3 .read,
          .lock (.construct (.tryAcquire0 0 false 1 none)),
          .lock (.construct (.tryAcquire0 1 false 1 none)), .enter 0, .enter 1,
          .lock (.construct (.tryAcquire0 2 false 2 none)), .act 0, .lock (.destroy 0 (.release 1)),
          .act 1, .lock (.destroy 1 (.release 1)), .lock (.goOn (.wake 2 none)), .enter 2, .act 2,
          .lock (.construct (.tryAcquire0 3 false 1 none)), .act 2,
          .lock (.destroy 2 (.release 2)), .lock (.goOn (.wake 3 none)), .enter 3, .act 3,
          .lock (.destroy 3 (.release 1))]).map (fun s => s.returned.map fun call => call.2.2) =
      some [0, 0, 0, 5] := by
    decide +kernel
  obtain ⟨s, ran, results⟩ := Option.map_eq_some_iff.mp run
  have reached := Machine.reachable_of_exec ran
  exact ⟨s, reached, results, (guarded_by_permits counter 2#32 (by decide) twoReaders).1 s reached⟩

end Conc11.SemaphoreGuard
