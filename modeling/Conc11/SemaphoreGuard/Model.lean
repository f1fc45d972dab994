/-
Module: Conc11.SemaphoreGuard.Model
Purpose: `SemaphoreGuard` of concurrency/semaphore.h over any semaphore type.  The constructor acquires, the
  destructor releases the same number; what the guards hold and what the semaphore has left add up to the
  initial count, however long the program runs.
Trusted boundary: human-reviewed model
Main exports: Use, Counts, Change, Change.congr, SemType, System, Label, step, machine, Shared, shared_of_reachable
-/
import Mathlib.Algebra.BigOperators.Group.List.Basic
import Mathlib.Algebra.Order.BigOperators.Group.List
import Mathlib.Algebra.Order.Group.Nat
import Conc11.Library.Machine
import Conc11.Library.Threads
import Conc11.Semaphore.Permits

namespace Conc11.SemaphoreGuard

open Library
open Semaphore (Request CallId intMax toNat_sub small_of_nonneg)

/-! ## The template parameter -/

/-- What a label of a semaphore means to a guard: the first section of an
`acquire` or a `release`, a later section of one of them, or nothing. -/
inductive Use where
  | acquire (c : CallId) (request : Request)
  | release (request : Request)
  | goOn
  | other
deriving DecidableEq, Repr

/-- What a guard can tell about a semaphore: its count, the calls of `acquire`
that have not come back, and those that have returned. -/
structure Counts (σ : Type) where
  permits : σ → BitVec 32
  pending : σ → CallId → Option Request
  acquired : σ → CallId → Bool

/-- A section grants the request of one call, which has just begun or was
pending and for which there is enough, or it takes nothing. -/
inductive Change {σ : Type} (o : Counts σ) (begun : Option (CallId × Request)) (s s' : σ) : Prop where
  | grant (c : CallId) (request : Request)
      (asks : begun = some (c, request) ∨ o.pending s c = some request)
      (notYet : o.acquired s c = false) (enough : request.toNat ≤ (o.permits s).toNat)
      (permits : o.permits s' = o.permits s - request)
      (acquired : o.acquired s' = Function.update (o.acquired s) c true)
      (pending : ∀ d asked, o.pending s' d = some asked → o.pending s d = some asked)
  | keep (permits : o.permits s' = o.permits s) (acquired : o.acquired s' = o.acquired s)
      (pending : ∀ d asked, o.pending s' d = some asked →
        o.pending s d = some asked ∨ begun = some (d, asked))

/-- A change is known by what a guard can tell. -/
theorem Change.congr {σ : Type} {o : Counts σ} {begun : Option (CallId × Request)} {s s' t : σ}
    (change : Change o begun s s') (permits : o.permits t = o.permits s')
    (pending : o.pending t = o.pending s') (acquired : o.acquired t = o.acquired s') :
    Change o begun s t := by
  cases change with
  | grant c request asks notYet enough taken returned waits =>
      exact .grant c request asks notYet enough (permits.trans taken) (acquired.trans returned)
        (pending ▸ waits)
  | keep same returned waits =>
      exact .keep (permits.trans same) (acquired.trans returned) (pending ▸ waits)

/-- A semaphore type, as far as `acquire` and `release` go.  Requests up to INT_MAX
that leave the count within INT_MAX are handled as a counting semaphore does. -/
structure SemType (σ α : Type) extends Counts σ where
  machine : Machine σ α
  use : α → Use
  initialPermits : BitVec 32
  nonneg : 0 ≤ initialPermits.toInt
  inv : σ → Prop
  start : inv machine.initial ∧ permits machine.initial = initialPermits ∧
    (∀ c, pending machine.initial c = none) ∧ ∀ c, acquired machine.initial c = false
  acquires : ∀ {s a s' c request}, inv s → use a = .acquire c request → request.toNat ≤ intMax →
    machine.step s a = some s' → inv s' ∧ Change toCounts (some (c, request)) s s'
  goesOn : ∀ {s a s'}, inv s → use a = .goOn → machine.step s a = some s' →
    inv s' ∧ Change toCounts none s s'
  releases : ∀ {s a s' request}, inv s → use a = .release request →
    (permits s).toNat + request.toNat ≤ intMax → machine.step s a = some s' →
    inv s' ∧ permits s' = permits s + request ∧ acquired s' = acquired s ∧
      ∀ d asked, pending s' d = some asked → pending s d = some asked

/-! ## The guards -/

/-- The semaphore, the guards whose constructor has been entered, each with its
member `request`, and those that have been destroyed. -/
structure System (σ : Type) where
  sem : σ
  guards : List (CallId × Request)
  destroyed : List CallId

/-- Every label names the semaphore's own label for the section that runs. -/
inductive Label (α : Type) where
  | construct (a : α)
  | goOn (a : α)
  | destroy (g : CallId) (a : α)
deriving DecidableEq, Repr

section

variable {σ α : Type} (S : SemType σ α)

/-- A guard is destroyed once, after its constructor has returned, and not if it threw. -/
def step (s : System σ) : Label α → Option (System σ)
  | .construct a =>
      match S.use a with
      | .acquire g request =>
          if g ∉ s.guards.map Prod.fst then
            (S.machine.step s.sem a).map fun sem =>
              { s with sem := sem, guards := s.guards ++ [(g, request)] }
          else none
      | _ => none
  | .goOn a =>
      match S.use a with
      | .goOn => (S.machine.step s.sem a).map fun sem => { s with sem := sem }
      | _ => none
  | .destroy g a =>
      match S.use a with
      | .release request =>
          if (g, request) ∈ s.guards ∧ S.acquired s.sem g = true ∧ g ∉ s.destroyed then
            (S.machine.step s.sem a).map fun sem =>
              { s with sem := sem, destroyed := s.destroyed ++ [g] }
          else none
      | _ => none

def machine : Machine (System σ) (Label α) :=
  { initial := { sem := S.machine.initial, guards := [], destroyed := [] }, step := step S }

/-- No request exceeds INT_MAX. -/
def SmallRequests (_ : System σ) : Label α → Prop
  | .construct a => ∀ g request, S.use a = .acquire g request → request.toNat ≤ intMax
  | _ => True

instance (s : System σ) : (l : Label α) → Decidable (SmallRequests S s l)
  | .construct a =>
      match isUse : S.use a with
      | .acquire g request =>
          decidable_of_iff (request.toNat ≤ intMax)
            ⟨fun small _ _ is => by cases isUse.symm.trans is; exact small,
              fun all => all g request isUse⟩
      | .release _ | .goOn | .other => .isTrue fun _ _ is => by cases isUse.symm.trans is
  | .goOn _ | .destroy _ _ => .isTrue trivial

/-- The guard exists: its constructor has returned and it has not been destroyed. -/
def System.Live (s : System σ) (g : CallId) : Prop := S.acquired s.sem g = true ∧ g ∉ s.destroyed

instance (s : System σ) (g : CallId) : Decidable (s.Live S g) :=
  inferInstanceAs (Decidable (_ ∧ _))

/-- What a guard holds. -/
def System.weight (s : System σ) (guard : CallId × Request) : Nat :=
  if s.Live S guard.1 then guard.2.toNat else 0

/-- What the guards hold together. -/
def System.held (s : System σ) : Nat := (s.guards.map (s.weight S)).sum

/-- The inversion of `step`. -/
inductive Transition (s : System σ) : Label α → System σ → Prop where
  | construct (a : α) (g : CallId) (request : Request) (sem : σ) (use : S.use a = .acquire g request)
      (fresh : g ∉ s.guards.map Prod.fst) (ran : S.machine.step s.sem a = some sem) :
      Transition s (.construct a) { s with sem := sem, guards := s.guards ++ [(g, request)] }
  | goOn (a : α) (sem : σ) (use : S.use a = .goOn) (ran : S.machine.step s.sem a = some sem) :
      Transition s (.goOn a) { s with sem := sem }
  | destroy (g : CallId) (a : α) (request : Request) (sem : σ) (use : S.use a = .release request)
      (guard : (g, request) ∈ s.guards) (live : s.Live S g)
      (ran : S.machine.step s.sem a = some sem) :
      Transition s (.destroy g a) { s with sem := sem, destroyed := s.destroyed ++ [g] }

theorem transition_of_step {s s' : System σ} {l : Label α} (stepEq : step S s l = some s') :
    Transition S s l s' := by
  cases l with
  | construct a =>
      simp only [step] at stepEq
      split at stepEq
      next g request use =>
        obtain ⟨fresh, rest⟩ := Option.ite_none_right_eq_some.mp stepEq
        obtain ⟨sem, ran, same⟩ := Option.map_eq_some_iff.mp rest
        cases same
        exact .construct a g request sem use fresh ran
      next => cases stepEq
  | goOn a =>
      simp only [step] at stepEq
      split at stepEq
      next use =>
        obtain ⟨sem, ran, same⟩ := Option.map_eq_some_iff.mp stepEq
        cases same
        exact .goOn a sem use ran
      next => cases stepEq
  | destroy g a =>
      simp only [step] at stepEq
      split at stepEq
      next request use =>
        obtain ⟨⟨guard, live⟩, rest⟩ := Option.ite_none_right_eq_some.mp stepEq
        obtain ⟨sem, ran, same⟩ := Option.map_eq_some_iff.mp rest
        cases same
        exact .destroy g a request sem use guard live ran
      next => cases stepEq

/-! ## The balance -/

/-- The guards and the semaphore share the initial count. -/
structure Shared (s : System σ) : Prop where
  inv : S.inv s.sem
  ids : (s.guards.map Prod.fst).Nodup
  pending : ∀ c request, S.pending s.sem c = some request → (c, request) ∈ s.guards
  acquired : ∀ c, S.acquired s.sem c = true → c ∈ s.guards.map Prod.fst
  destroyed : ∀ g ∈ s.destroyed, S.acquired s.sem g = true
  balance : (S.permits s.sem).toNat + s.held S = S.initialPermits.toNat

end

namespace Shared

variable {σ α : Type} {S : SemType σ α} {s s' : System σ}

/-- A guard is known by its name. -/
theorem request_unique (shared : Shared S s) {g : CallId} {r q : Request} (here : (g, r) ∈ s.guards)
    (there : (g, q) ∈ s.guards) : r = q := by
  have same := List.inj_on_of_nodup_map shared.ids here there rfl
  exact congrArg Prod.snd same

/-- The hold of one guard begins or ends, and that of the others stays. -/
theorem held_change (shared : Shared S s) {g : CallId} {request : Request}
    (guard : (g, request) ∈ s.guards) (guards : s'.guards = s.guards)
    (others : ∀ c, c ≠ g → (s'.Live S c ↔ s.Live S c)) :
    s'.held S + s.weight S (g, request) = s.held S + s'.weight S (g, request) := by
  have balance : (s.guards.map fun u =>
        id (Function.update (s.weight S) (g, request) (s'.weight S (g, request)) u)).sum +
      id (s.weight S (g, request)) = s.held S + id (s'.weight S (g, request)) :=
    sum_map_update (s.weight S) (s'.weight S (g, request)) (List.Nodup.of_map _ shared.ids) guard
  have same : (s.guards.map fun u =>
      id (Function.update (s.weight S) (g, request) (s'.weight S (g, request)) u)).sum =
        s'.held S := by
    rw [System.held, guards]
    congr 1
    refine List.map_congr_left fun u member => ?_
    by_cases isG : u = (g, request)
    · rw [isG, Function.update_self]
      rfl
    · have other : u.1 ≠ g := by
        intro name
        have here : (g, u.2) ∈ s.guards := by rwa [← name]
        exact isG (Prod.ext name (shared.request_unique here guard))
      rw [Function.update_of_ne isG]
      simp only [id, System.weight, others u.1 other]
  rw [same] at balance
  exact balance

/-- A section of an `acquire` of the guards takes what one of them comes to hold. -/
theorem change {begun : Option (CallId × Request)} {sem : σ} (shared : Shared S s)
    (inv : S.inv sem) (change : Change S.toCounts begun s.sem sem)
    (isGuard : ∀ c request, begun = some (c, request) → (c, request) ∈ s.guards) :
    Shared S { s with sem := sem } := by
  cases change with
  | grant c request asks notYet enough permits acquired pending =>
      have guard : (c, request) ∈ s.guards := asks.elim (isGuard c request) (shared.pending c request)
      have notDestroyed : c ∉ s.destroyed := fun member => by
        rw [shared.destroyed c member] at notYet
        cases notYet
      refine ⟨inv, shared.ids, fun d asked now => shared.pending d asked (pending d asked now),
        fun d now => ?_, fun d member => ?_, ?_⟩
      · by_cases same : d = c
        · subst same
          exact List.mem_map_of_mem guard
        · rw [acquired, Function.update_of_ne same] at now
          exact shared.acquired d now
      · have other : d ≠ c := fun same => notDestroyed (same ▸ member)
        rw [acquired, Function.update_of_ne other]
        exact shared.destroyed d member
      · have moved : System.held S { s with sem := sem } + s.weight S (c, request) =
            s.held S + System.weight S { s with sem := sem } (c, request) :=
          shared.held_change guard rfl fun d other => by
            simp only [System.Live, acquired, Function.update_of_ne other]
        have before : s.weight S (c, request) = 0 := by
          simp [System.weight, System.Live, notYet]
        have after : System.weight S { s with sem := sem } (c, request) = request.toNat := by
          simp [System.weight, System.Live, acquired, notDestroyed]
        have balance := shared.balance
        change (S.permits sem).toNat + _ = _
        rw [permits, toNat_sub enough]
        omega
  | keep permits acquired pending =>
      refine ⟨inv, shared.ids, fun d asked now => ?_, fun d now => ?_, fun d member => ?_, ?_⟩
      · exact (pending d asked now).elim (shared.pending d asked) (isGuard d asked)
      · rw [acquired] at now
        exact shared.acquired d now
      · rw [acquired]
        exact shared.destroyed d member
      · have held : System.held S { s with sem := sem } = s.held S := by
          refine congrArg List.sum (List.map_congr_left fun u _ => ?_)
          have same : System.Live S { s with sem := sem } u.1 ↔ s.Live S u.1 := by
            simp only [System.Live, acquired]
          simp only [System.weight, same]
        rw [held]
        change (S.permits sem).toNat + _ = _
        rw [permits]
        exact shared.balance

theorem held_ge {g : CallId} {request : Request} (guard : (g, request) ∈ s.guards)
    (live : s.Live S g) : request.toNat ≤ s.held S := by
  have counted := List.single_le_sum (fun _ _ => Nat.zero_le _) _
    (List.mem_map_of_mem (f := s.weight S) guard)
  have weight : s.weight S (g, request) = request.toNat := if_pos live
  rw [weight] at counted
  exact counted

/-- A guard that has been entered and holds nothing yet changes nothing. -/
theorem enter (shared : Shared S s) {g : CallId} (request : Request)
    (fresh : g ∉ s.guards.map Prod.fst) :
    Shared S { s with guards := s.guards ++ [(g, request)] } := by
  have notYet : S.acquired s.sem g = false :=
    Bool.not_eq_true _ ▸ fun already => fresh (shared.acquired g already)
  refine ⟨shared.inv, ?_, fun c asked waiting => ?_, fun c already => ?_, shared.destroyed, ?_⟩
  · rw [List.map_append]
    exact List.nodup_append.mpr ⟨shared.ids, List.nodup_singleton g, fun c member d isG same => by
      have isName : c = g := same.trans (List.mem_singleton.mp isG)
      exact fresh (isName ▸ member)⟩
  · exact List.mem_append_left _ (shared.pending c asked waiting)
  · rw [List.map_append]
    exact List.mem_append_left _ (shared.acquired c already)
  · have balance := shared.balance
    have nothing : s.weight S (g, request) = 0 := by simp [System.weight, System.Live, notYet]
    have same : System.weight S { s with guards := s.guards ++ [(g, request)] } = s.weight S := rfl
    simp only [System.held, same, List.map_append, List.sum_append, List.map_cons, List.map_nil,
      List.sum_singleton, nothing, Nat.add_zero]
    exact balance

/-- The destructor gives back what its guard holds. -/
theorem destroy (shared : Shared S s) {g : CallId} {request : Request} {a : α} {sem : σ}
    (guard : (g, request) ∈ s.guards) (live : s.Live S g) (use : S.use a = .release request)
    (ran : S.machine.step s.sem a = some sem) :
    Shared S { s with sem := sem, destroyed := s.destroyed ++ [g] } := by
  have balance := shared.balance
  have holds := held_ge guard live
  have small := small_of_nonneg S.nonneg
  obtain ⟨inv, permits, acquired, pending⟩ := S.releases shared.inv use (by omega) ran
  refine ⟨inv, shared.ids, fun c asked now => shared.pending c asked (pending c asked now),
    fun c already => ?_, fun c member => ?_, ?_⟩
  · rw [acquired] at already
    exact shared.acquired c already
  · rw [acquired]
    rcases List.mem_append.mp member with old | new
    · exact shared.destroyed c old
    · rw [List.mem_singleton.mp new]
      exact live.1
  · have moved : System.held S { s with sem := sem, destroyed := s.destroyed ++ [g] } +
          s.weight S (g, request) =
        s.held S +
          System.weight S { s with sem := sem, destroyed := s.destroyed ++ [g] } (g, request) :=
      shared.held_change guard rfl fun d other => by simp [System.Live, acquired, other]
    have before : s.weight S (g, request) = request.toNat := if_pos live
    have after : System.weight S { s with sem := sem, destroyed := s.destroyed ++ [g] }
        (g, request) = 0 := by
      simp [System.weight, System.Live]
    unfold intMax at small
    change (S.permits sem).toNat + _ = _
    rw [permits, BitVec.toNat_add, Nat.mod_eq_of_lt (by omega)]
    omega

theorem transition {l : Label α} (shared : Shared S s) (small : SmallRequests S s l)
    (moved : Transition S s l s') : Shared S s' := by
  cases moved with
  | construct a g request sem use fresh ran =>
      obtain ⟨inv, changed⟩ := S.acquires shared.inv use (small g request use) ran
      refine (shared.enter request fresh).change inv changed fun c asked begun => ?_
      cases begun
      exact List.mem_append_right _ List.mem_cons_self
  | goOn a sem use ran =>
      obtain ⟨inv, changed⟩ := S.goesOn shared.inv use ran
      exact shared.change inv changed nofun
  | destroy g a request sem use guard live ran => exact shared.destroy guard live use ran

end Shared

theorem shared_of_reachable {σ α : Type} {S : SemType σ α} {s : System σ}
    (reachable : (machine S).ReachableUnder (SmallRequests S) s) : Shared S s := by
  refine reachable.invariant (motive := Shared S) ?_ fun _ _ _ _ shared small stepEq =>
    shared.transition small (transition_of_step S stepEq)
  obtain ⟨inv, permits, pending, acquired⟩ := S.start
  refine ⟨inv, List.nodup_nil, fun c request waiting => ?_, fun c already => ?_, nofun, ?_⟩
  · change S.pending S.machine.initial c = some request at waiting
    rw [pending c] at waiting
    cases waiting
  · change S.acquired S.machine.initial c = true at already
    rw [acquired c] at already
    cases already
  · change (S.permits S.machine.initial).toNat + 0 = _
    rw [permits, Nat.add_zero]

/-- Two guards that exist at the same time hold no more than there is. -/
theorem Shared.two_le {σ α : Type} {S : SemType σ α} {s : System σ} (shared : Shared S s)
    {g h : CallId} {r q : Request} (ne : g ≠ h) (guardG : (g, r) ∈ s.guards)
    (guardH : (h, q) ∈ s.guards) (liveG : s.Live S g) (liveH : s.Live S h) :
    r.toNat + q.toNat ≤ S.initialPermits.toNat := by
  have balance := shared.balance
  have apart : (h, q) ∈ s.guards.erase (g, r) :=
    (List.mem_erase_of_ne fun same => ne (congrArg Prod.fst same).symm).mpr guardH
  have first := ((List.perm_cons_erase guardG).map (s.weight S)).sum_eq
  have second := List.single_le_sum (fun _ _ => Nat.zero_le _) _
    (List.mem_map_of_mem (f := s.weight S) apart)
  have weightG : s.weight S (g, r) = r.toNat := if_pos liveG
  have weightH : s.weight S (h, q) = q.toNat := if_pos liveH
  rw [List.map_cons, List.sum_cons, weightG] at first
  rw [weightH] at second
  unfold System.held at balance
  omega

end Conc11.SemaphoreGuard
