/-
Module: Conc11.Library.Slots
Purpose: A bounded number of slots that threads take, and sleep for while none is free.  A thread that gives a
  slot back may wake one sleeper, some time later; what decides whether somebody is forgotten is how many
  slots are taken, promised to a woken thread, or about to be announced.
Trusted boundary: none
Main exports: SlotRoles, claims, share, Stranded, Crowded, Stranded.move, Stranded.unmove,
  stranded_deliver, stranded_leave, exists_filled
-/
import Conc11.Library.Machine
import Conc11.Library.Threads

namespace Conc11.Library

/-- What a phase means for the slots.  A thread that `bars` keeps the slots
closed, or is sure to end in waking everybody. -/
structure SlotRoles (P : Type*) where
  bars : P → Bool
  holds : P → Bool
  sleeps : P → Bool
  woken : P → Bool
  wakesOne : P → Bool

namespace SlotRoles

variable {T P : Type*} [Fintype T] {roles : SlotRoles P} {limit : Nat} {phase : T → P}

/-- The slots taken, about to be taken by a woken thread, or about to be announced. -/
def claims (roles : SlotRoles P) (phase : T → P) : Nat :=
  population roles.holds phase + population roles.woken phase + population roles.wakesOne phase

/-- A thread's own share in `claims`. -/
def share (roles : SlotRoles P) (p : P) : Nat :=
  (roles.holds p).toNat + (roles.woken p).toNat + (roles.wakesOne p).toNat

/-- Even when every notification on its way has arrived and every woken thread
has taken its slot, somebody sleeps and a slot is free. -/
structure Stranded (roles : SlotRoles P) (limit : Nat) (phase : T → P) : Prop where
  unbarred : population roles.bars phase = 0
  forgotten : population roles.wakesOne phase < population roles.sleeps phase
  room : roles.claims phase < limit

/-- The same, with no slot free: the next thread that leaves without waking
anybody strands a sleeper. -/
structure Crowded (roles : SlotRoles P) (limit : Nat) (phase : T → P) : Prop where
  unbarred : population roles.bars phase = 0
  forgotten : population roles.wakesOne phase < population roles.sleeps phase
  full : roles.claims phase = limit

instance : Decidable (roles.Crowded limit phase) :=
  decidable_of_iff (population roles.bars phase = 0 ∧
      population roles.wakesOne phase < population roles.sleeps phase ∧ roles.claims phase = limit)
    ⟨fun ⟨unbarred, forgotten, full⟩ => ⟨unbarred, forgotten, full⟩,
      fun crowded => ⟨crowded.unbarred, crowded.forgotten, crowded.full⟩⟩

namespace Stranded

theorem not_bars (stranded : roles.Stranded limit phase) (t : T) : roles.bars (phase t) = false :=
  population_eq_zero.mp stranded.unbarred t

theorem exists_sleeper (stranded : roles.Stranded limit phase) :
    ∃ t, roles.sleeps (phase t) = true := by
  have forgotten := stranded.forgotten
  exact population_pos.mp (by omega)

/-- Nobody is helped where no slot is barred or claimed that was not, and the
sleepers outnumber the notifications as they did. -/
theorem mono {phase' : T → P} (stranded : roles.Stranded limit phase)
    (bars : population roles.bars phase' ≤ population roles.bars phase)
    (sleeps : population roles.sleeps phase + population roles.wakesOne phase' ≤
      population roles.sleeps phase' + population roles.wakesOne phase)
    (claims : roles.claims phase' ≤ roles.claims phase) : roles.Stranded limit phase' := by
  obtain ⟨unbarred, forgotten, room⟩ := stranded
  exact ⟨by omega, by omega, by omega⟩

end Stranded

variable [DecidableEq T] {t u : T} {now : P}

theorem claims_update (roles : SlotRoles P) (phase : T → P) (t : T) (now : P) :
    roles.claims (Function.update phase t now) + roles.share (phase t) =
      roles.claims phase + roles.share now := by
  have holds := population_update roles.holds phase t now
  have woken := population_update roles.woken phase t now
  have wakesOne := population_update roles.wakesOne phase t now
  unfold claims share
  omega

namespace Stranded

/-- The rule for a step of one thread. -/
theorem move (stranded : roles.Stranded limit phase)
    (bars : (roles.bars now).toNat ≤ (roles.bars (phase t)).toNat)
    (sleeps : (roles.sleeps (phase t)).toNat + (roles.wakesOne now).toNat ≤
      (roles.sleeps now).toNat + (roles.wakesOne (phase t)).toNat)
    (share : roles.share now ≤ roles.share (phase t)) :
    roles.Stranded limit (Function.update phase t now) := by
  have barsBalance := population_update roles.bars phase t now
  have sleepsBalance := population_update roles.sleeps phase t now
  have wakesBalance := population_update roles.wakesOne phase t now
  have claimsBalance := claims_update roles phase t now
  exact stranded.mono (by omega) (by omega) (by omega)

/-- The same rule read backwards: a step that does not strand anybody. -/
theorem unmove (stranded : roles.Stranded limit (Function.update phase t now))
    (bars : (roles.bars (phase t)).toNat ≤ (roles.bars now).toNat)
    (sleeps : (roles.sleeps now).toNat + (roles.wakesOne (phase t)).toNat ≤
      (roles.sleeps (phase t)).toNat + (roles.wakesOne now).toNat)
    (share : roles.share (phase t) ≤ roles.share now) : roles.Stranded limit phase := by
  have barsBalance := population_update roles.bars phase t now
  have sleepsBalance := population_update roles.sleeps phase t now
  have wakesBalance := population_update roles.wakesOne phase t now
  have claimsBalance := claims_update roles phase t now
  exact stranded.mono (by omega) (by omega) (by omega)

end Stranded

/-- A notification arrives: the sleeper takes over the claim of the thread that
sends it, and the balance stays. -/
theorem stranded_deliver {awake : P} (ne : t ≠ u)
    (bars : (roles.bars awake).toNat + (roles.bars now).toNat =
      (roles.bars (phase u)).toNat + (roles.bars (phase t)).toNat)
    (sleeps : (roles.sleeps awake).toNat + (roles.sleeps now).toNat +
        ((roles.wakesOne (phase u)).toNat + (roles.wakesOne (phase t)).toNat) =
      (roles.sleeps (phase u)).toNat + (roles.sleeps (phase t)).toNat +
        ((roles.wakesOne awake).toNat + (roles.wakesOne now).toNat))
    (share : roles.share awake + roles.share now = roles.share (phase u) + roles.share (phase t)) :
    roles.Stranded limit (Function.update (Function.update phase u awake) t now) ↔
      roles.Stranded limit phase := by
  have current : Function.update phase u awake t = phase t := Function.update_of_ne ne ..
  have balance : ∀ p : P → Bool,
      population p (Function.update (Function.update phase u awake) t now) +
          ((p (phase u)).toNat + (p (phase t)).toNat) =
        population p phase + ((p awake).toNat + (p now).toNat) := by
    intro p
    have first := population_update p phase u awake
    have second := population_update p (Function.update phase u awake) t now
    rw [current] at second
    omega
  have barsBalance := balance roles.bars
  have sleepsBalance := balance roles.sleeps
  have wakesBalance := balance roles.wakesOne
  have firstClaims := claims_update roles phase u awake
  have secondClaims := claims_update roles (Function.update phase u awake) t now
  rw [current] at secondClaims
  constructor
  · intro stranded
    exact stranded.mono (by omega) (by omega) (by omega)
  · intro stranded
    exact stranded.mono (by omega) (by omega) (by omega)

/-- A thread that gives its slot back and wakes nobody strands a sleeper where
one was stranded before, and where the slots were crowded. -/
theorem stranded_leave (held : roles.share (phase t) = 1) (notBars : roles.bars (phase t) = false)
    (notSleeps : roles.sleeps (phase t) = false) (notWakes : roles.wakesOne (phase t) = false)
    (idle : roles.share now = 0) (bars : roles.bars now = false)
    (sleeps : roles.sleeps now = false) (wakes : roles.wakesOne now = false) :
    roles.Stranded limit (Function.update phase t now) ↔
      roles.Stranded limit phase ∨ roles.Crowded limit phase := by
  have sameBars : population roles.bars (Function.update phase t now) = population roles.bars phase :=
    population_update_same (bars.trans notBars.symm)
  have sameSleeps : population roles.sleeps (Function.update phase t now) =
      population roles.sleeps phase := population_update_same (sleeps.trans notSleeps.symm)
  have sameWakes : population roles.wakesOne (Function.update phase t now) =
      population roles.wakesOne phase := population_update_same (wakes.trans notWakes.symm)
  have claims := claims_update roles phase t now
  constructor
  · rintro ⟨unbarred, forgotten, room⟩
    rw [sameBars] at unbarred
    rw [sameSleeps, sameWakes] at forgotten
    by_cases full : roles.claims phase = limit
    · exact .inr ⟨unbarred, forgotten, full⟩
    · exact .inl ⟨unbarred, forgotten, by omega⟩
  · intro before
    obtain ⟨unbarred, forgotten, room⟩ : population roles.bars phase = 0 ∧
        population roles.wakesOne phase < population roles.sleeps phase ∧
        roles.claims phase ≤ limit := by
      rcases before with ⟨unbarred, forgotten, room⟩ | ⟨unbarred, forgotten, full⟩
      · exact ⟨unbarred, forgotten, room.le⟩
      · exact ⟨unbarred, forgotten, full.le⟩
    exact ⟨sameBars.trans unbarred, by rw [sameSleeps, sameWakes]; exact forgotten, by omega⟩

end SlotRoles

/-- Threads that may enter while there is room fill the room, one after the other. -/
theorem exists_filled {T P σ α : Type*} [DecidableEq T] {M : Machine σ α} (phase : σ → T → P)
    {inside outside : P} {limit : Nat} (empty : phase M.initial = fun _ => outside)
    (enter : ∀ s t members, M.Reachable s → phase s = filled inside outside members → t ∉ members →
      members.card < limit → ∃ s', M.Reachable s' ∧ phase s' = Function.update (phase s) t inside)
    (members : Finset T) (room : members.card ≤ limit) :
    ∃ s, M.Reachable s ∧ phase s = filled inside outside members := by
  induction members using Finset.induction_on with
  | empty => exact ⟨M.initial, .initial, empty⟩
  | insert t members absent ih =>
      rw [Finset.card_insert_of_notMem absent] at room
      obtain ⟨s, reachable, isFilled⟩ := ih (by omega)
      obtain ⟨s', reachable', entered⟩ := enter s t members reachable isFilled absent (by omega)
      refine ⟨s', reachable', ?_⟩
      rw [entered, isFilled]
      exact (Finset.piecewise_insert ..).symm

end Conc11.Library
