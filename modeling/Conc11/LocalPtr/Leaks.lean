/-
Module: Conc11.LocalPtr.Leaks
Purpose: When an object of a `PThreadLocalPtr` is never deleted.  Four kinds of steps lose an object, exactly the
  objects that the code drops there; every other object of a thread that has ended has been deleted, once.
Trusted boundary: none
Main exports: Held, Lost, Loses, Placed.lost_transition, objects_deleted
-/
import Conc11.LocalPtr.Objects

namespace Conc11.LocalPtr

open Library

variable {T : Type} [DecidableEq T] {iterations : Nat} {s s' : System T} {l : Label T}

/-- The object at `a` can still be deleted: its destructor is running, or a
thread that has not ended has it in a slot. -/
def Held (s : System T) (a : Address) : Prop :=
  (∃ t, .deleting a ∈ s.frames t) ∨
    ∃ t key, s.phase t ≠ .gone ∧ key ∈ s.data.inUse ∧ s.data.value t key = some a

/-- The object at `a` has not been deleted and nobody will. -/
def Lost (s : System T) (a : Address) : Prop :=
  a < s.objects.length ∧ a ∉ s.deleted ∧ ¬ Held s a

/-- What loses an object: `pthread_setspecific` fails for it, or overwrites it because the
constructor of a T has called `get` on the pointer that is being initialised; the pointer is
destroyed before the thread has ended; or the thread ends with the value left. -/
def Loses (s : System T) (a : Address) : Label T → Prop
  | .construct t (.made stored) =>
      ∃ p rest key, s.frames t = .constructing p :: rest ∧ s.HasKey p key ∧
        if stored then s.data.value t key = some a else a = s.objects.length
  | .destroy p => ∃ t key, s.HasKey p key ∧ s.phase t ≠ .gone ∧ s.data.value t key = some a
  | .finish t => ∃ key ∈ s.data.inUse, s.data.value t key = some a
  | _ => False

omit [DecidableEq T] in
/-- A step that makes and deletes nothing and keeps everybody's hold. -/
theorem lost_congr (objects : s'.objects = s.objects) (deleted : s'.deleted = s.deleted)
    (held : ∀ a, Held s' a ↔ Held s a) (a : Address) : Lost s' a ↔ Lost s a := by
  unfold Lost
  rw [objects, deleted, held]

namespace Placed

variable {a : Address}

omit [DecidableEq T] in
/-- A slot is the only place of its object. -/
theorem slot_unique (placed : Placed s) {t u : T} {key k : Key} (inUse : key ∈ s.data.inUse)
    (value : s.data.value t key = some a) (inUse' : k ∈ s.data.inUse)
    (value' : s.data.value u k = some a) : u = t ∧ k = key := by
  obtain ⟨p, has, object⟩ := placed.slot inUse value
  obtain ⟨q, has', object'⟩ := placed.slot inUse' value'
  rw [object] at object'
  cases object'
  have same := has.symm.trans has'
  cases same
  exact ⟨rfl, rfl⟩

omit [DecidableEq T] in
theorem slot_below (placed : Placed s) {t : T} {key : Key} (inUse : key ∈ s.data.inUse)
    (value : s.data.value t key = some a) :
    a < s.objects.length ∧ a ∉ s.deleted ∧ ∀ u, .deleting a ∉ s.frames u := by
  obtain ⟨p, _, object⟩ := placed.slot inUse value
  obtain ⟨notDeleted, notDeleting⟩ := placed.slotLive inUse value
  refine ⟨(List.getElem?_eq_some_iff.mp object).1, notDeleted, fun u member => ?_⟩
  obtain ⟨⟨q, object'⟩, _⟩ := placed.deleting member
  rw [object] at object'
  cases object'
  exact notDeleting member

/-- A change of one thread's frames that ends and begins no deletion. -/
theorem held_frames {t : T} (now : List Frame)
    (same : ∀ a, Frame.deleting a ∈ now ↔ .deleting a ∈ s.frames t) (a : Address) :
    (∃ u, .deleting a ∈ Function.update s.frames t now u) ↔ ∃ u, .deleting a ∈ s.frames u := by
  refine exists_congr fun u => ?_
  by_cases isT : u = t
  · subst isT
    rw [Function.update_self]
    exact same a
  · rw [Function.update_of_ne isT]

omit [DecidableEq T] in
theorem lost_create {p : Nat} {key : Option Key} {bound : Bool}
    (fresh : ∀ k ∈ s.data.inUse, key ≠ some k) : Lost (s.create p key bound) a ↔ Lost s a := by
  refine lost_congr ?_ ?_ (fun b => ?_) a
  · rfl
  · rfl
  refine or_congr Iff.rfl ?_
  cases key with
  | none => exact Iff.rfl
  | some key =>
      constructor
      · rintro ⟨t, k, alive, member, value⟩
        by_cases same : k = key
        · simp [System.create, Specifics.keyCreate, same] at value
        · refine ⟨t, k, alive, ?_, ?_⟩
          · simpa [System.create, Specifics.keyCreate, same] using member
          · simpa [System.create, Specifics.keyCreate, same] using value
      · rintro ⟨t, k, alive, member, value⟩
        have other : k ≠ key := fun same => fresh k member (by rw [same])
        exact ⟨t, k, alive, List.mem_cons_of_mem _ member,
          by simpa [System.create, Specifics.keyCreate, other] using value⟩

omit [DecidableEq T] in
/-- Destroying a pointer loses exactly the objects in the slots of its key. -/
theorem lost_destroy (placed : Placed s) {p : Nat} {key : Key} (has : s.HasKey p key) :
    Lost (s.destroy p { key := key, valid := true }) a ↔
      Lost s a ∨ ∃ t, s.phase t ≠ .gone ∧ s.data.value t key = some a := by
  have erased : ∀ k, k ∈ s.data.inUse.erase key ↔ k ≠ key ∧ k ∈ s.data.inUse := fun k =>
    placed.keys.mem_erase_iff
  have inUse := placed.inUse has
  constructor
  · rintro ⟨below, notDeleted, notHeld⟩
    by_cases inSlot : ∃ t, s.phase t ≠ .gone ∧ s.data.value t key = some a
    · exact .inr inSlot
    · refine .inl ⟨below, notDeleted, fun held => notHeld ?_⟩
      rcases held with deleting | ⟨t, k, alive, member, value⟩
      · exact .inl deleting
      · refine .inr ⟨t, k, alive, (erased k).mpr ⟨?_, member⟩, value⟩
        rintro rfl
        exact inSlot ⟨t, alive, value⟩
  · rintro (⟨below, notDeleted, notHeld⟩ | ⟨t, alive, value⟩)
    · refine ⟨below, notDeleted, fun held => notHeld ?_⟩
      rcases held with deleting | ⟨t, k, alive, member, value⟩
      · exact .inl deleting
      · exact .inr ⟨t, k, alive, ((erased k).mp member).2, value⟩
    · obtain ⟨below, notDeleted, notDeleting⟩ := placed.slot_below inUse value
      refine ⟨below, notDeleted, ?_⟩
      rintro (⟨u, deleting⟩ | ⟨u, k, _, member, value'⟩)
      · exact notDeleting u deleting
      · obtain ⟨other, was⟩ := (erased k).mp member
        exact other (placed.slot_unique inUse value was value').2

theorem lost_get {t : T} {p : Nat} {this : PThreadLocalPtr} :
    Lost (s.get t p this) a ↔ Lost s a := by
  unfold System.get
  split
  · exact Iff.rfl
  · have same : ∀ b, Frame.deleting b ∈ .constructing p :: s.frames t ↔
        .deleting b ∈ s.frames t := by simp
    refine lost_congr ?_ ?_ (fun b => ?_) a
    · rfl
    · rfl
    · exact or_congr (held_frames _ same b) Iff.rfl

/-- A new object is lost when it is not stored, and the object it replaces when it is. -/
theorem lost_construct (placed : Placed s) {t : T} {p : Nat} {key : Key} {rest : List Frame}
    {stored : Bool} (has : s.HasKey p key) (frames : s.frames t = .constructing p :: rest) :
    Lost (s.construct t p { key := key, valid := true } rest (.made stored)) a ↔
      Lost s a ∨ if stored then s.data.value t key = some a else a = s.objects.length := by
  have alive : s.phase t ≠ .gone := fun isGone => by
    rw [placed.gone isGone] at frames
    cases frames
  have inUse := placed.inUse has
  obtain ⟨notDeleted, notDeleting⟩ := placed.fresh
  have deleting := held_frames (s := s) (t := t) rest (by rw [frames]; simp)
  have length : ∀ stored, (s.construct t p { key := key, valid := true } rest
      (.made stored)).objects.length = s.objects.length + 1 := fun _ => List.length_append
  cases stored with
  | false =>
      have held : Held (s.construct t p { key := key, valid := true } rest (.made false)) a ↔
          Held s a := or_congr (deleting a) Iff.rfl
      unfold Lost
      rw [length, held]
      change a < s.objects.length + 1 ∧ a ∉ s.deleted ∧ ¬ Held s a ↔ _
      constructor
      · rintro ⟨below, live, notHeld⟩
        rcases Nat.lt_succ_iff_lt_or_eq.mp below with old | new
        · exact .inl ⟨old, live, notHeld⟩
        · exact .inr new
      · rintro (⟨old, live, notHeld⟩ | new)
        · exact ⟨Nat.lt_succ_of_lt old, live, notHeld⟩
        · have isNew : a = s.objects.length := new
          subst isNew
          refine ⟨Nat.lt_succ_self _, notDeleted, ?_⟩
          rintro (⟨u, member⟩ | ⟨u, k, _, member, value⟩)
          · exact notDeleting u member
          · exact Nat.lt_irrefl _ (placed.slot_below member value).1
  | true =>
      have values : ∀ u k b, (s.construct t p { key := key, valid := true } rest
          (.made true)).data.value u k = some b ↔
            if u = t ∧ k = key then b = s.objects.length else s.data.value u k = some b := by
        intro u k b
        by_cases isT : u = t
        · subst isT
          by_cases isKey : k = key
          · subst isKey
            simp [System.construct, Specifics.setSpecific, eq_comm]
          · simp [System.construct, Specifics.setSpecific, isKey]
        · simp [System.construct, Specifics.setSpecific, isT]
      unfold Lost
      rw [length]
      change a < s.objects.length + 1 ∧ a ∉ s.deleted ∧ _ ↔ _
      constructor
      · rintro ⟨below, live, notHeld⟩
        by_cases replaced : s.data.value t key = some a
        · exact .inr replaced
        · left
          have old : a < s.objects.length := by
            refine Nat.lt_of_le_of_ne (Nat.le_of_lt_succ below) fun new => notHeld (.inr ?_)
            exact ⟨t, key, alive, inUse, (values t key a).mpr (by rw [if_pos ⟨rfl, rfl⟩]; exact new)⟩
          refine ⟨old, live, fun held => notHeld ?_⟩
          rcases held with isDeleting | ⟨u, k, stays, member, value⟩
          · exact .inl ((deleting a).mpr isDeleting)
          · refine .inr ⟨u, k, stays, member, (values u k a).mpr ?_⟩
            have other : ¬ (u = t ∧ k = key) := by
              rintro ⟨rfl, rfl⟩
              exact replaced value
            rwa [if_neg other]
      · intro either
        obtain ⟨old, live, notDeletingNow, onlySlot⟩ : a < s.objects.length ∧ a ∉ s.deleted ∧
            (¬ ∃ u, .deleting a ∈ s.frames u) ∧ ∀ u k, s.phase u ≠ .gone → k ∈ s.data.inUse →
              s.data.value u k = some a → u = t ∧ k = key := by
          rcases either with ⟨old, live, notHeld⟩ | replaced
          · exact ⟨old, live, fun isDeleting => notHeld (.inl isDeleting),
              fun u k stays member value => absurd (.inr ⟨u, k, stays, member, value⟩) notHeld⟩
          · obtain ⟨old, live, noDeleting⟩ := placed.slot_below inUse replaced
            exact ⟨old, live, not_exists.mpr noDeleting,
              fun u k _ member value => placed.slot_unique inUse replaced member value⟩
        refine ⟨Nat.lt_succ_of_lt old, live, ?_⟩
        rintro (isDeleting | ⟨u, k, stays, member, value⟩)
        · exact notDeletingNow ((deleting a).mp isDeleting)
        · have now := (values u k a).mp value
          split at now
          next => exact Nat.lt_irrefl _ (now ▸ old)
          next other => exact other (onlySlot u k stays member now)

/-- The thread's own slot becomes its deletion. -/
theorem lost_destruct {t : T} {key : Key} {b : Address} {round : Nat}
    {visited : List Key} (exiting : s.phase t = .exiting round visited) (frames : s.frames t = [])
    (inUse : key ∈ s.data.inUse) (value : s.data.value t key = some b) :
    Lost (s.destruct t key b round visited) a ↔ Lost s a := by
  have stays : ∀ u, (s.destruct t key b round visited).phase u ≠ .gone ↔ s.phase u ≠ .gone := by
    intro u
    by_cases isT : u = t
    · subst isT
      simp [System.destruct, exiting]
    · simp [System.destruct, Function.update_of_ne isT]
  have values : ∀ u k c, (s.destruct t key b round visited).data.value u k = some c ↔
      s.data.value u k = some c ∧ ¬ (u = t ∧ k = key) := by
    intro u k c
    by_cases isT : u = t
    · subst isT
      by_cases isKey : k = key
      · subst isKey
        simp [System.destruct, Specifics.setSpecific]
      · simp [System.destruct, Specifics.setSpecific, isKey]
    · simp [System.destruct, Specifics.setSpecific, isT]
  refine lost_congr ?_ ?_ (fun c => ?_) a
  · rfl
  · rfl
  constructor
  · rintro (⟨u, member⟩ | ⟨u, k, alive, member, now⟩)
    · by_cases isT : u = t
      · subst isT
        simp only [System.destruct, Function.update_self, List.mem_singleton,
          Frame.deleting.injEq] at member
        exact .inr ⟨u, key, by simp [exiting], inUse, member ▸ value⟩
      · simp only [System.destruct, Function.update_of_ne isT] at member
        exact .inl ⟨u, member⟩
    · exact .inr ⟨u, k, (stays u).mp alive, member, ((values u k c).mp now).1⟩
  · rintro (⟨u, member⟩ | ⟨u, k, alive, member, was⟩)
    · have other : u ≠ t := by
        rintro rfl
        rw [frames] at member
        cases member
      refine .inl ⟨u, ?_⟩
      simpa [System.destruct, Function.update_of_ne other] using member
    · by_cases moved : u = t ∧ k = key
      · obtain ⟨rfl, rfl⟩ := moved
        have same : c = b := Option.some.inj (was.symm.trans value)
        refine .inl ⟨u, ?_⟩
        simp [System.destruct, same]
      · exact .inr ⟨u, k, (stays u).mpr alive, member, (values u k c).mpr ⟨was, moved⟩⟩

/-- An object that has been deleted is not a lost one, and was not one before. -/
theorem lost_deleteEnd {t : T} {b : Address} {rest : List Frame}
    (frames : s.frames t = .deleting b :: rest) :
    Lost { s with
      frames := Function.update s.frames t rest
      deleted := s.deleted ++ [b] } a ↔ Lost s a := by
  have was : .deleting b ∈ s.frames t := by rw [frames]; exact List.mem_cons_self
  unfold Lost
  change a < s.objects.length ∧ a ∉ s.deleted ++ [b] ∧ _ ↔ _
  by_cases same : a = b
  · subst same
    constructor
    · rintro ⟨_, notDeleted, _⟩
      simp at notDeleted
    · rintro ⟨_, _, notHeld⟩
      exact absurd (.inl ⟨t, was⟩) notHeld
  · have member : ∀ u, .deleting a ∈ Function.update s.frames t rest u ↔
        .deleting a ∈ s.frames u := by
      intro u
      by_cases isT : u = t
      · subst isT
        rw [Function.update_self, frames]
        simp [same]
      · rw [Function.update_of_ne isT]
    have held : Held { s with
        frames := Function.update s.frames t rest
        deleted := s.deleted ++ [b] } a ↔ Held s a :=
      or_congr (exists_congr member) Iff.rfl
    rw [held, List.mem_append, List.mem_singleton]
    simp [same]

/-- A thread that goes from one phase to another before its end. -/
theorem lost_phase {t : T} {phase : Phase} (was : s.phase t ≠ .gone) (is : phase ≠ .gone) :
    Lost { s with phase := Function.update s.phase t phase } a ↔ Lost s a := by
  refine lost_congr ?_ ?_ (fun b => ?_) a
  · rfl
  · rfl
  refine or_congr Iff.rfl ?_
  refine exists_congr fun u => exists_congr fun k => and_congr ?_ Iff.rfl
  by_cases isT : u = t
  · subst isT
    simp [was, is]
  · simp [Function.update_of_ne isT]

/-- A thread that ends loses exactly what it has left. -/
theorem lost_finish (placed : Placed s) {t : T} (alive : s.phase t ≠ .gone) :
    Lost { s with phase := Function.update s.phase t .gone } a ↔
      Lost s a ∨ ∃ key ∈ s.data.inUse, s.data.value t key = some a := by
  have stays : ∀ u, Function.update s.phase t .gone u ≠ .gone ↔ u ≠ t ∧ s.phase u ≠ .gone := by
    intro u
    by_cases isT : u = t
    · simp [isT]
    · simp [isT]
  constructor
  · rintro ⟨below, live, notHeld⟩
    by_cases left : ∃ key ∈ s.data.inUse, s.data.value t key = some a
    · exact .inr left
    · refine .inl ⟨below, live, fun held => notHeld ?_⟩
      rcases held with deleting | ⟨u, k, wasHere, member, value⟩
      · exact .inl deleting
      · refine .inr ⟨u, k, (stays u).mpr ⟨?_, wasHere⟩, member, value⟩
        rintro rfl
        exact left ⟨k, member, value⟩
  · rintro (⟨below, live, notHeld⟩ | ⟨key, inUse, value⟩)
    · refine ⟨below, live, fun held => notHeld ?_⟩
      rcases held with deleting | ⟨u, k, isHere, member, value⟩
      · exact .inl deleting
      · exact .inr ⟨u, k, ((stays u).mp isHere).2, member, value⟩
    · obtain ⟨below, live, notDeleting⟩ := placed.slot_below inUse value
      refine ⟨below, live, ?_⟩
      rintro (⟨u, member⟩ | ⟨u, k, isHere, member, value'⟩)
      · exact notDeleting u member
      · exact ((stays u).mp isHere).1 (placed.slot_unique inUse value member value').1

/-- A step loses an object exactly when it is one of the four kinds. -/
theorem lost_transition (placed : Placed s) (valid : UsesValid s l)
    (moved : Transition iterations s l s') : Lost s' a ↔ Lost s a ∨ Loses s a l := by
  cases moved with
  | create p key bound _ fresh => simp only [Loses, or_false, lost_create fresh]
  | destroy p this alive =>
      obtain ⟨key, isValid⟩ := this
      obtain rfl : isValid = true := valid _ alive
      have only : Loses s a (.destroy p) ↔ ∃ t, s.phase t ≠ .gone ∧ s.data.value t key = some a := by
        refine exists_congr fun t => ⟨?_, fun ⟨here, value⟩ => ⟨key, alive, here, value⟩⟩
        rintro ⟨k, has, here, value⟩
        have same := has.symm.trans alive
        cases same
        exact ⟨here, value⟩
      rw [only]
      exact placed.lost_destroy alive
  | get t p this _ _ _ => simp only [Loses, or_false, lost_get]
  | construct t p this rest outcome frames alive inUse =>
      have constructing : .constructing p ∈ s.frames t := by rw [frames]; exact List.mem_cons_self
      obtain ⟨key, has⟩ := (placed.constructing constructing).resolve_left fun destroyed => by
        rw [destroyed] at alive
        cases alive
      have same := alive.symm.trans has
      cases same
      cases outcome with
      | threw =>
          simp only [Loses, or_false]
          have same : ∀ b, Frame.deleting b ∈ rest ↔ .deleting b ∈ s.frames t := by simp [frames]
          refine lost_congr ?_ ?_ (fun b => ?_) a
          · rfl
          · rfl
          · exact or_congr (held_frames _ same b) Iff.rfl
      | made stored =>
          have only : Loses s a (.construct t (.made stored)) ↔
              if stored then s.data.value t key = some a else a = s.objects.length := by
            constructor
            · rintro ⟨q, tail, k, now, has', lost⟩
              rw [frames] at now
              cases now
              have same := has.symm.trans has'
              cases same
              exact lost
            · exact fun lost => ⟨p, rest, key, frames, has, lost⟩
          rw [only]
          exact placed.lost_construct has frames
  | exit t running _ =>
      simp only [Loses, or_false]
      exact lost_phase (by rw [running]; nofun) nofun
  | destruct t key b round visited exiting frames inUse value =>
      simp only [Loses, or_false]
      exact lost_destruct exiting frames inUse value
  | deleteEnd t b rest frames =>
      simp only [Loses, or_false]
      exact lost_deleteEnd frames
  | nextRound t round visited exiting _ =>
      simp only [Loses, or_false]
      exact lost_phase (by rw [exiting]; nofun) nofun
  | finish t round visited exiting _ _ => exact placed.lost_finish (by rw [exiting]; nofun)

end Placed

/-! ## Runs -/

/-- The step loses nothing. -/
def KeepsObjects (s : System T) (l : Label T) : Prop := UsesValid s l ∧ ∀ a, ¬ Loses s a l

omit [DecidableEq T] in
/-- Nothing is about to be deleted, or could still be, for a thread that has ended. -/
theorem Placed.not_held_of_gone (placed : Placed s) {a : Address} {t : T} {p : Nat}
    (object : s.objects[a]? = some (t, p)) (gone : s.phase t = .gone) : ¬ Held s a := by
  rintro (⟨u, member⟩ | ⟨u, k, alive, member, value⟩)
  · obtain ⟨⟨q, object'⟩, _⟩ := placed.deleting member
    rw [object] at object'
    cases object'
    rw [placed.gone gone] at member
    cases member
  · obtain ⟨q, _, object'⟩ := placed.slot member value
    rw [object] at object'
    cases object'
    exact alive gone

/-- Every object of a thread that has ended has been deleted, once, or is lost; a
step loses exactly the objects that `Loses` says; and a run without such steps
deletes all objects of the threads that have ended. -/
theorem objects_deleted (T : Type) [DecidableEq T] (iterations : Nat) :
    (∀ s, (machine T iterations).ReachableUnder UsesValid s → ∀ a t p,
      s.objects[a]? = some (t, p) → s.phase t = .gone →
        (s.deleted.count a = 1 ↔ ¬ Lost s a)) ∧
    (∀ s l s', (machine T iterations).ReachableUnder UsesValid s → UsesValid s l →
      step iterations s l = some s' → ∀ a, Lost s' a ↔ Lost s a ∨ Loses s a l) ∧
    (∀ s, (machine T iterations).ReachableUnder KeepsObjects s → ∀ a t p,
      s.objects[a]? = some (t, p) → s.phase t = .gone → s.deleted.count a = 1) := by
  have decided : ∀ s, (machine T iterations).ReachableUnder UsesValid s → ∀ a t p,
      s.objects[a]? = some (t, p) → s.phase t = .gone →
        (s.deleted.count a = 1 ↔ ¬ Lost s a) := by
    intro s reachable a t p object gone
    have placed := placed_of_reachable reachable
    constructor
    · intro once lost
      exact lost.2.1 (List.count_pos_iff.mp (by omega))
    · intro notLost
      apply List.count_eq_one_of_mem placed.deletedOnce
      by_contra notDeleted
      exact notLost ⟨(List.getElem?_eq_some_iff.mp object).1, notDeleted,
        placed.not_held_of_gone object gone⟩
  refine ⟨decided, fun s l s' reachable valid stepEq a => ?_, fun s reachable a t p object gone => ?_⟩
  · exact (placed_of_reachable reachable).lost_transition valid (transition_of_step stepEq)
  · refine (decided s (reachable.mono fun _ _ => And.left) a t p object gone).mpr ?_
    have nothing : ∀ b, ¬ Lost s b := by
      refine reachable.invariant (motive := fun s => ∀ b, ¬ Lost s b) (fun b lost => ?_) ?_
      · exact absurd lost.1 (Nat.not_lt_zero b)
      · intro now l next before none keeps stepEq b lost
        have placed := placed_of_reachable (before.mono fun _ _ => And.left)
        rcases (placed.lost_transition keeps.1 (transition_of_step stepEq)).mp lost with old | loses
        · exact none b old
        · exact keeps.2 b loses
    exact nothing a

/-- The constructor of a T calls `get` on the pointer that is being initialised: the inner call's
object is overwritten and never deleted. -/
theorem objects_deleted_reentrant :
    ∃ s, (machine Bool 4).ReachableUnder UsesValid s ∧
      s.objects = [(true, 0), (true, 0)] ∧ s.phase true = .gone ∧ s.deleted = [1] ∧
      Lost s 0 := by
  have run : ((machine Bool 4).execUnder UsesValid initial
      [.create 0 (some 2) true, .get true 0, .get true 0, .construct true (.made true),
        .construct true (.made true), .exit true, .destruct true 2, .deleteEnd true,
        .finish true]).map (fun s => (s.objects, s.phase true, s.deleted)) =
      some ([(true, 0), (true, 0)], .gone, [1]) := by
    decide
  obtain ⟨s, runs, observed⟩ := Option.map_eq_some_iff.mp run
  simp only [Prod.mk.injEq] at observed
  obtain ⟨objects, gone, deleted⟩ := observed
  have reached := Machine.reachableUnder_of_execUnder runs
  obtain ⟨decided, _⟩ := objects_deleted Bool 4
  have object : s.objects[0]? = some (true, 0) := by rw [objects]; rfl
  have notOnce : ¬ s.deleted.count 0 = 1 := by rw [deleted]; decide
  have lost : Lost s 0 := by
    by_contra notLost
    exact notOnce ((decided s reached 0 true 0 object gone).mpr notLost)
  exact ⟨s, reached, objects, gone, deleted, lost⟩

end Conc11.LocalPtr
