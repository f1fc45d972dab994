/-
Module: Conc11.LocalPtr.Objects
Purpose: Whose objects `get` returns.  Every thread gets objects of its own, live ones and the same one again, and
  nobody else deletes them.
Trusted boundary: none
Main exports: UsesValid, Placed, placed_of_reachable, own_objects, get_stable
-/
import Conc11.LocalPtr.Model

namespace Conc11.LocalPtr

open Library

variable {T : Type} [DecidableEq T] {iterations : Nat} {s s' : System T} {l : Label T}

/-! ## Where the objects are -/

/-- The label uses no pointer for which `is_valid()` is false. -/
def UsesValid (s : System T) : Label T → Prop
  | .destroy p | .get _ p => ∀ this, s.ptrs p = .alive this → this.valid = true
  | _ => True

omit [DecidableEq T] in
private theorem usesValid_iff (s : System T) (p : Nat) :
    (∀ this, s.ptrs p = .alive this → this.valid = true) ↔
      (match s.ptrs p with
        | .alive this => this.valid
        | _ => true) = true := by
  cases s.ptrs p <;> simp

instance (s : System T) : (l : Label T) → Decidable (UsesValid s l)
  | .destroy p | .get _ p => decidable_of_iff _ (usesValid_iff s p).symm
  | .create _ _ _ | .construct _ _ | .exit _ | .destruct _ _ | .deleteEnd _ | .nextRound _
  | .finish _ => .isTrue trivial

/-- Pointer `p` is alive with key `key`, and its constructor had created the key. -/
def System.HasKey (s : System T) (p : Nat) (key : Key) : Prop :=
  s.ptrs p = .alive { key := key, valid := true }

section

omit [DecidableEq T]

variable (s)

theorem System.create_ptrs_of_ne {p q : Nat} (other : q ≠ p) (key : Option Key) (bound : Bool) :
    (s.create p key bound).ptrs q = s.ptrs q :=
  Function.update_of_ne other ..

theorem System.destroy_ptrs_of_ne {p q : Nat} (other : q ≠ p) (this : PThreadLocalPtr) :
    (s.destroy p this).ptrs q = s.ptrs q :=
  Function.update_of_ne other ..

end

/-- The objects are in the slots of their own threads, under the keys of their own pointers. -/
structure Placed (s : System T) : Prop where
  keys : s.data.inUse.Nodup
  inUse : ∀ {p key}, s.HasKey p key → key ∈ s.data.inUse
  ofKey : ∀ {p q key}, s.HasKey p key → s.HasKey q key → p = q
  slot : ∀ {t key a}, key ∈ s.data.inUse → s.data.value t key = some a →
    ∃ p, s.HasKey p key ∧ s.objects[a]? = some (t, p)
  slotLive : ∀ {t key a}, key ∈ s.data.inUse → s.data.value t key = some a →
    a ∉ s.deleted ∧ .deleting a ∉ s.frames t
  constructing : ∀ {t p}, .constructing p ∈ s.frames t →
    s.ptrs p = .destroyed ∨ ∃ key, s.HasKey p key
  deleting : ∀ {t a}, .deleting a ∈ s.frames t →
    (∃ p, s.objects[a]? = some (t, p)) ∧ a ∉ s.deleted
  once : ∀ {t a}, (s.frames t).count (.deleting a) ≤ 1
  deletedOnce : s.deleted.Nodup
  deleted : ∀ {a}, a ∈ s.deleted → a < s.objects.length
  gotten : ∀ {t p a}, (t, p, a) ∈ s.gotten → s.objects[a]? = some (t, p)
  gone : ∀ {t}, s.phase t = .gone → s.frames t = []

namespace Placed

omit [DecidableEq T] in
/-- A new object goes to an address that nothing refers to. -/
theorem fresh (placed : Placed s) :
    s.objects.length ∉ s.deleted ∧ ∀ t, .deleting s.objects.length ∉ s.frames t := by
  constructor
  · exact fun member => Nat.lt_irrefl _ (placed.deleted member)
  · intro t member
    obtain ⟨⟨p, object⟩, _⟩ := placed.deleting member
    simp at object

omit [DecidableEq T] in
theorem initial : Placed (initial : System T) := by
  constructor <;> simp [LocalPtr.initial, System.HasKey]

omit [DecidableEq T] in
/-- Only the phases change. -/
theorem phases (placed : Placed s) {phase : T → Phase}
    (gone : ∀ t, phase t = .gone → s.frames t = []) : Placed { s with phase := phase } :=
  { placed with gone := fun {t} isGone => gone t isGone }

/-- The frames of one thread change, and nothing is about to be deleted that was not before. -/
theorem withFrames (placed : Placed s) {t : T} {now : List Frame}
    (constructing : ∀ p, .constructing p ∈ now → s.ptrs p = .destroyed ∨ ∃ key, s.HasKey p key)
    (fewer : ∀ a, now.count (.deleting a) ≤ (s.frames t).count (.deleting a))
    (alive : s.phase t = .gone → now = []) :
    Placed { s with frames := Function.update s.frames t now } := by
  have before : ∀ {u a}, .deleting a ∈ Function.update s.frames t now u →
      .deleting a ∈ s.frames u := by
    intro u a member
    by_cases same : u = t
    · subst same
      rw [Function.update_self] at member
      exact List.count_pos_iff.mp (Nat.lt_of_lt_of_le (List.count_pos_iff.mpr member) (fewer a))
    · rwa [Function.update_of_ne same] at member
  refine { placed with
    slotLive := fun inUse value => ⟨(placed.slotLive inUse value).1, fun member =>
      (placed.slotLive inUse value).2 (before member)⟩
    constructing := ?_, deleting := fun member => placed.deleting (before member)
    once := ?_, gone := ?_ }
  · intro u p member
    by_cases same : u = t
    · subst same
      exact constructing p (by simpa using member)
    · exact placed.constructing (t := u) (by simpa [Function.update_of_ne same] using member)
  · intro u a
    by_cases same : u = t
    · subst same
      simpa using Nat.le_trans (fewer a) placed.once
    · simpa [Function.update_of_ne same] using placed.once (t := u)
  · intro u isGone
    by_cases same : u = t
    · subst same
      simpa using alive isGone
    · simpa [Function.update_of_ne same] using placed.gone isGone

omit [DecidableEq T] in
/-- The constructor makes a key of its own, under which nobody has a value. -/
theorem create (placed : Placed s) {p : Nat} {key : Option Key} {bound : Bool}
    (unborn : s.ptrs p = .unborn) (fresh : ∀ k ∈ s.data.inUse, key ≠ some k) :
    Placed (s.create p key bound) := by
  have notP : ∀ {q k}, s.HasKey q k → q ≠ p := by
    rintro q k has rfl
    rw [System.HasKey, unborn] at has
    cases has
  have kept : ∀ {q k}, s.HasKey q k → (s.create p key bound).HasKey q k := fun has => by
    rw [System.HasKey, s.create_ptrs_of_ne (notP has)]
    exact has
  -- a new key belongs to the new pointer
  have has_cases : ∀ {q k}, (s.create p key bound).HasKey q k →
      s.HasKey q k ∨ q = p ∧ key = some k := by
    intro q k has
    by_cases same : q = p
    · subst same
      right
      cases key <;> cases bound <;> simp_all [System.HasKey, System.create]
    · left
      simpa [System.HasKey, System.create, Function.update_of_ne same] using has
  have inUse_cases : ∀ {k t a}, k ∈ (s.create p key bound).data.inUse →
      (s.create p key bound).data.value t k = some a →
      k ∈ s.data.inUse ∧ s.data.value t k = some a := by
    intro k t a member value
    cases key with
    | none => exact ⟨member, value⟩
    | some key =>
        by_cases same : k = key
        · simp [System.create, Specifics.keyCreate, same] at value
        · simp_all [System.create, Specifics.keyCreate]
  refine { placed with
    keys := ?_, inUse := ?_, ofKey := ?_, slot := ?_, slotLive := ?_, constructing := ?_ }
  · cases key with
    | none => exact placed.keys
    | some key => exact List.nodup_cons.mpr ⟨fun member => fresh key member rfl, placed.keys⟩
  · intro q k has
    rcases has_cases has with old | ⟨rfl, rfl⟩
    · cases key with
      | none => exact placed.inUse old
      | some key => exact List.mem_cons_of_mem _ (placed.inUse old)
    · exact List.mem_cons_self
  · intro q r k has has'
    rcases has_cases has with old | ⟨rfl, rfl⟩ <;> rcases has_cases has' with old' | ⟨rfl, isKey⟩
    · exact placed.ofKey old old'
    · exact absurd isKey (fresh k (placed.inUse old))
    · exact absurd rfl (fresh k (placed.inUse old'))
    · rfl
  · intro t k a member value
    obtain ⟨was, had⟩ := inUse_cases member value
    obtain ⟨q, has, object⟩ := placed.slot was had
    exact ⟨q, kept has, object⟩
  · intro t k a member value
    obtain ⟨was, had⟩ := inUse_cases member value
    exact placed.slotLive was had
  · intro t q member
    have other : q ≠ p := by
      rintro rfl
      rcases placed.constructing member with is | ⟨k, has⟩
      · rw [unborn] at is
        cases is
      · exact notP has rfl
    rcases placed.constructing member with is | ⟨k, has⟩
    · left
      rw [s.create_ptrs_of_ne other]
      exact is
    · exact .inr ⟨k, kept has⟩

omit [DecidableEq T] in
/-- The destructor gives its key back. -/
theorem destroy (placed : Placed s) {p : Nat} {key : Key} (has : s.HasKey p key) :
    Placed (s.destroy p { key := key, valid := true }) := by
  have kept : ∀ {q k}, s.HasKey q k → q ≠ p →
      (s.destroy p { key := key, valid := true }).HasKey q k := fun other ne => by
    rw [System.HasKey, s.destroy_ptrs_of_ne ne]
    exact other
  have has_cases : ∀ {q k}, (s.destroy p { key := key, valid := true }).HasKey q k →
      s.HasKey q k ∧ q ≠ p := by
    intro q k now
    by_cases same : q = p
    · simp [System.HasKey, System.destroy, same] at now
    · exact ⟨by simpa [System.HasKey, System.destroy, Function.update_of_ne same] using now, same⟩
  have erased : ∀ {k}, k ∈ s.data.inUse.erase key ↔ k ≠ key ∧ k ∈ s.data.inUse :=
    placed.keys.mem_erase_iff
  refine { placed with
    keys := placed.keys.erase key, inUse := ?_, ofKey := ?_, slot := ?_, slotLive := ?_,
    constructing := ?_ }
  · intro q k now
    obtain ⟨old, ne⟩ := has_cases now
    refine erased.mpr ⟨?_, placed.inUse old⟩
    rintro rfl
    exact ne (placed.ofKey old has)
  · exact fun now now' => placed.ofKey (has_cases now).1 (has_cases now').1
  · intro t k a member value
    obtain ⟨other, was⟩ := erased.mp member
    obtain ⟨q, old, object⟩ := placed.slot was value
    refine ⟨q, kept old ?_, object⟩
    rintro rfl
    have same := has.symm.trans old
    cases same
    exact other rfl
  · exact fun member value => placed.slotLive (erased.mp member).2 value
  · intro t q member
    by_cases same : q = p
    · left
      rw [same]
      exact Function.update_self ..
    · rcases placed.constructing member with is | ⟨k, old⟩
      · left
        rw [s.destroy_ptrs_of_ne same]
        exact is
      · exact .inr ⟨k, kept old same⟩

/-- `get` returns what is in the slot or starts to construct. -/
theorem get (placed : Placed s) {t : T} {p : Nat} {key : Key} (has : s.HasKey p key)
    (here : s.phase t = .running ∨ s.frames t ≠ []) :
    Placed (s.get t p { key := key, valid := true }) := by
  unfold System.get
  split
  next a value =>
    obtain ⟨q, owner, object⟩ := placed.slot (placed.inUse has) value
    obtain rfl := placed.ofKey has owner
    refine { placed with gotten := fun {u q b} member => ?_ }
    rcases List.mem_append.mp member with old | new
    · exact placed.gotten old
    · cases List.mem_singleton.mp new
      exact object
  next =>
    refine placed.withFrames (fun q member => ?_) (fun a => ?_) fun isGone => ?_
    · rcases List.mem_cons.mp member with new | old
      · cases new
        exact .inr ⟨key, has⟩
      · exact placed.constructing old
    · exact Nat.le_of_eq (List.count_cons_of_ne (by simp))
    · rcases here with running | busy
      · rw [running] at isGone
        cases isGone
      · exact absurd (placed.gone isGone) busy

/-- A new object of the calling thread, in the slot unless `pthread_setspecific` failed. -/
theorem construct (placed : Placed s) {t : T} {p : Nat} {key : Key} {rest : List Frame}
    (outcome : Made) (has : s.HasKey p key) (frames : s.frames t = .constructing p :: rest) :
    Placed (s.construct t p { key := key, valid := true } rest outcome) := by
  have popped : Placed { s with frames := Function.update s.frames t rest } := by
    refine placed.withFrames (fun q member => ?_) (fun a => ?_) fun isGone => ?_
    · exact placed.constructing (t := t) (by rw [frames]; exact List.mem_cons_of_mem _ member)
    · have other : Frame.constructing p ≠ .deleting a := Frame.noConfusion
      exact Nat.le_of_eq (by rw [frames, List.count_cons_of_ne other])
    · have none := placed.gone isGone
      rw [frames] at none
      cases none
  cases outcome with
  | threw => exact popped
  | made stored =>
      obtain ⟨notDeleted, notDeleting⟩ := popped.fresh
      have old : ∀ {a owner}, s.objects[a]? = some owner →
          (s.objects ++ [(t, p)])[a]? = some owner := fun object => by
        rw [List.getElem?_append_left (List.getElem?_eq_some_iff.mp object).1]
        exact object
      have new : (s.objects ++ [(t, p)])[s.objects.length]? = some (t, p) :=
        List.getElem?_concat_length ..
      -- the slots are as before, but for the one of the new object
      have value_cases : ∀ {u k a},
          (s.construct t p { key := key, valid := true } rest (.made stored)).data.value u k =
            some a → s.data.value u k = some a ∨ u = t ∧ k = key ∧ a = s.objects.length := by
        intro u k a value
        cases stored with
        | false => exact .inl value
        | true =>
            by_cases same : u = t
            · subst same
              by_cases isKey : k = key
              · subst isKey
                right
                simpa [System.construct, Specifics.setSpecific, eq_comm] using value
              · left
                simpa [System.construct, Specifics.setSpecific, Function.update_of_ne isKey]
                  using value
            · left
              simpa [System.construct, Specifics.setSpecific, Function.update_of_ne same] using value
      have inUse : (s.construct t p { key := key, valid := true } rest (.made stored)).data.inUse =
          s.data.inUse := by
        cases stored <;> rfl
      refine { popped with
        keys := inUse ▸ placed.keys, inUse := fun now => inUse ▸ placed.inUse now
        slot := fun {u k a} member value => ?_, slotLive := fun {u k a} member value => ?_
        deleting := fun member => ?_, deleted := fun member => ?_, gotten := fun member => ?_ }
      · rw [inUse] at member
        rcases value_cases value with was | ⟨rfl, rfl, rfl⟩
        · obtain ⟨q, owner, object⟩ := placed.slot member was
          exact ⟨q, owner, old object⟩
        · exact ⟨p, has, new⟩
      · rw [inUse] at member
        rcases value_cases value with was | ⟨rfl, rfl, rfl⟩
        · exact popped.slotLive member was
        · exact ⟨notDeleted, notDeleting u⟩
      · obtain ⟨⟨q, object⟩, live⟩ := popped.deleting member
        exact ⟨⟨q, old object⟩, live⟩
      · have below := placed.deleted member
        change _ < (s.objects ++ [(t, p)]).length
        rw [List.length_append]
        exact Nat.lt_add_right _ below
      · rcases List.mem_append.mp member with before | last
        · exact old (placed.gotten before)
        · cases List.mem_singleton.mp last
          exact new

/-- The value goes from the slot to `deleter`. -/
theorem destruct (placed : Placed s) {t : T} {key : Key} {a : Address} {round : Nat}
    {visited : List Key} (frames : s.frames t = []) (inUse : key ∈ s.data.inUse)
    (value : s.data.value t key = some a) : Placed (s.destruct t key a round visited) := by
  have value_cases : ∀ {u k b}, (s.destruct t key a round visited).data.value u k = some b →
      s.data.value u k = some b ∧ (u = t → k ≠ key) := by
    intro u k b now
    by_cases same : u = t
    · subst same
      by_cases isKey : k = key
      · simp [System.destruct, Specifics.setSpecific, isKey] at now
      · refine ⟨?_, fun _ => isKey⟩
        simpa [System.destruct, Specifics.setSpecific, Function.update_of_ne isKey] using now
    · refine ⟨?_, fun isT => absurd isT same⟩
      simpa [System.destruct, Specifics.setSpecific, Function.update_of_ne same] using now
  have frames_cases : ∀ {u f}, f ∈ (s.destruct t key a round visited).frames u →
      f ∈ s.frames u ∨ u = t ∧ f = .deleting a := by
    intro u f member
    by_cases same : u = t
    · subst same
      right
      simpa [System.destruct] using member
    · left
      simpa [System.destruct, Function.update_of_ne same] using member
  obtain ⟨p, has, object⟩ := placed.slot inUse value
  obtain ⟨notDeleted, _⟩ := placed.slotLive inUse value
  refine { placed with
    slot := fun member now => placed.slot member (value_cases now).1
    slotLive := fun {u k b} member now => ?_, constructing := fun member => ?_
    deleting := fun member => ?_, once := fun {u b} => ?_, gone := fun {u} isGone => ?_ }
  · obtain ⟨was, otherKey⟩ := value_cases now
    refine ⟨(placed.slotLive member was).1, fun about => ?_⟩
    rcases frames_cases about with old | ⟨rfl, isA⟩
    · exact (placed.slotLive member was).2 old
    · -- the object has one place, the slot under the key of its pointer
      cases isA
      obtain ⟨q, owner, object'⟩ := placed.slot member was
      rw [object] at object'
      cases object'
      have same := has.symm.trans owner
      cases same
      exact otherKey rfl rfl
  · rcases frames_cases member with old | ⟨_, isDeleting⟩
    · exact placed.constructing old
    · cases isDeleting
  · rcases frames_cases member with old | ⟨rfl, isA⟩
    · exact placed.deleting old
    · cases isA
      exact ⟨⟨p, object⟩, notDeleted⟩
  · by_cases same : u = t
    · subst same
      simp only [System.destruct, Function.update_self]
      exact List.count_le_length
    · simpa [System.destruct, Function.update_of_ne same] using placed.once (t := u)
  · by_cases same : u = t
    · subst same
      simp [System.destruct] at isGone
    · simp only [System.destruct, Function.update_of_ne same] at isGone ⊢
      exact placed.gone isGone

/-- The destructor of a T returns. -/
theorem deleteEnd (placed : Placed s) {t : T} {a : Address} {rest : List Frame}
    (frames : s.frames t = .deleting a :: rest) :
    Placed { s with
      frames := Function.update s.frames t rest
      deleted := s.deleted ++ [a] } := by
  have popped : Placed { s with frames := Function.update s.frames t rest } := by
    refine placed.withFrames (fun q member => ?_) (fun b => ?_) fun isGone => ?_
    · exact placed.constructing (t := t) (by rw [frames]; exact List.mem_cons_of_mem _ member)
    · rw [frames]
      exact List.count_le_count_cons
    · have none := placed.gone isGone
      rw [frames] at none
      cases none
  have wasDeleting : .deleting a ∈ s.frames t := by rw [frames]; exact List.mem_cons_self
  obtain ⟨⟨p, object⟩, live⟩ := placed.deleting wasDeleting
  -- the thread had no other frame for the object
  have notAgain : ∀ u, .deleting a ∉ Function.update s.frames t rest u := by
    intro u member
    by_cases same : u = t
    · subst same
      rw [Function.update_self] at member
      have twice := placed.once (t := u) (a := a)
      rw [frames, List.count_cons_self] at twice
      have some := List.count_pos_iff.mpr member
      omega
    · rw [Function.update_of_ne same] at member
      obtain ⟨⟨q, object'⟩, _⟩ := placed.deleting member
      rw [object] at object'
      cases object'
      exact same rfl
  refine { popped with
    slotLive := fun member value => ?_, deleting := fun {u b} member => ?_
    deletedOnce := ?_, deleted := fun {b} member => ?_ }
  · obtain ⟨notDeleted, notDeleting⟩ := popped.slotLive member value
    refine ⟨fun now => ?_, notDeleting⟩
    rcases List.mem_append.mp now with old | new
    · exact notDeleted old
    · cases List.mem_singleton.mp new
      obtain ⟨q, _, object'⟩ := placed.slot member value
      rw [object] at object'
      cases object'
      exact (placed.slotLive member value).2 wasDeleting
  · obtain ⟨owner, notDeleted⟩ := popped.deleting member
    refine ⟨owner, fun now => ?_⟩
    rcases List.mem_append.mp now with old | new
    · exact notDeleted old
    · cases List.mem_singleton.mp new
      exact notAgain u member
  · exact List.nodup_append.mpr ⟨placed.deletedOnce, List.nodup_singleton a, fun b old c isA => by
      rw [List.mem_singleton.mp isA]
      rintro rfl
      exact live old⟩
  · rcases List.mem_append.mp member with old | new
    · exact placed.deleted old
    · cases List.mem_singleton.mp new
      exact (List.getElem?_eq_some_iff.mp object).1

/-- Every step keeps the objects where they belong. -/
theorem transition (placed : Placed s) (valid : UsesValid s l)
    (moved : Transition iterations s l s') : Placed s' := by
  have asKey : ∀ {p : Nat} {this : PThreadLocalPtr}, s.ptrs p = .alive this → this.valid = true →
      this = { key := this.key, valid := true } ∧ s.HasKey p this.key := by
    rintro p ⟨key, isValid⟩ alive rfl
    exact ⟨rfl, alive⟩
  have phases : ∀ {t phase}, phase ≠ .gone ∨ s.frames t = [] →
      Placed { s with phase := Function.update s.phase t phase } := by
    intro t phase allowed
    refine placed.phases fun u isGone => ?_
    by_cases same : u = t
    · subst same
      rw [Function.update_self] at isGone
      exact allowed.resolve_left (absurd isGone)
    · rw [Function.update_of_ne same] at isGone
      exact placed.gone isGone
  cases moved with
  | create p key bound unborn fresh => exact placed.create unborn fresh
  | destroy p this alive =>
      obtain ⟨same, has⟩ := asKey alive (valid this alive)
      rw [same]
      exact placed.destroy has
  | get t p this alive _ here =>
      obtain ⟨same, has⟩ := asKey alive (valid this alive)
      rw [same]
      exact placed.get has here
  | construct t p this rest outcome frames alive _ =>
      have constructing : .constructing p ∈ s.frames t := by rw [frames]; exact List.mem_cons_self
      rcases placed.constructing constructing with gone | ⟨key, has⟩
      · rw [gone] at alive
        cases alive
      · have same := alive.symm.trans has
        cases same
        exact placed.construct outcome has frames
  | exit t _ _ => exact phases (.inl nofun)
  | destruct t key a round visited _ frames inUse value => exact placed.destruct frames inUse value
  | deleteEnd t a rest frames => exact placed.deleteEnd frames
  | nextRound t round visited _ _ => exact phases (.inl nofun)
  | finish t round visited _ frames _ => exact phases (.inr frames)

end Placed

theorem placed_of_reachable (reachable : (machine T iterations).ReachableUnder UsesValid s) :
    Placed s :=
  reachable.invariant .initial fun _ _ _ _ placed valid stepEq =>
    placed.transition valid (transition_of_step stepEq)

/-! ## What `get` returns -/

/-- The result of a call is alive. -/
theorem Placed.gotten_live (placed : Placed s) (valid : UsesValid s l)
    (moved : Transition iterations s l s') {t : T} {p : Nat} {a : Address}
    (result : s'.gotten = s.gotten ++ [(t, p, a)]) :
    a ∉ s'.deleted ∧ ∀ u, .deleting a ∉ s'.frames u := by
  have quiet : s'.gotten = s.gotten → False := fun same => by
    rw [same] at result
    simp at result
  cases moved with
  | get u q this alive inUse here =>
      revert result quiet
      unfold System.get
      split
      next b value =>
        intro result _
        cases List.append_cancel_left result
        obtain ⟨owner, _, object⟩ := placed.slot inUse value
        obtain ⟨notDeleted, notDeleting⟩ := placed.slotLive inUse value
        refine ⟨notDeleted, fun v member => ?_⟩
        obtain ⟨⟨r, object'⟩, _⟩ := placed.deleting member
        rw [object] at object'
        cases object'
        exact notDeleting member
      next => exact fun _ quiet => (quiet rfl).elim
  | construct u q this rest outcome frames alive inUse =>
      cases outcome with
      | threw => exact (quiet rfl).elim
      | made stored =>
          cases List.append_cancel_left result
          obtain ⟨notDeleted, notDeleting⟩ := placed.fresh
          refine ⟨notDeleted, fun v member => ?_⟩
          by_cases same : v = t
          · subst same
            simp only [System.construct, Function.update_self] at member
            exact notDeleting v (by rw [frames]; exact List.mem_cons_of_mem _ member)
          · simp only [System.construct, Function.update_of_ne same] at member
            exact notDeleting v member
  | _ => exact (quiet rfl).elim

/-- Every result of `get` is an object that the calling thread has constructed
for that pointer, alive when it is returned, so no two threads and no two
pointers share one; an object is deleted by its own thread, and only once. -/
theorem own_objects (T : Type) [DecidableEq T] (iterations : Nat) {s : System T}
    (reachable : (machine T iterations).ReachableUnder UsesValid s) :
    (∀ t p a, (t, p, a) ∈ s.gotten → s.objects[a]? = some (t, p)) ∧
    (∀ t a, .deleting a ∈ s.frames t → ∃ p, s.objects[a]? = some (t, p)) ∧
    s.deleted.Nodup ∧
    ∀ l s' t p a, UsesValid s l → step iterations s l = some s' →
      s'.gotten = s.gotten ++ [(t, p, a)] → a ∉ s'.deleted ∧ ∀ u, .deleting a ∉ s'.frames u := by
  have placed := placed_of_reachable reachable
  exact ⟨fun _ _ _ => placed.gotten, fun _ _ member => (placed.deleting member).1,
    placed.deletedOnce, fun l s' t p a valid stepEq result =>
      placed.gotten_live valid (transition_of_step stepEq) result⟩

/-- Two threads use one pointer, the first of them twice. -/
theorem own_objects_two_threads :
    ∃ s, (machine Bool 4).ReachableUnder UsesValid s ∧
      s.gotten = [(false, 7, 0), (true, 7, 1), (false, 7, 0)] ∧
      s.objects[0]? = some (false, 7) ∧ s.objects[1]? = some (true, 7) := by
  have run : ((machine Bool 4).execUnder UsesValid initial
      [.create 7 (some 2) true, .get false 7, .get true 7, .construct false (.made true),
        .construct true (.made true), .get false 7]).map (fun s => s.gotten) =
      some [(false, 7, 0), (true, 7, 1), (false, 7, 0)] := by
    decide
  obtain ⟨s, runs, gotten⟩ := Option.map_eq_some_iff.mp run
  have reached := Machine.reachableUnder_of_execUnder runs
  obtain ⟨own, _⟩ := own_objects Bool 4 reached
  exact ⟨s, reached, gotten, own false 7 0 (by rw [gotten]; decide),
    own true 7 1 (by rw [gotten]; decide)⟩

/-! ## The same object again -/

/-- Thread `t`, which is running, has the object at `a` in its slot for `p`, and is not constructing
another one. -/
structure Settled (s : System T) (t : T) (p : Nat) (key : Key) (a : Address) : Prop where
  has : s.HasKey p key
  value : s.data.value t key = some a
  running : s.phase t = .running
  notConstructing : .constructing p ∉ s.frames t

/-- The step neither destroys the pointer nor ends the thread. -/
def Leaves (t : T) (p : Nat) (s : System T) (l : Label T) : Prop :=
  UsesValid s l ∧ l ≠ .destroy p ∧ l ≠ .exit t

instance (t : T) (p : Nat) (s : System T) (l : Label T) : Decidable (Leaves t p s l) :=
  inferInstanceAs (Decidable (_ ∧ _))

theorem Settled.transition {t : T} {p : Nat} {key : Key} {a : Address} (placed : Placed s)
    (settled : Settled s t p key a) (leaves : Leaves t p s l)
    (moved : Transition iterations s l s') : Settled s' t p key a := by
  obtain ⟨has, value, running, notConstructing⟩ := settled
  obtain ⟨valid, notDestroyed, notExit⟩ := leaves
  have frames : ∀ {u now}, (u = t → .constructing p ∉ now) →
      .constructing p ∉ Function.update s.frames u now t := by
    intro u now absent
    by_cases same : t = u
    · subst same
      rw [Function.update_self]
      exact absent rfl
    · rwa [Function.update_of_ne same]
  have phase : ∀ {u now}, u ≠ t → Function.update s.phase u now t = .running := fun other => by
    rwa [Function.update_of_ne (Ne.symm other)]
  cases moved with
  | create q new bound unborn fresh =>
      have other : p ≠ q := by
        rintro rfl
        rw [System.HasKey, unborn] at has
        cases has
      refine ⟨?_, ?_, running, notConstructing⟩
      · rw [System.HasKey, s.create_ptrs_of_ne other]
        exact has
      · cases new with
        | none => exact value
        | some new =>
            have notNew : key ≠ new := fun same => fresh key (placed.inUse has) (by rw [same])
            simpa [System.create, Specifics.keyCreate, notNew] using value
  | destroy q this _ =>
      have other : p ≠ q := fun same => notDestroyed (by rw [same])
      refine ⟨?_, value, running, notConstructing⟩
      rw [System.HasKey, s.destroy_ptrs_of_ne other]
      exact has
  | get u q this alive _ _ =>
      unfold System.get
      split
      next => exact ⟨has, value, running, notConstructing⟩
      next isNull =>
        refine ⟨has, value, running, frames ?_⟩
        rintro rfl member
        rcases List.mem_cons.mp member with new | old
        · cases new
          have same := has.symm.trans alive
          cases same
          rw [value] at isNull
          cases isNull
        · exact notConstructing old
  | construct u q this rest outcome top alive _ =>
      have kept : .constructing p ∉ Function.update s.frames u rest t := frames fun same member =>
        notConstructing (by rw [← same, top]; exact List.mem_cons_of_mem _ member)
      cases outcome with
      | threw => exact ⟨has, value, running, kept⟩
      | made stored =>
          refine ⟨has, ?_, running, kept⟩
          cases stored with
          | false => exact value
          | true =>
              by_cases same : t = u
              · -- the new object goes to the slot of another key
                subst same
                have constructing : .constructing q ∈ s.frames t := by
                  rw [top]
                  exact List.mem_cons_self
                have other : key ≠ this.key := by
                  rintro rfl
                  rcases placed.constructing constructing with gone | ⟨k, has'⟩
                  · rw [gone] at alive
                    cases alive
                  · have isKey := alive.symm.trans has'
                    cases isKey
                    obtain rfl := placed.ofKey has has'
                    exact notConstructing constructing
                simpa [System.construct, Specifics.setSpecific, Function.update_of_ne other] using value
              · simpa [System.construct, Specifics.setSpecific, Function.update_of_ne same] using value
  | exit u _ _ => exact ⟨has, value, phase fun same => notExit (by rw [same]), notConstructing⟩
  | destruct u k b round visited exiting _ _ _ =>
      have other : u ≠ t := by
        rintro rfl
        rw [running] at exiting
        cases exiting
      refine ⟨has, ?_, phase other, frames fun same => absurd same other⟩
      simpa [System.destruct, Specifics.setSpecific, Function.update_of_ne (Ne.symm other)] using value
  | deleteEnd u b rest top =>
      refine ⟨has, value, running, frames ?_⟩
      rintro rfl member
      exact notConstructing (by rw [top]; exact List.mem_cons_of_mem _ member)
  | nextRound u round visited exiting _ | finish u round visited exiting _ _ =>
      have other : u ≠ t := by
        rintro rfl
        rw [running] at exiting
        cases exiting
      exact ⟨has, value, phase other, notConstructing⟩

/-- Once a thread has an object for a pointer, `get` returns that object and calls no constructor,
until the pointer is destroyed or the thread ends. -/
theorem get_stable (T : Type) [DecidableEq T] (iterations : Nat) {s s' : System T}
    (reachable : (machine T iterations).ReachableUnder UsesValid s) {t : T} {p : Nat} {key : Key}
    {a : Address} (settled : Settled s t p key a)
    (later : (machine T iterations).LaterUnder (Leaves t p) s s') :
    step iterations s' (.get t p) = some { s' with gotten := s'.gotten ++ [(t, p, a)] } := by
  obtain ⟨placed', settled'⟩ : Placed s' ∧ Settled s' t p key a := by
    induction later with
    | refl => exact ⟨placed_of_reachable reachable, settled⟩
    | tail _ stepped ih =>
        obtain ⟨l, leaves, stepEq⟩ := stepped
        obtain ⟨placed, now⟩ := ih
        have moved := transition_of_step stepEq
        exact ⟨placed.transition leaves.1 moved, now.transition placed leaves moved⟩
  have alive : s'.ptrs p = .alive { key := key, valid := true } := settled'.has
  simp [step, alive, placed'.inUse settled'.has, settled'.running, System.get, settled'.value]

/-- A thread gets its object again after another thread has come and gone. -/
theorem get_stable_other_thread :
    ∃ s, (machine Bool 4).Reachable s ∧ s.deleted = [1] ∧
      step 4 s (.get false 7) = some { s with gotten := s.gotten ++ [(false, 7, 0)] } := by
  have run : (((machine Bool 4).execUnder UsesValid initial
        [.create 7 (some 2) true, .get false 7, .construct false (.made true)]).bind fun s =>
      ((machine Bool 4).execUnder (Leaves false 7) s
        [.get true 7, .construct true (.made true), .exit true, .destruct true 2, .deleteEnd true,
          .finish true]).map fun s' =>
        (s.ptrs 7, s.data.value false 2, s.phase false, s.frames false, s'.deleted)) =
      some (.alive { key := 2, valid := true }, some 0, .running, [], [1]) := by
    decide
  obtain ⟨s, runs, rest⟩ := Option.bind_eq_some_iff.mp run
  obtain ⟨s', runs', observed⟩ := Option.map_eq_some_iff.mp rest
  simp only [Prod.mk.injEq] at observed
  obtain ⟨has, value, running, frames, deleted⟩ := observed
  have reached := Machine.reachableUnder_of_execUnder runs
  have later := Machine.laterUnder_of_execUnder runs'
  have settled : Settled s false 7 2 0 := ⟨has, value, running, by rw [frames]; decide⟩
  exact ⟨s', reached.reachable.later (later.mono fun _ _ _ => trivial), deleted,
    get_stable Bool 4 reached settled later⟩

end Conc11.LocalPtr
