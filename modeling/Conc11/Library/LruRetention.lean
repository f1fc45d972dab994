/-
Module: Conc11.Library.LruRetention
Purpose: How long an LRU list keeps an entry: as long as the keys used since, of which only those in front of it
  count, leave room for it.
Trusted boundary: none
Main exports: Unequal, Covers, Unequal.length_le, RoomFor, roomFor_of_covers, Ahead, Ahead.put, Ahead.touch,
  ahead_put
-/
import Conc11.Library.LruList

namespace Conc11.Library

variable {K V : Type*} [BEq K]

/-! ## Keys -/

/-- No two of the keys are equivalent. -/
def Unequal (keys : List K) : Prop :=
  keys.Pairwise fun k k' => (k == k') = false

/-- The key is equivalent to one of `others`. -/
def Covers (others : List K) (key : K) : Prop :=
  ∃ o ∈ others, (key == o) = true

theorem DistinctKeys.unequal {entries : List (K × V)} (distinct : DistinctKeys entries) :
    Unequal (entries.map Prod.fst) :=
  List.pairwise_map.mpr distinct

/-- Each key takes another one of the keys that cover them. -/
theorem Unequal.length_le [PartialEquivBEq K] {keys others : List K} (unequal : Unequal keys)
    (covered : ∀ k ∈ keys, Covers others k) : keys.length ≤ others.length := by
  induction keys generalizing others with
  | nil => exact Nat.zero_le _
  | cons key keys ih =>
      obtain ⟨apart, rest⟩ := List.pairwise_cons.mp unequal
      obtain ⟨o, isIn, same⟩ := covered key List.mem_cons_self
      obtain ⟨before, after, rfl⟩ := List.append_of_mem isIn
      have coveredByOthers : ∀ k ∈ keys, Covers (before ++ after) k := by
        intro k member
        obtain ⟨o', isIn', same'⟩ := covered k (List.mem_cons_of_mem key member)
        rcases List.mem_cons.mp (List.perm_middle.mem_iff.mp isIn') with rfl | other
        · have equal := BEq.trans same (BEq.symm same')
          rw [apart k member] at equal
          cases equal
        · exact ⟨o', other, same'⟩
      have fewer := ih rest coveredByOthers
      rw [List.length_append] at fewer
      rw [List.length_cons, List.length_append, List.length_cons]
      omega

/-! ## Room -/

/-- An entry of `key` has room behind entries of allowed other keys. -/
def RoomFor (capacity : Nat) (allowed : K → Prop) (key : K) : Prop :=
  ∀ keys : List K, Unequal keys → (∀ k ∈ keys, allowed k ∧ (k == key) = false) →
    keys.length < capacity

theorem roomFor_of_covers [PartialEquivBEq K] {capacity : Nat} {others : List K} (key : K)
    (few : others.length < capacity) : RoomFor capacity (Covers others) key := by
  intro keys unequal only
  exact Nat.lt_of_le_of_lt (unequal.length_le fun k member => (only k member).1) few

/-- There is room for every key if there are not more keys than places. -/
theorem roomFor_of_unequal [PartialEquivBEq K] {capacity : Nat} (key : K)
    (few : ∀ keys : List K, Unequal keys → keys.length ≤ capacity) :
    RoomFor capacity (fun _ => True) key := by
  intro keys unequal only
  refine few (key :: keys) (List.pairwise_cons.mpr ⟨fun k member => ?_, unequal⟩)
  rw [BEq.comm]
  exact (only k member).2

/-! ## The entries in front of an entry -/

/-- There is an entry of `key`, and before it stand entries of allowed keys. -/
def Ahead (allowed : K → Prop) (key : K) (entries : List (K × V)) : Prop :=
  ∃ before e after, entries = before ++ e :: after ∧ (e.1 == key) = true ∧
    ∀ f ∈ before, allowed f.1

section

variable [PartialEquivBEq K] {allowed : K → Prop} {key k : K} {entries : List (K × V)}
  {l : LruList K V} {capacity : Nat}

theorem Ahead.lookup (ahead : Ahead allowed key l.entries) : (l.lookup key).isSome = true := by
  obtain ⟨before, e, after, split, equal, _⟩ := ahead
  rw [LruList.lookup_of_split split equal]
  rfl

/-- An entry that comes to the front is at most one more before the entry of `key`. -/
theorem Ahead.promote (ahead : Ahead allowed key l.entries) (change : V → V)
    (may : ∀ e ∈ l.entries, (e.1 == k) = true → (k == key) = true ∨ allowed e.1) :
    Ahead allowed key (LruList.promote change l.entries k) := by
  obtain ⟨before, e, after, split, equal, front⟩ := ahead
  cases isUsed : e.1 == k with
  | true =>
      rw [LruList.promote_of_split split isUsed]
      exact ⟨[], _, _, rfl, equal, by simp⟩
  | false =>
      cases found : l.entries.find? fun f => f.1 == k with
      | none =>
          rw [LruList.promote, found]
          exact ⟨before, e, after, split, equal, front⟩
      | some x =>
          have usedEqual := List.find?_some found
          have mayUse : allowed x.1 := by
            refine (may x (List.mem_of_find?_eq_some found) usedEqual).resolve_left fun same => ?_
            rw [BEq.trans equal (BEq.symm same)] at isUsed
            cases isUsed
          have stays : ¬ (e.1 == k) = true := Bool.eq_false_iff.mp isUsed
          rw [LruList.promote, found]
          dsimp only
          rw [split, List.eraseP_append]
          split
          · refine ⟨(x.1, change x.2) :: before.eraseP _, e, after, rfl, equal, fun f isIn => ?_⟩
            rcases List.mem_cons.mp isIn with rfl | old
            · exact mayUse
            · exact front f (List.mem_of_mem_eraseP old)
          · rw [List.eraseP_cons_of_neg (p := fun f : K × V => f.1 == k) stays]
            refine ⟨(x.1, change x.2) :: before, e, _, rfl, equal, fun f isIn => ?_⟩
            rcases List.mem_cons.mp isIn with rfl | old
            · exact mayUse
            · exact front f old

/-- Equivalent keys are allowed alike. -/
def Respects (allowed : K → Prop) : Prop :=
  ∀ k k' : K, (k == k') = true → allowed k' → allowed k

omit [PartialEquivBEq K] in
theorem respects_true : Respects fun _ : K => True := fun _ _ _ _ => trivial

theorem respects_covers (others : List K) : Respects (Covers others) := by
  rintro k k' same ⟨o, isIn, covered⟩
  exact ⟨o, isIn, BEq.trans same covered⟩

theorem Ahead.touch (ahead : Ahead allowed key l.entries) (respects : Respects allowed)
    (may : (l.lookup k).isSome = true → (k == key) = true ∨ allowed k) :
    Ahead allowed key (l.touch k).entries := by
  refine ahead.promote id fun e isIn equal => ?_
  obtain ⟨before, after, split⟩ := List.append_of_mem isIn
  have hit : (l.lookup k).isSome = true := by
    rw [LruList.lookup_of_split split equal]
    rfl
  exact (may hit).imp_right (respects e.1 k equal)

/-- Storing an allowed key leaves the entry of `key` in its place. -/
theorem Ahead.put (ahead : Ahead allowed key l.entries) (respects : Respects allowed)
    (room : RoomFor capacity allowed key) (may : (k == key) = true ∨ allowed k) (value : V) :
    Ahead allowed key (l.put capacity k value).entries := by
  cases found : l.entries.find? fun f => f.1 == k with
  | some x =>
      rw [LruList.put_of_found found]
      exact ahead.promote _ fun e _ equal => may.imp_right (respects e.1 k equal)
  | none =>
      obtain ⟨before, e, after, split, equal, front⟩ := ahead
      have isNew := List.find?_eq_none.mp found e (by simp [split])
      have other : (k == key) = false := by
        rw [Bool.eq_false_iff]
        exact fun same => isNew (BEq.trans equal (BEq.symm same))
      have distinct : DistinctKeys ((k, value) :: l.entries) := l.distinct.cons found
      rw [split] at distinct
      have frontKeys : ∀ f ∈ (k, value) :: before, allowed f.1 := by
        intro f isIn
        rcases List.mem_cons.mp isIn with rfl | old
        · exact may.resolve_left (by rw [other]; exact Bool.false_ne_true)
        · exact front f old
      have distinctFront : DistinctKeys ((k, value) :: before) :=
        distinct.sublist ((List.sublist_append_left before (e :: after)).cons_cons _)
      have few : ((k, value) :: before).length < capacity := by
        rw [← List.length_map Prod.fst]
        refine room _ distinctFront.unequal (List.forall_mem_map.mpr fun f isIn => ?_)
        refine ⟨frontKeys f isIn, ?_⟩
        exact (distinct : DistinctKeys (((k, value) :: before) ++ e :: after)).other equal f
          (List.mem_append_left after isIn)
      rw [LruList.put_of_missing found, split]
      unfold LruList.shorten
      split
      next full =>
        have behind : after ≠ [] := by
          rintro rfl
          simp only [List.length_cons, List.length_append, List.length_nil] at full few
          omega
        refine ⟨(k, value) :: before, e, after.dropLast, ?_, equal, frontKeys⟩
        rw [← List.cons_append, List.dropLast_append_of_ne_nil (List.cons_ne_nil e after),
          List.dropLast_cons_of_ne_nil behind]
      next => exact ⟨(k, value) :: before, e, after, rfl, equal, frontKeys⟩

/-- An entry that has just been stored is the first one. -/
theorem ahead_put [ReflBEq K] (positive : 0 < capacity) (value : V) :
    Ahead allowed key (l.put capacity key value).entries := by
  cases found : l.entries.find? fun f => f.1 == key with
  | some x =>
      have equal := List.find?_some found
      rw [LruList.put_of_found found, LruList.promote, found]
      exact ⟨[], (x.1, value), _, rfl, equal, by simp⟩
  | none =>
      rw [LruList.put_of_missing found]
      unfold LruList.shorten
      split
      next full =>
        have more : l.entries ≠ [] := by
          intro empty
          rw [empty, List.length_singleton] at full
          omega
        rw [List.dropLast_cons_of_ne_nil more]
        exact ⟨[], (key, value), _, rfl, BEq.rfl, by simp⟩
      next => exact ⟨[], (key, value), _, rfl, BEq.rfl, by simp⟩

end

end Conc11.Library
