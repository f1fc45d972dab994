/-
Module: Conc11.Semaphore.RequestRecord
Purpose: The map `request_record` of `QueuedSemaphore` read as a multiset of requests: what the three functions
  on it do to that multiset.
Trusted boundary: none
Main exports: Tallied, Tallied.requestRecordInsert, Tallied.requestRecordRemove, Tallied.min
-/
import Mathlib.Data.Multiset.Count
import Mathlib.Data.Multiset.AddSub
import Mathlib.Tactic.Common
import Conc11.Semaphore.Model

namespace Conc11.Semaphore

open Library

/-- The map holds each request of `requests` with its number of occurrences,
and nothing else. -/
def Tallied (requestRecord : Std.TreeMap Request Nat) (requests : Multiset Request) : Prop :=
  ∀ (request : Request) (count : Nat),
    requestRecord[request]? = some count ↔ requests.count request = count ∧ count ≠ 0

namespace Tallied

variable {requestRecord : Std.TreeMap Request Nat} {sem : QueuedSemaphore}
  {requests requests' : Multiset Request} {request : Request}

theorem empty : Tallied ∅ 0 := by
  intro request count
  rw [Std.TreeMap.getElem?_emptyc, Multiset.count_zero]
  constructor
  · intro found
    cases found
  · rintro ⟨rfl, positive⟩
    exact absurd rfl positive

/-- A map is read in one way. -/
theorem unique (tallied : Tallied requestRecord requests)
    (tallied' : Tallied requestRecord requests') : requests = requests' := by
  ext request
  by_cases none : requests.count request = 0
  · by_contra different
    have found := (tallied' request _).mpr ⟨rfl, fun zero => different (none.trans zero.symm)⟩
    obtain ⟨same, positive⟩ := (tallied request _).mp found
    exact positive (same.symm.trans none)
  · have found := (tallied request _).mpr ⟨rfl, none⟩
    exact ((tallied' request _).mp found).1.symm

theorem mem_iff (tallied : Tallied requestRecord requests) (request : Request) :
    request ∈ requestRecord ↔ request ∈ requests := by
  rw [Std.TreeMap.mem_iff_isSome_getElem?, Option.isSome_iff_exists,
    ← Multiset.count_ne_zero]
  constructor
  · rintro ⟨count, found⟩
    obtain ⟨same, positive⟩ := (tallied request count).mp found
    rwa [same]
  · intro positive
    exact ⟨_, (tallied request _).mpr ⟨rfl, positive⟩⟩

theorem isEmpty_iff (tallied : Tallied requestRecord requests) :
    requestRecord.isEmpty = true ↔ requests = 0 := by
  rw [Std.TreeMap.isEmpty_iff_forall_not_mem, Multiset.eq_zero_iff_forall_notMem]
  exact forall_congr' fun request => not_congr (tallied.mem_iff request)

/-- A write at one key and the same change of its count. -/
private theorem write {after : Std.TreeMap Request Nat} (tallied : Tallied requestRecord requests)
    (request : Request)
    (here : ∀ count, after[request]? = some count ↔ requests'.count request = count ∧ count ≠ 0)
    (elsewhere : ∀ other, other ≠ request → after[other]? = requestRecord[other]?)
    (counts : ∀ other, other ≠ request → requests'.count other = requests.count other) :
    Tallied after requests' := by
  intro other count
  by_cases same : other = request
  · rw [same]
    exact here count
  · rw [elsewhere other same, counts other same]
    exact tallied other count

theorem requestRecordInsert (tallied : Tallied sem.requestRecord requests) :
    Tallied (sem.requestRecordInsert request).requestRecord (request ::ₘ requests) := by
  have inserted : (sem.requestRecordInsert request).requestRecord =
      sem.requestRecord.insert request (requests.count request + 1) := by
    unfold QueuedSemaphore.requestRecordInsert
    split
    next count found => rw [((tallied request count).mp found).1]
    next missing =>
      have none : requests.count request = 0 := by
        by_contra positive
        have found := (tallied request _).mpr ⟨rfl, positive⟩
        rw [missing] at found
        cases found
      rw [none]
  rw [inserted]
  apply tallied.write request
  · intro count
    rw [Std.TreeMap.getElem?_insert_self, Multiset.count_cons_self, Option.some.injEq]
    exact ⟨fun counted => ⟨counted, by omega⟩, fun counted => counted.1⟩
  · intro other different
    rw [Std.TreeMap.getElem?_insert, if_neg]
    rw [Std.LawfulEqOrd.compare_eq_iff_eq]
    exact Ne.symm different
  · exact fun other different => Multiset.count_cons_of_ne different requests

theorem requestRecordRemove (tallied : Tallied sem.requestRecord requests)
    (recorded : request ∈ requests) :
    Tallied (sem.requestRecordRemove request).requestRecord (requests.erase request) := by
  have positive := Multiset.one_le_count_iff_mem.mpr recorded
  have found := (tallied request _).mpr ⟨rfl, by omega⟩
  have counts : ∀ other, other ≠ request →
      (requests.erase request).count other = requests.count other :=
    fun other different => Multiset.count_erase_of_ne different requests
  unfold QueuedSemaphore.requestRecordRemove
  rw [found]
  dsimp only
  split
  next once =>
    apply tallied.write request _ _ counts
    · intro count
      rw [Std.TreeMap.getElem?_erase_self, Multiset.count_erase_self, once]
      constructor
      · intro found
        cases found
      · rintro ⟨rfl, nonzero⟩
        exact absurd rfl nonzero
    · intro other different
      rw [Std.TreeMap.getElem?_erase, if_neg]
      rw [Std.LawfulEqOrd.compare_eq_iff_eq]
      exact Ne.symm different
  next often =>
    apply tallied.write request _ _ counts
    · intro count
      rw [Std.TreeMap.getElem?_insert_self, Multiset.count_erase_self, Option.some.injEq]
      exact ⟨fun counted => ⟨counted, by omega⟩, fun counted => counted.1⟩
    · intro other different
      rw [Std.TreeMap.getElem?_insert, if_neg]
      rw [Std.LawfulEqOrd.compare_eq_iff_eq]
      exact Ne.symm different

private theorem toNat_le_of_isLE {a b : Request} (below : (compare a b).isLE = true) :
    a.toNat ≤ b.toNat := by
  change (compareOfLessAndEq a b).isLE = true at below
  unfold compareOfLessAndEq at below
  split at below
  next less => exact Nat.le_of_lt (BitVec.lt_def.mp less)
  next =>
    split at below
    next same => rw [same]
    next => cases below

/-- `request_record_min` returns the smallest recorded request, or zero. -/
theorem min (tallied : Tallied sem.requestRecord requests) :
    (requests = 0 ∧ sem.requestRecordMin = 0#32) ∨
      (sem.requestRecordMin ∈ requests ∧
        ∀ request ∈ requests, sem.requestRecordMin.toNat ≤ request.toNat) := by
  unfold QueuedSemaphore.requestRecordMin
  rw [← Std.TreeMap.minKey?_eq_head?_keys]
  split
  next request first =>
    obtain ⟨member, least⟩ := Std.TreeMap.minKey?_eq_some_iff_mem_and_forall.mp first
    refine .inr ⟨(tallied.mem_iff request).mp member, fun other recorded => ?_⟩
    exact toNat_le_of_isLE (least other ((tallied.mem_iff other).mpr recorded))
  next none =>
    rw [Std.TreeMap.minKey?_eq_none_iff, tallied.isEmpty_iff] at none
    exact .inl ⟨none, rfl⟩

end Tallied

end Conc11.Semaphore
