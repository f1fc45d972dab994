/-
Module: Conc11.LruCache.Inclusion
Purpose: Two caches of different capacities under the same calls: whatever the smaller one holds and finds,
  the larger one holds and finds.
Trusted boundary: none
Main exports: LRUCache.valueAt, Within, HitKept, specRun_included, larger_cache_keeps_hits
-/
import Conc11.Library.LruInclusion
import Conc11.LruCache.Refinement

namespace Conc11.LruCache

open Library

variable {K V P : Type} [BEq K]

/-! ## Comparing two caches -/

/-- The value stored for a key. -/
def LRUCache.valueAt [Hashable K] (c : LRUCache K V) (key : K) : Option V :=
  (c.find key).bind fun e => (c.nodes e).map fun node => node.second.value

/-- The keys of `c₁` are keys of `c₂` with the same values, and in the lists
from head to tail they stand in the same order. -/
structure Within [Hashable K] (c₁ c₂ : LRUCache K V) : Prop where
  keys : ∀ key, c₁.hasKey key = true → c₂.hasKey key = true
  values : ∀ key value, c₁.valueAt key = some value → c₂.valueAt key = some value
  order : ∃ cells₁ cells₂, Represents c₁ cells₁ ∧ Represents c₂ cells₂ ∧
    List.SublistForall₂ SameEntry (cells₁.map Prod.snd) (cells₂.map Prod.snd)

/-- A call that hits in the smaller cache hits with the same value in the
larger one. -/
def HitKept : Result V P → Result V P → Prop
  | .unit, .unit => True
  | .pointer target₁, .pointer target₂ => ∀ value, target₁ = some value → target₂ = some value
  | .copied found₁ out₁, .copied found₂ out₂ => found₁ = true → found₂ = true ∧ out₂ = out₁
  | .pointee found₁ out₁, .pointee found₂ out₂ => found₁ = true → found₂ = true ∧ out₂ = out₁
  | .flag found₁, .flag found₂ => found₁ = true → found₂ = true
  | _, _ => False

/-! ## The calls on two lists -/

section Lists

variable [EquivBEq K] {capacity₁ capacity₂ : Nat} {l₁ l₂ : LruList K V}

theorem lookup_isSome (included : Included capacity₁ capacity₂ l₁ l₂) {key : K}
    (hit : (l₁.lookup key).isSome = true) :
    (l₂.lookup key).isSome = true ∧ l₂.lookup key = l₁.lookup key := by
  obtain ⟨value, found⟩ := Option.isSome_iff_exists.mp hit
  rw [included.lookup found, found]
  exact ⟨rfl, rfl⟩

theorem specApply_included (included : Included capacity₁ capacity₂ l₁ l₂) (op : Op K V P) :
    Included capacity₁ capacity₂ (specApply capacity₁ l₁ op).1 (specApply capacity₂ l₂ op).1 ∧
      HitKept (specApply capacity₁ l₁ op).2 (specApply capacity₂ l₂ op).2 := by
  cases op with
  | set key value => exact ⟨included.put key value, trivial⟩
  | get key => exact ⟨included.touch key, fun _ found => included.lookup found⟩
  | getCopy key outValue =>
      refine ⟨included.touch key, fun hit => ?_⟩
      obtain ⟨alsoHit, same⟩ := lookup_isSome included hit
      exact ⟨alsoHit, by rw [same]⟩
  | getMove key outValue =>
      refine ⟨included.erase key, fun hit => ?_⟩
      obtain ⟨alsoHit, same⟩ := lookup_isSome included hit
      exact ⟨alsoHit, by rw [same]⟩
  | getCopyPointee key pointee outValuePointee =>
      refine ⟨included.touch key, fun hit => ?_⟩
      obtain ⟨alsoHit, same⟩ := lookup_isSome included hit
      exact ⟨alsoHit, by rw [same]⟩
  | hasKey key => exact ⟨included, fun hit => (lookup_isSome included hit).1⟩
  | erase key => exact ⟨included.erase key, fun hit => (lookup_isSome included hit).1⟩
  | clear => exact ⟨.empty included.le, trivial⟩

theorem specRun_included (included : Included capacity₁ capacity₂ l₁ l₂) (ops : List (Op K V P)) :
    Included capacity₁ capacity₂ (specRun capacity₁ l₁ ops).1 (specRun capacity₂ l₂ ops).1 ∧
      List.Forall₂ HitKept (specRun capacity₁ l₁ ops).2 (specRun capacity₂ l₂ ops).2 := by
  induction ops generalizing l₁ l₂ with
  | nil => exact ⟨included, .nil⟩
  | cons op ops ih =>
      obtain ⟨after, kept⟩ := specApply_included included op
      obtain ⟨final, allKept⟩ := ih after
      exact ⟨final, .cons kept allKept⟩

end Lists

/-! ## The caches -/

variable [Hashable K] [EquivBEq K] [LawfulHashable K] {capacity capacity₁ capacity₂ : Nat}
  {c c₁ c₂ : LRUCache K V} {list l₁ l₂ : LruList K V}

omit [EquivBEq K] in
theorem valueAt_refines [PartialEquivBEq K] (refines : Refines capacity c list) (key : K) :
    c.valueAt key = list.lookup key := by
  rcases refines.find_cases key with
    ⟨missing, absent⟩ | ⟨l, x, r, represents, equal, found, entries⟩
  · rw [LRUCache.valueAt, missing, LruList.lookup_of_missing absent]
    rfl
  · obtain ⟨node, allocated, _, value⟩ := exists_node (represents.stored x (by simp))
    rw [LRUCache.valueAt, found, LruList.lookup_of_split entries equal, Option.bind_some,
      allocated, Option.map_some, value]

theorem Refines.within (refines₁ : Refines capacity₁ c₁ l₁) (refines₂ : Refines capacity₂ c₂ l₂)
    (included : Included capacity₁ capacity₂ l₁ l₂) : Within c₁ c₂ := by
  refine ⟨fun key hit => ?_, fun key value stored => ?_, ?_⟩
  · rw [hasKey_refines refines₁] at hit
    rw [hasKey_refines refines₂]
    exact (lookup_isSome included hit).1
  · rw [valueAt_refines refines₁] at stored
    rw [valueAt_refines refines₂]
    exact included.lookup stored
  · obtain ⟨_, cells₁, represents₁, entries₁⟩ := refines₁
    obtain ⟨_, cells₂, represents₂, entries₂⟩ := refines₂
    refine ⟨cells₁, cells₂, represents₁, represents₂, ?_⟩
    rw [entries₁, entries₂]
    exact included.sub

/-- After the same calls the cache of the smaller capacity is within the one of
the larger capacity, and each of its hits was a hit there. -/
theorem larger_cache_keeps_hits (capacity₁ capacity₂ : BitVec 64)
    (le : capacity₁.toNat ≤ capacity₂.toNat) (fits : capacity₂.toNat < 2 ^ 32)
    (ops : List (Op K V P)) :
    ∃ c₁ c₂ results₁ results₂,
      (LRUCache.new capacity₁ : LRUCache K V).run ops = some (c₁, results₁) ∧
      (LRUCache.new capacity₂ : LRUCache K V).run ops = some (c₂, results₂) ∧
      Within c₁ c₂ ∧ List.Forall₂ HitKept results₁ results₂ := by
  obtain ⟨included, kept⟩ := specRun_included (.empty le) ops
  obtain ⟨c₁, ran₁, refines₁⟩ := lru_refines capacity₁ (Nat.lt_of_le_of_lt le fits) ops
  obtain ⟨c₂, ran₂, refines₂⟩ := lru_refines capacity₂ fits ops
  exact ⟨c₁, c₂, _, _, ran₁, ran₂, refines₁.within refines₂ included, kept⟩

/-- Three entries, of which one cache keeps one and the other two. -/
theorem larger_cache_keeps_hits_two :
    ∃ c₁ c₂ results₁ results₂,
      (LRUCache.new 1#64 : LRUCache Nat Nat).run evictionCalls = some (c₁, results₁) ∧
      (LRUCache.new 2#64 : LRUCache Nat Nat).run evictionCalls = some (c₂, results₂) ∧
      Within c₁ c₂ ∧ List.Forall₂ HitKept results₁ results₂ :=
  larger_cache_keeps_hits 1#64 2#64 (by decide) (by decide) evictionCalls

end Conc11.LruCache
