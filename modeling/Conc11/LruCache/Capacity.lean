/-
Module: Conc11.LruCache.Capacity
Purpose: What is left of the capacity that `LRUCache` is constructed with: how many entries there are, and how
  long an entry stays while others are set and found.
Trusted boundary: none
Main exports: Op.keeps, usedKeys, HonoursCapacity, specApply_ahead, specRun_ahead, honoursCapacity_iff
-/
import Conc11.Library.LruRetention
import Conc11.LruCache.Pointers

namespace Conc11.LruCache

open Library

/-! ## The keys that are used -/

section Used

variable {K V P : Type}

/-- `set`, `has_key` and the calls that get a value without taking it out. -/
def Op.keeps : Op K V P → Bool
  | .set _ _ | .get _ | .getCopy _ _ | .getCopyPointee _ _ _ | .hasKey _ => true
  | .getMove _ _ | .erase _ | .clear => false

/-- The key that a call with this result has set or hit. -/
def Op.usedKey : Op K V P → Result V P → Option K
  | .set key _, _ => some key
  | .get key, .pointer (some _) => some key
  | .getCopy key _, .copied true _ => some key
  | .getCopyPointee key _ _, .pointee true _ => some key
  | _, _ => none

def usedKeys : List (Op K V P) → List (Result V P) → List K
  | op :: ops, result :: results => (op.usedKey result).toList ++ usedKeys ops results
  | _, _ => []

theorem mem_usedKeys_cons {op : Op K V P} {ops : List (Op K V P)} {result : Result V P}
    {results : List (Result V P)} {key : K} :
    key ∈ usedKeys (op :: ops) (result :: results) ↔
      op.usedKey result = some key ∨ key ∈ usedKeys ops results := by
  rw [usedKeys, List.mem_append, Option.mem_toList]

/-- Calls of `set` use their own keys and no others. -/
theorem usedKeys_set {keys : List K} {value : V} {results : List (Result V P)} {key : K}
    (used : key ∈ usedKeys (keys.map fun k => (.set k value : Op K V P)) results) : key ∈ keys := by
  induction keys generalizing results with
  | nil => simp [usedKeys] at used
  | cons k keys ih =>
      cases results with
      | nil => simp [usedKeys] at used
      | cons result results =>
          rcases mem_usedKeys_cons.mp used with here | later
          · cases here
            exact List.mem_cons_self
          · exact List.mem_cons_of_mem k (ih later)

end Used

/-- There are never more entries than `capacity`, and an entry that has been set
is there as long as fewer other keys have been set or hit. -/
structure HonoursCapacity (K V P : Type) [BEq K] [Hashable K] (capacity : BitVec 64) : Prop where
  bounded : ∀ ops : List (Op K V P), (∀ op ∈ ops, op.keeps = true) →
    ∃ c results, (LRUCache.new capacity : LRUCache K V).run ops = some (c, results) ∧
      c.mem.length ≤ capacity.toNat
  retains : ∀ (before after : List (Op K V P)) (key : K) (value : V) (others : List K)
    (c₁ c₂ : LRUCache K V) (results₁ results₂ : List (Result V P)),
    (∀ op ∈ before, op.keeps = true) → (∀ op ∈ after, op.keeps = true) →
    (LRUCache.new capacity).run (before ++ [.set key value]) = some (c₁, results₁) →
    c₁.run after = some (c₂, results₂) → others.length < capacity.toNat →
    (∀ k ∈ usedKeys after results₂, (k == key) = true ∨ Covers others k) →
    c₂.hasKey key = true

variable {K V P : Type} [BEq K]

/-! ## The abstract list -/

section Lists

variable [PartialEquivBEq K] {capacity : Nat} {l : LruList K V} {allowed : K → Prop} {key : K}

/-- A call that uses the key itself or an allowed one. -/
theorem specApply_ahead (ahead : Ahead allowed key l.entries) (respects : Respects allowed)
    (room : RoomFor capacity allowed key) (op : Op K V P) (keeps : op.keeps = true)
    (may : ∀ k, op.usedKey (specApply capacity l op).2 = some k → (k == key) = true ∨ allowed k) :
    Ahead allowed key (specApply capacity l op).1.entries := by
  cases op with
  | set k value => exact ahead.put respects room (may k rfl) value
  | get k =>
      refine ahead.touch respects fun hit => may k ?_
      obtain ⟨value, found⟩ := Option.isSome_iff_exists.mp hit
      simp only [specApply, found, Op.usedKey]
  | getCopy k outValue =>
      refine ahead.touch respects fun hit => may k ?_
      simp only [specApply, hit, Op.usedKey]
  | getCopyPointee k pointee outValuePointee =>
      refine ahead.touch respects fun hit => may k ?_
      simp only [specApply, hit, Op.usedKey]
  | hasKey k => exact ahead
  | getMove k outValue => cases keeps
  | erase k => cases keeps
  | clear => cases keeps

theorem specRun_ahead (ahead : Ahead allowed key l.entries) (respects : Respects allowed)
    (room : RoomFor capacity allowed key) {ops : List (Op K V P)}
    (keeps : ∀ op ∈ ops, op.keeps = true)
    (may : ∀ k ∈ usedKeys ops (specRun capacity l ops).2, (k == key) = true ∨ allowed k) :
    Ahead allowed key (specRun capacity l ops).1.entries := by
  induction ops generalizing l with
  | nil => exact ahead
  | cons op ops ih =>
      have after := specApply_ahead ahead respects room op (keeps op List.mem_cons_self)
        fun k used => may k (mem_usedKeys_cons.mpr (.inl used))
      exact ih after (fun op member => keeps op (List.mem_cons_of_mem _ member))
        fun k used => may k (mem_usedKeys_cons.mpr (.inr used))

end Lists

/-! ## The cache -/

section Cache

variable [Hashable K] [EquivBEq K] [LawfulHashable K]

section Retained

variable {capacity : Nat} {c c₁ c₂ : LRUCache K V} {l : LruList K V} {allowed : K → Prop} {key : K}

/-- While there is room for it the entry stays. -/
theorem Refines.hasKey_of_room (refines : Refines capacity c l) {value : V}
    {before after : List (Op K V P)} {results₁ results₂ : List (Result V P)}
    (ran₁ : c.run (before ++ [.set key value]) = some (c₁, results₁))
    (ran₂ : c₁.run after = some (c₂, results₂)) (respects : Respects allowed)
    (room : RoomFor capacity allowed key) (keeps : ∀ op ∈ after, op.keeps = true)
    (may : ∀ k ∈ usedKeys after results₂, (k == key) = true ∨ allowed k) :
    c₂.hasKey key = true := by
  obtain ⟨c₀, _, _, ranBefore, ranSet⟩ := run_append ran₁
  obtain ⟨_, same₀, refines₀⟩ := run_refines refines before
  cases ranBefore.symm.trans same₀
  obtain ⟨_, same₁, refines₁⟩ := run_refines refines₀ [.set key value]
  cases ranSet.symm.trans same₁
  obtain ⟨_, same₂, refines₂⟩ := run_refines refines₁ after
  cases ran₂.symm.trans same₂
  have positive : 0 < capacity := room [] List.Pairwise.nil (by simp)
  have ahead := specRun_ahead (ahead_put positive value) respects room keeps may
  rw [hasKey_refines refines₂]
  exact ahead.lookup

/-- As many different keys have entries as there is capacity for, at most. -/
theorem Refines.length_le_of_hasKey (refines : Refines capacity c l)
    (atMost : l.entries.length ≤ capacity) {keys : List K} (unequal : Unequal keys)
    (present : ∀ k ∈ keys, c.hasKey k = true) : keys.length ≤ capacity := by
  refine Nat.le_trans ?_ atMost
  rw [← List.length_map Prod.fst]
  refine unequal.length_le fun k member => ?_
  have hit := present k member
  rw [hasKey_refines refines, LruList.lookup, Option.isSome_map] at hit
  obtain ⟨e, found⟩ := Option.isSome_iff_exists.mp hit
  have equal := List.find?_some found
  exact ⟨e.1, List.mem_map_of_mem (List.mem_of_find?_eq_some found), BEq.symm equal⟩

end Retained

/-- The cache never has more entries than what is left of the capacity. -/
theorem new_bounded (capacity : BitVec 64) (ops : List (Op K V P)) :
    ∃ c results, (LRUCache.new capacity : LRUCache K V).run ops = some (c, results) ∧
      c.mem.length ≤ capacity.toNat := by
  obtain ⟨c, ran, refines⟩ := run_refines (new_refines_mod capacity) ops
  refine ⟨c, _, ran, ?_⟩
  obtain ⟨_, cells, represents, entries⟩ := refines
  rw [represents.length_eq, ← List.length_map Prod.snd, entries]
  exact Nat.le_trans (specRun_length_le (Nat.zero_le _) ops) (Nat.mod_le ..)

/-- Setting more keys than fit in the stored capacity, one of them is missing
afterwards. -/
theorem not_honours [Inhabited V] {capacity : BitVec 64} {keys : List K} (unequal : Unequal keys)
    (tooMany : capacity.toNat % 2 ^ 32 < keys.length)
    (large : capacity.toNat % 2 ^ 32 < capacity.toNat) :
    ¬ HonoursCapacity K V P capacity := by
  intro honours
  obtain ⟨stored, isStored⟩ : ∃ stored, stored = capacity.toNat % 2 ^ 32 := ⟨_, rfl⟩
  rw [← isStored] at tooMany large
  obtain ⟨few, isFew⟩ : ∃ few, few = keys.take (stored + 1) := ⟨_, rfl⟩
  have length : few.length = stored + 1 := by
    rw [isFew, List.length_take]
    omega
  have fewUnequal : Unequal few := by
    rw [isFew]
    exact List.Pairwise.sublist (List.take_sublist _ keys) unequal
  obtain ⟨c, ran, refines⟩ := run_refines (new_refines_mod capacity)
    (few.map fun k => (.set k default : Op K V P))
  rw [← isStored] at refines ran
  have atMost : (specRun stored LruList.empty
      (few.map fun k => (.set k default : Op K V P))).1.entries.length ≤ stored :=
    specRun_length_le (Nat.zero_le _) _
  have keep : ∀ ks : List K, ∀ op ∈ ks.map fun k => (.set k default : Op K V P),
      op.keeps = true := by
    intro ks op member
    obtain ⟨k, _, rfl⟩ := List.mem_map.mp member
    rfl
  have present : ∀ k ∈ few, c.hasKey k = true := by
    intro key member
    obtain ⟨before, after, split⟩ := List.append_of_mem member
    have shorter : after.length < capacity.toNat := by
      rw [split, List.length_append, List.length_cons] at length
      omega
    rw [split, List.map_append, List.map_cons, ← List.singleton_append, ← List.append_assoc] at ran
    obtain ⟨c₁, results₁, results₂, ran₁, ran₂⟩ := run_append ran
    refine honours.retains _ _ key default after c₁ c results₁ results₂ (keep before) (keep after)
      ran₁ ran₂ shorter fun k used => .inr ⟨k, usedKeys_set used, BEq.rfl⟩
  have fits := refines.length_le_of_hasKey atMost fewUnequal present
  omega

/-- A capacity is honoured exactly if it is below 2^32, or if there are not more
different keys than places in what is left of it in 32 bits. -/
theorem honoursCapacity_iff [Inhabited V] (capacity : BitVec 64) :
    HonoursCapacity K V P capacity ↔ capacity.toNat < 2 ^ 32 ∨
      ∀ keys : List K, Unequal keys → keys.length ≤ capacity.toNat % 2 ^ 32 := by
  constructor
  · intro honours
    by_contra neither
    obtain ⟨large, many⟩ := not_or.mp neither
    obtain ⟨keys, more⟩ := not_forall.mp many
    obtain ⟨unequal, tooMany⟩ := Classical.not_imp.mp more
    have cut : capacity.toNat % 2 ^ 32 < capacity.toNat := by omega
    exact not_honours unequal (Nat.lt_of_not_le tooMany) cut honours
  · intro enough
    refine ⟨fun ops _ => new_bounded capacity ops, ?_⟩
    intro before after key value others c₁ c₂ results₁ results₂ _ keeps ran₁ ran₂ few used
    have refines := new_refines_mod (K := K) (V := V) capacity
    rcases enough with fits | enough
    · rw [Nat.mod_eq_of_lt fits] at refines
      exact refines.hasKey_of_room ran₁ ran₂ (respects_covers others) (roomFor_of_covers key few)
        keeps used
    · exact refines.hasKey_of_room ran₁ ran₂ respects_true (roomFor_of_unequal key enough) keeps
        fun k _ => .inr trivial

end Cache

/-- A capacity of 2^32 + 3 is enough for the two keys of `Bool`. -/
theorem honoursCapacity_iff_bool : HonoursCapacity Bool Nat Nat 4294967299#64 := by
  refine (honoursCapacity_iff 4294967299#64).mpr (.inr fun keys unequal => ?_)
  have covered : ∀ k ∈ keys, Covers [true, false] k := by
    intro k _
    cases k with
    | true => exact ⟨true, by decide, rfl⟩
    | false => exact ⟨false, by decide, rfl⟩
  exact Nat.le_trans (unequal.length_le covered) (by decide)

/-- A cache for 2^32 entries keeps none, and one for 2^32 + 1 entries loses the
first key to the second. -/
theorem capacity_cut_off :
    ¬ HonoursCapacity Nat Nat Nat 4294967296#64 ∧ ¬ HonoursCapacity Nat Nat Nat 4294967297#64 := by
  have loses : ∀ (capacity : BitVec 64) (after : List (Op Nat Nat Nat)) (others : List Nat),
      ((LRUCache.new capacity : LRUCache Nat Nat).run ([.set 1 10] : List (Op Nat Nat Nat))).bind
        (fun first => (first.1.run after).map fun second =>
          (second.1.hasKey 1, usedKeys after second.2)) = some (false, others) →
      (∀ op ∈ after, op.keeps = true) → others.length < capacity.toNat →
      ¬ HonoursCapacity Nat Nat Nat capacity := by
    intro capacity after others run keeps few honours
    obtain ⟨⟨c₁, results₁⟩, ran₁, rest⟩ := Option.bind_eq_some_iff.mp run
    obtain ⟨⟨c₂, results₂⟩, ran₂, observed⟩ := Option.map_eq_some_iff.mp rest
    obtain ⟨missing, used⟩ := Prod.mk.inj observed
    have present := honours.retains [] after 1 10 others c₁ c₂ results₁ results₂ (by simp) keeps
      ran₁ ran₂ few fun k isUsed => .inr ⟨k, used ▸ isUsed, BEq.rfl⟩
    rw [missing] at present
    cases present
  exact ⟨loses _ [] [] (by decide) (by simp) (by decide),
    loses _ [.set 2 20] [2] (by decide) (by decide) (by decide)⟩

end Conc11.LruCache
