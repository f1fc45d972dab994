/-
Module: Conc11.LruCache.History
Purpose: The contents of an `LRUCache` told from the calls alone.  With the calls that take nothing out it has the
  most recently used keys, as many as its capacity, in the order of their last use, each with the value that
  was set last.
Trusted boundary: none
Main exports: lastSet, Told, specRun_told, recent_keys_kept
-/
import Conc11.Library.LruHistory
import Conc11.LruCache.Capacity

namespace Conc11.LruCache

open Library

variable {K V P : Type} [BEq K]

/-- The value that was set last for a key. -/
def lastSet (ops : List (Op K V P)) (key : K) : Option V :=
  ops.foldl (fun last op =>
    match op with
    | .set k value => if k == key then some value else last
    | _ => last) none

theorem lastSet_concat (ops : List (Op K V P)) (op : Op K V P) (key : K) :
    lastSet (ops ++ [op]) key =
      match op with
      | .set k value => if k == key then some value else lastSet ops key
      | _ => lastSet ops key := by
  rw [lastSet, List.foldl_append]
  cases op <;> rfl

/-- The list after the calls `ops`, which have used the keys `used`. -/
structure Told (capacity : Nat) (ops : List (Op K V P)) (used : List K)
    (entries : List (K × V)) : Prop where
  keys : Recalls capacity entries used
  values : ∀ e ∈ entries, lastSet ops e.1 = some e.2

namespace Told

variable [EquivBEq K] {capacity : Nat} {ops : List (Op K V P)} {used : List K} {l : LruList K V}
  {key : K}

omit [EquivBEq K] in
/-- A call that sets nothing and uses no key. -/
theorem unused (told : Told capacity ops used l.entries) (op : Op K V P)
    (notSet : ∀ key, lastSet (ops ++ [op]) key = lastSet ops key) :
    Told capacity (ops ++ [op]) used l.entries :=
  ⟨told.keys, fun e isIn => (notSet e.1).trans (told.values e isIn)⟩

/-- A call that looks for a key and so uses it if it is there. -/
theorem touch (told : Told capacity ops used l.entries) (op : Op K V P) (key : K)
    (notSet : ∀ key, lastSet (ops ++ [op]) key = lastSet ops key) :
    Told capacity (ops ++ [op]) (used ++ if (l.lookup key).isSome then [key] else [])
      (l.touch key).entries := by
  cases found : l.entries.find? fun e => e.1 == key with
  | none =>
      rw [LruList.lookup_of_missing found, LruList.touch_of_missing found]
      simpa using told.unused op notSet
  | some e =>
      have hit : (l.lookup key).isSome = true := by
        rw [LruList.lookup, found]
        rfl
      rw [if_pos hit]
      refine ⟨told.keys.promote found id, fun f isIn => ?_⟩
      rw [notSet]
      apply told.values
      change f ∈ LruList.promote id l.entries key at isIn
      rw [LruList.promote, found] at isIn
      rcases List.mem_cons.mp isIn with rfl | other
      · exact List.mem_of_find?_eq_some found
      · exact List.mem_of_mem_eraseP other

theorem set (told : Told capacity ops used l.entries) (value : V) :
    Told capacity (ops ++ [.set key value]) (used ++ [key]) (l.put capacity key value).entries := by
  cases found : l.entries.find? fun e => e.1 == key with
  | none =>
      rw [LruList.put_of_missing found]
      refine ⟨told.keys.putMissing found value, fun f isIn => ?_⟩
      rw [lastSet_concat]
      dsimp only
      have stays : f ∈ (key, value) :: l.entries := by
        unfold LruList.shorten at isIn
        split at isIn
        · exact List.dropLast_subset _ isIn
        · exact isIn
      rcases List.mem_cons.mp stays with rfl | old
      · rw [if_pos BEq.rfl]
      · have other := List.find?_eq_none.mp found f old
        rw [if_neg fun same => other (BEq.symm same)]
        exact told.values f old
  | some e =>
      obtain ⟨equal, before, after, split, _⟩ := List.find?_eq_some_iff_append.mp found
      rw [LruList.put_of_found found]
      refine ⟨told.keys.promote found _, fun f isIn => ?_⟩
      rw [lastSet_concat]
      dsimp only
      rw [LruList.promote_of_split split equal] at isIn
      rcases List.mem_cons.mp isIn with rfl | other
      · rw [if_pos (BEq.symm equal)]
      · have distinct : DistinctKeys (before ++ e :: after) := split ▸ l.distinct
        have apart := distinct.other equal f other
        rw [if_neg fun same => Bool.eq_false_iff.mp apart (BEq.symm same)]
        apply told.values
        rw [split]
        rcases List.mem_append.mp other with early | late
        · exact List.mem_append_left _ early
        · exact List.mem_append_right _ (List.mem_cons_of_mem _ late)

/-- A call that takes nothing out. -/
theorem step (told : Told capacity ops used l.entries) (op : Op K V P) (keeps : op.keeps = true) :
    Told capacity (ops ++ [op]) (used ++ (op.usedKey (specApply capacity l op).2).toList)
      (specApply capacity l op).1.entries := by
  cases op with
  | set k value => exact told.set value
  | get k =>
      have touched := told.touch (.get k) k fun _ => lastSet_concat ..
      cases found : l.lookup k <;> simpa [specApply, found, Op.usedKey] using touched
  | getCopy k outValue =>
      have touched := told.touch (.getCopy k outValue) k fun _ => lastSet_concat ..
      cases found : l.lookup k <;> simpa [specApply, found, Op.usedKey] using touched
  | getCopyPointee k pointee outValuePointee =>
      have touched := told.touch (.getCopyPointee k pointee outValuePointee) k
        fun _ => lastSet_concat ..
      cases found : l.lookup k <;> simpa [specApply, found, Op.usedKey] using touched
  | hasKey k =>
      have kept := told.unused (.hasKey k) fun _ => lastSet_concat ..
      simpa [specApply, Op.usedKey] using kept
  | getMove k outValue => cases keeps
  | erase k => cases keeps
  | clear => cases keeps

end Told

/-- A run of calls that take nothing out. -/
theorem specRun_told [EquivBEq K] {capacity : Nat} {before ops : List (Op K V P)} {used : List K}
    {l : LruList K V} (told : Told capacity before used l.entries)
    (keeps : ∀ op ∈ ops, op.keeps = true) :
    Told capacity (before ++ ops) (used ++ usedKeys ops (specRun capacity l ops).2)
      (specRun capacity l ops).1.entries := by
  induction ops generalizing before used l with
  | nil => simpa [specRun, usedKeys] using told
  | cons op ops ih =>
      have after := told.step op (keeps op List.mem_cons_self)
      have rest := ih after fun op member => keeps op (List.mem_cons_of_mem _ member)
      rw [List.append_assoc, List.append_assoc] at rest
      exact rest

/-- Whatever is set, looked up and tested, the cache has exactly the keys that
have been set or hit most recently, as many as its capacity allows, in the
order of their last use from the head on; and with every key it has the value
that was set for it last. -/
theorem recent_keys_kept [EquivBEq K] [Hashable K] [LawfulHashable K] (capacity : BitVec 64)
    (fits : capacity.toNat < 2 ^ 32) (ops : List (Op K V P)) (keeps : ∀ op ∈ ops, op.keeps = true) :
    ∃ c results cells, (LRUCache.new capacity : LRUCache K V).run ops = some (c, results) ∧
      Represents c cells ∧
      SameKeys (cells.map fun cell => cell.2.1)
        ((recent (usedKeys ops results)).take capacity.toNat) ∧
      (∀ cell ∈ cells, lastSet ops cell.2.1 = some cell.2.2) ∧
      ∀ key, c.hasKey key = true ↔
        ∃ k ∈ (recent (usedKeys ops results)).take capacity.toNat, (k == key) = true := by
  obtain ⟨c, ran, refines⟩ := run_refines (new_refines capacity fits) ops
  have start : Told capacity.toNat ([] : List (Op K V P)) [] (LruList.empty : LruList K V).entries :=
    ⟨.empty, fun e isIn => absurd isIn List.not_mem_nil⟩
  have told := specRun_told start keeps
  rw [List.nil_append, List.nil_append] at told
  obtain ⟨_, cells, represents, entries⟩ := id refines
  refine ⟨c, _, cells, ran, represents, ?_, fun cell isIn => ?_, fun key => ?_⟩
  · have keys := told.keys
    rwa [← entries, Recalls, List.map_map] at keys
  · apply told.values
    rw [← entries]
    exact List.mem_map_of_mem isIn
  · rw [hasKey_refines refines]
    exact told.keys.lookup_iff key

/-- Three keys in a cache for two. -/
def threeKeys : List (Op Nat Nat Nat) :=
  [.set 1 10, .set 2 20, .get 1, .set 3 30, .getCopy 2 0, .set 1 11]

/-- The key that was not used again is gone, and its later miss does not bring it
back. -/
theorem recent_keys_kept_three_keys :
    ∃ (c : LRUCache Nat Nat) (results : List (Result Nat Nat)),
      (LRUCache.new 2#64 : LRUCache Nat Nat).run threeKeys = some (c, results) ∧
      recent (usedKeys threeKeys results) = [1, 3, 2] ∧
      c.hasKey 1 = true ∧ c.hasKey 3 = true ∧ c.hasKey 2 = false := by
  obtain ⟨c, results, cells, ran, _, _, _, present⟩ :=
    recent_keys_kept (K := Nat) (V := Nat) (P := Nat) 2#64 (by decide) threeKeys (by decide)
  have shown : ((LRUCache.new 2#64 : LRUCache Nat Nat).run threeKeys).map
      (fun after => recent (usedKeys threeKeys after.2)) = some [1, 3, 2] := by
    decide +kernel
  rw [ran] at shown
  have used : recent (usedKeys threeKeys results) = [1, 3, 2] := Option.some.inj shown
  rw [used] at present
  refine ⟨c, results, ran, used, (present 1).mpr (by decide), (present 3).mpr (by decide), ?_⟩
  rw [← Bool.not_eq_true, present 2]
  decide

end Conc11.LruCache
