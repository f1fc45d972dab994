/-
Module: Conc11.LruCache.Refinement
Purpose: `LRUCache` implements the abstract LRU list: every call gives the result of the list and leaves
  the pointers linking the entries of the list in its order.
Trusted boundary: none
Main exports: specApply, specRun, Represents, Refines, apply_refines, run_refines
-/
import Mathlib.Algebra.Order.Ring.Nat
import Conc11.Library.LruList
import Conc11.LruCache.Links

namespace Conc11.LruCache

open Library

variable {K V P : Type} [BEq K]

/-! ## The calls on the abstract list -/

section Spec

variable [PartialEquivBEq K]

/-- What a call does to the abstract list, and what it gives back. -/
def specApply (capacity : Nat) (l : LruList K V) : Op K V P → LruList K V × Result V P
  | .set key value => (l.put capacity key value, .unit)
  | .get key => (l.touch key, .pointer (l.lookup key))
  | .getCopy key outValue =>
      (l.touch key, .copied (l.lookup key).isSome ((l.lookup key).getD outValue))
  | .getMove key outValue =>
      (l.erase key, .copied (l.lookup key).isSome ((l.lookup key).getD outValue))
  | .getCopyPointee key pointee outValuePointee =>
      (l.touch key,
        .pointee (l.lookup key).isSome (((l.lookup key).map pointee).getD outValuePointee))
  | .hasKey key => (l, .flag (l.lookup key).isSome)
  | .erase key => (l.erase key, .flag (l.lookup key).isSome)
  | .clear => (.empty, .unit)

def specRun (capacity : Nat) (l : LruList K V) :
    List (Op K V P) → LruList K V × List (Result V P)
  | [] => (l, [])
  | op :: ops =>
      let (l, result) := specApply capacity l op
      let (l, results) := specRun capacity l ops
      (l, result :: results)

end Spec

/-! ## The map and the list -/

variable {c c' : LRUCache K V} {cells l r : List (Addr × (K × V))} {x : Addr × (K × V)} {key : K}

/-- The linked nodes are those of the unordered map, and their keys differ. -/
structure Represents (c : LRUCache K V) (cells : List (Addr × (K × V))) : Prop
    extends Linked c cells where
  members : c.mem.Perm (cells.map Prod.fst)
  distinct : DistinctKeys (cells.map Prod.snd)
  bound : ∀ cell ∈ cells, cell.1 < c.nextNode

section Find

variable [Hashable K] [LawfulHashable K]

/-- Equal keys have equal hash values, so only `Eql` decides. -/
theorem answers_eq {a : Addr} {pair : K × V} (stored : c.pairAt a = some pair) (key : K) :
    c.answers key a = (pair.1 == key) := by
  obtain ⟨node, allocated, first, _⟩ := exists_node stored
  unfold LRUCache.answers
  rw [allocated, ← first]
  dsimp only
  cases equal : node.first == key with
  | true => rw [hash_eq equal, BEq.rfl, Bool.and_true]
  | false => rw [Bool.and_false]

/-- `mem.find` finds a node of the list with an equal key, if there is one. -/
theorem find_cases (members : c.mem.Perm (cells.map Prod.fst))
    (stored : ∀ cell ∈ cells, c.pairAt cell.1 = some cell.2) (key : K) :
    (c.find key = none ∧ (cells.map Prod.snd).find? (fun e => e.1 == key) = none) ∨
      ∃ l x r, cells = l ++ x :: r ∧ (x.2.1 == key) = true ∧ c.find key = some x.1 := by
  cases found : c.find key with
  | none =>
      refine .inl ⟨rfl, List.find?_eq_none.mpr (List.forall_mem_map.mpr fun cell inCells => ?_)⟩
      have isMember := members.mem_iff.mpr (List.mem_map_of_mem inCells)
      rw [← answers_eq (stored cell inCells) key]
      exact List.find?_eq_none.mp found cell.1 isMember
  | some a =>
      have answers := List.find?_some found
      obtain ⟨x, inCells, rfl⟩ :=
        List.mem_map.mp (members.mem_iff.mp (List.mem_of_find?_eq_some found))
      rw [answers_eq (stored x inCells) key] at answers
      obtain ⟨l, r, rfl⟩ := List.append_of_mem inCells
      exact .inr ⟨l, x, r, rfl, answers, rfl⟩

end Find

namespace Represents

theorem nodup (represents : Represents c cells) : (cells.map Prod.fst).Nodup :=
  represents.list.nodup

theorem length_eq (represents : Represents c cells) : c.mem.length = cells.length := by
  rw [represents.members.length_eq, List.length_map]

theorem moveToHead [PartialEquivBEq K] (represents : Represents c (l ++ x :: r)) :
    ∃ c', c.listMoveToHead x.1 = some c' ∧ Represents c' (x :: (l ++ r)) ∧ SameData c c' := by
  obtain ⟨c', moved, linked, same⟩ := represents.toLinked.moveToHead
  have perm : (x :: (l ++ r)).Perm (l ++ x :: r) := List.perm_middle.symm
  refine ⟨c', moved, ⟨linked, ?_, ?_, fun cell member => ?_⟩, same⟩
  · rw [same.mem]
    exact represents.members.trans (perm.map Prod.fst).symm
  · have distinct := represents.distinct
    rw [List.map_append, List.map_cons] at distinct
    rw [List.map_cons, List.map_append]
    exact distinct.move
  · rw [same.nextNode]
    exact represents.bound cell (perm.mem_iff.mp member)

theorem setValue (represents : Represents c (l ++ x :: r)) (value : V) :
    ∃ c', c.setValue x.1 value = some c' ∧ Represents c' (l ++ (x.1, (x.2.1, value)) :: r) ∧
      c'.capacity = c.capacity := by
  obtain ⟨c', assigned, linked, next, mem, capacity⟩ := represents.toLinked.setValue value
  refine ⟨c', assigned, ⟨linked, ?_, represents.distinct.of_keys ?_, fun cell member => ?_⟩,
    capacity⟩
  · rw [mem]
    simpa using represents.members
  · simp
  · rw [next]
    rcases List.mem_cons.mp (List.perm_middle.mem_iff.mp member) with rfl | other
    · exact represents.bound x (by simp)
    · exact represents.bound cell (((List.sublist_cons_self x r).append_left l).subset other)

/-- A node that is out of the list goes from the unordered map. -/
theorem eraseNode (linked : Linked c (l ++ r)) (members : c.mem.Perm ((l ++ x :: r).map Prod.fst))
    (nodup : ((l ++ x :: r).map Prod.fst).Nodup)
    (distinct : DistinctKeys ((l ++ x :: r).map Prod.snd))
    (bound : ∀ cell ∈ l ++ x :: r, cell.1 < c.nextNode) :
    Represents (c.eraseNode x.1) (l ++ r) := by
  have shorter : (l ++ r).Sublist (l ++ x :: r) := (List.sublist_cons_self x r).append_left l
  have perm : ((l ++ x :: r).map Prod.fst).Perm (x.1 :: (l ++ r).map Prod.fst) :=
    List.perm_middle.map Prod.fst
  have gone : x.1 ∉ (l ++ r).map Prod.fst := (List.nodup_cons.mp (perm.nodup_iff.mp nodup)).1
  have kept : ∀ b ∈ (l ++ r).map Prod.fst, (c.eraseNode x.1).nodes b = c.nodes b := by
    intro b member
    have other : b ≠ x.1 := fun same => gone (same ▸ member)
    exact Function.update_of_ne other ..
  refine ⟨⟨?_, fun cell member => ?_⟩, ?_, distinct.sublist (shorter.map Prod.snd),
    fun cell member => bound cell (shorter.subset member)⟩
  · refine linked.list.congr (fun b member => ?_) fun b member => ?_
    · rw [LRUCache.parentOf, kept b member]
      rfl
    · rw [LRUCache.childOf, kept b member]
      rfl
  · rw [LRUCache.pairAt, kept cell.1 (List.mem_map_of_mem member)]
    exact linked.stored cell member
  · have erased := (members.trans perm).erase x.1
    rwa [List.erase_cons_head] at erased

section Found

variable [Hashable K] [LawfulHashable K] {e : Addr}

theorem exists_split (represents : Represents c cells) (found : c.find key = some e) :
    ∃ l x r, cells = l ++ x :: r ∧ (x.2.1 == key) = true ∧ x.1 = e := by
  rcases find_cases represents.members represents.stored key with
    ⟨missing, _⟩ | ⟨l, x, r, split, equal, same⟩
  · rw [missing] at found
    cases found
  · exact ⟨l, x, r, split, equal, Option.some.inj (same.symm.trans found)⟩

theorem absent (represents : Represents c cells) (missing : c.find key = none) :
    (cells.map Prod.snd).find? (fun e => e.1 == key) = none := by
  rcases find_cases represents.members represents.stored key with
    ⟨_, absent⟩ | ⟨_, _, _, _, _, found⟩
  · exact absent
  · rw [missing] at found
    cases found

end Found

/-- Releasing a node and erasing it from the unordered map. -/
theorem remove (represents : Represents c (l ++ x :: r)) :
    ∃ c', c.listRelease x.1 = some c' ∧ Represents (c'.eraseNode x.1) (l ++ r) ∧
      SameData c c' := by
  obtain ⟨c', released, linked, same⟩ := represents.toLinked.release
  refine ⟨c', released, eraseNode linked ?_ represents.nodup represents.distinct ?_, same⟩
  · rw [same.mem]
    exact represents.members
  · rw [same.nextNode]
    exact represents.bound

variable [Hashable K]

/-- A new node holds the new pair and is not linked yet. -/
theorem emplace (represents : Represents c cells) (missing : c.find key = none) (value : V) :
    ∃ c', c.emplace key value = (c', c.nextNode) ∧ Linked c' cells ∧
      c'.pairAt c.nextNode = some (key, value) ∧ c.nextNode ∉ cells.map Prod.fst ∧
      c'.mem = c.nextNode :: c.mem ∧ c'.nextNode = c.nextNode + 1 ∧ c'.capacity = c.capacity := by
  have fresh : c.nextNode ∉ cells.map Prod.fst := by
    intro member
    obtain ⟨cell, inCells, same⟩ := List.mem_map.mp member
    exact absurd (represents.bound cell inCells) (by rw [same]; exact Nat.lt_irrefl _)
  obtain ⟨c', made⟩ : ∃ c', c' = (c.emplace key value).1 := ⟨_, rfl⟩
  have emplaced : c.emplace key value = (c', c.nextNode) := by
    rw [made, LRUCache.emplace, missing]
  rw [LRUCache.emplace, missing] at made
  have kept : ∀ b ∈ cells.map Prod.fst, c'.nodes b = c.nodes b := by
    intro b member
    have other : b ≠ c.nextNode := fun same => fresh (same ▸ member)
    rw [made]
    exact Function.update_of_ne other ..
  refine ⟨c', emplaced, ⟨?_, fun cell member => ?_⟩, ?_, fresh, by rw [made], by rw [made],
    by rw [made]⟩
  · have ends : c'.lruListHead = c.lruListHead ∧ c'.lruListTail = c.lruListTail := by
      rw [made]
      exact ⟨rfl, rfl⟩
    rw [ends.1, ends.2]
    refine represents.list.congr (fun b member => ?_) fun b member => ?_
    · rw [LRUCache.parentOf, kept b member]
      rfl
    · rw [LRUCache.childOf, kept b member]
      rfl
  · rw [LRUCache.pairAt, kept cell.1 (List.mem_map_of_mem member)]
    exact represents.stored cell member
  · rw [made, LRUCache.pairAt]
    simp

/-- `gc1` releases the tail and erases it; the key of the tail finds the tail itself. -/
theorem gc1_eq [EquivBEq K] [LawfulHashable K] (represents : Represents c (l ++ [x])) :
    ∃ c₁, c.lruListTail = some x.1 ∧ c.gc1 = some (c₁.eraseNode x.1) ∧
      Represents (c₁.eraseNode x.1) l ∧ SameData c c₁ := by
  obtain ⟨c₁, released, after, same⟩ := represents.remove
  rw [List.append_nil] at after
  have isTail : c.lruListTail = some x.1 := by
    rw [represents.list.tail_eq, List.map_append]
    exact List.getLast?_concat ..
  have stored : ∀ cell ∈ l ++ [x], c₁.pairAt cell.1 = some cell.2 := fun cell member => by
    rw [same.pairs]
    exact represents.stored cell member
  obtain ⟨node, allocated, first, _⟩ := exists_node (stored x (by simp))
  have found : c₁.find node.first = some x.1 := by
    rw [first]
    rcases find_cases (same.mem ▸ represents.members) stored x.2.1 with
      ⟨_, missing⟩ | ⟨before, y, behind, split, equal, found⟩
    · exact absurd BEq.rfl (List.find?_eq_none.mp missing x.2 (by simp))
    · have distinct := represents.distinct
      rw [split, List.map_append, List.map_cons] at distinct
      have isIn : x ∈ before ++ y :: behind := by
        rw [← split]
        simp
      rcases List.mem_cons.mp (List.perm_middle.mem_iff.mp isIn) with rfl | elsewhere
      · exact found
      · have apart := distinct.other equal x.2
          (by rw [← List.map_append]; exact List.mem_map_of_mem elsewhere)
        rw [BEq.rfl] at apart
        cases apart
  refine ⟨c₁, isTail, ?_, after, same⟩
  rw [LRUCache.gc1, isTail]
  simp only [released, allocated, Option.bind_eq_bind, Option.bind_some, Option.pure_def,
    LRUCache.eraseKey, found]

/-- `gc1` drops the last entry. -/
theorem gc1 [EquivBEq K] [LawfulHashable K] (represents : Represents c (l ++ [x])) :
    ∃ c', c.gc1 = some c' ∧ Represents c' l ∧ c'.capacity = c.capacity := by
  obtain ⟨c₁, _, erased, after, same⟩ := represents.gc1_eq
  exact ⟨c₁.eraseNode x.1, erased, after, same.capacity⟩

/-- What `set` does with a new key: a node with the pair comes to the head. -/
theorem insertNew (represents : Represents c cells) (missing : c.find key = none)
    (absent : (cells.map Prod.snd).find? (fun e => e.1 == key) = none) [PartialEquivBEq K]
    (value : V) :
    ∃ c₁ c₂, c.emplace key value = (c₁, c.nextNode) ∧ c₁.listInsertHead c.nextNode = some c₂ ∧
      Represents c₂ ((c.nextNode, (key, value)) :: cells) ∧ c₂.capacity = c.capacity := by
  obtain ⟨c₁, emplaced, linked, stored, fresh, mem, next, capacity₁⟩ :=
    represents.emplace missing value
  obtain ⟨c₂, inserted, linked₂, same⟩ :=
    linked.insertHead (x := (c.nextNode, (key, value))) stored fresh
  refine ⟨c₁, c₂, emplaced, inserted, ⟨linked₂, ?_, ?_, fun cell member => ?_⟩,
    same.capacity.trans capacity₁⟩
  · rw [same.mem, mem, List.map_cons]
    exact represents.members.cons _
  · rw [List.map_cons]
    exact represents.distinct.cons absent
  · rw [same.nextNode, next]
    rcases List.mem_cons.mp member with rfl | old
    · exact Nat.lt_succ_self _
    · exact Nat.lt_succ_of_lt (represents.bound cell old)

/-- What `set` does after an insertion: a cache that is too large loses the
last entry. -/
theorem shorten [EquivBEq K] [LawfulHashable K] (represents : Represents c (x :: cells)) :
    ∃ c', (if c.capacity.toNat < c.mem.length then c.gc1 else some c) = some c' ∧
      c'.capacity = c.capacity ∧ ∃ cells', Represents c' cells' ∧
        cells'.map Prod.snd =
          LruList.shorten c.capacity.toNat ((x :: cells).map Prod.snd) := by
  unfold LruList.shorten
  rw [List.length_map, ← represents.length_eq]
  split
  next full =>
    obtain ⟨l, last, ends⟩ := (List.eq_nil_or_concat' (x :: cells)).resolve_left (by simp)
    rw [ends] at represents ⊢
    obtain ⟨c', dropped, after, same⟩ := represents.gc1
    exact ⟨c', dropped, same, l, after, by simp⟩
  next => exact ⟨c, rfl, rfl, _, represents, rfl⟩

end Represents

/-! ## One call -/

/-- The cache is the list `l` of the given capacity. -/
def Refines (capacity : Nat) (c : LRUCache K V) (l : LruList K V) : Prop :=
  c.capacity.toNat = capacity ∧ ∃ cells, Represents c cells ∧ cells.map Prod.snd = l.entries

section Calls

variable {capacity : Nat} {list : LruList K V}

/-- A linked cache is the list of its entries. -/
theorem Represents.refines (represents : Represents c cells) :
    Refines c.capacity.toNat c ⟨cells.map Prod.snd, represents.distinct⟩ :=
  ⟨rfl, cells, represents, rfl⟩

/-- Moving a found entry to the front. -/
theorem Represents.touch [PartialEquivBEq K] (represents : Represents c (l ++ x :: r))
    (sized : c.capacity.toNat = capacity) (equal : (x.2.1 == key) = true)
    (entries : list.entries = l.map Prod.snd ++ x.2 :: r.map Prod.snd) :
    ∃ c', c.listMoveToHead x.1 = some c' ∧ Refines capacity c' (list.touch key) ∧
      ∃ node, c'.nodes x.1 = some node ∧ node.second.value = x.2.2 := by
  obtain ⟨c', moved, after, same⟩ := represents.moveToHead
  obtain ⟨node, allocated, _, stored⟩ := exists_node (after.stored x List.mem_cons_self)
  refine ⟨c', moved, ⟨by rw [same.capacity, sized], _, after, ?_⟩, node, allocated, stored⟩
  rw [LruList.touch_of_split entries equal, List.map_cons, List.map_append]

/-- Erasing a found entry. -/
theorem Represents.erase [PartialEquivBEq K] (represents : Represents c (l ++ x :: r))
    (sized : c.capacity.toNat = capacity) (equal : (x.2.1 == key) = true)
    (entries : list.entries = l.map Prod.snd ++ x.2 :: r.map Prod.snd) :
    ∃ c', c.listRelease x.1 = some c' ∧ Refines capacity (c'.eraseNode x.1) (list.erase key) := by
  obtain ⟨c', released, after, same⟩ := represents.remove
  refine ⟨c', released, (congrArg BitVec.toNat same.capacity).trans sized, _, after, ?_⟩
  rw [LruList.erase_of_split entries equal, List.map_append]

/-- A list with the same entries will do. -/
theorem Refines.congr {other : LruList K V} (refines : Refines capacity c list)
    (same : other.entries = list.entries) : Refines capacity c other := by
  obtain ⟨sized, cells, represents, entries⟩ := refines
  exact ⟨sized, cells, represents, entries.trans same.symm⟩

theorem clear_refines (refines : Refines capacity c list) :
    Refines capacity c.clear LruList.empty :=
  ⟨refines.1, [], ⟨⟨.nil, by simp⟩, .refl [], List.Pairwise.nil, by simp⟩, rfl⟩

/-- A new cache has the capacity that is left of its parameter in 32 bits. -/
theorem new_refines_mod (capacity : BitVec 64) :
    Refines (capacity.toNat % 2 ^ 32) (LRUCache.new capacity : LRUCache K V) LruList.empty :=
  ⟨BitVec.toNat_setWidth 32 capacity, [], ⟨⟨.nil, by simp⟩, .refl [], List.Pairwise.nil, by simp⟩, rfl⟩

theorem new_refines (capacity : BitVec 64) (fits : capacity.toNat < 2 ^ 32) :
    Refines capacity.toNat (LRUCache.new capacity : LRUCache K V) LruList.empty := by
  have refines : Refines (capacity.toNat % 2 ^ 32) (LRUCache.new capacity : LRUCache K V) .empty :=
    new_refines_mod capacity
  rwa [Nat.mod_eq_of_lt fits] at refines

variable [Hashable K] [EquivBEq K] [LawfulHashable K]

omit [EquivBEq K] in
/-- A lookup either finds no entry in cache and list, or the same one in both. -/
theorem Refines.find_cases (refines : Refines capacity c list) (key : K) :
    (c.find key = none ∧ list.entries.find? (fun e => e.1 == key) = none) ∨
      ∃ l x r, Represents c (l ++ x :: r) ∧ (x.2.1 == key) = true ∧ c.find key = some x.1 ∧
        list.entries = l.map Prod.snd ++ x.2 :: r.map Prod.snd := by
  obtain ⟨_, cells, represents, entries⟩ := refines
  rcases LruCache.find_cases represents.members represents.stored key with
    ⟨missing, absent⟩ | ⟨l, x, r, rfl, equal, found⟩
  · exact .inl ⟨missing, entries ▸ absent⟩
  · refine .inr ⟨l, x, r, represents, equal, found, ?_⟩
    rw [← entries, List.map_append, List.map_cons]

theorem set_refines (refines : Refines capacity c list) (key : K) (value : V) :
    ∃ c', c.set key value = some c' ∧ Refines capacity c' (list.put capacity key value) := by
  have sized := refines.1
  rcases refines.find_cases key with ⟨missing, absent⟩ | ⟨l, x, r, represents, equal, found, entries⟩
  · obtain ⟨_, cells, represents, entries⟩ := refines
    obtain ⟨c₁, c₂, emplaced, inserted, represents₂, capacity₂⟩ :=
      represents.insertNew missing (entries ▸ absent) value
    have sized₂ : c₂.capacity.toNat = capacity := by rw [capacity₂, sized]
    obtain ⟨c₃, shortened, sized₃, cells', represents₃, entries₃⟩ := represents₂.shorten
    refine ⟨c₃, ?_, by rw [sized₃, sized₂], cells', represents₃, ?_⟩
    · rw [LRUCache.set, missing]
      simp only [emplaced, inserted, Option.bind_eq_bind, Option.bind_some]
      exact shortened
    · rw [entries₃, sized₂, List.map_cons, entries, LruList.put_of_missing absent]
  · obtain ⟨c₁, assigned, represents₁, capacity₁⟩ := represents.setValue value
    obtain ⟨c₂, moved, after, same⟩ := represents₁.moveToHead
    refine ⟨c₂, ?_, by rw [same.capacity, capacity₁, sized], _, after, ?_⟩
    · rw [LRUCache.set, found]
      simp only [assigned, Option.bind_eq_bind, Option.bind_some]
      exact moved
    · rw [LruList.put_of_split entries equal, List.map_cons, List.map_append]

/-- The pointer that `get` returns points to the stored value. -/
theorem get_refines (refines : Refines capacity c list) (key : K) :
    ∃ c' pointer, c.get key = some (c', pointer) ∧ Refines capacity c' (list.touch key) ∧
      pointer.map (fun e => (c'.nodes e).map fun node => node.second.value) =
        (list.lookup key).map some := by
  rcases refines.find_cases key with
    ⟨missing, absent⟩ | ⟨l, x, r, represents, equal, found, entries⟩
  · refine ⟨c, none, ?_, refines.congr (LruList.touch_of_missing absent), ?_⟩
    · rw [LRUCache.get, missing]
      rfl
    · rw [LruList.lookup_of_missing absent]
      rfl
  · obtain ⟨c', moved, after, node, allocated, value⟩ :=
      represents.touch refines.1 equal entries
    refine ⟨c', some x.1, ?_, after, ?_⟩
    · rw [LRUCache.get, found]
      simp only [moved, Option.bind_eq_bind, Option.bind_some, Option.pure_def]
    · rw [LruList.lookup_of_split entries equal, Option.map_some, allocated, Option.map_some,
        value, Option.map_some]

theorem getCopy_refines (refines : Refines capacity c list) (key : K) (outValue : V) :
    ∃ c', c.getCopy key outValue =
        some (c', (list.lookup key).isSome, (list.lookup key).getD outValue) ∧
      Refines capacity c' (list.touch key) := by
  rcases refines.find_cases key with
    ⟨missing, absent⟩ | ⟨l, x, r, represents, equal, found, entries⟩
  · refine ⟨c, ?_, refines.congr (LruList.touch_of_missing absent)⟩
    rw [LRUCache.getCopy, missing, LruList.lookup_of_missing absent]
    rfl
  · obtain ⟨c', moved, after, node, allocated, value⟩ :=
      represents.touch refines.1 equal entries
    refine ⟨c', ?_, after⟩
    rw [LRUCache.getCopy, found, LruList.lookup_of_split entries equal]
    simp only [moved, allocated, value, Option.bind_eq_bind, Option.bind_some, Option.pure_def,
      Option.isSome_some, Option.getD_some]

theorem getCopyPointee_refines (refines : Refines capacity c list) (pointee : V → P) (key : K)
    (outValuePointee : P) :
    ∃ c', c.getCopyPointee pointee key outValuePointee =
        some (c', (list.lookup key).isSome,
          ((list.lookup key).map pointee).getD outValuePointee) ∧
      Refines capacity c' (list.touch key) := by
  rcases refines.find_cases key with
    ⟨missing, absent⟩ | ⟨l, x, r, represents, equal, found, entries⟩
  · refine ⟨c, ?_, refines.congr (LruList.touch_of_missing absent)⟩
    rw [LRUCache.getCopyPointee, missing, LruList.lookup_of_missing absent]
    rfl
  · obtain ⟨c', moved, after, node, allocated, value⟩ :=
      represents.touch refines.1 equal entries
    refine ⟨c', ?_, after⟩
    rw [LRUCache.getCopyPointee, found, LruList.lookup_of_split entries equal]
    simp only [moved, allocated, value, Option.bind_eq_bind, Option.bind_some, Option.pure_def,
      Option.isSome_some, Option.map_some, Option.getD_some]

theorem getMove_refines (refines : Refines capacity c list) (key : K) (outValue : V) :
    ∃ c', c.getMove key outValue =
        some (c', (list.lookup key).isSome, (list.lookup key).getD outValue) ∧
      Refines capacity c' (list.erase key) := by
  rcases refines.find_cases key with
    ⟨missing, absent⟩ | ⟨l, x, r, represents, equal, found, entries⟩
  · refine ⟨c, ?_, refines.congr (LruList.erase_of_missing absent)⟩
    rw [LRUCache.getMove, missing, LruList.lookup_of_missing absent]
    rfl
  · obtain ⟨c', released, after⟩ := represents.erase refines.1 equal entries
    obtain ⟨node, allocated, _, value⟩ := exists_node (represents.stored x (by simp))
    refine ⟨c'.eraseNode x.1, ?_, after⟩
    rw [LRUCache.getMove, found, LruList.lookup_of_split entries equal]
    simp only [allocated, released, value, Option.bind_eq_bind, Option.bind_some, Option.pure_def,
      Option.isSome_some, Option.getD_some]

theorem erase_refines (refines : Refines capacity c list) (key : K) :
    ∃ c', c.erase key = some (c', (list.lookup key).isSome) ∧
      Refines capacity c' (list.erase key) := by
  rcases refines.find_cases key with
    ⟨missing, absent⟩ | ⟨l, x, r, represents, equal, found, entries⟩
  · refine ⟨c, ?_, refines.congr (LruList.erase_of_missing absent)⟩
    rw [LRUCache.erase, missing, LruList.lookup_of_missing absent]
    rfl
  · obtain ⟨c', released, after⟩ := represents.erase refines.1 equal entries
    refine ⟨c'.eraseNode x.1, ?_, after⟩
    rw [LRUCache.erase, found, LruList.lookup_of_split entries equal]
    simp only [released, Option.bind_eq_bind, Option.bind_some, Option.pure_def,
      Option.isSome_some]

theorem hasKey_refines (refines : Refines capacity c list) (key : K) :
    c.hasKey key = (list.lookup key).isSome := by
  rcases refines.find_cases key with ⟨missing, absent⟩ | ⟨l, x, r, _, equal, found, entries⟩
  · rw [LRUCache.hasKey, missing, LruList.lookup_of_missing absent]
    rfl
  · rw [LRUCache.hasKey, found, LruList.lookup_of_split entries equal]
    rfl

/-! ## Runs -/

/-- Every call gives the result of the list and leaves the cache being the list. -/
theorem apply_refines (refines : Refines capacity c list) (op : Op K V P) :
    ∃ c', c.apply op = some (c', (specApply capacity list op).2) ∧
      Refines capacity c' (specApply capacity list op).1 := by
  cases op with
  | set key value =>
      obtain ⟨c', stored, after⟩ := set_refines refines key value
      refine ⟨c', ?_, after⟩
      rw [LRUCache.apply, stored]
      rfl
  | get key =>
      obtain ⟨c', pointer, got, after, target⟩ := get_refines refines key
      refine ⟨c', ?_, after⟩
      rw [LRUCache.apply, got, specApply]
      cases pointer with
      | none =>
          rw [(Option.map_eq_none_iff.mp target.symm : list.lookup key = none)]
          rfl
      | some e =>
          obtain ⟨value, stored, same⟩ := Option.map_eq_some_iff.mp target.symm
          obtain ⟨node, allocated, rfl⟩ := Option.map_eq_some_iff.mp same.symm
          rw [stored]
          simp only [allocated, Option.bind_eq_bind, Option.bind_some, Option.pure_def]
  | getCopy key outValue =>
      obtain ⟨c', got, after⟩ := getCopy_refines refines key outValue
      refine ⟨c', ?_, after⟩
      rw [LRUCache.apply, got]
      rfl
  | getMove key outValue =>
      obtain ⟨c', got, after⟩ := getMove_refines refines key outValue
      refine ⟨c', ?_, after⟩
      rw [LRUCache.apply, got]
      rfl
  | getCopyPointee key pointee outValuePointee =>
      obtain ⟨c', got, after⟩ := getCopyPointee_refines refines pointee key outValuePointee
      refine ⟨c', ?_, after⟩
      rw [LRUCache.apply, got]
      rfl
  | hasKey key =>
      refine ⟨c, ?_, refines⟩
      rw [LRUCache.apply, hasKey_refines refines key]
      rfl
  | erase key =>
      obtain ⟨c', erased, after⟩ := erase_refines refines key
      refine ⟨c', ?_, after⟩
      rw [LRUCache.apply, erased]
      rfl
  | clear => exact ⟨c.clear, rfl, clear_refines refines⟩

theorem run_refines (refines : Refines capacity c list) (ops : List (Op K V P)) :
    ∃ c', c.run ops = some (c', (specRun capacity list ops).2) ∧
      Refines capacity c' (specRun capacity list ops).1 := by
  induction ops generalizing c list with
  | nil => exact ⟨c, rfl, refines⟩
  | cons op ops ih =>
      obtain ⟨c₁, applied, after⟩ := apply_refines refines op
      obtain ⟨c₂, ran, final⟩ := ih after
      refine ⟨c₂, ?_, final⟩
      rw [LRUCache.run, applied]
      simp only [ran, Option.bind_eq_bind, Option.bind_some, Option.pure_def, specRun]

omit [EquivBEq K] [LawfulHashable K] in
/-- A run of two sequences is a run of the first and then of the second. -/
theorem run_append {first second : List (Op K V P)} {results : List (Result V P)}
    (ran : c.run (first ++ second) = some (c', results)) :
    ∃ c₁ results₁ results₂, c.run first = some (c₁, results₁) ∧
      c₁.run second = some (c', results₂) := by
  induction first generalizing c results with
  | nil => exact ⟨c, [], results, rfl, ran⟩
  | cons op ops ih =>
      rw [List.cons_append, LRUCache.run] at ran
      obtain ⟨⟨c₁, result⟩, applied, rest⟩ := Option.bind_eq_some_iff.mp ran
      obtain ⟨⟨c₂, others⟩, ranRest, same⟩ := Option.bind_eq_some_iff.mp rest
      cases same
      obtain ⟨c₃, results₁, results₂, ranOps, ranSecond⟩ := ih ranRest
      refine ⟨c₃, result :: results₁, results₂, ?_, ranSecond⟩
      rw [LRUCache.run, applied]
      simp only [ranOps, Option.bind_eq_bind, Option.bind_some, Option.pure_def]

end Calls

/-- For every capacity below 2^32 and every sequence of calls the cache gives
the results of the abstract list. -/
theorem lru_refines [Hashable K] [EquivBEq K] [LawfulHashable K] (capacity : BitVec 64)
    (fits : capacity.toNat < 2 ^ 32) (ops : List (Op K V P)) :
    ∃ c, (LRUCache.new capacity : LRUCache K V).run ops =
        some (c, (specRun capacity.toNat LruList.empty ops).2) ∧
      Refines capacity.toNat c (specRun capacity.toNat LruList.empty ops).1 :=
  run_refines (new_refines capacity fits) ops

/-- Three entries for two places, and lookups that find them or not. -/
def evictionCalls : List (Op Nat Nat Nat) :=
  [.set 1 10, .set 2 20, .get 1, .set 3 30, .getCopy 2 7, .hasKey 1,
    .getCopyPointee 1 (fun value => value + 1) 0, .getMove 3 0, .erase 3]

/-- The third entry evicts the second, which has not been used since. -/
theorem lru_refines_eviction :
    ((LRUCache.new 2#64 : LRUCache Nat Nat).run evictionCalls).map Prod.snd =
      some [.unit, .unit, .pointer (some 10), .unit, .copied false 7, .flag true,
        .pointee true 11, .copied true 30, .flag false] := by
  obtain ⟨c, ran, _⟩ := lru_refines 2#64 (by decide) evictionCalls
  have results : (specRun 2 (LruList.empty : LruList Nat Nat) evictionCalls).2 =
      [.unit, .unit, .pointer (some 10), .unit, .copied false 7, .flag true,
        .pointee true 11, .copied true 30, .flag false] := by
    decide
  rw [ran, Option.map_some]
  exact congrArg some results

end Conc11.LruCache
