/-
Module: Conc11.LruCache.Pointers
Purpose: The heap under `LRUCache` after any sequence of calls: where the pointers of the list lead, how many
  entries there are, and what `gc1` finds when `set` calls it.
Trusted boundary: none
Main exports: WellLinked, CallsGc1, Represents.wellLinked, pointers_wellLinked
-/
import Conc11.LruCache.Refinement

namespace Conc11.LruCache

open Library

variable {K V P : Type}

/-! ## The pointers -/

/-- What the pointers of a cache have to be, where `visited` are the nodes from
head to tail. -/
structure WellLinked (c : LRUCache K V) (visited : List Addr) : Prop where
  head_null : c.lruListHead = none ↔ c.mem = []
  tail_null : c.lruListTail = none ↔ c.mem = []
  follows : Path c.childOf c.lruListHead visited
  once : visited.Nodup
  entries_once : c.mem.Nodup
  every_entry : ∀ a, a ∈ visited ↔ a ∈ c.mem
  allocated : ∀ a ∈ c.mem, ∃ node, c.nodes a = some node
  ends_at_tail : visited.getLast? = c.lruListTail
  tail_child : ∀ a, c.lruListTail = some a → c.childOf a = none
  head_parent : ∀ a, c.lruListHead = some a → c.parentOf a = none
  inverse : ∀ a ∈ c.mem, ∀ b ∈ c.mem, c.childOf a = some b ↔ c.parentOf b = some a

section

variable [BEq K] {c : LRUCache K V} {cells : List (Addr × (K × V))}

/-- The list of the entries gives all of it. -/
theorem Represents.wellLinked (represents : Represents c cells) :
    WellLinked c (cells.map Prod.fst) := by
  have list := represents.list
  have isEmpty : cells.map Prod.fst = [] ↔ c.mem = [] := by
    rw [← List.length_eq_zero_iff, ← List.length_eq_zero_iff, represents.members.length_eq]
  have isMember : ∀ a, a ∈ cells.map Prod.fst ↔ a ∈ c.mem :=
    fun a => represents.members.mem_iff.symm
  refine
    { head_null := ?_
      tail_null := ?_
      follows := list.forward
      once := list.nodup
      entries_once := represents.members.nodup_iff.mpr list.nodup
      every_entry := isMember
      allocated := fun a inMem => ?_
      ends_at_tail := list.tail_eq.symm
      tail_child := fun a isTail => list.next_tail isTail
      head_parent := fun a isHead => list.prev_head isHead
      inverse := fun a aIn b bIn => ⟨fun link => ?_, fun link => ?_⟩ }
  · rw [list.head_eq, List.head?_eq_none_iff]
    exact isEmpty
  · rw [list.tail_eq, List.getLast?_eq_none_iff]
    exact isEmpty
  · obtain ⟨pair, stored⟩ := represents.stored_of_mem ((isMember a).mpr inMem)
    obtain ⟨node, allocated, _⟩ := exists_node stored
    exact ⟨node, allocated⟩
  · exact (list.prev_of_next ((isMember a).mpr aIn) link).2
  · exact (list.next_of_prev ((isMember b).mpr bIn) link).2

end

/-! ## The number of entries -/

section

variable [BEq K] [PartialEquivBEq K] {capacity : Nat} {l : LruList K V}

theorem specApply_length_le (atMost : l.entries.length ≤ capacity) (op : Op K V P) :
    (specApply capacity l op).1.entries.length ≤ capacity := by
  cases op with
  | set key value => exact LruList.length_put_le atMost value
  | get key => exact LruList.length_touch.trans_le atMost
  | getCopy key outValue => exact LruList.length_touch.trans_le atMost
  | getMove key outValue => exact LruList.length_erase_le.trans atMost
  | getCopyPointee key pointee outValuePointee => exact LruList.length_touch.trans_le atMost
  | hasKey key => exact atMost
  | erase key => exact LruList.length_erase_le.trans atMost
  | clear => exact Nat.zero_le capacity

theorem specRun_length_le (atMost : l.entries.length ≤ capacity) (ops : List (Op K V P)) :
    (specRun capacity l ops).1.entries.length ≤ capacity := by
  induction ops generalizing l with
  | nil => exact atMost
  | cons op ops ih => exact ih (specApply_length_le atMost op)

end

/-! ## The call of `gc1` -/

section

variable [BEq K] [Hashable K]

/-- `set` of this key and value creates the node `inserted` and then calls
`gc1` on the cache `full`. -/
def CallsGc1 (c : LRUCache K V) (key : K) (value : V) (inserted : Addr) (full : LRUCache K V) :
    Prop :=
  c.find key = none ∧ (c.emplace key value).2 = inserted ∧
    (c.emplace key value).1.listInsertHead inserted = some full ∧
    full.capacity.toNat < full.mem.length

/-- What `gc1` does for `set`: the assertion holds, the tail goes and nothing
else does. -/
structure DropsTail (full : LRUCache K V) (tail : Addr) (after : LRUCache K V) : Prop where
  asserted : full.lruListTail = some tail
  returns : full.gc1 = some after
  entry : tail ∈ full.mem
  erased : after.mem = full.mem.erase tail
  freed : after.nodes tail = none

variable {c full : LRUCache K V} {cells l : List (Addr × (K × V))} {x : Addr × (K × V)} {key : K}
  {value : V} {inserted : Addr}

theorem CallsGc1.set_eq (calls : CallsGc1 c key value inserted full) :
    c.set key value = full.gc1 := by
  obtain ⟨missing, rfl, linked, tooMany⟩ := calls
  rw [LRUCache.set, missing]
  simp only [linked, Option.bind_eq_bind, Option.bind_some, if_pos tooMany]

variable [EquivBEq K] [LawfulHashable K]

theorem Represents.dropsTail (represents : Represents c (l ++ [x])) :
    ∃ after, DropsTail c x.1 after := by
  obtain ⟨c₁, isTail, returned, _, same⟩ := represents.gc1_eq
  refine ⟨c₁.eraseNode x.1, isTail, returned, ?_, ?_, ?_⟩
  · exact represents.members.mem_iff.mpr (by simp)
  · exact congrArg (fun mem => mem.erase x.1) same.mem
  · exact Function.update_self ..

/-- At the call of `gc1` the new node is at the head, so it is the tail only
where it is alone. -/
theorem Represents.gc1_called (represents : Represents c cells)
    (calls : CallsGc1 c key value inserted full) :
    ∃ tail after, DropsTail full tail after ∧ (1 ≤ c.capacity.toNat → tail ≠ inserted) := by
  obtain ⟨missing, made, linked, tooMany⟩ := calls
  obtain ⟨c₁, c₂, emplaced, inserted₂, represents₂, capacity₂⟩ :=
    represents.insertNew missing (represents.absent missing) value
  rw [emplaced] at made linked
  obtain rfl : c.nextNode = inserted := made
  obtain rfl : c₂ = full := Option.some.inj (inserted₂.symm.trans linked)
  obtain ⟨before, last, ends⟩ :=
    (List.eq_nil_or_concat' ((c.nextNode, (key, value)) :: cells)).resolve_left (by simp)
  obtain ⟨after, drops⟩ := (ends ▸ represents₂).dropsTail
  refine ⟨last.1, after, drops, fun positive same => ?_⟩
  have nodup := represents₂.nodup
  rw [represents₂.length_eq, capacity₂, ends, List.length_append] at tooMany
  rw [ends] at nodup
  cases before with
  | nil =>
      simp only [List.length_nil, List.length_singleton, Nat.zero_add] at tooMany
      omega
  | cons first rest =>
      obtain ⟨rfl, _⟩ := List.cons.inj ends
      rw [List.cons_append, List.map_cons, List.nodup_cons] at nodup
      exact nodup.1 (List.mem_map.mpr ⟨last, by simp, same⟩)

end

/-! ## Every reachable cache -/

/-- After every sequence of calls the pointers are well linked and the entries
fit, and a further `set` that calls `gc1` drops the tail, which is an old entry
unless the capacity is 0. -/
theorem pointers_wellLinked [BEq K] [Hashable K] [EquivBEq K] [LawfulHashable K]
    (capacity : BitVec 64) (fits : capacity.toNat < 2 ^ 32) (ops : List (Op K V P)) :
    ∃ c results, (LRUCache.new capacity : LRUCache K V).run ops = some (c, results) ∧
      (∃ visited, WellLinked c visited) ∧ c.mem.length ≤ capacity.toNat ∧
      ∀ key value inserted full, CallsGc1 c key value inserted full →
        ∃ tail after, DropsTail full tail after ∧ c.set key value = some after ∧
          (1 ≤ capacity.toNat → tail ≠ inserted) := by
  obtain ⟨c, ran, sized, cells, represents, entries⟩ := lru_refines capacity fits ops
  refine ⟨c, _, ran, ⟨_, represents.wellLinked⟩, ?_, fun key value inserted full calls => ?_⟩
  · rw [represents.length_eq, ← List.length_map, entries]
    exact specRun_length_le (Nat.zero_le _) ops
  · obtain ⟨tail, after, drops, other⟩ := represents.gc1_called calls
    rw [sized] at other
    exact ⟨tail, after, drops, calls.set_eq.trans drops.returns, other⟩

/-- Two entries and a lookup in a cache for two; a third `set` drops one of them. -/
theorem pointers_wellLinked_two :
    ∃ c results, (LRUCache.new 2#64 : LRUCache Nat Nat).run
        ([.set 1 10, .set 2 20, .get 1] : List (Op Nat Nat Nat)) = some (c, results) ∧
      (∃ visited, WellLinked c visited) ∧ c.mem.length ≤ 2 ∧
      ∀ key value inserted full, CallsGc1 c key value inserted full →
        ∃ tail after, DropsTail full tail after ∧ c.set key value = some after ∧
          (1 ≤ 2 → tail ≠ inserted) :=
  pointers_wellLinked 2#64 (by decide) [.set 1 10, .set 2 20, .get 1]

end Conc11.LruCache
