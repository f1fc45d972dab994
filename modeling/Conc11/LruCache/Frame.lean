/-
Module: Conc11.LruCache.Frame
Purpose: Which nodes a call of `LRUCache` writes to: those of its own unordered map and new ones, as long as its
  pointers lead to its own nodes.
Trusted boundary: none
Main exports: Effect, apply_effect, InPlace, Frame, Represents.apply_frame
-/
import Conc11.LruCache.Pointers

namespace Conc11.LruCache

open Library

variable {K V P : Type}

/-! ## What the calls do -/

section

variable [BEq K] [Hashable K]

/-- The ways in which a call changes a cache. -/
inductive Effect (c : LRUCache K V) : LRUCache K V → Prop where
  | unchanged : Effect c c
  | moveToHead {key : K} {e : Addr} {c' : LRUCache K V} (found : c.find key = some e)
      (moved : c.listMoveToHead e = some c') : Effect c c'
  | assign {key : K} {e : Addr} {value : V} {c₁ c' : LRUCache K V} (found : c.find key = some e)
      (assigned : c.setValue e value = some c₁) (moved : c₁.listMoveToHead e = some c') : Effect c c'
  | remove {key : K} {e : Addr} {c₁ : LRUCache K V} (found : c.find key = some e)
      (released : c.listRelease e = some c₁) : Effect c (c₁.eraseNode e)
  | insert {key : K} {value : V} {c₁ c' : LRUCache K V} {e : Addr} (missing : c.find key = none)
      (emplaced : c.emplace key value = (c₁, e)) (inserted : c₁.listInsertHead e = some c') :
      Effect c c'
  | evict {key : K} {value : V} {c₁ full c' : LRUCache K V} {e : Addr} (missing : c.find key = none)
      (emplaced : c.emplace key value = (c₁, e)) (inserted : c₁.listInsertHead e = some full)
      (dropped : full.gc1 = some c') : Effect c c'
  | clear : Effect c c.clear

variable {c c' : LRUCache K V} {key : K}

theorem set_effect {value : V} (stored : c.set key value = some c') : Effect c c' := by
  unfold LRUCache.set at stored
  split at stored
  next missing =>
    obtain ⟨full, inserted, rest⟩ := Option.bind_eq_some_iff.mp stored
    split at rest
    · exact .evict missing rfl inserted rest
    · cases rest
      exact .insert missing rfl inserted
  next e found =>
    obtain ⟨c₁, assigned, moved⟩ := Option.bind_eq_some_iff.mp stored
    exact .assign found assigned moved

theorem get_effect {pointer : Option Addr} (got : c.get key = some (c', pointer)) :
    Effect c c' := by
  unfold LRUCache.get at got
  split at got
  next missing =>
    cases got
    exact .unchanged
  next e found =>
    obtain ⟨c₁, moved, rest⟩ := Option.bind_eq_some_iff.mp got
    cases rest
    exact .moveToHead found moved

theorem getCopy_effect {outValue out : V} {hit : Bool}
    (got : c.getCopy key outValue = some (c', hit, out)) : Effect c c' := by
  unfold LRUCache.getCopy at got
  split at got
  next missing =>
    cases got
    exact .unchanged
  next e found =>
    obtain ⟨c₁, moved, rest⟩ := Option.bind_eq_some_iff.mp got
    obtain ⟨node, _, last⟩ := Option.bind_eq_some_iff.mp rest
    cases last
    exact .moveToHead found moved

theorem getCopyPointee_effect {pointee : V → P} {outValuePointee out : P} {hit : Bool}
    (got : c.getCopyPointee pointee key outValuePointee = some (c', hit, out)) : Effect c c' := by
  unfold LRUCache.getCopyPointee at got
  split at got
  next missing =>
    cases got
    exact .unchanged
  next e found =>
    obtain ⟨c₁, moved, rest⟩ := Option.bind_eq_some_iff.mp got
    obtain ⟨node, _, last⟩ := Option.bind_eq_some_iff.mp rest
    cases last
    exact .moveToHead found moved

theorem getMove_effect {outValue out : V} {hit : Bool}
    (got : c.getMove key outValue = some (c', hit, out)) : Effect c c' := by
  unfold LRUCache.getMove at got
  split at got
  next missing =>
    cases got
    exact .unchanged
  next e found =>
    obtain ⟨node, _, rest⟩ := Option.bind_eq_some_iff.mp got
    obtain ⟨c₁, released, last⟩ := Option.bind_eq_some_iff.mp rest
    cases last
    exact .remove found released

theorem erase_effect {hit : Bool} (erased : c.erase key = some (c', hit)) : Effect c c' := by
  unfold LRUCache.erase at erased
  split at erased
  next missing =>
    cases erased
    exact .unchanged
  next e found =>
    obtain ⟨c₁, released, last⟩ := Option.bind_eq_some_iff.mp erased
    cases last
    exact .remove found released

/-- The inversion of `apply`, without the results. -/
theorem apply_effect {op : Op K V P} {result : Result V P}
    (applied : c.apply op = some (c', result)) : Effect c c' := by
  cases op with
  | set key value =>
      obtain ⟨c₁, stored, last⟩ := Option.bind_eq_some_iff.mp applied
      cases last
      exact set_effect stored
  | get key =>
      obtain ⟨⟨c₁, pointer⟩, got, rest⟩ := Option.bind_eq_some_iff.mp applied
      cases pointer with
      | none =>
          cases rest
          exact get_effect got
      | some e =>
          obtain ⟨node, _, last⟩ := Option.bind_eq_some_iff.mp rest
          cases last
          exact get_effect got
  | getCopy key outValue =>
      obtain ⟨⟨c₁, hit, out⟩, got, last⟩ := Option.bind_eq_some_iff.mp applied
      cases last
      exact getCopy_effect got
  | getMove key outValue =>
      obtain ⟨⟨c₁, hit, out⟩, got, last⟩ := Option.bind_eq_some_iff.mp applied
      cases last
      exact getMove_effect got
  | getCopyPointee key pointee outValuePointee =>
      obtain ⟨⟨c₁, hit, out⟩, got, last⟩ := Option.bind_eq_some_iff.mp applied
      cases last
      exact getCopyPointee_effect got
  | hasKey key =>
      cases applied
      exact .unchanged
  | erase key =>
      obtain ⟨⟨c₁, hit⟩, erased, last⟩ := Option.bind_eq_some_iff.mp applied
      cases last
      exact erase_effect erased
  | clear =>
      cases applied
      exact .clear

end

/-! ## Writes to the own nodes -/

/-- `c'` has the nodes of `c` in its unordered map, and no other node differs. -/
structure InPlace (c c' : LRUCache K V) : Prop where
  mem : c'.mem = c.mem
  nextNode : c'.nextNode = c.nextNode
  nodes : ∀ a, a ∉ c.mem → c'.nodes a = c.nodes a

section InPlace

variable {c c' c'' : LRUCache K V} {a e : Addr}

theorem InPlace.trans (first : InPlace c c') (second : InPlace c' c'') : InPlace c c'' := by
  refine ⟨second.mem.trans first.mem, second.nextNode.trans first.nextNode, fun a foreign => ?_⟩
  have stillForeign : a ∉ c'.mem := by rwa [first.mem]
  exact (second.nodes a stillForeign).trans (first.nodes a foreign)

theorem write_eq {change : Entry V → Entry V} (written : c.write a change = some c') :
    ∃ node, c.nodes a = some node ∧ c' = { c with
      nodes := Function.update c.nodes a (some { node with second := change node.second }) } := by
  unfold LRUCache.write at written
  split at written
  next node allocated =>
    cases written
    exact ⟨node, allocated, rfl⟩
  next => cases written

theorem write_inPlace {change : Entry V → Entry V} (isEntry : a ∈ c.mem)
    (written : c.write a change = some c') : InPlace c c' := by
  obtain ⟨node, _, rfl⟩ := write_eq written
  refine ⟨rfl, rfl, fun b foreign => ?_⟩
  have other : b ≠ a := fun same => foreign (same ▸ isEntry)
  exact Function.update_of_ne other ..

theorem releaseParent_inPlace (parents : ∀ p, c.parentOf e = some p → p ∈ c.mem)
    (released : c.releaseParent e = some c') : InPlace c c' ∧ c'.childOf e = c.childOf e := by
  obtain ⟨node, allocated, rest⟩ := Option.bind_eq_some_iff.mp released
  have parent : c.parentOf e = node.second.parent := by rw [LRUCache.parentOf, allocated]; rfl
  cases isParent : node.second.parent with
  | none =>
      rw [isParent] at rest
      cases rest
      exact ⟨⟨rfl, rfl, fun _ _ => rfl⟩, rfl⟩
  | some p =>
      rw [isParent] at rest
      have written : c.setChild p node.second.child = some c' := rest
      refine ⟨write_inPlace (parents p (parent.trans isParent)) written, ?_⟩
      obtain ⟨other, found, rfl⟩ := write_eq written
      unfold LRUCache.childOf
      dsimp only
      -- a node that were its own parent would get the child that it has
      by_cases same : e = p
      · subst same
        rw [Function.update_self, allocated]
        rfl
      · rw [Function.update_of_ne same]

theorem releaseChild_inPlace (children : ∀ n, c.childOf e = some n → n ∈ c.mem)
    (released : c.releaseChild e = some c') : InPlace c c' := by
  obtain ⟨node, allocated, rest⟩ := Option.bind_eq_some_iff.mp released
  have child : c.childOf e = node.second.child := by rw [LRUCache.childOf, allocated]; rfl
  cases isChild : node.second.child with
  | none =>
      rw [isChild] at rest
      cases rest
      exact ⟨rfl, rfl, fun _ _ => rfl⟩
  | some n =>
      rw [isChild] at rest
      exact write_inPlace (children n (child.trans isChild)) rest

theorem listRelease_inPlace (parents : ∀ p, c.parentOf e = some p → p ∈ c.mem)
    (children : ∀ n, c.childOf e = some n → n ∈ c.mem) (released : c.listRelease e = some c') :
    InPlace c c' := by
  obtain ⟨c₁, first, second⟩ := Option.bind_eq_some_iff.mp released
  obtain ⟨half, kept⟩ := releaseParent_inPlace parents first
  refine half.trans (releaseChild_inPlace (fun n isChild => ?_) second)
  rw [half.mem]
  exact children n (kept ▸ isChild)

theorem listInsertHead_inPlace (isEntry : e ∈ c.mem)
    (heads : ∀ h, c.lruListHead = some h → h ∈ c.mem) (inserted : c.listInsertHead e = some c') :
    InPlace c c' := by
  unfold LRUCache.listInsertHead at inserted
  split at inserted
  next =>
    obtain ⟨c₁, first, second⟩ := Option.bind_eq_some_iff.mp inserted
    have step₁ := write_inPlace (c := { c with lruListHead := some e, lruListTail := some e })
      isEntry first
    have step₂ := write_inPlace (by rw [step₁.mem]; exact isEntry) second
    have both := step₁.trans step₂
    exact ⟨both.mem, both.nextNode, both.nodes⟩
  next head isHead =>
    obtain ⟨c₁, first, rest⟩ := Option.bind_eq_some_iff.mp inserted
    obtain ⟨c₂, second, rest⟩ := Option.bind_eq_some_iff.mp rest
    obtain ⟨c₃, third, last⟩ := Option.bind_eq_some_iff.mp rest
    cases last
    have step₁ := write_inPlace isEntry first
    have step₂ := step₁.trans (write_inPlace (by rw [step₁.mem]; exact isEntry) second)
    have step₃ := step₂.trans (write_inPlace (by rw [step₂.mem]; exact heads head isHead) third)
    exact ⟨step₃.mem, step₃.nextNode, step₃.nodes⟩

end InPlace

/-! ## The frame of a call -/

/-- A node that is not of the cache `c` stays as it is, and `c'` does not take it. -/
structure Frame (c c' : LRUCache K V) : Prop where
  nodes : ∀ a, a ∉ c.mem → a < c.nextNode → c'.nodes a = c.nodes a
  mem : ∀ a ∈ c'.mem, a ∈ c.mem ∨ c.nextNode ≤ a
  nextNode : c.nextNode ≤ c'.nextNode

namespace Frame

variable {c c' c'' : LRUCache K V} {a : Addr}

theorem refl : Frame c c := ⟨fun _ _ _ => rfl, fun _ => .inl, Nat.le_refl _⟩

theorem trans (first : Frame c c') (second : Frame c' c'') : Frame c c'' := by
  refine ⟨fun a foreign old => ?_, fun a member => ?_, Nat.le_trans first.nextNode second.nextNode⟩
  · have stillForeign : a ∉ c'.mem := fun member =>
      (first.mem a member).elim foreign (Nat.not_le_of_lt old)
    have stillOld := Nat.lt_of_lt_of_le old first.nextNode
    exact (second.nodes a stillForeign stillOld).trans (first.nodes a foreign old)
  · rcases second.mem a member with before | new
    · exact first.mem a before
    · exact .inr (Nat.le_trans first.nextNode new)

theorem of_inPlace (inPlace : InPlace c c') : Frame c c' := by
  refine ⟨fun a foreign _ => inPlace.nodes a foreign, fun a member => .inl ?_,
    Nat.le_of_eq inPlace.nextNode.symm⟩
  rwa [← inPlace.mem]

theorem eraseNode (isEntry : a ∈ c.mem) : Frame c (c.eraseNode a) := by
  refine ⟨fun b foreign _ => ?_, fun b member => .inl (List.mem_of_mem_erase member),
    Nat.le_refl _⟩
  have other : b ≠ a := fun same => foreign (same ▸ isEntry)
  exact Function.update_of_ne other ..

theorem clear : Frame c c.clear :=
  ⟨fun _ foreign _ => if_neg foreign, fun _ member => (List.not_mem_nil member).elim, Nat.le_refl _⟩

section

variable [BEq K] [Hashable K] {key : K}

theorem eraseKey : Frame c (c.eraseKey key) := by
  unfold LRUCache.eraseKey
  split
  next a found => exact eraseNode (List.mem_of_find?_eq_some found)
  next => exact refl

theorem emplace (value : V) : Frame c (c.emplace key value).1 := by
  unfold LRUCache.emplace
  split
  next => exact refl
  next =>
    refine ⟨fun a _ old => Function.update_of_ne (Nat.ne_of_lt old) .., fun a member => ?_,
      Nat.le_succ _⟩
    rcases List.mem_cons.mp member with rfl | before
    · exact .inr (Nat.le_refl _)
    · exact .inl before

end

end Frame

/-! ## The calls on a well-linked cache -/

section Calls

variable [BEq K] [PartialEquivBEq K] {c c' : LRUCache K V} {cells l r : List (Addr × (K × V))}
  {x : Addr × (K × V)}

omit [PartialEquivBEq K] in
theorem Represents.isEntry (represents : Represents c cells) {a : Addr}
    (linked : a ∈ cells.map Prod.fst) : a ∈ c.mem :=
  represents.members.mem_iff.mpr linked

omit [PartialEquivBEq K] in
theorem Represents.listRelease_inPlace (represents : Represents c (l ++ x :: r))
    (released : c.listRelease x.1 = some c') : InPlace c c' := by
  have list := represents.list
  rw [List.map_append, List.map_cons] at list
  refine LruCache.listRelease_inPlace (fun p isParent => represents.isEntry ?_)
    (fun n isChild => represents.isEntry ?_) released
  · rw [list.prev_eq] at isParent
    rw [List.map_append]
    exact List.mem_append_left _ (List.mem_of_getLast? isParent)
  · rw [list.next_eq] at isChild
    rw [List.map_append, List.map_cons]
    exact List.mem_append_right _ (List.mem_cons_of_mem _ (List.mem_of_head? isChild))

omit [PartialEquivBEq K] in
theorem Represents.listMoveToHead_inPlace (represents : Represents c (l ++ x :: r))
    (moved : c.listMoveToHead x.1 = some c') : InPlace c c' := by
  obtain ⟨c₁, first, second⟩ := Option.bind_eq_some_iff.mp moved
  have half := represents.listRelease_inPlace first
  obtain ⟨_, released, linked, _⟩ := represents.toLinked.release
  cases first.symm.trans released
  refine half.trans (listInsertHead_inPlace ?_ (fun h isHead => ?_) second)
  · rw [half.mem]
    exact represents.isEntry (by simp)
  · rw [half.mem]
    rw [linked.list.head_eq] at isHead
    have remains := List.mem_of_head? isHead
    have shorter : (l ++ r).Sublist (l ++ x :: r) := (List.sublist_cons_self x r).append_left l
    exact represents.isEntry ((shorter.map Prod.fst).subset remains)

variable [Hashable K]

omit [PartialEquivBEq K] in
theorem Represents.gc1_frame (represents : Represents c cells) (dropped : c.gc1 = some c') :
    Frame c c' := by
  obtain ⟨e, isTail, rest⟩ := Option.bind_eq_some_iff.mp dropped
  obtain ⟨c₁, released, rest⟩ := Option.bind_eq_some_iff.mp rest
  obtain ⟨node, _, last⟩ := Option.bind_eq_some_iff.mp rest
  cases last
  have tail := represents.list.tail_eq
  rw [isTail] at tail
  obtain ⟨x, isCell, rfl⟩ := List.mem_map.mp (List.mem_of_getLast? tail.symm)
  obtain ⟨l, r, rfl⟩ := List.append_of_mem isCell
  exact (Frame.of_inPlace (represents.listRelease_inPlace released)).trans .eraseKey

variable [LawfulHashable K]

/-- What `set` does with a new key before `gc1`. -/
theorem Represents.insert_frame (represents : Represents c cells) {key : K} {value : V} {e : Addr}
    {c₁ full : LRUCache K V} (missing : c.find key = none) (emplaced : c.emplace key value = (c₁, e))
    (inserted : c₁.listInsertHead e = some full) :
    Frame c full ∧ ∃ cells', Represents full cells' := by
  obtain ⟨_, _, sameCache, sameList, represents₂, _⟩ :=
    represents.insertNew missing (represents.absent missing) value
  cases emplaced.symm.trans sameCache
  cases inserted.symm.trans sameList
  obtain ⟨_, made, linked, _, _, mem, _⟩ := represents.emplace missing value
  cases made.symm.trans emplaced
  have grown : Frame c (c.emplace key value).1 := .emplace value
  rw [emplaced] at grown
  refine ⟨grown.trans (.of_inPlace (listInsertHead_inPlace ?_ (fun h isHead => ?_) inserted)),
    _, represents₂⟩
  · rw [mem]
    exact List.mem_cons_self
  · rw [mem]
    rw [linked.list.head_eq] at isHead
    exact List.mem_cons_of_mem _ (represents.isEntry (List.mem_of_head? isHead))

/-- A call writes only to nodes of the cache and to new ones. -/
theorem Represents.effect_frame (represents : Represents c cells) (effect : Effect c c') :
    Frame c c' := by
  cases effect with
  | unchanged => exact .refl
  | moveToHead found moved =>
      obtain ⟨l, x, r, rfl, _, rfl⟩ := represents.exists_split found
      exact .of_inPlace (represents.listMoveToHead_inPlace moved)
  | assign found assigned moved =>
      obtain ⟨l, x, r, rfl, _, rfl⟩ := represents.exists_split found
      obtain ⟨_, same, represents₁, _⟩ := represents.setValue _
      cases assigned.symm.trans same
      have written := write_inPlace (represents.isEntry (by simp)) assigned
      exact .of_inPlace (written.trans (represents₁.listMoveToHead_inPlace moved))
  | remove found released =>
      obtain ⟨l, x, r, rfl, _, rfl⟩ := represents.exists_split found
      have inPlace := represents.listRelease_inPlace released
      refine (Frame.of_inPlace inPlace).trans (.eraseNode ?_)
      rw [inPlace.mem]
      exact List.mem_of_find?_eq_some found
  | insert missing emplaced inserted => exact (represents.insert_frame missing emplaced inserted).1
  | evict missing emplaced inserted dropped =>
      obtain ⟨grown, _, represents₂⟩ := represents.insert_frame missing emplaced inserted
      exact grown.trans (represents₂.gc1_frame dropped)
  | clear => exact .clear

theorem Represents.apply_frame (represents : Represents c cells) {op : Op K V P}
    {result : Result V P} (applied : c.apply op = some (c', result)) : Frame c c' :=
  represents.effect_frame (apply_effect applied)

end Calls

end Conc11.LruCache
