/-
Module: Conc11.LruCache.Links
Purpose: The LRU list behind the pointers of the entries: what releasing a node, inserting it at the head
  and moving it there do to the list, and that none of them touches keys, values or the unordered map.
Trusted boundary: none
Main exports: Relinked, Linked, Linked.release, Linked.insertHead, Linked.moveToHead
-/
import Conc11.Library.Links
import Conc11.LruCache.Model

namespace Conc11.LruCache

open Library

variable {K V : Type}

namespace LRUCache

/-! ## The fields as functions of the address -/

def parentOf (c : LRUCache K V) (a : Addr) : Option Addr :=
  (c.nodes a).bind fun node => node.second.parent

def childOf (c : LRUCache K V) (a : Addr) : Option Addr :=
  (c.nodes a).bind fun node => node.second.child

/-- Key and value of a node; nothing for a freed one. -/
def pairAt (c : LRUCache K V) (a : Addr) : Option (K × V) :=
  (c.nodes a).map fun node => (node.first, node.second.value)

end LRUCache

variable {c c' c'' : LRUCache K V} {a e : Addr} {head tail : Option Addr}
  {parents children : Addr → Option Addr} {pair : K × V}

/-- A field after a write to one node. -/
private theorem field_update {β : Type} (field : Option (PairType K V) → β)
    (node : Option (PairType K V)) :
    (fun b => field (Function.update c.nodes a node b)) =
      Function.update (fun b => field (c.nodes b)) a (field node) := by
  funext b
  by_cases same : b = a
  · subst same
    simp
  · simp [Function.update_of_ne same]

theorem exists_node (stored : c.pairAt a = some pair) :
    ∃ node, c.nodes a = some node ∧ node.first = pair.1 ∧ node.second.value = pair.2 := by
  obtain ⟨node, allocated, rfl⟩ := Option.map_eq_some_iff.mp stored
  exact ⟨node, allocated, rfl, rfl⟩

/-- `c'` has the keys, the values and the unordered map of `c`. -/
structure SameData (c c' : LRUCache K V) : Prop where
  pairs : c'.pairAt = c.pairAt
  nextNode : c'.nextNode = c.nextNode
  mem : c'.mem = c.mem
  capacity : c'.capacity = c.capacity

namespace SameData

theorem refl : SameData c c := ⟨rfl, rfl, rfl, rfl⟩

theorem trans (first : SameData c c') (second : SameData c' c'') : SameData c c'' :=
  ⟨second.pairs.trans first.pairs, second.nextNode.trans first.nextNode,
    second.mem.trans first.mem, second.capacity.trans first.capacity⟩

end SameData

/-- `c'` is `c` with other links. -/
structure Relinked (c c' : LRUCache K V) (parents children : Addr → Option Addr)
    (head tail : Option Addr) : Prop extends SameData c c' where
  parentOf : c'.parentOf = parents
  childOf : c'.childOf = children
  lruListHead : c'.lruListHead = head
  lruListTail : c'.lruListTail = tail

/-- A write to `a->second` changes the fields of this node only. -/
theorem write_spec {node : PairType K V} (allocated : c.nodes a = some node)
    (change : Entry V → Entry V) :
    ∃ c', c.write a change = some c' ∧
      c'.pairAt = Function.update c.pairAt a (some (node.first, (change node.second).value)) ∧
      c'.parentOf = Function.update c.parentOf a (change node.second).parent ∧
      c'.childOf = Function.update c.childOf a (change node.second).child ∧
      c'.lruListHead = c.lruListHead ∧ c'.lruListTail = c.lruListTail ∧
      c'.nextNode = c.nextNode ∧ c'.mem = c.mem ∧ c'.capacity = c.capacity := by
  refine ⟨{ c with
      nodes := Function.update c.nodes a (some { node with second := change node.second }) },
    ?_, ?_, ?_, ?_, rfl, rfl, rfl, rfl, rfl⟩
  · simp only [LRUCache.write, allocated]
  · exact field_update (fun node => node.map fun node => (node.first, node.second.value)) _
  · exact field_update (fun node => node.bind fun node => node.second.parent) _
  · exact field_update (fun node => node.bind fun node => node.second.child) _

/-- Writing back what is there. -/
private theorem update_same {β : Type} {field : Addr → β} {value : β} (same : field a = value) :
    Function.update field a value = field := by
  rw [← same, Function.update_eq_self]

theorem setParent_spec (link : Option Addr) (stored : c.pairAt a = some pair) :
    ∃ c', c.setParent a link = some c' ∧ Relinked c c' (Function.update c.parentOf a link)
      c.childOf c.lruListHead c.lruListTail := by
  obtain ⟨node, allocated, _⟩ := exists_node stored
  obtain ⟨c', written, pairs, parents, children, head, tail, next, mem, capacity⟩ :=
    write_spec allocated fun entry => { entry with parent := link }
  refine ⟨c', written, ⟨pairs.trans (update_same ?_), next, mem, capacity⟩, parents,
    children.trans (update_same ?_), head, tail⟩
  · simp only [LRUCache.pairAt, allocated, Option.map_some]
  · simp only [LRUCache.childOf, allocated, Option.bind_some]

theorem setChild_spec (link : Option Addr) (stored : c.pairAt a = some pair) :
    ∃ c', c.setChild a link = some c' ∧ Relinked c c' c.parentOf
      (Function.update c.childOf a link) c.lruListHead c.lruListTail := by
  obtain ⟨node, allocated, _⟩ := exists_node stored
  obtain ⟨c', written, pairs, parents, children, head, tail, next, mem, capacity⟩ :=
    write_spec allocated fun entry => { entry with child := link }
  refine ⟨c', written, ⟨pairs.trans (update_same ?_), next, mem, capacity⟩,
    parents.trans (update_same ?_), children, head, tail⟩
  · simp only [LRUCache.pairAt, allocated, Option.map_some]
  · simp only [LRUCache.parentOf, allocated, Option.bind_some]

/-- Assigning a value changes no link. -/
theorem setValue_spec (value : V) (stored : c.pairAt a = some pair) :
    ∃ c', c.setValue a value = some c' ∧
      c'.pairAt = Function.update c.pairAt a (some (pair.1, value)) ∧
      c'.parentOf = c.parentOf ∧ c'.childOf = c.childOf ∧
      c'.lruListHead = c.lruListHead ∧ c'.lruListTail = c.lruListTail ∧
      c'.nextNode = c.nextNode ∧ c'.mem = c.mem ∧ c'.capacity = c.capacity := by
  obtain ⟨node, allocated, first, _⟩ := exists_node stored
  obtain ⟨c', written, pairs, parents, children, frame⟩ :=
    write_spec allocated fun entry => { entry with value := value }
  refine ⟨c', written, ?_, parents.trans (update_same ?_), children.trans (update_same ?_), frame⟩
  · rw [pairs, first]
  · simp only [LRUCache.parentOf, allocated, Option.bind_some]
  · simp only [LRUCache.childOf, allocated, Option.bind_some]

/-! ## The list operations on the links -/

theorem releaseParent_spec (stored : c.pairAt e = some pair)
    (parentStored : ∀ p, c.parentOf e = some p → ∃ other, c.pairAt p = some other) :
    ∃ c', c.releaseParent e = some c' ∧
      Relinked c c' c.parentOf (redirect c.childOf (c.parentOf e) (c.childOf e))
        (if c.parentOf e = none then c.childOf e else c.lruListHead) c.lruListTail := by
  obtain ⟨node, allocated, _⟩ := exists_node stored
  have parent : c.parentOf e = node.second.parent := by rw [LRUCache.parentOf, allocated]; rfl
  have child : c.childOf e = node.second.child := by rw [LRUCache.childOf, allocated]; rfl
  cases isParent : c.parentOf e with
  | none =>
      refine ⟨{ c with lruListHead := c.childOf e }, ?_, ⟨rfl, rfl, rfl, rfl⟩, rfl, rfl, rfl, rfl⟩
      simp only [LRUCache.releaseParent, allocated, parent.symm.trans isParent, child,
        Option.bind_eq_bind, Option.bind_some, Option.pure_def]
  | some p =>
      have unfolded : c.releaseParent e = c.setChild p (c.childOf e) := by
        simp only [LRUCache.releaseParent, allocated, parent.symm.trans isParent, child,
          Option.bind_eq_bind, Option.bind_some]
      obtain ⟨other, otherStored⟩ := parentStored p isParent
      rw [unfolded]
      exact setChild_spec _ otherStored

theorem releaseChild_spec (stored : c.pairAt e = some pair)
    (childStored : ∀ n, c.childOf e = some n → ∃ other, c.pairAt n = some other) :
    ∃ c', c.releaseChild e = some c' ∧
      Relinked c c' (redirect c.parentOf (c.childOf e) (c.parentOf e)) c.childOf c.lruListHead
        (if c.childOf e = none then c.parentOf e else c.lruListTail) := by
  obtain ⟨node, allocated, _⟩ := exists_node stored
  have parent : c.parentOf e = node.second.parent := by rw [LRUCache.parentOf, allocated]; rfl
  have child : c.childOf e = node.second.child := by rw [LRUCache.childOf, allocated]; rfl
  cases isChild : c.childOf e with
  | none =>
      refine ⟨{ c with lruListTail := c.parentOf e }, ?_, ⟨rfl, rfl, rfl, rfl⟩, rfl, rfl, rfl, rfl⟩
      simp only [LRUCache.releaseChild, allocated, child.symm.trans isChild, parent,
        Option.bind_eq_bind, Option.bind_some, Option.pure_def]
  | some n =>
      have unfolded : c.releaseChild e = c.setParent n (c.parentOf e) := by
        simp only [LRUCache.releaseChild, allocated, child.symm.trans isChild, parent,
          Option.bind_eq_bind, Option.bind_some]
      obtain ⟨other, otherStored⟩ := childStored n isChild
      rw [unfolded]
      exact setParent_spec _ otherStored

/-- `list_release` makes the neighbours of `e`, or the ends, skip `e`. -/
theorem listRelease_spec (stored : c.pairAt e = some pair) (notSelf : c.parentOf e ≠ some e)
    (parentStored : ∀ p, c.parentOf e = some p → ∃ other, c.pairAt p = some other)
    (childStored : ∀ n, c.childOf e = some n → ∃ other, c.pairAt n = some other) :
    ∃ c', c.listRelease e = some c' ∧
      Relinked c c' (redirect c.parentOf (c.childOf e) (c.parentOf e))
        (redirect c.childOf (c.parentOf e) (c.childOf e))
        (if c.parentOf e = none then c.childOf e else c.lruListHead)
        (if c.childOf e = none then c.parentOf e else c.lruListTail) := by
  obtain ⟨c₁, first, half⟩ := releaseParent_spec stored parentStored
  have childKept : c₁.childOf e = c.childOf e := by
    rw [half.childOf]
    exact redirect_of_ne notSelf
  have stored₁ : c₁.pairAt e = some pair := by rw [half.pairs]; exact stored
  obtain ⟨c₂, second, whole⟩ := releaseChild_spec stored₁ fun n isChild => by
    rw [half.pairs]
    exact childStored n (childKept ▸ isChild)
  refine ⟨c₂, ?_, half.toSameData.trans whole.toSameData, ?_, ?_, ?_, ?_⟩
  · rw [LRUCache.listRelease, first]
    exact second
  · rw [whole.parentOf, childKept, half.parentOf]
  · rw [whole.childOf, half.childOf]
  · rw [whole.lruListHead, half.lruListHead]
  · rw [whole.lruListTail, childKept, half.parentOf, half.lruListTail]

/-- `list_insert_head` links `e` before the old head. -/
theorem listInsertHead_spec (stored : c.pairAt e = some pair)
    (headStored : ∀ h, c.lruListHead = some h → ∃ other, c.pairAt h = some other) :
    ∃ c', c.listInsertHead e = some c' ∧
      Relinked c c' (redirect (Function.update c.parentOf e none) c.lruListHead (some e))
        (Function.update c.childOf e c.lruListHead) (some e)
        (if c.lruListHead = none then some e else c.lruListTail) := by
  cases isHead : c.lruListHead with
  | none =>
      obtain ⟨c₁, first, half⟩ := setParent_spec none
        (c := { c with lruListHead := some e, lruListTail := some e }) stored
      obtain ⟨c₂, second, whole⟩ := setChild_spec none (by rw [half.pairs]; exact stored)
      have same := half.toSameData.trans whole.toSameData
      refine ⟨c₂, ?_, ⟨same.pairs, same.nextNode, same.mem, same.capacity⟩, ?_, ?_, ?_, ?_⟩
      · rw [LRUCache.listInsertHead, isHead]
        dsimp only
        rw [first]
        exact second
      · rw [whole.parentOf, half.parentOf]
        rfl
      · rw [whole.childOf, half.childOf]
        rfl
      · rw [whole.lruListHead, half.lruListHead]
      · rw [whole.lruListTail, half.lruListTail, if_pos rfl]
  | some h =>
      obtain ⟨other, otherStored⟩ := headStored h isHead
      obtain ⟨c₁, first, step₁⟩ := setParent_spec none stored
      obtain ⟨c₂, second, step₂⟩ := setChild_spec (some h) (by rw [step₁.pairs]; exact stored)
      have same := step₁.toSameData.trans step₂.toSameData
      obtain ⟨c₃, third, step₃⟩ := setParent_spec (some e)
        (by rw [same.pairs]; exact otherStored)
      have all := same.trans step₃.toSameData
      refine ⟨{ c₃ with lruListHead := some e }, ?_, ⟨all.pairs, all.nextNode, all.mem, all.capacity⟩,
        ?_, ?_, rfl, ?_⟩
      · rw [LRUCache.listInsertHead, isHead]
        dsimp only
        simp only [first, second, third, Option.bind_eq_bind, Option.bind_some, Option.pure_def]
      · apply step₃.parentOf.trans
        rw [step₂.parentOf, step₁.parentOf]
        rfl
      · apply step₃.childOf.trans
        rw [step₂.childOf, step₁.childOf]
      · apply step₃.lruListTail.trans
        rw [step₂.lruListTail, step₁.lruListTail, if_neg (Option.some_ne_none h)]

/-! ## The list -/

/-- The pointers link exactly the nodes of `cells`, from head to tail, and the
nodes hold the keys and values given with them. -/
structure Linked (c : LRUCache K V) (cells : List (Addr × (K × V))) : Prop where
  list : DList c.parentOf c.childOf c.lruListHead c.lruListTail (cells.map Prod.fst)
  stored : ∀ cell ∈ cells, c.pairAt cell.1 = some cell.2

namespace Linked

variable {cells l r : List (Addr × (K × V))} {x : Addr × (K × V)}

theorem stored_of_mem (linked : Linked c cells) (member : a ∈ cells.map Prod.fst) :
    ∃ pair, c.pairAt a = some pair := by
  obtain ⟨cell, inCells, rfl⟩ := List.mem_map.mp member
  exact ⟨_, linked.stored cell inCells⟩

/-- A released node is out of the list. -/
theorem release (linked : Linked c (l ++ x :: r)) :
    ∃ c', c.listRelease x.1 = some c' ∧ Linked c' (l ++ r) ∧ SameData c c' := by
  have list := linked.list
  rw [List.map_append, List.map_cons] at list
  have parent := list.prev_eq
  have child := list.next_eq
  have inList : ∀ b, b ∈ l.map Prod.fst ∨ b ∈ r.map Prod.fst → b ∈ (l ++ x :: r).map Prod.fst := by
    intro b
    rw [List.map_append, List.map_cons, List.mem_append, List.mem_cons]
    exact Or.imp_right .inr
  have notSelf : c.parentOf x.1 ≠ some x.1 := by
    rw [parent]
    intro self
    have nodup := (List.perm_middle.nodup_iff).mp list.nodup
    exact (List.nodup_cons.mp nodup).1 (List.mem_append_left _ (List.mem_of_getLast? self))
  have parentStored : ∀ p, c.parentOf x.1 = some p → ∃ other, c.pairAt p = some other := by
    rw [parent]
    exact fun p isParent =>
      linked.stored_of_mem (inList p (.inl (List.mem_of_getLast? isParent)))
  have childStored : ∀ n, c.childOf x.1 = some n → ∃ other, c.pairAt n = some other := by
    rw [child]
    exact fun n isChild => linked.stored_of_mem (inList n (.inr (List.mem_of_head? isChild)))
  obtain ⟨c', released, relinked⟩ :=
    listRelease_spec (linked.stored x (by simp)) notSelf parentStored childStored
  refine ⟨c', released, ⟨?_, fun cell member => ?_⟩, relinked.toSameData⟩
  · rw [relinked.parentOf, relinked.childOf, relinked.lruListHead, relinked.lruListTail,
      List.map_append]
    exact list.unlink
  · rw [relinked.pairs]
    exact linked.stored cell (((List.sublist_cons_self x r).append_left l).subset member)

/-- A node that is not in the list comes to its head. -/
theorem insertHead (linked : Linked c cells) (stored : c.pairAt x.1 = some x.2)
    (fresh : x.1 ∉ cells.map Prod.fst) :
    ∃ c', c.listInsertHead x.1 = some c' ∧ Linked c' (x :: cells) ∧ SameData c c' := by
  obtain ⟨c', inserted, relinked⟩ := listInsertHead_spec stored fun h isHead => by
    rw [linked.list.head_eq] at isHead
    exact linked.stored_of_mem (List.mem_of_head? isHead)
  refine ⟨c', inserted, ⟨?_, fun cell member => ?_⟩, relinked.toSameData⟩
  · rw [relinked.parentOf, relinked.childOf, relinked.lruListHead, relinked.lruListTail]
    exact linked.list.push fresh
  · rw [relinked.pairs]
    rcases List.mem_cons.mp member with rfl | old
    · exact stored
    · exact linked.stored cell old

theorem moveToHead (linked : Linked c (l ++ x :: r)) :
    ∃ c', c.listMoveToHead x.1 = some c' ∧ Linked c' (x :: (l ++ r)) ∧ SameData c c' := by
  have nodup := linked.list.nodup
  rw [List.map_append, List.map_cons, List.perm_middle.nodup_iff, ← List.map_append] at nodup
  obtain ⟨c₁, released, linked₁, same₁⟩ := linked.release
  obtain ⟨c₂, inserted, linked₂, same₂⟩ := linked₁.insertHead
    (by rw [same₁.pairs]; exact linked.stored x (by simp)) (List.nodup_cons.mp nodup).1
  refine ⟨c₂, ?_, linked₂, same₁.trans same₂⟩
  rw [LRUCache.listMoveToHead, released]
  exact inserted

/-- Assigning the value of a node. -/
theorem setValue (linked : Linked c (l ++ x :: r)) (value : V) :
    ∃ c', c.setValue x.1 value = some c' ∧ Linked c' (l ++ (x.1, (x.2.1, value)) :: r) ∧
      c'.nextNode = c.nextNode ∧ c'.mem = c.mem ∧ c'.capacity = c.capacity := by
  have nodup := linked.list.nodup
  rw [List.map_append, List.map_cons, List.perm_middle.nodup_iff, ← List.map_append] at nodup
  obtain ⟨c', assigned, pairs, parents, children, head, tail, frame⟩ :=
    setValue_spec value (linked.stored x (by simp))
  refine ⟨c', assigned, ⟨?_, fun cell member => ?_⟩, frame⟩
  · rw [parents, children, head, tail]
    simpa using linked.list
  · rw [pairs]
    rcases List.mem_cons.mp (List.perm_middle.mem_iff.mp member) with rfl | other
    · exact Function.update_self ..
    · have notX : cell.1 ≠ x.1 := fun same =>
        (List.nodup_cons.mp nodup).1 (same ▸ List.mem_map_of_mem other)
      rw [Function.update_of_ne notX]
      exact linked.stored cell (((List.sublist_cons_self x r).append_left l).subset other)

end Linked

end Conc11.LruCache
