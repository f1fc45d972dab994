/-
Module: Conc11.LruCache.Copy
Purpose: The copy constructor that `LRUCache` gets implicitly, and what the calls on a copy and on its source do to
  each other on the heap they share.
Trusted boundary: human-reviewed model.  Copying `std::unordered_map` copies every node into a new one.
Main exports: Members, TwoCaches, copyNodes, LRUCache.copyConstruct, Untouched, Independent, Separate,
  Separate.run, copy_independent_iff
-/
import Conc11.LruCache.Frame

namespace Conc11.LruCache

open Library

/-- The members of an `LRUCache` object, without the heap its pointers lead to. -/
structure Members where
  mem : List Addr
  capacity : BitVec 32
  lruListHead : Option Addr
  lruListTail : Option Addr

inductive Side where
  | source
  | copy
deriving DecidableEq, Repr

def Side.other : Side → Side
  | .source => .copy
  | .copy => .source

/-- Two caches on one heap. -/
structure TwoCaches (K V : Type) where
  nodes : Addr → Option (PairType K V)
  nextNode : Addr
  members : Side → Members

variable {K V P : Type}

def LRUCache.members (c : LRUCache K V) : Members :=
  { mem := c.mem
    capacity := c.capacity
    lruListHead := c.lruListHead
    lruListTail := c.lruListTail }

namespace TwoCaches

/-- One of the caches with the heap. -/
def cache (s : TwoCaches K V) (side : Side) : LRUCache K V :=
  { nodes := s.nodes
    nextNode := s.nextNode
    mem := (s.members side).mem
    capacity := (s.members side).capacity
    lruListHead := (s.members side).lruListHead
    lruListTail := (s.members side).lruListTail }

/-- The heap and the members of one cache as `c` has them. -/
def store (s : TwoCaches K V) (side : Side) (c : LRUCache K V) : TwoCaches K V :=
  { nodes := c.nodes
    nextNode := c.nextNode
    members := Function.update s.members side c.members }

variable [BEq K] [Hashable K]

/-- One call on one of the caches. -/
def apply (s : TwoCaches K V) (side : Side) (op : Op K V P) :
    Option (TwoCaches K V × Result V P) := do
  let (c, result) ← (s.cache side).apply op
  return (s.store side c, result)

/-- A sequence of calls, each on one of the caches. -/
def run (s : TwoCaches K V) :
    List (Side × Op K V P) → Option (TwoCaches K V × List (Result V P))
  | [] => return (s, [])
  | (side, op) :: calls => do
      let (s, result) ← s.apply side op
      let (s, results) ← s.run calls
      return (s, result :: results)

end TwoCaches

/-- Copies of the nodes at these addresses: key, value and both pointers as they are. -/
def copyNodes (nodes : Addr → Option (PairType K V)) (nextNode : Addr) :
    List Addr → Option ((Addr → Option (PairType K V)) × Addr × List Addr)
  | [] => some (nodes, nextNode, [])
  | a :: rest => do
      let node ← nodes a
      let (nodes, next, copies) ←
        copyNodes (Function.update nodes nextNode (some node)) (nextNode + 1) rest
      return (nodes, next, nextNode :: copies)

/-- The implicit copy constructor. -/
def LRUCache.copyConstruct (c : LRUCache K V) : Option (TwoCaches K V) := do
  let (nodes, nextNode, mem) ← copyNodes c.nodes c.nextNode c.mem
  return {
    nodes := nodes
    nextNode := nextNode
    members := fun side =>
      match side with
      | .source => c.members
      | .copy => { c.members with mem := mem } }

/-! ## Independence -/

/-- The cache of this side has the same entries with the same links in the same order. -/
structure Untouched (side : Side) (s s' : TwoCaches K V) : Prop where
  members : s'.members side = s.members side
  nodes : ∀ a ∈ (s.members side).mem, s'.nodes a = s.nodes a

/-- The list of the copy runs over its own entries, and whatever has been called
on both, further calls on one of them do not touch the other. -/
structure Independent (P : Type) [BEq K] [Hashable K] (s : TwoCaches K V) : Prop where
  invariant : ∃ visited, WellLinked (s.cache .copy) visited
  apart : ∀ (calls : List (Side × Op K V P)) (s₁ : TwoCaches K V) (results : List (Result V P)),
    s.run calls = some (s₁, results) → ∀ (side : Side) (ops : List (Op K V P)),
      ∃ s₂ results', s₁.run (ops.map fun op => (side, op)) = some (s₂, results') ∧
        Untouched side.other s₁ s₂

section Untouched

variable {s s' s'' : TwoCaches K V} {side : Side}

theorem Side.other_ne (side : Side) : side.other ≠ side := by
  cases side <;> decide

theorem Side.other_other (side : Side) : side.other.other = side := by
  cases side <;> rfl

theorem Side.eq_or_other (side side' : Side) : side' = side ∨ side' = side.other := by
  cases side <;> cases side' <;> decide

theorem Untouched.refl : Untouched side s s := ⟨rfl, fun _ _ => rfl⟩

theorem Untouched.trans (first : Untouched side s s') (second : Untouched side s' s'') :
    Untouched side s s'' := by
  refine ⟨second.members.trans first.members, fun a member => ?_⟩
  have stillMember : a ∈ (s'.members side).mem := by rwa [first.members]
  exact (second.nodes a stillMember).trans (first.nodes a member)

theorem TwoCaches.cache_store (s : TwoCaches K V) (side : Side) (c : LRUCache K V) :
    (s.store side c).cache side = c := by
  have stored : (s.store side c).members side = c.members := Function.update_self ..
  unfold TwoCaches.cache
  rw [stored]
  rfl

theorem TwoCaches.members_store_other (s : TwoCaches K V) (side : Side) (c : LRUCache K V) :
    (s.store side c).members side.other = s.members side.other :=
  Function.update_of_ne side.other_ne ..

end Untouched

/-! ## Two caches with nodes of their own -/

section Separate

variable [BEq K]

/-- A cache depends only on its own nodes. -/
theorem Represents.congr {c c' : LRUCache K V} {cells : List (Addr × (K × V))}
    (represents : Represents c cells) (members : c'.members = c.members)
    (nodes : ∀ a ∈ c.mem, c'.nodes a = c.nodes a) (later : c.nextNode ≤ c'.nextNode) :
    Represents c' cells := by
  obtain ⟨mem, _, head, tail⟩ := Members.mk.inj members
  have kept : ∀ a ∈ cells.map Prod.fst, c'.nodes a = c.nodes a := fun a linked =>
    nodes a (represents.members.mem_iff.mpr linked)
  refine ⟨⟨?_, fun cell member => ?_⟩, mem ▸ represents.members, represents.distinct,
    fun cell member => Nat.lt_of_lt_of_le (represents.bound cell member) later⟩
  · rw [head, tail]
    refine represents.list.congr (fun a linked => ?_) fun a linked => ?_
    · rw [LRUCache.parentOf, kept a linked]
      rfl
    · rw [LRUCache.childOf, kept a linked]
      rfl
  · rw [LRUCache.pairAt, kept cell.1 (List.mem_map_of_mem member)]
    exact represents.stored cell member

theorem Represents.lt_nextNode {c : LRUCache K V} {cells : List (Addr × (K × V))} {a : Addr}
    (represents : Represents c cells) (isEntry : a ∈ c.mem) : a < c.nextNode := by
  obtain ⟨cell, isCell, rfl⟩ := List.mem_map.mp (represents.members.mem_iff.mp isEntry)
  exact represents.bound cell isCell

/-- Both caches are linked lists of nodes of their own. -/
structure Separate (s : TwoCaches K V) : Prop where
  represents : ∀ side, ∃ cells, Represents (s.cache side) cells
  disjoint : ∀ side, ∀ a ∈ (s.members side).mem, a ∉ (s.members side.other).mem

variable [Hashable K] [EquivBEq K] [LawfulHashable K] {s : TwoCaches K V}

omit [Hashable K] [EquivBEq K] [LawfulHashable K] in
/-- One of the caches has changed within its frame. -/
theorem Separate.store (separate : Separate s) {side : Side} {c : LRUCache K V}
    {cells : List (Addr × (K × V))} (represents : Represents c cells)
    (frame : Frame (s.cache side) c) :
    Separate (s.store side c) ∧ Untouched side.other s (s.store side c) := by
  obtain ⟨cells', otherRepresents⟩ := separate.represents side.other
  have untouched : Untouched side.other s (s.store side c) := by
    refine ⟨s.members_store_other side c, fun a member => frame.nodes a ?_ ?_⟩
    · exact fun own => separate.disjoint side a own member
    · exact otherRepresents.lt_nextNode member
  have ownMembers : (s.store side c).members side = c.members := Function.update_self ..
  have apart : ∀ a ∈ c.mem, a ∉ (s.members side.other).mem := by
    intro a own foreign
    rcases frame.mem a own with before | new
    · exact separate.disjoint side a before foreign
    · exact Nat.not_lt_of_le new (otherRepresents.lt_nextNode foreign)
  refine ⟨⟨fun side' => ?_, fun side' => ?_⟩, untouched⟩
  · rcases side.eq_or_other side' with rfl | rfl
    · exact ⟨cells, by rw [s.cache_store]; exact represents⟩
    · exact ⟨cells', otherRepresents.congr untouched.members untouched.nodes frame.nextNode⟩
  · rcases side.eq_or_other side' with rfl | rfl
    · rw [ownMembers, untouched.members]
      exact apart
    · rw [side.other_other, ownMembers, untouched.members]
      exact fun a foreign own => apart a own foreign

/-- A call on one of the caches goes through and does not touch the other. -/
theorem Separate.apply (separate : Separate s) (side : Side) (op : Op K V P) :
    ∃ s' result, s.apply side op = some (s', result) ∧ Separate s' ∧ Untouched side.other s s' := by
  obtain ⟨cells, represents⟩ := separate.represents side
  obtain ⟨c, applied, _, cells', represents', _⟩ := apply_refines represents.refines op
  obtain ⟨kept, untouched⟩ := separate.store represents' (represents.apply_frame applied)
  obtain ⟨result, called⟩ : ∃ result, (s.cache side).apply op = some (c, result) := ⟨_, applied⟩
  refine ⟨s.store side c, result, ?_, kept, untouched⟩
  rw [TwoCaches.apply, called]
  rfl

theorem Separate.of_run (separate : Separate s) {calls : List (Side × Op K V P)}
    {s' : TwoCaches K V} {results : List (Result V P)} (ran : s.run calls = some (s', results)) :
    Separate s' := by
  induction calls generalizing s results with
  | nil =>
      cases ran
      exact separate
  | cons call calls ih =>
      obtain ⟨⟨s₁, result⟩, applied, rest⟩ := Option.bind_eq_some_iff.mp ran
      obtain ⟨⟨s₂, others⟩, ranRest, last⟩ := Option.bind_eq_some_iff.mp rest
      cases last
      obtain ⟨_, _, same, after, _⟩ := separate.apply call.1 call.2
      cases applied.symm.trans same
      exact ih after ranRest

/-- Any calls on one of the caches go through and do not touch the other. -/
theorem Separate.run (separate : Separate s) (side : Side) (ops : List (Op K V P)) :
    ∃ s' results, s.run (ops.map fun op => (side, op)) = some (s', results) ∧
      Untouched side.other s s' := by
  induction ops generalizing s with
  | nil => exact ⟨s, [], rfl, .refl⟩
  | cons op ops ih =>
      obtain ⟨s₁, result, applied, after, untouched⟩ := separate.apply side op
      obtain ⟨s₂, results, ran, rest⟩ := ih after
      refine ⟨s₂, result :: results, ?_, untouched.trans rest⟩
      rw [List.map_cons, TwoCaches.run, applied]
      simp only [ran, Option.bind_eq_bind, Option.bind_some, Option.pure_def]

end Separate

/-! ## The copy -/

section Copy

/-- Copying allocates one new node for each and leaves the old ones. -/
theorem copyNodes_spec {nodes : Addr → Option (PairType K V)} {next : Addr} {addrs : List Addr}
    (allocated : ∀ a ∈ addrs, ∃ node, nodes a = some node) (old : ∀ a ∈ addrs, a < next) :
    ∃ nodes' next' copies, copyNodes nodes next addrs = some (nodes', next', copies) ∧
      ∀ a ∈ copies, next ≤ a := by
  induction addrs generalizing nodes next with
  | nil => exact ⟨nodes, next, [], rfl, by simp⟩
  | cons a rest ih =>
      obtain ⟨node, found⟩ := allocated a List.mem_cons_self
      have stillAllocated : ∀ b ∈ rest,
          ∃ other, Function.update nodes next (some node) b = some other := by
        intro b member
        rw [Function.update_of_ne (Nat.ne_of_lt (old b (List.mem_cons_of_mem a member)))]
        exact allocated b (List.mem_cons_of_mem a member)
      obtain ⟨nodes', next', copies, copied, new⟩ := ih stillAllocated
        fun b member => Nat.lt_succ_of_lt (old b (List.mem_cons_of_mem a member))
      refine ⟨nodes', next', next :: copies, ?_, fun b member => ?_⟩
      · rw [copyNodes, found]
        simp only [copied, Option.bind_eq_bind, Option.bind_some, Option.pure_def]
      · rcases List.mem_cons.mp member with rfl | later
        · exact Nat.le_refl _
        · exact Nat.le_of_succ_le (new b later)

variable [BEq K] {c : LRUCache K V} {cells : List (Addr × (K × V))} {s : TwoCaches K V}

/-- The copy of a cache with entries starts at a node of its source. -/
theorem Represents.copy_not_linked (represents : Represents c cells) (entries : c.mem ≠ [])
    (copied : c.copyConstruct = some s) : ¬ ∃ visited, WellLinked (s.cache .copy) visited := by
  rintro ⟨visited, linked⟩
  have wellLinked := represents.wellLinked
  obtain ⟨_, _, _, made, new⟩ := copyNodes_spec wellLinked.allocated fun a => represents.lt_nextNode
  rw [LRUCache.copyConstruct, made] at copied
  cases copied
  cases isHead : c.lruListHead with
  | none => exact entries (wellLinked.head_null.mp isHead)
  | some h =>
      have sourceHead := wellLinked.follows.start_eq
      have copyHead := linked.follows.start_eq
      rw [isHead] at sourceHead
      have inSource := (wellLinked.every_entry h).mp (List.mem_of_head? sourceHead.symm)
      have inCopy := (linked.every_entry h).mp
        (List.mem_of_head? (copyHead.symm.trans isHead))
      exact Nat.not_lt_of_le (new h inCopy) (represents.lt_nextNode inSource)

/-- The copy of an empty cache is an empty cache. -/
theorem Represents.copy_separate (represents : Represents c cells) (empty : c.mem = [])
    (copied : c.copyConstruct = some s) : Separate s := by
  rw [LRUCache.copyConstruct, empty] at copied
  cases copied
  have members : ({ c.members with mem := [] } : Members) = c.members :=
    congrArg (fun mem => { c.members with mem := mem }) empty.symm
  refine ⟨fun side => ⟨cells, represents.congr ?_ (fun _ _ => rfl) (Nat.le_refl _)⟩,
    fun side a own => ?_⟩
  · cases side with
    | source => rfl
    | copy => exact members
  · cases side with
    | source =>
        rw [show (TwoCaches.members _ Side.source).mem = [] from empty] at own
        cases own
    | copy => cases own

variable [Hashable K] [EquivBEq K] [LawfulHashable K]

theorem Separate.independent (separate : Separate s) : Independent P s := by
  obtain ⟨cells, represents⟩ := separate.represents .copy
  exact ⟨⟨_, represents.wellLinked⟩, fun calls s₁ results ran side ops =>
    (separate.of_run ran).run side ops⟩

end Copy

/-- Every cache can be copied, and the copy is independent of it exactly if the
cache has no entries. -/
theorem copy_independent_iff [BEq K] [Hashable K] [EquivBEq K] [LawfulHashable K]
    (capacity : BitVec 64) (ops : List (Op K V P)) (c : LRUCache K V)
    (results : List (Result V P)) (ran : (LRUCache.new capacity).run ops = some (c, results)) :
    ∃ s, c.copyConstruct = some s ∧ (Independent P s ↔ c.mem = []) := by
  obtain ⟨_, same, _, cells, represents, _⟩ := run_refines (new_refines_mod capacity) ops
  cases ran.symm.trans same
  obtain ⟨nodes, next, copies, made, _⟩ :=
    copyNodes_spec represents.wellLinked.allocated fun a => represents.lt_nextNode
  obtain ⟨s, copied⟩ : ∃ s, c.copyConstruct = some s :=
    ⟨_, by rw [LRUCache.copyConstruct, made]; rfl⟩
  refine ⟨s, copied, fun independent => ?_, fun empty => ?_⟩
  · by_contra entries
    exact represents.copy_not_linked entries copied independent.invariant
  · exact (represents.copy_separate empty copied).independent

/-- A cache that has been emptied again. -/
theorem copy_independent_iff_emptied :
    ∃ c results s, (LRUCache.new 2#64 : LRUCache Nat Nat).run
        ([.set 1 10, .erase 1] : List (Op Nat Nat Nat)) = some (c, results) ∧
      c.copyConstruct = some s ∧ Independent Nat s := by
  have emptied : ((LRUCache.new 2#64 : LRUCache Nat Nat).run
      ([.set 1 10, .erase 1] : List (Op Nat Nat Nat))).map (fun after => after.1.mem) =
      some [] := by
    decide
  obtain ⟨⟨c, results⟩, ran, empty⟩ := Option.map_eq_some_iff.mp emptied
  obtain ⟨s, copied, independent⟩ := copy_independent_iff 2#64 [.set 1 10, .erase 1] c results ran
  exact ⟨c, results, s, ran, copied, independent.mpr empty⟩

/-- The copy of a cache with one entry starts at the node of the source, and
setting a second key in the copy links this node to a node of the copy. -/
theorem copy_writes_to_source :
    ∃ c results s s' results',
      (LRUCache.new 2#64 : LRUCache Nat Nat).run ([.set 1 10] : List (Op Nat Nat Nat)) =
        some (c, results) ∧
      c.copyConstruct = some s ∧ (¬ ∃ visited, WellLinked (s.cache .copy) visited) ∧
      s.run ([(.copy, .set 2 20)] : List (Side × Op Nat Nat Nat)) = some (s', results') ∧
      (s.cache .source).parentOf 0 = none ∧ (s'.cache .source).parentOf 0 = some 2 ∧
      ¬ Untouched .source s s' := by
  have observed : ((LRUCache.new 2#64 : LRUCache Nat Nat).run
      ([.set 1 10] : List (Op Nat Nat Nat))).bind (fun first => first.1.copyConstruct.bind fun s =>
        (s.run ([(.copy, .set 2 20)] : List (Side × Op Nat Nat Nat))).map fun after =>
          ((s.members .source).mem, (s.members .copy).mem, (s.members .copy).lruListHead,
            (s.cache .source).parentOf 0, (after.1.cache .source).parentOf 0)) =
      some ([0], [1], some 0, none, some 2) := by
    decide
  obtain ⟨⟨c, results⟩, ran, rest⟩ := Option.bind_eq_some_iff.mp observed
  obtain ⟨s, copied, rest⟩ := Option.bind_eq_some_iff.mp rest
  obtain ⟨⟨s', results'⟩, called, seen⟩ := Option.map_eq_some_iff.mp rest
  simp only [Prod.mk.injEq] at seen
  obtain ⟨own, copies, head, before, after⟩ := seen
  refine ⟨c, results, s, s', results', ran, copied, ?_, called, before, after, fun untouched => ?_⟩
  · rintro ⟨visited, linked⟩
    have starts : some 0 = visited.head? := head.symm.trans linked.follows.start_eq
    have isEntry := (linked.every_entry 0).mp (List.mem_of_head? starts.symm)
    rw [show (s.cache .copy).mem = [1] from copies] at isEntry
    exact absurd isEntry (by decide)
  · have same : (s'.cache .source).parentOf 0 = (s.cache .source).parentOf 0 :=
      congrArg (fun node => node.bind fun node => node.second.parent)
        (untouched.nodes 0 (by rw [own]; decide))
    rw [before, after] at same
    cases same

end Conc11.LruCache
