/-
Module: Conc11.LruCache.Model
Purpose: `LRUCache` of util/lru_cache.h: the entries of an unordered map on an explicit heap, linked to a
  list by the pointers in them.
Trusted boundary: human-reviewed model.  `std::unordered_map` is a finite map with stable node addresses
  that compares hash values and then keys; reading a freed node or null gives no result.
Main exports: Entry, PairType, LRUCache, LRUCache.set, LRUCache.get, LRUCache.getMove, Op, Result,
  LRUCache.apply, LRUCache.run
-/
import Mathlib.Logic.Function.Basic

namespace Conc11.LruCache

/-- The address of a node of the unordered map. -/
abbrev Addr := Nat

structure Entry (V : Type) where
  value : V
  parent : Option Addr
  child : Option Addr

/-- `std::pair<const TK, Entry>`. -/
structure PairType (K V : Type) where
  first : K
  second : Entry V

/-- `nodes` is the heap, where `nextNode` is the next free address; `mem` are
the nodes of the unordered map, in no particular order. -/
structure LRUCache (K V : Type) where
  nodes : Addr → Option (PairType K V)
  nextNode : Addr
  mem : List Addr
  capacity : BitVec 32
  lruListHead : Option Addr
  lruListTail : Option Addr

namespace LRUCache

variable {K V P : Type}

/-- The constructor.  Its parameter is a `size_t`, the member a `uint32_t`. -/
def new (capacity : BitVec 64) : LRUCache K V :=
  { nodes := fun _ => none
    nextNode := 0
    mem := []
    capacity := capacity.setWidth 32
    lruListHead := none
    lruListTail := none }

/-! ## The nodes -/

/-- Write to `a->second`. -/
def write (c : LRUCache K V) (a : Addr) (change : Entry V → Entry V) : Option (LRUCache K V) :=
  match c.nodes a with
  | some node =>
      some { c with
        nodes := Function.update c.nodes a (some { node with second := change node.second }) }
  | none => none

def setValue (c : LRUCache K V) (a : Addr) (value : V) : Option (LRUCache K V) :=
  c.write a fun entry => { entry with value := value }

def setParent (c : LRUCache K V) (a : Addr) (parent : Option Addr) : Option (LRUCache K V) :=
  c.write a fun entry => { entry with parent := parent }

def setChild (c : LRUCache K V) (a : Addr) (child : Option Addr) : Option (LRUCache K V) :=
  c.write a fun entry => { entry with child := child }

/-! ## The unordered map -/

/-- `mem.erase` of an iterator. -/
def eraseNode (c : LRUCache K V) (a : Addr) : LRUCache K V :=
  { c with nodes := Function.update c.nodes a none, mem := c.mem.erase a }

section Map

variable [BEq K] [Hashable K]

/-- A node answers to a key of the same hash value that `Eql` takes for equal. -/
def answers (c : LRUCache K V) (key : K) (a : Addr) : Bool :=
  match c.nodes a with
  | some node => hash node.first == hash key && node.first == key
  | none => false

/-- `mem.find`. -/
def find (c : LRUCache K V) (key : K) : Option Addr :=
  c.mem.find? (c.answers key)

/-- `mem.emplace`, which constructs the entry from the value alone. -/
def emplace (c : LRUCache K V) (key : K) (value : V) : LRUCache K V × Addr :=
  match c.find key with
  | some a => (c, a)
  | none =>
      ({ c with
          nodes := Function.update c.nodes c.nextNode
            (some { first := key, second := { value := value, parent := none, child := none } })
          nextNode := c.nextNode + 1
          mem := c.nextNode :: c.mem }, c.nextNode)

/-- `mem.erase` of a key. -/
def eraseKey (c : LRUCache K V) (key : K) : LRUCache K V :=
  match c.find key with
  | some a => c.eraseNode a
  | none => c

end Map

/-! ## The list -/

/-- `list_insert_head`. -/
def listInsertHead (c : LRUCache K V) (e : Addr) : Option (LRUCache K V) :=
  match c.lruListHead with
  | none => do
      let c := { c with lruListHead := some e, lruListTail := some e }
      let c ← c.setParent e none
      c.setChild e none
  | some head => do
      let c ← c.setParent e none
      let c ← c.setChild e (some head)
      let c ← c.setParent head (some e)
      return { c with lruListHead := some e }

/-- The first half of `list_release`: the link that leads to `e`. -/
def releaseParent (c : LRUCache K V) (e : Addr) : Option (LRUCache K V) := do
  let node ← c.nodes e
  match node.second.parent with
  | none => return { c with lruListHead := node.second.child }
  | some parent => c.setChild parent node.second.child

/-- The second half: the link that leads back to `e`. -/
def releaseChild (c : LRUCache K V) (e : Addr) : Option (LRUCache K V) := do
  let node ← c.nodes e
  match node.second.child with
  | none => return { c with lruListTail := node.second.parent }
  | some child => c.setParent child node.second.parent

/-- `list_release`. -/
def listRelease (c : LRUCache K V) (e : Addr) : Option (LRUCache K V) := do
  let c ← c.releaseParent e
  c.releaseChild e

/-- `list_move_to_head`. -/
def listMoveToHead (c : LRUCache K V) (e : Addr) : Option (LRUCache K V) := do
  let c ← c.listRelease e
  c.listInsertHead e

/-! ## The operations -/

/-- `clear`. -/
def clear (c : LRUCache K V) : LRUCache K V :=
  { c with
    nodes := fun a => if a ∈ c.mem then none else c.nodes a
    mem := []
    lruListHead := none
    lruListTail := none }

section Operations

variable [BEq K] [Hashable K]

/-- `gc1`.  No result also where its assertion fails. -/
def gc1 (c : LRUCache K V) : Option (LRUCache K V) := do
  let e ← c.lruListTail
  let c ← c.listRelease e
  let node ← c.nodes e
  return c.eraseKey node.first

/-- `set`, with key and value already converted to `TK` and `TV`. -/
def set (c : LRUCache K V) (key : K) (value : V) : Option (LRUCache K V) :=
  match c.find key with
  | none => do
      let (c, newPair) := c.emplace key value
      let c ← c.listInsertHead newPair
      if c.capacity.toNat < c.mem.length then c.gc1 else return c
  | some e => do
      let c ← c.setValue e value
      c.listMoveToHead e

/-- `get`.  The result points to the value of a node or is null. -/
def get (c : LRUCache K V) (key : K) : Option (LRUCache K V × Option Addr) :=
  match c.find key with
  | none => return (c, none)
  | some e => do
      let c ← c.listMoveToHead e
      return (c, some e)

/-- `get_copy`; `outValue` is what the out parameter points to. -/
def getCopy (c : LRUCache K V) (key : K) (outValue : V) : Option (LRUCache K V × Bool × V) :=
  match c.find key with
  | none => return (c, false, outValue)
  | some e => do
      let c ← c.listMoveToHead e
      let node ← c.nodes e
      return (c, true, node.second.value)

/-- `get_move`.  The value that is moved from is destroyed with its node. -/
def getMove (c : LRUCache K V) (key : K) (outValue : V) : Option (LRUCache K V × Bool × V) :=
  match c.find key with
  | none => return (c, false, outValue)
  | some e => do
      let node ← c.nodes e
      let c ← c.listRelease e
      return (c.eraseNode e, true, node.second.value)

/-- `get_copy_pointee`; `pointee` is the `operator*` of the values. -/
def getCopyPointee (pointee : V → P) (c : LRUCache K V) (key : K) (outValuePointee : P) :
    Option (LRUCache K V × Bool × P) :=
  match c.find key with
  | none => return (c, false, outValuePointee)
  | some e => do
      let c ← c.listMoveToHead e
      let node ← c.nodes e
      return (c, true, pointee node.second.value)

/-- `has_key`. -/
def hasKey (c : LRUCache K V) (key : K) : Bool := (c.find key).isSome

/-- `erase`. -/
def erase (c : LRUCache K V) (key : K) : Option (LRUCache K V × Bool) :=
  match c.find key with
  | none => return (c, false)
  | some p => do
      let c ← c.listRelease p
      return (c.eraseNode p, true)

end Operations

end LRUCache

/-! ## Runs -/

/-- The calls.  Out parameters carry what they point to before the call, and
each `get_copy_pointee` what `operator*` yields at its time. -/
inductive Op (K V P : Type) where
  | set (key : K) (value : V)
  | get (key : K)
  | getCopy (key : K) (outValue : V)
  | getMove (key : K) (outValue : V)
  | getCopyPointee (key : K) (pointee : V → P) (outValuePointee : P)
  | hasKey (key : K)
  | erase (key : K)
  | clear

/-- What a call gives back: nothing, the value that a returned pointer points
to (`none` for null), a flag with the content of the out parameter, or a flag. -/
inductive Result (V P : Type) where
  | unit
  | pointer (target : Option V)
  | copied (found : Bool) (out : V)
  | pointee (found : Bool) (out : P)
  | flag (found : Bool)
deriving DecidableEq, Repr

namespace LRUCache

variable {K V P : Type} [BEq K] [Hashable K]

/-- One call. -/
def apply (c : LRUCache K V) : Op K V P → Option (LRUCache K V × Result V P)
  | .set key value => do
      let c ← c.set key value
      return (c, .unit)
  | .get key => do
      let (c, pointer) ← c.get key
      match pointer with
      | none => return (c, .pointer none)
      | some e =>
          let node ← c.nodes e
          return (c, .pointer (some node.second.value))
  | .getCopy key outValue => do
      let (c, found, out) ← c.getCopy key outValue
      return (c, .copied found out)
  | .getMove key outValue => do
      let (c, found, out) ← c.getMove key outValue
      return (c, .copied found out)
  | .getCopyPointee key pointee outValuePointee => do
      let (c, found, out) ← c.getCopyPointee pointee key outValuePointee
      return (c, .pointee found out)
  | .hasKey key => return (c, .flag (c.hasKey key))
  | .erase key => do
      let (c, found) ← c.erase key
      return (c, .flag found)
  | .clear => return (c.clear, .unit)

/-- A sequence of calls with their results. -/
def run (c : LRUCache K V) : List (Op K V P) → Option (LRUCache K V × List (Result V P))
  | [] => return (c, [])
  | op :: ops => do
      let (c, result) ← c.apply op
      let (c, results) ← c.run ops
      return (c, result :: results)

end LRUCache

end Conc11.LruCache
