/-
Module: Conc11.LruCache.Exceptions
Purpose: The calls of `LRUCache` where user code may throw: at which points they leave, what they leave behind, and
  the only point that leaves an entry out of the list.
Trusted boundary: human-reviewed model.  When user code throws in `find`, `emplace` or `erase` of a key,
  `std::unordered_map` keeps its contents; an assignment that throws leaves any value in its target.
Main exports: UserCode, Outcome, Attempt, LRUCache.attempt, ThrowsInGc1, Survives, attempts, attempt_apply,
  attempt_leaves, survives_exceptions_iff
-/
import Conc11.Library.Machine
import Conc11.LruCache.Pointers

namespace Conc11.LruCache

open Library

/-! ## Calls that may throw -/

/-- The calls into `Hash`, `Eql` and the constructors and assignments of the
values, by the place where they are made. -/
inductive UserCode where
  /-- `Hash` and `Eql` in `mem.find`. -/
  | find
  /-- `Hash`, `Eql` and the construction of key and value in `mem.emplace`. -/
  | emplace
  /-- The assignment to the stored value or through the out parameter. -/
  | assign
  /-- `Hash` and `Eql` in `mem.erase` of a key. -/
  | eraseKey
deriving DecidableEq, Repr

/-- How a call ends. -/
inductive Outcome (K V P : Type) where
  | returns (c : LRUCache K V) (result : Result V P)
  | throws (c : LRUCache K V) (code : UserCode)

/-- A call, the user code that throws in it when it is reached, and the value
that a throwing assignment leaves in a stored entry. -/
structure Attempt (K V P : Type) where
  op : Op K V P
  fails : UserCode → Bool
  left : V

namespace Outcome

variable {K V P : Type}

def cache : Outcome K V P → LRUCache K V
  | .returns c _ => c
  | .throws c _ => c

/-- A call that ends without an exception. -/
def ofApplied : LRUCache K V × Result V P → Outcome K V P
  | (c, result) => .returns c result

end Outcome

namespace LRUCache

variable {K V P : Type} [BEq K] [Hashable K] (fails : UserCode → Bool) (left : V)

/-- `gc1`, where only the erasing of the key runs user code. -/
def gc1Attempt (c : LRUCache K V) : Option (Outcome K V P) := do
  let e ← c.lruListTail
  let c ← c.listRelease e
  let node ← c.nodes e
  if fails .eraseKey then return .throws c .eraseKey
  else return .returns (c.eraseKey node.first) .unit

/-- `set`. -/
def setAttempt (c : LRUCache K V) (key : K) (value : V) : Option (Outcome K V P) :=
  if fails .find then some (.throws c .find)
  else
    match c.find key with
    | none =>
        if fails .emplace then some (.throws c .emplace)
        else do
          let (c, newPair) := c.emplace key value
          let c ← c.listInsertHead newPair
          if c.capacity.toNat < c.mem.length then c.gc1Attempt fails else return .returns c .unit
    | some e =>
        if fails .assign then do
          let c ← c.setValue e left
          return .throws c .assign
        else do
          let c ← c.setValue e value
          let c ← c.listMoveToHead e
          return .returns c .unit

/-- What `get_copy` and `get_copy_pointee` share: they move the entry and then assign. -/
def copyOutAttempt (c : LRUCache K V) (key : K) (missed : Result V P) (hit : V → Result V P) :
    Option (Outcome K V P) :=
  if fails .find then some (.throws c .find)
  else
    match c.find key with
    | none => some (.returns c missed)
    | some e => do
        let c ← c.listMoveToHead e
        let node ← c.nodes e
        if fails .assign then return .throws c .assign
        else return .returns c (hit node.second.value)

/-- `get_copy`. -/
def getCopyAttempt (c : LRUCache K V) (key : K) (outValue : V) : Option (Outcome K V P) :=
  c.copyOutAttempt fails key (.copied false outValue) fun value => .copied true value

/-- `get_copy_pointee`. -/
def getCopyPointeeAttempt (pointee : V → P) (c : LRUCache K V) (key : K) (outValuePointee : P) :
    Option (Outcome K V P) :=
  c.copyOutAttempt fails key (.pointee false outValuePointee) fun value =>
    .pointee true (pointee value)

/-- `get_move`, which assigns first; the stored value is moved from. -/
def getMoveAttempt (c : LRUCache K V) (key : K) (outValue : V) : Option (Outcome K V P) :=
  if fails .find then some (.throws c .find)
  else
    match c.find key with
    | none => some (.returns c (.copied false outValue))
    | some e => do
        let node ← c.nodes e
        if fails .assign then do
          let c ← c.setValue e left
          return .throws c .assign
        else do
          let c ← c.listRelease e
          return .returns (c.eraseNode e) (.copied true node.second.value)

/-- `get`, `has_key` and `erase`, which run user code in `mem.find` only. -/
def findAttempt (c : LRUCache K V) (op : Op K V P) : Option (Outcome K V P) :=
  if fails .find then some (.throws c .find) else (c.apply op).map .ofApplied

omit fails left in
/-- One call in which user code may throw. -/
def attempt (c : LRUCache K V) (t : Attempt K V P) : Option (Outcome K V P) :=
  match t.op with
  | .set key value => c.setAttempt t.fails t.left key value
  | .get key => c.findAttempt t.fails (.get key)
  | .getCopy key outValue => c.getCopyAttempt t.fails key outValue
  | .getMove key outValue => c.getMoveAttempt t.fails t.left key outValue
  | .getCopyPointee key pointee outValuePointee =>
      c.getCopyPointeeAttempt t.fails pointee key outValuePointee
  | .hasKey key => c.findAttempt t.fails (.hasKey key)
  | .erase key => c.findAttempt t.fails (.erase key)
  | .clear => (c.apply .clear).map .ofApplied

end LRUCache

variable {K V P : Type} [BEq K] [Hashable K]

/-- The call sets a new key in a full cache, and the erasing of the old one throws. -/
def ThrowsInGc1 (c : LRUCache K V) (t : Attempt K V P) : Prop :=
  match t.op with
  | .set key _ =>
      t.fails .find = false ∧ c.find key = none ∧ t.fails .emplace = false ∧
        c.capacity.toNat < c.mem.length + 1 ∧ t.fails .eraseKey = true
  | _ => False

/-- The list of `c'` links its entries, and no key of `c` is missing. -/
structure Survives (c c' : LRUCache K V) : Prop where
  linked : ∃ visited, WellLinked c' visited
  keys : ∀ key, c.hasKey key = true → c'.hasKey key = true

/-- Calls one after the other, where exceptions are caught by the caller. -/
def attempts (P : Type) (capacity : BitVec 64) : Machine (LRUCache K V) (Attempt K V P) :=
  { initial := .new capacity
    step := fun c t => (c.attempt t).map Outcome.cache }

/-- User code that does not throw makes no difference. -/
theorem attempt_apply (c : LRUCache K V) (t : Attempt K V P)
    (never : ∀ code, t.fails code = false) :
    c.attempt t = (c.apply t.op).map .ofApplied := by
  obtain ⟨op, fails, left⟩ := t
  obtain rfl : fails = fun _ => false := funext never
  cases op with
  | set key value =>
      simp only [LRUCache.attempt, LRUCache.setAttempt, LRUCache.apply, LRUCache.set,
        Bool.false_eq_true, if_false]
      cases c.find key with
      | none =>
          simp only [Option.bind_eq_bind, Option.pure_def, Option.map_bind, Option.bind_assoc]
          refine Option.bind_congr fun full _ => ?_
          by_cases tooMany : full.capacity.toNat < full.mem.length
          · simp [tooMany, LRUCache.gc1Attempt, LRUCache.gc1, Option.bind_assoc, Function.comp_def,
              Outcome.ofApplied]
          · simp [tooMany, Outcome.ofApplied]
      | some e => simp [Option.map_bind, Option.bind_assoc, Function.comp_def, Outcome.ofApplied]
  | get key => rfl
  | getCopy key outValue =>
      simp only [LRUCache.attempt, LRUCache.getCopyAttempt, LRUCache.copyOutAttempt, LRUCache.apply,
        LRUCache.getCopy, Bool.false_eq_true, if_false]
      cases c.find key with
      | none => rfl
      | some e => simp [Option.map_bind, Option.bind_assoc, Function.comp_def, Outcome.ofApplied]
  | getMove key outValue =>
      simp only [LRUCache.attempt, LRUCache.getMoveAttempt, LRUCache.apply, LRUCache.getMove,
        Bool.false_eq_true, if_false]
      cases c.find key with
      | none => rfl
      | some e => simp [Option.map_bind, Option.bind_assoc, Function.comp_def, Outcome.ofApplied]
  | getCopyPointee key pointee outValuePointee =>
      simp only [LRUCache.attempt, LRUCache.getCopyPointeeAttempt, LRUCache.copyOutAttempt,
        LRUCache.apply, LRUCache.getCopyPointee, Bool.false_eq_true, if_false]
      cases c.find key with
      | none => rfl
      | some e => simp [Option.map_bind, Option.bind_assoc, Function.comp_def, Outcome.ofApplied]
  | hasKey key => rfl
  | erase key => rfl
  | clear => rfl

/-! ## What is left behind -/

section

variable {c c' : LRUCache K V} {cells l r : List (Addr × (K × V))} {x : Addr × (K × V)}
  {t : Attempt K V P} {key : K}

/-- What a call may leave. -/
inductive Leaves (c : LRUCache K V) (t : Attempt K V P) : Outcome K V P → Prop where
  | returned {c' : LRUCache K V} {result : Result V P} (spared : ¬ ThrowsInGc1 c t)
      (applied : c.apply t.op = some (c', result)) : Leaves c t (.returns c' result)
  | survived {c' : LRUCache K V} {cells : List (Addr × (K × V))} (code : UserCode)
      (spared : ¬ ThrowsInGc1 c t) (represents : Represents c' cells)
      (keys : ∀ key, c.hasKey key = true → c'.hasKey key = true) : Leaves c t (.throws c' code)
  | broken {c' : LRUCache K V} (inGc1 : ThrowsInGc1 c t)
      (unlinked : ¬ ∃ visited, WellLinked c' visited) : Leaves c t (.throws c' .eraseKey)

theorem Leaves.same (represents : Represents c cells) (code : UserCode)
    (spared : ¬ ThrowsInGc1 c t) : Leaves c t (.throws c code) :=
  .survived code spared represents fun _ => id

omit [Hashable K] in
/-- A node that is released but not erased is an entry that the list misses. -/
theorem Represents.released_unlinked (represents : Represents c (l ++ x :: r)) :
    ∃ c', c.listRelease x.1 = some c' ∧ c'.mem = c.mem ∧ c'.pairAt = c.pairAt ∧
      ¬ ∃ visited, WellLinked c' visited := by
  obtain ⟨c', released, linked, same⟩ := represents.toLinked.release
  refine ⟨c', released, same.mem, same.pairs, ?_⟩
  rintro ⟨visited, wellLinked⟩
  obtain rfl := wellLinked.follows.unique linked.list.forward
  have isEntry : x.1 ∈ c'.mem := by
    rw [same.mem]
    exact represents.members.mem_iff.mpr (by simp)
  have perm : ((l ++ x :: r).map Prod.fst).Perm (x.1 :: (l ++ r).map Prod.fst) :=
    List.perm_middle.map Prod.fst
  have gone := (List.nodup_cons.mp (perm.nodup_iff.mp represents.nodup)).1
  exact gone ((wellLinked.every_entry x.1).mpr isEntry)

/-- `gc1` with user code that may throw. -/
theorem Represents.gc1Attempt (represents : Represents c (l ++ [x])) (fails : UserCode → Bool) :
    ∃ outcome : Outcome K V P, c.gc1Attempt fails = some outcome ∧
      ((fails .eraseKey = false ∧ ∃ c', c.gc1 = some c' ∧ outcome = .returns c' .unit) ∨
        (fails .eraseKey = true ∧ ∃ c', outcome = .throws c' .eraseKey ∧
          ¬ ∃ visited, WellLinked c' visited)) := by
  obtain ⟨c₁, released, _, pairs, unlinked⟩ := represents.released_unlinked
  have isTail : c.lruListTail = some x.1 := by
    rw [represents.list.tail_eq, List.map_append]
    exact List.getLast?_concat ..
  have stored : c₁.pairAt x.1 = some x.2 := by
    rw [pairs]
    exact represents.stored x (by simp)
  obtain ⟨node, allocated, _⟩ := exists_node stored
  cases throws : fails .eraseKey with
  | true =>
      refine ⟨.throws c₁ .eraseKey, ?_, .inr ⟨rfl, c₁, rfl, unlinked⟩⟩
      simp only [LRUCache.gc1Attempt, isTail, released, allocated, throws, Option.bind_eq_bind,
        Option.bind_some, Option.pure_def, if_true]
  | false =>
      refine ⟨.returns (c₁.eraseKey node.first) .unit, ?_, .inl ⟨rfl, _, ?_, rfl⟩⟩
      · simp only [LRUCache.gc1Attempt, isTail, released, allocated, throws, Option.bind_eq_bind,
          Option.bind_some, Option.pure_def, Bool.false_eq_true, if_false]
      · simp only [LRUCache.gc1, isTail, released, allocated, Option.bind_eq_bind, Option.bind_some,
          Option.pure_def]

variable [EquivBEq K] [LawfulHashable K]

theorem Represents.hasKey_iff (represents : Represents c cells) :
    c.hasKey key = true ↔ ∃ k ∈ cells.map (fun cell => cell.2.1), (k == key) = true := by
  rw [hasKey_refines represents.refines, LruList.lookup, Option.isSome_map, List.find?_isSome]
  simp only [List.mem_map, exists_exists_and_eq_and]

theorem Represents.keys_kept {cells' : List (Addr × (K × V))} (represents : Represents c cells)
    (after : Represents c' cells')
    (perm : (cells'.map fun cell => cell.2.1).Perm (cells.map fun cell => cell.2.1)) (key : K)
    (hit : c.hasKey key = true) : c'.hasKey key = true := by
  obtain ⟨k, isKey, same⟩ := represents.hasKey_iff.mp hit
  exact after.hasKey_iff.mpr ⟨k, perm.mem_iff.mpr isKey, same⟩

/-- The exception leaves after the entry has moved to the head. -/
theorem Represents.leaves_moved (represents : Represents c (l ++ x :: r)) (code : UserCode)
    (spared : ¬ ThrowsInGc1 c t) :
    ∃ c', c.listMoveToHead x.1 = some c' ∧ Represents c' (x :: (l ++ r)) ∧
      Leaves c t (.throws c' code) := by
  obtain ⟨c', moved, after, _⟩ := represents.moveToHead
  have perm : (x :: (l ++ r)).Perm (l ++ x :: r) := List.perm_middle.symm
  exact ⟨c', moved, after,
    .survived code spared after (represents.keys_kept after (perm.map fun cell => cell.2.1))⟩

/-- The exception leaves after some value has been assigned. -/
theorem Represents.leaves_assigned (represents : Represents c (l ++ x :: r)) (code : UserCode)
    (value : V) (spared : ¬ ThrowsInGc1 c t) :
    ∃ c', c.setValue x.1 value = some c' ∧ Leaves c t (.throws c' code) := by
  obtain ⟨c', assigned, after, _⟩ := represents.setValue value
  have sameKeys : (l ++ (x.1, (x.2.1, value)) :: r).map (fun cell => cell.2.1) =
      (l ++ x :: r).map fun cell => cell.2.1 := by
    simp
  exact ⟨c', assigned,
    .survived code spared after (represents.keys_kept after (.of_eq sameKeys))⟩

/-! ## One call -/

section Set

variable {value : V} (isSet : t.op = .set key value)

include isSet

omit [EquivBEq K] [LawfulHashable K] in
theorem throwsInGc1_iff : ThrowsInGc1 c t ↔ t.fails .find = false ∧ c.find key = none ∧
    t.fails .emplace = false ∧ c.capacity.toNat < c.mem.length + 1 ∧ t.fails .eraseKey = true := by
  rw [ThrowsInGc1, isSet]

omit [EquivBEq K] [LawfulHashable K] in
theorem set_returned (spared : ¬ ThrowsInGc1 c t) (stored : c.set key value = some c') :
    Leaves c t (.returns c' .unit) := by
  refine .returned spared ?_
  rw [isSet, LRUCache.apply, stored]
  rfl

/-- `set` of a key that is stored throws before it has moved the entry. -/
theorem setAttempt_stored (represents : Represents c cells) {e : Addr}
    (finds : t.fails .find = false) (found : c.find key = some e) :
    ∃ outcome, c.setAttempt t.fails t.left key value = some outcome ∧ Leaves c t outcome := by
  have spared : ¬ ThrowsInGc1 c t := fun throws =>
    Option.some_ne_none e (found.symm.trans ((throwsInGc1_iff isSet).mp throws).2.1)
  obtain ⟨l, x, r, rfl, _, rfl⟩ := represents.exists_split found
  unfold LRUCache.setAttempt
  rw [finds, found]
  cases assigns : t.fails .assign with
  | true =>
      obtain ⟨c₁, assigned, leaves⟩ := represents.leaves_assigned .assign t.left spared
      refine ⟨.throws c₁ .assign, ?_, leaves⟩
      simp only [assigned, Option.bind_eq_bind, Option.bind_some, Option.pure_def, if_true,
        Bool.false_eq_true, if_false]
  | false =>
      obtain ⟨c₁, assigned, represents₁, _⟩ := represents.setValue value
      obtain ⟨c₂, moved, _⟩ := represents₁.moveToHead
      refine ⟨.returns c₂ .unit, ?_, set_returned isSet spared ?_⟩
      · simp only [assigned, moved, Option.bind_eq_bind, Option.bind_some, Option.pure_def,
          Bool.false_eq_true, if_false]
      · rw [LRUCache.set, found]
        simp only [assigned, moved, Option.bind_eq_bind, Option.bind_some]

/-- `set` of a new key throws before it has changed anything, or in `gc1`. -/
theorem setAttempt_new (represents : Represents c cells) (finds : t.fails .find = false)
    (missing : c.find key = none) (emplaces : t.fails .emplace = false) :
    ∃ outcome, c.setAttempt t.fails t.left key value = some outcome ∧ Leaves c t outcome := by
  obtain ⟨c₁, c₂, emplaced, inserted, represents₂, capacity₂⟩ :=
    represents.insertNew missing (represents.absent missing) value
  have grown : c₂.mem.length = c.mem.length + 1 := by
    rw [represents₂.length_eq, represents.length_eq, List.length_cons]
  obtain ⟨before, last, ends⟩ :=
    (List.eq_nil_or_concat' ((c.nextNode, (key, value)) :: cells)).resolve_left (by simp)
  rw [ends] at represents₂
  unfold LRUCache.setAttempt
  rw [finds, missing]
  by_cases tooMany : c₂.capacity.toNat < c₂.mem.length
  · obtain ⟨outcome, ran, ended⟩ := represents₂.gc1Attempt (P := P) t.fails
    refine ⟨outcome, ?_, ?_⟩
    · simp only [emplaces, emplaced, inserted, if_pos tooMany, ran, Option.bind_eq_bind,
        Option.bind_some, Bool.false_eq_true, if_false]
    · rcases ended with ⟨spares, c', dropped, rfl⟩ | ⟨throws, c', rfl, unlinked⟩
      · refine set_returned isSet (fun throws => ?_) ?_
        · exact Bool.noConfusion
            (spares.symm.trans ((throwsInGc1_iff isSet).mp throws).2.2.2.2)
        · rw [LRUCache.set, missing]
          simp only [emplaced, inserted, if_pos tooMany, dropped, Option.bind_eq_bind,
            Option.bind_some]
      · rw [grown, capacity₂] at tooMany
        exact .broken
          ((throwsInGc1_iff isSet).mpr ⟨finds, missing, emplaces, tooMany, throws⟩) unlinked
  · refine ⟨.returns c₂ .unit, ?_, set_returned isSet (fun throws => ?_) ?_⟩
    · simp only [emplaces, emplaced, inserted, if_neg tooMany, Option.bind_eq_bind,
        Option.bind_some, Option.pure_def, Bool.false_eq_true, if_false]
    · rw [grown, capacity₂] at tooMany
      exact tooMany ((throwsInGc1_iff isSet).mp throws).2.2.2.1
    · rw [LRUCache.set, missing]
      simp only [emplaced, inserted, if_neg tooMany, Option.bind_eq_bind, Option.bind_some,
        Option.pure_def]

theorem setAttempt_leaves (represents : Represents c cells) :
    ∃ outcome, c.setAttempt t.fails t.left key value = some outcome ∧ Leaves c t outcome := by
  cases finds : t.fails .find with
  | true =>
      refine ⟨.throws c .find, if_pos finds, .same represents .find fun throws => ?_⟩
      exact Bool.noConfusion (finds.symm.trans ((throwsInGc1_iff isSet).mp throws).1)
  | false =>
      cases found : c.find key with
      | some e => exact setAttempt_stored isSet represents finds found
      | none =>
          cases emplaces : t.fails .emplace with
          | false => exact setAttempt_new isSet represents finds found emplaces
          | true =>
              refine ⟨.throws c .emplace, ?_, .same represents .emplace fun throws => ?_⟩
              · simp only [LRUCache.setAttempt, finds, found, emplaces, if_true,
                  Bool.false_eq_true, if_false]
              · exact Bool.noConfusion
                  (emplaces.symm.trans ((throwsInGc1_iff isSet).mp throws).2.2.1)

end Set

/-- `get_copy` and `get_copy_pointee` throw before or after the entry has moved. -/
theorem copyOutAttempt_leaves (represents : Represents c cells) (key : K) {missed : Result V P}
    {hit : V → Result V P} (spared : ¬ ThrowsInGc1 c t)
    (misses : c.find key = none → c.apply t.op = some (c, missed))
    (hits : ∀ e c₁ node, c.find key = some e → c.listMoveToHead e = some c₁ →
      c₁.nodes e = some node → c.apply t.op = some (c₁, hit node.second.value)) :
    ∃ outcome, c.copyOutAttempt t.fails key missed hit = some outcome ∧ Leaves c t outcome := by
  unfold LRUCache.copyOutAttempt
  cases finds : t.fails .find with
  | true => exact ⟨_, rfl, .same represents .find spared⟩
  | false =>
      simp only [Bool.false_eq_true, if_false]
      cases found : c.find key with
      | none => exact ⟨_, rfl, .returned spared (misses found)⟩
      | some e =>
          obtain ⟨l, x, r, rfl, _, rfl⟩ := represents.exists_split found
          obtain ⟨c₁, moved, represents₁, leaves⟩ := represents.leaves_moved .assign spared
          obtain ⟨node, allocated, _⟩ := exists_node (represents₁.stored x List.mem_cons_self)
          cases assigns : t.fails .assign with
          | true =>
              refine ⟨.throws c₁ .assign, ?_, leaves⟩
              simp only [moved, allocated, Option.bind_eq_bind, Option.bind_some, Option.pure_def,
                if_true]
          | false =>
              refine ⟨.returns c₁ (hit node.second.value), ?_,
                .returned spared (hits x.1 c₁ node found moved allocated)⟩
              simp only [moved, allocated, Option.bind_eq_bind, Option.bind_some,
                Option.pure_def, Bool.false_eq_true, if_false]

/-- `get_move` throws before it takes the entry out. -/
theorem getMoveAttempt_leaves (represents : Represents c cells) (key : K) (outValue : V)
    (isGet : t.op = .getMove key outValue) :
    ∃ outcome, c.getMoveAttempt t.fails t.left key outValue = some outcome ∧
      Leaves c t outcome := by
  have spared : ¬ ThrowsInGc1 c t := by
    rw [ThrowsInGc1, isGet]
    exact id
  unfold LRUCache.getMoveAttempt
  cases finds : t.fails .find with
  | true => exact ⟨_, rfl, .same represents .find spared⟩
  | false =>
      simp only [Bool.false_eq_true, if_false]
      cases found : c.find key with
      | none =>
          refine ⟨_, rfl, .returned spared ?_⟩
          rw [isGet, LRUCache.apply, LRUCache.getMove, found]
          rfl
      | some e =>
          obtain ⟨l, x, r, rfl, _, rfl⟩ := represents.exists_split found
          obtain ⟨node, allocated, _⟩ := exists_node (represents.stored x (by simp))
          cases assigns : t.fails .assign with
          | true =>
              obtain ⟨c₁, assigned, leaves⟩ := represents.leaves_assigned .assign t.left spared
              refine ⟨.throws c₁ .assign, ?_, leaves⟩
              simp only [allocated, assigned, Option.bind_eq_bind, Option.bind_some,
                Option.pure_def, if_true]
          | false =>
              obtain ⟨c₁, released, _⟩ := represents.remove
              refine ⟨.returns (c₁.eraseNode x.1) (.copied true node.second.value), ?_,
                .returned spared ?_⟩
              · simp only [allocated, released, Option.bind_eq_bind, Option.bind_some,
                  Option.pure_def, Bool.false_eq_true, if_false]
              · rw [isGet, LRUCache.apply, LRUCache.getMove, found]
                simp only [allocated, released, Option.bind_eq_bind, Option.bind_some,
                  Option.pure_def]

theorem applied_leaves (represents : Represents c cells) (spared : ¬ ThrowsInGc1 c t) :
    ∃ outcome, (c.apply t.op).map Outcome.ofApplied = some outcome ∧ Leaves c t outcome := by
  obtain ⟨c', applied, _⟩ := apply_refines represents.refines t.op
  exact ⟨_, by rw [applied]; rfl, .returned spared applied⟩

/-- `get`, `has_key` and `erase` throw before they do anything. -/
theorem findAttempt_leaves (represents : Represents c cells) (spared : ¬ ThrowsInGc1 c t) :
    ∃ outcome, c.findAttempt t.fails t.op = some outcome ∧ Leaves c t outcome := by
  unfold LRUCache.findAttempt
  cases finds : t.fails .find with
  | true => exact ⟨_, rfl, .same represents .find spared⟩
  | false =>
      simp only [Bool.false_eq_true, if_false]
      exact applied_leaves represents spared

/-- Every call ends, and what it leaves behind depends on where it throws. -/
theorem attempt_leaves (represents : Represents c cells) (t : Attempt K V P) :
    ∃ outcome, c.attempt t = some outcome ∧ Leaves c t outcome := by
  obtain ⟨op, fails, left⟩ := t
  cases op with
  | set key value =>
      exact setAttempt_leaves (t := ⟨.set key value, fails, left⟩) rfl represents
  | get key => exact findAttempt_leaves represents id
  | getCopy key outValue =>
      refine copyOutAttempt_leaves (t := ⟨.getCopy key outValue, fails, left⟩) represents key id
        (fun missing => ?_) fun e c₁ node found moved allocated => ?_
      · rw [LRUCache.apply, LRUCache.getCopy, missing]
        rfl
      · rw [LRUCache.apply, LRUCache.getCopy, found]
        simp only [moved, allocated, Option.bind_eq_bind, Option.bind_some, Option.pure_def]
  | getMove key outValue => exact getMoveAttempt_leaves represents key outValue rfl
  | getCopyPointee key pointee outValuePointee =>
      change ∃ outcome, c.copyOutAttempt fails key (.pointee false outValuePointee)
        (fun value => .pointee true (pointee value)) = some outcome ∧ _
      refine copyOutAttempt_leaves (t := ⟨.getCopyPointee key pointee outValuePointee, fails, left⟩)
        represents key id (fun missing => ?_) fun e c₁ node found moved allocated => ?_
      · rw [LRUCache.apply, LRUCache.getCopyPointee, missing]
        rfl
      · rw [LRUCache.apply, LRUCache.getCopyPointee, found]
        simp only [moved, allocated, Option.bind_eq_bind, Option.bind_some, Option.pure_def]
  | hasKey key => exact findAttempt_leaves represents id
  | erase key => exact findAttempt_leaves represents id
  | clear => exact applied_leaves (t := ⟨.clear, fails, left⟩) represents id

/-! ## Runs -/

/-- A call that does not throw in `gc1` leaves a linked cache. -/
theorem Leaves.represents {outcome : Outcome K V P} (leaves : Leaves c t outcome)
    (represents : Represents c cells) (spared : ¬ ThrowsInGc1 c t) :
    ∃ cells', Represents outcome.cache cells' := by
  cases leaves with
  | returned _ applied =>
      obtain ⟨_, same, _, cells', after, _⟩ := apply_refines represents.refines t.op
      cases applied.symm.trans same
      exact ⟨cells', after⟩
  | survived code spared after keys => exact ⟨_, after⟩
  | broken inGc1 unlinked => exact absurd inGc1 spared

omit [EquivBEq K] [LawfulHashable K] in
theorem Leaves.survives_iff {outcome : Outcome K V P} (leaves : Leaves c t outcome) :
    (∀ c' code, outcome = .throws c' code → Survives c c') ↔ ¬ ThrowsInGc1 c t := by
  cases leaves with
  | returned spared applied => exact iff_of_true (fun _ _ thrown => by cases thrown) spared
  | survived code spared after keys =>
      refine iff_of_true (fun c' code thrown => ?_) spared
      cases thrown
      exact ⟨⟨_, after.wellLinked⟩, keys⟩
  | broken inGc1 unlinked =>
      exact iff_of_false (fun survives => unlinked (survives _ _ rfl).linked) (not_not.mpr inGc1)

theorem represents_of_reachable {capacity : BitVec 64}
    (reachable : (attempts (K := K) (V := V) P capacity).ReachableUnder
      (fun c t => ¬ ThrowsInGc1 c t) c) : ∃ cells, Represents c cells := by
  refine reachable.invariant (motive := fun c => ∃ cells, Represents c cells) ?_
    fun c t c' _ linked spared stepEq => ?_
  · obtain ⟨_, cells, represents, _⟩ := new_refines_mod (K := K) (V := V) capacity
    exact ⟨cells, represents⟩
  · obtain ⟨cells, represents⟩ := linked
    obtain ⟨outcome, attempted, leaves⟩ := attempt_leaves represents t
    obtain ⟨_, same, rfl⟩ := Option.map_eq_some_iff.mp stepEq
    cases attempted.symm.trans same
    exact leaves.represents represents spared

end

/-- After every run without an exception out of `gc1`, every call ends, and if it
throws it keeps the list and the keys, exactly if it does not throw in `gc1`. -/
theorem survives_exceptions_iff [EquivBEq K] [LawfulHashable K] (capacity : BitVec 64)
    (c : LRUCache K V)
    (reachable : (attempts P capacity).ReachableUnder (fun c t => ¬ ThrowsInGc1 c t) c)
    (t : Attempt K V P) :
    ∃ outcome, c.attempt t = some outcome ∧
      ((∀ c' code, outcome = .throws c' code → Survives c c') ↔ ¬ ThrowsInGc1 c t) := by
  obtain ⟨cells, represents⟩ := represents_of_reachable reachable
  obtain ⟨outcome, attempted, leaves⟩ := attempt_leaves represents t
  exact ⟨outcome, attempted, leaves.survives_iff⟩

/-- A `get_move` whose assignment throws, in a cache for one entry that has one. -/
theorem survives_exceptions_iff_assign :
    ∃ c c' : LRUCache Nat Nat,
      (attempts Nat 1#64).ReachableUnder (fun c t => ¬ ThrowsInGc1 c t) c ∧
      c.attempt (⟨.getMove 1 0, fun code => decide (code = .assign), 99⟩ : Attempt Nat Nat Nat) =
        some (.throws c' .assign) ∧
      Survives c c' := by
  obtain ⟨c, c', stored, thrown⟩ : ∃ c c' : LRUCache Nat Nat,
      (attempts Nat 1#64).step (attempts Nat 1#64).initial ⟨.set 1 10, fun _ => false, 0⟩ = some c ∧
      c.attempt (⟨.getMove 1 0, fun code => decide (code = .assign), 99⟩ : Attempt Nat Nat Nat) =
        some (.throws c' .assign) :=
    ⟨_, _, rfl, rfl⟩
  have spared : ¬ ThrowsInGc1 (attempts Nat 1#64).initial
      (⟨.set 1 10, fun _ => false, 0⟩ : Attempt Nat Nat Nat) :=
    fun throws => Bool.noConfusion throws.2.2.2.2
  have reachable : (attempts Nat 1#64).ReachableUnder (fun c t => ¬ ThrowsInGc1 c t) c :=
    Machine.ReachableUnder.initial.step spared stored
  obtain ⟨outcome, attempted, survives⟩ := survives_exceptions_iff 1#64 c reachable
    ⟨.getMove 1 0, fun code => decide (code = .assign), 99⟩
  exact ⟨c, c', reachable, thrown,
    survives.mpr id c' .assign (Option.some.inj (attempted.symm.trans thrown))⟩

/-- When the `gc1` of a full cache throws, the old entry is in the map but not in the list. -/
theorem gc1_throws :
    ∃ c c' : LRUCache Nat Nat,
      (attempts Nat 1#64).step (attempts Nat 1#64).initial ⟨.set 1 10, fun _ => false, 0⟩ = some c ∧
      c.attempt (⟨.set 2 20, fun code => decide (code = .eraseKey), 0⟩ : Attempt Nat Nat Nat) =
        some (.throws c' .eraseKey) ∧
      c'.hasKey 1 = true ∧ ¬ ∃ visited, WellLinked c' visited := by
  obtain ⟨c, c', stored, thrown, entries, head, child, present⟩ : ∃ c c' : LRUCache Nat Nat,
      (attempts Nat 1#64).step (attempts Nat 1#64).initial ⟨.set 1 10, fun _ => false, 0⟩ = some c ∧
      c.attempt (⟨.set 2 20, fun code => decide (code = .eraseKey), 0⟩ : Attempt Nat Nat Nat) =
        some (.throws c' .eraseKey) ∧
      c'.mem = [1, 0] ∧ c'.lruListHead = some 1 ∧ c'.childOf 1 = none ∧ c'.hasKey 1 = true :=
    ⟨_, _, rfl, rfl, rfl, rfl, rfl, by decide⟩
  refine ⟨c, c', stored, thrown, present, ?_⟩
  rintro ⟨visited, linked⟩
  have onlyNew : visited = [1] := linked.follows.unique ⟨head, child⟩
  have listed := (linked.every_entry 0).mpr (by rw [entries]; decide)
  rw [onlyNew] at listed
  exact absurd listed (by decide)

end Conc11.LruCache
