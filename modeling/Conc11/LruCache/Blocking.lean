/-
Module: Conc11.LruCache.Blocking
Purpose: `BlockingLRUCache` of util/lru_cache.h: every operation takes the mutex, runs the operation of the cache
  assignment by assignment and drops the mutex, also when user code throws.  Whatever the mutex is, the calls
  that have returned are a run of `LRUCache` in the order in which they returned.
Trusted boundary: human-reviewed model of the statements; user code does not call the cache it is called from
Main exports: BlockingOp, Call, insertHead, release, body, run_body, blockingLRUCache, attemptAll,
  blocking_cache_serial, blocking_cache_refines
-/
import Conc11.Library.Monitor
import Conc11.LruCache.Exceptions
import Conc11.SpinLock.SpinLock

namespace Conc11.LruCache

open Library

/-! ## The operations -/

/-- The operations of `BlockingLRUCache`; it has no `get`. -/
inductive BlockingOp (K V P : Type) where
  | set (key : K) (value : V)
  | getCopy (key : K) (outValue : V)
  | getMove (key : K) (outValue : V)
  | getCopyPointee (key : K) (pointee : V → P) (outValuePointee : P)
  | erase (key : K)
  | clear

/-- The operation of `unsynced_cache` that it forwards to. -/
def BlockingOp.op {K V P : Type} : BlockingOp K V P → Op K V P
  | .set key value => .set key value
  | .getCopy key outValue => .getCopy key outValue
  | .getMove key outValue => .getMove key outValue
  | .getCopyPointee key pointee outValuePointee => .getCopyPointee key pointee outValuePointee
  | .erase key => .erase key
  | .clear => .clear

/-- An operation with the user code that throws in it. -/
structure Call (K V P : Type) where
  op : BlockingOp K V P
  fails : UserCode → Bool
  left : V

def Call.attempt {K V P : Type} (call : Call K V P) : Attempt K V P :=
  { op := call.op.op, fails := call.fails, left := call.left }

/-- What a call gives its caller: a result or an exception. -/
abbrev Answer (V P : Type) := Except UserCode (Result V P)

/-! ## The statements under the lock -/

section Statements

variable {K V P : Type}

/-- An assignment to one of the data members. -/
def assign (change : LRUCache K V → LRUCache K V) : Program (LRUCache K V) PUnit :=
  .update fun c => some (change c)

/-- Read `*e`. -/
def deref (e : Addr) : Program (LRUCache K V) (PairType K V) :=
  .atomic fun c => (c.nodes e).map fun node => (c, node)

/-- `list_insert_head`. -/
def insertHead (e : Addr) : Program (LRUCache K V) PUnit := do
  match ← Program.look fun c => c.lruListHead with
  | none =>
      assign fun c => { c with lruListHead := some e }
      assign fun c => { c with lruListTail := some e }
      Program.update fun c => c.setParent e none
      Program.update fun c => c.setChild e none
  | some head =>
      Program.update fun c => c.setParent e none
      Program.update fun c => c.setChild e (some head)
      Program.update fun c => c.setParent head (some e)
      assign fun c => { c with lruListHead := some e }

/-- The first half of `list_release`. -/
def releaseParent (e : Addr) : Program (LRUCache K V) PUnit := do
  let node ← deref e
  match node.second.parent with
  | none => assign fun c => { c with lruListHead := node.second.child }
  | some parent => Program.update fun c => c.setChild parent node.second.child

/-- The second half. -/
def releaseChild (e : Addr) : Program (LRUCache K V) PUnit := do
  let node ← deref e
  match node.second.child with
  | none => assign fun c => { c with lruListTail := node.second.parent }
  | some child => Program.update fun c => c.setParent child node.second.parent

/-- `list_release`. -/
def release (e : Addr) : Program (LRUCache K V) PUnit := do
  releaseParent e
  releaseChild e

/-- `list_move_to_head`. -/
def moveToHead (e : Addr) : Program (LRUCache K V) PUnit := do
  release e
  insertHead e

/-- `mem.clear()`. -/
def clearMem (c : LRUCache K V) : LRUCache K V :=
  { c with nodes := fun a => if a ∈ c.mem then none else c.nodes a, mem := [] }

/-- `clear`. -/
def clearBody : Program (LRUCache K V) (Answer V P) := do
  assign clearMem
  assign fun c => { c with lruListHead := none }
  assign fun c => { c with lruListTail := none }
  return .ok .unit

variable [BEq K] [Hashable K] (fails : UserCode → Bool) (left : V)

/-- `mem.find`, in which user code may throw. -/
def finding (key : K) (found : Option Addr → Program (LRUCache K V) (Answer V P)) :
    Program (LRUCache K V) (Answer V P) :=
  if fails .find then return .error .find
  else Program.look (fun c => c.find key) >>= found

/-- `gc1`. -/
def gc1Body : Program (LRUCache K V) (Answer V P) := do
  let e ← Program.atomic fun c => c.lruListTail.map fun e => (c, e)
  release e
  let node ← deref e
  if fails .eraseKey then return .error .eraseKey
  else
    assign fun c => c.eraseKey node.first
    return .ok .unit

/-- `set`. -/
def setBody (key : K) (value : V) : Program (LRUCache K V) (Answer V P) :=
  finding fails key fun
    | none =>
        if fails .emplace then return .error .emplace
        else do
          let newPair ← Program.atomic fun c => some (c.emplace key value)
          insertHead newPair
          let full ← Program.look fun c => decide (c.capacity.toNat < c.mem.length)
          if full then gc1Body fails else return .ok .unit
    | some e =>
        if fails .assign then do
          Program.update fun c => c.setValue e left
          return .error .assign
        else do
          Program.update fun c => c.setValue e value
          moveToHead e
          return .ok .unit

/-- `get_copy` and `get_copy_pointee`. -/
def copyOutBody (key : K) (missed : Result V P) (hit : V → Result V P) :
    Program (LRUCache K V) (Answer V P) :=
  finding fails key fun
    | none => return .ok missed
    | some e => do
        moveToHead e
        let node ← deref e
        if fails .assign then return .error .assign else return .ok (hit node.second.value)

/-- `get_move`. -/
def getMoveBody (key : K) (outValue : V) : Program (LRUCache K V) (Answer V P) :=
  finding fails key fun
    | none => return .ok (.copied false outValue)
    | some e => do
        let node ← deref e
        if fails .assign then do
          Program.update fun c => c.setValue e left
          return .error .assign
        else do
          release e
          assign fun c => c.eraseNode e
          return .ok (.copied true node.second.value)

/-- `erase`. -/
def eraseBody (key : K) : Program (LRUCache K V) (Answer V P) :=
  finding fails key fun
    | none => return .ok (.flag false)
    | some p => do
        release p
        assign fun c => c.eraseNode p
        return .ok (.flag true)

omit fails left in
/-- What a call does while it owns the mutex. -/
def body (call : Call K V P) : Program (LRUCache K V) (Answer V P) :=
  match call.op with
  | .set key value => setBody call.fails call.left key value
  | .getCopy key outValue =>
      copyOutBody call.fails key (.copied false outValue) fun value => .copied true value
  | .getMove key outValue => getMoveBody call.fails call.left key outValue
  | .getCopyPointee key pointee outValuePointee =>
      copyOutBody call.fails key (.pointee false outValuePointee) fun value =>
        .pointee true (pointee value)
  | .erase key => eraseBody call.fails key
  | .clear => clearBody

end Statements

/-! ## Without interruption the statements are the operation -/

/-- The cache and the answer that an outcome leaves. -/
def Outcome.answer {K V P : Type} : Outcome K V P → LRUCache K V × Answer V P
  | .returns c result => (c, .ok result)
  | .throws c code => (c, .error code)

section Run

variable {K V P : Type} (c : LRUCache K V) (e : Addr)

@[simp] theorem run_assign (change : LRUCache K V → LRUCache K V) :
    (assign change).run c = some (change c, .unit) := Program.run_update _ c

@[simp] theorem run_deref : (deref e).run c = (c.nodes e).map fun node => (c, node) :=
  Program.run_atomic _ c

@[simp] theorem run_insertHead :
    (insertHead e).run c = (c.listInsertHead e).map fun c' => (c', .unit) := by
  unfold insertHead LRUCache.listInsertHead
  cases head : c.lruListHead with
  | none => simp [head, Option.map_bind, Option.bind_map]
  | some a => simp [head, Option.map_bind, Option.bind_map]

theorem run_releaseParent :
    (releaseParent e).run c = (c.releaseParent e).map fun c' => (c', .unit) := by
  unfold releaseParent LRUCache.releaseParent
  rw [Program.run_bind, run_deref]
  cases c.nodes e with
  | none => rfl
  | some node => cases parent : node.second.parent <;> simp [parent]

theorem run_releaseChild :
    (releaseChild e).run c = (c.releaseChild e).map fun c' => (c', .unit) := by
  unfold releaseChild LRUCache.releaseChild
  rw [Program.run_bind, run_deref]
  cases c.nodes e with
  | none => rfl
  | some node => cases child : node.second.child <;> simp [child]

@[simp] theorem run_release :
    (release e).run c = (c.listRelease e).map fun c' => (c', .unit) := by
  unfold release LRUCache.listRelease
  simp only [Program.run_bind, run_releaseParent, run_releaseChild, Option.bind_map,
    Option.map_bind, Option.bind_eq_bind, Function.comp_def]

@[simp] theorem run_moveToHead :
    (moveToHead e).run c = (c.listMoveToHead e).map fun c' => (c', .unit) := by
  unfold moveToHead LRUCache.listMoveToHead
  simp only [Program.run_bind, run_release, run_insertHead, Option.bind_map, Option.map_bind,
    Option.bind_eq_bind, Function.comp_def]

variable [BEq K] [Hashable K] (fails : UserCode → Bool) (left : V)

theorem run_gc1Body :
    (gc1Body fails : Program (LRUCache K V) (Answer V P)).run c =
      (c.gc1Attempt fails).map Outcome.answer := by
  unfold gc1Body LRUCache.gc1Attempt
  cases throws : fails .eraseKey with
  | true => simp [Option.map_bind, Option.bind_map, Outcome.answer, Function.comp_def]
  | false => simp [Option.map_bind, Option.bind_map, Outcome.answer, Function.comp_def]

theorem run_setBody (key : K) (value : V) :
    (setBody fails left key value : Program (LRUCache K V) (Answer V P)).run c =
      (c.setAttempt fails left key value).map Outcome.answer := by
  unfold setBody finding LRUCache.setAttempt
  cases finds : fails .find with
  | true => rfl
  | false =>
      simp only [Bool.false_eq_true, if_false, Program.run_bind, Program.run_look, Option.bind_some]
      cases c.find key with
      | none =>
          cases emplaces : fails .emplace with
          | true => rfl
          | false =>
              simp only [Bool.false_eq_true, if_false, Program.run_bind, Program.run_atomic,
                Option.bind_some, run_insertHead, Option.bind_map, Option.map_bind, Option.bind_eq_bind]
              refine Option.bind_congr fun inserted _ => ?_
              by_cases full : inserted.capacity.toNat < inserted.mem.length
              · simp [full, run_gc1Body]
              · simp [full, Outcome.answer]
      | some e =>
          cases assigns : fails .assign with
          | true => simp [Outcome.answer, Option.map_bind, Option.bind_map, Function.comp_def]
          | false => simp [Outcome.answer, Option.map_bind, Option.bind_map, Function.comp_def]

theorem run_copyOutBody (key : K) (missed : Result V P) (hit : V → Result V P) :
    (copyOutBody fails key missed hit).run c =
      (c.copyOutAttempt fails key missed hit).map Outcome.answer := by
  unfold copyOutBody finding LRUCache.copyOutAttempt
  cases finds : fails .find with
  | true => rfl
  | false =>
      simp only [Bool.false_eq_true, if_false, Program.run_bind, Program.run_look, Option.bind_some]
      cases c.find key with
      | none => rfl
      | some e =>
          cases assigns : fails .assign with
          | true => simp [Outcome.answer, Option.map_bind, Option.bind_map, Function.comp_def]
          | false => simp [Outcome.answer, Option.map_bind, Option.bind_map, Function.comp_def]

theorem run_getMoveBody (key : K) (outValue : V) :
    (getMoveBody fails left key outValue : Program (LRUCache K V) (Answer V P)).run c =
      (c.getMoveAttempt fails left key outValue).map Outcome.answer := by
  unfold getMoveBody finding LRUCache.getMoveAttempt
  cases finds : fails .find with
  | true => rfl
  | false =>
      simp only [Bool.false_eq_true, if_false, Program.run_bind, Program.run_look, Option.bind_some]
      cases c.find key with
      | none => rfl
      | some e =>
          cases assigns : fails .assign with
          | true => simp [Outcome.answer, Option.map_bind, Option.bind_map, Function.comp_def]
          | false => simp [Outcome.answer, Option.map_bind, Option.bind_map, Function.comp_def]

theorem run_eraseBody (key : K) :
    (eraseBody fails key : Program (LRUCache K V) (Answer V P)).run c =
      (c.findAttempt fails (.erase key)).map Outcome.answer := by
  unfold eraseBody finding LRUCache.findAttempt
  cases finds : fails .find with
  | true => rfl
  | false =>
      simp only [Bool.false_eq_true, if_false, Program.run_bind, Program.run_look, Option.bind_some,
        LRUCache.apply, LRUCache.erase]
      cases c.find key with
      | none => rfl
      | some e =>
          simp [Outcome.answer, Outcome.ofApplied, Option.map_bind, Option.bind_map,
            Option.bind_assoc, Function.comp_def]

omit fails left in
/-- Statement by statement a call is the attempt of its operation. -/
theorem run_body (call : Call K V P) :
    (body call).run c = (c.attempt call.attempt).map Outcome.answer := by
  obtain ⟨op, fails, left⟩ := call
  cases op with
  | set key value => exact run_setBody c fails left key value
  | getCopy key outValue => exact run_copyOutBody c fails key _ _
  | getMove key outValue => exact run_getMoveBody c fails left key outValue
  | getCopyPointee key pointee outValuePointee =>
      exact run_copyOutBody c fails key (.pointee false outValuePointee) fun value =>
        .pointee true (pointee value)
  | erase key => exact run_eraseBody c fails key
  | clear => rfl

end Run

/-! ## The cache behind its mutex -/

/-- No user code throws in the calls that are made. -/
def NoThrow {σ A T : Type*} {K V P : Type} (_ : σ) : Monitor.Action A T (Call K V P) → Prop
  | .call _ call => ∀ code, call.fails code = false
  | _ => True

instance {σ A T : Type*} {K V P : Type} (s : σ) :
    (a : Monitor.Action A T (Call K V P)) → Decidable (NoThrow s a)
  | .call _ call =>
      decidable_of_iff (call.fails .find = false ∧ call.fails .emplace = false ∧
          call.fails .assign = false ∧ call.fails .eraseKey = false) <| by
        refine ⟨fun ⟨find, emplace, assign, eraseKey⟩ code => ?_,
          fun never => ⟨never _, never _, never _, never _⟩⟩
        cases code <;> assumption
  | .lock _ | .enter _ | .act _ => .isTrue trivial

section Blocking

variable {L A T K V P : Type} [DecidableEq T] [BEq K] [Hashable K]

/-- `unsynced_cache` with its calls, each of which takes the mutex exclusively. -/
def blockingLRUCache (K V P : Type) [BEq K] [Hashable K] (capacity : BitVec 64) :
    Monitor (Call K V P) (LRUCache K V) (Answer V P) :=
  { object := .new capacity
    program := body
    mode := fun _ => .exclusive
    reads := nofun }

/-- Calls of a plain `LRUCache` one after the other, exceptions caught by the caller. -/
def attemptAll (c : LRUCache K V) : List (Attempt K V P) → Option (LRUCache K V × List (Answer V P))
  | [] => some (c, [])
  | t :: ts =>
      (c.attempt t).bind fun outcome =>
        (attemptAll outcome.answer.1 ts).map fun last =>
          (last.1, outcome.answer.2 :: last.2)

theorem runAll_body (c : LRUCache K V) (calls : List (Call K V P)) :
    Program.runAll body c calls = attemptAll c (calls.map Call.attempt) := by
  induction calls generalizing c with
  | nil => rfl
  | cons call calls ih =>
      rw [Program.runAll, run_body, Option.bind_map, List.map_cons, attemptAll]
      refine Option.bind_congr fun outcome _ => ?_
      rw [Function.comp_apply, ih]

/-- Whatever the mutex is, however the threads interleave between two statements
and whichever user code throws: the answers of the calls that have returned are
those of a plain `LRUCache` for the same calls in the order of their returns.
The cache is the one that these calls leave unless a thread is in the middle of
a call, which then goes on as if it were alone. -/
theorem blocking_cache_serial (lock : Lock L A T) (capacity : BitVec 64)
    {s : Monitor.System L T (Call K V P) (LRUCache K V) (Answer V P)}
    (reachable : ((blockingLRUCache K V P capacity).machine lock).Reachable s) :
    ∃ c, attemptAll (.new capacity) (s.returned.map fun call => call.2.1.attempt) =
        some (c, s.returned.map fun call => call.2.2) ∧
      ((∀ t call rest, s.pc t ≠ .inside call rest) → s.object = c) ∧
      (∀ t call rest, s.pc t = .inside call rest →
        rest.run s.object = (c.attempt call.attempt).map Outcome.answer) ∧
      ∀ t u call rest other rest', s.pc t = .inside call rest → s.pc u = .inside other rest' →
        t = u := by
  obtain ⟨c, serial⟩ := Monitor.serial_of_reachable reachable
  refine ⟨c, ?_, fun nobody => serial.quiet fun t call rest inside =>
      absurd inside (nobody t call rest), fun t call rest inside => ?_,
    fun t u call rest other rest' inside beside => (serial.alone inside rfl beside).symm⟩
  · have legal := serial.legal
    change Program.runAll body _ _ = _ at legal
    rw [runAll_body, List.map_map] at legal
    exact legal
  · rw [serial.midway t call rest inside]
    exact run_body c call

/-! ## Without exceptions -/

theorem attemptAll_eq_run (c : LRUCache K V) (calls : List (Attempt K V P))
    (never : ∀ t ∈ calls, ∀ code, t.fails code = false) :
    attemptAll c calls =
      (c.run (calls.map Attempt.op)).map fun last => (last.1, last.2.map .ok) := by
  induction calls generalizing c with
  | nil => rfl
  | cons t ts ih =>
      rw [attemptAll, attempt_apply c t (never t List.mem_cons_self), List.map_cons, LRUCache.run,
        Option.bind_map]
      cases applied : c.apply t.op with
      | none => rfl
      | some after =>
          simp only [Function.comp_apply, Outcome.ofApplied, Outcome.answer, Option.bind_some,
            Option.bind_eq_bind, Option.pure_def, ih after.1 fun u member =>
              never u (List.mem_cons_of_mem t member)]
          cases after.1.run (ts.map Attempt.op) <;> rfl

variable [EquivBEq K] [LawfulHashable K]

/-- The abstract list after the calls that have returned, with its answers. -/
def served (capacity : BitVec 64)
    (s : Monitor.System L T (Call K V P) (LRUCache K V) (Answer V P)) :
    LruList K V × List (Result V P) :=
  specRun (capacity.toNat % 2 ^ 32) .empty (s.returned.map fun call => call.2.1.op.op)

/-- When no user code throws, the answers are those of the abstract LRU list for the
same calls in the order of their returns.  A call that is under way goes on to
the answer that the list gives next, so no thread follows a pointer to nothing. -/
theorem blocking_cache_refines (lock : Lock L A T) (capacity : BitVec 64)
    {s : Monitor.System L T (Call K V P) (LRUCache K V) (Answer V P)}
    (reachable : ((blockingLRUCache K V P capacity).machine lock).ReachableUnder NoThrow s) :
    (s.returned.map fun call => call.2.2) = (served capacity s).2.map .ok ∧
      ((∀ t call rest, s.pc t ≠ .inside call rest) →
        Refines (capacity.toNat % 2 ^ 32) s.object (served capacity s).1) ∧
      ∀ t call rest, s.pc t = .inside call rest →
        ∃ c, rest.run s.object = some (c, .ok
            (specApply (capacity.toNat % 2 ^ 32) (served capacity s).1 call.op.op).2) ∧
          Refines (capacity.toNat % 2 ^ 32) c
            (specApply (capacity.toNat % 2 ^ 32) (served capacity s).1 call.op.op).1 := by
  obtain ⟨underWay, returned⟩ := Monitor.calls_of_reachable
    (fun call : Call K V P => ∀ code, call.fails code = false)
    (fun _ _ _ allowed => allowed) reachable
  obtain ⟨c, serial⟩ := Monitor.serial_of_reachable reachable
  have legal := serial.legal
  change Program.runAll body _ _ = _ at legal
  rw [runAll_body, attemptAll_eq_run] at legal
  case never =>
    intro t member
    obtain ⟨call, isCall, rfl⟩ := List.mem_map.mp member
    obtain ⟨entry, isEntry, rfl⟩ := List.mem_map.mp isCall
    exact returned entry isEntry
  obtain ⟨c', ran, refines⟩ := run_refines (new_refines_mod capacity)
    (s.returned.map fun call => call.2.1.op.op)
  have ops : ((s.returned.map fun call => call.2.1).map Call.attempt).map Attempt.op =
      s.returned.map fun call => call.2.1.op.op := by
    rw [List.map_map, List.map_map]
    rfl
  rw [ops] at legal
  change (LRUCache.run (LRUCache.new capacity) _).map _ = _ at legal
  rw [ran, Option.map_some, Option.some.injEq, Prod.mk.injEq] at legal
  obtain ⟨rfl, answers⟩ := legal
  refine ⟨answers.symm, fun nobody => ?_, fun t call rest inside => ?_⟩
  · rw [serial.quiet fun t call rest inside => absurd inside (nobody t call rest)]
    exact refines
  · obtain ⟨after, applied, refines'⟩ := apply_refines refines call.op.op
    refine ⟨after, ?_, refines'⟩
    have quiet : ∀ code, call.attempt.fails code = false := underWay t call (by rw [inside]; rfl)
    rw [serial.midway t call rest inside]
    change (body call).run c' = _
    rw [run_body, attempt_apply _ _ quiet]
    change ((c'.apply call.op.op).map Outcome.ofApplied).map Outcome.answer = _
    rw [applied]
    rfl

end Blocking

/-! ## Two threads behind a spin lock -/

/-- The cache behind a `SpinLock`. -/
def spinCache : Machine
    (Monitor.System (SpinLock.TestAndSet.System Bool 48) Bool (Call Nat Nat Nat)
      (LRUCache Nat Nat) (Answer Nat Nat))
    (Monitor.Action (SpinLock.TestAndSet.Action Bool) Bool (Call Nat Nat Nat)) :=
  (blockingLRUCache Nat Nat Nat 2#64).machine (SpinLock.TestAndSet.spinLock Bool 48)

/-- The second thread calls while the first is between two statements. -/
def overlappingCalls :
    List (Monitor.Action (SpinLock.TestAndSet.Action Bool) Bool (Call Nat Nat Nat)) :=
  [.call false ⟨.set 1 10, fun _ => false, 0⟩, .lock (.lock false), .lock (.turn false),
      .enter false, .act false, .act false, .call true ⟨.getCopy 1 7, fun _ => false, 0⟩,
      .lock (.lock true), .lock (.turn true)] ++
    List.replicate 6 (.act false) ++
    [.lock (.unlock false), .lock (.turn true), .enter true] ++ List.replicate 11 (.act true) ++
    [.lock (.unlock true)]

theorem overlappingCalls_returned :
    (spinCache.execUnder NoThrow spinCache.initial overlappingCalls).map
        (fun s => s.returned.map fun call => call.2.2) =
      some [Except.ok .unit, .ok (.copied true 10)] := by
  rfl

theorem blocking_cache_serial_overlapping :
    ∃ s, spinCache.Reachable s ∧
      ∃ c, attemptAll (.new 2#64) (s.returned.map fun call => call.2.1.attempt) =
        some (c, [.ok .unit, .ok (.copied true 10)]) := by
  obtain ⟨s, run, answers⟩ := Option.map_eq_some_iff.mp overlappingCalls_returned
  have reached := (Machine.reachableUnder_of_execUnder run).reachable
  obtain ⟨c, serial, _⟩ := blocking_cache_serial _ 2#64 reached
  exact ⟨s, reached, c, answers ▸ serial⟩

theorem blocking_cache_refines_overlapping :
    ∃ s, spinCache.ReachableUnder NoThrow s ∧
      (served 2#64 s).2 = [.unit, .copied true 10] := by
  obtain ⟨s, run, answers⟩ := Option.map_eq_some_iff.mp overlappingCalls_returned
  have reached := Machine.reachableUnder_of_execUnder run
  have listed := (blocking_cache_refines _ 2#64 reached).1.symm.trans answers
  exact ⟨s, reached, List.map_injective_iff.mpr (fun _ _ => Except.ok.inj) listed⟩

end Conc11.LruCache
