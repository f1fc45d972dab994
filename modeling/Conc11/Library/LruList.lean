/-
Module: Conc11.Library.LruList
Purpose: The abstract LRU list: entries without two equivalent keys, ordered from most to least recently
  used, of which a list that grows beyond its capacity drops the last one.
Trusted boundary: none
Main exports: DistinctKeys, DistinctKeys.find?_split, DistinctKeys.eraseP_split, LruList, LruList.lookup,
  LruList.touch, LruList.put, LruList.erase, LruList.length_put_le
-/
import Mathlib.Data.List.Basic
import Mathlib.Tactic.Common

namespace Conc11.Library

variable {K V : Type*} [BEq K]

/-! ## Entries with distinct keys -/

/-- No two entries have equivalent keys. -/
def DistinctKeys (entries : List (K × V)) : Prop :=
  entries.Pairwise fun e f => (e.1 == f.1) = false

namespace DistinctKeys

variable [PartialEquivBEq K] {entries before after : List (K × V)} {e : K × V} {key : K} {value : V}

omit [PartialEquivBEq K] in
theorem sublist {fewer : List (K × V)} (distinct : DistinctKeys entries)
    (sub : fewer.Sublist entries) : DistinctKeys fewer :=
  List.Pairwise.sublist sub distinct

omit [PartialEquivBEq K] in
/-- Only the keys matter. -/
theorem of_keys {others : List (K × V)} (distinct : DistinctKeys entries)
    (same : others.map Prod.fst = entries.map Prod.fst) : DistinctKeys others := by
  have keys : (entries.map Prod.fst).Pairwise fun k k' => (k == k') = false :=
    List.pairwise_map.mpr distinct
  rw [← same] at keys
  exact List.pairwise_map.mp keys

/-- Beside an entry with an equivalent key there is no other. -/
theorem other (distinct : DistinctKeys (before ++ e :: after)) (found : (e.1 == key) = true) :
    ∀ f ∈ before ++ after, (f.1 == key) = false := by
  intro f isIn
  obtain ⟨_, fromHere, across⟩ := List.pairwise_append.mp distinct
  rw [← Bool.not_eq_true]
  intro alsoFound
  rcases List.mem_append.mp isIn with early | late
  · have apart := across f early e List.mem_cons_self
    rw [BEq.trans alsoFound (BEq.symm found)] at apart
    cases apart
  · have apart := (List.pairwise_cons.mp fromHere).1 f late
    rw [BEq.trans found (BEq.symm alsoFound)] at apart
    cases apart

theorem find?_split (distinct : DistinctKeys (before ++ e :: after))
    (found : (e.1 == key) = true) :
    (before ++ e :: after).find? (fun f => f.1 == key) = some e := by
  rw [List.find?_eq_some_iff_append]
  refine ⟨found, before, after, rfl, fun f early => ?_⟩
  rw [distinct.other found f (List.mem_append_left after early)]
  rfl

theorem eraseP_split (distinct : DistinctKeys (before ++ e :: after))
    (found : (e.1 == key) = true) :
    (before ++ e :: after).eraseP (fun f => f.1 == key) = before ++ after := by
  rw [List.eraseP_append_right]
  · exact congrArg (before ++ ·) (List.eraseP_cons_of_pos found)
  · intro f early
    rw [distinct.other found f (List.mem_append_left after early)]
    exact Bool.false_ne_true

/-- A value of an entry may change. -/
theorem move (distinct : DistinctKeys (before ++ e :: after)) :
    DistinctKeys ((e.1, value) :: (before ++ after)) := by
  have moved := (List.perm_middle.pairwise_iff (R := fun e f : K × V => (e.1 == f.1) = false)
    fun apart => ?_).mp distinct
  · exact List.pairwise_cons.mpr (List.pairwise_cons.mp moved)
  · rwa [BEq.comm]

/-- A key that is not there may come in front. -/
theorem cons (distinct : DistinctKeys entries)
    (missing : entries.find? (fun f => f.1 == key) = none) :
    DistinctKeys ((key, value) :: entries) := by
  refine List.pairwise_cons.mpr ⟨fun f isIn => ?_, distinct⟩
  have apart := List.find?_eq_none.mp missing f isIn
  rw [BEq.comm]
  exact Bool.eq_false_iff.mpr apart

end DistinctKeys

/-! ## The list -/

/-- Entries from the most to the least recently used. -/
structure LruList (K V : Type*) [BEq K] where
  entries : List (K × V)
  distinct : DistinctKeys entries

namespace LruList

def empty : LruList K V := ⟨[], List.Pairwise.nil⟩

/-- The value stored for a key. -/
def lookup (l : LruList K V) (key : K) : Option V :=
  (l.entries.find? fun e => e.1 == key).map Prod.snd

/-- Take out the entry of a key; the others keep their order. -/
def erase (l : LruList K V) (key : K) : LruList K V :=
  ⟨l.entries.eraseP fun e => e.1 == key, l.distinct.sublist List.eraseP_sublist⟩

/-- Change the value of a key and move its entry to the front. -/
def promote (change : V → V) (entries : List (K × V)) (key : K) : List (K × V) :=
  match entries.find? fun e => e.1 == key with
  | some e => (e.1, change e.2) :: entries.eraseP fun e => e.1 == key
  | none => entries

/-- A list that is too long loses its last entry. -/
def shorten (capacity : Nat) (entries : List (K × V)) : List (K × V) :=
  if capacity < entries.length then entries.dropLast else entries

section

variable [PartialEquivBEq K]

theorem promote_distinct (change : V → V) {entries : List (K × V)} (distinct : DistinctKeys entries)
    (key : K) : DistinctKeys (promote change entries key) := by
  unfold promote
  split
  next e found =>
    obtain ⟨equivalent, before, after, rfl, _⟩ := List.find?_eq_some_iff_append.mp found
    rw [distinct.eraseP_split equivalent]
    exact distinct.move
  next => exact distinct

/-- Use the entry of a key. -/
def touch (l : LruList K V) (key : K) : LruList K V :=
  ⟨promote id l.entries key, promote_distinct id l.distinct key⟩

/-- The entries after a value has been stored. -/
def putEntries (capacity : Nat) (entries : List (K × V)) (key : K) (value : V) : List (K × V) :=
  match entries.find? fun e => e.1 == key with
  | some _ => promote (fun _ => value) entries key
  | none => shorten capacity ((key, value) :: entries)

theorem putEntries_distinct (capacity : Nat) {entries : List (K × V)}
    (distinct : DistinctKeys entries) (key : K) (value : V) :
    DistinctKeys (putEntries capacity entries key value) := by
  unfold putEntries
  split
  next => exact promote_distinct _ distinct key
  next missing =>
    unfold shorten
    split
    · exact (distinct.cons missing).sublist (List.dropLast_sublist _)
    · exact distinct.cons missing

/-- Store a value. -/
def put (capacity : Nat) (l : LruList K V) (key : K) (value : V) : LruList K V :=
  ⟨putEntries capacity l.entries key value, putEntries_distinct capacity l.distinct key value⟩

end

/-! ### The number of entries -/

section Length

variable {capacity : Nat} {entries : List (K × V)} {l : LruList K V} {key : K}

omit [BEq K] in
theorem length_shorten_of_le (atMost : entries.length ≤ capacity + 1) :
    (shorten capacity entries).length = min capacity entries.length := by
  unfold shorten
  split
  next =>
    rw [List.length_dropLast]
    omega
  next => omega

theorem length_erase_le : (l.erase key).entries.length ≤ l.entries.length :=
  List.eraseP_sublist.length_le

theorem length_erase_of_found {e : K × V}
    (found : l.entries.find? (fun e => e.1 == key) = some e) :
    (l.erase key).entries.length + 1 = l.entries.length := by
  have isIn := List.mem_of_find?_eq_some found
  have shorter := List.length_eraseP_of_mem isIn (List.find?_some found)
  exact (congrArg (· + 1) shorter).trans (Nat.sub_add_cancel (List.length_pos_of_mem isIn))

theorem length_promote (change : V → V) :
    (promote change l.entries key).length = l.entries.length := by
  unfold promote
  split
  next e found => exact length_erase_of_found found
  next => rfl

variable [PartialEquivBEq K]

theorem length_touch : (l.touch key).entries.length = l.entries.length := length_promote id

theorem length_put_le (atMost : l.entries.length ≤ capacity) (value : V) :
    (l.put capacity key value).entries.length ≤ capacity := by
  change (putEntries capacity l.entries key value).length ≤ capacity
  unfold putEntries
  split
  next =>
    rw [length_promote]
    exact atMost
  next =>
    rw [length_shorten_of_le (Nat.succ_le_succ atMost)]
    exact Nat.min_le_left ..

end Length

/-! ### A key with an entry -/

section Found

variable [PartialEquivBEq K] {l : LruList K V} {before after : List (K × V)} {e : K × V} {key : K}
  (split : l.entries = before ++ e :: after) (found : (e.1 == key) = true)

include split found

theorem find?_of_split : l.entries.find? (fun f => f.1 == key) = some e := by
  rw [split]
  exact (split ▸ l.distinct : DistinctKeys (before ++ e :: after)).find?_split found

theorem lookup_of_split : l.lookup key = some e.2 := by
  rw [lookup, find?_of_split split found]
  rfl

theorem erase_of_split : (l.erase key).entries = before ++ after := by
  change l.entries.eraseP (fun f => f.1 == key) = before ++ after
  rw [split]
  exact (split ▸ l.distinct : DistinctKeys (before ++ e :: after)).eraseP_split found

theorem promote_of_split (change : V → V) :
    promote change l.entries key = (e.1, change e.2) :: (before ++ after) := by
  unfold promote
  rw [find?_of_split split found]
  exact congrArg ((e.1, change e.2) :: ·) (erase_of_split split found)

theorem touch_of_split : (l.touch key).entries = e :: (before ++ after) :=
  promote_of_split split found id

theorem put_of_split (capacity : Nat) (value : V) :
    (l.put capacity key value).entries = (e.1, value) :: (before ++ after) := by
  change putEntries capacity l.entries key value = _
  unfold putEntries
  rw [find?_of_split split found]
  exact promote_of_split split found _

end Found

theorem put_of_found [PartialEquivBEq K] {l : LruList K V} {key : K} {e : K × V} {capacity : Nat}
    {value : V} (found : l.entries.find? (fun e => e.1 == key) = some e) :
    (l.put capacity key value).entries = promote (fun _ => value) l.entries key := by
  change putEntries capacity l.entries key value = _
  unfold putEntries
  rw [found]

/-! ### A key without an entry -/

section Missing

variable {l : LruList K V} {key : K} (missing : l.entries.find? (fun e => e.1 == key) = none)

include missing

theorem lookup_of_missing : l.lookup key = none := by
  rw [lookup, missing]
  rfl

theorem erase_of_missing : (l.erase key).entries = l.entries :=
  List.eraseP_of_forall_not (List.find?_eq_none.mp missing)

variable [PartialEquivBEq K]

theorem touch_of_missing : (l.touch key).entries = l.entries := by
  change promote id l.entries key = l.entries
  unfold promote
  rw [missing]

theorem put_of_missing (capacity : Nat) (value : V) :
    (l.put capacity key value).entries = shorten capacity ((key, value) :: l.entries) := by
  change putEntries capacity l.entries key value = _
  unfold putEntries
  rw [missing]

end Missing

end LruList

end Conc11.Library
