/-
Module: Conc11.Library.LruHistory
Purpose: What an LRU list holds, told from the keys that have been used: of these, newest first and each one once,
  the first ones, as many as the capacity allows.
Trusted boundary: none
Main exports: recent, recent_concat, SameKeys, Recalls, Recalls.promote, Recalls.putMissing
-/
import Mathlib.Data.List.Forall2
import Conc11.Library.LruList

namespace Conc11.Library

variable {K V : Type*} [BEq K]

/-- The keys of a history, newest first, each one where it was used last. -/
def recent (used : List K) : List K :=
  used.foldl (fun newest key => key :: newest.eraseP fun k => k == key) []

theorem recent_concat (used : List K) (key : K) :
    recent (used ++ [key]) = key :: (recent used).eraseP fun k => k == key := by
  rw [recent, List.foldl_append]
  rfl

/-- Equivalent keys in the same order. -/
def SameKeys : List K → List K → Prop := List.Forall₂ fun k k' => (k == k') = true

/-- The entries are those of the most recently used keys. -/
def Recalls (capacity : Nat) (entries : List (K × V)) (used : List K) : Prop :=
  SameKeys (entries.map Prod.fst) ((recent used).take capacity)

variable [PartialEquivBEq K]

omit [PartialEquivBEq K] in
theorem SameKeys.split {before after keys : List K} {k : K}
    (same : SameKeys (before ++ k :: after) keys) :
    ∃ xs y ys, keys = xs ++ y :: ys ∧ SameKeys before xs ∧ (k == y) = true ∧ SameKeys after ys := by
  induction before generalizing keys with
  | nil =>
      obtain ⟨y, ys, equal, rest, rfl⟩ := List.forall₂_cons_left_iff.mp same
      exact ⟨[], y, ys, rfl, .nil, equal, rest⟩
  | cons b before ih =>
      obtain ⟨x, others, equal, rest, rfl⟩ := List.forall₂_cons_left_iff.mp same
      obtain ⟨xs, y, ys, rfl, early, here, late⟩ := ih rest
      exact ⟨x :: xs, y, ys, rfl, .cons equal early, here, late⟩

/-- The same keys are found among them. -/
theorem SameKeys.found_iff {keys others : List K} (same : SameKeys keys others) (key : K) :
    (∃ k ∈ keys, (k == key) = true) ↔ ∃ k ∈ others, (k == key) = true := by
  induction same with
  | nil => rfl
  | @cons k o keys others equal _ ih =>
      have first : (k == key) = true ↔ (o == key) = true :=
        ⟨fun isKey => BEq.trans (BEq.symm equal) isKey, fun isKey => BEq.trans equal isKey⟩
      simp only [List.mem_cons, exists_eq_or_imp, first, ih]

theorem SameKeys.absent {keys others : List K} {key : K} (same : SameKeys keys others)
    (absent : ∀ k ∈ keys, (k == key) = false) : ∀ k ∈ others, (k == key) = false := by
  intro k member
  rw [Bool.eq_false_iff]
  intro isKey
  obtain ⟨k', member', isKey'⟩ := (same.found_iff key).mpr ⟨k, member, isKey⟩
  exact Bool.eq_false_iff.mp (absent k' member') isKey'

namespace Recalls

variable {capacity : Nat} {l : LruList K V} {used : List K} {key : K} {e : K × V}

omit [BEq K] [PartialEquivBEq K] in
/-- What stands behind the capacity does not count as long as the front is full. -/
theorem take_front {front keys rest : List K} (length : front.length = (keys.take capacity).length)
    (behind : keys.length ≤ capacity → rest = []) : (front ++ rest).take capacity = front := by
  rw [List.length_take] at length
  by_cases all : keys.length ≤ capacity
  · rw [behind all, List.append_nil, List.take_of_length_le (by omega)]
  · exact List.take_left' (by omega)

omit [PartialEquivBEq K] in
theorem empty : Recalls capacity ([] : List (K × V)) [] := by
  unfold Recalls recent
  rw [List.foldl_nil, List.take_nil]
  exact .nil

/-- The entry of a key is there if the key is one of the recent ones. -/
theorem lookup_iff (recalls : Recalls capacity l.entries used) (key : K) :
    (l.lookup key).isSome = true ↔ ∃ k ∈ (recent used).take capacity, (k == key) = true := by
  rw [← recalls.found_iff key, LruList.lookup, Option.isSome_map, List.find?_isSome]
  constructor
  · rintro ⟨e, isIn, equal⟩
    exact ⟨e.1, List.mem_map_of_mem isIn, equal⟩
  · rintro ⟨k, member, equal⟩
    obtain ⟨e, isIn, rfl⟩ := List.mem_map.mp member
    exact ⟨e, isIn, equal⟩

/-- The used entry comes to the front of both. -/
theorem promote [ReflBEq K] (recalls : Recalls capacity l.entries used)
    (found : l.entries.find? (fun f => f.1 == key) = some e) (change : V → V) :
    Recalls capacity (LruList.promote change l.entries key) (used ++ [key]) := by
  obtain ⟨equal, before, after, split, _⟩ := List.find?_eq_some_iff_append.mp found
  unfold Recalls at recalls ⊢
  rw [split, List.map_append, List.map_cons] at recalls
  obtain ⟨xs, y, ys, kept, early, here, late⟩ := recalls.split
  have distinct : DistinctKeys (before ++ e :: after) := split ▸ l.distinct
  have others : ∀ k ∈ xs, (k == key) = false := by
    refine early.absent fun k member => ?_
    obtain ⟨f, isIn, rfl⟩ := List.mem_map.mp member
    exact distinct.other equal f (List.mem_append_left after isIn)
  have isKey : (y == key) = true := BEq.trans (BEq.symm here) equal
  have whole : recent used = xs ++ y :: (ys ++ (recent used).drop capacity) := by
    rw [← List.cons_append, ← List.append_assoc, ← kept, List.take_append_drop]
  have erased : (recent used).eraseP (fun k => k == key) =
      xs ++ ys ++ (recent used).drop capacity := by
    conv_lhs => rw [whole]
    rw [List.eraseP_append_right _ fun k member => Bool.eq_false_iff.mp (others k member),
      List.eraseP_cons_of_pos (p := fun k => k == key) isKey, List.append_assoc]
  have shortened : (key :: (xs ++ ys ++ (recent used).drop capacity)).take capacity =
      key :: (xs ++ ys) := by
    rw [← List.cons_append]
    refine @take_front _ _ _ (recent used) _ ?_ List.drop_eq_nil_of_le
    rw [kept]
    simp only [List.length_cons, List.length_append]
    omega
  rw [recent_concat, erased, shortened, LruList.promote_of_split split equal, List.map_cons,
    List.map_append]
  exact .cons equal (List.rel_append early late)

omit [BEq K] [PartialEquivBEq K] in
theorem shorten_eq_take {entries : List (K × V)} (atMost : entries.length ≤ capacity + 1) :
    LruList.shorten capacity entries = entries.take capacity := by
  unfold LruList.shorten
  split
  next longer =>
    rw [List.dropLast_eq_take]
    congr 1
    omega
  next fits => exact (List.take_of_length_le (Nat.le_of_not_lt fits)).symm

/-- A new entry comes to the front of both, and both lose what is too much. -/
theorem putMissing [ReflBEq K] (recalls : Recalls capacity l.entries used)
    (missing : l.entries.find? (fun f => f.1 == key) = none) (value : V) :
    Recalls capacity (LruList.shorten capacity ((key, value) :: l.entries)) (used ++ [key]) := by
  unfold Recalls at recalls ⊢
  have length := recalls.length_eq
  have absent : ∀ k ∈ (recent used).take capacity, (k == key) = false := by
    refine recalls.absent fun k member => ?_
    obtain ⟨f, isIn, rfl⟩ := List.mem_map.mp member
    exact Bool.eq_false_iff.mpr (List.find?_eq_none.mp missing f isIn)
  have erased : (recent used).eraseP (fun k => k == key) =
      (recent used).take capacity ++ ((recent used).drop capacity).eraseP fun k => k == key := by
    conv_lhs => rw [← List.take_append_drop capacity (recent used)]
    exact List.eraseP_append_right _ fun k member => Bool.eq_false_iff.mp (absent k member)
  have shortened : (key :: (recent used).eraseP fun k => k == key).take capacity =
      (key :: (recent used).take capacity).take capacity := by
    cases capacity with
    | zero => rfl
    | succ room =>
        rw [List.take_succ_cons, List.take_succ_cons, erased]
        congr 1
        by_cases all : (recent used).length ≤ room + 1
        · rw [List.drop_eq_nil_of_le all, List.eraseP_nil, List.append_nil]
        · refine List.take_append_of_le_length ?_
          rw [List.length_take]
          omega
  have fits : ((key, value) :: l.entries).length ≤ capacity + 1 := by
    rw [List.length_map, List.length_take] at length
    rw [List.length_cons]
    omega
  rw [recent_concat, shortened, shorten_eq_take fits, List.map_take, List.map_cons]
  exact List.forall₂_take capacity (.cons BEq.rfl recalls)

end Recalls

end Conc11.Library
