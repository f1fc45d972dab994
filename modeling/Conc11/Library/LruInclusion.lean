/-
Module: Conc11.Library.LruInclusion
Purpose: The inclusion property of LRU lists: the list of the smaller capacity is a subsequence of the one of
  the larger capacity, whatever is stored, used and erased in both.
Trusted boundary: none
Main exports: SameEntry, Included, Included.touch, Included.erase, Included.put, Included.lookup
-/
import Mathlib.Data.List.Forall2
import Conc11.Library.LruList

namespace Conc11.Library

/-! ## Subsequences up to a relation -/

section Subsequence

variable {A B : Type*} {R : A → B → Prop} {l₁ l₁' : List A} {l₂ : List B} {a : A}

theorem sublistForall₂_of_sublist (fewer : l₁'.Sublist l₁) (sub : List.SublistForall₂ R l₁ l₂) :
    List.SublistForall₂ R l₁' l₂ := by
  induction sub generalizing l₁' with
  | nil =>
      obtain rfl := List.sublist_nil.mp fewer
      exact .nil
  | cons same _ ih =>
      cases fewer with
      | cons _ rest => exact .cons_right (ih rest)
      | cons_cons _ rest => exact .cons same (ih rest)
  | cons_right _ ih => exact .cons_right (ih fewer)

theorem exists_of_sublistForall₂ (sub : List.SublistForall₂ R l₁ l₂) (member : a ∈ l₁) :
    ∃ b ∈ l₂, R a b := by
  induction sub with
  | nil => cases member
  | cons same _ ih =>
      rcases List.mem_cons.mp member with rfl | later
      · exact ⟨_, List.mem_cons_self, same⟩
      · obtain ⟨b, inList, related⟩ := ih later
        exact ⟨b, List.mem_cons_of_mem _ inList, related⟩
  | cons_right _ ih =>
      obtain ⟨b, inList, related⟩ := ih member
      exact ⟨b, List.mem_cons_of_mem _ inList, related⟩

/-- The first match goes from both lists. -/
theorem sublistForall₂_eraseP {p : A → Bool} {q : B → Bool} (agree : ∀ a b, R a b → p a = q b)
    (sub : List.SublistForall₂ R l₁ l₂) :
    List.SublistForall₂ R (l₁.eraseP p) (l₂.eraseP q) := by
  induction sub with
  | nil => exact .nil
  | @cons a b rest₁ rest₂ same sub ih =>
      cases found : p a with
      | true =>
          rw [List.eraseP_cons_of_pos found, List.eraseP_cons_of_pos ((agree a b same).symm.trans found)]
          exact sub
      | false =>
          have other : ¬ q b = true := by rw [← agree a b same, found]; exact Bool.false_ne_true
          rw [List.eraseP_cons_of_neg (by rw [found]; exact Bool.false_ne_true),
            List.eraseP_cons_of_neg other]
          exact .cons same ih
  | @cons_right b rest₁ rest₂ sub ih =>
      cases found : q b with
      | true =>
          rw [List.eraseP_cons_of_pos found]
          exact sublistForall₂_of_sublist List.eraseP_sublist sub
      | false =>
          rw [List.eraseP_cons_of_neg (by rw [found]; exact Bool.false_ne_true)]
          exact .cons_right ih

/-- Both lists lose their last elements. -/
theorem sublistForall₂_dropLast (sub : List.SublistForall₂ R l₁ l₂) :
    List.SublistForall₂ R l₁.dropLast l₂.dropLast := by
  induction sub with
  | nil => exact .nil
  | @cons a b rest₁ rest₂ same sub ih =>
      cases rest₁ with
      | nil => exact .nil
      | cons a' rest₁ =>
          have nonempty : rest₂ ≠ [] := by
            rintro rfl
            cases sub
          rw [List.dropLast_cons_of_ne_nil (List.cons_ne_nil a' rest₁),
            List.dropLast_cons_of_ne_nil nonempty]
          exact .cons same ih
  | @cons_right b rest₁ rest₂ sub ih =>
      cases rest₂ with
      | nil =>
          cases sub
          exact .nil
      | cons b' rest₂ =>
          rw [List.dropLast_cons_of_ne_nil (List.cons_ne_nil b' rest₂)]
          exact .cons_right ih

end Subsequence

/-! ## The inclusion -/

variable {K V : Type*} [BEq K]

/-- Equal values under equivalent keys. -/
def SameEntry (e f : K × V) : Prop := (e.1 == f.1) = true ∧ e.2 = f.2

/-- The smaller list is a subsequence of the larger one and has no more room. -/
structure Included (capacity₁ capacity₂ : Nat) (l₁ l₂ : LruList K V) : Prop where
  sub : List.SublistForall₂ SameEntry l₁.entries l₂.entries
  room : capacity₁ + l₂.entries.length ≤ capacity₂ + l₁.entries.length
  fits₁ : l₁.entries.length ≤ capacity₁
  fits₂ : l₂.entries.length ≤ capacity₂

namespace LruList

section Shorten

variable {capacity capacity₁ capacity₂ : Nat} {es es₁ es₂ : List (K × V)}

omit [BEq K] in
theorem shorten_sublist : (shorten capacity es).Sublist es := by
  unfold shorten
  split
  next => exact List.dropLast_sublist es
  next => exact .refl es

omit [BEq K] in
/-- The larger list drops an entry only where the smaller one does. -/
theorem shorten_sub {R : K × V → K × V → Prop} (sub : List.SublistForall₂ R es₁ es₂)
    (both : capacity₂ < es₂.length → capacity₁ < es₁.length) :
    List.SublistForall₂ R (shorten capacity₁ es₁) (shorten capacity₂ es₂) := by
  by_cases full : capacity₂ < es₂.length
  · unfold shorten
    rw [if_pos full, if_pos (both full)]
    exact sublistForall₂_dropLast sub
  · rw [shorten, shorten, if_neg full]
    exact sublistForall₂_of_sublist shorten_sublist sub

end Shorten

end LruList

namespace Included

variable {capacity₁ capacity₂ : Nat} {l₁ l₂ : LruList K V} {key : K} {e : K × V}

theorem empty (le : capacity₁ ≤ capacity₂) :
    Included capacity₁ capacity₂ (LruList.empty : LruList K V) LruList.empty :=
  ⟨.nil, by simpa [LruList.empty] using le, Nat.zero_le _, Nat.zero_le _⟩

/-- The capacities are ordered whatever the lists hold. -/
theorem le (included : Included capacity₁ capacity₂ l₁ l₂) : capacity₁ ≤ capacity₂ := by
  have room := included.room
  obtain ⟨_, matched, sublist⟩ := List.sublistForall₂_iff.mp included.sub
  have shorter := sublist.length_le
  have sameLength := matched.length_eq
  omega

section

variable [PartialEquivBEq K]

theorem answers_eq {f : K × V} (same : SameEntry e f) : (e.1 == key) = (f.1 == key) := by
  cases equal : f.1 == key with
  | true => exact BEq.trans same.1 equal
  | false =>
      rw [Bool.eq_false_iff]
      intro other
      rw [BEq.trans (BEq.symm same.1) other] at equal
      cases equal

/-- An entry that the smaller list finds is found in the larger one. -/
theorem find? (included : Included capacity₁ capacity₂ l₁ l₂)
    (found : l₁.entries.find? (fun f => f.1 == key) = some e) :
    ∃ f, l₂.entries.find? (fun f => f.1 == key) = some f ∧ SameEntry e f := by
  have equal := List.find?_some found
  obtain ⟨f, inList, same⟩ :=
    exists_of_sublistForall₂ included.sub (List.mem_of_find?_eq_some found)
  obtain ⟨before, after, split⟩ := List.append_of_mem inList
  exact ⟨f, LruList.find?_of_split split ((answers_eq same).symm.trans equal), same⟩

/-- A hit in the smaller list is the same hit in the larger one. -/
theorem lookup (included : Included capacity₁ capacity₂ l₁ l₂) {value : V}
    (hit : l₁.lookup key = some value) : l₂.lookup key = some value := by
  obtain ⟨e, found, rfl⟩ := Option.map_eq_some_iff.mp hit
  obtain ⟨f, alsoFound, same⟩ := included.find? found
  rw [LruList.lookup, alsoFound, Option.map_some, same.2]

/-! ### Erasing -/

theorem sub_erase (included : Included capacity₁ capacity₂ l₁ l₂) (key : K) :
    List.SublistForall₂ SameEntry (l₁.erase key).entries (l₂.erase key).entries :=
  sublistForall₂_eraseP (fun _ _ same => answers_eq same) included.sub

theorem erase (included : Included capacity₁ capacity₂ l₁ l₂) (key : K) :
    Included capacity₁ capacity₂ (l₁.erase key) (l₂.erase key) := by
  refine ⟨included.sub_erase key, ?_, Nat.le_trans LruList.length_erase_le included.fits₁,
    Nat.le_trans LruList.length_erase_le included.fits₂⟩
  have room := included.room
  cases found₁ : l₁.entries.find? (fun f => f.1 == key) with
  | some e =>
      obtain ⟨f, found₂, _⟩ := included.find? found₁
      have length₁ := LruList.length_erase_of_found found₁
      have length₂ := LruList.length_erase_of_found found₂
      omega
  | none =>
      have length₂ : (l₂.erase key).entries.length ≤ l₂.entries.length := LruList.length_erase_le
      rw [LruList.erase_of_missing found₁]
      omega

/-! ### Using and storing -/

/-- The same entry in front of both lists. -/
private theorem sub_promote {change₁ change₂ : V → V} {e₁ e₂ : K × V}
    (included : Included capacity₁ capacity₂ l₁ l₂)
    (found₁ : l₁.entries.find? (fun f => f.1 == key) = some e₁)
    (found₂ : l₂.entries.find? (fun f => f.1 == key) = some e₂)
    (same : SameEntry (e₁.1, change₁ e₁.2) (e₂.1, change₂ e₂.2)) :
    List.SublistForall₂ SameEntry (LruList.promote change₁ l₁.entries key)
      (LruList.promote change₂ l₂.entries key) := by
  unfold LruList.promote
  rw [found₁, found₂]
  exact .cons same (included.sub_erase key)

/-- An entry that only the larger list has may move to its front. -/
private theorem sub_erase_right (included : Included capacity₁ capacity₂ l₁ l₂)
    (missing : l₁.entries.find? (fun f => f.1 == key) = none) :
    List.SublistForall₂ SameEntry l₁.entries (l₂.erase key).entries := by
  have erased := included.sub_erase key
  rwa [LruList.erase_of_missing missing] at erased

theorem touch (included : Included capacity₁ capacity₂ l₁ l₂) (key : K) :
    Included capacity₁ capacity₂ (l₁.touch key) (l₂.touch key) := by
  refine ⟨?_, ?_, Nat.le_trans (Nat.le_of_eq LruList.length_touch) included.fits₁,
    Nat.le_trans (Nat.le_of_eq LruList.length_touch) included.fits₂⟩
  · cases found₁ : l₁.entries.find? (fun f => f.1 == key) with
    | some e =>
        obtain ⟨f, found₂, same⟩ := included.find? found₁
        exact included.sub_promote found₁ found₂ same
    | none =>
        rw [LruList.touch_of_missing found₁]
        cases found₂ : l₂.entries.find? (fun f => f.1 == key) with
        | none =>
            rw [LruList.touch_of_missing found₂]
            exact included.sub
        | some f =>
            change List.SublistForall₂ SameEntry l₁.entries (LruList.promote id l₂.entries key)
            unfold LruList.promote
            rw [found₂]
            exact .cons_right (included.sub_erase_right found₁)
  · rw [LruList.length_touch, LruList.length_touch]
    exact included.room

end

/-- A new entry shortens the larger list only if it shortens the smaller one. -/
theorem put [EquivBEq K] (included : Included capacity₁ capacity₂ l₁ l₂) (key : K) (value : V) :
    Included capacity₁ capacity₂ (l₁.put capacity₁ key value) (l₂.put capacity₂ key value) := by
  have room := included.room
  have fits₁ := included.fits₁
  have fits₂ := included.fits₂
  suffices List.SublistForall₂ SameEntry (l₁.put capacity₁ key value).entries
        (l₂.put capacity₂ key value).entries ∧
      capacity₁ + (l₂.put capacity₂ key value).entries.length ≤
        capacity₂ + (l₁.put capacity₁ key value).entries.length from
    ⟨this.1, this.2, LruList.length_put_le fits₁ value, LruList.length_put_le fits₂ value⟩
  cases found₁ : l₁.entries.find? (fun f => f.1 == key) with
  | some e =>
      obtain ⟨f, found₂, same⟩ := included.find? found₁
      rw [LruList.put_of_found found₁, LruList.put_of_found found₂, LruList.length_promote,
        LruList.length_promote]
      exact ⟨included.sub_promote found₁ found₂ ⟨same.1, rfl⟩, room⟩
  | none =>
      have newFits₁ : ((key, value) :: l₁.entries).length ≤ capacity₁ + 1 := Nat.succ_le_succ fits₁
      have length₁ := LruList.length_shorten_of_le newFits₁
      rw [LruList.put_of_missing found₁, length₁, List.length_cons]
      cases found₂ : l₂.entries.find? (fun f => f.1 == key) with
      | none =>
          have newFits₂ : ((key, value) :: l₂.entries).length ≤ capacity₂ + 1 :=
            Nat.succ_le_succ fits₂
          have length₂ := LruList.length_shorten_of_le newFits₂
          rw [LruList.put_of_missing found₂, length₂, List.length_cons]
          refine ⟨LruList.shorten_sub (.cons ⟨BEq.rfl, rfl⟩ included.sub) ?_, ?_⟩
          · rw [List.length_cons, List.length_cons]
            omega
          · omega
      | some f =>
          have equal := List.find?_some found₂
          rw [LruList.put_of_found found₂, LruList.length_promote]
          refine ⟨sublistForall₂_of_sublist LruList.shorten_sublist ?_, by omega⟩
          unfold LruList.promote
          rw [found₂]
          exact .cons ⟨BEq.symm equal, rfl⟩ (included.sub_erase_right found₁)

end Included

end Conc11.Library
