/-
Module: Conc11.Library.Links
Purpose: Intrusive linked lists.  The links are functions from addresses to addresses, so the rules say
  which links an operation has to leave alone and which it has to set, whatever else the nodes hold.
Trusted boundary: none
Main exports: Path, Path.unique, Path.cons, Path.concat, Path.remove, DList, DList.cons, DList.concat,
  DList.remove, DList.prev_of_next, DList.next_of_prev, redirect, DList.push, DList.snoc, DList.unlink
-/
import Mathlib.Data.List.Nodup
import Mathlib.Logic.Function.Basic
import Mathlib.Tactic.Common

namespace Conc11.Library

variable {A : Type*}

/-! ## Singly linked lists -/

/-- Following `next` from `start` visits exactly `xs` and ends there. -/
def Path (next : A → Option A) : Option A → List A → Prop
  | start, [] => start = none
  | start, x :: rest => start = some x ∧ Path next (next x) rest

namespace Path

variable {next next' : A → Option A} {start : Option A} {xs l r : List A} {a x : A}

theorem start_eq (path : Path next start xs) : start = xs.head? := by
  cases xs with
  | nil => exact path
  | cons x rest => exact path.1

/-- The links determine what a path visits. -/
theorem unique {ys : List A} (path : Path next start xs) (other : Path next start ys) : xs = ys := by
  induction xs generalizing start ys with
  | nil =>
      cases ys with
      | nil => rfl
      | cons y rest => cases (path : start = none).symm.trans other.1
  | cons x rest ih =>
      cases ys with
      | nil => cases path.1.symm.trans (other : start = none)
      | cons y more =>
          obtain rfl : x = y := Option.some.inj (path.1.symm.trans other.1)
          rw [ih path.2 other.2]

/-- A path does not depend on the links of other nodes. -/
theorem congr (path : Path next start xs) (agree : ∀ b ∈ xs, next' b = next b) :
    Path next' start xs := by
  induction xs generalizing start with
  | nil => exact path
  | cons x rest ih =>
      refine ⟨path.1, ?_⟩
      rw [agree x List.mem_cons_self]
      exact ih path.2 fun b member => agree b (List.mem_cons_of_mem x member)

/-- The rest of a path starts at the link of the node before it. -/
theorem drop (path : Path next start (l ++ x :: r)) : Path next (next x) r := by
  induction l generalizing start with
  | nil => exact path.2
  | cons y rest ih => exact ih path.2

theorem next_eq (path : Path next start (l ++ x :: r)) : next x = r.head? :=
  path.drop.start_eq

theorem cons (path : Path next start xs) (link : next' a = start)
    (kept : ∀ b ∈ xs, next' b = next b) : Path next' (some a) (a :: xs) :=
  ⟨rfl, by rw [link]; exact path.congr kept⟩

/-- A node is appended by ending its own link and pointing the last link to it. -/
theorem concat (path : Path next start xs) (nodup : xs.Nodup) (ends : next' a = none)
    (last : ∀ t, xs.getLast? = some t → next' t = some a)
    (kept : ∀ b ∈ xs, xs.getLast? ≠ some b → next' b = next b) :
    Path next' (xs ++ [a]).head? (xs ++ [a]) := by
  induction xs generalizing start with
  | nil => exact ⟨rfl, ends⟩
  | cons x rest ih =>
      obtain ⟨fresh, restNodup⟩ := List.nodup_cons.mp nodup
      refine ⟨rfl, ?_⟩
      cases rest with
      | nil =>
          rw [last x rfl]
          exact ⟨rfl, ends⟩
      | cons y more =>
          have notLast : (x :: y :: more).getLast? ≠ some x := by
            rw [List.getLast?_cons_cons]
            exact fun isLast => fresh (List.mem_of_getLast? isLast)
          rw [kept x List.mem_cons_self notLast, path.2.start_eq]
          refine ih path.2 restNodup (fun t isLast => last t ?_) fun b member notEnd => ?_
          · rwa [List.getLast?_cons_cons]
          · apply kept b (List.mem_cons_of_mem x member)
            rwa [List.getLast?_cons_cons]

/-- A node is taken out by pointing the link before it to the node after it. -/
theorem remove (path : Path next start (l ++ x :: r)) (nodup : (l ++ x :: r).Nodup)
    (bypass : ∀ y, l.getLast? = some y → next' y = next x)
    (kept : ∀ b ∈ l ++ r, l.getLast? ≠ some b → next' b = next b) :
    Path next' (l ++ r).head? (l ++ r) := by
  induction l generalizing start with
  | nil =>
      have rest := path.2
      rw [rest.start_eq] at rest
      exact rest.congr fun b member => kept b member (Option.some_ne_none b).symm
  | cons y more ih =>
      obtain ⟨fresh, restNodup⟩ := List.nodup_cons.mp nodup
      refine ⟨rfl, ?_⟩
      cases more with
      | nil =>
          rw [bypass y rfl]
          refine path.2.2.congr fun b member => kept b (List.mem_cons_of_mem y member) ?_
          intro isLast
          obtain rfl : y = b := Option.some.inj isLast
          exact fresh (List.mem_cons_of_mem x member)
      | cons z more =>
          have notLast : (y :: z :: more).getLast? ≠ some y := by
            rw [List.getLast?_cons_cons]
            exact fun isLast => fresh (List.mem_append_left _ (List.mem_of_getLast? isLast))
          rw [kept y List.mem_cons_self notLast, path.2.start_eq]
          refine ih path.2 restNodup (fun t isLast => bypass t ?_) fun b member notEnd => ?_
          · rwa [List.getLast?_cons_cons]
          · apply kept b (List.mem_cons_of_mem y member)
            rwa [List.getLast?_cons_cons]

end Path

/-! ## Doubly linked lists -/

/-- `prev` and `next` link exactly the nodes `xs`, each once, between `head`
and `tail`. -/
structure DList (prev next : A → Option A) (head tail : Option A) (xs : List A) : Prop where
  forward : Path next head xs
  backward : Path prev tail xs.reverse
  nodup : xs.Nodup

namespace DList

variable {prev next prev' next' : A → Option A} {head tail : Option A} {xs l r : List A} {a x : A}

theorem nil : DList prev next none none [] := ⟨rfl, rfl, List.nodup_nil⟩

theorem head_eq (list : DList prev next head tail xs) : head = xs.head? :=
  list.forward.start_eq

theorem tail_eq (list : DList prev next head tail xs) : tail = xs.getLast? := by
  rw [list.backward.start_eq, List.head?_reverse]

theorem next_eq (list : DList prev next head tail (l ++ x :: r)) : next x = r.head? :=
  list.forward.next_eq

theorem prev_eq (list : DList prev next head tail (l ++ x :: r)) : prev x = l.getLast? := by
  have backward := list.backward
  rw [List.reverse_append, List.reverse_cons, List.append_assoc, List.singleton_append] at backward
  rw [backward.next_eq, List.head?_reverse]

/-- The node after a node has it as the node before. -/
theorem prev_of_next (list : DList prev next head tail xs) (member : a ∈ xs)
    (link : next a = some x) : x ∈ xs ∧ prev x = some a := by
  obtain ⟨l, r, rfl⟩ := List.append_of_mem member
  rw [list.next_eq] at link
  obtain ⟨rest, rfl⟩ := List.head?_eq_some_iff.mp link
  refine ⟨by simp, ?_⟩
  have shifted : l ++ a :: x :: rest = (l ++ [a]) ++ x :: rest := by simp
  rw [shifted] at list
  rw [list.prev_eq, List.getLast?_concat]

/-- The node before a node has it as the node after. -/
theorem next_of_prev (list : DList prev next head tail xs) (member : x ∈ xs)
    (link : prev x = some a) : a ∈ xs ∧ next a = some x := by
  obtain ⟨l, r, rfl⟩ := List.append_of_mem member
  rw [list.prev_eq] at link
  obtain ⟨before, rfl⟩ := List.getLast?_eq_some_iff.mp link
  refine ⟨by simp, ?_⟩
  have shifted : (before ++ [a]) ++ x :: r = before ++ a :: x :: r := by simp
  rw [shifted] at list
  rw [list.next_eq, List.head?_cons]

theorem next_tail (list : DList prev next head tail xs) (isTail : tail = some a) :
    next a = none := by
  rw [list.tail_eq] at isTail
  obtain ⟨before, rfl⟩ := List.getLast?_eq_some_iff.mp isTail
  rw [list.next_eq, List.head?_nil]

theorem prev_head (list : DList prev next head tail xs) (isHead : head = some a) :
    prev a = none := by
  rw [list.head_eq] at isHead
  obtain ⟨rest, rfl⟩ := List.head?_eq_some_iff.mp isHead
  exact (list.prev_eq (l := [])).trans List.getLast?_nil

/-- The list depends on the links of its own nodes only. -/
theorem congr (list : DList prev next head tail xs) (prevs : ∀ b ∈ xs, prev' b = prev b)
    (nexts : ∀ b ∈ xs, next' b = next b) : DList prev' next' head tail xs :=
  ⟨list.forward.congr nexts,
    list.backward.congr fun b member => prevs b (List.mem_reverse.mp member), list.nodup⟩

/-- Appending a node. -/
theorem concat (list : DList prev next head tail xs) (fresh : a ∉ xs)
    (nextEnd : next' a = none) (nextLast : ∀ t, xs.getLast? = some t → next' t = some a)
    (nextKept : ∀ b ∈ xs, xs.getLast? ≠ some b → next' b = next b)
    (prevEnd : prev' a = xs.getLast?) (prevKept : ∀ b ∈ xs, prev' b = prev b) :
    DList prev' next' (xs ++ [a]).head? (some a) (xs ++ [a]) := by
  refine ⟨list.forward.concat list.nodup nextEnd nextLast nextKept, ?_, ?_⟩
  · rw [List.reverse_append, List.reverse_singleton, List.singleton_append]
    refine list.backward.cons ?_ fun b member => prevKept b (List.mem_reverse.mp member)
    rw [prevEnd, list.tail_eq]
  · simpa using list.nodup.concat fresh

/-- Putting a node in front. -/
theorem cons (list : DList prev next head tail xs) (fresh : a ∉ xs)
    (prevEnd : prev' a = none) (prevFirst : ∀ h, xs.head? = some h → prev' h = some a)
    (prevKept : ∀ b ∈ xs, xs.head? ≠ some b → prev' b = prev b)
    (nextEnd : next' a = xs.head?) (nextKept : ∀ b ∈ xs, next' b = next b) :
    DList prev' next' (some a) (a :: xs).getLast? (a :: xs) := by
  refine ⟨list.forward.cons (nextEnd.trans list.head_eq.symm) nextKept, ?_,
    List.nodup_cons.mpr ⟨fresh, list.nodup⟩⟩
  have appended := list.backward.concat (List.nodup_reverse.mpr list.nodup) prevEnd
    (fun t isLast => prevFirst t (by rwa [List.getLast?_reverse] at isLast))
    (fun b member notLast => prevKept b (List.mem_reverse.mp member)
      (by rwa [List.getLast?_reverse] at notLast))
  rw [List.reverse_cons, ← List.head?_reverse, List.reverse_cons]
  exact appended

/-- Taking a node out. -/
theorem remove (list : DList prev next head tail (l ++ x :: r))
    (nextBypass : ∀ y, l.getLast? = some y → next' y = r.head?)
    (nextKept : ∀ b ∈ l ++ r, l.getLast? ≠ some b → next' b = next b)
    (prevBypass : ∀ y, r.head? = some y → prev' y = l.getLast?)
    (prevKept : ∀ b ∈ l ++ r, r.head? ≠ some b → prev' b = prev b) :
    DList prev' next' (l ++ r).head? (l ++ r).getLast? (l ++ r) := by
  have reversed : (l ++ x :: r).reverse = r.reverse ++ x :: l.reverse := by simp
  have backward := list.backward
  have nodup := List.nodup_reverse.mpr list.nodup
  rw [reversed] at backward nodup
  refine ⟨list.forward.remove list.nodup (fun y isLast => ?_) nextKept, ?_, ?_⟩
  · rw [list.next_eq]
    exact nextBypass y isLast
  · rw [← List.head?_reverse, List.reverse_append]
    refine backward.remove nodup (fun y isLast => ?_) fun b member notLast => ?_
    · rw [list.prev_eq]
      exact prevBypass y (by rwa [List.getLast?_reverse] at isLast)
    · refine prevKept b ?_ (by rwa [List.getLast?_reverse] at notLast)
      rw [List.mem_append, List.mem_reverse, List.mem_reverse] at member
      exact List.mem_append.mpr member.symm
  · exact list.nodup.sublist ((List.sublist_cons_self x r).append_left l)

end DList

/-! ## Lists whose links are written one at a time -/

section Redirect

variable [DecidableEq A] {links prev next : A → Option A} {place target head tail : Option A}
  {xs l r : List A} {a x : A}

/-- The links after that of the node at `place`, if there is one, has been set. -/
def redirect (links : A → Option A) (place target : Option A) : A → Option A :=
  match place with
  | some a => Function.update links a target
  | none => links

theorem redirect_self : redirect links (some a) target a = target :=
  Function.update_self ..

theorem redirect_of_ne (other : place ≠ some a) : redirect links place target a = links a := by
  cases place with
  | none => rfl
  | some b => exact Function.update_of_ne (fun same => other (by rw [same])) ..

/-- A node is put in front by setting its own links and that of the old head. -/
theorem DList.push (list : DList prev next head tail xs) (fresh : a ∉ xs) :
    DList (redirect (Function.update prev a none) head (some a)) (Function.update next a head)
      (some a) (if head = none then some a else tail) (a :: xs) := by
  have ends : (if head = none then some a else tail) = (a :: xs).getLast? := by
    rw [list.head_eq, list.tail_eq]
    cases xs <;> simp
  rw [ends]
  have other : ∀ b ∈ xs, b ≠ a := fun b member same => fresh (same ▸ member)
  refine list.cons fresh ?_ (fun h isHead => ?_) (fun b member notHead => ?_) ?_ fun b member => ?_
  · have notHead : head ≠ some a := by
      rw [list.head_eq]
      exact fun isHead => fresh (List.mem_of_head? isHead)
    rw [redirect_of_ne notHead, Function.update_self]
  · rw [list.head_eq, isHead, redirect_self]
  · rw [list.head_eq, redirect_of_ne notHead, Function.update_of_ne (other b member)]
  · rw [Function.update_self, list.head_eq]
  · rw [Function.update_of_ne (other b member)]

/-- A node is put at the end by setting its own links and that of the old tail. -/
theorem DList.snoc (list : DList prev next head tail xs) (fresh : a ∉ xs) :
    DList (Function.update prev a tail) (redirect (Function.update next a none) tail (some a))
      (if tail = none then some a else head) (some a) (xs ++ [a]) := by
  have ends : (if tail = none then some a else head) = (xs ++ [a]).head? := by
    rw [list.head_eq, list.tail_eq]
    cases xs <;> simp
  rw [ends]
  have other : ∀ b ∈ xs, b ≠ a := fun b member same => fresh (same ▸ member)
  refine list.concat fresh ?_ (fun t isTail => ?_) (fun b member notTail => ?_) ?_ fun b member => ?_
  · have notTail : tail ≠ some a := by
      rw [list.tail_eq]
      exact fun isTail => fresh (List.mem_of_getLast? isTail)
    rw [redirect_of_ne notTail, Function.update_self]
  · rw [list.tail_eq, isTail, redirect_self]
  · rw [list.tail_eq, redirect_of_ne notTail, Function.update_of_ne (other b member)]
  · rw [Function.update_self, list.tail_eq]
  · rw [Function.update_of_ne (other b member)]

omit [DecidableEq A] in
private theorem head?_unlink :
    (if l.getLast? = none then r.head? else (l ++ x :: r).head?) = (l ++ r).head? := by
  cases l <;> simp

omit [DecidableEq A] in
private theorem getLast?_unlink :
    (if r.head? = none then l.getLast? else (l ++ x :: r).getLast?) = (l ++ r).getLast? := by
  rcases List.eq_nil_or_concat' r with rfl | ⟨before, last, rfl⟩
  · simp
  · rw [if_neg (by simp), ← List.cons_append, ← List.append_assoc, ← List.append_assoc,
      List.getLast?_concat, List.getLast?_concat]

/-- A node is taken out by making its neighbours, or the ends, skip it. -/
theorem DList.unlink (list : DList prev next head tail (l ++ x :: r)) :
    DList (redirect prev (next x) (prev x)) (redirect next (prev x) (next x))
      (if prev x = none then next x else head) (if next x = none then prev x else tail)
      (l ++ r) := by
  rw [list.next_eq, list.prev_eq, list.head_eq, list.tail_eq, head?_unlink, getLast?_unlink]
  refine list.remove (fun y isLast => ?_) (fun b _ notLast => redirect_of_ne notLast)
    (fun y isFirst => ?_) fun b _ notFirst => redirect_of_ne notFirst
  · rw [isLast, redirect_self]
  · rw [isFirst, redirect_self]

end Redirect

end Conc11.Library
