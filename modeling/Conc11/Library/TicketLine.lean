/-
Module: Conc11.Library.TicketLine
Purpose: Tickets drawn from a counter that wraps around.  Whoever has a ticket stands in a line, and its
  ticket is its place behind a second counter; with fewer tickets out than the counter has values, a
  ticket that equals the second counter belongs to the first in line.
Trusted boundary: none
Main exports: Ticketed, Ticketed.inj, Ticketed.front, Ticketed.mem_window, Ticketed.take, Ticketed.serve
-/
import Mathlib.Algebra.Order.Ring.Nat
import Mathlib.Data.List.Nodup
import Mathlib.Logic.Function.Basic
import Mathlib.Tactic.Common

namespace Conc11.Library

variable {w : Nat} {T : Type*}

/-- The threads with a ticket are those of `waiting`; their tickets count up from
`active` to just below `next`, modulo the size of the counter. -/
structure Ticketed (ticketOf : T → Option (BitVec w)) (active next : BitVec w) (waiting : List T) :
    Prop where
  nodup : waiting.Nodup
  member : ∀ t, (ticketOf t).isSome = true ↔ t ∈ waiting
  ticket : ∀ i t, waiting[i]? = some t → ticketOf t = some (active + BitVec.ofNat w i)
  next : next = active + BitVec.ofNat w waiting.length
  few : waiting.length < 2 ^ w

namespace Ticketed

variable {ticketOf : T → Option (BitVec w)} {active next : BitVec w} {waiting rest : List T}
  {t u : T} {k : BitVec w}

theorem toNat_place {i : Nat} (small : i < 2 ^ w) :
    (active + BitVec.ofNat w i - active).toNat = i := by
  rw [BitVec.add_comm, BitVec.add_sub_cancel, BitVec.toNat_ofNat, Nat.mod_eq_of_lt small]

/-- The place in line is the distance of the ticket from `active`. -/
theorem place (ticketed : Ticketed ticketOf active next waiting) (has : ticketOf t = some k) :
    waiting[(k - active).toNat]? = some t := by
  have inLine : t ∈ waiting := (ticketed.member t).mp (by rw [has]; rfl)
  obtain ⟨i, place⟩ := List.getElem?_of_mem inLine
  have below : i < waiting.length := (List.getElem?_eq_some_iff.mp place).1
  have same := ticketed.ticket i t place
  rw [has] at same
  rw [Option.some.inj same, toNat_place (below.trans ticketed.few)]
  exact place

/-- Tickets are pairwise distinct. -/
theorem inj (ticketed : Ticketed ticketOf active next waiting) (hasT : ticketOf t = some k)
    (hasU : ticketOf u = some k) : t = u := by
  have placeT := ticketed.place hasT
  rw [ticketed.place hasU] at placeT
  exact (Option.some.inj placeT).symm

/-- The ticket that is due belongs to the first in line. -/
theorem front (ticketed : Ticketed ticketOf active next waiting) (due : ticketOf t = some active) :
    ∃ rest, waiting = t :: rest := by
  have place := ticketed.place due
  rw [BitVec.sub_self, BitVec.toNat_zero] at place
  cases waiting with
  | nil => cases place
  | cons first rest =>
      obtain rfl : first = t := Option.some.inj place
      exact ⟨rest, rfl⟩

theorem length_eq (ticketed : Ticketed ticketOf active next waiting) :
    (next - active).toNat = waiting.length := by
  rw [ticketed.next, toNat_place ticketed.few]

/-- The tickets are those from `active` to just below `next`. -/
theorem mem_window (ticketed : Ticketed ticketOf active next waiting) (k : BitVec w) :
    (∃ t, ticketOf t = some k) ↔ (k - active).toNat < (next - active).toNat := by
  rw [ticketed.length_eq]
  constructor
  · rintro ⟨t, has⟩
    exact (List.getElem?_eq_some_iff.mp (ticketed.place has)).1
  · intro below
    refine ⟨waiting[(k - active).toNat], ?_⟩
    rw [ticketed.ticket _ _ (List.getElem?_eq_getElem below), BitVec.ofNat_toNat,
      BitVec.setWidth_eq, BitVec.add_comm, BitVec.sub_add_cancel]

variable [DecidableEq T]

/-- The next ticket is drawn. -/
theorem take (ticketed : Ticketed ticketOf active next waiting) (without : ticketOf t = none)
    (room : waiting.length + 1 < 2 ^ w) :
    Ticketed (Function.update ticketOf t (some next)) active (next + 1#w) (waiting ++ [t]) := by
  have fresh : t ∉ waiting := by
    rw [← ticketed.member t, without]
    exact Bool.false_ne_true
  refine ⟨?_, fun u => ?_, fun i u place => ?_, ?_, ?_⟩
  · simpa using ticketed.nodup.concat fresh
  · by_cases same : u = t
    · subst same
      simp
    · rw [Function.update_of_ne same, ticketed.member u]
      simp [same]
  · by_cases early : i < waiting.length
    · rw [List.getElem?_append_left early] at place
      have other : u ≠ t := fun same => fresh (same ▸ List.mem_of_getElem? place)
      rw [Function.update_of_ne other]
      exact ticketed.ticket i u place
    · rw [List.getElem?_append_right (Nat.le_of_not_lt early)] at place
      obtain ⟨below, rfl⟩ := List.getElem?_eq_some_iff.mp place
      have last : i = waiting.length := by
        rw [List.length_singleton] at below
        omega
      subst last
      simp [ticketed.next]
  · rw [ticketed.next, List.length_append, List.length_singleton, BitVec.ofNat_add,
      BitVec.add_assoc]
  · rwa [List.length_append, List.length_singleton]

/-- The first in line gives its ticket back, and the next one is due. -/
theorem serve (ticketed : Ticketed ticketOf active next (t :: rest)) :
    Ticketed (Function.update ticketOf t none) (active + 1#w) next rest := by
  obtain ⟨fresh, nodup⟩ := List.nodup_cons.mp ticketed.nodup
  have few := ticketed.few
  have step : ∀ i : Nat, active + BitVec.ofNat w (i + 1) = active + 1#w + BitVec.ofNat w i := by
    intro i
    rw [Nat.add_comm, BitVec.ofNat_add, BitVec.add_assoc]
  refine ⟨nodup, fun u => ?_, fun i u place => ?_, ?_, ?_⟩
  · by_cases same : u = t
    · subst same
      simp [fresh]
    · rw [Function.update_of_ne same, ticketed.member u]
      simp [same]
  · have other : u ≠ t := fun same => fresh (same ▸ List.mem_of_getElem? place)
    rw [Function.update_of_ne other, ← step]
    exact ticketed.ticket (i + 1) u place
  · rw [ticketed.next, List.length_cons, step]
  · rw [List.length_cons] at few
    omega

end Ticketed

end Conc11.Library
