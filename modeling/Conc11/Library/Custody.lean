/-
Module: Conc11.Library.Custody
Purpose: Things that are handed on from holder to holder, each holder having room for one: who has them, and when
  handing one on loses another.
Trusted boundary: none
Main exports: Custody, Custody.issue, Custody.hand, Custody.drop, Custody.Held, Custody.Sound, Custody.held_issue,
  Custody.held_hand, Custody.held_drop, Custody.not_held_hand
-/
import Mathlib.Logic.Function.Basic
import Mathlib.Tactic.Common

namespace Conc11.Library

variable {H : Type*} [DecidableEq H]

/-- Which of the things issued so far each holder has. -/
structure Custody (H : Type*) where
  held : H → Option Nat
  issued : Nat

namespace Custody

/-- A new thing for `h`. -/
def issue (c : Custody H) (h : H) : Custody H :=
  { held := Function.update c.held h (some c.issued)
    issued := c.issued + 1 }

/-- What `giver` has goes to `h`. -/
def hand (c : Custody H) (h giver : H) : Custody H :=
  { c with held := Function.update (Function.update c.held giver none) h (c.held giver) }

/-- `h` has nothing any more. -/
def drop (c : Custody H) (h : H) : Custody H :=
  { c with held := Function.update c.held h none }

omit [DecidableEq H] in
/-- Some holder has the thing. -/
def Held (c : Custody H) (a : Nat) : Prop := ∃ h, c.held h = some a

/-- Every thing has one holder at most and has been issued. -/
structure Sound (c : Custody H) : Prop where
  once : ∀ g h a, c.held g = some a → c.held h = some a → g = h
  issued : ∀ h a, c.held h = some a → a < c.issued

variable {c : Custody H} {g h giver : H} {a : Nat}

/-! ## Who has what -/

theorem held_issue_eq : (c.issue h).held g = some a ↔
    (g = h ∧ a = c.issued) ∨ (g ≠ h ∧ c.held g = some a) := by
  unfold issue
  dsimp only
  by_cases same : g = h
  · subst same
    rw [Function.update_self, Option.some_inj]
    simp [eq_comm]
  · rw [Function.update_of_ne same]
    simp [same]

theorem held_hand_eq (apart : h ≠ giver) : (c.hand h giver).held g = some a ↔
    (g = h ∧ c.held giver = some a) ∨ (g ≠ h ∧ g ≠ giver ∧ c.held g = some a) := by
  unfold hand
  dsimp only
  by_cases same : g = h
  · subst same
    rw [Function.update_self]
    simp
  · rw [Function.update_of_ne same]
    by_cases gave : g = giver
    · subst gave
      rw [Function.update_self]
      simp [same]
    · rw [Function.update_of_ne gave]
      simp [same, gave]

theorem held_drop_eq : (c.drop h).held g = some a ↔ g ≠ h ∧ c.held g = some a := by
  unfold drop
  dsimp only
  by_cases same : g = h
  · subst same
    rw [Function.update_self]
    simp
  · rw [Function.update_of_ne same]
    simp [same]

/-! ## What is held -/

theorem held_issue (empty : c.held h = none) : (c.issue h).Held a ↔ c.Held a ∨ a = c.issued := by
  constructor
  · rintro ⟨g, has⟩
    rcases held_issue_eq.mp has with ⟨_, same⟩ | ⟨_, before⟩
    · exact .inr same
    · exact .inl ⟨g, before⟩
  · rintro (⟨g, has⟩ | rfl)
    · have other : g ≠ h := by
        rintro rfl
        rw [empty] at has
        cases has
      exact ⟨g, held_issue_eq.mpr (.inr ⟨other, has⟩)⟩
    · exact ⟨h, held_issue_eq.mpr (.inl ⟨rfl, rfl⟩)⟩

theorem held_of_hand (apart : h ≠ giver) (after : (c.hand h giver).Held a) : c.Held a := by
  obtain ⟨g, has⟩ := after
  rcases (held_hand_eq apart).mp has with ⟨_, before⟩ | ⟨_, _, before⟩
  · exact ⟨giver, before⟩
  · exact ⟨g, before⟩

/-- Handing to a holder with nothing loses nothing. -/
theorem held_hand (apart : h ≠ giver) (empty : c.held h = none) :
    (c.hand h giver).Held a ↔ c.Held a := by
  refine ⟨held_of_hand apart, fun ⟨g, has⟩ => ?_⟩
  by_cases gave : g = giver
  · subst gave
    exact ⟨h, (held_hand_eq apart).mpr (.inl ⟨rfl, has⟩)⟩
  · have other : g ≠ h := by
      rintro rfl
      rw [empty] at has
      cases has
    exact ⟨g, (held_hand_eq apart).mpr (.inr ⟨other, gave, has⟩)⟩

theorem held_of_drop (after : (c.drop h).Held a) : c.Held a := by
  obtain ⟨g, has⟩ := after
  exact ⟨g, (held_drop_eq.mp has).2⟩

namespace Sound

omit [DecidableEq H] in
theorem initial : Sound (⟨fun _ => none, 0⟩ : Custody H) :=
  ⟨fun _ _ a has => absurd has.symm (Option.some_ne_none a),
    fun _ a has => absurd has.symm (Option.some_ne_none a)⟩

/-- Dropping loses what was held there and nothing else. -/
theorem held_drop (sound : c.Sound) : (c.drop h).Held a ↔ c.Held a ∧ c.held h ≠ some a := by
  constructor
  · rintro ⟨g, has⟩
    obtain ⟨other, before⟩ := held_drop_eq.mp has
    exact ⟨⟨g, before⟩, fun alsoHere => other (sound.once g h a before alsoHere)⟩
  · rintro ⟨⟨g, has⟩, notHere⟩
    have other : g ≠ h := fun same => notHere (same ▸ has)
    exact ⟨g, held_drop_eq.mpr ⟨other, has⟩⟩

/-- Handing to a holder that has something loses it. -/
theorem not_held_hand (sound : c.Sound) (apart : h ≠ giver) (has : c.held h = some a) :
    ¬ (c.hand h giver).Held a := by
  rintro ⟨g, after⟩
  rcases (held_hand_eq apart).mp after with ⟨_, before⟩ | ⟨other, _, before⟩
  · exact apart (sound.once h giver a has before)
  · exact other (sound.once g h a before has)

theorem issue (sound : c.Sound) (h : H) : (c.issue h).Sound := by
  have new : ∀ g, c.held g ≠ some c.issued := fun g has =>
    Nat.lt_irrefl _ (sound.issued g _ has)
  refine ⟨fun g g' a has has' => ?_, fun g a has => ?_⟩
  · rcases held_issue_eq.mp has with ⟨same, rfl⟩ | ⟨_, before⟩
    · rcases held_issue_eq.mp has' with ⟨same', _⟩ | ⟨_, before'⟩
      · rw [same, same']
      · exact absurd before' (new g')
    · rcases held_issue_eq.mp has' with ⟨_, rfl⟩ | ⟨_, before'⟩
      · exact absurd before (new g)
      · exact sound.once g g' a before before'
  · rcases held_issue_eq.mp has with ⟨_, rfl⟩ | ⟨_, before⟩
    · exact Nat.lt_succ_self _
    · exact Nat.lt_succ_of_lt (sound.issued g a before)

theorem hand (sound : c.Sound) (apart : h ≠ giver) : (c.hand h giver).Sound := by
  refine ⟨fun g g' a has has' => ?_, fun g a has => ?_⟩
  · rcases (held_hand_eq apart).mp has with ⟨same, before⟩ | ⟨_, notGiver, before⟩
    · rcases (held_hand_eq apart).mp has' with ⟨same', _⟩ | ⟨_, notGiver', before'⟩
      · rw [same, same']
      · exact absurd (sound.once g' giver a before' before) notGiver'
    · rcases (held_hand_eq apart).mp has' with ⟨_, before'⟩ | ⟨_, _, before'⟩
      · exact absurd (sound.once g giver a before before') notGiver
      · exact sound.once g g' a before before'
  · rcases (held_hand_eq apart).mp has with ⟨_, before⟩ | ⟨_, _, before⟩
    · exact sound.issued giver a before
    · exact sound.issued g a before

theorem drop (sound : c.Sound) (h : H) : (c.drop h).Sound :=
  ⟨fun g g' a has has' =>
      sound.once g g' a (held_drop_eq.mp has).2 (held_drop_eq.mp has').2,
    fun g a has => sound.issued g a (held_drop_eq.mp has).2⟩

end Sound

end Custody

end Conc11.Library
