/-
Module: Conc11.Library.WaitingLine
Purpose: Permits handed out along a waiting line.  Only the first in line is signalled, a signalled caller
  that finds too few permits goes to the end of the line, and whether to signal is decided by the
  smallest recorded request.  When is the first in line signalled, and in which order are callers served?
Trusted boundary: none
Main exports: Precedes, Line, Line.Event, Line.Step, Line.Covered, Line.HeadSignalled, Line.KeepsSignal,
  Line.headSignalled_iff, Turns, Turns.Step, Turns.Ordered, Turns.Ordered.step
-/
import Mathlib.Algebra.Order.Group.Multiset
import Mathlib.Data.List.Nodup
import Mathlib.Tactic.Common

namespace Conc11.Library

variable {C : Type*}

/-! ## Order in a history -/

/-- `x` stands before `y`. -/
def Precedes (xs : List C) (x y : C) : Prop := [x, y].Sublist xs

namespace Precedes

variable {xs ys : List C} {x y a : C}

theorem mem_left (before : Precedes xs x y) : x ∈ xs :=
  before.mem List.mem_cons_self

theorem mem_right (before : Precedes xs x y) : y ∈ xs :=
  before.mem (List.mem_cons_of_mem x List.mem_cons_self)

theorem mono (before : Precedes xs x y) (sublist : xs.Sublist ys) : Precedes ys x y :=
  before.trans sublist

/-- The pairs that a new last element adds. -/
theorem concat : Precedes (xs ++ [a]) x y ↔ Precedes xs x y ∨ x ∈ xs ∧ y = a := by
  constructor
  · intro before
    obtain ⟨early, late, split, inEarly, inLate⟩ := List.sublist_append_iff.mp before
    rcases early with _ | ⟨u, _ | ⟨v, rest⟩⟩
    · -- both at the end is one too many
      rw [List.nil_append] at split
      rw [← split] at inLate
      exact absurd inLate.length_le (by simp)
    · obtain ⟨rfl, rfl⟩ : x = u ∧ [y] = late := by simpa using split
      exact .inr ⟨inEarly.mem List.mem_cons_self, by simpa using inLate⟩
    · obtain ⟨rfl, rfl, none⟩ : x = u ∧ y = v ∧ [] = rest ++ late := by simpa using split
      obtain ⟨rfl, rfl⟩ := List.nil_eq_append_iff.mp none
      exact .inl inEarly
  · rintro (before | ⟨member, rfl⟩)
    · exact before.mono (List.sublist_append_left xs [a])
    · exact (List.singleton_sublist.mpr member).append (List.Sublist.refl [y])

theorem of_cons (member : y ∈ xs) : Precedes (x :: xs) x y :=
  (List.singleton_sublist.mpr member).cons_cons x

theorem irrefl (nodup : xs.Nodup) : ¬ Precedes xs x x := fun before =>
  absurd (nodup.sublist before) (by simp)

theorem asymm (nodup : xs.Nodup) (before : Precedes xs x y) : ¬ Precedes xs y x := by
  intro after
  induction xs with
  | nil => cases before
  | cons a rest ih =>
      obtain ⟨fresh, restNodup⟩ := List.nodup_cons.mp nodup
      rcases List.sublist_cons_iff.mp before with both | ⟨tail, split, later⟩
      · rcases List.sublist_cons_iff.mp after with both' | ⟨tail', split', _⟩
        · exact ih restNodup both both'
        · obtain ⟨rfl, _⟩ := List.cons.inj split'
          exact fresh (mem_right both)
      · obtain ⟨rfl, rfl⟩ := List.cons.inj split
        have laterMem : y ∈ rest := List.singleton_sublist.mp later
        rcases List.sublist_cons_iff.mp after with both' | ⟨tail', split', _⟩
        · exact fresh (mem_right both')
        · obtain ⟨rfl, _⟩ := List.cons.inj split'
          exact fresh laterMem

end Precedes

/-! ## The line -/

/-- A number of permits and the callers that wait for some of them, with what
each asks for.  `woken` says that the first in line has been signalled.
`record` holds the requests that decide about signals; it may hold more than
those of the line.  The other fields are histories: the callers that came,
those of them that had to wait, those that got their permits and those that
gave up. -/
structure Line (C : Type*) where
  permits : Nat
  waiters : List (C × Nat)
  woken : Bool
  record : Multiset Nat
  arrived : List C
  queued : List C
  granted : List C
  left : List C

namespace Line

/-- The smallest recorded request can be met; with no request recorded this
holds as well. -/
def Due (record : Multiset Nat) (permits : Nat) : Prop :=
  record = 0 ∨ ∃ request ∈ record, request ≤ permits

/-- What happens to a line. -/
inductive Event (C : Type*) where
  | pass (c : C) (request : Nat)
  | barge (c : C) (request : Nat)
  | decline (c : C)
  | join (c : C) (request : Nat)
  | fail (c : C) (request : Nat)
  | release (count : Nat)
  | serve
  | requeue
  | leave (c : C)

/-- The moves of a line.  A caller that barges in or is declined does not look
at the line.  A caller that gives up or fails leaves its request in the record. -/
inductive Step (l : Line C) : Event C → Line C → Prop where
  | pass (c : C) (request : Nat) (fresh : c ∉ l.arrived) (empty : l.waiters = [])
      (enough : request ≤ l.permits) :
      Step l (.pass c request)
        { l with
          permits := l.permits - request
          arrived := l.arrived ++ [c]
          granted := l.granted ++ [c] }
  | barge (c : C) (request : Nat) (fresh : c ∉ l.arrived) (enough : request ≤ l.permits) :
      Step l (.barge c request)
        { l with
          permits := l.permits - request
          arrived := l.arrived ++ [c]
          granted := l.granted ++ [c] }
  | decline (c : C) (fresh : c ∉ l.arrived) :
      Step l (.decline c) { l with arrived := l.arrived ++ [c] }
  | join (c : C) (request : Nat) (fresh : c ∉ l.arrived)
      (waits : l.waiters = [] → l.permits < request) :
      Step l (.join c request)
        { l with
          waiters := l.waiters ++ [(c, request)]
          record := request ::ₘ l.record
          arrived := l.arrived ++ [c]
          queued := l.queued ++ [c] }
  | fail (c : C) (request : Nat) (fresh : c ∉ l.arrived) :
      Step l (.fail c request)
        { l with record := request ::ₘ l.record, arrived := l.arrived ++ [c] }
  | release (count : Nat) (woken : Bool)
      (signals : woken = true ↔
        l.woken = true ∨ l.waiters ≠ [] ∧ Due l.record (l.permits + count)) :
      Step l (.release count) { l with permits := l.permits + count, woken := woken }
  | serve (c : C) (request : Nat) (rest : List (C × Nat)) (woken : Bool)
      (front : l.waiters = (c, request) :: rest) (signalled : l.woken = true)
      (enough : request ≤ l.permits)
      (signals : woken = true ↔
        rest ≠ [] ∧ Due (l.record.erase request) (l.permits - request)) :
      Step l .serve
        { l with
          permits := l.permits - request
          waiters := rest
          woken := woken
          record := l.record.erase request
          granted := l.granted ++ [c] }
  | requeue (c : C) (request : Nat) (rest : List (C × Nat))
      (front : l.waiters = (c, request) :: rest) (signalled : l.woken = true)
      (short : l.permits < request) :
      Step l .requeue { l with waiters := rest ++ [(c, request)], woken := false }
  | leave (c : C) (request : Nat) (before after : List (C × Nat))
      (place : l.waiters = before ++ (c, request) :: after)
      (asleep : before = [] → l.woken = false) :
      Step l (.leave c) { l with waiters := before ++ after, left := l.left ++ [c] }

variable {l l' : Line C} {e : Event C}

/-! ## Signals -/

/-- The record covers the requests of the line, nobody is signalled in an
empty line, and the callers in line are different ones that have come. -/
structure Covered (l : Line C) : Prop where
  requests : (l.waiters.map Prod.snd : Multiset Nat) ≤ l.record
  idle : l.waiters = [] → l.woken = false
  distinct : (l.waiters.map Prod.fst).Nodup
  came : ∀ c ∈ l.waiters.map Prod.fst, c ∈ l.arrived

/-- Whoever stands first in line and can be served has been signalled. -/
def HeadSignalled (l : Line C) : Prop :=
  ∀ w rest, l.waiters = w :: rest → w.2 ≤ l.permits → l.woken = true

/-- The moves that take an unsignalled place in front: the new first in line
must not be one that could be served. -/
def KeepsSignal (l : Line C) : Event C → Prop
  | .requeue => ∀ w v rest, l.waiters = w :: v :: rest → l.permits < v.2
  | .leave c => ∀ request v rest, l.waiters = (c, request) :: v :: rest → l.permits < v.2
  | _ => True

/-- The line that a move leaves behind holds the same callers. -/
private theorem fst_perm {c : C} {request : Nat} {rest : List (C × Nat)} :
    ((rest ++ [(c, request)]).map Prod.fst).Perm (((c, request) :: rest).map Prod.fst) :=
  (List.perm_append_singleton _ _).map Prod.fst

namespace Covered

theorem step (covered : l.Covered) (moved : l.Step e l') : l'.Covered := by
  obtain ⟨requests, idle, distinct, came⟩ := covered
  cases moved with
  | pass c request fresh empty enough =>
      exact ⟨requests, idle, distinct, fun d inLine => List.mem_append_left _ (came d inLine)⟩
  | barge c request fresh enough =>
      exact ⟨requests, idle, distinct, fun d inLine => List.mem_append_left _ (came d inLine)⟩
  | decline c fresh =>
      exact ⟨requests, idle, distinct, fun d inLine => List.mem_append_left _ (came d inLine)⟩
  | join c request fresh waits =>
      refine ⟨?_, fun none => ?_, ?_, fun d inLine => ?_⟩
      · change ((l.waiters ++ [(c, request)]).map Prod.snd : Multiset Nat) ≤ request ::ₘ l.record
        have added : ((l.waiters ++ [(c, request)]).map Prod.snd : Multiset Nat) =
            request ::ₘ (l.waiters.map Prod.snd : Multiset Nat) :=
          Multiset.coe_eq_coe.mpr ((List.perm_append_singleton _ _).map Prod.snd)
        rw [added]
        exact Multiset.cons_le_cons request requests
      · exact absurd none (by simp)
      · rw [fst_perm.nodup_iff, List.map_cons, List.nodup_cons]
        exact ⟨fun inLine => fresh (came c inLine), distinct⟩
      · rw [fst_perm.mem_iff, List.map_cons, List.mem_cons] at inLine
        rcases inLine with rfl | old
        · exact List.mem_append_right _ (List.mem_singleton_self d)
        · exact List.mem_append_left _ (came d old)
  | fail c request fresh =>
      exact ⟨requests.trans (Multiset.le_cons_self _ _), idle, distinct,
        fun d inLine => List.mem_append_left _ (came d inLine)⟩
  | release count woken signals =>
      refine ⟨requests, fun none => ?_, distinct, came⟩
      have before : l.waiters = [] := none
      rw [← Bool.not_eq_true]
      intro awake
      rcases signals.mp awake with already | ⟨someone, _⟩
      · rw [idle before] at already
        cases already
      · exact someone before
  | serve c request rest woken front signalled enough signals =>
      rw [front] at requests distinct came
      refine ⟨?_, fun none => ?_, (List.nodup_cons.mp distinct).2,
        fun d inLine => came d (List.mem_cons_of_mem _ inLine)⟩
      · have erased := Multiset.erase_le_erase request requests
        rwa [List.map_cons, ← Multiset.cons_coe, Multiset.erase_cons_head] at erased
      · rw [← Bool.not_eq_true]
        exact fun awake => (signals.mp awake).1 none
  | requeue c request rest front signalled short =>
      rw [front] at requests distinct came
      refine ⟨?_, fun none => rfl, ?_, fun d inLine => came d (fst_perm.mem_iff.mp inLine)⟩
      · have same : ((rest ++ [(c, request)]).map Prod.snd : Multiset Nat) =
            (((c, request) :: rest).map Prod.snd : Multiset Nat) :=
          Multiset.coe_eq_coe.mpr ((List.perm_append_singleton _ _).map Prod.snd)
        rwa [← same] at requests
      · rwa [fst_perm.nodup_iff]
  | leave c request before after place asleep =>
      have shorter : (before ++ after).Sublist l.waiters := by
        rw [place]
        exact (List.sublist_cons_self _ _).append_left before
      refine ⟨?_, fun none => asleep (List.append_eq_nil_iff.mp none).1,
        distinct.sublist (shorter.map Prod.fst),
        fun d inLine => came d ((shorter.map Prod.fst).subset inLine)⟩
      exact (Multiset.coe_le.mpr (shorter.map Prod.snd).subperm).trans requests

/-- A request of the line is recorded. -/
theorem recorded (covered : l.Covered) {w : C × Nat} (inLine : w ∈ l.waiters) :
    w.2 ∈ l.record :=
  Multiset.mem_of_le covered.requests (Multiset.mem_coe.mpr (List.mem_map_of_mem inLine))

end Covered

/-- A caller that goes to the end of the line signals nobody: the next one in line
must not be one that could be served. -/
theorem headSignalled_requeue {c : C} {request : Nat} {rest : List (C × Nat)}
    (front : l.waiters = (c, request) :: rest) (short : l.permits < request) :
    HeadSignalled { l with waiters := rest ++ [(c, request)], woken := false } ↔
      l.KeepsSignal .requeue := by
  constructor
  · intro still w v others line
    rw [front] at line
    obtain ⟨_, rfl⟩ := List.cons.inj line
    exact Nat.lt_of_not_le fun fits =>
      Bool.false_ne_true (still v (others ++ [(c, request)]) rfl fits)
  · intro keeps w others line fits
    exfalso
    change rest ++ [(c, request)] = w :: others at line
    rcases rest with _ | ⟨v, more⟩
    · obtain ⟨rfl, _⟩ := List.cons.inj line
      exact Nat.not_lt.mpr fits short
    · obtain ⟨rfl, _⟩ := List.cons.inj line
      exact Nat.not_lt.mpr fits (keeps _ v more front)

/-- A caller that gives up from the front does so unsignalled, and whoever comes to
the front is not signalled either.  One further back leaves the front as it was. -/
theorem headSignalled_leave (covered : l.Covered) (signalled : l.HeadSignalled) {c : C}
    {request : Nat} {before after : List (C × Nat)}
    (place : l.waiters = before ++ (c, request) :: after)
    (asleep : before = [] → l.woken = false) :
    HeadSignalled { l with waiters := before ++ after, left := l.left ++ [c] } ↔
      l.KeepsSignal (.leave c) := by
  rcases before with _ | ⟨first, others⟩
  · have quiet := asleep rfl
    constructor
    · intro still request' v rest line
      obtain ⟨_, rfl⟩ := List.cons.inj (place.symm.trans line)
      refine Nat.lt_of_not_le fun fits => ?_
      rw [show l.woken = true from still v rest rfl fits] at quiet
      cases quiet
    · intro keeps w rest line fits
      have next : after = w :: rest := line
      rw [List.nil_append, next] at place
      exact absurd (keeps request w rest place) (Nat.not_lt.mpr fits)
  · refine iff_of_true (fun w rest line fits => ?_) fun request' v rest line => ?_
    · obtain ⟨rfl, _⟩ := List.cons.inj line
      exact signalled first _ place fits
    · -- the caller that leaves does not stand first
      exfalso
      have distinct := covered.distinct
      rw [place] at distinct line
      obtain ⟨rfl, _⟩ := List.cons.inj line
      simp at distinct

/-- A release signals the first in line if it can be served now, whatever signals
were lost before: its request is recorded. -/
theorem Covered.headSignalled_release (covered : l.Covered) {count : Nat}
    (moved : l.Step (.release count) l') : l'.HeadSignalled := by
  cases moved with
  | release _ woken signals =>
      intro w rest front fits
      have line : l.waiters = w :: rest := front
      refine signals.mpr (.inr ⟨by rw [line]; simp, .inr ⟨w.2, ?_, fits⟩⟩)
      exact covered.recorded (by rw [line]; exact List.mem_cons_self)

/-- The signal survives a move exactly when the move keeps it. -/
theorem headSignalled_iff (covered : l.Covered) (signalled : l.HeadSignalled)
    (moved : l.Step e l') : l'.HeadSignalled ↔ l.KeepsSignal e := by
  have covered' := covered.step moved
  cases moved with
  | pass c request fresh empty enough =>
      refine iff_of_true (fun w rest front => ?_) trivial
      exact absurd (empty.symm.trans front) (by simp)
  | barge c request fresh enough =>
      refine iff_of_true (fun w rest front fits => ?_) trivial
      exact signalled w rest front (fits.trans (Nat.sub_le _ _))
  | join c request fresh waits =>
      refine iff_of_true (fun w rest front fits => ?_) trivial
      change l.waiters ++ [(c, request)] = w :: rest at front
      rcases line : l.waiters with _ | ⟨first, others⟩
      · rw [line] at front
        obtain ⟨rfl, _⟩ := List.cons.inj front
        exact absurd (waits line) (Nat.not_lt.mpr fits)
      · rw [line, List.cons_append] at front
        obtain ⟨rfl, _⟩ := List.cons.inj front
        exact signalled first others line fits
  | fail c request fresh => exact iff_of_true signalled trivial
  | decline c fresh => exact iff_of_true signalled trivial
  | release count woken signals =>
      refine iff_of_true (fun w rest front fits => ?_) trivial
      have line : l.waiters = w :: rest := front
      refine signals.mpr (.inr ⟨by rw [line]; simp, .inr ⟨w.2, ?_, fits⟩⟩)
      exact covered.recorded (by rw [line]; exact List.mem_cons_self)
  | serve c request rest woken front _ enough signals =>
      refine iff_of_true (fun w others line fits => ?_) trivial
      have next : rest = w :: others := line
      refine signals.mpr ⟨by rw [next]; simp, .inr ⟨w.2, ?_, fits⟩⟩
      exact covered'.recorded (w := w) (by rw [line]; exact List.mem_cons_self)
  | requeue c request rest front _ short => exact headSignalled_requeue front short
  | leave c request before after place asleep =>
      exact headSignalled_leave covered signalled place asleep

end Line

/-! ## Order -/

/-- The callers in line, the first one first.  The other fields are the
histories of a line.  How many permits there are does not matter for the order. -/
structure Turns (C : Type*) where
  line : List C
  arrived : List C
  queued : List C
  granted : List C
  left : List C

namespace Turns

/-- The moves that keep the order of the line: nobody barges in, and nobody
goes back to the end of the line while others are in it. -/
inductive Step (t : Turns C) : Turns C → Prop where
  | pass (c : C) (fresh : c ∉ t.arrived) (empty : t.line = []) :
      Step t { t with arrived := t.arrived ++ [c], granted := t.granted ++ [c] }
  | come (c : C) (fresh : c ∉ t.arrived) : Step t { t with arrived := t.arrived ++ [c] }
  | join (c : C) (fresh : c ∉ t.arrived) :
      Step t
        { t with
          line := t.line ++ [c]
          arrived := t.arrived ++ [c]
          queued := t.queued ++ [c] }
  | stay : Step t t
  | serve (c : C) (rest : List C) (front : t.line = c :: rest) :
      Step t { t with line := rest, granted := t.granted ++ [c] }
  | leave (c : C) (before after : List C) (place : t.line = before ++ c :: after) :
      Step t { t with line := before ++ after, left := t.left ++ [c] }

variable {t t' : Turns C}

/-- The line follows the order of arrival, and so do the grants: a caller that
had to wait and has not given up is served before all that came after it. -/
structure Ordered (t : Turns C) : Prop where
  arrived : t.arrived.Nodup
  line : t.line.Sublist t.arrived
  granted : ∀ c ∈ t.granted, c ∈ t.arrived
  queued : ∀ c ∈ t.queued, c ∈ t.line ∨ c ∈ t.granted ∨ c ∈ t.left
  fair : ∀ x y, Precedes t.arrived x y → x ∈ t.queued → x ∉ t.left → y ∈ t.granted →
    Precedes t.granted x y

namespace Ordered

/-- A line nobody has come to. -/
theorem empty : Ordered (⟨[], [], [], [], []⟩ : Turns C) := by
  refine ⟨List.nodup_nil, List.Sublist.refl _, ?_, ?_, ?_⟩
  · exact fun c granted => absurd granted List.not_mem_nil
  · exact fun c queued => absurd queued List.not_mem_nil
  · exact fun x y _ _ _ granted => absurd granted List.not_mem_nil

/-- A caller that came only now is not part of any earlier pair. -/
private theorem precedes_old {c x y : C} (fresh : c ∉ t.arrived)
    (granted : ∀ c ∈ t.granted, c ∈ t.arrived) (before : Precedes (t.arrived ++ [c]) x y)
    (served : y ∈ t.granted) : Precedes t.arrived x y := by
  rcases Precedes.concat.mp before with old | ⟨_, rfl⟩
  · exact old
  · exact absurd (granted y served) fresh

/-- Nobody is in line, so whoever had to wait has been served. -/
theorem pass (ordered : t.Ordered) {c : C} (fresh : c ∉ t.arrived) (empty : t.line = []) :
    Ordered { t with arrived := t.arrived ++ [c], granted := t.granted ++ [c] } := by
  refine ⟨by simpa using ordered.arrived.concat fresh,
    ordered.line.trans (List.sublist_append_left _ _), fun d member => ?_, fun d waits => ?_,
    fun x y before waits stays served => ?_⟩
  · rcases List.mem_append.mp member with old | new
    · exact List.mem_append_left _ (ordered.granted d old)
    · exact List.mem_append_right _ new
  · rcases ordered.queued d waits with inLine | served | gone
    · exact .inl inLine
    · exact .inr (.inl (List.mem_append_left _ served))
    · exact .inr (.inr gone)
  · rw [Precedes.concat]
    rcases List.mem_append.mp served with old | new
    · have known := precedes_old fresh ordered.granted before old
      exact .inl (ordered.fair x y known waits stays old)
    · refine .inr ⟨?_, List.mem_singleton.mp new⟩
      rcases ordered.queued x waits with inLine | served | gone
      · rw [empty] at inLine
        cases inLine
      · exact served
      · exact absurd gone stays

/-- A caller that neither waits nor is served changes nothing for the others. -/
theorem come (ordered : t.Ordered) {c : C} (fresh : c ∉ t.arrived) :
    Ordered { t with arrived := t.arrived ++ [c] } := by
  refine ⟨by simpa using ordered.arrived.concat fresh,
    ordered.line.trans (List.sublist_append_left _ _),
    fun d member => List.mem_append_left _ (ordered.granted d member), ordered.queued, ?_⟩
  intro x y before waits stays served
  exact ordered.fair x y (precedes_old fresh ordered.granted before served) waits stays served

/-- A caller that gets in line has nobody behind it. -/
theorem join (ordered : t.Ordered) {c : C} (fresh : c ∉ t.arrived) :
    Ordered { t with
      line := t.line ++ [c], arrived := t.arrived ++ [c], queued := t.queued ++ [c] } := by
  refine ⟨by simpa using ordered.arrived.concat fresh, ordered.line.append (List.Sublist.refl _),
    fun d member => List.mem_append_left _ (ordered.granted d member), fun d waits => ?_,
    fun x y before waits stays served => ?_⟩
  · rcases List.mem_append.mp waits with old | new
    · exact (ordered.queued d old).imp_left (List.mem_append_left _)
    · exact .inl (List.mem_append_right _ new)
  · have old := precedes_old fresh ordered.granted before served
    rcases List.mem_append.mp waits with known | new
    · exact ordered.fair x y old known stays served
    · rw [List.mem_singleton.mp new] at old
      exact absurd old.mem_left fresh

/-- The first in line has nobody before it. -/
theorem serve (ordered : t.Ordered) {c : C} {rest : List C} (front : t.line = c :: rest) :
    Ordered { t with line := rest, granted := t.granted ++ [c] } := by
  obtain ⟨arrived, line, granted, queued, fair⟩ := ordered
  rw [front] at line queued
  refine ⟨arrived, (List.sublist_cons_self _ _).trans line, fun d member => ?_,
    fun d waits => ?_, fun x y before waits stays served => ?_⟩
  · rcases List.mem_append.mp member with old | new
    · exact granted d old
    · rw [List.mem_singleton.mp new]
      exact line.mem List.mem_cons_self
  · rw [List.mem_append, List.mem_singleton]
    rcases queued d waits with inLine | served | gone
    · rcases List.mem_cons.mp inLine with rfl | behind
      · exact .inr (.inl (.inr rfl))
      · exact .inl behind
    · exact .inr (.inl (.inl served))
    · exact .inr (.inr gone)
  · rw [Precedes.concat]
    rcases List.mem_append.mp served with old | new
    · exact .inl (fair x y before waits stays old)
    · obtain rfl := List.mem_singleton.mp new
      refine .inr ⟨?_, rfl⟩
      rcases queued x waits with inLine | served | gone
      · exfalso
        rcases List.mem_cons.mp inLine with rfl | behind
        · exact Precedes.irrefl arrived before
        · exact Precedes.asymm arrived before ((Precedes.of_cons behind).mono line)
      · exact served
      · exact absurd gone stays

/-- Leaving changes the order of nobody else. -/
theorem leave (ordered : t.Ordered) {c : C} {before after : List C}
    (place : t.line = before ++ c :: after) :
    Ordered { t with line := before ++ after, left := t.left ++ [c] } := by
  have shorter : (before ++ after).Sublist t.line := by
    rw [place]
    exact (List.sublist_cons_self _ _).append_left before
  refine ⟨ordered.arrived, shorter.trans ordered.line, ordered.granted, fun d waits => ?_,
    fun x y order waits stays served => ?_⟩
  · rcases ordered.queued d waits with inLine | served | gone
    · rw [place, List.mem_append, List.mem_cons] at inLine
      rw [List.mem_append, List.mem_append, List.mem_singleton]
      tauto
    · exact .inr (.inl served)
    · exact .inr (.inr (List.mem_append_left _ gone))
  · exact ordered.fair x y order waits (fun gone => stays (List.mem_append_left _ gone)) served

theorem step (ordered : t.Ordered) (moved : t.Step t') : t'.Ordered := by
  cases moved with
  | pass c fresh empty => exact ordered.pass fresh empty
  | come c fresh => exact ordered.come fresh
  | join c fresh => exact ordered.join fresh
  | stay => exact ordered
  | serve c rest front => exact ordered.serve front
  | leave c before after place => exact ordered.leave place

end Ordered

end Turns

end Conc11.Library
